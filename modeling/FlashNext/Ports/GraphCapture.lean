import FlashNext.Verified.Checked
import FlashNext.Ports.GraphDispatchExact

/-!
# Capture and replay of CUDA graphs

Capture runs the descriptors of the manager one by one, the piecewise ones first.  The first
forward pass allocates the output buffer, and every later one writes its rows to the head of
it.  A full graph is kept under its descriptor; a replay writes the rows of its tokens to the
buffer and hands them out.
-/

namespace FlashNext.Ports.GraphDispatch

open FlashNext.Verified.Checked

/-! ## The output buffer -/

/-- `buffer[:num_tokens] = rows`; one row is broadcast, other row counts do not fit. -/
def writeRows {ρ : Type} (buffer : List ρ) (numTokens : Nat) (rows : List ρ) :
    Option (List ρ) :=
  let room := min numTokens buffer.length
  if rows.length = room then some (rows ++ buffer.drop room)
  else match rows with
    | [row] => some (List.replicate room row ++ buffer.drop room)
    | _ => none

/-! ## The manager -/

/-- A captured graph runs the model on the first tokens of the static inputs. -/
structure CUDAGraph where
  numTokens : Nat
  deriving DecidableEq

/-- `ModelCudaGraphManager`.  A row of `hiddenStates` holds what the model outputs at a token:
the hidden state with the auxiliary ones, or the intermediate tensors before the last rank. -/
structure Manager (ρ : Type) where
  graphs : List (BatchExecutionDescriptor × CUDAGraph)
  hiddenStates : Option (List ρ)
  graphsCaptured : Bool

/-- The manager as it is built. -/
def Manager.fresh {ρ : Type} : Manager ρ := ⟨[], none, false⟩

inductive GraphError where
  | alreadyCaptured (desc : BatchExecutionDescriptor)
  | shapeMismatch (numTokens : Nat)
  | notFull (mode : Mode)
  | noGraph (desc : BatchExecutionDescriptor)
  | noHiddenStates
  deriving DecidableEq

section Capture

variable {ι ρ : Type} (model : ι → Nat → List ρ)

/-- `forward_fn(CUDAGraphMode.NONE)` outside a capture: a missing buffer is allocated with the
shape of the output, whose rows are then all written. -/
def Manager.forward (st : Manager ρ) (inputs : ι) (numTokens : Nat) :
    Except GraphError (Manager ρ) :=
  let rows := model inputs numTokens
  match writeRows (st.hiddenStates.getD rows) numTokens rows with
  | none => .error (.shapeMismatch numTokens)
  | some buffer => .ok { st with hiddenStates := some buffer }

/-- The loop body of `capture`.  The warmup pass runs in either mode; a piecewise graph is kept
by the model, a full one by the manager.  The pass that is captured only records its writes. -/
def Manager.captureDesc (dummy : BatchExecutionDescriptor → ι) (st : Manager ρ)
    (desc : BatchExecutionDescriptor) : Except GraphError (Manager ρ) := do
  let st ← st.forward model (dummy desc) desc.numTokens
  if desc.cgMode = .piecewise then
    return st
  require (desc ∉ st.graphs.map Prod.fst) (.alreadyCaptured desc)
  return { st with graphs := st.graphs ++ [(desc, ⟨desc.numTokens⟩)] }

/-- `capture`; profiling caps the number of full graphs. -/
def Manager.capture (cfg : Config) (dummy : BatchExecutionDescriptor → ι)
    (maxFullDescsToCapture : Option Nat) (st : Manager ρ) : Except GraphError (Manager ρ) := do
  let full := cfg.captureDescs .full
  let descs := cfg.captureDescs .piecewise ++ match maxFullDescsToCapture with
    | none => full
    | some cap => full.take cap
  let st ← descs.foldlM (Manager.captureDesc model dummy) st
  return { st with graphsCaptured := true }

/-! ## Replay -/

/-- `run_fullgraph`; the shapes of the recorded copy were checked when it was captured.  `inputs`
stands for what the static input buffers hold when the graph is replayed.  The rows are a view of
the output buffer, valid until the next replay. -/
def Manager.runFullgraph (st : Manager ρ) (inputs : ι) (desc : BatchExecutionDescriptor) :
    Except GraphError (List ρ × Manager ρ) := do
  require (desc.cgMode = .full) (.notFull desc.cgMode)
  match st.graphs.lookup desc with
  | none => .error (.noGraph desc)
  | some graph =>
      match st.hiddenStates with
      | none => .error .noHiddenStates
      | some buffer =>
          let replayed := (writeRows buffer graph.numTokens
            (model inputs graph.numTokens)).getD buffer
          return (replayed.take desc.numTokens, { st with hiddenStates := some replayed })

/-- The model run of `execute_model`: a full graph is replayed, else the model runs on the
padded tokens. -/
def Manager.runModel (cfg : Config) (st : Manager ρ) (inputs : ι) (shape : Shape) :
    Except GraphError (List ρ × Manager ρ) :=
  let desc := dispatch cfg st.graphsCaptured shape
  if desc.cgMode = .full then st.runFullgraph model inputs desc
  else .ok (model inputs desc.numTokens, st)

/-- The outputs of one batch after the other. -/
def Manager.runBatches (cfg : Config) (st : Manager ρ) :
    List (ι × Shape) → Except GraphError (List (List ρ))
  | [] => .ok []
  | batch :: batches => do
      let (rows, next) ← st.runModel model cfg batch.1 batch.2
      let rest ← Manager.runBatches cfg next batches
      return rows :: rest

end Capture

end FlashNext.Ports.GraphDispatch
