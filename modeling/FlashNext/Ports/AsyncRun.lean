import FlashNext.Verified.Checked
import FlashNext.Ports.AsyncInputIds

/-!
# Asynchronous scheduling on one rank

The scheduler sends a step before the tokens of the last one are known.  The runner holds a
placeholder for such a token; the token itself stays on the GPU, on the last rank as it was
sampled, on the other ranks as it was received.
-/

namespace FlashNext.Ports.AsyncRun

open FlashNext.Verified.Checked
open FlashNext.Ports.AsyncInputIds

variable {κ : Type} [DecidableEq κ]

/-! ## The scheduler's output -/

structure NewRequestData (κ : Type) where
  reqId : κ
  promptTokenIds : List Int
  numComputedTokens : Nat

/-- An entry of the lists of `CachedRequestData`; `new_token_ids` is empty in asynchronous
scheduling. -/
structure CachedRequestData (κ : Type) where
  reqId : κ
  numComputedTokens : Nat
  numOutputTokens : Nat
  resumed : Bool

structure SchedulerOutput (κ : Type) where
  finishedReqIds : List κ
  scheduledNewReqs : List (NewRequestData κ)
  scheduledCachedReqs : List (CachedRequestData κ)
  allTokenIds : κ → List Int
  numScheduledTokens : List (κ × Nat)

def SchedulerOutput.scheduledReqIds (out : SchedulerOutput κ) : List κ :=
  out.numScheduledTokens.map Prod.fst

def SchedulerOutput.numTokens (out : SchedulerOutput κ) (id : κ) : Nat :=
  (out.numScheduledTokens.lookup id).getD 0

/-! ## The runner -/

structure CachedRequestState where
  promptTokenIds : List Int
  outputTokenIds : List Int
  numComputedTokens : Nat

/-- `num_tokens`. -/
def CachedRequestState.numTokens (state : CachedRequestState) : Nat :=
  state.promptTokenIds.length + state.outputTokenIds.length

/-- A row of the persistent batch. -/
structure BatchRow where
  tokenIds : Nat → Int
  numTokensNoSpec : Nat
  numPromptTokens : Nat
  numComputedTokens : Nat

/-- The request states, the persistent batch, and what the last step has left. -/
structure Runner (κ : Type) where
  requests : κ → Option CachedRequestState
  rows : κ → Option BatchRow
  reqIds : List κ
  prevSampledTokenIds : Option (Nat → Int)
  prevReqIdToIndex : κ → Option Nat
  inputIds : Nat → Int

def Runner.fresh (inputIds : Nat → Int) : Runner κ where
  requests := fun _ => none
  rows := fun _ => none
  reqIds := []
  prevSampledTokenIds := none
  prevReqIdToIndex := fun _ => none
  inputIds := inputIds

inductive RunError (κ : Type) where
  | keyError (id : κ)
  | streamingRequest (id : κ)
  | resumedInBatch (id : κ)
  | exceedsMaxModelLen (numTokens : Nat)
  deriving DecidableEq

/-! ## `_update_states` -/

/-- The states and rows while the scheduler's output is worked in, and `reqs_to_add`. -/
structure Updating (κ : Type) where
  requests : κ → Option CachedRequestState
  rows : κ → Option BatchRow
  reqsToAdd : List (κ × CachedRequestState)

/-- Finished requests are dropped, and the rows of those that are not scheduled or that come
back from a preemption. -/
def Runner.dropRequests (st : Runner κ) (out : SchedulerOutput κ) : Updating κ :=
  let resumed := (out.scheduledCachedReqs.filter (·.resumed)).map (·.reqId)
  { requests := fun id => if id ∈ out.finishedReqIds then none else st.requests id
    rows := fun id =>
      if id ∉ out.finishedReqIds ∧ id ∈ out.scheduledReqIds ∧ id ∉ resumed then st.rows id
      else none
    reqsToAdd := [] }

/-- The loop body over new requests; a known one is a streaming request. -/
def Updating.addNew (u : Updating κ) (req : NewRequestData κ) :
    Except (RunError κ) (Updating κ) := do
  require (u.requests req.reqId = none) (RunError.streamingRequest req.reqId)
  let state : CachedRequestState := ⟨req.promptTokenIds, [], req.numComputedTokens⟩
  return { u with
    requests := Function.update u.requests req.reqId (some state)
    reqsToAdd := u.reqsToAdd ++ [(req.reqId, state)] }

/-- On the last rank the output tokens behind `num_output_tokens` are discarded. -/
def truncateOutput (isLastRank : Bool) (req : CachedRequestData κ) (state : CachedRequestState)
    (row : Option BatchRow) : CachedRequestState × Option BatchRow :=
  if isLastRank = true ∧ req.numOutputTokens < state.outputTokenIds.length then
    ({ state with outputTokenIds := state.outputTokenIds.take req.numOutputTokens },
      row.map fun r => { r with numTokensNoSpec := r.numPromptTokens + req.numOutputTokens })
  else (state, row)

/-- A row that stays; the other ranks advance their count to the computed tokens. -/
def advanceRow (isLastRank : Bool) (req : CachedRequestData κ) (row : BatchRow) : BatchRow :=
  { row with
    numComputedTokens := req.numComputedTokens
    numTokensNoSpec := if isLastRank then row.numTokensNoSpec
      else max row.numTokensNoSpec req.numComputedTokens }

/-- A request that comes back takes the output tokens from the scheduler. -/
def recoverOutput (out : SchedulerOutput κ) (req : CachedRequestData κ)
    (state : CachedRequestState) : CachedRequestState :=
  if 0 < req.numOutputTokens then
    let tokens := out.allTokenIds req.reqId
    { state with outputTokenIds := tokens.drop (tokens.length - req.numOutputTokens) }
  else state

/-- The loop body over cached requests. -/
def Updating.updateCached (isLastRank : Bool) (out : SchedulerOutput κ) (u : Updating κ)
    (req : CachedRequestData κ) : Except (RunError κ) (Updating κ) :=
  match u.requests req.reqId with
  | none => .error (.keyError req.reqId)
  | some state => do
      let computed := { state with numComputedTokens := req.numComputedTokens }
      let (truncated, row) := truncateOutput isLastRank req computed (u.rows req.reqId)
      require (req.resumed = false ∨ row = none) (RunError.resumedInBatch req.reqId)
      match row with
      | none =>
          let recovered := recoverOutput out req truncated
          return { u with
            requests := Function.update u.requests req.reqId (some recovered)
            reqsToAdd := u.reqsToAdd ++ [(req.reqId, recovered)] }
      | some row =>
          return { u with
            requests := Function.update u.requests req.reqId (some truncated)
            rows := Function.update u.rows req.reqId (some (advanceRow isLastRank req row)) }

/-- The loop body over `reqs_to_add`. -/
def addRow (addRequest : κ → CachedRequestState → BatchRow) (rows : κ → Option BatchRow)
    (req : κ × CachedRequestState) : κ → Option BatchRow :=
  Function.update rows req.1 (some (addRequest req.1 req.2))

/-- `_update_states`; `addRequest` gives the row that `input_batch.add_request` leaves, and
`order` is the order of the rows behind `condense` and the reordering of the attention backend. -/
def Runner.updateStates (isLastRank : Bool) (addRequest : κ → CachedRequestState → BatchRow)
    (order : List κ) (out : SchedulerOutput κ) (st : Runner κ) :
    Except (RunError κ) (Runner κ) := do
  let u ← out.scheduledNewReqs.foldlM Updating.addNew (st.dropRequests out)
  let u ← out.scheduledCachedReqs.foldlM (Updating.updateCached isLastRank out) u
  return { st with
    requests := u.requests
    rows := u.reqsToAdd.foldl (addRow addRequest) u.rows
    reqIds := order }

/-! ## `_prepare_inputs` -/

/-- A request as `_prepare_input_ids` sees it, and its entry of `discard_request_mask`. -/
def Runner.prepareRequest (st : Runner κ) (out : SchedulerOutput κ) (id : κ) :
    Except (RunError κ) (BatchReq × Bool) :=
  match st.rows id, st.requests id with
  | some row, some state =>
      let numScheduled := out.numTokens id
      .ok ({
        prevPosition := st.prevReqIdToIndex id
        numScheduledTokens := numScheduled
        draftLen := 0
        cpuIds := (List.range numScheduled).map fun j => row.tokenIds (row.numComputedTokens + j) },
        decide (row.numComputedTokens + numScheduled < state.numTokens))
  | _, _ => .error (.keyError id)

/-- The ids that a step gives to the model, and the discard mask. -/
structure StepTrace where
  inputIds : List Int
  discardRequestMask : List Bool
  deriving DecidableEq

/-- `_is_all_reqs_chunked_prefill`: no rank takes part in a broadcast then. -/
def StepTrace.isAllReqsChunkedPrefill (trace : StepTrace) : Bool :=
  trace.discardRequestMask.all id

def Runner.prepareInputs (st : Runner κ) (out : SchedulerOutput κ) :
    Except (RunError κ) (StepTrace × Runner κ) := do
  let prepared ← st.reqIds.mapM (st.prepareRequest out)
  let batch := prepared.map Prod.fst
  let inputIds := prepareInputIds ⟨st.prevSampledTokenIds, none, 0⟩ batch st.inputIds
  let total := (batch.map BatchReq.numScheduledTokens).sum
  return (⟨(List.range total).map inputIds, prepared.map Prod.snd⟩, { st with inputIds })

/-! ## Behind the sampler -/

/-- The rows that are not discarded, each with its index. -/
def Runner.kept (st : Runner κ) (trace : StepTrace) : List (κ × Nat) :=
  st.reqIds.zipIdx.filter fun entry => !(trace.discardRequestMask[entry.2]?).getD false

/-- The placeholder of a token that the CPU does not know. -/
def Runner.appendPlaceholder (writeToken : Bool) (st : Runner κ) (id : κ) : Runner κ :=
  { st with
    requests := Function.update st.requests id ((st.requests id).map fun state =>
      { state with outputTokenIds := state.outputTokenIds ++ [-1] })
    rows := Function.update st.rows id ((st.rows id).map fun row =>
      { row with
        tokenIds := if writeToken then Function.update row.tokenIds row.numTokensNoSpec (-1)
          else row.tokenIds
        numTokensNoSpec := row.numTokensNoSpec + 1 }) }

/-- The loop body of `_bookkeeping_sync` over the rows it keeps. -/
def Runner.bookkeepRow (maxModelLen : Nat) (st : Runner κ) (entry : κ × Nat) :
    Except (RunError κ) (Runner κ) := do
  let endIdx := ((st.rows entry.1).map (·.numTokensNoSpec)).getD 0 + 1
  require (endIdx ≤ maxModelLen) (RunError.exceedsMaxModelLen endIdx)
  return st.appendPlaceholder true entry.1

/-- `_bookkeeping_sync` on the last rank, in asynchronous scheduling. -/
def Runner.bookkeep (maxModelLen : Nat) (trace : StepTrace) (sampled : List Int)
    (st : Runner κ) : Except (RunError κ) (Runner κ) := do
  let st ← (st.kept trace).foldlM (Runner.bookkeepRow maxModelLen) st
  return { st with
    prevSampledTokenIds := some fun i => (sampled[i]?).getD 0
    prevReqIdToIndex := fun id => (st.kept trace).lookup id }

/-- `_pp_receive_prev_sampled_token_ids_to_input_batch` on the other ranks: without a broadcast
the buffer is left as it was allocated. -/
def Runner.receive (uninit : Nat → Int) (trace : StepTrace) (sampled : List Int)
    (st : Runner κ) : Runner κ :=
  { (st.kept trace).foldl (fun st entry => st.appendPlaceholder false entry.1) st with
    prevSampledTokenIds := some
      (if trace.isAllReqsChunkedPrefill then uninit else fun i => (sampled[i]?).getD 0)
    prevReqIdToIndex := fun id => (st.kept trace).lookup id }

/-! ## Runs -/

/-- A step: what the scheduler sends, the order of the rows, and what the last rank samples. -/
structure StepInput (κ : Type) where
  output : SchedulerOutput κ
  order : List κ
  sampled : List Int

/-- What depends on memory that a rank has not written: the rows that `input_batch.add_request`
leaves, and a buffer as it was allocated. -/
structure Memory (κ : Type) where
  addRequest : κ → CachedRequestState → BatchRow
  uninit : Nat → Int

/-- `execute_model` and `sample_tokens` on one rank. -/
def Runner.step (isLastRank : Bool) (maxModelLen : Nat) (memory : Memory κ)
    (input : StepInput κ) (st : Runner κ) : Except (RunError κ) (StepTrace × Runner κ) := do
  let st ← st.updateStates isLastRank memory.addRequest input.order input.output
  let (trace, st) ← st.prepareInputs input.output
  let st ← if isLastRank then st.bookkeep maxModelLen trace input.sampled
    else pure (st.receive memory.uninit trace input.sampled)
  return (trace, st)

/-- The traces of a run. -/
def Runner.run (isLastRank : Bool) (maxModelLen : Nat) (memory : Nat → Memory κ) :
    List (StepInput κ) → Runner κ → Except (RunError κ) (List StepTrace)
  | [], _ => .ok []
  | input :: inputs, st => do
      let (trace, next) ← st.step isLastRank maxModelLen (memory inputs.length) input
      let traces ← Runner.run isLastRank maxModelLen memory inputs next
      return trace :: traces

end FlashNext.Ports.AsyncRun
