import FlashNext.Verified.Checked
import FlashNext.Verified.OrderedDicts
import FlashNext.Verified.Varlen

/-!
# Prompt log probabilities

A prompt is prefilled in chunks, and from its start again behind a preemption.  The rows of a
chunk are copied into tensors for the whole prompt; the runner returns the tensors in the step
that computes the last token of the prompt, and forgets about the request.

The model head and the sampler are parameters, and work row by row.  The three tensors of
`LogprobsTensors` are indexed alike, so they are kept together as rows.  Streaming requests are
left out, and the dictionary holds the tensors as they are behind the copy.
-/

namespace FlashNext.Ports.PromptLogprobs

open FlashNext.Verified.Checked
open FlashNext.Verified.OrderedDicts
open FlashNext.Verified.Varlen

variable {κ : Type} [DecidableEq κ] {H L R : Type}

inductive LogprobsMode where
  | rawLogits
  | processedLogits
  | rawLogprobs
  | processedLogprobs

/-- What is not in the repository: the head of the model and the sampler. -/
structure Env (H L R : Type) where
  logprobsMode : LogprobsMode
  vocabSize : Nat
  computeLogits : H → L
  toFloat32 : L → L
  computeLogprobs : L → L
  gatherLogprobs : L → Nat → Int → R

/-- The scores of a row. -/
def Env.scores (env : Env H L R) (logits : L) : L :=
  match env.logprobsMode with
  | .rawLogits | .processedLogits => env.toFloat32 logits
  | .rawLogprobs | .processedLogprobs => env.computeLogprobs logits

/-! ## The scheduler's output -/

/-- `prompt_token_ids` is `None` where the prompt is given by embeddings. -/
structure NewRequestData (κ : Type) where
  reqId : κ
  promptTokenIds : Option (List Int)
  numComputedTokens : Nat
  promptLogprobs : Option Int

structure CachedRequestData (κ : Type) where
  reqId : κ
  numComputedTokens : Nat

/-- The scheduler's output, the order of the batch, and what the model gave. -/
structure Step (κ H : Type) where
  finishedReqIds : List κ
  scheduledNewReqs : List (NewRequestData κ)
  scheduledCachedReqs : List (CachedRequestData κ)
  numScheduledTokens : List (κ × Nat)
  reqIds : List κ
  hiddenStates : List H

def Step.numTokens (step : Step κ H) (id : κ) : Nat := (get id step.numScheduledTokens).getD 0

/-! ## The runner -/

/-- A row that has not been copied yet is `none`. -/
abbrev LogprobsTensors (R : Type) := List (Option R)

structure CachedRequestState (R : Type) where
  promptTokenIds : Option (List Int)
  numComputedTokens : Nat
  inProgressPromptLogprobsCpu : Option (LogprobsTensors R)

structure Runner (κ R : Type) where
  requests : κ → Option (CachedRequestState R)
  numPromptLogprobs : List (κ × Nat)

def Runner.fresh : Runner κ R := ⟨fun _ => none, []⟩

inductive RunError (κ : Type) where
  | keyError (id : κ)
  | streamingRequest (id : κ)
  | negativeDimension
  | shapeMismatch
  deriving DecidableEq

/-! ## `_update_states` -/

def Runner.finish (finishedReqIds : List κ) (st : Runner κ R) : Runner κ R where
  requests := fun id => if id ∈ finishedReqIds then none else st.requests id
  numPromptLogprobs := st.numPromptLogprobs.filter fun entry => entry.1 ∉ finishedReqIds

/-- A count of -1 stands for the whole vocabulary. -/
def Env.numPromptLogprobs (env : Env H L R) (promptLogprobs : Int) : Nat :=
  if promptLogprobs = -1 then env.vocabSize else promptLogprobs.toNat

/-- The loop body over new requests. -/
def addNew (env : Env H L R) (st : Runner κ R) (req : NewRequestData κ) :
    Except (RunError κ) (Runner κ R) := do
  require ((st.requests req.reqId).isNone) (RunError.streamingRequest req.reqId)
  return {
    requests := Function.update st.requests req.reqId
      (some ⟨req.promptTokenIds, req.numComputedTokens, none⟩)
    numPromptLogprobs := match req.promptLogprobs with
      | none => st.numPromptLogprobs
      | some n => put req.reqId (env.numPromptLogprobs n) st.numPromptLogprobs }

/-- The loop body over cached requests. -/
def updateCached (st : Runner κ R) (req : CachedRequestData κ) :
    Except (RunError κ) (Runner κ R) :=
  match st.requests req.reqId with
  | none => .error (.keyError req.reqId)
  | some state => .ok { st with
      requests := Function.update st.requests req.reqId
        (some { state with numComputedTokens := req.numComputedTokens }) }

/-- `_update_states`, as far as prompt log probabilities depend on it. -/
def updateStates (env : Env H L R) (step : Step κ H) (st : Runner κ R) :
    Except (RunError κ) (Runner κ R) := do
  let st ← step.scheduledNewReqs.foldlM (addNew env) (st.finish step.finishedReqIds)
  step.scheduledCachedReqs.foldlM updateCached st

/-! ## `_get_prompt_logprobs_dict` -/

/-- `LogprobsTensors.empty_cpu` -/
def emptyCpu (numPositions : Int) : Except (RunError κ) (LogprobsTensors R) := do
  require (0 ≤ numPositions) RunError.negativeDimension
  return List.replicate numPositions.toNat none

/-- Copy rows into the slice that starts at `start`. -/
def copyRows (start : Nat) (rows : List R) (tensors : LogprobsTensors R) :
    Except (RunError κ) (LogprobsTensors R) := do
  require (start + rows.length ≤ tensors.length) RunError.shapeMismatch
  return tensors.take start ++ (rows.map some ++ tensors.drop (start + rows.length))

/-- The rows of a chunk, with the next token of the prompt as the target of each. -/
def chunkRows (env : Env H L R) (step : Step κ H) (id : κ) (numPromptLogprobs : Nat)
    (promptTokenIds : List Int) (startIdx numLogits : Nat) : Except (RunError κ) (List R) := do
  require (id ∈ step.reqIds) (RunError.keyError id)
  let offset := (cuSeqlens 0 (step.reqIds.map step.numTokens)).getD (step.reqIds.idxOf id) 0
  let promptHiddenStates := (step.hiddenStates.drop offset).take numLogits
  let logits := promptHiddenStates.map env.computeLogits
  let tgtTokenIds := (promptTokenIds.drop (startIdx + 1)).take numLogits
  let scores := logits.map env.scores
  return List.zipWith (fun score token => env.gatherLogprobs score numPromptLogprobs token)
    scores tgtTokenIds

/-- The tensors of a request; empty ones at its first chunk. -/
def CachedRequestState.logprobsTensors (request : CachedRequestState R)
    (numPromptTokens : Int) : Except (RunError κ) (LogprobsTensors R) :=
  match request.inProgressPromptLogprobsCpu with
  | some tensors => .ok tensors
  | none => emptyCpu (numPromptTokens - 1)

/-- Copy the rows of a chunk; the last one may be empty. -/
def fillChunk (env : Env H L R) (step : Step κ H) (id : κ) (numPromptLogprobs : Nat)
    (promptTokenIds : List Int) (startIdx : Nat) (numLogits : Int)
    (tensors : LogprobsTensors R) : Except (RunError κ) (LogprobsTensors R) :=
  if numLogits ≤ 0 then .ok tensors
  else do
    let rows ← chunkRows env step id numPromptLogprobs promptTokenIds startIdx numLogits.toNat
    copyRows startIdx rows tensors

/-- What the loop over the requests carries. -/
structure Collecting (κ R : Type) where
  requests : κ → Option (CachedRequestState R)
  promptLogprobsDict : List (κ × LogprobsTensors R)
  completedPrefillReqs : List κ

/-- The loop body. -/
def collect (env : Env H L R) (step : Step κ H) (c : Collecting κ R) (entry : κ × Nat) :
    Except (RunError κ) (Collecting κ R) :=
  match get entry.1 step.numScheduledTokens with
  | none => .ok c
  | some numTokens =>
      match c.requests entry.1 with
      | none => .error (.keyError entry.1)
      | some request =>
          match request.promptTokenIds with
          | none => .ok c
          | some promptTokenIds => do
              let numPromptTokens : Int := promptTokenIds.length
              let logprobsTensors ← request.logprobsTensors numPromptTokens
              let startIdx := request.numComputedTokens
              let numRemainingTokens := numPromptTokens - (startIdx + 1)
              let isChunk : Bool := numTokens ≤ numRemainingTokens
              let numLogits := if isChunk then (numTokens : Int) else numRemainingTokens
              let logprobsTensors ← fillChunk env step entry.1 entry.2 promptTokenIds startIdx
                numLogits logprobsTensors
              return {
                requests := Function.update c.requests entry.1
                  (some { request with inProgressPromptLogprobsCpu := some logprobsTensors })
                promptLogprobsDict := if isChunk then c.promptLogprobsDict
                  else c.promptLogprobsDict ++ [(entry.1, logprobsTensors)]
                completedPrefillReqs := if isChunk then c.completedPrefillReqs
                  else c.completedPrefillReqs ++ [entry.1] }

/-- Drop the tensors of a request. -/
def CachedRequestState.dropTensors (state : CachedRequestState R) : CachedRequestState R :=
  { state with inProgressPromptLogprobsCpu := none }

/-- `_get_prompt_logprobs_dict` -/
def getPromptLogprobsDict (env : Env H L R) (step : Step κ H) (st : Runner κ R) :
    Except (RunError κ) (List (κ × LogprobsTensors R) × Runner κ R) := do
  let c ← st.numPromptLogprobs.foldlM (collect env step) ⟨st.requests, [], []⟩
  return (c.promptLogprobsDict, {
    requests := fun id => if id ∈ c.completedPrefillReqs then
      (c.requests id).map CachedRequestState.dropTensors else c.requests id
    numPromptLogprobs := st.numPromptLogprobs.filter fun entry =>
      entry.1 ∉ c.completedPrefillReqs })

/-- The dictionaries that the runner returns, step by step. -/
def runSteps (env : Env H L R) (st : Runner κ R) :
    List (Step κ H) → Except (RunError κ) (List (List (κ × LogprobsTensors R)))
  | [] => .ok []
  | step :: steps => do
      let st ← updateStates env step st
      let (dict, st) ← getPromptLogprobsDict env step st
      let rest ← runSteps env st steps
      return dict :: rest

end FlashNext.Ports.PromptLogprobs
