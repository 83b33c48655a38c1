import FlashNext.Verified.Checked
import FlashNext.Verified.Ragged

/-!
# The rows of a speculative step

A request that is to be verified comes with its draft tokens behind the token sampled last.
The target model computes a hidden state for every token, but logits only where a token may
be sampled: behind each draft and behind the token before the drafts.  The metadata says
which rows these are, which of them judge a draft, and which give the bonus token.
-/

namespace FlashNext.Ports.SpecDecode

open FlashNext.Verified.Checked
open FlashNext.Verified.Ragged

variable {κ α : Type} [DecidableEq κ]

inductive SpecError where
  | indexError
  | keyError
  | assertion
  deriving DecidableEq, Repr

structure SpecDecodeMetadata where
  draftTokenIds : List Int
  numDraftTokens : List Nat
  cuNumDraftTokens : List Nat
  cuNumSampledTokens : List Nat
  targetLogitsIndices : List Nat
  bonusLogitsIndices : List Nat
  logitsIndices : List Nat

/-- A read that may lie outside. -/
def checked (value : Option α) (e : SpecError) : Except SpecError α := value.elim (.error e) .ok

/-- `_get_cumsum_and_arange`: the sums, and what is written to `arange_out`. -/
def getCumsumAndArange (numTokens : List Nat) : Except SpecError (List Nat × List Nat) := do
  let cuNumTokens := cumsum numTokens
  let totalNumTokens ← checked cuNumTokens.getLast? .indexError
  let cumsumsOffsets := repeatBy (List.zipWith (· - ·) cuNumTokens numTokens) numTokens
  .ok (cuNumTokens, List.zipWith (· - ·) (List.range' 0 totalNumTokens) cumsumsOffsets)

/-- `_calc_spec_decode_metadata`.  The caller has checked that a request has more tokens than
drafts, so no difference is negative. -/
def calcSpecDecodeMetadata (inputIds : List Int) (numDraftTokens cuNumScheduledTokens : List Nat) :
    Except SpecError SpecDecodeMetadata := do
  let numSampledTokens := numDraftTokens.map (· + 1)
  let (cuNumSampledTokens, arange) ← getCumsumAndArange numSampledTokens
  let logitsIndices := List.zipWith (· + ·)
    (repeatBy (List.zipWith (· - ·) cuNumScheduledTokens numSampledTokens) numSampledTokens) arange
  let bonusLogitsIndices := cuNumSampledTokens.map (· - 1)
  let (cuNumDraftTokens, arange) ← getCumsumAndArange numDraftTokens
  let targetLogitsIndices := List.zipWith (· + ·)
    (repeatBy (List.zipWith (· - ·) cuNumSampledTokens numSampledTokens) numDraftTokens) arange
  let sampledIds ← checked (gather inputIds logitsIndices) .indexError
  let draftTokenIds ← checked (gather sampledIds (targetLogitsIndices.map (· + 1))) .indexError
  .ok {
    draftTokenIds := draftTokenIds
    numDraftTokens := numDraftTokens
    cuNumDraftTokens := cuNumDraftTokens
    cuNumSampledTokens := cuNumSampledTokens
    targetLogitsIndices := targetLogitsIndices
    bonusLogitsIndices := bonusLogitsIndices
    logitsIndices := logitsIndices }

/-! ## Counting the drafts -/

/-- `num_draft_tokens` and `num_decode_draft_tokens`. -/
structure DraftCounts where
  numDraftTokens : List Nat
  numDecodeDraftTokens : List Int

/-- The body of the loop over `scheduled_spec_decode_tokens`; `batch` holds the ids and the
scheduled tokens. -/
def countDrafts (batch : List (κ × Nat)) (counts : DraftCounts) (entry : κ × List Int) :
    Except SpecError DraftCounts := do
  let reqIdx ← checked (batch.findIdx? fun r => r.1 = entry.1) .keyError
  let draftLen := entry.2.length
  let scheduled ← checked (batch[reqIdx]?.map Prod.snd) .indexError
  require (draftLen + 1 ≤ scheduled) .assertion
  .ok {
    numDraftTokens := counts.numDraftTokens.set reqIdx draftLen
    numDecodeDraftTokens :=
      if scheduled = draftLen + 1 then counts.numDecodeDraftTokens.set reqIdx draftLen
      else counts.numDecodeDraftTokens }

/-- What the end of `_prepare_inputs` computes, and the counts it stores; of `numSampledTokens`
it returns the maximum. -/
structure PreparedLogits where
  logitsIndices : List Nat
  specDecodeMetadata : Option SpecDecodeMetadata
  numSampledTokens : List Nat
  numDecodeDraftTokens : Option (List Int)

/-- The end of `_prepare_inputs`, where the rows of the logits are chosen. -/
def prepareLogits (batch : List (κ × Nat)) (scheduledSpecDecodeTokens : List (κ × List Int))
    (inputIds : List Int) : Except SpecError PreparedLogits :=
  let cuNumTokens := cumsum (batch.map Prod.snd)
  if scheduledSpecDecodeTokens.isEmpty then
    .ok {
      logitsIndices := cuNumTokens.map (· - 1)
      specDecodeMetadata := none
      numSampledTokens := batch.map fun _ => 1
      numDecodeDraftTokens := none }
  else do
    let counts ← scheduledSpecDecodeTokens.foldlM (countDrafts batch)
      ⟨batch.map fun _ => 0, batch.map fun _ => -1⟩
    let metadata ← calcSpecDecodeMetadata inputIds counts.numDraftTokens cuNumTokens
    .ok {
      logitsIndices := metadata.logitsIndices
      specDecodeMetadata := some metadata
      numSampledTokens := counts.numDraftTokens.map (· + 1)
      numDecodeDraftTokens := some counts.numDecodeDraftTokens }

/-! ## Draft probabilities -/

/-- What the drafter has left: a row of probabilities for each draft of a request. -/
structure DraftProbs (κ α : Type) where
  reqIds : List κ
  rows : List (List α)

/-- `_get_spec_decode_draft_probs`; `None` also where a request is missing. -/
def getSpecDecodeDraftProbs (cached : Option (DraftProbs κ α)) (reqIds : List κ)
    (numDraftTokens : List Nat) : Option (List α) := do
  let cached ← cached
  let rows ← ((reqIds.zip numDraftTokens).filter fun r => r.2 ≠ 0).mapM fun r => do
    let probs ← (cached.reqIds.zip cached.rows).lookup r.1
    some (probs.take r.2)
  if rows.isEmpty then none else some rows.flatten

end FlashNext.Ports.SpecDecode
