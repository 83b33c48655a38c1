import FlashNext.Verified.Ragged
import FlashNext.Verified.Scatter

/-!
# Drafting behind a rejection

Some drafts of a request have been rejected.  The drafter then either runs on a batch that is
compacted to the accepted tokens, or, to spare a look at the sampled tokens on the CPU, on the
whole batch, where the rejected tokens are padding.  The padding is written to the draft KV
cache as well.

The draft model has one layer: what a row leaves in the cache depends on this row, and what it
gives depends on the row and the entries up to its own.  Token ids, positions and hidden states
of the target are indexed alike, so they are kept together as rows.  The model, the sampler and
the Triton kernels of the drafter are parameters.  Multimodal inputs, several position
dimensions and the padding of CUDA graphs are left out.
-/

namespace FlashNext.Ports.PaddedDrafts

open FlashNext.Verified.Ragged
open FlashNext.Verified.Scatter
open FlashNext.Verified.Varlen

variable {H V O M : Type}

/-- A row of the drafter's input. -/
structure Row (H : Type) where
  inputId : Int
  position : Nat
  hidden : H

/-- `CommonAttentionMetadata`; `none` is the padding slot. -/
structure CommonAttentionMetadata where
  queryStartLoc : List Nat
  seqLens : List Nat
  blockTable : List (List Nat)
  slotMapping : List (Option Nat)

/-- The drafter.  Its parameters are the model, what `_sample_draft_tokens` draws from a row of the
model for a request, `RejectionSampler.parse_output` for a row, and the kernels, each for one
request. -/
structure Drafter (H V O M : Type) where
  blockSize : Nat
  maxModelLen : Nat
  effectiveDrafterMaxModelLen : Nat
  numSpeculativeTokens : Nat
  keyValue : Row H → V
  attend : Row H → List V → O × H
  sampleDraft : Nat → M → O → Int
  parseOutput : List Int → List Int
  prepareNextTokenPadded : List Int → Bool → Int → Int × Nat
  prepareInputsPadded : List Nat → List Nat → List Nat → Nat → Nat × Nat
  stepUpdate : Nat → List Nat → Nat → Nat × Nat × Option Nat

/-- A request of the batch, with the row of the sampled tokens. -/
structure DraftRequest (H M : Type) where
  tokens : List (Int × H)
  numDraftTokens : Nat
  numComputedTokens : Nat
  blockTable : List Nat
  sampledTokenIds : List Int
  discard : Bool
  getTokenId : Nat → Int
  numTokensNoSpec : Nat
  samplingMetadata : M

variable (env : Drafter H V O M)

/-! ## The batch of the target -/

/-- The slot of a position. -/
def Drafter.slot (blockTable : List Nat) (position : Nat) : Nat :=
  blockTable.getD (position / env.blockSize) 0 * env.blockSize + position % env.blockSize

def DraftRequest.numScheduledTokens (r : DraftRequest H M) : Nat := r.tokens.length

/-- The target's rows of a request. -/
def DraftRequest.rows (r : DraftRequest H M) : List (Row H) :=
  r.tokens.mapIdx fun j token => ⟨token.1, r.numComputedTokens + j, token.2⟩

/-- The slots of these rows. -/
def DraftRequest.slots (r : DraftRequest H M) : List (Option Nat) :=
  r.tokens.mapIdx fun j _ => some (env.slot r.blockTable (r.numComputedTokens + j))

def commonAttnMetadata (batch : List (DraftRequest H M)) : CommonAttentionMetadata where
  queryStartLoc := cuSeqlens 0 (batch.map DraftRequest.numScheduledTokens)
  seqLens := batch.map fun r => r.numComputedTokens + r.numScheduledTokens
  blockTable := batch.map DraftRequest.blockTable
  slotMapping := batch.flatMap (DraftRequest.slots env)

/-! ## Next tokens -/

/-- The valid sampled tokens, as `_bookkeeping_sync` collects them. -/
def validSampledTokenIds (useSpecDecode : Bool) (r : DraftRequest H M) : List Int :=
  if r.discard then []
  else if useSpecDecode then env.parseOutput r.sampledTokenIds
  else r.sampledTokenIds

/-- `prepare_next_token_ids_cpu`, for one request. -/
def nextTokenIdCpu (useSpecDecode : Bool) (r : DraftRequest H M) : Int :=
  ((validSampledTokenIds env useSpecDecode r).getLast?).getD
    (r.getTokenId (r.numComputedTokens + r.numScheduledTokens))

/-- `prepare_next_token_ids_padded`, for one request: the next token and the number of valid
tokens. -/
def nextTokenIdPadded (r : DraftRequest H M) : Int × Nat :=
  env.prepareNextTokenPadded r.sampledTokenIds r.discard (r.getTokenId (r.numTokensNoSpec - 1))

/-! ## Inputs of the drafter -/

/-- `prepare_inputs`: the batch without the rejected tokens, and where its rows are taken. -/
def prepareInputs (cad : CommonAttentionMetadata) (sampledTokenIds : List (List Int))
    (numDraftTokens : List Nat) : Option (CommonAttentionMetadata × List Nat) := do
  let numRejectedTokens := List.zipWith
    (fun (n : Nat) ids => if 0 < n then n + 1 - ids.length else 0) numDraftTokens sampledTokenIds
  let newSeqLens := List.zipWith (· - ·) cad.seqLens numRejectedTokens
  let newQueryLens := List.zipWith (· - ·) cad.queryStartLoc.tail cad.queryStartLoc
  let newNumTokens := List.zipWith (· - ·) newQueryLens numRejectedTokens
  let newQueryStartLoc := 0 :: cumsum newNumTokens
  let totalNumTokens ← newQueryStartLoc.getLast?
  let tokenOffsets := List.zipWith (· - ·) (List.range' 0 totalNumTokens)
    (repeatBy newQueryStartLoc.dropLast newNumTokens)
  let tokenIndices := List.zipWith (· + ·) (repeatBy cad.queryStartLoc.dropLast newNumTokens)
    tokenOffsets
  let slotMapping ← gather cad.slotMapping tokenIndices
  some (⟨newQueryStartLoc, newSeqLens, cad.blockTable, slotMapping⟩, tokenIndices)

/-! ## The draft model -/

/-- What is written to the KV cache. -/
def store (slotMapping : List (Option Nat)) (rows : List (Row H)) (cache : Nat → V) : Nat → V :=
  (slotMapping.zip rows).foldl (fun cache entry =>
    entry.1.elim cache fun slot => Function.update cache slot (env.keyValue entry.2)) cache

/-- The entries of the first `n` positions. -/
def context (cache : Nat → V) (blockTable : List Nat) (n : Nat) : List V :=
  (List.range n).map fun p => cache (env.slot blockTable p)

/-- A forward pass: every row attends to the positions up to its own. -/
def forward (cad : CommonAttentionMetadata) (rows : List (Row H)) (cache : Nat → V) :
    List (O × H) × (Nat → V) :=
  let cache := store env cad.slotMapping rows cache
  let requests := (segments cad.queryStartLoc rows).zip (cad.seqLens.zip cad.blockTable)
  (requests.flatMap fun q => q.1.mapIdx fun j row =>
    env.attend row (context env cache q.2.2 (q.2.1 - q.1.length + j + 1)), cache)

/-! ## The proposal -/

/-- The rows of the first pass: the ids shifted by one, and the next tokens at the rows to
sample from; `stale` stands in the buffer behind the last token. -/
def setInputsFirstPass (rows : List (Row H)) (nextTokenIds : List Int)
    (tokenIndicesToSample : List Nat) (stale : Nat → Int) : List (Row H) :=
  let shifted := fun i => ((rows[i + 1]?).map Row.inputId).getD (stale i)
  let inputIds := put tokenIndicesToSample nextTokenIds shifted
  rows.mapIdx fun i row => { row with inputId := inputIds i }

/-- What the loop over the draft steps carries. -/
structure Drafting (H V : Type) where
  draftTokenIds : List Int
  positions : List Nat
  hiddenStates : List H
  seqLens : List Nat
  cache : Nat → V
  draftTokenIdsList : List (List Int)

/-- The loop body. -/
def draftStep (blockTable : List (List Nat)) (sampling : List M) (s : Drafting H V)
    (tokenIndex : Nat) : Drafting H V :=
  let moved := List.zipWith (fun p q => env.stepUpdate p q.1 q.2) s.positions
    (blockTable.zip s.seqLens)
  let positions := moved.map Prod.fst
  let seqLens := moved.map fun q => q.2.1
  let cad : CommonAttentionMetadata := {
    queryStartLoc := List.range (positions.length + 1)
    seqLens := seqLens
    blockTable := blockTable
    slotMapping := moved.map fun q => q.2.2 }
  let rows := List.zipWith (fun inputId q => ⟨inputId, q.1, q.2⟩) s.draftTokenIds
    (positions.zip s.hiddenStates)
  let (outputs, cache) := forward env cad rows s.cache
  let draftTokenIds := List.zipWith (env.sampleDraft (tokenIndex + 1)) sampling
    (outputs.map Prod.fst)
  { draftTokenIds := draftTokenIds
    positions := positions
    hiddenStates := outputs.map Prod.snd
    seqLens := seqLens
    cache := cache
    draftTokenIdsList := s.draftTokenIdsList ++ [draftTokenIds] }

/-- `torch.stack(columns, dim=1)`. -/
def stackColumns (numReqs : Nat) (columns : List (List Int)) : List (List Int) :=
  (List.range numReqs).map fun i => columns.filterMap (·[i]?)

/-- `propose`. -/
def propose (rows : List (Row H)) (nextTokenIds : List Int) (sampling : List M)
    (tokenIndicesToSample : Option (List Nat)) (cad : CommonAttentionMetadata)
    (numRejectedTokens : Option (List Nat)) (stale : Nat → Int) (cache : Nat → V) :
    Option (List (List Int) × (Nat → V)) := do
  let batchSize := cad.seqLens.length
  let toSample := tokenIndicesToSample.getD (cad.queryStartLoc.tail.map (· - 1))
  let rows := setInputsFirstPass rows nextTokenIds toSample stale
  let (outputs, cache) := forward env cad rows cache
  let sampled ← gather outputs toSample
  if env.numSpeculativeTokens = 0 then
    return (List.replicate batchSize [], cache)
  let draftTokenIds := List.zipWith (env.sampleDraft 0) sampling (sampled.map Prod.fst)
  if env.numSpeculativeTokens = 1 then
    return (draftTokenIds.map fun id => [id], cache)
  let sampledRows ← gather rows toSample
  let drafting : Drafting H V := {
    draftTokenIds := draftTokenIds
    positions := sampledRows.map Row.position
    hiddenStates := sampled.map Prod.snd
    seqLens := (numRejectedTokens.map (List.zipWith (· - ·) cad.seqLens)).getD cad.seqLens
    cache := cache
    draftTokenIdsList := [draftTokenIds] }
  let drafted := (List.range (env.numSpeculativeTokens - 1)).foldl
    (draftStep env cad.blockTable sampling) drafting
  return (stackColumns batchSize drafted.draftTokenIdsList, drafted.cache)

/-- The drafter's branch of `propose_draft_token_ids`; without drafts in the batch there is no
metadata and nothing was rejected. -/
def proposeDraftTokenIds (disablePaddedDrafterBatch useSpecDecode : Bool)
    (batch : List (DraftRequest H M)) (stale : Nat → Int) (cache : Nat → V) :
    Option (List (List Int) × (Nat → V)) :=
  let cad := commonAttnMetadata env batch
  let rows := batch.flatMap DraftRequest.rows
  let sampling := batch.map DraftRequest.samplingMetadata
  let numDraftTokens := batch.map DraftRequest.numDraftTokens
  let nextTokenIds :=
    if disablePaddedDrafterBatch then batch.map (nextTokenIdCpu env useSpecDecode)
    else batch.map fun r => (nextTokenIdPadded env r).1
  if useSpecDecode = false then
    propose env rows nextTokenIds sampling none cad none stale cache
  else if disablePaddedDrafterBatch then do
    let (cad, tokenIndices) ← prepareInputs cad
      (batch.map (validSampledTokenIds env useSpecDecode)) numDraftTokens
    let rows ← gather rows tokenIndices
    propose env rows nextTokenIds sampling none cad none stale cache
  else
    let counts := batch.map fun r => (nextTokenIdPadded env r).2
    let prepared := (List.range batch.length).map
      (env.prepareInputsPadded (cumsum numDraftTokens) counts cad.queryStartLoc)
    propose env rows nextTokenIds sampling (some (prepared.map Prod.fst)) cad
      (some (prepared.map Prod.snd)) stale cache

/-- `_input_fits_in_drafter`. -/
def inputFitsInDrafter (batch : List (DraftRequest H M)) : Prop :=
  (commonAttnMetadata env batch).seqLens.foldl max 0 + env.numSpeculativeTokens ≤
    env.effectiveDrafterMaxModelLen

instance (batch : List (DraftRequest H M)) : Decidable (inputFitsInDrafter env batch) :=
  inferInstanceAs (Decidable (_ ≤ _))

/-- The drafting of `sample_tokens`: zeros where the input does not fit. -/
def draftTokens (disablePaddedDrafterBatch useSpecDecode : Bool)
    (batch : List (DraftRequest H M)) (stale : Nat → Int) (cache : Nat → V) :
    Option (List (List Int) × (Nat → V)) :=
  if inputFitsInDrafter env batch then
    proposeDraftTokenIds env disablePaddedDrafterBatch useSpecDecode batch stale cache
  else some (batch.map fun _ => List.replicate env.numSpeculativeTokens 0, cache)

/-- A step of the target, as far as the drafter sees it. -/
structure Round (H M : Type) where
  useSpecDecode : Bool
  batch : List (DraftRequest H M)

/-- The drafts of every round; `stale` is what the buffer holds in each. -/
def draftRounds (disablePaddedDrafterBatch : Bool) (stale : Nat → Nat → Int) (cache : Nat → V) :
    List (Round H M) → Option (List (List (List Int)))
  | [] => some []
  | round :: rounds => do
      let (drafts, cache) ← draftTokens env disablePaddedDrafterBatch round.useSpecDecode
        round.batch (stale rounds.length) cache
      let rest ← draftRounds disablePaddedDrafterBatch stale cache rounds
      some (drafts :: rest)

end FlashNext.Ports.PaddedDrafts
