import FlashNext.Verified.Launch

/-!
# Draft inputs of the autoregressive speculator

`propose` prepares the draft prefill from the target's batch, samples the first draft
token of every request, and runs the remaining draft steps, one token per request.  The
kernels between the steps move ids, positions, lengths and sampling keys on.

The draft model, the sampler and the slot mapping of the block tables are parameters, and
so is the order in which the programs of a launch run.  A full graph replays a step over
the number of requests it was captured with, at least that of the batch.  Dummy runs are
left out.
-/

namespace FlashNext.Ports.Draft

open FlashNext.Verified.Launch

variable {H Slots : Type}

/-! ## Inputs -/

/-- The target's `input_batch`. -/
structure InputBatch where
  numReqs : Nat
  numTokensAfterPadding : Nat
  inputIds : Nat → Int
  positions : Nat → Nat
  idxMapping : Nat → Nat
  queryStartLoc : Nat → Nat
  seqLens : Nat → Nat

/-- The arguments of `propose`. -/
structure ProposeArgs (H Slots : Type) where
  inputBatch : InputBatch
  slotMappings : Slots
  hiddenStates : Nat → H
  numSampled : Nat → Nat
  numRejected : Nat → Nat
  lastSampled : Nat → Int
  nextPrefillTokens : Nat → Int

structure SpeculatorConfig where
  numSpeculativeSteps : Nat
  maxModelLen : Nat
  maxNumReqs : Nat
  advanceDraftPositions : Bool
  useFusedMultiStepDecode : Bool

/-- `BatchExecutionDescriptor`, as far as it is used. -/
structure BatchDesc where
  full : Bool
  numReqs : Nat
  numTokens : Nat

/-- The requests that a step runs over: those of the graph it replays, or those of the
batch. -/
def BatchDesc.rows (desc : BatchDesc) (numReqs : Nat) : Nat :=
  if desc.full then desc.numReqs else numReqs

/-! ## State -/

/-- What a run of the draft model reads. -/
structure ModelInputs (H Slots : Type) where
  inputIds : Nat → Int
  positions : Nat → Nat
  hiddenStates : Nat → H
  queryStartLoc : Nat → Nat
  seqLens : Nat → Nat
  slotMapping : Option Slots
  numTokens : Nat

/-- What a draft step is given: the inputs of its run and those of its sampler. -/
structure DraftStep (H Slots : Type) extends ModelInputs H Slots where
  lastTokenIndices : Nat → Nat
  idxMapping : Nat → Nat
  sampleSrcPositions : Nat → Nat
  currentDraftStep : Nat

/-- The buffers of the speculator, with the stores to `draft_tokens` and the steps so
far. -/
structure Speculator (H Slots : Type) where
  inputIds : Nat → Int
  positions : Nat → Nat
  queryStartLoc : Nat → Nat
  seqLens : Nat → Nat
  hiddenStates : Nat → H
  lastTokenIndices : Nat → Nat
  currentDraftStep : Nat
  sampleSrcPositions : Nat → Nat
  idxMapping : Nat → Nat
  slotMapping : Option Slots
  draftTokens : Nat → Nat → Int
  draftWrites : List (Nat × Nat)
  steps : List (DraftStep H Slots)

/-- What is not in the repository.  `runModel` takes the inputs of the runs before, which
have filled the draft cache, and those of the run itself; it returns the hidden states
that are sampled from and those that the next step starts from. -/
structure DraftEnv (H Slots : Type) where
  order : Nat → List Nat
  computeSlotMappings : List Nat → List Nat → List Nat → Nat → Slots
  runModel : List (ModelInputs H Slots) → ModelInputs H Slots → (Nat → H) × (Nat → H)
  sampleDraft : (Nat → H) → (Nat → Nat) → (Nat → Nat) → Nat → Nat → Int

/-- `buf[:n] = value`. -/
def assign {α : Type} (n : Nat) (value buf : Nat → α) : Nat → α :=
  fun j => if j < n then value j else buf j

/-! ## Preparing the prefill -/

/-- The query length after the rejected tokens. -/
def queryLen (args : ProposeArgs H Slots) (r : Nat) : Nat :=
  args.inputBatch.queryStartLoc (r + 1) - args.inputBatch.queryStartLoc r -
    args.numRejected r

def nextToken (args : ProposeArgs H Slots) (r : Nat) : Int :=
  let reqState := args.inputBatch.idxMapping r
  if 0 < args.numSampled r then args.lastSampled reqState else args.nextPrefillTokens reqState

def lastTokenIndex (args : ProposeArgs H Slots) (r : Nat) : Nat :=
  args.inputBatch.queryStartLoc r + queryLen args r - 1

/-- The stores of program `r` to `draft_input_ids`: the ids shifted by one, then the next
token. -/
def prefillIds (args : ProposeArgs H Slots) (r j : Nat) : Option Int :=
  let queryStart := args.inputBatch.queryStartLoc r
  if j = lastTokenIndex args r then some (nextToken args r)
  else if queryStart ≤ j ∧ j + 1 < queryStart + queryLen args r then
    some (args.inputBatch.inputIds (j + 1))
  else none

def prefillPositions (args : ProposeArgs H Slots) (r j : Nat) : Option Nat :=
  let queryStart := args.inputBatch.queryStartLoc r
  if queryStart ≤ j ∧ j < queryStart + queryLen args r then some (args.inputBatch.positions j)
  else none

/-- An entry of the request, and the padding of the last program. -/
def padded (numReqs stop : Nat) (value : Nat → Nat) (pad r j : Nat) : Option Nat :=
  if j = r then some (value r)
  else if r = numReqs - 1 ∧ numReqs ≤ j ∧ j < stop then some pad
  else none

/-- `prepare_prefill_inputs`. -/
def preparePrefillInputs (env : DraftEnv H Slots) (cfg : SpeculatorConfig)
    (args : ProposeArgs H Slots) (s : Speculator H Slots) : Speculator H Slots :=
  let batch := args.inputBatch
  let n := batch.numReqs
  let run {α : Type} := launch (α := α) (env.order n)
  { s with
    inputIds := run (prefillIds args) s.inputIds
    positions := run (prefillPositions args) s.positions
    lastTokenIndices :=
      run (padded n cfg.maxNumReqs (lastTokenIndex args) 0) s.lastTokenIndices
    queryStartLoc :=
      run (padded n (cfg.maxNumReqs + 1) batch.queryStartLoc (batch.queryStartLoc n))
        s.queryStartLoc
    seqLens := run (padded n cfg.maxNumReqs batch.seqLens 0) s.seqLens
    currentDraftStep := if 0 < n then 0 else s.currentDraftStep }

/-! ## The prefill -/

/-- What a step is given. -/
def Speculator.observe (s : Speculator H Slots) (slotMapping : Option Slots)
    (numTokens : Nat) (sampleSrcPositions : Nat → Nat) : DraftStep H Slots where
  inputIds := s.inputIds
  positions := s.positions
  hiddenStates := s.hiddenStates
  queryStartLoc := s.queryStartLoc
  seqLens := s.seqLens
  slotMapping := slotMapping
  numTokens := numTokens
  lastTokenIndices := s.lastTokenIndices
  idxMapping := s.idxMapping
  sampleSrcPositions := sampleSrcPositions
  currentDraftStep := s.currentDraftStep

/-- The run of a step behind the steps `before`. -/
def DraftStep.run (env : DraftEnv H Slots) (before : List (DraftStep H Slots))
    (x : DraftStep H Slots) : (Nat → H) × (Nat → H) :=
  env.runModel (before.map DraftStep.toModelInputs) x.toModelInputs

/-- `_prefill` over `rows` requests. -/
def prefill (env : DraftEnv H Slots) (desc : BatchDesc) (slotMappings : Slots) (rows : Nat)
    (s : Speculator H Slots) : Speculator H Slots :=
  let positions := fun r => s.positions (s.lastTokenIndices r)
  let sampleSrcPositions := fun r => positions r + 1
  let given := s.observe (some slotMappings) desc.numTokens sampleSrcPositions
  let (lastHiddenStates, hiddenStates) := given.run env s.steps
  let sampleHiddenStates := fun r => lastHiddenStates (s.lastTokenIndices r)
  let samples := env.sampleDraft sampleHiddenStates sampleSrcPositions s.idxMapping
    s.currentDraftStep
  { s with
    draftTokens := fun r c => if r < rows ∧ c = 0 then samples r else s.draftTokens r c
    draftWrites := s.draftWrites ++ (List.range rows).map fun r => (r, 0)
    hiddenStates :=
      assign rows (fun r => hiddenStates (s.lastTokenIndices r)) s.hiddenStates
    positions := assign rows positions s.positions
    sampleSrcPositions := assign rows sampleSrcPositions s.sampleSrcPositions
    steps := s.steps ++ [given] }

/-! ## Preparing the decode steps -/

/-- `prepare_decode_inputs`; the program behind those of the requests writes the offsets
and the padding. -/
def prepareDecodeInputs (env : DraftEnv H Slots) (cfg : SpeculatorConfig)
    (args : ProposeArgs H Slots) (s : Speculator H Slots) : Speculator H Slots :=
  let n := args.inputBatch.numReqs
  let requests {α : Type} (value : Nat → α) (r j : Nat) : Option α :=
    if r < n then own value r j else none
  let seqLen := fun r =>
    let seqLen := args.inputBatch.seqLens r - args.numRejected r
    if cfg.advanceDraftPositions then min (seqLen + 1) cfg.maxModelLen else seqLen
  let run {α : Type} := launch (α := α) (env.order (n + 1))
  { s with
    inputIds := run (requests fun r => s.draftTokens r 0) s.inputIds
    sampleSrcPositions :=
      run (requests fun r => s.sampleSrcPositions r + 1) s.sampleSrcPositions
    positions :=
      if cfg.advanceDraftPositions then
        run (requests fun r => min (s.positions r + 1) (cfg.maxModelLen - 1)) s.positions
      else s.positions
    seqLens := run (fun r j =>
      if r = n then if n ≤ j ∧ j < cfg.maxNumReqs then some 0 else none
      else requests seqLen r j) s.seqLens
    queryStartLoc := run (fun r j =>
      if r = n ∧ j < cfg.maxNumReqs + 1 then some (if j < n then j else n) else none)
      s.queryStartLoc }

/-! ## The decode steps -/

/-- `update_draft_inputs` over `rows` requests. -/
def updateDraftInputs (env : DraftEnv H Slots) (cfg : SpeculatorConfig) (rows : Nat)
    (samples : Nat → Int) (hiddenStates : Nat → H) (s : Speculator H Slots) :
    Speculator H Slots :=
  let step := s.currentDraftStep
  let run {α : Type} (value : Nat → α) := launch (env.order rows) (own value)
  let stored := { s with
    draftTokens := fun r c =>
      if c = step then run samples (fun q => s.draftTokens q c) r else s.draftTokens r c
    draftWrites := s.draftWrites ++ (env.order rows).map fun r => (r, step) }
  if cfg.numSpeculativeSteps - 1 ≤ step then stored
  else
    { stored with
      sampleSrcPositions := run (fun r => s.sampleSrcPositions r + 1) s.sampleSrcPositions
      inputIds := run samples s.inputIds
      hiddenStates := run hiddenStates s.hiddenStates
      positions :=
        if cfg.advanceDraftPositions then
          run (fun r => min (s.positions r + 1) (cfg.maxModelLen - 1)) s.positions
        else s.positions
      seqLens :=
        if cfg.advanceDraftPositions then
          run (fun r => min (s.seqLens r + 1) cfg.maxModelLen) s.seqLens
        else s.seqLens }

/-- `_generate_draft` over `rows` requests. -/
def generateDraft (env : DraftEnv H Slots) (cfg : SpeculatorConfig) (desc : BatchDesc)
    (rows : Nat) (s : Speculator H Slots) : Speculator H Slots :=
  let given := s.observe s.slotMapping desc.numTokens s.sampleSrcPositions
  let (lastHiddenStates, hiddenStates) := given.run env s.steps
  let samples := env.sampleDraft lastHiddenStates s.sampleSrcPositions s.idxMapping
    s.currentDraftStep
  updateDraftInputs env cfg rows samples hiddenStates { s with steps := s.steps ++ [given] }

/-- `block_tables.compute_slot_mappings` over the first `n` requests. -/
def computeSlots (env : DraftEnv H Slots) (desc : BatchDesc) (n : Nat)
    (s : Speculator H Slots) : Speculator H Slots :=
  { s with
    slotMapping := some (env.computeSlotMappings ((List.range n).map s.idxMapping)
      ((List.range (n + 1)).map s.queryStartLoc) ((List.range n).map s.positions)
      desc.numTokens) }

/-- A turn of `_multi_step_decode`. -/
def multiStep (env : DraftEnv H Slots) (cfg : SpeculatorConfig) (desc : BatchDesc)
    (numReqs : Nat) (s : Speculator H Slots) (step : Nat) : Speculator H Slots :=
  let s := if cfg.advanceDraftPositions = true ∨ step = 1 then computeSlots env desc numReqs s
    else s
  generateDraft env cfg desc (desc.rows numReqs) { s with currentDraftStep := step }

def multiStepDecode (env : DraftEnv H Slots) (cfg : SpeculatorConfig) (desc : BatchDesc)
    (numReqs : Nat) (s : Speculator H Slots) : Speculator H Slots :=
  (List.range' 1 (cfg.numSpeculativeSteps - 1)).foldl (multiStep env cfg desc numReqs) s

/-- A turn of `_generate_fused_drafts`. -/
def fusedStep (env : DraftEnv H Slots) (cfg : SpeculatorConfig) (desc : BatchDesc)
    (rows : Nat) (s : Speculator H Slots) (step : Nat) : Speculator H Slots :=
  let s := generateDraft env cfg desc rows { s with currentDraftStep := step }
  if step < cfg.numSpeculativeSteps - 1 ∧ cfg.advanceDraftPositions = true then
    computeSlots env desc rows s
  else s

def generateFusedDrafts (env : DraftEnv H Slots) (cfg : SpeculatorConfig) (desc : BatchDesc)
    (rows : Nat) (s : Speculator H Slots) : Speculator H Slots :=
  (List.range' 1 (cfg.numSpeculativeSteps - 1)).foldl (fusedStep env cfg desc rows) s

def fusedMultiStepDecode (env : DraftEnv H Slots) (cfg : SpeculatorConfig)
    (desc : BatchDesc) (numReqs : Nat) (s : Speculator H Slots) : Speculator H Slots :=
  generateFusedDrafts env cfg desc (desc.rows numReqs) (computeSlots env desc numReqs s)

/-! ## The proposal -/

/-- The speculator when the draft prefill starts. -/
def beginPropose (env : DraftEnv H Slots) (cfg : SpeculatorConfig)
    (args : ProposeArgs H Slots) (s : Speculator H Slots) : Speculator H Slots :=
  let copied := { s with
    hiddenStates :=
      assign args.inputBatch.numTokensAfterPadding args.hiddenStates s.hiddenStates
    idxMapping := assign args.inputBatch.numReqs args.inputBatch.idxMapping s.idxMapping
    draftWrites := []
    steps := [] }
  preparePrefillInputs env cfg args copied

/-- `propose`; the drafts are the first `num_reqs` rows of `draft_tokens`. -/
def propose (env : DraftEnv H Slots) (cfg : SpeculatorConfig) (prefillDesc decodeDesc : BatchDesc)
    (args : ProposeArgs H Slots) (s : Speculator H Slots) : Speculator H Slots :=
  let n := args.inputBatch.numReqs
  let prefilled := prefill env prefillDesc args.slotMappings (prefillDesc.rows n)
    (beginPropose env cfg args s)
  if cfg.numSpeculativeSteps = 1 then prefilled
  else
    let ready := prepareDecodeInputs env cfg args prefilled
    if cfg.useFusedMultiStepDecode then fusedMultiStepDecode env cfg decodeDesc n ready
    else multiStepDecode env cfg decodeDesc n ready

end FlashNext.Ports.Draft
