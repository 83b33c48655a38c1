import FlashNext.Verified.Checked
import FlashNext.Verified.IssuedIds
import FlashNext.Ports.KvCache
import Mathlib.Data.PNat.Defs

/-!
# The scheduler outputs of the kernel warmup

Warmup builds its scheduler outputs by hand: a prefill of a few requests, decode steps
of all and of some of them, and a cleanup.  The blocks of the requests come from a
counter that starts behind the null block.  The model runner keeps a block table for
each request from these outputs.
-/

namespace FlashNext.Ports.Warmup

open FlashNext.Verified.Checked
open FlashNext.Verified.IssuedIds
open FlashNext.Ports.KvCache (cdiv)

/-! ## Reserved blocks -/

/-- What is read of the cache spec of a layer. -/
inductive LayerSpec where
  | circularBuffer
  | crossAttention (blockSize : ℕ+)
  | mamba (blockSize : ℕ+) (numSpeculativeBlocks : Nat) (align : Bool)
  | paged (blockSize : ℕ+)
  deriving DecidableEq

inductive KVCacheSpec where
  | layer (spec : LayerSpec)
  | uniformType (firstSpec : LayerSpec)
  deriving DecidableEq

/-- The spec that is looked at: the first one of `UniformTypeKVCacheSpecs`. -/
def KVCacheSpec.layerSpec : KVCacheSpec → LayerSpec
  | layer spec => spec
  | uniformType firstSpec => firstSpec

/-- What `_warmup_block_counter` binds. -/
structure Reservation where
  numLookaheadTokens : Nat
  maxModelLen : Nat
  maxEncoderLen : Nat

/-- `_reserved_block_count`. -/
def reservedBlockCount (r : Reservation) (numTokens : Nat) (spec : KVCacheSpec) : Nat :=
  match spec.layerSpec with
  | .circularBuffer => 1
  | .crossAttention blockSize => cdiv r.maxEncoderLen blockSize
  | .mamba blockSize numSpeculativeBlocks true =>
      cdiv numTokens blockSize + numSpeculativeBlocks
  | .mamba blockSize numSpeculativeBlocks false =>
      cdiv (min (numTokens + r.numLookaheadTokens) r.maxModelLen) blockSize +
        numSpeculativeBlocks
  | .paged blockSize => cdiv (min (numTokens + r.numLookaheadTokens) r.maxModelLen) blockSize

/-! ## Scheduler outputs -/

/-- The ids `_warmup_{i}_`, `{prefix}_decode_` and `{prefix}_prefill_`. -/
inductive RequestId where
  | warmup (i : Nat)
  | mixedDecode
  | mixedPrefill
  deriving DecidableEq

/-- The id itself, with the prefix that stands by default. -/
def RequestId.text : RequestId → String
  | warmup i => "_warmup_" ++ toString i ++ "_"
  | mixedDecode => "_v2_mixed_warmup_decode_"
  | mixedPrefill => "_v2_mixed_warmup_prefill_"

structure NewRequestData where
  reqId : RequestId
  prefillTokenIds : List Nat
  blockIds : List (List Int)
  numComputedTokens : Nat := 0

structure CachedRequest where
  reqId : RequestId
  numComputedTokens : Nat
  numOutputTokens : Nat := 1
  newBlockIds : Option (List (List Int))

/-- `SchedulerOutput`, as far as warmup fills it.  `scheduledCachedReqs` holds the entries
of the lists of `CachedRequestData`. -/
structure SchedulerOutput where
  scheduledNewReqs : List NewRequestData := []
  scheduledCachedReqs : List CachedRequest := []
  numScheduledTokens : List (RequestId × Nat) := []
  scheduledSpecDecodeTokens : List (RequestId × List Nat) := []
  totalNumScheduledTokens : Nat := 0
  numCommonPrefixBlocks : List Nat := []
  finishedReqIds : List RequestId := []

/-! ## The block tables of the runner -/

inductive RunnerError where
  | keyError (reqId : RequestId)
  | noFreeIndices
  deriving DecidableEq

/-- What the runner calls to keep its requests: the slots of the known ones, and the blocks at a
slot, a row for each cache group.  Neither `RequestState` nor `BlockTables` is among these
sources. -/
structure RunnerTables (R T : Type) where
  reqIdToIndex : R → RequestId → Option Nat
  addState : R → NewRequestData → Except RunnerError R
  removeState : R → RequestId → R
  blockIds : T → Nat → List (List Int)
  appendBlockIds : T → Nat → List (List Int) → (overwrite : Bool) → T

structure Runner (R T : Type) where
  reqStates : R
  blockTables : T

section Runner

variable {R T : Type} (ops : RunnerTables R T)

/-- `req_id_to_index[req_id]`. -/
def RunnerTables.index (states : R) (id : RequestId) : Except RunnerError Nat :=
  match ops.reqIdToIndex states id with
  | some index => .ok index
  | none => .error (.keyError id)

/-- `_remove_request`. -/
def RunnerTables.removeRequest (runner : Runner R T) (id : RequestId) : Runner R T :=
  { runner with reqStates := ops.removeState runner.reqStates id }

/-- `finish_requests`; the ids are sorted. -/
def RunnerTables.finishRequests (runner : Runner R T) (output : SchedulerOutput) : Runner R T :=
  (output.finishedReqIds.mergeSort fun a b => decide (a.text ≤ b.text)).foldl
    ops.removeRequest runner

/-- The loop body of `add_requests`. -/
def RunnerTables.addRequest (runner : Runner R T) (req : NewRequestData) :
    Except RunnerError (Runner R T) := do
  let reqStates ← ops.addState (ops.removeRequest runner req.reqId).reqStates req
  let reqIndex ← ops.index reqStates req.reqId
  return ⟨reqStates, ops.appendBlockIds runner.blockTables reqIndex req.blockIds true⟩

/-- The loop body of `update_requests`. -/
def RunnerTables.updateRequest (runner : Runner R T) (req : CachedRequest) :
    Except RunnerError (Runner R T) := do
  let reqIndex ← ops.index runner.reqStates req.reqId
  match req.newBlockIds with
  | none => return runner
  | some newBlockIds => return { runner with
      blockTables := ops.appendBlockIds runner.blockTables reqIndex newBlockIds false }

/-- The part of `execute_model` that keeps the tables: `finish_requests`, `add_requests` and
`update_requests`. -/
def RunnerTables.executeModel (runner : Runner R T) (output : SchedulerOutput) :
    Except RunnerError (Runner R T) := do
  let added ← output.scheduledNewReqs.foldlM ops.addRequest (ops.finishRequests runner output)
  output.scheduledCachedReqs.foldlM ops.updateRequest added

end Runner

/-! ## The configuration -/

/-- What warmup reads of the runner; a decode step has at least one token. -/
structure Config where
  kvCacheSpecs : List KVCacheSpec
  reservation : Reservation
  numBlocks : Nat
  maxNumSeqs : Nat
  maxNumBatchedTokens : Nat
  numSpecSteps : Nat
  decodeQueryLen : Nat
  isPoolingModel : Bool
  isMmEncoderOnly : Bool
  decodeQueryLen_pos : 0 < decodeQueryLen

variable (cfg : Config)

/-- `[block_count(num_tokens, s) for s in kv_cache_specs]`. -/
def Config.blockCounts (numTokens : Nat) : List Nat :=
  cfg.kvCacheSpecs.map (reservedBlockCount cfg.reservation numTokens)

def Config.promptLen : Nat := cfg.decodeQueryLen + 1

def Config.numDecodeSteps : Nat :=
  if cfg.isPoolingModel then 1 else if 0 < cfg.numSpecSteps then 5 else 3

def Config.decodeLen : Nat := cfg.promptLen + cfg.numDecodeSteps * cfg.decodeQueryLen

def Config.maxBlocksPerReq : Nat := (cfg.blockCounts cfg.decodeLen).sum

def Config.numReqs : Nat :=
  let numReqs := min cfg.maxNumSeqs
    (cfg.maxNumBatchedTokens / max cfg.promptLen cfg.decodeQueryLen)
  if 0 < cfg.maxBlocksPerReq then
    min numReqs (max 1 ((cfg.numBlocks - 1) / cfg.maxBlocksPerReq))
  else numReqs

/-! ## The steps -/

/-- The prefill of the next request. -/
def Config.prefillRequest (st : Int × List NewRequestData) (i : Nat) :
    Int × List NewRequestData :=
  let issued := issueAll st.1 ((cfg.blockCounts cfg.promptLen).map Int.ofNat)
  (issued.2, st.2 ++ [{
    reqId := .warmup i
    prefillTokenIds := List.range cfg.promptLen
    blockIds := issued.1 }])

/-- The counter behind the prefill, and the new requests; block 0 is the null block. -/
def Config.prefillRequests : Int × List NewRequestData :=
  (List.range cfg.numReqs).foldl cfg.prefillRequest (1, [])

def Config.prefillOutput : SchedulerOutput where
  scheduledNewReqs := cfg.prefillRequests.2
  numScheduledTokens := (List.range cfg.numReqs).map fun i => (.warmup i, cfg.promptLen)
  totalNumScheduledTokens := cfg.promptLen * cfg.numReqs
  numCommonPrefixBlocks := cfg.kvCacheSpecs.map fun _ => 0

/-- What is carried across the decode steps. -/
structure DecodeState where
  nextBlockId : Int
  reqComputed : Nat → Nat
  reqBlocks : Nat → List Int

/-- The loop of a decode step over its requests: the counter, the blocks held, and the entries
of the cached requests. -/
structure DecodeLoop where
  nextBlockId : Int
  reqBlocks : Nat → List Int
  cachedReqs : List CachedRequest

def Config.decodeTokens (useSpec : Bool) : Nat := if useSpec then cfg.decodeQueryLen else 1

/-- The loop body. -/
def Config.decodeRequest (reqComputed : Nat → Nat) (st : DecodeLoop) (entry : Nat × Bool) :
    DecodeLoop :=
  let i := entry.1
  let after := reqComputed i + cfg.decodeTokens entry.2
  let deltas := List.zipWith (fun (count : Nat) held => (count : Int) - held)
    (cfg.blockCounts after) (st.reqBlocks i)
  let issued := issueAll st.nextBlockId deltas
  let anyNew := deltas.any (· != 0)
  { nextBlockId := if anyNew then issued.2 else st.nextBlockId
    reqBlocks := Function.update st.reqBlocks i
      (List.zipWith (· + ·) (st.reqBlocks i) deltas)
    cachedReqs := st.cachedReqs ++ [{
      reqId := .warmup i
      numComputedTokens := reqComputed i
      newBlockIds := if anyNew then some issued.1 else none }] }

inductive WarmupError where
  | indexError
  deriving DecidableEq

/-- `_run_decode_step`; the indices of a step are distinct. -/
def Config.runDecodeStep (st : DecodeState) (step : List Nat × List Bool) :
    Except WarmupError (SchedulerOutput × DecodeState) := do
  require (∀ i ∈ step.1, i < cfg.numReqs) .indexError
  let entries := step.1.zip step.2
  let loop := entries.foldl (cfg.decodeRequest st.reqComputed) ⟨st.nextBlockId, st.reqBlocks, []⟩
  let numScheduledTokens := entries.map fun e => (RequestId.warmup e.1, cfg.decodeTokens e.2)
  return ({
    scheduledCachedReqs := loop.cachedReqs
    numScheduledTokens
    scheduledSpecDecodeTokens := (entries.filter Prod.snd).map fun e =>
      (.warmup e.1, List.replicate cfg.numSpecSteps 0)
    totalNumScheduledTokens := (numScheduledTokens.map Prod.snd).sum
    numCommonPrefixBlocks := cfg.kvCacheSpecs.map fun _ => 0 },
   { nextBlockId := loop.nextBlockId
     reqComputed := entries.foldl (fun computed e =>
       Function.update computed e.1 (computed e.1 + cfg.decodeTokens e.2)) st.reqComputed
     reqBlocks := loop.reqBlocks })

/-- `decode_steps`. -/
def Config.decodeSteps : List (List Nat × List Bool) :=
  let useSpecDecode := decide (0 < cfg.numSpecSteps)
  [(List.range cfg.numReqs, List.replicate cfg.numReqs useSpecDecode)] ++
    (if 2 ≤ cfg.numReqs then
      ([0, 1], [useSpecDecode, false]) ::
        (if useSpecDecode then [([0, 1], [false, false])] else [])
    else []) ++
    (if 1 < cfg.numReqs then
      ([0], [useSpecDecode]) :: (if useSpecDecode then [([0], [false])] else [])
    else if useSpecDecode then [([0], [false])] else [])

/-- The decode steps, one behind the other. -/
def Config.runDecodeSteps (st : DecodeState) :
    List (List Nat × List Bool) → Except WarmupError (List SchedulerOutput)
  | [] => .ok []
  | step :: steps => do
      let (output, next) ← cfg.runDecodeStep st step
      let outputs ← Config.runDecodeSteps next steps
      return output :: outputs

def Config.cleanupOutput : SchedulerOutput where
  finishedReqIds := (List.range cfg.numReqs).map .warmup

/-- `warmup_kernels`: the outputs that the worker executes. -/
def Config.warmupKernels : Except WarmupError (List SchedulerOutput) :=
  if cfg.isMmEncoderOnly then .ok []
  else do
    let decodes ← if cfg.isPoolingModel then .ok [] else
      cfg.runDecodeSteps {
        nextBlockId := cfg.prefillRequests.1
        reqComputed := fun _ => cfg.promptLen
        reqBlocks := fun _ => (cfg.blockCounts cfg.promptLen).map Int.ofNat } cfg.decodeSteps
    return cfg.prefillOutput :: decodes ++ [cfg.cleanupOutput]

/-! ## The mixed warmup -/

/-- The blocks that `run_mixed_prefill_decode_warmup` needs. -/
def Config.mixedRequiredBlocks (numTokens : Nat) : Nat :=
  (cfg.blockCounts 3).sum + (cfg.blockCounts (numTokens - 1)).sum

/-- `run_mixed_prefill_decode_warmup`: a decode request beside a prefill of the other tokens;
`none` when it is skipped. -/
def Config.mixedWarmup (numTokens : Nat) : Option (List SchedulerOutput) :=
  let deltas := List.zipWith (fun (decode prefill : Nat) => (decode : Int) - prefill)
    (cfg.blockCounts 3) (cfg.blockCounts 2)
  let decodePrefill := issueAll 1 ((cfg.blockCounts 2).map Int.ofNat)
  let decodeNew := issueAll decodePrefill.2 deltas
  let prefill := issueAll decodeNew.2 ((cfg.blockCounts (numTokens - 1)).map Int.ofNat)
  let numCommonPrefixBlocks := cfg.kvCacheSpecs.map fun _ => 0
  if cfg.isPoolingModel ∨ cfg.maxNumSeqs < 2 ∨ numTokens < 3 ∨
      cfg.numBlocks ≤ cfg.mixedRequiredBlocks numTokens then none
  else some [
    { scheduledNewReqs := [{
        reqId := .mixedDecode
        prefillTokenIds := List.range 2
        blockIds := decodePrefill.1 }]
      numScheduledTokens := [(.mixedDecode, 2)]
      totalNumScheduledTokens := 2
      numCommonPrefixBlocks },
    { scheduledCachedReqs := [{
        reqId := .mixedDecode
        numComputedTokens := 2
        newBlockIds := if deltas.any (· != 0) then some decodeNew.1 else none }]
      scheduledNewReqs := [{
        reqId := .mixedPrefill
        prefillTokenIds := List.range (numTokens - 1)
        blockIds := prefill.1 }]
      numScheduledTokens := [(.mixedDecode, 1), (.mixedPrefill, numTokens - 1)]
      totalNumScheduledTokens := numTokens
      numCommonPrefixBlocks },
    { finishedReqIds := [.mixedDecode, .mixedPrefill] }]

end FlashNext.Ports.Warmup
