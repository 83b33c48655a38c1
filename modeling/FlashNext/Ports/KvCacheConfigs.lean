import FlashNext.Ports.CsaLinear
import FlashNext.Verified.CheckedState
import FlashNext.Verified.GroupByKey

/-!
# KV-cache planning: the configurations of all workers

The groups of the whole model are projected onto every worker, the memory of
every worker is checked, and every worker is planned with the number of blocks
of the smallest.
-/

namespace FlashNext.Ports.KvCache

open FlashNext.Verified.Checked
open FlashNext.Verified.CheckedState
open FlashNext.Verified.GroupByKey

/-! ## One worker -/

/-- `layers_by_spec` of a group. -/
def layersBySpec (group : KVCacheGroupSpec) : List (KVCacheSpec × List String) :=
  match group.kvCacheSpec with
  | .uniformType _ kvCacheSpecs =>
      let owned : SpecDict :=
        kvCacheSpecs.filter fun p => decide (p.1 ∈ group.layerNames)
      groupPairs (owned.map fun p => (p.2, p.1))
  | .single spec =>
      if group.layerNames = [] then [] else [(spec, group.layerNames)]

/-- The tensor of the layers of one spec. -/
def tensorAt (env : Env) (kvLayout : KVCacheLayout) (numBlocks size : Nat)
    (interleavedBlockStride : Option Nat) (byteOffset : Nat) (spec : KVCacheSpec)
    (layerNames : List String) : KVCacheTensor :=
  let strides := env.computeLayoutStrides spec numBlocks layerNames.length kvLayout
    interleavedBlockStride
  let page : Nat := spec.pageSizeBytes
  { size := size
    layers := layerNames
    layerStride := strides.1
    blockStride := strides.2
    offset := byteOffset * max strides.1 page / page }

/-- The loop over `layers_by_spec`. -/
def groupTensors (env : Env) (kvLayout : KVCacheLayout) (numBlocks size : Nat)
    (interleavedBlockStride : Option Nat) :
    Nat → List (KVCacheSpec × List String) → List KVCacheTensor
  | _, [] => []
  | byteOffset, (spec, layerNames) :: rest =>
      tensorAt env kvLayout numBlocks size interleavedBlockStride byteOffset spec
          layerNames ::
        groupTensors env kvLayout numBlocks size interleavedBlockStride
          (byteOffset + layerNames.length * (spec.pageSizeBytes : Nat)) rest

/-- `get_kv_cache_config_from_groups`. -/
def getKvCacheConfigFromGroups (env : Env) (cfg : VllmConfig)
    (kvCacheGroups : List KVCacheGroupSpec) (availableMemory : Int) :
    Except PlanError KVCacheConfig := do
  if kvCacheGroups.length = 0 then
    return { numBlocks := 1, kvCacheTensors := [], kvCacheGroups := kvCacheGroups }
  let kvLayout := cfg.kvCacheLayout
  validateKvCacheLayout kvLayout kvCacheGroups
  match ← getKvCacheConfigCsaLinear env cfg kvCacheGroups availableMemory kvLayout
    with
  | some (numBlocks, kvCacheTensors) =>
      return {
        numBlocks := numBlocks
        kvCacheTensors := kvCacheTensors
        kvCacheGroups := kvCacheGroups }
  | none =>
      let bytesPerBlock ← getKvCacheBytesPerBlock kvCacheGroups
      let interleavedBlockStride :=
        if kvLayout.isBlockOutermost then some bytesPerBlock else none
      let numBlocks :=
        mayOverrideNumBlocks cfg (blocksIn availableMemory bytesPerBlock)
      return {
        numBlocks := numBlocks
        kvCacheTensors := kvCacheGroups.flatMap fun group =>
          groupTensors env kvLayout numBlocks (bytesPerBlock * numBlocks)
            interleavedBlockStride 0 (layersBySpec group)
        kvCacheGroups := kvCacheGroups }

/-! ## What a request needs -/

/-- `max_model_len` is a field of the configuration that the planner writes. -/
abbrev Planner := Stateful Nat PlanError

/-- The blocks that one request takes from a group. -/
def groupBlocks (env : Env) (maxModelLen : Nat) (group : KVCacheGroupSpec) :
    Except PlanError Nat :=
  match group.kvCacheSpec with
  | .uniformType _ kvCacheSpecs => env.maxMemoryUsagePages kvCacheSpecs maxModelLen
  | .single spec => do
      let bytes ← env.maxMemoryUsageBytes spec maxModelLen
      return cdiv bytes spec.pageSizeBytes

/-- `_max_memory_usage_bytes_from_groups`. -/
def maxMemoryUsageBytesFromGroups (env : Env)
    (kvCacheGroups : List KVCacheGroupSpec) (maxModelLen : Nat) :
    Except PlanError Nat := do
  if kvCacheGroups.length = 0 then return 0
  let bytesPerBlock ← getKvCacheBytesPerBlock kvCacheGroups
  let totalBlocks ← kvCacheGroups.mapM (groupBlocks env maxModelLen)
  return bytesPerBlock * totalBlocks.sum

/-- `fits`, which leaves the length it has tried in the configuration. -/
def fits (env : Env) (kvCacheGroups : List KVCacheGroupSpec) (availableMemory : Int)
    (modelLen : Nat) : Planner Bool := do
  set modelLen
  let maxModelLen ← get
  let needed ← lift (maxMemoryUsageBytesFromGroups env kvCacheGroups maxModelLen)
  return decide ((needed : Int) ≤ availableMemory)

/-- The loop of the binary search. -/
def searchMaxModelLen (tryLen : Nat → Planner Bool) (left right result : Nat) :
    Planner Nat :=
  if left ≤ right then do
    let mid := (left + right) / 2
    if ← tryLen mid then searchMaxModelLen tryLen (mid + 1) right mid
    else if mid = 0 then return result
    else searchMaxModelLen tryLen left (mid - 1) result
  else return result
termination_by right + 1 - left

/-- `_estimate_max_model_len_from_groups`. -/
def estimateMaxModelLenFromGroups (env : Env)
    (kvCacheGroups : List KVCacheGroupSpec) (availableMemory : Int) :
    Planner Nat := do
  let originalMax ← get
  restoring do
    let tryLen := fits env kvCacheGroups availableMemory
    if ← tryLen 1 then searchMaxModelLen tryLen 1 originalMax 1 else return 0

/-- The loop of `_auto_fit_max_model_len` over the workers. -/
def autoFitFrom (env : Env) : Nat → List (List KVCacheGroupSpec × Int) → Planner Nat
  | autoFitMax, [] => return autoFitMax
  | autoFitMax, (groups, availableMemory) :: workers => do
      if groups.length = 0 then autoFitFrom env autoFitMax workers
      else
        let workerMax ← estimateMaxModelLenFromGroups env groups availableMemory
        autoFitFrom env (if workerMax < autoFitMax then workerMax else autoFitMax)
          workers

/-- `_auto_fit_max_model_len`. -/
def autoFitMaxModelLen (env : Env)
    (projectedGroupsPerWorker : List (List KVCacheGroupSpec))
    (availableMemory : List Int) : Planner Unit := do
  let originalMax ← get
  if ∀ groups ∈ projectedGroupsPerWorker, groups.length = 0 then return ()
  let autoFitMax ←
    autoFitFrom env originalMax (projectedGroupsPerWorker.zip availableMemory)
  lift (require (0 < autoFitMax) .cannotAutoFit)
  if originalMax ≤ autoFitMax then return () else set autoFitMax

/-- `_check_enough_kv_cache_memory` with the estimate of its message. -/
def checkEnoughKvCacheMemory (env : Env) (kvCacheGroups : List KVCacheGroupSpec)
    (availableMemory : Int) : Planner Unit := do
  lift (require (0 < availableMemory) .noMemory)
  let maxModelLen ← get
  let needed ← lift (maxMemoryUsageBytesFromGroups env kvCacheGroups maxModelLen)
  if availableMemory < needed then
    let estimated ←
      estimateMaxModelLenFromGroups env kvCacheGroups availableMemory
    lift (.error (.notEnoughMemory maxModelLen needed availableMemory estimated))
  else return ()

/-- One turn of the loop that checks the workers. -/
def checkWorker (env : Env) (worker : List KVCacheGroupSpec × Int) : Planner Unit :=
  if worker.1.length = 0 then return ()
  else checkEnoughKvCacheMemory env worker.1 worker.2

/-! ## All workers -/

/-- The memory that the override stands for. -/
def overriddenMemory (cfg : VllmConfig) (groups : List KVCacheGroupSpec)
    (availableMemory : Int) : Except PlanError Int :=
  match cfg.numGpuBlocksOverride with
  | none => .ok availableMemory
  | some numBlocks => do
      if groups.length = 0 then return availableMemory
      let bytesPerBlock ← getKvCacheBytesPerBlock groups
      return ((numBlocks * bytesPerBlock : Nat) : Int)

/-- The memory that is left without the null block. -/
def usableMemory (groups : List KVCacheGroupSpec) (availableMemory : Int) :
    Except PlanError Int := do
  if groups.length = 0 then return availableMemory
  let bytesPerBlock ← getKvCacheBytesPerBlock groups
  return availableMemory - bytesPerBlock

/-- `min(sizes)`. -/
def minOf : List Nat → Except PlanError Nat
  | [] => .error .emptyMin
  | size :: sizes => .ok (sizes.foldl min size)

/-- The configuration of one worker before the common number of blocks. -/
def planWorker (env : Env) (cfg : VllmConfig) (groups : List KVCacheGroupSpec)
    (workerSpec : SpecDict) (availableMemory : Int) :
    Except PlanError KVCacheConfig := do
  require ((groups.map fun group => group.layerNames.length).sum =
    workerSpec.length) .assertion
  getKvCacheConfigFromGroups env cfg groups availableMemory

/-- Plans a worker again where it has more than the smallest number of blocks. -/
def shrinkConfig (env : Env) (cfg : VllmConfig) (minNumBlocks : Nat)
    (config : KVCacheConfig) : Except PlanError KVCacheConfig := do
  if config.numBlocks = minNumBlocks then return config
  let bytesPerBlock ← getKvCacheBytesPerBlock config.kvCacheGroups
  getKvCacheConfigFromGroups env cfg config.kvCacheGroups
    ((minNumBlocks * bytesPerBlock : Nat) : Int)

/-- Auto-fit, where `max_model_len` was given as -1. -/
def fitMaxModelLen (env : Env) (cfg : VllmConfig)
    (projectedGroupsPerWorker : List (List KVCacheGroupSpec))
    (checkMemory : List Int) : Planner Unit :=
  if cfg.originalMaxModelLen = -1 then
    autoFitMaxModelLen env projectedGroupsPerWorker checkMemory
  else return ()

/-- The plans of all workers, with the smallest number of blocks of them all. -/
def planWorkers (env : Env) (cfg : VllmConfig)
    (projectedGroupsPerWorker : List (List KVCacheGroupSpec))
    (kvCacheSpecs : List SpecDict) (availableMemory : List Int) :
    Except PlanError (List KVCacheConfig) := do
  let kvCacheConfigs ← (projectedGroupsPerWorker.zip
    (kvCacheSpecs.zip availableMemory)).mapM fun p =>
      planWorker env cfg p.1 p.2.1 p.2.2
  let minNumBlocks ← minOf (kvCacheConfigs.map KVCacheConfig.numBlocks)
  kvCacheConfigs.mapM (shrinkConfig env cfg minNumBlocks)

/-- `get_kv_cache_configs`.  `get_kv_cache_groups` is a parameter. -/
def getKvCacheConfigs (env : Env) (cfg : VllmConfig)
    (getKvCacheGroups : SpecDict → Except PlanError (List KVCacheGroupSpec))
    (kvCacheSpecs : List SpecDict) (availableMemory : List Int) :
    Planner (List KVCacheConfig) := do
  let mergedKvCacheSpecs ← lift (mergeKvCacheSpecs kvCacheSpecs)
  let globalKvCacheGroups ← lift (getKvCacheGroups mergedKvCacheSpecs)
  let projectedGroupsPerWorker ←
    lift (kvCacheSpecs.mapM (projectKvCacheGroupsToWorker globalKvCacheGroups))
  let planMemory ← lift ((projectedGroupsPerWorker.zip availableMemory).mapM
    fun p => overriddenMemory cfg p.1 p.2)
  let checkMemory ← lift ((projectedGroupsPerWorker.zip planMemory).mapM
    fun p => usableMemory p.1 p.2)
  fitMaxModelLen env cfg projectedGroupsPerWorker checkMemory
  forM (projectedGroupsPerWorker.zip checkMemory) (checkWorker env)
  lift (planWorkers env cfg projectedGroupsPerWorker kvCacheSpecs planMemory)

end FlashNext.Ports.KvCache
