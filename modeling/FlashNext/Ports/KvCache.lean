import FlashNext.Verified.Checked
import Mathlib.Data.List.Sort
import Mathlib.Data.PNat.Basic

/-!
# KV-cache planning: specs, groups and tensors

What the planner reads and writes.  A Python dict is the list of its items in
insertion order.  Layouts, pipeline indices and the byte sizes that a request
needs come from code outside this repository and are parameters.
-/

namespace FlashNext.Ports.KvCache

open FlashNext.Verified.Checked

/-! ## Specs -/

/-- `type(spec)`. -/
inductive SpecType where
  | fullAttention
  | mlaAttention
  | circularBuffer
  | mamba
  | other (id : Nat)
  deriving DecidableEq

/-- `KVCacheSpec`; `attrs` stands for the fields that only equality reads. -/
structure KVCacheSpec where
  type : SpecType
  blockSize : Nat
  numKvHeads : Nat
  tokensPerState : Nat
  tpReplicated : Bool
  unpaddedPageSizeBytes : ℕ+
  pageSizePadded : Option ℕ+
  attrs : Nat
  deriving DecidableEq

def KVCacheSpec.pageSizeBytes (spec : KVCacheSpec) : ℕ+ :=
  spec.pageSizePadded.getD spec.unpaddedPageSizeBytes

/-- `dict[str, KVCacheSpec]`. -/
abbrev SpecDict := List (String × KVCacheSpec)

def SpecDict.names (d : SpecDict) : List String := d.map Prod.fst

/-- The spec of a group of layers. -/
inductive GroupSpec where
  | single (spec : KVCacheSpec)
  /-- `UniformTypeKVCacheSpecs`. -/
  | uniformType (blockSize : Nat) (kvCacheSpecs : SpecDict)

structure KVCacheGroupSpec where
  layerNames : List String
  kvCacheSpec : GroupSpec
  isEagleGroup : Bool

structure KVCacheTensor where
  size : Nat
  layers : List String
  layerStride : Nat
  blockStride : Nat
  offset : Nat

structure KVCacheConfig where
  numBlocks : Nat
  kvCacheTensors : List KVCacheTensor
  kvCacheGroups : List KVCacheGroupSpec

structure KVCacheLayout where
  isBlockCompact : Bool
  isBlockOutermost : Bool
  isLayerCompact : Bool
  deriving DecidableEq

/-! ## Configuration, surroundings and failures -/

structure VllmConfig where
  pipelineParallelSize : Nat
  totalNumHiddenLayers : Nat
  /-- `model_config.get_num_kv_heads(parallel_config)`. -/
  numKvHeads : Nat
  enablePrefixCaching : Bool
  prefixMatchUnit : Option Nat
  numGpuBlocksOverride : Option Nat
  kvCacheLayout : KVCacheLayout
  maxModelLen : Nat
  originalMaxModelLen : Int

/-- What the planner raises. -/
inductive PlanError where
  | assertion
  | keyError (name : String)
  | stopIteration
  | emptyMax
  | emptyMin
  | differentSpecs (name : String)
  | unsupportedOwners (names : List String)
  | missingRole
  | noLayerIndex (role name : String)
  | duplicateOwner (layer : Nat) (role other name : String)
  | layerMismatch
  | kvHeads
  | geometry (layer : Nat)
  | shapes
  | prefixMatchUnit
  | lifetimes
  | mambaSpecs (tpReplicated : Bool)
  | mambaPage (name : String) (needed page : Nat)
  | layerIndex (name : String)
  | pipelineStage
  | notBlockCompact
  | mixedPages (sizes : List Nat)
  | noMemory
  | notEnoughMemory (maxModelLen needed : Nat) (available : Int) (estimated : Nat)
  | cannotAutoFit
  | usage
  | indexError
  deriving DecidableEq

/-- The functions that are not in this repository. -/
structure Env where
  extractLayerIndex : String → Option Nat
  /-- Total layers, rank and number of ranks. -/
  getPpIndices : Nat → Nat → Nat → Nat × Nat
  isUniformType : SpecDict → Bool
  /-- Spec, blocks, layers, layout and the fixed block stride; the layer stride
  and the block stride are returned. -/
  computeLayoutStrides :
    KVCacheSpec → Nat → Nat → KVCacheLayout → Option Nat → Nat × Nat
  /-- What one request of a length takes; the computation may raise. -/
  maxMemoryUsagePages : SpecDict → Nat → Except PlanError Nat
  maxMemoryUsageBytes : KVCacheSpec → Nat → Except PlanError Nat

/-- `d[name]`. -/
def SpecDict.get (d : SpecDict) (name : String) : Except PlanError KVCacheSpec :=
  match d.lookup name with
  | some spec => .ok spec
  | none => .error (.keyError name)

def cdiv (a b : Nat) : Nat := (a + b - 1) / b

theorem cdiv_mono {a a' : Nat} (h : a ≤ a') (b : Nat) : cdiv a b ≤ cdiv a' b := by
  unfold cdiv
  apply Nat.div_le_div_right
  omega

theorem cdiv_pos {a b : Nat} (ha : 0 < a) (hb : 0 < b) : 0 < cdiv a b := by
  unfold cdiv
  apply Nat.div_pos
  · omega
  · exact hb

theorem cdiv_le_self {a b : Nat} (hb : 0 < b) : cdiv a b ≤ a := by
  unfold cdiv
  rw [← Nat.lt_succ_iff, Nat.div_lt_iff_lt_mul hb]
  have hmul : a ≤ a * b := Nat.le_mul_of_pos_right a hb
  rw [Nat.succ_mul]
  omega

theorem cdiv_mul_self (a : Nat) {b : Nat} (hb : 0 < b) : cdiv (a * b) b = a := by
  rw [cdiv, Nat.add_sub_assoc hb, Nat.mul_comm, Nat.mul_add_div hb,
    Nat.div_eq_of_lt (Nat.sub_lt hb Nat.one_pos), Nat.add_zero]

/-! ## The specs of the whole model -/

/-- One turn of the loop that merges the specs of all workers. -/
def mergeSpec (merged : SpecDict) (p : String × KVCacheSpec) :
    Except PlanError SpecDict :=
  match merged.lookup p.1 with
  | none => .ok (merged ++ [p])
  | some spec => do
      require (spec = p.2) (.differentSpecs p.1)
      return merged

/-- `merged_kv_cache_specs`. -/
def mergeKvCacheSpecs (kvCacheSpecs : List SpecDict) : Except PlanError SpecDict :=
  kvCacheSpecs.flatten.foldlM mergeSpec []

/-- Workers that share no layer are put one after another. -/
theorem mergeKvCacheSpecs_of_nodup {kvCacheSpecs : List SpecDict}
    (h : (SpecDict.names kvCacheSpecs.flatten).Nodup) :
    mergeKvCacheSpecs kvCacheSpecs = .ok kvCacheSpecs.flatten := by
  have hloop : ∀ (rest merged : SpecDict), (SpecDict.names (merged ++ rest)).Nodup →
      rest.foldlM mergeSpec merged = .ok (merged ++ rest) := by
    intro rest
    induction rest with
    | nil =>
        intro merged _
        rw [List.foldlM_nil, List.append_nil]
        rfl
    | cons p rest ih =>
        intro merged hnodup
        have hsplit : merged ++ p :: rest = (merged ++ [p]) ++ rest :=
          List.append_cons merged p rest
        have hnew : merged.lookup p.1 = none := by
          apply List.lookup_eq_none_iff.mpr
          intro q hq
          rw [SpecDict.names, List.map_append, List.nodup_append] at hnodup
          have hne := hnodup.2.2 q.1 (List.mem_map_of_mem hq) p.1
            (List.mem_map_of_mem List.mem_cons_self)
          simpa using hne.symm
        rw [List.foldlM_cons, mergeSpec, hnew, ok_bind, hsplit]
        rw [hsplit] at hnodup
        exact ih (merged ++ [p]) hnodup
  rw [mergeKvCacheSpecs, hloop kvCacheSpecs.flatten [] h, List.nil_append]

/-! ## Pages of a group -/

/-- `_get_per_layer_spec`. -/
def getPerLayerSpec (group : KVCacheGroupSpec) (layerName : String) :
    Except PlanError KVCacheSpec :=
  match group.kvCacheSpec with
  | .uniformType _ kvCacheSpecs => kvCacheSpecs.get layerName
  | .single spec => .ok spec

/-- The page sizes of the layers of a group. -/
def groupPages (group : KVCacheGroupSpec) : Except PlanError (List Nat) :=
  group.layerNames.mapM fun layerName => do
    let spec ← getPerLayerSpec group layerName
    return (spec.pageSizeBytes : Nat)

/-- `max(sizes)`. -/
def maxOf : List Nat → Except PlanError Nat
  | [] => .error .emptyMax
  | size :: sizes => .ok (sizes.foldl max size)

/-- `_get_kv_cache_bytes_per_block`. -/
def getKvCacheBytesPerBlock (kvCacheGroups : List KVCacheGroupSpec) :
    Except PlanError Nat := do
  let pages ← kvCacheGroups.mapM groupPages
  let bytesPerBlock ← maxOf (pages.map List.sum)
  require (0 < bytesPerBlock) .assertion
  return bytesPerBlock

/-- `validate_kv_cache_layout`. -/
def validateKvCacheLayout (layout : KVCacheLayout)
    (kvCacheGroups : List KVCacheGroupSpec) : Except PlanError Unit := do
  let pages ← kvCacheGroups.mapM groupPages
  let pageSizes := pages.flatten.dedup
  if pageSizes.length = 1 then return ()
  require
    (¬ (¬ layout.isBlockCompact ∨ (1 < kvCacheGroups.length ∧ layout.isLayerCompact)))
    (.mixedPages (pageSizes.insertionSort (· ≤ ·)))

/-! ## Projection -/

/-- The items of a dict for some names. -/
def SpecDict.restrict (d : SpecDict) (names : List String) :
    Except PlanError SpecDict :=
  names.mapM fun name => do
    let spec ← d.get name
    return (name, spec)

/-- One group of `_project_kv_cache_groups_to_worker`. -/
def projectGroup (workerSpec : SpecDict) (group : KVCacheGroupSpec) :
    Except PlanError KVCacheGroupSpec := do
  let workerLayerNames := group.layerNames.filter fun name =>
    decide (name ∈ workerSpec.names)
  let isEagleGroup := group.isEagleGroup && decide (workerLayerNames ≠ [])
  match group.kvCacheSpec with
  | .single spec => return ⟨workerLayerNames, .single spec, isEagleGroup⟩
  | .uniformType blockSize kvCacheSpecs =>
      if workerLayerNames = [] then
        return ⟨workerLayerNames, .uniformType blockSize kvCacheSpecs, isEagleGroup⟩
      let owned ← kvCacheSpecs.restrict workerLayerNames
      return ⟨workerLayerNames, .uniformType blockSize owned, isEagleGroup⟩

/-- `_project_kv_cache_groups_to_worker`. -/
def projectKvCacheGroupsToWorker (globalKvCacheGroups : List KVCacheGroupSpec)
    (workerSpec : SpecDict) : Except PlanError (List KVCacheGroupSpec) :=
  globalKvCacheGroups.mapM (projectGroup workerSpec)

/-- `may_override_num_blocks`. -/
def mayOverrideNumBlocks (cfg : VllmConfig) (numBlocks : Nat) : Nat :=
  cfg.numGpuBlocksOverride.getD numBlocks

/-- `available_memory // bytes_per_block`; negative memory leaves no block. -/
def blocksIn (availableMemory : Int) (bytesPerBlock : Nat) : Nat :=
  (availableMemory / bytesPerBlock).toNat

end FlashNext.Ports.KvCache
