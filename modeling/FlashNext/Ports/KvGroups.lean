import FlashNext.Ports.CsaLinear
import FlashNext.Verified.GroupByKey
import FlashNext.Verified.LayerTuples

/-!
# KV-cache groups

`get_kv_cache_groups` tries six ways to split the layers of a model into
groups.  The spec classes come from outside this repository: their
inheritance, `merge` and the fields that only they know are parameters, a page
is linear in the block size for attention specs and fixed for all others.
-/

namespace FlashNext.Ports.KvCache

open FlashNext.Verified.Checked
open FlashNext.Verified.RoundRobin
open FlashNext.Verified.GroupByKey
open FlashNext.Verified.LayerTuples

/-! ## Spec classes -/

def SpecType.slidingWindow : SpecType := .other 0
def SpecType.slidingWindowMla : SpecType := .other 1
def SpecType.chunkedLocalAttention : SpecType := .other 2
def SpecType.hiddenStateCache : SpecType := .other 3
def SpecType.attention : SpecType := .other 4

/-- What the grouping raises. -/
inductive GroupingError where
  | assertion
  | value
  | notImplemented (name : String)
  | zeroDivision
  | indexError
  | plan (e : PlanError)
  | other
  deriving DecidableEq

structure GroupingConfig where
  planner : VllmConfig
  disableHybridKvCacheManager : Bool
  /-- `speculative_config is not None and speculative_config.use_eagle()`. -/
  useEagle : Bool

/-- The functions that are not in this repository. -/
structure GroupingEnv extends Env where
  /-- `cls.__mro__`. -/
  mro : SpecType → List SpecType
  /-- `type(specs[0]).merge(specs)`. -/
  merge : List KVCacheSpec → Except GroupingError KVCacheSpec
  getNumLayerTuples : GroupSpec → Nat
  headSize : KVCacheSpec → Nat
  dtypeSize : KVCacheSpec → Nat
  slidingWindowOf : KVCacheSpec → Nat
  /-- The other fields that `replace_as` hands to the target class. -/
  promotedAttrs : KVCacheSpec → SpecType → Nat
  nonCausalMultiTokenDecode : GroupSpec → Bool
  isDeepseekV4 : KVCacheSpec → Bool

variable (env : GroupingEnv) (cfg : GroupingConfig)

/-- `isinstance(spec, cls)`. -/
def isInstance (spec : KVCacheSpec) (cls : SpecType) : Bool :=
  decide (cls ∈ env.mro spec.type)

/-- `replace(spec, block_size=block_size)`. -/
def withBlockSize (spec : KVCacheSpec) (blockSize : Nat) : KVCacheSpec :=
  { spec with
    blockSize := blockSize
    unpaddedPageSizeBytes :=
      if isInstance env spec .attention then
        (spec.unpaddedPageSizeBytes / spec.blockSize * blockSize : Nat).toPNat'
      else spec.unpaddedPageSizeBytes }

/-- `replace(spec, page_size_padded=page)`. -/
def KVCacheSpec.padTo (spec : KVCacheSpec) (page : ℕ+) : KVCacheSpec :=
  { spec with pageSizePadded := some page }

/-- The bytes a layer needs for a block of some size. -/
def bytesFor (spec : KVCacheSpec) (blockSize : Nat) : ℕ+ :=
  (withBlockSize env spec blockSize).unpaddedPageSizeBytes

def planned {α : Type} (x : Except PlanError α) : Except GroupingError α :=
  x.mapError .plan

/-- `assert x is not None`. -/
def asserted {α : Type} : Option α → Except GroupingError α
  | some x => .ok x
  | none => .error .assertion

/-- `{spec.page_size_bytes for spec in specs.values()}`. -/
def SpecDict.pageSizes (d : SpecDict) : List ℕ+ :=
  (d.map fun p => p.2.pageSizeBytes).dedup

/-! ## One spec, one type -/

/-- `is_kv_cache_spec_uniform`. -/
def isKvCacheSpecUniform (kvCacheSpec : SpecDict) : Except GroupingError Bool :=
  match kvCacheSpec with
  | [] => .ok true
  | _ :: _ =>
      match env.merge (kvCacheSpec.map Prod.snd) with
      | .ok _ => .ok true
      | .error .assertion => .ok false
      | .error e => .error e

/-- A `KVCacheGroupSpec` whose layers share one spec. -/
structure MergedGroup where
  layerNames : List String
  kvCacheSpec : KVCacheSpec

def MergedGroup.toGroup (group : MergedGroup) : KVCacheGroupSpec :=
  ⟨group.layerNames, .single group.kvCacheSpec, false⟩

/-- One turn of the loop of `create_kv_cache_group_specs`. -/
def createKvCacheGroupSpec (kvCacheSpec : SpecDict) (layerNames : List String) :
    Except GroupingError MergedGroup := do
  let layerSpecs ← planned (layerNames.mapM kvCacheSpec.get)
  require (layerSpecs ≠ []) .indexError
  let mergedLayerSpec ← env.merge layerSpecs
  return ⟨layerNames, mergedLayerSpec⟩

/-- `create_kv_cache_group_specs`. -/
def createKvCacheGroupSpecs (kvCacheSpec : SpecDict)
    (groupedLayerNames : List (List String)) :
    Except GroupingError (List MergedGroup) :=
  groupedLayerNames.mapM (createKvCacheGroupSpec env kvCacheSpec)

/-- `_get_kv_cache_groups_uniform_spec`. -/
def getKvCacheGroupsUniformSpec (kvCacheSpecs : SpecDict) :
    Except GroupingError (List KVCacheGroupSpec) := do
  let groups ← createKvCacheGroupSpecs env kvCacheSpecs [kvCacheSpecs.names]
  return groups.map MergedGroup.toGroup

def GroupSpec.kvCacheSpecs : GroupSpec → SpecDict
  | .single _ => []
  | .uniformType _ kvCacheSpecs => kvCacheSpecs

/-- `isinstance(spec, UniformTypeKVCacheSpecs)`. -/
def GroupSpec.isUniformType : GroupSpec → Bool
  | .single _ => false
  | .uniformType _ _ => true

/-- `KVCacheGroupSpec(list(spec.kv_cache_specs.keys()), spec)`. -/
def uniformTypeGroup (spec : GroupSpec) : KVCacheGroupSpec :=
  ⟨spec.kvCacheSpecs.names, spec, false⟩

/-- `_get_kv_cache_groups_uniform_type`. -/
def getKvCacheGroupsUniformType (spec : GroupSpec) : List KVCacheGroupSpec :=
  [uniformTypeGroup spec]

/-! ## Promotion of local attention -/

/-- The entry of `promotions` for a class. -/
def promotions : SpecType → Option SpecType := fun cls =>
  if cls = .slidingWindowMla then some .mlaAttention
  else if cls = .slidingWindow then some .fullAttention
  else if cls = .chunkedLocalAttention then some .fullAttention
  else none

/-- `target_cls`. -/
def targetCls (spec : KVCacheSpec) : Option SpecType :=
  (env.mro spec.type).findSome? promotions

/-- `promoted_page_size_padded`. -/
def promotedPageSizePadded (spec : KVCacheSpec) (blockSize : Nat) : Option ℕ+ :=
  spec.pageSizePadded.map fun padded =>
    max padded (spec.unpaddedPageSizeBytes * blockSize / spec.blockSize : Nat).toPNat'

/-- The `replace_as` of a spec. -/
def promoteAs (spec : KVCacheSpec) (targetCls : SpecType) (blockSize : Nat) :
    KVCacheSpec :=
  { withBlockSize env spec blockSize with
    type := targetCls
    pageSizePadded := promotedPageSizePadded spec blockSize
    attrs := env.promotedAttrs spec targetCls }

/-- One turn of the loop over the specs. -/
def promoteSpec (fullAttentionBlockSize : Option Nat) (p : String × KVCacheSpec) :
    Except GroupingError (String × KVCacheSpec) :=
  match targetCls env p.2 with
  | none => .ok p
  | some target => do
      require (isInstance env p.2 .attention) .assertion
      -- A block size of 0 counts as absent.
      let blockSize :=
        match fullAttentionBlockSize with
        | some (n + 1) => n + 1
        | _ => p.2.blockSize
      return (p.1, promoteAs env p.2 target blockSize)

/-- `full_attention_block_size`. -/
def fullAttentionBlockSize (kvCacheSpec : SpecDict) : Option Nat :=
  match ((kvCacheSpec.filter fun p => isInstance env p.2 .fullAttention).map
    fun p => p.2.blockSize).dedup with
  | [blockSize] => some blockSize
  | _ => none

/-- Full attention beside a sliding window or chunked local attention. -/
def hasLocalBesideFull (kvCacheSpec : SpecDict) : Bool :=
  kvCacheSpec.any (fun p => isInstance env p.2 .fullAttention) &&
    (kvCacheSpec.any (fun p => isInstance env p.2 .slidingWindow) ||
      kvCacheSpec.any fun p => isInstance env p.2 .chunkedLocalAttention)

/-- `is_kv_cache_spec_uniform(specs) or is_uniform_type(specs)`. -/
def isUnified (kvCacheSpec : SpecDict) : Except GroupingError Bool := do
  if ← isKvCacheSpecUniform env kvCacheSpec then return true
  return env.isUniformType kvCacheSpec

/-- The loop of `_promote_local_kv_cache_specs`. -/
def promoteSpecs (kvCacheSpec : SpecDict) : Except GroupingError SpecDict :=
  if hasLocalBesideFull env kvCacheSpec then
    kvCacheSpec.mapM (promoteSpec env (fullAttentionBlockSize env kvCacheSpec))
  else .ok kvCacheSpec

/-- `_promote_local_kv_cache_specs`. -/
def promoteLocalKvCacheSpecs (kvCacheSpec : SpecDict) :
    Except GroupingError SpecDict := do
  if ← isUnified env kvCacheSpec then return kvCacheSpec
  let promotedSpecs ← promoteSpecs env kvCacheSpec
  let unified ← isUnified env promotedSpecs
  require (unified = true) .value
  return promotedSpecs

/-- `unify_hybrid_kv_cache_specs`. -/
def unifyHybridKvCacheSpecs (kvCacheSpec : SpecDict) :
    Except GroupingError SpecDict := do
  if ← isUnified env kvCacheSpec then return kvCacheSpec
  promoteLocalKvCacheSpecs env kvCacheSpec

/-- `_try_get_full_allocation_fallback_groups`. -/
def tryGetFullAllocationFallbackGroups (kvCacheSpec : SpecDict) :
    Except GroupingError (Option (List KVCacheGroupSpec)) :=
  if kvCacheSpec.any fun p => isInstance env p.2 .hiddenStateCache then .ok none
  else if kvCacheSpec.any fun p => isInstance env p.2 .slidingWindowMla ||
      isInstance env p.2 .chunkedLocalAttention then .ok none
  else if !(kvCacheSpec.any (fun p => isInstance env p.2 .mlaAttention) &&
      kvCacheSpec.any fun p => isInstance env p.2 .slidingWindow) then .ok none
  else
    match promoteLocalKvCacheSpecs env kvCacheSpec with
    | .error .value => .ok none
    | .error e => .error e
    | .ok promotedSpecs =>
        .ok ((fromSpecs env.toEnv promotedSpecs).map getKvCacheGroupsUniformType)

/-! ## One page size -/

/-- The largest page. -/
def SpecDict.maxPageSize (d : SpecDict) : ℕ+ :=
  (d.map fun p => p.2.pageSizeBytes).foldl max 1

/-- The spec of a layer whose page is smaller than the largest one. -/
def enlargeSpec (maxPageSize : ℕ+) (layerName : String) (layerSpec : KVCacheSpec) :
    Except GroupingError KVCacheSpec :=
  let layerPageSize := layerSpec.pageSizeBytes
  if isInstance env layerSpec .mamba then .ok (layerSpec.padTo maxPageSize)
  else if (maxPageSize : Nat) % layerPageSize = 0 then
    let ratio := (maxPageSize : Nat) / layerPageSize
    .ok (withBlockSize env layerSpec (layerSpec.blockSize * ratio))
  else if isInstance env layerSpec .attention && !isInstance env layerSpec .mlaAttention then
    .ok (layerSpec.padTo maxPageSize)
  else .error (.notImplemented layerName)

/-- One turn of the loop of `unify_kv_cache_spec_page_size`. -/
def unifySpec (maxPageSize : ℕ+) (p : String × KVCacheSpec) :
    Except GroupingError (String × KVCacheSpec) := do
  if p.2.pageSizeBytes = maxPageSize then return p
  let newSpec ← enlargeSpec env maxPageSize p.1 p.2
  require (newSpec.pageSizeBytes = maxPageSize) .assertion
  return (p.1, newSpec)

/-- `unify_kv_cache_spec_page_size`. -/
def unifyKvCacheSpecPageSize (kvCacheSpec : SpecDict) :
    Except GroupingError SpecDict :=
  if kvCacheSpec.pageSizes.length ≤ 1 then .ok kvCacheSpec
  else kvCacheSpec.mapM (unifySpec env kvCacheSpec.maxPageSize)

/-- An entry of `layer_buckets` with that of `spec_buckets`. -/
structure LayerBucket where
  layers : List String
  specs : List KVCacheSpec

/-- The layers of a spec join the first bucket whose specs it merges with. -/
def joinBucket (layerSpec : KVCacheSpec) (layerNames : List String) :
    List LayerBucket → Except GroupingError (List LayerBucket)
  | [] => .ok [⟨layerNames, [layerSpec]⟩]
  | bucket :: buckets =>
      match env.merge (bucket.specs ++ [layerSpec]) with
      | .ok _ =>
          .ok (⟨bucket.layers ++ layerNames, bucket.specs ++ [layerSpec]⟩ :: buckets)
      | .error .assertion | .error .value => do
          let joined ← joinBucket layerSpec layerNames buckets
          return bucket :: joined
      | .error e => .error e

/-- The loop that fills the buckets. -/
def layerBuckets (kvCacheSpec : SpecDict) :
    Except GroupingError (List LayerBucket) :=
  let sameTypeLayers := groupPairs (kvCacheSpec.map Prod.swap)
  sameTypeLayers.foldlM (fun buckets group => joinBucket env group.1 group.2 buckets) []

/-- `group_size`. -/
def groupSize (buckets : List LayerBucket) : Except GroupingError Nat :=
  match buckets.map fun bucket => bucket.layers.length with
  | [] => .error .value
  | numLayers :: rest =>
      let minNumLayers := rest.foldl min numLayers
      let maxNumLayers := rest.foldl max numLayers
      -- max_num_layers < min_num_layers * 1.5
      .ok (if 2 * maxNumLayers < 3 * minNumLayers then maxNumLayers else minNumLayers)

/-- The slices `layers[i::num_groups]` of a bucket. -/
def bucketSlices (groupSize : Nat) (bucket : LayerBucket) : List (List String) :=
  let numGroups := cdiv bucket.layers.length groupSize
  (List.range numGroups).map fun i => share numGroups i 0 bucket.layers

/-- `_get_kv_cache_groups_uniform_page_size`. -/
def getKvCacheGroupsUniformPageSize (kvCacheSpec : SpecDict) :
    Except GroupingError (List MergedGroup) := do
  let buckets ← layerBuckets env kvCacheSpec
  let size ← groupSize buckets
  createKvCacheGroupSpecs env kvCacheSpec (buckets.flatMap (bucketSlices size))

/-! ## Hidden-state layers -/

/-- The loop of `_largest_divisor_at_most`. -/
def largestDivisorFrom (value : Nat) : Nat → Nat
  | 0 => 1
  | candidate + 1 =>
      if value % (candidate + 1) = 0 then candidate + 1
      else largestDivisorFrom value candidate

/-- `_largest_divisor_at_most`. -/
def largestDivisorAtMost (value limit : Nat) : Nat :=
  largestDivisorFrom value (min value limit)

/-- `get_uniform_page_size`. -/
def getUniformPageSize (kvCacheSpecs : List KVCacheSpec) :
    Except GroupingError ℕ+ :=
  match (kvCacheSpecs.map KVCacheSpec.pageSizeBytes).dedup with
  | [page] => .ok page
  | _ => .error .assertion

/-- `per_token`. -/
def perToken (spec : KVCacheSpec) : Nat :=
  spec.numKvHeads * env.headSize spec * env.dtypeSize spec

/-- The group of one hidden-state layer. -/
def alignHiddenState (commonPage : ℕ+) (groupBlockSize : Nat)
    (p : String × KVCacheSpec) : Except GroupingError MergedGroup := do
  require (perToken env p.2 ≠ 0) .zeroDivision
  let maxBlockSize := max ((commonPage : Nat) / perToken env p.2) 1
  let newBs := largestDivisorAtMost groupBlockSize maxBlockSize
  return ⟨[p.1], (withBlockSize env p.2 newBs).padTo commonPage⟩

/-- The groups of the hidden-state layers behind all others. -/
def addHiddenStates (hiddenSpecs : SpecDict) (groups : List MergedGroup) :
    Except GroupingError (List MergedGroup) := do
  if hiddenSpecs = [] then return groups
  let commonPage ← getUniformPageSize (groups.map MergedGroup.kvCacheSpec)
  let groupBlockSize :=
    (groups.map fun group => group.kvCacheSpec.blockSize).foldl Nat.gcd 0
  let hidden ← hiddenSpecs.mapM (alignHiddenState env commonPage groupBlockSize)
  return groups ++ hidden

/-! ## Layer tuples -/

/-- What becomes an MLA layer on this path. -/
def isFullMla (spec : KVCacheSpec) : Bool :=
  !isInstance env spec .slidingWindowMla && isInstance env spec .mlaAttention

/-- `group_and_unify_kv_cache_specs`. -/
def groupAndUnifyKvCacheSpecs (kvCacheSpec : SpecDict) :
    Except GroupingError (Option (List GroupSpec)) := do
  if ¬ kvCacheSpec.any (fun p => isInstance env p.2 .slidingWindowMla) then return none
  if kvCacheSpec.pageSizes.length ≤ 1 then return none
  let mlaSpecs : SpecDict := kvCacheSpec.filter fun p => isFullMla env p.2
  let groupedSwaMlaSpecs := groupPairs
    ((kvCacheSpec.filter fun p => isInstance env p.2 .slidingWindowMla).map
      fun p => ((p.2.blockSize, env.slidingWindowOf p.2), p))
  require (0 < mlaSpecs.length) .assertion
  let mlaUniformSpec ← asserted (fromSpecs env.toEnv mlaSpecs)
  let swaUniformSpecs ← groupedSwaMlaSpecs.mapM fun group =>
    asserted (fromSpecs env.toEnv group.2)
  return some (mlaUniformSpec :: swaUniformSpecs)

/-- The padding of a chunk size. -/
def padOf (values : List Nat) (d : Nat) : Nat :=
  (values.map fun x => (d - x % d) % d).sum

/-- One turn of the loop of `_approximate_gcd`. -/
def betterChunk (values : List Nat) (best : Nat × Option Nat) (d : Nat) :
    Nat × Option Nat :=
  match best.2 with
  | none => (d, some (padOf values d))
  | some bestPad =>
      if padOf values d < bestPad ∨ (padOf values d = bestPad ∧ best.1 < d) then
        (d, some (padOf values d))
      else best

/-- `_approximate_gcd`. -/
def approximateGcd (values : List Nat) (lowerBound : Option Nat) :
    Except GroupingError Nat := do
  require (values ≠ []) .value
  require (∀ x ∈ values, 0 < x) .value
  let minD := max 1 (lowerBound.getD 1)
  let maxD := values.foldl max 0
  if maxD < minD then return minD
  return ((List.range' minD (maxD + 1 - minD)).foldl (betterChunk values)
    (minD, none)).1

/-- One turn of the loop over the tuple groups. -/
def tupleGroup (smSpec : GroupSpec) (numTupleGroups : Nat)
    (layerTuples : List (List String)) (i : Nat) :
    Except GroupingError KVCacheGroupSpec := do
  -- `layer_tuples[i::num_tuple_groups]`, flattened.
  let groupLayerNames := (share numTupleGroups i 0 layerTuples).flatten
  let groupLayerSpecs ← planned (smSpec.kvCacheSpecs.restrict groupLayerNames)
  let subSmSpec ← asserted (fromSpecs env.toEnv groupLayerSpecs)
  return ⟨groupLayerNames, subSmSpec, false⟩

/-- One turn of the loop over the sliding-window specs. -/
def tupleGroups (numLayerTuples : Nat) (smSpec : GroupSpec) :
    Except GroupingError (List KVCacheGroupSpec) := do
  let layersPerSize := groupPairs
    (smSpec.kvCacheSpecs.map fun p => (p.2.pageSizeBytes, p.1))
  require ((layersPerSize.map fun group => group.2.length).dedup.length = 1) .assertion
  let numLayersPerSize := (layersPerSize.map fun group => group.2.length).headD 0
  let numTupleGroups := cdiv numLayersPerSize numLayerTuples
  let layerTuples := tuples (layersPerSize.map Prod.snd)
  (List.range numTupleGroups).mapM (tupleGroup env smSpec numTupleGroups layerTuples)

/-- `_get_kv_cache_groups_uniform_groups`. -/
def getKvCacheGroupsUniformGroups (groupedSpecs : List GroupSpec) :
    Except GroupingError (List KVCacheGroupSpec) :=
  match groupedSpecs with
  | [] => .error .assertion
  | fullMlaSpec :: swaMlaSpecs => do
      require (∀ spec ∈ groupedSpecs, spec.isUniformType = true) .assertion
      require (∀ p ∈ fullMlaSpec.kvCacheSpecs,
        isInstance env p.2 .mlaAttention = true) .assertion
      let numLayerTuples ← approximateGcd (groupedSpecs.map env.getNumLayerTuples)
        (some (env.getNumLayerTuples fullMlaSpec))
      require (∀ spec ∈ swaMlaSpecs, ∀ p ∈ spec.kvCacheSpecs,
        isInstance env p.2 .slidingWindowMla = true) .assertion
      let swaMlaGroups ← swaMlaSpecs.mapM (tupleGroups env numLayerTuples)
      return uniformTypeGroup fullMlaSpec :: swaMlaGroups.flatten

/-! ## Draft groups -/

def KVCacheGroupSpec.markEagle (group : KVCacheGroupSpec) : KVCacheGroupSpec :=
  { group with isEagleGroup := true }

/-- The group that holds the last registered layer. -/
def markGroupOf (lastLayer : String) : List KVCacheGroupSpec → List KVCacheGroupSpec
  | [] => []
  | group :: groups =>
      if lastLayer ∈ group.layerNames then group.markEagle :: groups
      else group :: markGroupOf lastLayer groups

/-- `_annotate_eagle_groups`. -/
def annotateEagleGroups (kvCacheSpec : SpecDict)
    (kvCacheGroups : List KVCacheGroupSpec) (useDeepseekV4Fallback : Bool) :
    List KVCacheGroupSpec :=
  if !cfg.useEagle then kvCacheGroups
  else
    let marked := kvCacheGroups.map fun group =>
      if env.nonCausalMultiTokenDecode group.kvCacheSpec then group.markEagle
      else group
    if !useDeepseekV4Fallback then marked
    else if !kvCacheSpec.any fun p => env.isDeepseekV4 p.2 then marked
    else
      match kvCacheSpec.getLast? with
      | none => marked
      | some p => markGroupOf p.1 marked

/-! ## Groups -/

/-- The layers that are no hidden-state layers. -/
def filteredSpec (kvCacheSpec : SpecDict) : SpecDict :=
  kvCacheSpec.filter fun p => !isInstance env p.2 .hiddenStateCache

def hiddenSpecs (kvCacheSpec : SpecDict) : SpecDict :=
  kvCacheSpec.filter fun p => isInstance env p.2 .hiddenStateCache

/-- The general path of `get_kv_cache_groups`. -/
def getKvCacheGroupsHybrid (kvCacheSpec : SpecDict) :
    Except GroupingError (List KVCacheGroupSpec) :=
  match unifyKvCacheSpecPageSize env (filteredSpec env kvCacheSpec) with
  | .error (.notImplemented name) => do
      match ← tryGetFullAllocationFallbackGroups env kvCacheSpec with
      | none => .error (.notImplemented name)
      | some fallbackGroups => return fallbackGroups
  | .error e => .error e
  | .ok unified => do
      let groups ← getKvCacheGroupsUniformPageSize env unified
      let allGroups ← addHiddenStates env (hiddenSpecs env kvCacheSpec) groups
      return annotateEagleGroups env cfg kvCacheSpec
        (allGroups.map MergedGroup.toGroup) false

/-- The specs that `get_kv_cache_groups` works on. -/
def managedSpecs (kvCacheSpec : SpecDict) : Except GroupingError SpecDict :=
  if cfg.disableHybridKvCacheManager then unifyHybridKvCacheSpecs env kvCacheSpec
  else .ok kvCacheSpec

/-- The strategies of `get_kv_cache_groups`, in the order in which they are
tried. -/
def groupManagedSpecs (kvCacheSpec : SpecDict) :
    Except GroupingError (List KVCacheGroupSpec) := do
  if kvCacheSpec = [] then return []
  if ← isKvCacheSpecUniform env kvCacheSpec then
    return ← getKvCacheGroupsUniformSpec env kvCacheSpec
  match fromSpecs env.toEnv kvCacheSpec with
  | some uniformSpec => return getKvCacheGroupsUniformType uniformSpec
  | none =>
      match ← groupAndUnifyKvCacheSpecs env kvCacheSpec with
      | some groupedSpecs =>
          let kvCacheGroups ← getKvCacheGroupsUniformGroups env groupedSpecs
          return annotateEagleGroups env cfg kvCacheSpec kvCacheGroups true
      | none =>
          match ← planned (getKvCacheGroupsCsaLinear env.toEnv cfg.planner kvCacheSpec) with
          | some csaGroups => return csaGroups
          | none => getKvCacheGroupsHybrid env cfg kvCacheSpec

/-- `get_kv_cache_groups`. -/
def getKvCacheGroups (kvCacheSpec : SpecDict) :
    Except GroupingError (List KVCacheGroupSpec) := do
  let managed ← managedSpecs env cfg kvCacheSpec
  groupManagedSpecs env cfg managed

end FlashNext.Ports.KvCache
