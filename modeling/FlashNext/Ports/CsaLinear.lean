import FlashNext.Ports.KvCache
import FlashNext.Verified.RoundRobin

/-!
# KV-cache planning for CSA-linear models

A CSA layer owns three caches (`main_kv`, `compressed` and `compressor_state`),
a mamba layer owns one.  Mamba states live in the `main_kv` pages, compressor
states in the `compressed` pages.
-/

namespace FlashNext.Ports.KvCache

open FlashNext.Verified.Checked
open FlashNext.Verified.RoundRobin

/-! ## Roles -/

/-- `_CSALinearRoles`. -/
structure CSALinearRoles where
  mainKv : SpecDict
  compressed : SpecDict
  compressorState : SpecDict
  mamba : SpecDict

def isMainKv (spec : KVCacheSpec) : Bool := decide (spec.type = .fullAttention)

def isCompressed (spec : KVCacheSpec) : Bool :=
  decide (spec.type = .mlaAttention) && decide (1 < spec.tokensPerState)

def isCompressorState (spec : KVCacheSpec) : Bool :=
  decide (spec.type = .circularBuffer)

def isMamba (spec : KVCacheSpec) : Bool := decide (spec.type = .mamba)

def isSupported (spec : KVCacheSpec) : Bool :=
  isMainKv spec || isCompressed spec || isCompressorState spec || isMamba spec

/-- `_classify_csa_linear_specs`. -/
def classifyCsaLinearSpecs (kvCacheSpec : SpecDict) :
    Except PlanError (Option CSALinearRoles) := do
  if ¬ kvCacheSpec.any (fun p => isCompressorState p.2) then return none
  let unsupported : SpecDict := kvCacheSpec.filter fun p => !isSupported p.2
  require (unsupported = []) (.unsupportedOwners unsupported.names)
  let roles : CSALinearRoles :=
    { mainKv := kvCacheSpec.filter fun p => isMainKv p.2
      compressed := kvCacheSpec.filter fun p => isCompressed p.2
      compressorState := kvCacheSpec.filter fun p => isCompressorState p.2
      mamba := kvCacheSpec.filter fun p => isMamba p.2 }
  require (roles.mainKv ≠ [] ∧ roles.compressed ≠ [] ∧ roles.mamba ≠ [])
    .missingRole
  return some roles

/-! ## The three caches of a layer -/

/-- `dict[int, tuple[str, KVCacheSpec]]`. -/
abbrev LayerDict := List (Nat × String × KVCacheSpec)

def LayerDict.indices (d : LayerDict) : List Nat := d.map Prod.fst

/-- `d[layer_index]`. -/
def LayerDict.get (d : LayerDict) (layerIndex : Nat) :
    Except PlanError (String × KVCacheSpec) :=
  match d.lookup layerIndex with
  | some owner => .ok owner
  | none => .error (.keyError (toString layerIndex))

/-- The loop of `by_layer_index`. -/
def byLayerIndexFrom (env : Env) (role : String) :
    LayerDict → SpecDict → Except PlanError LayerDict
  | indexed, [] => .ok indexed
  | indexed, (name, spec) :: specs =>
      match env.extractLayerIndex name with
      | none => .error (.noLayerIndex role name)
      | some layerIndex =>
          match indexed.lookup layerIndex with
          | some other => .error (.duplicateOwner layerIndex role other.1 name)
          | none =>
              byLayerIndexFrom env role (indexed ++ [(layerIndex, name, spec)]) specs

def byLayerIndex (env : Env) (role : String) (specs : SpecDict) :
    Except PlanError LayerDict :=
  byLayerIndexFrom env role [] specs

/-- `_CSALinearCacheTuple`. -/
structure CSALinearCacheTuple where
  layerIndex : Nat
  mainKv : String × KVCacheSpec
  compressed : String × KVCacheSpec
  compressorState : String × KVCacheSpec

/-- Equality of two sets of indices. -/
def sameIndices (xs ys : List Nat) : Bool :=
  xs.all (fun i => decide (i ∈ ys)) && ys.all (fun i => decide (i ∈ xs))

/-- `_get_csa_linear_cache_tuples`. -/
def getCsaLinearCacheTuples (env : Env) (roles : CSALinearRoles) :
    Except PlanError (List CSALinearCacheTuple) := do
  let mainKvByLayer ← byLayerIndex env "main_kv" roles.mainKv
  let compressedByLayer ← byLayerIndex env "compressed" roles.compressed
  let compressorStateByLayer ←
    byLayerIndex env "compressor-state" roles.compressorState
  let layerIndices := mainKvByLayer.indices
  require (sameIndices compressedByLayer.indices layerIndices ∧
    sameIndices compressorStateByLayer.indices layerIndices) .layerMismatch
  (layerIndices.insertionSort (· ≤ ·)).mapM fun layerIndex => do
    let mainKv ← mainKvByLayer.get layerIndex
    let compressed ← compressedByLayer.get layerIndex
    let compressorState ← compressorStateByLayer.get layerIndex
    return ⟨layerIndex, mainKv, compressed, compressorState⟩

/-! ## Groups -/

/-- The loop over the ranks. -/
def mambaGroupCountFrom (ranges : List (Nat × Nat))
    (mambaIndices mainKvIndices : List Nat) (numGroups : Nat) : Option Nat :=
  ranges.foldlM (fun numGroups range =>
    let numMamba := mambaIndices.countP fun i =>
      decide (range.1 ≤ i ∧ i < range.2)
    let numMainKv := mainKvIndices.countP fun i =>
      decide (range.1 ≤ i ∧ i < range.2)
    if numMamba = 0 then some numGroups
    else if numMainKv = 0 then none
    else some (max numGroups (cdiv numMamba numMainKv))) numGroups

/-- `extract_layer_index` where nothing catches its exceptions. -/
def layerIndexOf (env : Env) (name : String) : Except PlanError Nat :=
  match env.extractLayerIndex name with
  | some layerIndex => .ok layerIndex
  | none => .error (.layerIndex name)

/-- The layer range of every rank. -/
def rankRanges (env : Env) (cfg : VllmConfig) : List (Nat × Nat) :=
  (List.range cfg.pipelineParallelSize).map fun rank =>
    env.getPpIndices cfg.totalNumHiddenLayers rank cfg.pipelineParallelSize

/-- `_get_csa_linear_mamba_group_count`. -/
def getCsaLinearMambaGroupCount (env : Env) (cfg : VllmConfig)
    (mambaNames mainKvNames : List String) : Except PlanError (Option Nat) := do
  let numGroups := cdiv mambaNames.length mainKvNames.length
  if cfg.pipelineParallelSize = 1 then return some numGroups
  let mambaIndices ← mambaNames.mapM (layerIndexOf env)
  let mainKvIndices ← mainKvNames.mapM (layerIndexOf env)
  return mambaGroupCountFrom (rankRanges env cfg) mambaIndices mainKvIndices
    numGroups

/-- What all CSA layers share: compression ratio, block size and the two page
sizes. -/
structure CSAShape where
  ratio : Nat
  blockSize : Nat
  mainKvPage : ℕ+
  compressedPage : ℕ+
  deriving DecidableEq

def CSALinearCacheTuple.shape (cache : CSALinearCacheTuple) : CSAShape where
  ratio := cache.compressed.2.tokensPerState
  blockSize := cache.mainKv.2.blockSize
  mainKvPage := cache.mainKv.2.pageSizeBytes
  compressedPage := cache.compressed.2.pageSizeBytes

/-- The geometry that the aliasing of compressor states needs. -/
def CSALinearCacheTuple.geometryOk (cache : CSALinearCacheTuple) : Bool :=
  decide (cache.mainKv.2.blockSize = cache.compressed.2.blockSize) &&
    decide (cache.compressorState.2.unpaddedPageSizeBytes ≤
      cache.compressed.2.pageSizeBytes) &&
    decide (cache.mainKv.2.pageSizePadded = none) &&
    decide (cache.compressed.2.pageSizePadded = none) &&
    decide (cache.compressorState.2.pageSizePadded = none)

/-- The checks on the tuples, up to the shape they share. -/
def commonShape (cfg : VllmConfig) (tuples : List CSALinearCacheTuple) :
    Except PlanError CSAShape := do
  require (∀ cache ∈ tuples, cache.mainKv.2.numKvHeads = cfg.numKvHeads) .kvHeads
  match tuples.find? fun cache => !cache.geometryOk with
  | some cache => .error (.geometry cache.layerIndex)
  | none =>
      match (tuples.map CSALinearCacheTuple.shape).dedup with
      | [shape] => do
          require
            (¬ (cfg.enablePrefixCaching ∧
              ∃ unit ∈ cfg.prefixMatchUnit, unit % shape.ratio ≠ 0))
            .prefixMatchUnit
          return shape
      | _ => .error .shapes

/-- `UniformTypeKVCacheSpecs.from_specs`. -/
def fromSpecs (env : Env) (specs : SpecDict) : Option GroupSpec :=
  match specs with
  | [] => none
  | (_, spec) :: _ =>
      if env.isUniformType specs then some (.uniformType spec.blockSize specs)
      else none

def compressedSparseSpecs (tuples : List CSALinearCacheTuple) : SpecDict :=
  tuples.flatMap fun cache => [cache.mainKv, cache.compressed]

def paddedCompressorStateSpecs (shape : CSAShape)
    (tuples : List CSALinearCacheTuple) : SpecDict :=
  tuples.map fun cache =>
    (cache.compressorState.1,
      { cache.compressorState.2 with pageSizePadded := some shape.compressedPage })

/-- The two groups of the CSA layers. -/
def csaGroups (env : Env) (shape : CSAShape) (tuples : List CSALinearCacheTuple) :
    Except PlanError (List KVCacheGroupSpec) :=
  let compressedSparse := compressedSparseSpecs tuples
  let compressorState := paddedCompressorStateSpecs shape tuples
  match fromSpecs env compressedSparse, fromSpecs env compressorState with
  | some compressedSparseUniform, some compressorStateUniform =>
      .ok [⟨compressedSparse.names, compressedSparseUniform, false⟩,
        ⟨compressorState.names, compressorStateUniform, false⟩]
  | _, _ => .error .lifetimes

/-- The mamba owners of one policy. -/
def mambaOwners (roles : CSALinearRoles) (tpReplicated : Bool) : SpecDict :=
  roles.mamba.filter fun p => p.2.tpReplicated == tpReplicated

/-- One turn of the loop over `tp_replicated`. -/
def mambaGroups (env : Env) (cfg : VllmConfig) (roles : CSALinearRoles)
    (mainKvNames : List String) (mainKvPage : ℕ+) (tpReplicated : Bool) :
    Except PlanError (List KVCacheGroupSpec) :=
  let owners := mambaOwners roles tpReplicated
  match owners with
  | [] => .ok []
  | (name, representative) :: rest => do
      require (∀ p ∈ rest, p.2 = representative) (.mambaSpecs tpReplicated)
      require (representative.unpaddedPageSizeBytes ≤ mainKvPage)
        (.mambaPage name representative.unpaddedPageSizeBytes mainKvPage)
      match ← getCsaLinearMambaGroupCount env cfg owners.names mainKvNames with
      | none => .error .pipelineStage
      | some numGroups =>
          let paddedSpec :=
            { representative with pageSizePadded := some mainKvPage }
          return (deal numGroups owners.names).map fun groupNames =>
            ⟨groupNames, .single paddedSpec, false⟩

/-- `_get_kv_cache_groups_csa_linear`. -/
def getKvCacheGroupsCsaLinear (env : Env) (cfg : VllmConfig)
    (kvCacheSpec : SpecDict) :
    Except PlanError (Option (List KVCacheGroupSpec)) := do
  match ← classifyCsaLinearSpecs kvCacheSpec with
  | none => return none
  | some roles =>
      let tuples ← getCsaLinearCacheTuples env roles
      let shape ← commonShape cfg tuples
      let groups ← csaGroups env shape tuples
      let mainKvNames := tuples.map fun cache => cache.mainKv.1
      let sharded ← mambaGroups env cfg roles mainKvNames shape.mainKvPage false
      let replicated ← mambaGroups env cfg roles mainKvNames shape.mainKvPage true
      return some (groups ++ sharded ++ replicated)

/-! ## Tensors -/

/-- `_CSALinearTensorLayout`. -/
structure CSALinearTensorLayout where
  mainKvNames : List String
  compressedNames : List String
  compressorStateNames : List String
  mambaGroups : List KVCacheGroupSpec
  mainKvPageSize : Nat
  compressedPageSize : Nat

def CSALinearTensorLayout.bytesPerBlock (l : CSALinearTensorLayout) : Nat :=
  l.mainKvNames.length * (l.mainKvPageSize + l.compressedPageSize)

/-- What the loop over the groups has found. -/
structure CSALinearScan where
  compressedSparse : Option SpecDict
  compressorState : Option SpecDict
  mambaGroups : List KVCacheGroupSpec

/-- The loop of `_get_csa_linear_tensor_layout`. -/
def scanCsaLinear : CSALinearScan → List KVCacheGroupSpec →
    Except PlanError (Option CSALinearScan)
  | found, [] => .ok (some found)
  | found, group :: groups =>
      if group.layerNames = [] then scanCsaLinear found groups
      else
        match group.kvCacheSpec with
        | .single spec =>
            if spec.type = .mamba then
              scanCsaLinear
                { found with mambaGroups := found.mambaGroups ++ [group] } groups
            else .ok none
        | .uniformType _ [] => .error .stopIteration
        | .uniformType _ ((name, member) :: specs) =>
            if member.type = .circularBuffer then
              scanCsaLinear
                { found with compressorState := some ((name, member) :: specs) }
                groups
            else if member.type = .fullAttention then
              scanCsaLinear
                { found with compressedSparse := some ((name, member) :: specs) }
                groups
            else .ok none

/-- `_get_csa_linear_tensor_layout`. -/
def getCsaLinearTensorLayout (kvCacheGroups : List KVCacheGroupSpec) :
    Except PlanError (Option CSALinearTensorLayout) := do
  match ← scanCsaLinear ⟨none, none, []⟩ kvCacheGroups with
  | some ⟨some compressedSparse, some compressorState, mambaGroups⟩ =>
      let mainKv : SpecDict := compressedSparse.filter fun p => isMainKv p.2
      let compressed : SpecDict :=
        compressedSparse.filter fun p => decide (p.2.type = .mlaAttention)
      match mainKv, compressed with
      | (_, main) :: _, (_, comp) :: _ =>
          return some
            { mainKvNames := mainKv.names
              compressedNames := compressed.names
              compressorStateNames := compressorState.names
              mambaGroups := mambaGroups
              mainKvPageSize := main.pageSizeBytes
              compressedPageSize := comp.pageSizeBytes }
      | _, _ => return none
  | _ => return none

/-- The offsets of some cache owners, `page` bytes apart. -/
def placeFrom (start page : Nat) (names : List String) : List (String × Nat) :=
  names.zipIdx.map fun p => (p.1, start + p.2 * page)

/-- `compressed_offset`. -/
def CSALinearTensorLayout.compressedOffset (l : CSALinearTensorLayout) : Nat :=
  l.mainKvNames.length * l.mainKvPageSize

/-- All cache owners with their byte offsets, in the order of their tensors. -/
def CSALinearTensorLayout.placements (l : CSALinearTensorLayout) :
    List (String × Nat) :=
  placeFrom 0 l.mainKvPageSize l.mainKvNames ++
    placeFrom l.compressedOffset l.compressedPageSize l.compressedNames ++
    placeFrom l.compressedOffset l.compressedPageSize l.compressorStateNames ++
    l.mambaGroups.flatMap fun group =>
      placeFrom 0 l.mainKvPageSize group.layerNames

/-- The loop that fills `specs_by_layer`; groups hold different layers. -/
def specsByLayer (kvCacheGroups : List KVCacheGroupSpec) :
    Except PlanError SpecDict := do
  let dicts ← kvCacheGroups.mapM fun group =>
    group.layerNames.mapM fun layerName => do
      let spec ← getPerLayerSpec group layerName
      return (layerName, spec)
  return dicts.flatten

/-- `make_tensor`. -/
def makeTensor (env : Env) (specs : SpecDict) (numBlocks size : Nat)
    (kvLayout : KVCacheLayout) (interleavedBlockStride : Option Nat)
    (layerName : String) (byteOffset : Nat) : Except PlanError KVCacheTensor := do
  let spec ← specs.get layerName
  let strides :=
    env.computeLayoutStrides spec numBlocks 1 kvLayout interleavedBlockStride
  let page : Nat := spec.pageSizeBytes
  return {
    size := size
    layers := [layerName]
    layerStride := strides.1
    blockStride := strides.2
    offset := byteOffset * max strides.1 page / page }

/-- `_get_kv_cache_config_csa_linear`. -/
def getKvCacheConfigCsaLinear (env : Env) (cfg : VllmConfig)
    (kvCacheGroups : List KVCacheGroupSpec) (availableMemory : Int)
    (kvLayout : KVCacheLayout) :
    Except PlanError (Option (Nat × List KVCacheTensor)) := do
  match ← getCsaLinearTensorLayout kvCacheGroups with
  | none => return none
  | some csaLayout =>
      require kvLayout.isBlockCompact .notBlockCompact
      let bytesPerBlock := csaLayout.bytesPerBlock
      let largest ← getKvCacheBytesPerBlock kvCacheGroups
      require (bytesPerBlock = largest) .assertion
      let numBlocks :=
        mayOverrideNumBlocks cfg (blocksIn availableMemory bytesPerBlock)
      let interleavedBlockStride :=
        if kvLayout.isBlockOutermost then some bytesPerBlock else none
      let specs ← specsByLayer kvCacheGroups
      let kvCacheTensors ← csaLayout.placements.mapM fun p =>
        makeTensor env specs numBlocks (bytesPerBlock * numBlocks) kvLayout
          interleavedBlockStride p.1 p.2
      return some (numBlocks, kvCacheTensors)

end FlashNext.Ports.KvCache
