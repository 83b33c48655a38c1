import FlashNext.Ports.CsaLinearRank
import FlashNext.Ports.KvCacheLayout

/-!
# KV-cache planning for CSA-linear models: the layout of a rank

In every block a rank with `n` CSA layers keeps `n` `main_kv` pages and behind
them `n` `compressed` pages.  Mamba states use the former, compressor states
the latter.
-/

namespace FlashNext.Ports.KvCache

open FlashNext.Verified.Checked
open FlashNext.Verified.PackedPages

variable {env : Env} {cfg : VllmConfig} {w : SpecDict} {shape : CSAShape}
  {tuples : List CSALinearCacheTuple} {mambas : List KVCacheGroupSpec}
  {blockSize blockSize' : Nat}

/-! ## Reading the layout back -/

/-- The groups of a rank. -/
def rankGroups (blockSize blockSize' : Nat) (shape : CSAShape)
    (tuples : List CSALinearCacheTuple) (mambas : List KVCacheGroupSpec) :
    List KVCacheGroupSpec :=
  compressedSparseGroup blockSize tuples ::
    compressorStateGroup blockSize' shape tuples :: mambas

def rankLayout (shape : CSAShape) (tuples : List CSALinearCacheTuple)
    (mambas : List KVCacheGroupSpec) : CSALinearTensorLayout where
  mainKvNames := tuples.map fun cache => cache.mainKv.1
  compressedNames := tuples.map fun cache => cache.compressed.1
  compressorStateNames := tuples.map fun cache => cache.compressorState.1
  mambaGroups := mambas.filter fun group => decide (group.layerNames ≠ [])
  mainKvPageSize := shape.mainKvPage
  compressedPageSize := shape.compressedPage

private theorem scan_mambas
    (hmamba : ∀ group ∈ mambas, ∃ spec, group.kvCacheSpec = .single spec ∧
      spec.type = .mamba ∧ spec.pageSizeBytes = shape.mainKvPage)
    (found : CSALinearScan) :
    scanCsaLinear found mambas =
      .ok (some { found with
        mambaGroups := found.mambaGroups ++
          mambas.filter fun group => decide (group.layerNames ≠ []) }) := by
  induction mambas generalizing found with
  | nil =>
      rw [scanCsaLinear, List.filter_nil, List.append_nil]
  | cons group mambas ih =>
      have hrest := ih fun g hg => hmamba g (List.mem_cons_of_mem group hg)
      obtain ⟨spec, hspec, htype, -⟩ := hmamba group List.mem_cons_self
      rw [scanCsaLinear, List.filter_cons]
      by_cases hnil : group.layerNames = []
      · rw [if_pos hnil, hrest, if_neg (by simp [hnil])]
      · rw [if_neg hnil, hspec]
        dsimp only
        rw [if_pos htype, hrest, if_pos (by simp [hnil]), List.append_assoc]
        rfl

private theorem filter_mainKv (h : Projected w shape tuples mambas) :
    (compressedSparseSpecs tuples).filter (fun p => isMainKv p.2) =
      tuples.map CSALinearCacheTuple.mainKv := by
  have htypes : ∀ cache ∈ tuples, isMainKv cache.mainKv.2 = true ∧
      isMainKv cache.compressed.2 = false := by
    intro cache hcache
    rw [isMainKv, isMainKv, h.mainKvType cache hcache,
      h.compressedType cache hcache]
    exact ⟨rfl, rfl⟩
  rw [compressedSparseSpecs, List.filter_flatMap, List.map_eq_flatMap]
  apply List.flatMap_congr
  intro cache hcache
  obtain ⟨hmain, hcomp⟩ := htypes cache hcache
  simp [hmain, hcomp]

private theorem filter_compressed (h : Projected w shape tuples mambas) :
    (compressedSparseSpecs tuples).filter
        (fun p => decide (p.2.type = .mlaAttention)) =
      tuples.map CSALinearCacheTuple.compressed := by
  have htypes : ∀ cache ∈ tuples, cache.mainKv.2.type = .fullAttention ∧
      cache.compressed.2.type = .mlaAttention := fun cache hcache =>
    ⟨h.mainKvType cache hcache, h.compressedType cache hcache⟩
  rw [compressedSparseSpecs, List.filter_flatMap, List.map_eq_flatMap]
  apply List.flatMap_congr
  intro cache hcache
  obtain ⟨hmain, hcomp⟩ := htypes cache hcache
  simp [hmain, hcomp]

/-- One turn of the scan over a uniform group that has a first spec. -/
private theorem scan_uniform {d : SpecDict} {p : String × KVCacheSpec}
    {rest : SpecDict} (hd : d = p :: rest) (found : CSALinearScan)
    (groups : List KVCacheGroupSpec) :
    scanCsaLinear found (⟨d.names, .uniformType blockSize d, false⟩ :: groups) =
      if p.2.type = .circularBuffer then
        scanCsaLinear { found with compressorState := some d } groups
      else if p.2.type = .fullAttention then
        scanCsaLinear { found with compressedSparse := some d } groups
      else .ok none := by
  obtain ⟨name, member⟩ := p
  have hne : d.names ≠ [] := by
    rw [hd]
    exact List.cons_ne_nil _ _
  rw [scanCsaLinear]
  dsimp only
  rw [if_neg hne, hd]

private theorem scan_sparse {d : SpecDict} {p : String × KVCacheSpec}
    {rest : SpecDict} (hd : d = p :: rest) (htype : p.2.type = .fullAttention)
    (found : CSALinearScan) (groups : List KVCacheGroupSpec) :
    scanCsaLinear found (⟨d.names, .uniformType blockSize d, false⟩ :: groups) =
      scanCsaLinear { found with compressedSparse := some d } groups := by
  have hother : ¬ p.2.type = .circularBuffer := by
    rw [htype]
    exact SpecType.noConfusion
  rw [scan_uniform hd, if_neg hother, if_pos htype]

private theorem scan_state {d : SpecDict} {p : String × KVCacheSpec}
    {rest : SpecDict} (hd : d = p :: rest) (htype : p.2.type = .circularBuffer)
    (found : CSALinearScan) (groups : List KVCacheGroupSpec) :
    scanCsaLinear found (⟨d.names, .uniformType blockSize d, false⟩ :: groups) =
      scanCsaLinear { found with compressorState := some d } groups := by
  rw [scan_uniform hd, if_pos htype]

theorem getCsaLinearTensorLayout_rank (h : Projected w shape tuples mambas) :
    getCsaLinearTensorLayout
        (rankGroups blockSize blockSize' shape tuples mambas) =
      .ok (some (rankLayout shape tuples mambas)) := by
  obtain ⟨cache, rest, hcons⟩ := List.exists_cons_of_ne_nil h.nonempty
  have hcache : cache ∈ tuples := by
    rw [hcons]
    exact List.mem_cons_self
  have hsparse : compressedSparseSpecs tuples =
      cache.mainKv :: cache.compressed :: compressedSparseSpecs rest := by
    rw [hcons]
    rfl
  have hstate : paddedCompressorStateSpecs shape tuples =
      (cache.compressorState.1, { cache.compressorState.2 with
        pageSizePadded := some shape.compressedPage }) ::
          paddedCompressorStateSpecs shape rest := by
    rw [hcons]
    rfl
  have hscan : scanCsaLinear ⟨none, none, []⟩
      (rankGroups blockSize blockSize' shape tuples mambas) =
        .ok (some ⟨some (compressedSparseSpecs tuples),
          some (paddedCompressorStateSpecs shape tuples),
          mambas.filter fun group => decide (group.layerNames ≠ [])⟩) := by
    rw [rankGroups, compressedSparseGroup, compressorStateGroup,
      scan_sparse hsparse (h.mainKvType cache hcache),
      scan_state hstate (h.stateType cache hcache), scan_mambas h.mamba]
    rfl
  have hshape := h.shapeOf cache hcache
  have hmainPage : cache.mainKv.2.pageSizeBytes = shape.mainKvPage :=
    congrArg CSAShape.mainKvPage hshape
  have hcompPage : cache.compressed.2.pageSizeBytes = shape.compressedPage :=
    congrArg CSAShape.compressedPage hshape
  have hmainKv := filter_mainKv h
  have hcompressed := filter_compressed h
  have hlayout : rankLayout shape tuples mambas =
      { mainKvNames := SpecDict.names (tuples.map CSALinearCacheTuple.mainKv)
        compressedNames :=
          SpecDict.names (tuples.map CSALinearCacheTuple.compressed)
        compressorStateNames := (paddedCompressorStateSpecs shape tuples).names
        mambaGroups := mambas.filter fun group => decide (group.layerNames ≠ [])
        mainKvPageSize := cache.mainKv.2.pageSizeBytes
        compressedPageSize := cache.compressed.2.pageSizeBytes } := by
    rw [hmainPage, hcompPage, rankLayout, SpecDict.names, SpecDict.names,
      SpecDict.names, paddedCompressorStateSpecs, List.map_map, List.map_map,
      List.map_map]
    rfl
  rw [getCsaLinearTensorLayout, hscan, ok_bind, hlayout]
  dsimp only
  rw [hmainKv, hcompressed, hcons]
  rfl

/-! ## Bytes per block -/

theorem Projected.names_nodup (h : Projected w shape tuples mambas) :
    ((compressedSparseSpecs tuples).names ++
      ((paddedCompressorStateSpecs shape tuples).names ++
        mambas.flatMap KVCacheGroupSpec.layerNames)).Nodup :=
  h.names.nodup_iff.mpr h.nodup

private theorem groupPages_uniformType {d : SpecDict} (hnodup : d.names.Nodup) :
    groupPages ⟨d.names, .uniformType blockSize d, false⟩ =
      .ok (d.map fun p => (p.2.pageSizeBytes : Nat)) :=
  SpecDict.mapM_get hnodup (fun _ hp => hp)
    fun _ spec => (spec.pageSizeBytes : Nat)

private theorem groupPages_single {group : KVCacheGroupSpec} {spec : KVCacheSpec}
    (hspec : group.kvCacheSpec = .single spec) :
    groupPages group =
      .ok (group.layerNames.map fun _ => (spec.pageSizeBytes : Nat)) := by
  rw [groupPages]
  apply mapM_ok
  intro name _
  simp only [getPerLayerSpec, hspec]
  rfl

private theorem sum_compressedSparse (h : Projected w shape tuples mambas) :
    ((compressedSparseSpecs tuples).map fun p => (p.2.pageSizeBytes : Nat)).sum =
      tuples.length * (shape.mainKvPage + shape.compressedPage) := by
  have hshapes := h.shapeOf
  clear h
  unfold compressedSparseSpecs
  induction tuples with
  | nil => rw [List.length_nil, Nat.zero_mul]; rfl
  | cons cache tuples ih =>
      have hrest := ih fun c hc => hshapes c (List.mem_cons_of_mem cache hc)
      have hshape := hshapes cache List.mem_cons_self
      have hmain : cache.mainKv.2.pageSizeBytes = shape.mainKvPage :=
        congrArg CSAShape.mainKvPage hshape
      have hcomp : cache.compressed.2.pageSizeBytes = shape.compressedPage :=
        congrArg CSAShape.compressedPage hshape
      rw [List.flatMap_cons, List.map_append, List.sum_append, hrest,
        List.length_cons, Nat.succ_mul]
      simp only [List.map_cons, List.map_nil, List.sum_cons, List.sum_nil, hmain,
        hcomp]
      omega

private theorem sum_compressorState :
    ((paddedCompressorStateSpecs shape tuples).map
      fun p => (p.2.pageSizeBytes : Nat)).sum =
        tuples.length * shape.compressedPage := by
  rw [paddedCompressorStateSpecs, List.map_map]
  show (tuples.map fun _ => (shape.compressedPage : Nat)).sum = _
  rw [List.map_const', List.sum_replicate_nat]

theorem getKvCacheBytesPerBlock_rank (h : Projected w shape tuples mambas) :
    getKvCacheBytesPerBlock
        (rankGroups blockSize blockSize' shape tuples mambas) =
      .ok (rankLayout shape tuples mambas).bytesPerBlock := by
  have hnodup := h.names_nodup
  have hbytes : (rankLayout shape tuples mambas).bytesPerBlock =
      tuples.length * (shape.mainKvPage + shape.compressedPage) := by
    rw [CSALinearTensorLayout.bytesPerBlock, rankLayout, List.length_map]
  have hmambas : mambas.mapM groupPages =
      .ok (mambas.map fun group =>
        group.layerNames.map fun _ => (shape.mainKvPage : Nat)) := by
    apply mapM_ok
    intro group hgroup
    obtain ⟨spec, hspec, -, hpage⟩ := h.mamba group hgroup
    rw [groupPages_single hspec, hpage]
  have hpages : (rankGroups blockSize blockSize' shape tuples mambas).mapM
      groupPages =
        .ok (((compressedSparseSpecs tuples).map
            fun p => (p.2.pageSizeBytes : Nat)) ::
          ((paddedCompressorStateSpecs shape tuples).map
            fun p => (p.2.pageSizeBytes : Nat)) ::
          mambas.map fun group =>
            group.layerNames.map fun _ => (shape.mainKvPage : Nat)) := by
    rw [rankGroups, List.mapM_cons, compressedSparseGroup,
      groupPages_uniformType hnodup.of_append_left, List.mapM_cons,
      compressorStateGroup,
      groupPages_uniformType hnodup.of_append_right.of_append_left, hmambas]
    rfl
  have hlargest : ∀ size ∈ (((paddedCompressorStateSpecs shape tuples).map
        fun p => (p.2.pageSizeBytes : Nat)) ::
      mambas.map fun group =>
        group.layerNames.map fun _ => (shape.mainKvPage : Nat)).map List.sum,
      size ≤ tuples.length * (shape.mainKvPage + shape.compressedPage) := by
    intro size hsize
    rw [List.map_cons, sum_compressorState, List.map_map] at hsize
    rcases List.mem_cons.mp hsize with rfl | hmem
    · exact Nat.mul_le_mul_left _ (Nat.le_add_left _ _)
    · obtain ⟨group, hgroup, rfl⟩ := List.mem_map.mp hmem
      have hshare := h.share group hgroup
      show (group.layerNames.map fun _ => (shape.mainKvPage : Nat)).sum ≤ _
      rw [List.map_const', List.sum_replicate_nat]
      exact Nat.mul_le_mul hshare (Nat.le_add_right _ _)
  have hpos : 0 < tuples.length * (shape.mainKvPage + shape.compressedPage) :=
    Nat.mul_pos (List.length_pos_of_ne_nil h.nonempty)
      (Nat.add_pos_left shape.mainKvPage.pos _)
  rw [getKvCacheBytesPerBlock, hpages, ok_bind, List.map_cons,
    sum_compressedSparse h, maxOf_of_first hlargest, ok_bind, require_ok hpos,
    hbytes]
  rfl

/-! ## The specs of a rank -/

/-- The layers of a mamba group with their spec. -/
def mambaItems (group : KVCacheGroupSpec) : SpecDict :=
  match group.kvCacheSpec with
  | .single spec => group.layerNames.map fun name => (name, spec)
  | .uniformType _ specs => specs

/-- `specs_by_layer` of a rank. -/
def rankSpecs (shape : CSAShape) (tuples : List CSALinearCacheTuple)
    (mambas : List KVCacheGroupSpec) : SpecDict :=
  compressedSparseSpecs tuples ++
    (paddedCompressorStateSpecs shape tuples ++ mambas.flatMap mambaItems)

private theorem rankSpecs_names (h : Projected w shape tuples mambas) :
    (rankSpecs shape tuples mambas).names.Perm w.names ∧
      (rankSpecs shape tuples mambas).names.Nodup := by
  have hmambas : SpecDict.names (mambas.flatMap mambaItems) =
      mambas.flatMap KVCacheGroupSpec.layerNames := by
    rw [SpecDict.names, List.map_flatMap]
    refine List.flatMap_congr fun group hgroup => ?_
    obtain ⟨spec, hspec, -⟩ := h.mamba group hgroup
    rw [mambaItems, hspec]
    dsimp only
    rw [List.map_map]
    exact List.map_id _
  have hnames : (rankSpecs shape tuples mambas).names =
      (compressedSparseSpecs tuples).names ++
        ((paddedCompressorStateSpecs shape tuples).names ++
          mambas.flatMap KVCacheGroupSpec.layerNames) := by
    rw [← hmambas]
    simp only [rankSpecs, SpecDict.names, List.map_append]
  rw [hnames]
  exact ⟨h.names, h.names_nodup⟩

private theorem specsByLayer_rank (h : Projected w shape tuples mambas) :
    specsByLayer (rankGroups blockSize blockSize' shape tuples mambas) =
      .ok (rankSpecs shape tuples mambas) := by
  have hnodup := h.names_nodup
  have huniform : ∀ (d : SpecDict) (bs : Nat), d.names.Nodup →
      (d.names.mapM fun layerName => do
        let spec ← getPerLayerSpec ⟨d.names, .uniformType bs d, false⟩ layerName
        return (layerName, spec)) = .ok d := by
    intro d bs hd
    have hitems := SpecDict.mapM_get hd (fun _ hp => hp) Prod.mk
    rwa [List.map_id''] at hitems
    exact fun _ => rfl
  have hmambas : (mambas.mapM fun group =>
      group.layerNames.mapM fun layerName => do
        let spec ← getPerLayerSpec group layerName
        return (layerName, spec)) = .ok (mambas.map mambaItems) := by
    apply mapM_ok
    intro group hgroup
    obtain ⟨spec, hspec, -⟩ := h.mamba group hgroup
    rw [mambaItems, hspec]
    apply mapM_ok
    intro name _
    rw [getPerLayerSpec, hspec]
    rfl
  have hdicts : ((rankGroups blockSize blockSize' shape tuples mambas).mapM
      fun group => group.layerNames.mapM fun layerName => do
        let spec ← getPerLayerSpec group layerName
        return (layerName, spec)) =
      .ok (compressedSparseSpecs tuples :: paddedCompressorStateSpecs shape tuples ::
        mambas.map mambaItems) := by
    rw [rankGroups, List.mapM_cons, compressedSparseGroup,
      huniform _ _ hnodup.of_append_left, List.mapM_cons, compressorStateGroup,
      huniform _ _ hnodup.of_append_right.of_append_left, hmambas]
    rfl
  rw [specsByLayer, hdicts, rankSpecs, List.flatMap_def]
  rfl

/-! ## The tensors of a rank -/

private theorem placeFrom_names (start page : Nat) (names : List String) :
    (placeFrom start page names).map Prod.fst = names := by
  rw [placeFrom, List.map_map]
  exact List.zipIdx_map_fst 0 names

/-- Every owned cache owner is placed once. -/
theorem Projected.placements_names (h : Projected w shape tuples mambas) :
    ((rankLayout shape tuples mambas).placements.map Prod.fst).Perm w.names := by
  have hempty : (mambas.filter fun group =>
      decide (group.layerNames ≠ [])).flatMap KVCacheGroupSpec.layerNames =
        mambas.flatMap KVCacheGroupSpec.layerNames := by
    clear h
    induction mambas with
    | nil => rfl
    | cons group mambas ih =>
        rw [List.filter_cons, List.flatMap_cons]
        by_cases hnil : group.layerNames = []
        · rw [if_neg (by simp [hnil]), ih, hnil, List.nil_append]
        · rw [if_pos (by simp [hnil]), List.flatMap_cons, ih]
  have hsparse := (compressedSparseSpecs_perm tuples).map Prod.fst
  rw [List.map_append, List.map_map, List.map_map] at hsparse
  have hstate : (paddedCompressorStateSpecs shape tuples).names =
      tuples.map fun cache => cache.compressorState.1 := by
    rw [SpecDict.names, paddedCompressorStateSpecs, List.map_map]
    rfl
  have hnames := h.names
  rw [hstate] at hnames
  refine List.Perm.trans ?_ hnames
  simp only [CSALinearTensorLayout.placements, rankLayout, List.map_append,
    List.map_flatMap, placeFrom_names, hempty]
  rw [List.append_assoc]
  exact hsparse.symm.append (List.Perm.refl _)

/-- The tensor of one cache owner, in a layout that keeps blocks outermost. -/
def rankTensor (specs : SpecDict) (bytesPerBlock numBlocks : Nat)
    (p : String × Nat) : KVCacheTensor where
  size := bytesPerBlock * numBlocks
  layers := [p.1]
  layerStride :=
    match specs.lookup p.1 with
    | some spec => spec.pageSizeBytes
    | none => 0
  blockStride := bytesPerBlock
  offset := p.2

private theorem makeTensor_rank {layout : KVCacheLayout}
    (hstrides : BlockOutermostStrides env layout) {specs : SpecDict}
    {bytesPerBlock numBlocks : Nat} {p : String × Nat}
    (hp : p.1 ∈ specs.names) :
    makeTensor env specs numBlocks (bytesPerBlock * numBlocks) layout
        (some bytesPerBlock) p.1 p.2 =
      .ok (rankTensor specs bytesPerBlock numBlocks p) := by
  obtain ⟨spec, hlookup⟩ : ∃ spec, specs.lookup p.1 = some spec := by
    cases hlookup : specs.lookup p.1 with
    | some spec => exact ⟨spec, rfl⟩
    | none =>
        obtain ⟨q, hq, hqp⟩ := List.mem_map.mp hp
        have hne := List.lookup_eq_none_iff.mp hlookup q hq
        rw [hqp] at hne
        simp at hne
  have hpage : 0 < (spec.pageSizeBytes : Nat) := spec.pageSizeBytes.pos
  have hoffset : p.2 * max (spec.pageSizeBytes : Nat) spec.pageSizeBytes /
      spec.pageSizeBytes = p.2 := by
    rw [Nat.max_self, Nat.mul_div_cancel _ hpage]
  have hstride := hstrides spec numBlocks 1 bytesPerBlock
  simp only [makeTensor, SpecDict.get, hlookup, ok_bind, hstride, hoffset,
    rankTensor]
  rfl

/-- Planning a rank does not fail. -/
theorem getKvCacheConfigCsaLinear_rank (h : Projected w shape tuples mambas)
    {layout : KVCacheLayout} (hstrides : BlockOutermostStrides env layout)
    (hcompact : layout.isBlockCompact = true)
    (houtermost : layout.isBlockOutermost = true) (availableMemory : Int) :
    ∃ numBlocks, getKvCacheConfigCsaLinear env cfg
        (rankGroups blockSize blockSize' shape tuples mambas) availableMemory
        layout =
      .ok (some (numBlocks, (rankLayout shape tuples mambas).placements.map
        (rankTensor (rankSpecs shape tuples mambas)
          (rankLayout shape tuples mambas).bytesPerBlock numBlocks))) := by
  have hmem : ∀ p ∈ (rankLayout shape tuples mambas).placements,
      p.1 ∈ (rankSpecs shape tuples mambas).names := by
    intro p hp
    rw [(rankSpecs_names h).1.mem_iff, ← h.placements_names.mem_iff]
    exact List.mem_map_of_mem hp
  have htensors : ∀ numBlocks, ((rankLayout shape tuples mambas).placements.mapM
      fun p => makeTensor env (rankSpecs shape tuples mambas) numBlocks
        ((rankLayout shape tuples mambas).bytesPerBlock * numBlocks) layout
        (some (rankLayout shape tuples mambas).bytesPerBlock) p.1 p.2) =
      .ok ((rankLayout shape tuples mambas).placements.map
        (rankTensor (rankSpecs shape tuples mambas)
          (rankLayout shape tuples mambas).bytesPerBlock numBlocks)) :=
    fun numBlocks => mapM_ok fun p hp => makeTensor_rank hstrides (hmem p hp)
  refine ⟨mayOverrideNumBlocks cfg (blocksIn availableMemory
    (rankLayout shape tuples mambas).bytesPerBlock), ?_⟩
  rw [getKvCacheConfigCsaLinear, getCsaLinearTensorLayout_rank h, ok_bind]
  dsimp only
  rw [require_ok hcompact, ok_bind, getKvCacheBytesPerBlock_rank h, ok_bind,
    require_ok rfl, ok_bind, specsByLayer_rank h, ok_bind, if_pos houtermost,
    htensors]
  rfl

end FlashNext.Ports.KvCache
