import FlashNext.Ports.CsaLinearPlan

/-!
# KV-cache planning for CSA-linear models: no two caches meet

Every cache owner of a rank has a slot: a region of the block and an index.
Owners of one group have different slots, and slots are apart.
-/

namespace FlashNext.Ports.KvCache

open FlashNext.Verified.Checked
open FlashNext.Verified.PackedPages

variable {env : Env} {cfg : VllmConfig} {w : SpecDict} {shape : CSAShape}
  {tuples : List CSALinearCacheTuple} {mambas : List KVCacheGroupSpec}
  {blockSize blockSize' : Nat}

/-! ## Slots -/

/-- The two regions of a block. -/
inductive Region where
  | mainKv
  | compressed
  deriving DecidableEq

def Region.page (shape : CSAShape) : Region → Nat
  | .mainKv => shape.mainKvPage
  | .compressed => shape.compressedPage

/-- Where slot `k` of a region starts in a block of `n` slots each. -/
def Region.offset (shape : CSAShape) (n k : Nat) : Region → Nat
  | .mainKv => k * shape.mainKvPage
  | .compressed => n * shape.mainKvPage + k * shape.compressedPage

/-- The owner of the `i`-th group in a slot. -/
def slotOwner (tuples : List CSALinearCacheTuple)
    (mambas : List KVCacheGroupSpec) : Nat → Region → Nat → Option String
  | 0, .mainKv, k => tuples[k]?.map fun cache => cache.mainKv.1
  | 0, .compressed, k => tuples[k]?.map fun cache => cache.compressed.1
  | 1, .compressed, k => tuples[k]?.map fun cache => cache.compressorState.1
  | i + 2, .mainKv, k => mambas[i]?.bind fun group => group.layerNames[k]?
  | _, _, _ => none

/-- The slot of an owner. -/
structure SlotOf (shape : CSAShape) (tuples : List CSALinearCacheTuple)
    (mambas : List KVCacheGroupSpec) (i : Nat) (name : String) (spec : KVCacheSpec)
    (region : Region) (k : Nat) : Prop where
  index : k < tuples.length
  owner : slotOwner tuples mambas i region k = some name
  page : (spec.pageSizeBytes : Nat) = region.page shape
  placed : (name, region.offset shape tuples.length k) ∈
    (rankLayout shape tuples mambas).placements
  mamba : spec.type = .mamba → region = .mainKv
  csa : spec.type = .mlaAttention ∨ spec.type = .circularBuffer →
    region = .compressed

theorem rankLayout_bytesPerBlock (shape : CSAShape)
    (tuples : List CSALinearCacheTuple) (mambas : List KVCacheGroupSpec) :
    (rankLayout shape tuples mambas).bytesPerBlock =
      tuples.length * (shape.mainKvPage + shape.compressedPage) := by
  show (tuples.map fun cache => cache.mainKv.1).length * _ = _
  rw [List.length_map]
  rfl

section Slots

variable {k k' : Nat} {region region' : Region}

theorem Region.fits (hk : k < tuples.length) :
    region.offset shape tuples.length k + region.page shape ≤
      tuples.length * (shape.mainKvPage + shape.compressedPage) := by
  have hmain : (k + 1) * (shape.mainKvPage : Nat) ≤
      tuples.length * shape.mainKvPage := Nat.mul_le_mul_right _ hk
  have hcomp : (k + 1) * (shape.compressedPage : Nat) ≤
      tuples.length * shape.compressedPage := Nat.mul_le_mul_right _ hk
  rw [Nat.succ_mul] at hmain hcomp
  rw [Nat.mul_add]
  cases region with
  | mainKv =>
      show k * (shape.mainKvPage : Nat) + shape.mainKvPage ≤ _
      omega
  | compressed =>
      show tuples.length * (shape.mainKvPage : Nat) + k * shape.compressedPage +
        shape.compressedPage ≤ _
      omega

/-- The regions are apart. -/
theorem Region.apart_of_ne (hk : k < tuples.length) (hk' : k' < tuples.length)
    (hne : region ≠ region') :
    Apart (region.offset shape tuples.length k) (region.page shape)
      (region'.offset shape tuples.length k') (region'.page shape) := by
  have hmain : ∀ j, j < tuples.length → j * (shape.mainKvPage : Nat) +
      shape.mainKvPage ≤ tuples.length * shape.mainKvPage := by
    intro j hj
    calc
      j * (shape.mainKvPage : Nat) + shape.mainKvPage =
          (j + 1) * shape.mainKvPage := (Nat.succ_mul _ _).symm
      _ ≤ tuples.length * shape.mainKvPage := Nat.mul_le_mul_right _ hj
  unfold Apart
  cases region with
  | mainKv =>
      cases region' with
      | mainKv => exact absurd rfl hne
      | compressed =>
          left
          exact (hmain k hk).trans (Nat.le_add_right _ _)
  | compressed =>
      cases region' with
      | compressed => exact absurd rfl hne
      | mainKv =>
          right
          exact (hmain k' hk').trans (Nat.le_add_right _ _)

theorem Region.apart (hk : k < tuples.length) (hk' : k' < tuples.length)
    (hne : region ≠ region' ∨ k ≠ k') :
    Apart (region.offset shape tuples.length k) (region.page shape)
      (region'.offset shape tuples.length k') (region'.page shape) := by
  by_cases hregion : region = region'
  · subst hregion
    have hkk : k ≠ k' := hne.resolve_left fun h => h rfl
    cases region with
    | mainKv => exact apart_of_same_page hkk
    | compressed =>
        have hsame : Apart (k * (shape.compressedPage : Nat)) shape.compressedPage
            (k' * shape.compressedPage) shape.compressedPage :=
          apart_of_same_page hkk
        unfold Apart at hsame ⊢
        show tuples.length * (shape.mainKvPage : Nat) + k * shape.compressedPage +
              shape.compressedPage ≤
            tuples.length * shape.mainKvPage + k' * shape.compressedPage ∨
          tuples.length * (shape.mainKvPage : Nat) + k' * shape.compressedPage +
              shape.compressedPage ≤
            tuples.length * shape.mainKvPage + k * shape.compressedPage
        omega
  · exact Region.apart_of_ne hk hk' hregion

end Slots

/-! ## The slot of every owner -/

private theorem mem_placeFrom {names : List String} {name : String} {k : Nat}
    (h : names[k]? = some name) (start page : Nat) :
    (name, start + k * page) ∈ placeFrom start page names := by
  apply List.mem_map.mpr
  exact ⟨(name, k), List.mem_zipIdx_iff_getElem?.mpr h, rfl⟩

private theorem mem_compressed {names : List String} {name : String} {k : Nat}
    (h : names[k]? = some name) :
    (name, Region.offset shape tuples.length k .compressed) ∈
      placeFrom ((rankLayout shape tuples mambas).mainKvNames.length *
          (rankLayout shape tuples mambas).mainKvPageSize)
        (rankLayout shape tuples mambas).compressedPageSize names := by
  have hlen : (rankLayout shape tuples mambas).mainKvNames.length = tuples.length :=
    List.length_map _
  rw [hlen]
  exact mem_placeFrom h _ _

private theorem mem_mainKv {names : List String} {name : String} {k : Nat}
    (h : names[k]? = some name) :
    (name, Region.offset shape tuples.length k .mainKv) ∈
      placeFrom 0 (rankLayout shape tuples mambas).mainKvPageSize names := by
  have hplace := mem_placeFrom h 0 (rankLayout shape tuples mambas).mainKvPageSize
  rwa [Nat.zero_add] at hplace

private theorem slot_mainKv (h : Projected w shape tuples mambas)
    {cache : CSALinearCacheTuple} {k : Nat} (hk : tuples[k]? = some cache) :
    SlotOf shape tuples mambas 0 cache.mainKv.1 cache.mainKv.2 .mainKv k := by
  obtain ⟨hlt, -⟩ := List.getElem?_eq_some_iff.mp hk
  have hcache : cache ∈ tuples := List.mem_of_getElem? hk
  have htype := h.mainKvType cache hcache
  have hpage : cache.mainKv.2.pageSizeBytes = shape.mainKvPage :=
    congrArg CSAShape.mainKvPage (h.shapeOf cache hcache)
  refine
    { index := hlt, owner := ?_, page := congrArg PNat.val hpage, placed := ?_
      mamba := fun _ => rfl, csa := ?_ }
  · rw [slotOwner, hk]
    rfl
  · apply List.mem_append_left
    apply List.mem_append_left
    apply List.mem_append_left
    apply mem_mainKv
    show (tuples.map fun cache => cache.mainKv.1)[k]? = _
    rw [List.getElem?_map, hk]
    rfl
  · intro hcsa
    rw [htype] at hcsa
    rcases hcsa with hbad | hbad
    · cases hbad
    · cases hbad

private theorem slot_compressed (h : Projected w shape tuples mambas)
    {cache : CSALinearCacheTuple} {k : Nat} (hk : tuples[k]? = some cache) :
    SlotOf shape tuples mambas 0 cache.compressed.1 cache.compressed.2
      .compressed k := by
  obtain ⟨hlt, -⟩ := List.getElem?_eq_some_iff.mp hk
  have hcache : cache ∈ tuples := List.mem_of_getElem? hk
  have htype := h.compressedType cache hcache
  have hpage : cache.compressed.2.pageSizeBytes = shape.compressedPage :=
    congrArg CSAShape.compressedPage (h.shapeOf cache hcache)
  refine
    { index := hlt, owner := ?_, page := congrArg PNat.val hpage, placed := ?_
      mamba := ?_, csa := fun _ => rfl }
  · rw [slotOwner, hk]
    rfl
  · apply List.mem_append_left
    apply List.mem_append_left
    apply List.mem_append_right
    apply mem_compressed
    show (tuples.map fun cache => cache.compressed.1)[k]? = _
    rw [List.getElem?_map, hk]
    rfl
  · intro hmamba
    rw [htype] at hmamba
    cases hmamba

private theorem slot_compressorState (h : Projected w shape tuples mambas)
    {cache : CSALinearCacheTuple} {k : Nat} (hk : tuples[k]? = some cache) :
    SlotOf shape tuples mambas 1 cache.compressorState.1
      { cache.compressorState.2 with pageSizePadded := some shape.compressedPage }
      .compressed k := by
  obtain ⟨hlt, -⟩ := List.getElem?_eq_some_iff.mp hk
  have htype := h.stateType cache (List.mem_of_getElem? hk)
  refine
    { index := hlt, owner := ?_, page := rfl, placed := ?_, mamba := ?_
      csa := fun _ => rfl }
  · rw [slotOwner, hk]
    rfl
  · apply List.mem_append_left
    apply List.mem_append_right
    apply mem_compressed
    show (tuples.map fun cache => cache.compressorState.1)[k]? = _
    rw [List.getElem?_map, hk]
    rfl
  · intro hmamba
    have hsame : cache.compressorState.2.type = .mamba := hmamba
    rw [htype] at hsame
    cases hsame

private theorem slot_mamba (h : Projected w shape tuples mambas) {i k : Nat}
    {group : KVCacheGroupSpec} (hgroup : mambas[i]? = some group) {name : String}
    (hk : group.layerNames[k]? = some name) {spec : KVCacheSpec}
    (hspec : getPerLayerSpec group name = .ok spec) :
    SlotOf shape tuples mambas (i + 2) name spec .mainKv k := by
  have hmem : group ∈ mambas := List.mem_of_getElem? hgroup
  obtain ⟨hlt, -⟩ := List.getElem?_eq_some_iff.mp hk
  obtain ⟨single, hsingle, htype, hpage⟩ := h.mamba group hmem
  have heq : single = spec := by
    rw [getPerLayerSpec, hsingle] at hspec
    exact Except.ok.inj hspec
  subst heq
  have hne : group.layerNames ≠ [] := List.ne_nil_of_mem (List.mem_of_getElem? hk)
  refine
    { index := hlt.trans_le (h.share group hmem), owner := ?_
      page := congrArg PNat.val hpage, placed := ?_, mamba := fun _ => rfl
      csa := ?_ }
  · rw [slotOwner, hgroup]
    exact hk
  · apply List.mem_append_right
    apply List.mem_flatMap.mpr
    exact ⟨group, List.mem_filter.mpr ⟨hmem, decide_eq_true hne⟩, mem_mainKv hk⟩
  · intro hcsa
    rw [htype] at hcsa
    rcases hcsa with hbad | hbad
    · cases hbad
    · cases hbad

private theorem mem_of_getPerLayerSpec {d : SpecDict} (hnodup : d.names.Nodup)
    {name : String} {spec : KVCacheSpec} (hname : name ∈ d.names)
    (hspec : getPerLayerSpec ⟨d.names, .uniformType blockSize d, false⟩ name =
      .ok spec) : (name, spec) ∈ d := by
  obtain ⟨p, hp, rfl⟩ := List.mem_map.mp hname
  have hget : d.get p.1 = .ok p.2 := SpecDict.get_of_mem hnodup hp
  have hsame : Except.ok spec = Except.ok p.2 := hspec.symm.trans hget
  cases hsame
  exact hp

/-- Every cache owner of a rank has a slot. -/
theorem exists_slot (h : Projected w shape tuples mambas) {i : Nat}
    {group : KVCacheGroupSpec}
    (hgroup : (rankGroups blockSize blockSize' shape tuples mambas)[i]? = some group)
    {name : String} (hname : name ∈ group.layerNames) {spec : KVCacheSpec}
    (hspec : getPerLayerSpec group name = .ok spec) :
    ∃ region k, SlotOf shape tuples mambas i name spec region k := by
  have hnodup := h.names_nodup
  match i with
  | 0 =>
      cases hgroup
      have hmem := mem_of_getPerLayerSpec hnodup.of_append_left hname hspec
      obtain ⟨cache, hcache, hitem⟩ := List.mem_flatMap.mp hmem
      obtain ⟨k, hk⟩ := List.getElem?_of_mem hcache
      rcases List.mem_cons.mp hitem with hmain | hrest
      · have hslot := slot_mainKv h hk
        rw [← hmain] at hslot
        exact ⟨.mainKv, k, hslot⟩
      · have hslot := slot_compressed h hk
        rw [← List.mem_singleton.mp hrest] at hslot
        exact ⟨.compressed, k, hslot⟩
  | 1 =>
      cases hgroup
      have hmem :=
        mem_of_getPerLayerSpec hnodup.of_append_right.of_append_left hname hspec
      obtain ⟨cache, hcache, heq⟩ := List.mem_map.mp hmem
      obtain ⟨k, hk⟩ := List.getElem?_of_mem hcache
      cases heq
      exact ⟨.compressed, k, slot_compressorState h hk⟩
  | i + 2 =>
      obtain ⟨k, hk⟩ := List.getElem?_of_mem hname
      exact ⟨.mainKv, k, slot_mamba h hgroup hk hspec⟩

/-! ## Pages are slots -/

/-- The pages of an owner with slot `k` of a region. -/
def slotStart (shape : CSAShape) (n : Nat) (region : Region) (k b : Nat) : Nat :=
  blockMajor (n * (shape.mainKvPage + shape.compressedPage))
    (region.offset shape n k) b

/-- The tensors of a rank. -/
def rankTensors (shape : CSAShape) (tuples : List CSALinearCacheTuple)
    (mambas : List KVCacheGroupSpec) (numBlocks : Nat) : List KVCacheTensor :=
  (rankLayout shape tuples mambas).placements.map
    (rankTensor (rankSpecs shape tuples mambas)
      (rankLayout shape tuples mambas).bytesPerBlock numBlocks)

private theorem rankTensors_layers (numBlocks : Nat) :
    (rankTensors shape tuples mambas numBlocks).flatMap KVCacheTensor.layers =
      (rankLayout shape tuples mambas).placements.map Prod.fst := by
  rw [rankTensors, List.flatMap_map]
  show (rankLayout shape tuples mambas).placements.flatMap (fun p => [p.1]) = _
  exact List.map_eq_flatMap.symm

private theorem holds_slot (h : Projected w shape tuples mambas)
    {numBlocks i size : Nat} {name : String} {spec : KVCacheSpec}
    {start : Nat → Nat}
    (hholds : Holds (rankGroups blockSize blockSize' shape tuples mambas)
      (rankTensors shape tuples mambas numBlocks) i name spec start size) :
    ∃ region k, SlotOf shape tuples mambas i name spec region k ∧
      start = slotStart shape tuples.length region k ∧
      size = tuples.length * (shape.mainKvPage + shape.compressedPage) * numBlocks := by
  obtain ⟨group, hgroup, hname, hspec⟩ := hholds.group
  obtain ⟨region, k, hslot⟩ := exists_slot h hgroup hname hspec
  obtain ⟨t, ht, j, hj, rfl, rfl⟩ := hholds.tensor
  obtain ⟨p, hp, rfl⟩ := List.mem_map.mp ht
  obtain ⟨hlt, hnameEq⟩ := List.getElem?_eq_some_iff.mp hj
  have hzero : j = 0 := Nat.lt_one_iff.mp hlt
  subst hzero
  have hfirst : p.1 = name := hnameEq
  have hoffset : p.2 = region.offset shape tuples.length k := by
    have hpair : (name, p.2) ∈ (rankLayout shape tuples mambas).placements := by
      rw [← hfirst]
      exact hp
    apply eq_of_nodup_fst ?_ hpair hslot.placed
    exact h.placements_names.nodup_iff.mpr h.nodup
  refine ⟨region, k, hslot, ?_, ?_⟩
  · funext b
    rw [slotStart, ← rankLayout_bytesPerBlock shape tuples mambas, ← hoffset]
    show p.2 + 0 * _ + _ = _
    rw [Nat.zero_mul, Nat.add_zero]
    rfl
  · rw [← rankLayout_bytesPerBlock shape tuples mambas]
    rfl

private theorem slotStart_apart {k k' b b' : Nat} {region region' : Region}
    (hk : k < tuples.length) (hk' : k' < tuples.length)
    (hne : b ≠ b' ∨ region ≠ region' ∨ k ≠ k') :
    ¬ Overlap (slotStart shape tuples.length region k b) (region.page shape)
      (slotStart shape tuples.length region' k' b') (region'.page shape) := by
  apply blockMajor_apart (Region.fits hk) (Region.fits hk')
  exact hne.imp_right (Region.apart hk hk')

/-- The layout of a rank is safe. -/
theorem Projected.safe (h : Projected w shape tuples mambas) (numBlocks : Nat) :
    LayoutSafe w (rankGroups blockSize blockSize' shape tuples mambas) numBlocks
      (rankTensors shape tuples mambas numBlocks) := by
  refine { owned := ?_, inside := ?_, same_group := ?_, other_groups := ?_ }
  · rw [rankTensors_layers]
    exact ⟨h.placements_names, h.placements_names.nodup_iff.mpr h.nodup⟩
  · intro i name spec start size b hholds hb
    obtain ⟨region, k, hslot, rfl, rfl⟩ := holds_slot h hholds
    rw [hslot.page]
    exact blockMajor_inside (Region.fits hslot.index) hb
  · intro i name name' spec spec' start start' size size' b b' hholds hholds' _ _ hne
    obtain ⟨region, k, hslot, rfl, rfl⟩ := holds_slot h hholds
    obtain ⟨region', k', hslot', rfl, rfl⟩ := holds_slot h hholds'
    unfold PagesApart
    rw [hslot.page, hslot'.page]
    apply slotStart_apart hslot.index hslot'.index
    by_cases hblock : b = b'
    · right
      have hname : name ≠ name' := hne.resolve_right fun hbb => hbb hblock
      by_cases hregion : region = region'
      · right
        rintro rfl
        have howner := hslot.owner
        rw [hregion, hslot'.owner] at howner
        exact hname (Option.some.inj howner).symm
      · left
        exact hregion
    · left
      exact hblock
  · intro i i' name name' spec spec' start start' size size' b b' hholds hholds' _ _ _
      hblock
    obtain ⟨region, k, hslot, rfl, rfl⟩ := holds_slot h hholds
    obtain ⟨region', k', hslot', rfl, rfl⟩ := holds_slot h hholds'
    unfold PagesApart
    rw [hslot.page, hslot'.page]
    exact slotStart_apart hslot.index hslot'.index (Or.inl hblock)

/-! ## The compressed region -/

/-- The compressed region of every block, which begins at `compressed_offset`,
holds the compressed caches and the compressor states, and no mamba state. -/
structure CompressedRegionSafe (layout : CSALinearTensorLayout)
    (groups : List KVCacheGroupSpec) (tensors : List KVCacheTensor) : Prop where
  csa : ∀ {i name spec start size} (b : Nat),
    Holds groups tensors i name spec start size →
    spec.type = .mlaAttention ∨ spec.type = .circularBuffer →
    blockMajor layout.bytesPerBlock layout.compressedOffset b ≤ start b ∧
      start b + spec.pageSizeBytes ≤ (b + 1) * layout.bytesPerBlock
  mamba : ∀ {i name spec start size} (b b' : Nat),
    Holds groups tensors i name spec start size → spec.type = .mamba →
    ¬ Overlap (start b) spec.pageSizeBytes
      (blockMajor layout.bytesPerBlock layout.compressedOffset b')
      (layout.bytesPerBlock - layout.compressedOffset)

theorem Projected.compressedRegionSafe (h : Projected w shape tuples mambas)
    (numBlocks : Nat) :
    CompressedRegionSafe (rankLayout shape tuples mambas)
      (rankGroups blockSize blockSize' shape tuples mambas)
      (rankTensors shape tuples mambas numBlocks) := by
  have hoffset : (rankLayout shape tuples mambas).compressedOffset =
      tuples.length * shape.mainKvPage := by
    show (tuples.map fun cache => cache.mainKv.1).length * _ = _
    rw [List.length_map]
    rfl
  have hle : tuples.length * (shape.mainKvPage : Nat) ≤
      tuples.length * (shape.mainKvPage + shape.compressedPage) :=
    Nat.mul_le_mul_left _ (Nat.le_add_right _ _)
  refine { csa := ?_, mamba := ?_ }
  · intro i name spec start size b hholds htype
    obtain ⟨region, k, hslot, rfl, rfl⟩ := holds_slot h hholds
    have hregion : region = .compressed := hslot.csa htype
    subst hregion
    have hfits : Region.offset shape tuples.length k .compressed +
        Region.page shape .compressed ≤ _ := Region.fits hslot.index
    have hstart : tuples.length * (shape.mainKvPage : Nat) ≤
        Region.offset shape tuples.length k .compressed := Nat.le_add_right _ _
    rw [hslot.page, rankLayout_bytesPerBlock, hoffset, slotStart, Nat.succ_mul]
    unfold blockMajor
    constructor
    · omega
    · omega
  · intro i name spec start size b b' hholds htype
    obtain ⟨region, k, hslot, rfl, rfl⟩ := holds_slot h hholds
    have hregion : region = .mainKv := hslot.mamba htype
    subst hregion
    rw [hslot.page, rankLayout_bytesPerBlock, hoffset]
    apply blockMajor_apart (Region.fits hslot.index)
    · omega
    · right
      left
      have hmul : (k + 1) * (shape.mainKvPage : Nat) ≤
          tuples.length * shape.mainKvPage := Nat.mul_le_mul_right _ hslot.index
      rw [Nat.succ_mul] at hmul
      exact hmul

/-! ## Every rank of a pipeline -/

/-- The groups of an accepted model are laid out safely on every rank that owns
a CSA layer, in a block-compact and block-outermost layout. -/
theorem csa_linear_plan_safe {workers : List SpecDict} {merged : SpecDict}
    {groups : List KVCacheGroupSpec} {layout : KVCacheLayout}
    (hpipeline : Pipeline env cfg workers)
    (hmerged : mergeKvCacheSpecs workers = .ok merged)
    (haccepted : getKvCacheGroupsCsaLinear env cfg merged = .ok (some groups))
    (hcsa : ∀ w ∈ workers, ∃ p ∈ w, isMainKv p.2 = true)
    (hcompact : layout.isBlockCompact = true)
    (houtermost : layout.isBlockOutermost = true)
    (hstrides : BlockOutermostStrides env layout) :
    ∀ w ∈ workers, ∀ availableMemory, ∃ projected csaLayout numBlocks tensors,
      projectKvCacheGroupsToWorker groups w = .ok projected ∧
      getCsaLinearTensorLayout projected = .ok (some csaLayout) ∧
      getKvCacheConfigCsaLinear env cfg projected availableMemory layout =
        .ok (some (numBlocks, tensors)) ∧
      LayoutSafe w projected numBlocks tensors ∧
      CompressedRegionSafe csaLayout projected tensors := by
  intro w hw availableMemory
  obtain ⟨own, pre, post, hflatten, hstage, hrank⟩ := hpipeline.rankOf hw
  have hnodup := hrank.nodup
  rw [← hflatten] at hnodup
  have hall : merged = pre ++ w ++ post := by
    rw [mergeKvCacheSpecs_of_nodup hnodup] at hmerged
    rw [← hflatten]
    exact (Except.ok.inj hmerged).symm
  subst hall
  obtain ⟨roles, tuples, shape, k, k', sharded, replicated, blockSize, blockSize',
    hacc, rfl⟩ := getKvCacheGroupsCsaLinear_accepted haccepted
  have hprojected := hacc.projected hstage hrank (hcsa w hw)
  obtain ⟨numBlocks, hconfig⟩ := getKvCacheConfigCsaLinear_rank hprojected hstrides
    hcompact houtermost availableMemory
  exact ⟨_, _, numBlocks, _,
    hacc.project_eq hstage hrank hprojected.nonempty blockSize blockSize',
    getCsaLinearTensorLayout_rank hprojected, hconfig, hprojected.safe numBlocks,
    hprojected.compressedRegionSafe numBlocks⟩

/-! A model of two CSA layers and two mamba layers, cut after the second layer. -/

def twoStagesEnv : Env where
  extractLayerIndex := fun name =>
    [("0.kv", 0), ("0.comp", 0), ("0.state", 0), ("1.mamba", 1), ("2.kv", 2),
      ("2.comp", 2), ("2.state", 2), ("3.mamba", 3)].lookup name
  getPpIndices := fun total rank size =>
    (rank * (total / size), (rank + 1) * (total / size))
  isUniformType := fun _ => true
  computeLayoutStrides := fun spec _ _ _ fixedStride =>
    (spec.pageSizeBytes, fixedStride.getD spec.pageSizeBytes)
  maxMemoryUsagePages := fun specs _ => .ok specs.length
  maxMemoryUsageBytes := fun spec _ => .ok spec.pageSizeBytes

def twoStagesConfig : VllmConfig where
  pipelineParallelSize := 2
  totalNumHiddenLayers := 4
  numKvHeads := 1
  enablePrefixCaching := false
  prefixMatchUnit := none
  numGpuBlocksOverride := none
  kvCacheLayout :=
    { isBlockCompact := true, isBlockOutermost := true, isLayerCompact := false }
  maxModelLen := 16
  originalMaxModelLen := 16

def twoStagesSpec (type : SpecType) (tokensPerState : Nat) (page : ℕ+) :
    KVCacheSpec where
  type := type
  blockSize := 16
  numKvHeads := 1
  tokensPerState := tokensPerState
  tpReplicated := false
  unpaddedPageSizeBytes := page
  pageSizePadded := none
  attrs := 0

def twoStages : List SpecDict :=
  [[("0.kv", twoStagesSpec .fullAttention 1 64),
    ("0.comp", twoStagesSpec .mlaAttention 4 16),
    ("0.state", twoStagesSpec .circularBuffer 1 8),
    ("1.mamba", twoStagesSpec .mamba 1 48)],
   [("2.kv", twoStagesSpec .fullAttention 1 64),
    ("2.comp", twoStagesSpec .mlaAttention 4 16),
    ("2.state", twoStagesSpec .circularBuffer 1 8),
    ("3.mamba", twoStagesSpec .mamba 1 48)]]

theorem twoStages_pipeline : Pipeline twoStagesEnv twoStagesConfig twoStages where
  dicts := by decide
  single := by decide
  ordered := by decide
  consecutive := by decide
  owned := fun _ => .cons (by decide) (.cons (by decide) .nil)

theorem csa_linear_plan_safe_twoStages :
    ∃ groups, getKvCacheGroupsCsaLinear twoStagesEnv twoStagesConfig
        twoStages.flatten = .ok (some groups) ∧
      ∀ w ∈ twoStages, ∃ projected csaLayout numBlocks tensors,
        projectKvCacheGroupsToWorker groups w = .ok projected ∧
        getCsaLinearTensorLayout projected = .ok (some csaLayout) ∧
        getKvCacheConfigCsaLinear twoStagesEnv twoStagesConfig projected 1000
          twoStagesConfig.kvCacheLayout = .ok (some (numBlocks, tensors)) ∧
        LayoutSafe w projected numBlocks tensors ∧
        CompressedRegionSafe csaLayout projected tensors := by
  obtain ⟨groups, hgroups⟩ : ∃ groups, getKvCacheGroupsCsaLinear twoStagesEnv
      twoStagesConfig twoStages.flatten = .ok (some groups) := ⟨_, rfl⟩
  refine ⟨groups, hgroups, fun w hw => ?_⟩
  have hmerged : mergeKvCacheSpecs twoStages = .ok twoStages.flatten := by rfl
  exact csa_linear_plan_safe twoStages_pipeline hmerged hgroups (by decide) rfl rfl
    (fun _ _ _ _ => rfl) w hw 1000

end FlashNext.Ports.KvCache
