import FlashNext.Ports.KvGroupsTuples

/-!
# KV-cache groups: CSA-linear models

The checks of this path make sure that a compressor state fits in a
`compressed` page and a mamba state in a `main_kv` page, and no rank asks for
more mamba groups than there are mamba layers.
-/

namespace FlashNext.Ports.KvCache

open FlashNext.Verified.Checked
open FlashNext.Verified.RoundRobin

variable {env : GroupingEnv} {cfg : VllmConfig} {d : SpecDict}

/-! ## The number of mamba groups -/

theorem mambaGroupCountFrom_le {ranges : List (Nat × Nat)} {mambaIndices mainKvIndices : List Nat}
    {start k : Nat} (h : mambaGroupCountFrom ranges mambaIndices mainKvIndices start = some k) :
    start ≤ k ∧ k ≤ max start mambaIndices.length := by
  unfold mambaGroupCountFrom at h
  induction ranges generalizing start with
  | nil =>
      cases h
      exact ⟨Nat.le_refl _, Nat.le_max_left _ _⟩
  | cons range ranges ih =>
      rw [List.foldlM_cons] at h
      obtain ⟨next, hnext, hrest⟩ := Option.bind_eq_some_iff.mp h
      obtain ⟨hle, hbound⟩ := ih hrest
      dsimp only at hnext
      split at hnext
      · cases hnext
        exact ⟨hle, hbound⟩
      · split at hnext
        · cases hnext
        · next hmain =>
            have hcount := List.countP_le_length (l := mambaIndices)
              (p := fun i => decide (range.1 ≤ i ∧ i < range.2))
            have hcdiv := cdiv_le_self
              (a := mambaIndices.countP fun i => decide (range.1 ≤ i ∧ i < range.2))
              (Nat.pos_of_ne_zero hmain)
            cases hnext
            omega

/-- Every mamba group gets a layer. -/
theorem getCsaLinearMambaGroupCount_bounds {mambaNames mainKvNames : List String} {k : Nat}
    (hmamba : mambaNames ≠ []) (hmain : mainKvNames ≠ [])
    (h : getCsaLinearMambaGroupCount env.toEnv cfg mambaNames mainKvNames = .ok (some k)) :
    0 < k ∧ k ≤ mambaNames.length := by
  have hmambaPos := List.length_pos_of_ne_nil hmamba
  have hmainPos := List.length_pos_of_ne_nil hmain
  have hpos := cdiv_pos hmambaPos hmainPos
  have hle := cdiv_le_self (a := mambaNames.length) hmainPos
  unfold getCsaLinearMambaGroupCount at h
  split at h
  · cases h
    exact ⟨hpos, hle⟩
  · obtain ⟨mambaIndices, hindices, h⟩ := bind_eq_ok.mp h
    obtain ⟨mainKvIndices, -, h⟩ := bind_eq_ok.mp h
    obtain ⟨hstart, hbound⟩ := mambaGroupCountFrom_le (Except.ok.inj h)
    have hlen := (forall₂_of_mapM hindices).length_eq
    omega

/-! ## Mamba groups -/

theorem Grouping.nil {R : String × KVCacheSpec → KVCacheSpec → Prop} : Grouping R [] [] where
  partition := List.Perm.refl _
  nonempty _ hgroup := (List.not_mem_nil hgroup).elim
  final _ hgroup := (List.not_mem_nil hgroup).elim

theorem mambaGroups_grouping (h : d.WellFormed env) {roles : CSALinearRoles}
    (hroles : roles.Of d) {mainKvNames : List String} (hmain : mainKvNames ≠ []) {page : ℕ+}
    {tpReplicated : Bool} {groups : List KVCacheGroupSpec}
    (hrun : mambaGroups env.toEnv cfg roles mainKvNames page tpReplicated = .ok groups) :
    Grouping (PageFits env) (mambaOwners roles tpReplicated) groups := by
  have howner : ∀ p ∈ mambaOwners roles tpReplicated, p ∈ d := by
    intro p hp
    have hmem := (List.mem_filter.mp hp).1
    rw [hroles.mamba] at hmem
    exact (List.mem_filter.mp hmem).1
  dsimp only [mambaGroups] at hrun
  split at hrun
  · next hnil =>
      cases hrun
      rw [hnil]
      exact Grouping.nil
  · next name representative rest howners =>
      obtain ⟨_, hsame, hrun⟩ := bind_eq_ok.mp hrun
      obtain ⟨_, hfits, hrun⟩ := bind_eq_ok.mp hrun
      obtain ⟨count, hcount, hrun⟩ := bind_eq_ok.mp hrun
      have hfits := require_eq_ok.mp hfits
      have hspec : ∀ p ∈ mambaOwners roles tpReplicated, p.2 = representative := by
        intro p hp
        rw [howners] at hp
        rcases List.mem_cons.mp hp with rfl | hrest
        · rfl
        · exact require_eq_ok.mp hsame p hrest
      have hne : (mambaOwners roles tpReplicated).names ≠ [] := by
        rw [howners]
        exact List.cons_ne_nil _ _
      split at hrun
      · cases hrun
      · next k =>
          obtain ⟨hpos, hle⟩ := getCsaLinearMambaGroupCount_bounds hne hmain hcount
          cases hrun
          refine { partition := ?_, nonempty := ?_, final := ?_ }
          · rw [List.flatMap_map]
            show ((deal k _).flatMap id).Perm _
            rw [List.flatMap_id]
            exact deal_perm hpos _
          · intro group hgroup
            obtain ⟨names, hnames, rfl⟩ := List.mem_map.mp hgroup
            rw [deal_eq_map] at hnames
            obtain ⟨i, hi, rfl⟩ := List.mem_map.mp hnames
            have hi := List.mem_range.mp hi
            exact share_ne_nil hi (Nat.lt_of_lt_of_le hi hle)
          · intro group hgroup p hp _
            obtain ⟨names, -, rfl⟩ := List.mem_map.mp hgroup
            refine ⟨_, rfl, ?_⟩
            rw [← hspec p hp] at hfits ⊢
            show bytesFor env p.2 p.2.blockSize ≤ page
            rw [bytesFor_own h (howner p hp)]
            exact hfits

/-! ## The groups of the CSA layers -/

theorem commonShape_geometry {tuples : List CSALinearCacheTuple} {shape : CSAShape}
    (h : commonShape cfg tuples = .ok shape) :
    ∀ cache ∈ tuples, cache.geometryOk = true := by
  unfold commonShape at h
  obtain ⟨_, -, h⟩ := bind_eq_ok.mp h
  split at h
  · cases h
  · next hnone =>
      intro cache hcache
      have hok := List.find?_eq_none.mp hnone cache hcache
      simpa using hok

/-- What the geometry check leaves of the pages. -/
structure CSALinearCacheTuple.PagesOk (cache : CSALinearCacheTuple) (shape : CSAShape) :
    Prop where
  mainKv : cache.mainKv.2.OwnPageFits
  compressed : cache.compressed.2.OwnPageFits
  compressorState : cache.compressorState.2.unpaddedPageSizeBytes ≤ shape.compressedPage

theorem KVCacheSpec.ownPageFits_of_none {spec : KVCacheSpec} (h : spec.pageSizePadded = none) :
    spec.OwnPageFits := by
  rw [KVCacheSpec.OwnPageFits, KVCacheSpec.pageSizeBytes, h]
  exact le_refl _

theorem commonShape_pages {tuples : List CSALinearCacheTuple} {shape : CSAShape}
    (h : commonShape cfg tuples = .ok shape) :
    ∀ cache ∈ tuples, cache.PagesOk shape := by
  intro cache hcache
  have hok := commonShape_geometry h cache hcache
  have hshape := commonShape_eq h cache hcache
  have hpage : cache.compressed.2.pageSizeBytes = shape.compressedPage :=
    congrArg CSAShape.compressedPage hshape
  simp only [CSALinearCacheTuple.geometryOk, Bool.and_eq_true, decide_eq_true_eq] at hok
  obtain ⟨⟨⟨⟨-, hstate⟩, hmain⟩, hcompressed⟩, -⟩ := hok
  rw [hpage] at hstate
  exact ⟨KVCacheSpec.ownPageFits_of_none hmain, KVCacheSpec.ownPageFits_of_none hcompressed,
    hstate⟩

theorem csaGroups_grouping {shape : CSAShape} {tuples : List CSALinearCacheTuple}
    (h : d.WellFormed env) (hpages : ∀ cache ∈ tuples, cache.PagesOk shape)
    (hsparse : ∀ p ∈ compressedSparseSpecs tuples, p ∈ d)
    (hstate : ∀ p ∈ tuples.map CSALinearCacheTuple.compressorState, p ∈ d)
    (hnodup : (SpecDict.names (compressedSparseSpecs tuples ++
      tuples.map CSALinearCacheTuple.compressorState)).Nodup)
    {groups : List KVCacheGroupSpec} (hrun : csaGroups env.toEnv shape tuples = .ok groups) :
    Grouping (PageFits env) (compressedSparseSpecs tuples ++
      tuples.map CSALinearCacheTuple.compressorState) groups := by
  have hsplit := hnodup
  rw [SpecDict.names_append] at hsplit
  have hnames : (paddedCompressorStateSpecs shape tuples).names =
      SpecDict.names (tuples.map CSALinearCacheTuple.compressorState) := by
    rw [paddedCompressorStateSpecs, SpecDict.names, SpecDict.names, List.map_map, List.map_map]
    rfl
  dsimp only [csaGroups] at hrun
  split at hrun
  · next sparseUniform stateUniform hcs hst =>
      have hsparseGrouping : Grouping (PageFits env) (compressedSparseSpecs tuples)
          [⟨(compressedSparseSpecs tuples).names, sparseUniform, false⟩] := by
        have hown := getKvCacheGroupsUniformType_grouping hsplit.of_append_left hcs
        rw [getKvCacheGroupsUniformType, uniformTypeGroup,
          (kvCacheSpecs_of_fromSpecs hcs).1] at hown
        apply hown.imp
        rintro p hp final rfl
        rw [pageFits_own h (hsparse p hp)]
        obtain ⟨cache, hcache, hmem⟩ := List.mem_flatMap.mp hp
        have hok := hpages cache hcache
        rcases List.mem_cons.mp hmem with rfl | hmem
        · exact hok.mainKv
        · rw [List.mem_singleton.mp hmem]
          exact hok.compressed
      have hstateGrouping : Grouping (PageFits env)
          (tuples.map CSALinearCacheTuple.compressorState)
          [⟨(paddedCompressorStateSpecs shape tuples).names, stateUniform, false⟩] := by
        have hstateNodup : (paddedCompressorStateSpecs shape tuples).names.Nodup := by
          rw [hnames]
          exact hsplit.of_append_right
        have hown := getKvCacheGroupsUniformType_grouping hstateNodup hst
        rw [getKvCacheGroupsUniformType, uniformTypeGroup,
          (kvCacheSpecs_of_fromSpecs hst).1] at hown
        apply hown.of_rebuilt hnames
        intro p hp
        have hpd := hstate p hp
        obtain ⟨cache, hcache, rfl⟩ := List.mem_map.mp hp
        refine ⟨_, List.mem_map_of_mem hcache, rfl, ?_⟩
        rintro final rfl
        show bytesFor env cache.compressorState.2 cache.compressorState.2.blockSize ≤
          shape.compressedPage
        rw [bytesFor_own h hpd]
        exact (hpages cache hcache).compressorState
      cases hrun
      exact hsparseGrouping.append hstateGrouping hnodup
  · cases hrun

/-! ## The path -/

theorem getKvCacheGroupsCsaLinear_grouping (h : d.WellFormed env)
    {groups : List KVCacheGroupSpec}
    (hrun : getKvCacheGroupsCsaLinear env.toEnv cfg d = .ok (some groups)) :
    Grouping (PageFits env) d groups := by
  unfold getKvCacheGroupsCsaLinear at hrun
  obtain ⟨found, hroles, hrun⟩ := bind_eq_ok.mp hrun
  split at hrun
  · cases hrun
  · next roles =>
      obtain ⟨tuples, htuples, hrun⟩ := bind_eq_ok.mp hrun
      obtain ⟨shape, hshape, hrun⟩ := bind_eq_ok.mp hrun
      obtain ⟨csa, hcsa, hrun⟩ := bind_eq_ok.mp hrun
      obtain ⟨sharded, hsharded, hrun⟩ := bind_eq_ok.mp hrun
      obtain ⟨replicated, hreplicated, hrun⟩ := bind_eq_ok.mp hrun
      cases hrun
      have hrolesOf := classifyCsaLinearSpecs_roles hroles
      have htuplesOf := getCsaLinearCacheTuples_of htuples
      have hmain := htuplesOf.mainKv_ne_nil hrolesOf
      have hperm : ((compressedSparseSpecs tuples ++
          tuples.map CSALinearCacheTuple.compressorState) ++
            mambaOwners roles false ++ mambaOwners roles true).Perm d := by
        rw [List.append_assoc]
        have hcaches := ((compressedSparseSpecs_perm tuples).trans
          (htuplesOf.mainKv.append htuplesOf.compressed)).append htuplesOf.compressorState
        exact (hcaches.append (mambaOwners_perm roles)).trans hrolesOf.perm
      have hnodup := (hperm.map Prod.fst).nodup_iff.mpr h.nodup
      have hnodup' := hnodup
      rw [List.map_append] at hnodup'
      have hmem : ∀ p ∈ compressedSparseSpecs tuples ++
          tuples.map CSALinearCacheTuple.compressorState, p ∈ d := by
        intro p hp
        apply hperm.subset
        exact List.mem_append_left _ (List.mem_append_left _ hp)
      have hcsaNodup : (SpecDict.names (compressedSparseSpecs tuples ++
          tuples.map CSALinearCacheTuple.compressorState)).Nodup := by
        have hleft := hnodup'.of_append_left
        rw [List.map_append] at hleft
        exact hleft.of_append_left
      have hcsaGrouping := csaGroups_grouping h (commonShape_pages hshape)
        (fun p hp => hmem p (List.mem_append_left _ hp))
        (fun p hp => hmem p (List.mem_append_right _ hp)) hcsaNodup hcsa
      exact ((hcsaGrouping.append (mambaGroups_grouping h hrolesOf hmain hsharded)
        hnodup'.of_append_left).append
          (mambaGroups_grouping h hrolesOf hmain hreplicated) hnodup).perm hperm

end FlashNext.Ports.KvCache
