import FlashNext.Ports.KvGroupsTuples

/-!
# KV-cache groups: one page size

The pages of all layers are brought to the size of the largest one, layers
whose specs merge share a bucket, and buckets are cut into strides.
Hidden-state layers follow, one to a group, on pages of the same size.
-/

namespace FlashNext.Ports.KvCache

open FlashNext.Verified.Checked
open FlashNext.Verified.RoundRobin
open FlashNext.Verified.GroupByKey

variable {env : GroupingEnv} {cfg : GroupingConfig} {d : SpecDict}

/-! ## The largest page -/

theorem foldl_max_mem (pages : List ℕ+) : pages.foldl max 1 ∈ 1 :: pages :=
  List.max?_mem (List.max?_cons' ..)

theorem le_foldl_max (pages : List ℕ+) : ∀ page ∈ 1 :: pages, page ≤ pages.foldl max 1 :=
  (List.max?_eq_some_iff.mp (List.max?_cons' ..)).2

theorem le_maxPageSize {p : String × KVCacheSpec} (hp : p ∈ d) :
    p.2.pageSizeBytes ≤ d.maxPageSize :=
  le_foldl_max _ _ (List.mem_cons_of_mem 1
    (List.mem_map_of_mem (f := fun p => p.2.pageSizeBytes) hp))

theorem eq_of_length_le_one {α : Type} {xs : List α} (h : xs.length ≤ 1) {x y : α}
    (hx : x ∈ xs) (hy : y ∈ xs) : x = y := by
  cases xs with
  | nil => cases hx
  | cons z zs =>
      have hnil : zs = [] := List.length_eq_zero_iff.mp (Nat.le_zero.mp (Nat.le_of_succ_le_succ h))
      rw [hnil] at hx hy
      rw [List.mem_singleton.mp hx, List.mem_singleton.mp hy]

/-- A dict with one page size. -/
theorem eq_maxPageSize (h : d.pageSizes.length ≤ 1) {p : String × KVCacheSpec}
    (hp : p ∈ d) : p.2.pageSizeBytes = d.maxPageSize := by
  have hpage : ∀ {q : String × KVCacheSpec}, q ∈ d → q.2.pageSizeBytes ∈ d.pageSizes :=
    fun hq => List.mem_dedup.mpr (List.mem_map_of_mem (f := fun p => p.2.pageSizeBytes) hq)
  rcases List.mem_cons.mp (foldl_max_mem (d.map fun p => p.2.pageSizeBytes)) with hone | hmem
  · have hle := le_maxPageSize hp
    rw [SpecDict.maxPageSize, hone] at hle ⊢
    exact le_antisymm hle one_le
  · obtain ⟨q, hq, heq⟩ := List.mem_map.mp hmem
    rw [SpecDict.maxPageSize, ← heq]
    exact eq_of_length_le_one h (hpage hp) (hpage hq)

/-! ## Unified pages -/

/-- A layer is brought to the common page. -/
structure UnifiedTo (env : GroupingEnv) (commonPage : ℕ+) (p q : String × KVCacheSpec) :
    Prop where
  name : q.1 = p.1
  page : q.2.pageSizeBytes = commonPage
  fits : PageFits env p q.2 ↔ p.2.unpaddedPageSizeBytes ≤ commonPage

theorem UnifiedTo.own (h : d.WellFormed env) {p : String × KVCacheSpec} (hp : p ∈ d)
    {page : ℕ+} (hpage : p.2.pageSizeBytes = page) : UnifiedTo env page p p := by
  refine ⟨rfl, hpage, ?_⟩
  rw [pageFits_own h hp, KVCacheSpec.OwnPageFits, hpage]

theorem UnifiedTo.padded (h : d.WellFormed env) {p : String × KVCacheSpec} (hp : p ∈ d)
    (page : ℕ+) : UnifiedTo env page p (p.1, p.2.padTo page) := by
  refine ⟨rfl, rfl, ?_⟩
  show bytesFor env p.2 p.2.blockSize ≤ page ↔ _
  rw [bytesFor_own h hp]

/-- A larger block fills the page exactly. -/
theorem UnifiedTo.scaled {p : String × KVCacheSpec} {page : ℕ+} {blockSize : Nat}
    (hle : p.2.pageSizeBytes ≤ page) (hne : p.2.pageSizeBytes ≠ page)
    (hpage : (withBlockSize env p.2 blockSize).pageSizeBytes = page) :
    UnifiedTo env page p (p.1, withBlockSize env p.2 blockSize) := by
  have hpadded : p.2.pageSizePadded = none := by
    cases hpad : p.2.pageSizePadded with
    | none => rfl
    | some padded =>
        have hown : p.2.pageSizeBytes = padded := by
          rw [KVCacheSpec.pageSizeBytes, hpad]
          rfl
        have hnew : (withBlockSize env p.2 blockSize).pageSizeBytes = padded := by
          show p.2.pageSizePadded.getD _ = padded
          rw [hpad]
          rfl
        exact absurd (hown.trans (hnew.symm.trans hpage)) hne
  have hneed : bytesFor env p.2 blockSize = page := by
    rw [← hpage]
    show _ = p.2.pageSizePadded.getD (bytesFor env p.2 blockSize)
    rw [hpadded]
    rfl
  have hunpadded : p.2.unpaddedPageSizeBytes ≤ page := by
    rw [KVCacheSpec.pageSizeBytes, hpadded] at hle
    exact hle
  refine ⟨rfl, hpage, iff_of_true ?_ hunpadded⟩
  show bytesFor env p.2 blockSize ≤ (withBlockSize env p.2 blockSize).pageSizeBytes
  rw [hneed, hpage]

theorem unifySpec_ok (h : d.WellFormed env) {p q : String × KVCacheSpec} (hp : p ∈ d)
    {page : ℕ+} (hle : p.2.pageSizeBytes ≤ page) (hq : unifySpec env page p = .ok q) :
    UnifiedTo env page p q := by
  unfold unifySpec at hq
  split at hq
  · next heq =>
      cases hq
      exact UnifiedTo.own h hp heq
  · next hne =>
      obtain ⟨newSpec, hnew, hq⟩ := bind_eq_ok.mp hq
      obtain ⟨_, hpage, hq⟩ := bind_eq_ok.mp hq
      cases hq
      simp only [enlargeSpec] at hnew
      split at hnew
      · cases hnew
        exact UnifiedTo.padded h hp page
      · split at hnew
        · cases hnew
          exact UnifiedTo.scaled hle hne (require_eq_ok.mp hpage)
        · split at hnew
          · cases hnew
            exact UnifiedTo.padded h hp page
          · cases hnew

theorem unifySpec_name {p q : String × KVCacheSpec} {page : ℕ+}
    (hq : unifySpec env page p = .ok q) : q.1 = p.1 := by
  unfold unifySpec at hq
  split at hq
  · cases hq
    rfl
  · obtain ⟨newSpec, -, hq⟩ := bind_eq_ok.mp hq
    obtain ⟨_, -, hq⟩ := bind_eq_ok.mp hq
    cases hq
    rfl

/-- The unified dict has the same layers, all with the largest page. -/
structure UnifiedOf (env : GroupingEnv) (d e : SpecDict) : Prop where
  names : e.names = d.names
  unified : ∀ p ∈ d, ∃ q ∈ e, UnifiedTo env d.maxPageSize p q

theorem unifyKvCacheSpecPageSize_ok (h : d.WellFormed env) {e : SpecDict}
    (hrun : unifyKvCacheSpecPageSize env d = .ok e) : UnifiedOf env d e := by
  unfold unifyKvCacheSpecPageSize at hrun
  split at hrun
  · next hone =>
      cases hrun
      exact ⟨rfl, fun p hp => ⟨p, hp, UnifiedTo.own h hp (eq_maxPageSize hone hp)⟩⟩
  · have hsteps := forall₂_of_mapM hrun
    refine ⟨names_of_forall₂ (fun _ _ hq => unifySpec_name hq) hsteps, ?_⟩
    intro p hp
    obtain ⟨q, hq, hstep⟩ := exists_of_forall₂ hsteps.flip hp
    exact ⟨q, hq, unifySpec_ok h hp (le_maxPageSize hp) hstep⟩

/-! ## Buckets -/

/-- Non-empty buckets that hold some layers. -/
structure BucketsOf (layers : List String) (buckets : List LayerBucket) : Prop where
  perm : (buckets.flatMap LayerBucket.layers).Perm layers
  nonempty : ∀ bucket ∈ buckets, bucket.layers ≠ []

theorem joinBucket_ok {layerSpec : KVCacheSpec} {layerNames : List String}
    (hne : layerNames ≠ []) {buckets joined : List LayerBucket} {layers : List String}
    (hbuckets : BucketsOf layers buckets)
    (h : joinBucket env layerSpec layerNames buckets = .ok joined) :
    BucketsOf (layers ++ layerNames) joined := by
  induction buckets generalizing joined layers with
  | nil =>
      cases h
      have hnil : layers = [] := hbuckets.perm.symm.eq_nil
      refine ⟨by rw [hnil]; simp, ?_⟩
      intro bucket hbucket
      rw [List.mem_singleton.mp hbucket]
      exact hne
  | cons bucket buckets ih =>
      have hrest : BucketsOf (buckets.flatMap LayerBucket.layers) buckets :=
        ⟨List.Perm.refl _, fun b hb => hbuckets.nonempty b (List.mem_cons_of_mem bucket hb)⟩
      have hperm := hbuckets.perm.append_right layerNames
      rw [List.flatMap_cons, List.append_assoc] at hperm
      have hkeep : ∀ {tail : List LayerBucket}, joinBucket env layerSpec layerNames buckets =
          .ok tail → BucketsOf (layers ++ layerNames) (bucket :: tail) := by
        intro tail htail
        have hjoined := ih hrest htail
        refine ⟨?_, ?_⟩
        · rw [List.flatMap_cons]
          exact (hjoined.perm.append_left _).trans hperm
        · intro b hb
          rcases List.mem_cons.mp hb with rfl | hb
          · exact hbuckets.nonempty _ List.mem_cons_self
          · exact hjoined.nonempty b hb
      unfold joinBucket at h
      split at h
      · cases h
        refine ⟨?_, ?_⟩
        · rw [List.flatMap_cons, List.append_assoc]
          exact (List.perm_append_comm.append_left _).trans hperm
        · intro b hb
          rcases List.mem_cons.mp hb with rfl | hb
          · exact List.append_ne_nil_of_right_ne_nil _ hne
          · exact hbuckets.nonempty b (List.mem_cons_of_mem bucket hb)
      · obtain ⟨tail, htail, h⟩ := bind_eq_ok.mp h
        cases h
        exact hkeep htail
      · obtain ⟨tail, htail, h⟩ := bind_eq_ok.mp h
        cases h
        exact hkeep htail
      · cases h

theorem layerBuckets_ok {buckets : List LayerBucket} (h : layerBuckets env d = .ok buckets) :
    BucketsOf d.names buckets := by
  have hloop : ∀ (groups : List (KVCacheSpec × List String)) (start buckets : List LayerBucket)
      (layers : List String), (∀ group ∈ groups, group.2 ≠ []) → BucketsOf layers start →
      groups.foldlM (fun buckets group => joinBucket env group.1 group.2 buckets) start =
        .ok buckets → BucketsOf (layers ++ (groups.map Prod.snd).flatten) buckets := by
    intro groups
    induction groups with
    | nil =>
        intro start buckets layers _ hstart h
        cases h
        simpa using hstart
    | cons group groups ih =>
        intro start buckets layers hne hstart h
        rw [List.foldlM_cons] at h
        obtain ⟨next, hnext, h⟩ := bind_eq_ok.mp h
        have hjoined := joinBucket_ok (hne group List.mem_cons_self) hstart hnext
        rw [List.map_cons, List.flatten_cons, ← List.append_assoc]
        exact ih next buckets _ (fun g hg => hne g (List.mem_cons_of_mem group hg)) hjoined h
  have hperm := (ungroup_groupPairs (d.map Prod.swap)).map Prod.snd
  rw [ungroup_map_snd, List.map_map] at hperm
  have hempty : BucketsOf [] [] :=
    ⟨List.Perm.refl _, fun bucket hbucket => (List.not_mem_nil hbucket).elim⟩
  have hbuckets := hloop _ _ _ _ (groupPairs_ne_nil _) hempty h
  exact ⟨hbuckets.perm.trans hperm, hbuckets.nonempty⟩

theorem groupSize_pos {buckets : List LayerBucket} {size : Nat}
    (hne : ∀ bucket ∈ buckets, bucket.layers ≠ []) (h : groupSize buckets = .ok size) :
    0 < size := by
  have hpos : ∀ n ∈ buckets.map fun bucket => bucket.layers.length, 0 < n := by
    intro n hn
    obtain ⟨bucket, hbucket, rfl⟩ := List.mem_map.mp hn
    exact List.length_pos_of_ne_nil (hne bucket hbucket)
  unfold groupSize at h
  split at h
  · cases h
  · next numLayers rest hlens =>
      rw [hlens] at hpos
      have hmax : rest.foldl max numLayers ∈ numLayers :: rest :=
        List.max?_mem (List.max?_cons' ..)
      have hmin : rest.foldl min numLayers ∈ numLayers :: rest :=
        List.min?_mem (List.min?_cons' ..)
      cases h
      split
      · exact hpos _ hmax
      · exact hpos _ hmin

theorem bucketSlices_ok {size : Nat} (hsize : 0 < size) {bucket : LayerBucket}
    (hne : bucket.layers ≠ []) :
    (bucketSlices size bucket).flatten.Perm bucket.layers ∧
      ∀ slice ∈ bucketSlices size bucket, slice ≠ [] := by
  have hlen := List.length_pos_of_ne_nil hne
  have hle := cdiv_le_self (a := bucket.layers.length) hsize
  constructor
  · rw [bucketSlices, ← deal_eq_map]
    exact deal_perm (cdiv_pos hlen hsize) bucket.layers
  · intro slice hslice
    obtain ⟨i, hi, rfl⟩ := List.mem_map.mp hslice
    have hi' := List.mem_range.mp hi
    exact share_ne_nil hi' (Nat.lt_of_lt_of_le hi' hle)

theorem getKvCacheGroupsUniformPageSize_ok (hmerge : MergeKeepsLayout env)
    (hnodup : d.names.Nodup) {groups : List MergedGroup}
    (h : getKvCacheGroupsUniformPageSize env d = .ok groups) :
    MergedGrouping d groups ∧ groups ≠ [] := by
  unfold getKvCacheGroupsUniformPageSize at h
  obtain ⟨buckets, hbuckets, h⟩ := bind_eq_ok.mp h
  obtain ⟨size, hsize, h⟩ := bind_eq_ok.mp h
  have hof := layerBuckets_ok hbuckets
  have hpos := groupSize_pos hof.nonempty hsize
  have hslices := fun bucket hbucket => bucketSlices_ok hpos (hof.nonempty bucket hbucket)
  have hflat : (buckets.flatMap (bucketSlices size)).flatten.Perm
      (buckets.flatMap LayerBucket.layers) := by
    have hloop : ∀ bs : List LayerBucket, (∀ b ∈ bs, b ∈ buckets) →
        (bs.flatMap (bucketSlices size)).flatten.Perm (bs.flatMap LayerBucket.layers) := by
      intro bs
      induction bs with
      | nil => exact fun _ => List.Perm.refl _
      | cons b bs ih =>
          intro hbs
          rw [List.flatMap_cons, List.flatMap_cons, List.flatten_append]
          exact (hslices b (hbs b List.mem_cons_self)).1.append
            (ih fun c hc => hbs c (List.mem_cons_of_mem b hc))
    exact hloop buckets fun b hb => hb
  have hslicesNe : ∀ slice ∈ buckets.flatMap (bucketSlices size), slice ≠ [] := by
    intro slice hslice
    obtain ⟨bucket, hbucket, hmem⟩ := List.mem_flatMap.mp hslice
    exact (hslices bucket hbucket).2 slice hmem
  have hmerged := createKvCacheGroupSpecs_ok hmerge hnodup (hflat.trans hof.perm) hslicesNe h
  refine ⟨hmerged, ?_⟩
  rintro rfl
  have hnil : buckets.flatMap LayerBucket.layers = [] :=
    (hmerged.partition.trans hof.perm.symm).symm.eq_nil
  have hbucketsNil : buckets = [] := by
    apply List.eq_nil_iff_forall_not_mem.mpr
    intro bucket hbucket
    exact hof.nonempty bucket hbucket (List.flatMap_eq_nil_iff.mp hnil bucket hbucket)
  rw [hbucketsNil] at hsize
  cases hsize

end FlashNext.Ports.KvCache
