import FlashNext.Ports.KvGroupsHybrid

/-!
# KV-cache groups: hidden-state layers and the general path

Hidden-state layers take the common page and the largest block that divides
the block size of the groups and fits in it; one token may already be too
large.
-/

namespace FlashNext.Ports.KvCache

open FlashNext.Verified.Checked

variable {env : GroupingEnv} {cfg : GroupingConfig} {d : SpecDict}

/-! ## Block sizes -/

theorem largestDivisorFrom_spec (value limit : Nat) :
    1 ≤ largestDivisorFrom value limit ∧ largestDivisorFrom value limit ∣ value ∧
      largestDivisorFrom value limit ≤ max limit 1 := by
  induction limit with
  | zero => exact ⟨Nat.le_refl 1, Nat.one_dvd value, Nat.le_refl 1⟩
  | succ limit ih =>
      unfold largestDivisorFrom
      split
      · next hmod =>
          exact ⟨Nat.succ_le_succ (Nat.zero_le limit), Nat.dvd_of_mod_eq_zero hmod,
            Nat.le_max_left _ _⟩
      · exact ⟨ih.1, ih.2.1, by omega⟩

/-- The divisor is at least 1, and at most the limit unless that is 0. -/
theorem largestDivisorAtMost_spec (value limit : Nat) :
    1 ≤ largestDivisorAtMost value limit ∧ largestDivisorAtMost value limit ∣ value ∧
      largestDivisorAtMost value limit ≤ max limit 1 := by
  obtain ⟨hpos, hdvd, hle⟩ := largestDivisorFrom_spec value (min value limit)
  exact ⟨hpos, hdvd, by unfold largestDivisorAtMost; omega⟩

/-- A block that divides into tokens. -/
theorem bytesFor_hidden (h : d.WellFormed env) {p : String × KVCacheSpec} (hp : p ∈ d)
    (hhidden : isInstance env p.2 .hiddenStateCache = true) {blockSize : Nat}
    (hpos : 1 ≤ blockSize) :
    (bytesFor env p.2 blockSize : Nat) = perToken env p.2 * blockSize := by
  obtain ⟨hattention, hbytes⟩ := h.hidden p hp hhidden
  have hunpadded := p.2.unpaddedPageSizeBytes.pos
  rw [hbytes] at hunpadded
  have hblock : 0 < p.2.blockSize := Nat.pos_of_mul_pos_right hunpadded
  have htoken : 0 < perToken env p.2 := Nat.pos_of_mul_pos_left hunpadded
  unfold bytesFor withBlockSize
  dsimp only
  rw [if_pos hattention, hbytes, Nat.mul_div_cancel_left _ hblock, Nat.toPNat'_coe,
    if_pos (Nat.mul_pos htoken hpos)]

/-! ## Hidden-state layers -/

/-- What the page of a layer must hold on the general path. -/
def FitsCommonPage (env : GroupingEnv) (commonPage : ℕ+) (p : String × KVCacheSpec) : Prop :=
  if isInstance env p.2 .hiddenStateCache then perToken env p.2 ≤ commonPage
  else p.2.unpaddedPageSizeBytes ≤ commonPage

/-- How a layer ends on the general path. -/
def OnCommonPage (env : GroupingEnv) (commonPage : ℕ+) (p : String × KVCacheSpec)
    (final : KVCacheSpec) : Prop :=
  final.pageSizeBytes = commonPage ∧
    (PageFits env p final ↔ FitsCommonPage env commonPage p)

theorem alignHiddenState_ok (h : d.WellFormed env) {p : String × KVCacheSpec} (hp : p ∈ d)
    (hhidden : isInstance env p.2 .hiddenStateCache = true) {commonPage : ℕ+}
    {groupBlockSize : Nat} {group : MergedGroup}
    (hrun : alignHiddenState env commonPage groupBlockSize p = .ok group) :
    group.layerNames = [p.1] ∧ OnCommonPage env commonPage p group.kvCacheSpec := by
  unfold alignHiddenState at hrun
  obtain ⟨_, htoken, hrun⟩ := bind_eq_ok.mp hrun
  have htoken := Nat.pos_of_ne_zero (require_eq_ok.mp htoken)
  dsimp only at hrun
  obtain ⟨limit, hlimit⟩ : ∃ n, n = max ((commonPage : Nat) / perToken env p.2) 1 :=
    ⟨_, rfl⟩
  rw [← hlimit] at hrun
  obtain ⟨hpos, -, hle⟩ := largestDivisorAtMost_spec groupBlockSize limit
  generalize largestDivisorAtMost groupBlockSize limit = newBs at hrun hpos hle
  cases hrun
  refine ⟨rfl, rfl, ?_⟩
  show bytesFor env p.2 newBs ≤ commonPage ↔ _
  rw [FitsCommonPage, if_pos hhidden, ← PNat.coe_le_coe, bytesFor_hidden h hp hhidden hpos]
  constructor
  · intro hfits
    exact Nat.le_trans (Nat.le_mul_of_pos_right _ hpos) hfits
  · intro hone
    have hdiv : 1 ≤ (commonPage : Nat) / perToken env p.2 := Nat.div_pos hone htoken
    have hnew : newBs ≤ (commonPage : Nat) / perToken env p.2 := by omega
    exact Nat.le_trans (Nat.mul_le_mul_left _ hnew) (Nat.mul_div_le _ _)

/-- Groups of some layers, all on one page size. -/
structure CommonPageGrouping (env : GroupingEnv) (commonPage : ℕ+) (d : SpecDict)
    (groups : List MergedGroup) : Prop where
  partition : (groups.flatMap MergedGroup.layerNames).Perm d.names
  nonempty : ∀ group ∈ groups, group.layerNames ≠ []
  final : ∀ group ∈ groups, ∀ p ∈ d, p.1 ∈ group.layerNames →
    OnCommonPage env commonPage p group.kvCacheSpec

theorem CommonPageGrouping.grouping {commonPage : ℕ+} {groups : List MergedGroup}
    (h : CommonPageGrouping env commonPage d groups) :
    Grouping (OnCommonPage env commonPage) d (groups.map MergedGroup.toGroup) :=
  grouping_toGroup h.partition h.nonempty h.final

theorem alignHiddenStates_ok {e : SpecDict} (h : d.WellFormed env) (he : ∀ p ∈ e, p ∈ d)
    (hnodup : e.names.Nodup)
    (hhidden : ∀ p ∈ e, isInstance env p.2 .hiddenStateCache = true) {commonPage : ℕ+}
    {groupBlockSize : Nat} {groups : List MergedGroup}
    (hrun : e.mapM (alignHiddenState env commonPage groupBlockSize) = .ok groups) :
    CommonPageGrouping env commonPage e groups := by
  have hsteps := forall₂_of_mapM hrun
  have hstep : ∀ group ∈ groups, ∃ p ∈ e, group.layerNames = [p.1] ∧
      OnCommonPage env commonPage p group.kvCacheSpec := by
    intro group hgroup
    obtain ⟨p, hp, hok⟩ := exists_of_forall₂ hsteps hgroup
    exact ⟨p, hp, alignHiddenState_ok h (he p hp) (hhidden p hp) hok⟩
  have hnames : groups.flatMap MergedGroup.layerNames = e.names := by
    clear hrun hstep hnodup
    induction hsteps with
    | nil => rfl
    | @cons p group e groups hok _ ih =>
        have hp := alignHiddenState_ok h (he p List.mem_cons_self)
          (hhidden p List.mem_cons_self) hok
        have hrest := ih (fun q hq => he q (List.mem_cons_of_mem p hq))
          fun q hq => hhidden q (List.mem_cons_of_mem p hq)
        rw [List.flatMap_cons, hp.1, hrest]
        rfl
  refine { partition := by rw [hnames], nonempty := ?_, final := ?_ }
  · intro group hgroup
    obtain ⟨p, -, hlayers, -⟩ := hstep group hgroup
    rw [hlayers]
    exact List.cons_ne_nil _ _
  · intro group hgroup p hp hmem
    obtain ⟨q, hq, hlayers, hon⟩ := hstep group hgroup
    rw [hlayers, List.mem_singleton] at hmem
    rwa [List.inj_on_of_nodup_map hnodup hp hq hmem]

/-! ## The general path -/

theorem SpecDict.WellFormed.filter (h : d.WellFormed env) (q : String × KVCacheSpec → Bool) :
    SpecDict.WellFormed (d.filter q) env where
  nodup := h.nodup.sublist (List.filter_sublist.map Prod.fst)
  linear p hp := h.linear p (List.mem_filter.mp hp).1
  hidden p hp := h.hidden p (List.mem_filter.mp hp).1

/-- The page that the general path settles on. -/
def commonPage (env : GroupingEnv) (d : SpecDict) : ℕ+ := (filteredSpec env d).maxPageSize

/-- All other layers are on the common page. -/
theorem unified_commonPage (hmerge : MergeKeepsLayout env) (h : d.WellFormed env)
    {unified : SpecDict} (hunify : unifyKvCacheSpecPageSize env (filteredSpec env d) = .ok unified)
    {groups : List MergedGroup}
    (hgroups : getKvCacheGroupsUniformPageSize env unified = .ok groups) :
    CommonPageGrouping env (commonPage env d) (filteredSpec env d) groups ∧ groups ≠ [] ∧
      ∀ group ∈ groups, group.kvCacheSpec.pageSizeBytes = commonPage env d := by
  have hwf := h.filter fun p => !isInstance env p.2 .hiddenStateCache
  have hof := unifyKvCacheSpecPageSize_ok hwf hunify
  have hnodup : unified.names.Nodup := by
    rw [hof.names]
    exact hwf.nodup
  obtain ⟨hmerged, hne⟩ := getKvCacheGroupsUniformPageSize_ok hmerge hnodup hgroups
  have hfinal : ∀ group ∈ groups, ∀ p ∈ filteredSpec env d, p.1 ∈ group.layerNames →
      OnCommonPage env (commonPage env d) p group.kvCacheSpec := by
    intro group hgroup p hp hmem
    obtain ⟨q, hq, hunified⟩ := hof.unified p hp
    rw [← hunified.name] at hmem
    obtain ⟨hblock, hpage⟩ := hmerged.layout group hgroup q hq hmem
    have hother : isInstance env p.2 .hiddenStateCache = false := by
      have hkept := (List.mem_filter.mp hp).2
      rwa [Bool.not_eq_true'] at hkept
    refine ⟨hpage.trans hunified.page, ?_⟩
    rw [PageFits, hblock, hpage, FitsCommonPage, hother, if_neg Bool.false_ne_true]
    exact hunified.fits
  have hpartition : (groups.flatMap MergedGroup.layerNames).Perm
      (filteredSpec env d).names := by
    rw [filteredSpec, ← hof.names]
    exact hmerged.partition
  refine ⟨⟨hpartition, hmerged.nonempty, hfinal⟩, hne, ?_⟩
  intro group hgroup
  obtain ⟨name, hname⟩ := List.exists_mem_of_ne_nil _ (hmerged.nonempty group hgroup)
  have hmem := hpartition.subset (List.mem_flatMap.mpr ⟨group, hgroup, hname⟩)
  obtain ⟨p, hp, rfl⟩ := List.mem_map.mp hmem
  exact (hfinal group hgroup p hp hname).1

theorem getUniformPageSize_ok {specs : List KVCacheSpec} {page common : ℕ+}
    (hall : ∀ spec ∈ specs, spec.pageSizeBytes = common)
    (h : getUniformPageSize specs = .ok page) : page = common := by
  unfold getUniformPageSize at h
  split at h
  · next page' hpages =>
      cases h
      have hmem : page ∈ specs.map KVCacheSpec.pageSizeBytes := by
        rw [← List.mem_dedup, hpages]
        exact List.mem_cons_self
      obtain ⟨spec, hspec, rfl⟩ := List.mem_map.mp hmem
      exact hall spec hspec
  · cases h

theorem filtered_append_hidden (env : GroupingEnv) (d : SpecDict) :
    (filteredSpec env d ++ hiddenSpecs env d).Perm d := by
  have hperm := List.filter_append_perm
    (fun p : String × KVCacheSpec => isInstance env p.2 .hiddenStateCache) d
  exact List.perm_append_comm.trans hperm

theorem addHiddenStates_ok (h : d.WellFormed env) {groups allGroups : List MergedGroup}
    {page : ℕ+} (hgroups : CommonPageGrouping env page (filteredSpec env d) groups)
    (hpage : ∀ group ∈ groups, group.kvCacheSpec.pageSizeBytes = page)
    (hrun : addHiddenStates env (hiddenSpecs env d) groups = .ok allGroups) :
    Grouping (OnCommonPage env page) d (allGroups.map MergedGroup.toGroup) := by
  have hperm := filtered_append_hidden env d
  have hnodup : (SpecDict.names (filteredSpec env d ++ hiddenSpecs env d)).Nodup :=
    (hperm.map Prod.fst).nodup_iff.mpr h.nodup
  unfold addHiddenStates at hrun
  split at hrun
  · next hnil =>
      cases hrun
      rw [hnil, List.append_nil] at hperm
      exact hgroups.grouping.perm hperm
  · obtain ⟨found, hfound, hrun⟩ := bind_eq_ok.mp hrun
    obtain ⟨hidden, hhidden, hrun⟩ := bind_eq_ok.mp hrun
    cases hrun
    have hsame : found = page := by
      apply getUniformPageSize_ok _ hfound
      intro spec hspec
      obtain ⟨group, hgroup, rfl⟩ := List.mem_map.mp hspec
      exact hpage group hgroup
    subst hsame
    have hgrouping := alignHiddenStates_ok h (fun p hp => (List.mem_filter.mp hp).1)
      (h.filter _).nodup (fun p hp => (List.mem_filter.mp hp).2) hhidden
    rw [List.map_append]
    exact (hgroups.grouping.append hgrouping.grouping hnodup).perm hperm

theorem getKvCacheGroupsHybrid_commonPage (hmerge : MergeKeepsLayout env)
    (h : d.WellFormed env) {unified : SpecDict}
    (hunify : unifyKvCacheSpecPageSize env (filteredSpec env d) = .ok unified)
    {groups : List KVCacheGroupSpec} (hrun : getKvCacheGroupsHybrid env cfg d = .ok groups) :
    Grouping (OnCommonPage env (commonPage env d)) d groups := by
  unfold getKvCacheGroupsHybrid at hrun
  rw [hunify] at hrun
  obtain ⟨merged, hmerged, hrun⟩ := bind_eq_ok.mp hrun
  obtain ⟨allGroups, hall, hrun⟩ := bind_eq_ok.mp hrun
  cases hrun
  obtain ⟨hgroups, -, hpage⟩ := unified_commonPage hmerge h hunify hmerged
  exact Grouping.of_content (annotateEagleGroups_content d _ false)
    (addHiddenStates_ok h hgroups hpage hall)

/-! ## Full allocation -/

theorem tryGetFullAllocationFallbackGroups_ok (h : d.WellFormed env)
    {groups : List KVCacheGroupSpec}
    (hrun : tryGetFullAllocationFallbackGroups env d = .ok (some groups)) :
    Grouping (fun p final => PageFits env p final ↔
      (p.2.OwnPageFits ∨ Promoted env d p.2)) d groups := by
  unfold tryGetFullAllocationFallbackGroups at hrun
  split at hrun
  · cases hrun
  · split at hrun
    · cases hrun
    · split at hrun
      · cases hrun
      · split at hrun
        · cases hrun
        · cases hrun
        · next promoted hpromoted =>
            have hof := promoteLocalKvCacheSpecs_ok h hpromoted
            obtain ⟨spec, hspec, rfl⟩ := Option.map_eq_some_iff.mp (Except.ok.inj hrun)
            have hnodup : promoted.names.Nodup := by
              rw [hof.names]
              exact h.nodup
            apply (getKvCacheGroupsUniformType_grouping hnodup hspec).of_rebuilt hof.names
            intro p hp
            obtain ⟨q, hq, hrebuilt⟩ := hof.rebuilt p hp
            refine ⟨q, hq, hrebuilt.name, ?_⟩
            rintro final rfl
            exact hrebuilt.fits

theorem getKvCacheGroupsHybrid_fullAllocation (h : d.WellFormed env) {e : GroupingError}
    (hunify : unifyKvCacheSpecPageSize env (filteredSpec env d) = .error e)
    {groups : List KVCacheGroupSpec} (hrun : getKvCacheGroupsHybrid env cfg d = .ok groups) :
    Grouping (fun p final => PageFits env p final ↔
      (p.2.OwnPageFits ∨ Promoted env d p.2)) d groups := by
  unfold getKvCacheGroupsHybrid at hrun
  split at hrun
  · obtain ⟨fallback, hfallback, hrun⟩ := bind_eq_ok.mp hrun
    cases fallback with
    | none => cases hrun
    | some found =>
        cases hrun
        exact tryGetFullAllocationFallbackGroups_ok h hfallback
  · cases hrun
  · next unified hok =>
      rw [hunify] at hok
      cases hok

end FlashNext.Ports.KvCache
