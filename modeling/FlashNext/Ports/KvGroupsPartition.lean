import FlashNext.Ports.KvGroupsCsa
import FlashNext.Ports.KvGroupsHidden

/-!
# KV-cache groups: when they are a partition

`get_kv_cache_groups` loses the layers that are no MLA layers when it cuts
layer tuples, and keeps pages that are too small for what they hold.  These
are its only failures.
-/

namespace FlashNext.Ports.KvCache

open FlashNext.Verified.Checked

variable {env : GroupingEnv} {cfg : GroupingConfig} {d e : SpecDict}

/-! ## Strategies -/

inductive GroupingPath where
  | uniformSpec
  | uniformType
  | layerTuples
  | csaLinear
  | uniformPage
  | fullAllocation
  deriving DecidableEq

/-- The strategy for managed specs. -/
def managedPath (env : GroupingEnv) (cfg : GroupingConfig) (e : SpecDict) :
    Except GroupingError GroupingPath := do
  if ← isKvCacheSpecUniform env e then return .uniformSpec
  match fromSpecs env.toEnv e with
  | some _ => return .uniformType
  | none =>
      match ← groupAndUnifyKvCacheSpecs env e with
      | some _ => return .layerTuples
      | none =>
          match ← planned (getKvCacheGroupsCsaLinear env.toEnv cfg.planner e) with
          | some _ => return .csaLinear
          | none =>
              match unifyKvCacheSpecPageSize env (filteredSpec env e) with
              | .ok _ => return .uniformPage
              | .error _ => return .fullAllocation

/-- The strategy that `get_kv_cache_groups` follows. -/
def groupingPath (env : GroupingEnv) (cfg : GroupingConfig) (d : SpecDict) :
    Except GroupingError GroupingPath := do
  let managed ← managedSpecs env cfg d
  managedPath env cfg managed

/-- A run along one strategy. -/
inductive PathRun (env : GroupingEnv) (cfg : GroupingConfig) (e : SpecDict)
    (groups : List KVCacheGroupSpec) : GroupingPath → Prop where
  | uniformSpec (h : getKvCacheGroupsUniformSpec env e = .ok groups) :
      PathRun env cfg e groups .uniformSpec
  | uniformType {spec : GroupSpec} (hspec : fromSpecs env.toEnv e = some spec)
      (h : groups = getKvCacheGroupsUniformType spec) :
      PathRun env cfg e groups .uniformType
  | layerTuples (hnot : isUnified env e = .ok false) {groupedSpecs : List GroupSpec}
      {found : List KVCacheGroupSpec}
      (hgrouped : groupAndUnifyKvCacheSpecs env e = .ok (some groupedSpecs))
      (hfound : getKvCacheGroupsUniformGroups env groupedSpecs = .ok found)
      (h : groups = annotateEagleGroups env cfg e found true) :
      PathRun env cfg e groups .layerTuples
  | csaLinear (hnot : isUnified env e = .ok false)
      (h : getKvCacheGroupsCsaLinear env.toEnv cfg.planner e = .ok (some groups)) :
      PathRun env cfg e groups .csaLinear
  | uniformPage (hnot : isUnified env e = .ok false) {unified : SpecDict}
      (hunify : unifyKvCacheSpecPageSize env (filteredSpec env e) = .ok unified)
      (h : getKvCacheGroupsHybrid env cfg e = .ok groups) :
      PathRun env cfg e groups .uniformPage
  | fullAllocation (hnot : isUnified env e = .ok false) {error : GroupingError}
      (hunify : unifyKvCacheSpecPageSize env (filteredSpec env e) = .error error)
      (h : getKvCacheGroupsHybrid env cfg e = .ok groups) :
      PathRun env cfg e groups .fullAllocation

theorem isUnified_false (hne : e ≠ []) (huniform : isKvCacheSpecUniform env e = .ok false)
    (hspecs : fromSpecs env.toEnv e = none) : isUnified env e = .ok false := by
  have htype : env.isUniformType e = false := by
    unfold fromSpecs at hspecs
    split at hspecs
    · exact absurd rfl hne
    · split at hspecs
      · cases hspecs
      · next hfalse => exact Bool.not_eq_true _ ▸ hfalse
  rw [isUnified, huniform, ok_bind, if_neg Bool.false_ne_true, htype]
  rfl

/-- What one run does. -/
theorem groupManagedSpecs_path (hne : e ≠ []) {groups : List KVCacheGroupSpec}
    (hrun : groupManagedSpecs env cfg e = .ok groups) :
    ∃ path, managedPath env cfg e = .ok path ∧ PathRun env cfg e groups path := by
  unfold groupManagedSpecs at hrun
  rw [if_neg hne] at hrun
  obtain ⟨uniform, huniform, hrun⟩ := bind_eq_ok.mp hrun
  unfold managedPath
  rw [huniform, ok_bind]
  cases uniform with
  | true =>
      rw [if_pos rfl] at hrun
      exact ⟨.uniformSpec, rfl, .uniformSpec hrun⟩
  | false =>
      rw [if_neg Bool.false_ne_true] at hrun ⊢
      cases hspecs : fromSpecs env.toEnv e with
      | some spec =>
          rw [hspecs] at hrun
          cases hrun
          exact ⟨.uniformType, rfl, .uniformType hspecs rfl⟩
      | none =>
          rw [hspecs] at hrun
          have hnot := isUnified_false hne huniform hspecs
          obtain ⟨grouped, hgrouped, hrun⟩ := bind_eq_ok.mp hrun
          dsimp only
          rw [hgrouped, ok_bind]
          cases grouped with
          | some groupedSpecs =>
              obtain ⟨found, hfound, hrun⟩ := bind_eq_ok.mp hrun
              cases hrun
              exact ⟨.layerTuples, rfl, .layerTuples hnot hgrouped hfound rfl⟩
          | none =>
              obtain ⟨csa, hcsa, hrun⟩ := bind_eq_ok.mp hrun
              dsimp only
              rw [hcsa, ok_bind]
              cases csa with
              | some csaGroups =>
                  cases hrun
                  exact ⟨.csaLinear, rfl, .csaLinear hnot (planned_eq_ok.mp hcsa)⟩
              | none =>
                  cases hunify : unifyKvCacheSpecPageSize env (filteredSpec env e) with
                  | ok unified => exact ⟨.uniformPage, rfl, .uniformPage hnot hunify hrun⟩
                  | error error =>
                      exact ⟨.fullAllocation, rfl, .fullAllocation hnot hunify hrun⟩

/-! ## Managed specs -/

/-- What `disable_hybrid_kv_cache_manager` makes of the specs. -/
structure ManagedOf (env : GroupingEnv) (cfg : GroupingConfig) (d e : SpecDict) : Prop where
  names : e.names = d.names
  rebuilt : ∀ p ∈ d, ∃ q ∈ e, RebuiltAs env p q (p.2.OwnPageFits ∨
    (cfg.disableHybridKvCacheManager = true ∧ Promoted env d p.2))
  same : isUnified env e = .ok false → e = d

theorem managedSpecs_ok (h : d.WellFormed env) (hrun : managedSpecs env cfg d = .ok e) :
    ManagedOf env cfg d e := by
  have hown : ∀ p ∈ d, ∀ C : Prop, ¬ C → RebuiltAs env p p (p.2.OwnPageFits ∨ C) := by
    intro p hp C hC
    refine ⟨rfl, ?_⟩
    rw [pageFits_own h hp]
    exact ⟨Or.inl, fun hor => hor.resolve_right hC⟩
  unfold managedSpecs at hrun
  split at hrun
  · next hdisabled =>
      unfold unifyHybridKvCacheSpecs at hrun
      obtain ⟨unified, hunified, hrun⟩ := bind_eq_ok.mp hrun
      cases unified with
      | true =>
          cases hrun
          refine { names := rfl, rebuilt := fun p hp => ⟨p, hp, ?_⟩, same := fun _ => rfl }
          apply hown p hp
          intro hpromoted
          cases hunified.symm.trans hpromoted.2.1
      | false =>
          rw [if_neg Bool.false_ne_true] at hrun
          have hof := promoteLocalKvCacheSpecs_ok h hrun
          refine { names := hof.names, rebuilt := ?_, same := ?_ }
          · intro p hp
            obtain ⟨q, hq, hname, hfits⟩ := hof.rebuilt p hp
            refine ⟨q, hq, hname, ?_⟩
            rw [hfits, and_iff_right hdisabled]
          · intro hnot
            cases hof.unified.symm.trans hnot
  · next henabled =>
      cases hrun
      refine { names := rfl, rebuilt := fun p hp => ⟨p, hp, ?_⟩, same := fun _ => rfl }
      exact hown p hp _ fun hpromoted => henabled hpromoted.1

/-! ## The partition -/

/-- Every layer in one group, no empty group, every page large enough, and one
page size for all where the pages were unified. -/
structure Grouped (env : GroupingEnv) (cfg : GroupingConfig) (d : SpecDict)
    (groups : List KVCacheGroupSpec) : Prop where
  grouping : Grouping (PageFits env) d groups
  commonPage : groupingPath env cfg d = .ok .uniformPage → ∃ page : ℕ+,
    Grouping (fun _ final => final.pageSizeBytes = page) d groups

/-- No layer is lost, and no page is kept or given that is too small. -/
def Groupable (env : GroupingEnv) (cfg : GroupingConfig) (d : SpecDict) : Prop :=
  match groupingPath env cfg d with
  | .ok .uniformSpec | .ok .uniformType => ∀ p ∈ d, p.2.OwnPageFits ∨
      (cfg.disableHybridKvCacheManager = true ∧ Promoted env d p.2)
  | .ok .layerTuples => ∀ p ∈ d, isTupleLayer env p.2 = true ∧ p.2.OwnPageFits
  | .ok .csaLinear => True
  | .ok .uniformPage => ∀ p ∈ d, FitsCommonPage env (commonPage env d) p
  | .ok .fullAllocation => ∀ p ∈ d, p.2.OwnPageFits ∨ Promoted env d p.2
  | .error _ => True

/-- Managed specs that keep their layout decide whether the pages fit. -/
theorem ManagedOf.grouping_iff (hof : ManagedOf env cfg d e)
    {groups : List KVCacheGroupSpec} (hgroups : Grouping SameLayout e groups) :
    Grouping (PageFits env) d groups ↔ ∀ p ∈ d, p.2.OwnPageFits ∨
      (cfg.disableHybridKvCacheManager = true ∧ Promoted env d p.2) := by
  have hrebuilt : Grouping (fun p final => PageFits env p final ↔ (p.2.OwnPageFits ∨
      (cfg.disableHybridKvCacheManager = true ∧ Promoted env d p.2))) d groups := by
    apply hgroups.of_rebuilt hof.names
    intro p hp
    obtain ⟨q, hq, hname, hfits⟩ := hof.rebuilt p hp
    refine ⟨q, hq, hname, ?_⟩
    rintro final ⟨hblock, hpage⟩
    rw [PageFits, hblock, hpage]
    exact hfits
  exact hrebuilt.iff_of_final fun p _ final hfinal => hfinal

/-- Layer tuples are a partition when there are only MLA layers. -/
theorem layerTuples_iff (h : d.WellFormed env) {groups : List KVCacheGroupSpec}
    (hgroups : Grouping (fun p final => final = p.2)
      (d.filter fun p => isTupleLayer env p.2) groups) :
    Grouping (PageFits env) d groups ↔
      ∀ p ∈ d, isTupleLayer env p.2 = true ∧ p.2.OwnPageFits := by
  by_cases hall : ∀ p ∈ d, isTupleLayer env p.2 = true
  · rw [List.filter_eq_self.mpr hall] at hgroups
    have hfits := hgroups.iff_of_final (S := PageFits env) (C := fun p => p.2.OwnPageFits)
      (by rintro p hp final rfl; exact pageFits_own h hp)
    rw [hfits]
    exact ⟨fun hown p hp => ⟨hall p hp, hown p hp⟩, fun hboth p hp => (hboth p hp).2⟩
  · refine iff_of_false ?_ fun hboth => hall fun p hp => (hboth p hp).1
    intro hfull
    have hlen := (hgroups.partition.symm.trans hfull.partition).length_eq
    rw [SpecDict.names, SpecDict.names, List.length_map, List.length_map,
      List.length_filter_eq_length_iff] at hlen
    exact hall hlen

/-- In every run that returns groups, they are a partition with large enough
pages if and only if the strategy admits the specs. -/
theorem getKvCacheGroups_grouped_iff (hmerge : MergeKeepsLayout env) (h : d.WellFormed env)
    (hne : d ≠ []) {groups : List KVCacheGroupSpec}
    (hrun : getKvCacheGroups env cfg d = .ok groups) :
    Grouped env cfg d groups ↔ Groupable env cfg d := by
  unfold getKvCacheGroups at hrun
  obtain ⟨e, hmanaged, hrun⟩ := bind_eq_ok.mp hrun
  have hof := managedSpecs_ok h hmanaged
  have hene : e ≠ [] := by
    rintro rfl
    exact hne (List.map_eq_nil_iff.mp hof.names.symm)
  have hnodup : e.names.Nodup := by
    rw [hof.names]
    exact h.nodup
  obtain ⟨path, hpath, hpathRun⟩ := groupManagedSpecs_path hene hrun
  have htaken : groupingPath env cfg d = .ok path := by
    rw [groupingPath, hmanaged, ok_bind, hpath]
  have hsplit : path ≠ .uniformPage →
      (Grouped env cfg d groups ↔ Grouping (PageFits env) d groups) := by
    intro hother
    refine ⟨Grouped.grouping, fun hgrouping => ⟨hgrouping, fun huniform => ?_⟩⟩
    rw [htaken] at huniform
    cases huniform
    exact absurd rfl hother
  unfold Groupable
  rw [htaken]
  cases hpathRun with
  | uniformSpec hspec =>
      rw [hsplit GroupingPath.noConfusion]
      exact hof.grouping_iff (getKvCacheGroupsUniformSpec_ok hmerge hnodup hene hspec)
  | uniformType hspec hgroups =>
      rw [hsplit GroupingPath.noConfusion, hgroups]
      exact hof.grouping_iff (getKvCacheGroupsUniformType_grouping hnodup hspec).sameLayout
  | layerTuples hnot hgrouped hfound hgroups =>
      rw [hsplit GroupingPath.noConfusion]
      cases hof.same hnot
      obtain ⟨dicts, hdicts⟩ := groupAndUnifyKvCacheSpecs_ok hgrouped
      have hgrouping := getKvCacheGroupsUniformGroups_ok hnodup hdicts hfound
      rw [hgroups]
      exact layerTuples_iff h
        (hgrouping.of_content (annotateEagleGroups_content _ _ true))
  | csaLinear hnot hcsa =>
      rw [hsplit GroupingPath.noConfusion]
      cases hof.same hnot
      exact iff_of_true (getKvCacheGroupsCsaLinear_grouping h hcsa) trivial
  | uniformPage hnot hunify hhybrid =>
      cases hof.same hnot
      have hgrouping := getKvCacheGroupsHybrid_commonPage hmerge h hunify hhybrid
      have hfits := hgrouping.iff_of_final fun p _ final hfinal => hfinal.2
      constructor
      · exact fun hgrouped => hfits.mp hgrouped.grouping
      · intro hall
        exact
          { grouping := hfits.mpr hall
            commonPage := fun _ => ⟨commonPage env d, hgrouping.imp fun _ _ _ hon => hon.1⟩ }
  | fullAllocation hnot hunify hhybrid =>
      rw [hsplit GroupingPath.noConfusion]
      cases hof.same hnot
      exact (getKvCacheGroupsHybrid_fullAllocation h hunify hhybrid).iff_of_final
        fun p _ final hfinal => hfinal

/-! ## Samples -/

/-- The spec classes of the samples. -/
def sampleMro : SpecType → List SpecType := fun cls =>
  if cls = .fullAttention then [.fullAttention, .attention]
  else if cls = .mlaAttention then [.mlaAttention, .fullAttention, .attention]
  else if cls = .slidingWindow then [.slidingWindow, .attention]
  else if cls = .slidingWindowMla then [.slidingWindowMla, .slidingWindow, .attention]
  else if cls = .hiddenStateCache then [.hiddenStateCache, .attention]
  else [cls]

/-- Equal specs merge. -/
def mergeEqual : List KVCacheSpec → Except GroupingError KVCacheSpec
  | [] => .error .indexError
  | spec :: specs => if ∀ other ∈ specs, other = spec then .ok spec else .error .assertion

def sampleEnv : GroupingEnv where
  extractLayerIndex _ := none
  getPpIndices _ _ _ := (0, 0)
  isUniformType specs :=
    decide ((specs.map fun p => (p.2.type, p.2.blockSize)).dedup.length = 1)
  computeLayoutStrides _ _ _ _ _ := (0, 0)
  maxMemoryUsagePages _ _ := .ok 0
  maxMemoryUsageBytes _ _ := .ok 0
  mro := sampleMro
  merge := mergeEqual
  getNumLayerTuples spec := spec.kvCacheSpecs.length
  headSize _ := 8
  dtypeSize _ := 2
  slidingWindowOf _ := 128
  promotedAttrs spec _ := spec.attrs
  nonCausalMultiTokenDecode _ := false
  isDeepseekV4 _ := false

def sampleConfig : GroupingConfig where
  planner :=
    { pipelineParallelSize := 1, totalNumHiddenLayers := 2, numKvHeads := 1
      enablePrefixCaching := false, prefixMatchUnit := none, numGpuBlocksOverride := none
      kvCacheLayout := ⟨true, true, false⟩, maxModelLen := 64, originalMaxModelLen := 64 }
  disableHybridKvCacheManager := false
  useEagle := false

def sampleSpec (type : SpecType) (tokenBytes : Nat) : KVCacheSpec where
  type := type
  blockSize := 16
  numKvHeads := 1
  tokensPerState := 1
  tpReplicated := false
  unpaddedPageSizeBytes := (16 * tokenBytes).toPNat'
  pageSizePadded := none
  attrs := 0

theorem mergeEqual_keepsLayout : MergeKeepsLayout sampleEnv := by
  intro specs merged hmerged spec hspec
  cases specs with
  | nil => cases hspec
  | cons first rest =>
      change (if _ then _ else _) = _ at hmerged
      split at hmerged
      · next hall =>
          cases hmerged
          rcases List.mem_cons.mp hspec with rfl | hrest
          · exact ⟨rfl, rfl⟩
          · rw [hall spec hrest]
            exact ⟨rfl, rfl⟩
      · cases hmerged

/-- An MLA model with sliding-window layers and a draft model with full
attention. -/
def draftBesideTuples : SpecDict :=
  [("target.0.mla", sampleSpec .mlaAttention 4),
    ("target.0.swa", sampleSpec .slidingWindowMla 2),
    ("draft.0.attn", sampleSpec .fullAttention 8)]

/-- Full attention, sliding windows of half the page, and a hidden-state layer. -/
def windowsBesideFull : SpecDict :=
  [("layers.0.attn", sampleSpec .fullAttention 64),
    ("layers.1.attn", sampleSpec .slidingWindow 32),
    ("layers.2.attn", sampleSpec .slidingWindow 32),
    ("hidden", sampleSpec .hiddenStateCache 16)]

theorem draftBesideTuples_wellFormed : draftBesideTuples.WellFormed sampleEnv where
  nodup := by decide
  linear := by decide
  hidden := by decide

theorem windowsBesideFull_wellFormed : windowsBesideFull.WellFormed sampleEnv where
  nodup := by decide
  linear := by decide
  hidden := by decide

/-- The general path, with a hidden-state layer: the groups are a partition. -/
theorem getKvCacheGroups_grouped_windowsBesideFull :
    ∃ groups, getKvCacheGroups sampleEnv sampleConfig windowsBesideFull = .ok groups ∧
      groups.map KVCacheGroupSpec.layerNames =
        [["layers.0.attn"], ["layers.1.attn"], ["layers.2.attn"], ["hidden"]] ∧
      Grouped sampleEnv sampleConfig windowsBesideFull groups := by
  obtain ⟨groups, hgroups⟩ : ∃ groups,
      getKvCacheGroups sampleEnv sampleConfig windowsBesideFull = .ok groups := ⟨_, rfl⟩
  refine ⟨groups, hgroups, ?_, ?_⟩
  · cases hgroups
    rfl
  · apply (getKvCacheGroups_grouped_iff mergeEqual_keepsLayout windowsBesideFull_wellFormed
      (List.cons_ne_nil _ _) hgroups).mpr
    show ∀ p ∈ windowsBesideFull, FitsCommonPage sampleEnv 1024 p
    unfold FitsCommonPage
    decide

/-- Groups are returned, and the draft layer is in none of them. -/
theorem getKvCacheGroups_drops_draftLayer :
    draftBesideTuples.WellFormed sampleEnv ∧ MergeKeepsLayout sampleEnv ∧
      ∃ groups, getKvCacheGroups sampleEnv sampleConfig draftBesideTuples = .ok groups ∧
        "draft.0.attn" ∈ draftBesideTuples.names ∧
        (∀ group ∈ groups, "draft.0.attn" ∉ group.layerNames) ∧
        ¬ Grouped sampleEnv sampleConfig draftBesideTuples groups := by
  obtain ⟨groups, hgroups⟩ : ∃ groups,
      getKvCacheGroups sampleEnv sampleConfig draftBesideTuples = .ok groups := ⟨_, rfl⟩
  have hdraft : "draft.0.attn" ∈ draftBesideTuples.names := by decide
  have hnone : ∀ group ∈ groups, "draft.0.attn" ∉ group.layerNames := by
    cases hgroups
    decide
  refine ⟨draftBesideTuples_wellFormed, mergeEqual_keepsLayout, groups, hgroups, hdraft,
    hnone, ?_⟩
  intro hgrouped
  obtain ⟨group, hgroup, hmem⟩ :=
    List.mem_flatMap.mp (hgrouped.grouping.partition.symm.subset hdraft)
  exact hnone group hgroup hmem

end FlashNext.Ports.KvCache
