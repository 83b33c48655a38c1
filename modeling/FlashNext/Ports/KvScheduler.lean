import FlashNext.Ports.KvAdmission

/-!
# KV-cache planning: what the scheduler sees

The scheduler takes the configuration of the first worker.  Workers agree on
everything it reads but the eagle flag, which projection clears where a worker
owns no layer of the group.
-/

namespace FlashNext.Ports.KvCache

open FlashNext.Verified.Checked
open FlashNext.Verified.CheckedState

variable {env : Env} {cfg : VllmConfig} {groups : List KVCacheGroupSpec}

/-! ## The configuration of the scheduler -/

/-- One turn of the loop that picks an arbitrary layer of a uniform group. -/
def schedulerGroup (group : KVCacheGroupSpec) : Except PlanError KVCacheGroupSpec :=
  match group.kvCacheSpec with
  | .single _ => .ok group
  | .uniformType _ [] => .error .stopIteration
  | .uniformType _ ((_, spec) :: _) => .ok { group with kvCacheSpec := .single spec }

/-- `generate_scheduler_kv_cache_config`. -/
def generateSchedulerKvCacheConfig (kvCacheConfigs : List KVCacheConfig) :
    Except PlanError KVCacheConfig := do
  match kvCacheConfigs with
  | [] => .error .indexError
  | first :: rest =>
      require (∀ config ∈ first :: rest, config.numBlocks = first.numBlocks) .assertion
      let kvCacheGroups ← first.kvCacheGroups.mapM schedulerGroup
      return { first with kvCacheGroups := kvCacheGroups }

/-! ## Views -/

/-- What the scheduler reads of a group. -/
structure GroupView where
  blockSize : Nat
  pages : Except PlanError Nat
  isEagleGroup : Bool

def GroupSpec.blockSize : GroupSpec → Nat
  | .single spec => spec.blockSize
  | .uniformType blockSize _ => blockSize

def groupView (env : Env) (maxModelLen : Nat) (group : KVCacheGroupSpec) : GroupView where
  blockSize := group.kvCacheSpec.blockSize
  pages := groupBlocks env maxModelLen group
  isEagleGroup := group.isEagleGroup

/-- Whichever configuration is put first, the scheduler sees the global groups. -/
def SameView (env : Env) (maxModelLen numBlocks : Nat) (groups : List KVCacheGroupSpec)
    (configs : List KVCacheConfig) : Prop :=
  ∀ first rest, (first :: rest).Perm configs →
    ∃ config, generateSchedulerKvCacheConfig (first :: rest) = .ok config ∧
      config.numBlocks = numBlocks ∧
      config.kvCacheGroups.map (groupView env maxModelLen) =
        groups.map (groupView env maxModelLen)

/-- Uniform groups hold layers of one block size that need equal page counts. -/
structure UniformOk (env : Env) (groups : List KVCacheGroupSpec) : Prop where
  pages : EqualPages env groups
  blockSize : ∀ group ∈ groups, ∀ blockSize specs,
    group.kvCacheSpec = .uniformType blockSize specs →
    ∀ p ∈ specs, p.2.blockSize = blockSize

/-- Every worker owns a layer of every eagle group. -/
def EagleOwned (groups : List KVCacheGroupSpec) (workers : List SpecDict) : Prop :=
  ∀ group ∈ groups, group.isEagleGroup = true → ∀ w ∈ workers,
    ∃ name ∈ group.layerNames, name ∈ w.names

/-! ## One group -/

section Group

variable {w : SpecDict} {group projected : KVCacheGroupSpec}

theorem mem_of_get {d : SpecDict} {name : String} {spec : KVCacheSpec}
    (h : d.get name = .ok spec) : (name, spec) ∈ d := by
  unfold SpecDict.get at h
  split at h
  · next found hfound =>
      cases h
      exact mem_of_lookup hfound
  · cases h

/-- The scheduler's version of a projected group has the block size and the
pages of the global group. -/
theorem ProjectedGroup.schedulerGroup_eq (hpages : PagesOfLayers env)
    (huniform : UniformOk env groups) (hmem : group ∈ groups)
    (h : ProjectedGroup w group projected) (maxModelLen : Nat) :
    ∃ seen, schedulerGroup projected = .ok seen ∧
      groupView env maxModelLen seen =
        { groupView env maxModelLen group with
          isEagleGroup := projected.isEagleGroup } := by
  have hsame := h.groupBlocks_eq hpages (huniform.pages group hmem) maxModelLen
  have hspec := h.spec
  generalize hglobal : group.kvCacheSpec = global at hspec
  generalize hlocal : projected.kvCacheSpec = owned at hspec
  -- a uniform group shows its first layer
  have hfirst : ∀ (blockSize : Nat) (specs : SpecDict) (p : String × KVCacheSpec)
      (rest : SpecDict), projected.kvCacheSpec = .uniformType blockSize (p :: rest) →
      group.kvCacheSpec = .uniformType blockSize specs → p ∈ specs →
      ∃ seen, schedulerGroup projected = .ok seen ∧
        groupView env maxModelLen seen =
          { groupView env maxModelLen group with
            isEagleGroup := projected.isEagleGroup } := by
    intro blockSize specs p rest hlocal hglobal hp
    obtain ⟨hspecs, hlayers⟩ := huniform.pages group hmem blockSize specs hglobal
    obtain ⟨r, hr⟩ := hlayers maxModelLen
    have hblockSize := huniform.blockSize group hmem blockSize specs hglobal p hp
    have hglobalPages : groupBlocks env maxModelLen group = r :=
      (groupBlocks_congr maxModelLen hglobal).trans
        (hpages blockSize specs maxModelLen r hspecs hr)
    obtain ⟨name, spec⟩ := p
    refine ⟨{ projected with kvCacheSpec := .single spec }, ?_, ?_⟩
    · rw [schedulerGroup, hlocal]
    · have hown : groupBlocks env maxModelLen
          { projected with kvCacheSpec := .single spec } = r :=
        (groupBlocks_congr maxModelLen rfl).trans (hr (name, spec) hp)
      unfold groupView
      rw [hown, hglobalPages, hglobal]
      show GroupView.mk spec.blockSize r _ = _
      rw [show spec.blockSize = blockSize from hblockSize]
      rfl
  cases hspec with
  | single spec =>
      refine ⟨projected, by rw [schedulerGroup, hlocal], ?_⟩
      unfold groupView
      rw [hsame, hlocal, hglobal]
  | none blockSize specs hnil =>
      obtain ⟨hspecs, -⟩ := huniform.pages group hmem blockSize specs hglobal
      obtain ⟨p, rest, rfl⟩ := List.exists_cons_of_ne_nil hspecs
      exact hfirst blockSize _ p rest hlocal hglobal List.mem_cons_self
  | some blockSize specs owned hne hnames hget =>
      have howned : owned ≠ [] := by
        rintro rfl
        exact hne hnames.symm
      obtain ⟨p, rest, rfl⟩ := List.exists_cons_of_ne_nil howned
      exact hfirst blockSize specs p rest hlocal hglobal
        (mem_of_get (hget p List.mem_cons_self))

theorem ProjectedGroup.eagle_iff (h : ProjectedGroup w group projected) :
    projected.isEagleGroup = group.isEagleGroup ↔
      (group.isEagleGroup = true → ∃ name ∈ group.layerNames, name ∈ w.names) := by
  have howns : projected.layerNames ≠ [] ↔
      ∃ name ∈ group.layerNames, name ∈ w.names := by
    rw [h.names]
    constructor
    · intro hne
      obtain ⟨name, hname⟩ := List.exists_mem_of_ne_nil _ hne
      obtain ⟨hmem, hown⟩ := List.mem_filter.mp hname
      exact ⟨name, hmem, of_decide_eq_true hown⟩
    · rintro ⟨name, hmem, hown⟩
      exact List.ne_nil_of_mem (List.mem_filter.mpr ⟨hmem, decide_eq_true hown⟩)
  rw [h.eagle, ← howns]
  cases group.isEagleGroup with
  | false => simp
  | true => simp

end Group

/-! ## All groups of a worker -/

/-- The scheduler's groups are the global ones exactly when the worker owns a
layer of every eagle group. -/
theorem schedulerGroups_iff (hpages : PagesOfLayers env)
    (huniform : UniformOk env groups) {w : SpecDict}
    {projected : List KVCacheGroupSpec}
    (h : List.Forall₂ (ProjectedGroup w) groups projected) (maxModelLen : Nat) :
    ∃ seen, projected.mapM schedulerGroup = .ok seen ∧
      (seen.map (groupView env maxModelLen) = groups.map (groupView env maxModelLen) ↔
        ∀ group ∈ groups, group.isEagleGroup = true →
          ∃ name ∈ group.layerNames, name ∈ w.names) := by
  induction h with
  | nil =>
      refine ⟨[], rfl, iff_of_true rfl fun group hgroup => ?_⟩
      exact (List.not_mem_nil hgroup).elim
  | @cons group first groups rest hgroup _ ih =>
      have hrest : UniformOk env groups :=
        { pages := fun g hg => huniform.pages g (List.mem_cons_of_mem _ hg)
          blockSize := fun g hg => huniform.blockSize g (List.mem_cons_of_mem _ hg) }
      obtain ⟨seen, hseen, hiff⟩ := ih hrest
      obtain ⟨shown, hshown, hview⟩ :=
        hgroup.schedulerGroup_eq hpages huniform List.mem_cons_self maxModelLen
      have hflag : groupView env maxModelLen shown = groupView env maxModelLen group ↔
          first.isEagleGroup = group.isEagleGroup := by
        rw [hview]
        constructor
        · exact fun heq => congrArg GroupView.isEagleGroup heq
        · intro heq
          rw [heq]
          rfl
      refine ⟨shown :: seen, ?_, ?_⟩
      · rw [List.mapM_cons, hshown, hseen]
        rfl
      · rw [List.map_cons, List.map_cons, List.cons_eq_cons, hflag, hgroup.eagle_iff,
          hiff, List.forall_mem_cons]

/-! ## All workers -/

section Run

variable {getKvCacheGroups : SpecDict → Except PlanError (List KVCacheGroupSpec)}
  {workers : List SpecDict} {availableMemory : List Int}
  {maxModelLen minNumBlocks : Nat} {configs : List KVCacheConfig}

/-- What the scheduler makes of the configuration of the `i`-th worker. -/
theorem PlannerRun.scheduler (hpages : PagesOfLayers env)
    (huniform : UniformOk env groups)
    (h : PlannerRun env cfg getKvCacheGroups workers availableMemory maxModelLen
      groups minNumBlocks configs)
    {i : Nat} {first : KVCacheConfig} (hi : configs[i]? = some first)
    {rest : List KVCacheConfig} (hperm : (first :: rest).Perm configs) :
    ∃ w config, workers[i]? = some w ∧
      generateSchedulerKvCacheConfig (first :: rest) = .ok config ∧
      config.numBlocks = minNumBlocks ∧
      (config.kvCacheGroups.map (groupView env maxModelLen) =
          groups.map (groupView env maxModelLen) ↔
        ∀ group ∈ groups, group.isEagleGroup = true →
          ∃ name ∈ group.layerNames, name ∈ w.names) := by
  have hnums : ∀ config ∈ configs, config.numBlocks = minNumBlocks := by
    intro config hconfig
    obtain ⟨j, hj⟩ := List.getElem?_of_mem hconfig
    obtain ⟨_, _, _, _, -, -, -, -, -, hnum, -⟩ := h.config hj
    exact hnum
  have hfirst := hnums first (List.mem_of_getElem? hi)
  obtain ⟨w, mem, plan, memory, hw, -, hof, -, hkept, -, -⟩ := h.config hi
  obtain ⟨seen, hseen, hiff⟩ :=
    schedulerGroups_iff hpages huniform hof.forall₂ maxModelLen
  refine ⟨w, { first with kvCacheGroups := seen }, hw, ?_, hfirst, hiff⟩
  have hsame : ∀ config ∈ first :: rest, config.numBlocks = first.numBlocks := by
    intro config hconfig
    rw [hnums config (hperm.mem_iff.mp hconfig), hfirst]
  rw [generateSchedulerKvCacheConfig, require_ok hsame, ok_bind, hkept, hseen]
  rfl

/-- The scheduler's view is that of the global groups, whichever configuration
is put first, exactly when every worker owns a layer of every eagle group. -/
theorem scheduler_view_iff {merged : SpecDict} {originalMax : Nat}
    (hpages : PagesOfLayers env) (huniform : UniformOk env groups)
    (hmerged : mergeKvCacheSpecs workers = .ok merged)
    (hgroups : getKvCacheGroups merged = .ok groups)
    (hreturn : exec (getKvCacheConfigs env cfg getKvCacheGroups workers
      availableMemory) originalMax = (.ok configs, maxModelLen)) :
    ∃ numBlocks, (∀ config ∈ configs, config.numBlocks = numBlocks) ∧
      (SameView env maxModelLen numBlocks groups configs ↔
        EagleOwned groups (workers.take availableMemory.length)) := by
  obtain ⟨minNumBlocks, hrun⟩ := getKvCacheConfigs_run_of hmerged hgroups hreturn
  refine ⟨minNumBlocks, ?_, ?_, ?_⟩
  · intro config hconfig
    obtain ⟨i, hi⟩ := List.getElem?_of_mem hconfig
    obtain ⟨_, _, _, _, -, -, -, -, -, hnum, -⟩ := hrun.config hi
    exact hnum
  · intro hview group hgroup heagle w hw
    obtain ⟨i, hi⟩ := List.getElem?_of_mem hw
    rw [List.getElem?_take] at hi
    have hlt : i < availableMemory.length := by
      by_contra hge
      rw [if_neg hge] at hi
      cases hi
    rw [if_pos hlt] at hi
    obtain ⟨hworker, -⟩ := List.getElem?_eq_some_iff.mp hi
    have hconfig : i < configs.length := by
      rw [hrun.length]
      exact Nat.lt_min.mpr ⟨hworker, hlt⟩
    have hperm := List.getElem_cons_eraseIdx_perm hconfig
    obtain ⟨w', config, hw', hgenerate, -, hiff⟩ := hrun.scheduler hpages huniform
      (List.getElem?_eq_getElem hconfig) hperm
    obtain ⟨config', hgenerate', -, hmap⟩ := hview _ _ hperm
    rw [hgenerate] at hgenerate'
    cases hgenerate'
    rw [hi] at hw'
    cases hw'
    exact hiff.mp hmap group hgroup heagle
  · intro howned first rest hperm
    obtain ⟨i, hi⟩ := List.getElem?_of_mem (hperm.mem_iff.mp List.mem_cons_self)
    obtain ⟨hconfig, -⟩ := List.getElem?_eq_some_iff.mp hi
    obtain ⟨w, config, hw, hgenerate, hnum, hiff⟩ :=
      hrun.scheduler hpages huniform hi hperm
    refine ⟨config, hgenerate, hnum, hiff.mpr fun group hgroup heagle => ?_⟩
    apply howned group hgroup heagle w
    rw [hrun.length] at hconfig
    apply List.mem_of_getElem? (i := i)
    rw [List.getElem?_take, if_pos (Nat.lt_of_lt_of_le hconfig (Nat.min_le_right _ _))]
    exact hw

end Run

/-! A draft layer on the second of two workers: its group is an eagle group, and
the first worker owns no layer of it. -/

def draftSpec (type : SpecType) : KVCacheSpec :=
  { twoWorkersSpec 64 with type := type }

def draftWorkers : List SpecDict :=
  [[("0.mamba", draftSpec .mamba)],
   [("1.mamba", draftSpec .mamba), ("2.draft", draftSpec .mlaAttention)]]

def draftGroups : List KVCacheGroupSpec :=
  [⟨["0.mamba"], .single (draftSpec .mamba), false⟩,
   ⟨["1.mamba"], .single (draftSpec .mamba), false⟩,
   ⟨["2.draft"], .single (draftSpec .mlaAttention), true⟩]

theorem draft_uniformOk : UniformOk twoWorkersEnv draftGroups := by
  have hsingle : ∀ group ∈ draftGroups, ∀ blockSize specs,
      group.kvCacheSpec ≠ .uniformType blockSize specs := by
    intro group hgroup blockSize specs hspec
    rcases List.mem_cons.mp hgroup with rfl | hgroup
    · cases hspec
    · rcases List.mem_cons.mp hgroup with rfl | hgroup
      · cases hspec
      · rw [List.mem_singleton.mp hgroup] at hspec
        cases hspec
  exact
    { pages := fun group hgroup blockSize specs hspec =>
        absurd hspec (hsingle group hgroup blockSize specs)
      blockSize := fun group hgroup blockSize specs hspec =>
        absurd hspec (hsingle group hgroup blockSize specs) }

theorem draft_not_sameView :
    PagesOfLayers twoWorkersEnv ∧ UniformOk twoWorkersEnv draftGroups ∧
      ∃ configs, exec (getKvCacheConfigs twoWorkersEnv twoWorkersConfig
          (fun _ => .ok draftGroups) draftWorkers [1000, 1000]) 32 =
            (.ok configs, 32) ∧
        ∀ numBlocks, ¬ SameView twoWorkersEnv 32 numBlocks draftGroups configs := by
  refine ⟨twoWorkers_pagesOfLayers, draft_uniformOk, _, rfl, fun numBlocks hview => ?_⟩
  obtain ⟨config, hconfig, -, hgroups⟩ := hview _ _ (List.Perm.refl _)
  cases hconfig
  have hflags := congrArg (List.map GroupView.isEagleGroup) hgroups
  revert hflags
  decide

theorem scheduler_view_iff_draft :
    ∃ configs numBlocks, exec (getKvCacheConfigs twoWorkersEnv twoWorkersConfig
        (fun _ => .ok draftGroups) draftWorkers [1000, 1000]) 32 = (.ok configs, 32) ∧
      (SameView twoWorkersEnv 32 numBlocks draftGroups configs ↔
        EagleOwned draftGroups draftWorkers) := by
  obtain ⟨configs, hreturn⟩ : ∃ configs, exec (getKvCacheConfigs twoWorkersEnv
      twoWorkersConfig (fun _ => .ok draftGroups) draftWorkers [1000, 1000]) 32 =
        (.ok configs, 32) := ⟨_, rfl⟩
  have hmerged : mergeKvCacheSpecs draftWorkers = .ok draftWorkers.flatten := by rfl
  obtain ⟨numBlocks, -, hiff⟩ := scheduler_view_iff twoWorkers_pagesOfLayers
    draft_uniformOk hmerged rfl hreturn
  exact ⟨configs, numBlocks, hreturn, hiff⟩

end FlashNext.Ports.KvCache
