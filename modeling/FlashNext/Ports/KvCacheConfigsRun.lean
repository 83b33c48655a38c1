import FlashNext.Ports.KvCacheConfigs
import FlashNext.Ports.CsaLinearRank

/-!
# KV-cache planning: what a run of the planner has done

A run that returns has projected the groups onto every worker, has checked the
memory of every worker, and has planned every worker with the smallest number
of blocks.
-/

namespace FlashNext.Ports.KvCache

open FlashNext.Verified.Checked
open FlashNext.Verified.CheckedState

variable {env : Env} {cfg : VllmConfig}

/-! ## One projected group -/

/-- What projecting a group onto a worker keeps of its spec. -/
inductive ProjectedSpec (names : List String) : GroupSpec → GroupSpec → Prop where
  | single (spec : KVCacheSpec) : ProjectedSpec names (.single spec) (.single spec)
  | none (blockSize : Nat) (specs : SpecDict) (hnil : names = []) :
      ProjectedSpec names (.uniformType blockSize specs)
        (.uniformType blockSize specs)
  | some (blockSize : Nat) (specs owned : SpecDict) (hne : names ≠ [])
      (hnames : owned.names = names)
      (hget : ∀ p ∈ owned, specs.get p.1 = .ok p.2) :
      ProjectedSpec names (.uniformType blockSize specs)
        (.uniformType blockSize owned)

structure ProjectedGroup (workerSpec : SpecDict) (group projected : KVCacheGroupSpec) :
    Prop where
  names : projected.layerNames =
    group.layerNames.filter fun name => decide (name ∈ workerSpec.names)
  spec : ProjectedSpec projected.layerNames group.kvCacheSpec projected.kvCacheSpec
  eagle : projected.isEagleGroup =
    (group.isEagleGroup && decide (projected.layerNames ≠ []))

private theorem restrict_eq_ok {d owned : SpecDict} {names : List String}
    (h : d.restrict names = .ok owned) :
    owned.names = names ∧ ∀ p ∈ owned, d.get p.1 = .ok p.2 := by
  have hitems := forall₂_of_mapM h
  clear h
  induction hitems with
  | nil => exact ⟨rfl, fun p hp => (List.not_mem_nil hp).elim⟩
  | @cons name p names owned hname _ ih =>
      obtain ⟨spec, hspec, hpair⟩ := bind_eq_ok.mp hname
      cases hpair
      refine ⟨congrArg (List.cons name) ih.1, fun q hq => ?_⟩
      rcases List.mem_cons.mp hq with rfl | hrest
      · exact hspec
      · exact ih.2 q hrest

theorem projectGroup_eq_ok {workerSpec : SpecDict}
    {group projected : KVCacheGroupSpec}
    (h : projectGroup workerSpec group = .ok projected) :
    ProjectedGroup workerSpec group projected := by
  unfold projectGroup at h
  dsimp only at h
  cases hspec : group.kvCacheSpec with
  | single spec =>
      rw [hspec] at h
      cases h
      refine { names := rfl, spec := ?_, eagle := rfl }
      rw [hspec]
      exact .single spec
  | uniformType blockSize specs =>
      rw [hspec] at h
      dsimp only at h
      by_cases hnil : (group.layerNames.filter fun name =>
          decide (name ∈ workerSpec.names)) = []
      · rw [if_pos hnil] at h
        cases h
        refine { names := rfl, spec := ?_, eagle := rfl }
        rw [hspec]
        exact .none blockSize specs hnil
      · rw [if_neg hnil] at h
        obtain ⟨owned, howned, h⟩ := bind_eq_ok.mp h
        cases h
        obtain ⟨hnames, hget⟩ := restrict_eq_ok howned
        refine { names := rfl, spec := ?_, eagle := rfl }
        rw [hspec]
        exact .some blockSize specs owned hnil hnames hget

theorem projectKvCacheGroupsToWorker_eq_ok {workerSpec : SpecDict}
    {groups projected : List KVCacheGroupSpec}
    (h : projectKvCacheGroupsToWorker groups workerSpec = .ok projected) :
    List.Forall₂ (ProjectedGroup workerSpec) groups projected :=
  (forall₂_of_mapM h).imp fun _ _ => projectGroup_eq_ok

theorem projected_names {workerSpec : SpecDict}
    {groups projected : List KVCacheGroupSpec}
    (h : List.Forall₂ (ProjectedGroup workerSpec) groups projected) :
    projected.flatMap KVCacheGroupSpec.layerNames =
      (groups.flatMap KVCacheGroupSpec.layerNames).filter
        fun name => decide (name ∈ workerSpec.names) := by
  induction h with
  | nil => rfl
  | cons hgroup _ ih =>
      rw [List.flatMap_cons, List.flatMap_cons, List.filter_append, ih, hgroup.names]

/-! ## The number of blocks of a plan -/

theorem getKvCacheConfigCsaLinear_numBlocks {groups : List KVCacheGroupSpec}
    {availableMemory : Int} {layout : KVCacheLayout} {numBlocks : Nat}
    {tensors : List KVCacheTensor}
    (h : getKvCacheConfigCsaLinear env cfg groups availableMemory layout =
      .ok (some (numBlocks, tensors))) :
    ∃ bytesPerBlock, getKvCacheBytesPerBlock groups = .ok bytesPerBlock ∧
      numBlocks = mayOverrideNumBlocks cfg (blocksIn availableMemory bytesPerBlock) := by
  unfold getKvCacheConfigCsaLinear at h
  obtain ⟨csaLayout, -, h⟩ := bind_eq_ok.mp h
  cases csaLayout with
  | none => cases h
  | some csaLayout =>
      dsimp only at h
      obtain ⟨_, -, h⟩ := bind_eq_ok.mp h
      obtain ⟨largest, hlargest, h⟩ := bind_eq_ok.mp h
      obtain ⟨_, hsame, h⟩ := bind_eq_ok.mp h
      obtain ⟨_, -, h⟩ := bind_eq_ok.mp h
      obtain ⟨_, -, h⟩ := bind_eq_ok.mp h
      cases h
      have heq := require_eq_ok.mp hsame
      exact ⟨largest, hlargest, by rw [heq]⟩

/-- A plan has the blocks that fit into the memory, or those of the override. -/
theorem getKvCacheConfigFromGroups_numBlocks {groups : List KVCacheGroupSpec}
    {availableMemory : Int} {config : KVCacheConfig}
    (h : getKvCacheConfigFromGroups env cfg groups availableMemory = .ok config) :
    config.kvCacheGroups = groups ∧
      (groups = [] → config.numBlocks = 1 ∧ config.kvCacheTensors = []) ∧
      (groups ≠ [] → ∃ bytesPerBlock,
        getKvCacheBytesPerBlock groups = .ok bytesPerBlock ∧
          config.numBlocks =
            mayOverrideNumBlocks cfg (blocksIn availableMemory bytesPerBlock)) := by
  unfold getKvCacheConfigFromGroups at h
  by_cases hlen : groups.length = 0
  · rw [if_pos hlen] at h
    cases h
    exact ⟨rfl, fun _ => ⟨rfl, rfl⟩,
      fun hne => absurd (List.length_eq_zero_iff.mp hlen) hne⟩
  · rw [if_neg hlen] at h
    have hne : groups = [] → config.numBlocks = 1 ∧ config.kvCacheTensors = [] :=
      fun hnil => absurd (List.length_eq_zero_iff.mpr hnil) hlen
    dsimp only at h
    obtain ⟨_, -, h⟩ := bind_eq_ok.mp h
    obtain ⟨csa, hcsa, h⟩ := bind_eq_ok.mp h
    cases csa with
    | some plan =>
        obtain ⟨numBlocks, tensors⟩ := plan
        cases h
        exact ⟨rfl, hne, fun _ => getKvCacheConfigCsaLinear_numBlocks hcsa⟩
    | none =>
        obtain ⟨bytesPerBlock, hbytes, h⟩ := bind_eq_ok.mp h
        cases h
        exact ⟨rfl, hne, fun _ => ⟨bytesPerBlock, hbytes, rfl⟩⟩

theorem blocksIn_mul {bytesPerBlock : Nat} (hpos : 0 < bytesPerBlock) (n : Nat) :
    blocksIn ((n * bytesPerBlock : Nat) : Int) bytesPerBlock = n := by
  have hdiv : ((n * bytesPerBlock : Nat) : Int) / (bytesPerBlock : Int) = n := by
    rw [← Int.natCast_ediv, Nat.mul_div_cancel _ hpos]
  rw [blocksIn, hdiv, Int.toNat_natCast]

theorem getKvCacheBytesPerBlock_pos {groups : List KVCacheGroupSpec}
    {bytesPerBlock : Nat} (h : getKvCacheBytesPerBlock groups = .ok bytesPerBlock) :
    0 < bytesPerBlock := by
  unfold getKvCacheBytesPerBlock at h
  obtain ⟨_, -, h⟩ := bind_eq_ok.mp h
  obtain ⟨largest, -, h⟩ := bind_eq_ok.mp h
  obtain ⟨_, hpos, h⟩ := bind_eq_ok.mp h
  cases h
  exact require_eq_ok.mp hpos

/-! ## Checks keep the length -/

/-- The search puts `max_model_len` back on every exit. -/
theorem keeps_estimate (groups : List KVCacheGroupSpec) (availableMemory : Int) :
    Keeps (estimateMaxModelLenFromGroups env groups availableMemory) :=
  Keeps.bind keeps_get fun _ => keeps_restoring _

theorem keeps_checkWorker (worker : List KVCacheGroupSpec × Int) :
    Keeps (checkWorker env worker) := by
  unfold checkWorker
  by_cases hlen : worker.1.length = 0
  · rw [if_pos hlen]
    exact keeps_pure ()
  · rw [if_neg hlen]
    apply Keeps.bind (keeps_lift _)
    intro _
    apply Keeps.bind keeps_get
    intro maxModelLen
    apply Keeps.bind (keeps_lift _)
    intro needed
    by_cases hneeded : worker.2 < (needed : Int)
    · rw [if_pos hneeded]
      apply Keeps.bind (keeps_estimate _ _)
      exact fun _ => keeps_lift _
    · rw [if_neg hneeded]
      exact keeps_pure ()

/-! ## Runs -/

/-- What the planner computes for one worker on the way. -/
structure WorkerPlan where
  projected : List KVCacheGroupSpec
  planMemory : Int
  checkMemory : Int
  planned : KVCacheConfig

structure WorkerPlan.Of (plan : WorkerPlan) (env : Env) (cfg : VllmConfig)
    (groups : List KVCacheGroupSpec) (maxModelLen : Nat) (workerSpec : SpecDict)
    (availableMemory : Int) : Prop where
  projection : projectKvCacheGroupsToWorker groups workerSpec = .ok plan.projected
  memory : overriddenMemory cfg plan.projected availableMemory = .ok plan.planMemory
  usable : usableMemory plan.projected plan.planMemory = .ok plan.checkMemory
  checked : exec (checkWorker env (plan.projected, plan.checkMemory)) maxModelLen =
    (.ok (), maxModelLen)
  planning : planWorker env cfg plan.projected workerSpec plan.planMemory =
    .ok plan.planned

/-- A run of the planner that returned. -/
structure PlannerRun (env : Env) (cfg : VllmConfig)
    (getKvCacheGroups : SpecDict → Except PlanError (List KVCacheGroupSpec))
    (workers : List SpecDict) (availableMemory : List Int) (maxModelLen : Nat)
    (groups : List KVCacheGroupSpec) (minNumBlocks : Nat)
    (configs : List KVCacheConfig) : Prop where
  grouping : ∃ merged, mergeKvCacheSpecs workers = .ok merged ∧
    getKvCacheGroups merged = .ok groups
  length : configs.length = min workers.length availableMemory.length
  worker : ∀ {i : Nat} {config}, configs[i]? = some config →
    ∃ w mem, ∃ plan : WorkerPlan, workers[i]? = some w ∧
      availableMemory[i]? = some mem ∧ plan.Of env cfg groups maxModelLen w mem ∧
      minNumBlocks ≤ plan.planned.numBlocks ∧
      shrinkConfig env cfg minNumBlocks plan.planned = .ok config
  attained : ∃ w ∈ workers, ∃ mem, ∃ plan : WorkerPlan,
    plan.Of env cfg groups maxModelLen w mem ∧ plan.planned.numBlocks = minNumBlocks

/-- What the planner has worked out before it looks at the length: the groups of
every worker, the memory it plans with and the memory it checks. -/
structure Prepared (cfg : VllmConfig)
    (getKvCacheGroups : SpecDict → Except PlanError (List KVCacheGroupSpec))
    (workers : List SpecDict) (availableMemory : List Int)
    (projected : List (List KVCacheGroupSpec)) (planMemory checkMemory : List Int) :
    Prop where
  grouping : ∃ merged groups, mergeKvCacheSpecs workers = .ok merged ∧
    getKvCacheGroups merged = .ok groups ∧
    workers.mapM (projectKvCacheGroupsToWorker groups) = .ok projected
  plan : ((projected.zip availableMemory).mapM
    fun p => overriddenMemory cfg p.1 p.2) = .ok planMemory
  check : ((projected.zip planMemory).mapM
    fun p => usableMemory p.1 p.2) = .ok checkMemory

/-- From there on the planner fits the length, checks the workers and plans them. -/
theorem Prepared.exec_eq
    {getKvCacheGroups : SpecDict → Except PlanError (List KVCacheGroupSpec)}
    {workers : List SpecDict} {availableMemory planMemory checkMemory : List Int}
    {projected : List (List KVCacheGroupSpec)}
    (h : Prepared cfg getKvCacheGroups workers availableMemory projected planMemory
      checkMemory) (top : Nat) :
    exec (getKvCacheConfigs env cfg getKvCacheGroups workers availableMemory) top =
      exec (do
        fitMaxModelLen env cfg projected checkMemory
        forM (projected.zip checkMemory) (checkWorker env)
        lift (planWorkers env cfg projected workers planMemory)) top := by
  obtain ⟨merged, groups, hmerged, hgroups, hprojected⟩ := h.grouping
  unfold getKvCacheConfigs
  rw [hmerged, exec_bind_of_ok (exec_lift _ top), hgroups,
    exec_bind_of_ok (exec_lift _ top), hprojected, exec_bind_of_ok (exec_lift _ top),
    h.plan, exec_bind_of_ok (exec_lift _ top), h.check,
    exec_bind_of_ok (exec_lift _ top)]

private theorem minOf_eq_ok {sizes : List Nat} {smallest : Nat}
    (h : minOf sizes = .ok smallest) :
    smallest ∈ sizes ∧ ∀ s ∈ sizes, smallest ≤ s := by
  cases sizes with
  | nil => cases h
  | cons size sizes =>
      cases h
      induction sizes generalizing size with
      | nil => simp
      | cons s sizes ih =>
          obtain ⟨hmem, hle⟩ := ih (min size s)
          rw [List.foldl_cons]
          constructor
          · rcases List.mem_cons.mp hmem with heq | hrest
            · rw [heq]
              rcases Nat.le_total size s with hss | hss
              · rw [Nat.min_eq_left hss]
                exact List.mem_cons_self
              · rw [Nat.min_eq_right hss]
                exact List.mem_cons_of_mem _ List.mem_cons_self
            · exact List.mem_cons_of_mem _ (List.mem_cons_of_mem _ hrest)
          · intro x hx
            have hfirst := hle (min size s) List.mem_cons_self
            rcases List.mem_cons.mp hx with rfl | hx
            · exact hfirst.trans (Nat.min_le_left _ _)
            · rcases List.mem_cons.mp hx with rfl | hx
              · exact hfirst.trans (Nat.min_le_right _ _)
              · exact hle x (List.mem_cons_of_mem _ hx)

private theorem planWorkers_eq_ok {projected : List (List KVCacheGroupSpec)}
    {workers : List SpecDict} {memory : List Int} {configs : List KVCacheConfig}
    (h : planWorkers env cfg projected workers memory = .ok configs) :
    ∃ planned : List KVCacheConfig, ∃ minNumBlocks,
      List.Forall₂ (fun p config =>
        planWorker env cfg p.1 p.2.1 p.2.2 = .ok config)
        (projected.zip (workers.zip memory)) planned ∧
      minNumBlocks ∈ planned.map KVCacheConfig.numBlocks ∧
      (∀ config ∈ planned, minNumBlocks ≤ config.numBlocks) ∧
      List.Forall₂ (fun config config' =>
        shrinkConfig env cfg minNumBlocks config = .ok config') planned configs := by
  obtain ⟨planned, hplanned, h⟩ := bind_eq_ok.mp h
  obtain ⟨minNumBlocks, hmin, h⟩ := bind_eq_ok.mp h
  obtain ⟨hmem, hle⟩ := minOf_eq_ok hmin
  exact ⟨planned, minNumBlocks, forall₂_of_mapM hplanned, hmem,
    fun config hconfig => hle _ (List.mem_map_of_mem hconfig), forall₂_of_mapM h⟩

/-- The run of a planner that returns. -/
theorem getKvCacheConfigs_run
    {getKvCacheGroups : SpecDict → Except PlanError (List KVCacheGroupSpec)}
    {workers : List SpecDict} {availableMemory : List Int} {originalMax maxModelLen : Nat}
    {configs : List KVCacheConfig}
    (h : exec (getKvCacheConfigs env cfg getKvCacheGroups workers availableMemory)
      originalMax = (.ok configs, maxModelLen)) :
    ∃ groups minNumBlocks, PlannerRun env cfg getKvCacheGroups workers availableMemory
      maxModelLen groups minNumBlocks configs := by
  unfold getKvCacheConfigs at h
  obtain ⟨merged, hmerged, h⟩ := exec_lift_bind_eq_ok.mp h
  obtain ⟨groups, hgroups, h⟩ := exec_lift_bind_eq_ok.mp h
  obtain ⟨projected, hprojected, h⟩ := exec_lift_bind_eq_ok.mp h
  obtain ⟨planMemory, hplan, h⟩ := exec_lift_bind_eq_ok.mp h
  obtain ⟨checkMemory, hcheck, h⟩ := exec_lift_bind_eq_ok.mp h
  obtain ⟨_, fitted, -, h⟩ := exec_bind_eq_ok.mp h
  obtain ⟨_, s, hchecks, hplans⟩ := exec_bind_eq_ok.mp h
  obtain ⟨rfl, hchecked⟩ := forM_eq_ok keeps_checkWorker hchecks
  rw [exec_lift] at hplans
  obtain ⟨hworkers, rfl⟩ := Prod.mk.inj hplans
  obtain ⟨planned, minNumBlocks, hplanned, hmem, hle, hshrunk⟩ :=
    planWorkers_eq_ok hworkers
  have hprojected₂ := forall₂_of_mapM hprojected
  have hplan₂ := forall₂_of_mapM hplan
  have hcheck₂ := forall₂_of_mapM hcheck
  -- everything that belongs to the `i`-th worker
  have hof : ∀ {i : Nat} {config}, planned[i]? = some config →
      ∃ w mem, ∃ plan : WorkerPlan,
      workers[i]? = some w ∧ availableMemory[i]? = some mem ∧
        plan.Of env cfg groups s w mem ∧ plan.planned = config := by
    intro i config hconfig
    obtain ⟨⟨own, w, plan⟩, hp, hplanning⟩ := getElem?_of_forall₂ hplanned hconfig
    obtain ⟨hown, hpair⟩ := List.getElem?_zip_eq_some.mp hp
    obtain ⟨hw, hplanAt⟩ := List.getElem?_zip_eq_some.mp hpair
    obtain ⟨w', hw', hprojection⟩ := getElem?_of_forall₂ hprojected₂ hown
    obtain ⟨⟨own', mem⟩, hq, hoverridden⟩ := getElem?_of_forall₂ hplan₂ hplanAt
    obtain ⟨hown', hmem⟩ := List.getElem?_zip_eq_some.mp hq
    have hsameWorker : w = w' := Option.some.inj (hw.symm.trans hw')
    have hsameGroups : own = own' := Option.some.inj (hown.symm.trans hown')
    subst hsameWorker hsameGroups
    have hpaired : (projected.zip planMemory)[i]? = some (own, plan) :=
      List.getElem?_zip_eq_some.mpr ⟨hown, hplanAt⟩
    obtain ⟨check, hcheckAt, husable⟩ := getElem?_of_forall₂_left hcheck₂ hpaired
    have hchecked' := hchecked (own, check) (List.mem_of_getElem?
      (List.getElem?_zip_eq_some.mpr ⟨hown, hcheckAt⟩))
    exact ⟨w, mem, ⟨own, plan, check, config⟩, hw, hmem,
      ⟨hprojection, hoverridden, husable, hchecked', hplanning⟩, rfl⟩
  refine ⟨groups, minNumBlocks, ?_⟩
  refine
    { grouping := ⟨merged, hmerged, hgroups⟩, length := ?_, worker := ?_
      attained := ?_ }
  · have hlens : planMemory.length = min projected.length availableMemory.length := by
      rw [← hplan₂.length_eq, List.length_zip]
    rw [← hshrunk.length_eq, ← hplanned.length_eq, List.length_zip, List.length_zip,
      hlens, ← hprojected₂.length_eq]
    omega
  · intro i config hconfig
    obtain ⟨first, hfirst, hshrink⟩ := getElem?_of_forall₂ hshrunk hconfig
    obtain ⟨w, mem, plan, hw, hmemAt, hplanOf, rfl⟩ := hof hfirst
    exact ⟨w, mem, plan, hw, hmemAt, hplanOf,
      hle _ (List.mem_of_getElem? hfirst), hshrink⟩
  · obtain ⟨config, hconfig, hnum⟩ := List.mem_map.mp hmem
    obtain ⟨i, hi⟩ := List.getElem?_of_mem hconfig
    obtain ⟨w, mem, plan, hw, -, hplanOf, rfl⟩ := hof hi
    exact ⟨w, List.mem_of_getElem? hw, mem, plan, hplanOf, hnum⟩

/-! ## The common number of blocks -/

section Plans

/-- The groups of the run are those of the merged specs. -/
theorem getKvCacheConfigs_run_of {groups : List KVCacheGroupSpec} {merged : SpecDict}
    {getKvCacheGroups : SpecDict → Except PlanError (List KVCacheGroupSpec)}
    {workers : List SpecDict} {availableMemory : List Int} {originalMax maxModelLen : Nat}
    {configs : List KVCacheConfig} (hmerged : mergeKvCacheSpecs workers = .ok merged)
    (hgroups : getKvCacheGroups merged = .ok groups)
    (h : exec (getKvCacheConfigs env cfg getKvCacheGroups workers availableMemory)
      originalMax = (.ok configs, maxModelLen)) :
    ∃ minNumBlocks, PlannerRun env cfg getKvCacheGroups workers availableMemory
      maxModelLen groups minNumBlocks configs := by
  obtain ⟨groups', minNumBlocks, hrun⟩ := getKvCacheConfigs_run h
  obtain ⟨merged', hmerged', hgroups'⟩ := hrun.grouping
  rw [hmerged] at hmerged'
  cases hmerged'
  rw [hgroups] at hgroups'
  cases hgroups'
  exact ⟨minNumBlocks, hrun⟩

variable {groups : List KVCacheGroupSpec} {maxModelLen minNumBlocks : Nat}
  {w : SpecDict} {mem : Int} {plan : WorkerPlan}

theorem WorkerPlan.Of.forall₂ (h : plan.Of env cfg groups maxModelLen w mem) :
    List.Forall₂ (ProjectedGroup w) groups plan.projected :=
  projectKvCacheGroupsToWorker_eq_ok h.projection

theorem WorkerPlan.Of.projected_ne_nil (h : plan.Of env cfg groups maxModelLen w mem) :
    plan.projected ≠ [] ↔ groups ≠ [] := by
  have hlen := h.forall₂.length_eq
  rw [← List.length_pos_iff, ← List.length_pos_iff, hlen]

theorem WorkerPlan.Of.layers (h : plan.Of env cfg groups maxModelLen w mem) :
    (plan.projected.map fun group => group.layerNames.length).sum = w.length := by
  obtain ⟨_, hsum, -⟩ := bind_eq_ok.mp h.planning
  exact require_eq_ok.mp hsum

theorem WorkerPlan.Of.fromGroups (h : plan.Of env cfg groups maxModelLen w mem) :
    getKvCacheConfigFromGroups env cfg plan.projected plan.planMemory =
      .ok plan.planned := by
  obtain ⟨_, -, hconfig⟩ := bind_eq_ok.mp h.planning
  exact hconfig

/-- A worker's own number of blocks. -/
theorem WorkerPlan.Of.numBlocks (h : plan.Of env cfg groups maxModelLen w mem)
    (hne : groups ≠ []) : ∃ bytesPerBlock,
      getKvCacheBytesPerBlock plan.projected = .ok bytesPerBlock ∧
        plan.planned.numBlocks =
          mayOverrideNumBlocks cfg (blocksIn plan.planMemory bytesPerBlock) :=
  (getKvCacheConfigFromGroups_numBlocks h.fromGroups).2.2 (h.projected_ne_nil.mpr hne)

theorem WorkerPlan.Of.numBlocks_of_nil
    (h : plan.Of env cfg groups maxModelLen w mem) (hnil : groups = []) :
    plan.planned.numBlocks = 1 := by
  have hproj : plan.projected = [] := by
    by_contra hne
    exact h.projected_ne_nil.mp hne hnil
  exact ((getKvCacheConfigFromGroups_numBlocks h.fromGroups).2.1 hproj).1

variable {getKvCacheGroups : SpecDict → Except PlanError (List KVCacheGroupSpec)}
  {workers : List SpecDict} {availableMemory : List Int}
  {configs : List KVCacheConfig}

/-- An override is everybody's number of blocks. -/
theorem PlannerRun.override (h : PlannerRun env cfg getKvCacheGroups workers
      availableMemory maxModelLen groups minNumBlocks configs)
    (hne : groups ≠ []) {numBlocks : Nat}
    (hoverride : cfg.numGpuBlocksOverride = some numBlocks) :
    minNumBlocks = numBlocks := by
  obtain ⟨w, -, mem, plan, hof, hnum⟩ := h.attained
  obtain ⟨bytesPerBlock, -, hblocks⟩ := hof.numBlocks hne
  rw [← hnum, hblocks, mayOverrideNumBlocks, hoverride]
  rfl

theorem PlannerRun.of_nil (h : PlannerRun env cfg getKvCacheGroups workers
      availableMemory maxModelLen groups minNumBlocks configs)
    (hnil : groups = []) : minNumBlocks = 1 := by
  obtain ⟨w, -, mem, plan, hof, hnum⟩ := h.attained
  rw [← hnum]
  exact hof.numBlocks_of_nil hnil

/-- Every worker ends with a plan of its groups and the common number of blocks. -/
theorem PlannerRun.config (h : PlannerRun env cfg getKvCacheGroups workers
      availableMemory maxModelLen groups minNumBlocks configs)
    {i : Nat} {config : KVCacheConfig} (hi : configs[i]? = some config) :
    ∃ w mem, ∃ plan : WorkerPlan, ∃ memory, workers[i]? = some w ∧
      availableMemory[i]? = some mem ∧ plan.Of env cfg groups maxModelLen w mem ∧
      getKvCacheConfigFromGroups env cfg plan.projected memory = .ok config ∧
      config.kvCacheGroups = plan.projected ∧ config.numBlocks = minNumBlocks ∧
      minNumBlocks ≤ plan.planned.numBlocks := by
  obtain ⟨w, mem, plan, hw, hmem, hof, hle, hshrink⟩ := h.worker hi
  have hgroups := (getKvCacheConfigFromGroups_numBlocks hof.fromGroups).1
  unfold shrinkConfig at hshrink
  by_cases hsame : plan.planned.numBlocks = minNumBlocks
  · rw [if_pos hsame] at hshrink
    cases hshrink
    exact ⟨w, mem, plan, plan.planMemory, hw, hmem, hof, hof.fromGroups, hgroups,
      hsame, hle⟩
  · rw [if_neg hsame, hgroups] at hshrink
    obtain ⟨bytesPerBlock, hbytes, hconfig⟩ := bind_eq_ok.mp hshrink
    have hne : groups ≠ [] := by
      intro hnil
      rw [hof.numBlocks_of_nil hnil, h.of_nil hnil] at hsame
      exact hsame rfl
    obtain ⟨hgroups', -, hblocks⟩ := getKvCacheConfigFromGroups_numBlocks hconfig
    obtain ⟨bytesPerBlock', hbytes', hnum⟩ := hblocks (hof.projected_ne_nil.mpr hne)
    obtain ⟨bytesPerBlock₀, hbytes₀, hnum₀⟩ := hof.numBlocks hne
    rw [hbytes] at hbytes' hbytes₀
    cases hbytes'
    cases hbytes₀
    refine ⟨w, mem, plan, _, hw, hmem, hof, hconfig, hgroups', ?_, hle⟩
    cases hoverride : cfg.numGpuBlocksOverride with
    | some numBlocks =>
        rw [mayOverrideNumBlocks, hoverride] at hnum₀
        rw [h.override hne hoverride] at hsame
        exact absurd hnum₀ hsame
    | none =>
        rw [hnum, mayOverrideNumBlocks, hoverride]
        exact blocksIn_mul (getKvCacheBytesPerBlock_pos hbytes) minNumBlocks

end Plans

end FlashNext.Ports.KvCache
