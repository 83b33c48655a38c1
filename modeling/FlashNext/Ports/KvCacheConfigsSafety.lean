import FlashNext.Ports.KvCacheConfigsRun
import FlashNext.Ports.KvCacheWorker

/-!
# KV-cache planning: every worker is laid out safely

For groups that are not those of a CSA-linear model.
-/

namespace FlashNext.Ports.KvCache

open FlashNext.Verified.Checked
open FlashNext.Verified.CheckedState

variable {env : Env} {cfg : VllmConfig} {groups : List KVCacheGroupSpec}
  {w : SpecDict} {mem : Int} {maxModelLen minNumBlocks : Nat}

/-! ## The groups of a worker -/

theorem ProjectedGroup.exact {group projected : KVCacheGroupSpec}
    (h : ProjectedGroup w group projected) : projected.Exact := by
  intro blockSize specs hspec hne
  have hkept := h.spec
  rw [hspec] at hkept
  generalize group.kvCacheSpec = global at hkept
  cases hkept with
  | none _ _ hnil => exact absurd hnil hne
  | some _ _ _ _ hnames _ => exact hnames

/-- The projected groups share out the layers of the worker. -/
theorem WorkerPlan.Of.groupsOf {plan : WorkerPlan}
    (h : plan.Of env cfg groups maxModelLen w mem)
    (hnodup : (groups.flatMap KVCacheGroupSpec.layerNames).Nodup)
    (hw : w.names.Nodup) : GroupsOf w plan.projected := by
  have hnames := projected_names h.forall₂
  have hlayers := h.layers
  refine { exact := ?_, names := ?_, nodup := hw }
  · intro group hgroup
    obtain ⟨global, -, hproj⟩ := exists_of_forall₂ h.forall₂ hgroup
    exact hproj.exact
  · have hsub : plan.projected.flatMap KVCacheGroupSpec.layerNames ⊆ w.names := by
      rw [hnames]
      intro name hname
      exact of_decide_eq_true (List.mem_filter.mp hname).2
    have hprojNodup :
        (plan.projected.flatMap KVCacheGroupSpec.layerNames).Nodup := by
      rw [hnames]
      exact hnodup.filter _
    have hlen : w.names.length ≤
        (plan.projected.flatMap KVCacheGroupSpec.layerNames).length := by
      rw [List.length_flatMap, hlayers, SpecDict.names, List.length_map]
    exact (List.subperm_of_subset hprojNodup hsub).perm_of_length_le hlen

/-! ## The plan of a worker -/

/-- No worker's share looks like that of a CSA-linear model. -/
def NotCsaLinear (groups : List KVCacheGroupSpec) (workers : List SpecDict) : Prop :=
  ∀ w ∈ workers, ∀ projected, projectKvCacheGroupsToWorker groups w = .ok projected →
    ∀ layout, getCsaLinearTensorLayout projected ≠ .ok (some layout)

theorem getKvCacheConfigFromGroups_generic {projected : List KVCacheGroupSpec}
    {memory : Int} {config : KVCacheConfig} (hne : projected ≠ [])
    (hshape : ∀ layout, getCsaLinearTensorLayout projected ≠ .ok (some layout))
    (h : getKvCacheConfigFromGroups env cfg projected memory = .ok config) :
    ∃ bytesPerBlock, validateKvCacheLayout cfg.kvCacheLayout projected = .ok () ∧
      getKvCacheBytesPerBlock projected = .ok bytesPerBlock ∧
      config.kvCacheTensors =
        workerTensors env cfg.kvCacheLayout bytesPerBlock config.numBlocks
          projected := by
  unfold getKvCacheConfigFromGroups at h
  rw [if_neg fun hlen => hne (List.length_eq_zero_iff.mp hlen)] at h
  dsimp only at h
  obtain ⟨_, hvalid, h⟩ := bind_eq_ok.mp h
  obtain ⟨csa, hcsa, h⟩ := bind_eq_ok.mp h
  cases csa with
  | some plan =>
      unfold getKvCacheConfigCsaLinear at hcsa
      obtain ⟨csaLayout, hlayout, hcsa⟩ := bind_eq_ok.mp hcsa
      cases csaLayout with
      | none => cases hcsa
      | some csaLayout => exact absurd hlayout (hshape csaLayout)
  | none =>
      obtain ⟨bytesPerBlock, hbytes, h⟩ := bind_eq_ok.mp h
      cases h
      exact ⟨bytesPerBlock, hvalid, hbytes, rfl⟩

theorem workerTensors_size {layout : KVCacheLayout} {bytesPerBlock numBlocks : Nat}
    {projected : List KVCacheGroupSpec} :
    ∀ t ∈ workerTensors env layout bytesPerBlock numBlocks projected,
      t.size = bytesPerBlock * numBlocks := by
  have hchunks : ∀ (size start : Nat) (stride : Option Nat)
      (chunks : List (KVCacheSpec × List String)),
      ∀ t ∈ groupTensors env layout numBlocks size stride start chunks,
        t.size = size := by
    intro size start stride chunks
    induction chunks generalizing start with
    | nil => exact fun t ht => (List.not_mem_nil ht).elim
    | cons chunk chunks ih =>
        intro t ht
        rcases List.mem_cons.mp ht with rfl | hrest
        · rfl
        · exact ih _ t hrest
  intro t ht
  obtain ⟨group, -, hgroup⟩ := List.mem_flatMap.mp ht
  exact hchunks _ _ _ _ t hgroup

/-- Without an override the store fits into the memory of the worker. -/
theorem WorkerPlan.Of.size_le {plan : WorkerPlan} {bytesPerBlock : Nat}
    (h : plan.Of env cfg groups maxModelLen w mem) (hne : groups ≠ [])
    (hoverride : cfg.numGpuBlocksOverride = none)
    (hbytes : getKvCacheBytesPerBlock plan.projected = .ok bytesPerBlock)
    (hle : minNumBlocks ≤ plan.planned.numBlocks) :
    ((bytesPerBlock * minNumBlocks : Nat) : Int) ≤ mem := by
  have hproj := h.projected_ne_nil.mpr hne
  have hlen : ¬ plan.projected.length = 0 :=
    fun heq => hproj (List.length_eq_zero_iff.mp heq)
  have hpos := getKvCacheBytesPerBlock_pos hbytes
  obtain ⟨_, hbytes', hnum⟩ := h.numBlocks hne
  rw [hbytes] at hbytes'
  cases hbytes'
  have hmem : plan.planMemory = mem := by
    have hmemory := h.memory
    rw [overriddenMemory, hoverride] at hmemory
    exact (Except.ok.inj hmemory).symm
  have hcheck : plan.checkMemory = mem - bytesPerBlock := by
    have husable := h.usable
    rw [usableMemory, if_neg hlen, hbytes, hmem] at husable
    exact (Except.ok.inj husable).symm
  have hpositive : 0 < plan.checkMemory := by
    have hchecked := h.checked
    rw [checkWorker, if_neg hlen, checkEnoughKvCacheMemory] at hchecked
    obtain ⟨_, hrequire, -⟩ := exec_lift_bind_eq_ok.mp hchecked
    exact require_eq_ok.mp hrequire
  rw [hnum, mayOverrideNumBlocks, hoverride, hmem] at hle
  have hblocks : (minNumBlocks : Int) ≤ mem / bytesPerBlock := by
    have hnonneg : 0 ≤ mem / (bytesPerBlock : Int) :=
      Int.ediv_nonneg (by omega) (Int.natCast_nonneg _)
    have hcast : (minNumBlocks : Int) ≤ ((mem / (bytesPerBlock : Int)).toNat : Int) :=
      Int.ofNat_le.mpr hle
    rwa [Int.toNat_of_nonneg hnonneg] at hcast
  calc
    ((bytesPerBlock * minNumBlocks : Nat) : Int) =
        (minNumBlocks : Int) * bytesPerBlock := by
      rw [Int.natCast_mul, Int.mul_comm]
    _ ≤ mem / bytesPerBlock * bytesPerBlock :=
      Int.mul_le_mul_of_nonneg_right hblocks (Int.natCast_nonneg _)
    _ ≤ mem := Int.ediv_mul_le mem (by omega)

/-! ## All workers -/

/-- Whenever the planner returns, the layers of every worker lie in its store,
two caches meet only where the scheduler never uses both, and all workers have
the same number of blocks. -/
theorem getKvCacheConfigs_safe
    {getKvCacheGroups : SpecDict → Except PlanError (List KVCacheGroupSpec)}
    {workers : List SpecDict} {merged : SpecDict} {availableMemory : List Int}
    {originalMax : Nat} {configs : List KVCacheConfig}
    (hmerged : mergeKvCacheSpecs workers = .ok merged)
    (hgroups : getKvCacheGroups merged = .ok groups)
    (hnodup : (groups.flatMap KVCacheGroupSpec.layerNames).Nodup)
    (hworkers : ∀ w ∈ workers, w ≠ [] ∧ w.names.Nodup)
    (hshape : NotCsaLinear groups workers)
    (hstrides : KnownStrides env cfg.kvCacheLayout)
    (hreturn : exec (getKvCacheConfigs env cfg getKvCacheGroups workers
      availableMemory) originalMax = (.ok configs, maxModelLen)) :
    configs.length = min workers.length availableMemory.length ∧
      ∃ numBlocks, (∀ n ∈ cfg.numGpuBlocksOverride, numBlocks = n) ∧
        ∀ (i : Nat) config, configs[i]? = some config → ∃ w mem,
          workers[i]? = some w ∧ availableMemory[i]? = some mem ∧
          projectKvCacheGroupsToWorker groups w = .ok config.kvCacheGroups ∧
          config.numBlocks = numBlocks ∧
          LayoutSafe w config.kvCacheGroups numBlocks config.kvCacheTensors ∧
          (cfg.numGpuBlocksOverride = none →
            ∀ t ∈ config.kvCacheTensors, (t.size : Int) ≤ mem) := by
  obtain ⟨minNumBlocks, hrun⟩ := getKvCacheConfigs_run_of hmerged hgroups hreturn
  -- a worker that owns a layer has a group
  have hne : groups ≠ [] := by
    obtain ⟨w, hw, mem, plan, hof, -⟩ := hrun.attained
    rintro rfl
    have hproj : plan.projected = [] := by
      by_contra hproj
      exact hof.projected_ne_nil.mp hproj rfl
    have hlayers := hof.layers
    rw [hproj] at hlayers
    exact (hworkers w hw).1 (List.length_eq_zero_iff.mp hlayers.symm)
  refine ⟨hrun.length, minNumBlocks, fun n hn => hrun.override hne hn, ?_⟩
  intro i config hi
  obtain ⟨w, mem, plan, memory, hw, hmem, hof, hconfig, hkept, hnum, hle⟩ :=
    hrun.config hi
  have hwmem : w ∈ workers := List.mem_of_getElem? hw
  have hproj := hof.projected_ne_nil.mpr hne
  obtain ⟨bytesPerBlock, hvalid, hbytes, htensors⟩ :=
    getKvCacheConfigFromGroups_generic hproj (hshape w hwmem _ hof.projection) hconfig
  rw [hnum] at htensors
  refine ⟨w, mem, hw, hmem, ?_, hnum, ?_, ?_⟩
  · rw [hkept]
    exact hof.projection
  · rw [hkept, htensors]
    exact workerTensors_safe (hof.groupsOf hnodup (hworkers w hwmem).2) hstrides hvalid
      hbytes minNumBlocks
  · intro hoverride t ht
    rw [htensors] at ht
    rw [workerTensors_size t ht]
    exact hof.size_le hne hoverride hbytes hle

/-! Two workers, a plain group and a group of layers with different pages; a
page holds 16 tokens. -/

def twoWorkersEnv : Env where
  extractLayerIndex := fun _ => none
  getPpIndices := fun total rank size =>
    (rank * (total / size), (rank + 1) * (total / size))
  isUniformType := fun _ => true
  computeLayoutStrides := fun spec _ _ _ fixedStride =>
    (spec.pageSizeBytes, fixedStride.getD spec.pageSizeBytes)
  maxMemoryUsagePages := fun _ maxModelLen => .ok (cdiv maxModelLen 16)
  maxMemoryUsageBytes := fun spec maxModelLen =>
    .ok (cdiv maxModelLen 16 * spec.pageSizeBytes)

def twoWorkersConfig : VllmConfig where
  pipelineParallelSize := 2
  totalNumHiddenLayers := 4
  numKvHeads := 1
  enablePrefixCaching := false
  prefixMatchUnit := none
  numGpuBlocksOverride := none
  kvCacheLayout :=
    { isBlockCompact := true, isBlockOutermost := true, isLayerCompact := false }
  maxModelLen := 32
  originalMaxModelLen := 32

def twoWorkersSpec (page : Nat) : KVCacheSpec where
  type := .fullAttention
  blockSize := 16
  numKvHeads := 1
  tokensPerState := 1
  tpReplicated := false
  unpaddedPageSizeBytes := page.toPNat'
  pageSizePadded := none
  attrs := 0

def twoWorkers : List SpecDict :=
  [[("0.a", twoWorkersSpec 64), ("0.b", twoWorkersSpec 32),
    ("1.b", twoWorkersSpec 16)],
   [("2.a", twoWorkersSpec 64), ("3.b", twoWorkersSpec 32)]]

def twoWorkersGroups : List KVCacheGroupSpec :=
  [⟨["0.a", "2.a"], .single (twoWorkersSpec 64), false⟩,
   ⟨["0.b", "1.b", "3.b"], .uniformType 16
      [("0.b", twoWorkersSpec 32), ("1.b", twoWorkersSpec 16),
       ("3.b", twoWorkersSpec 32)], false⟩]

theorem twoWorkers_notCsaLinear : NotCsaLinear twoWorkersGroups twoWorkers := by
  intro w hw projected hprojected layout hlayout
  rcases List.mem_cons.mp hw with rfl | hw
  · cases hprojected
    cases hlayout
  · rw [List.mem_singleton.mp hw] at hprojected
    cases hprojected
    cases hlayout

theorem getKvCacheConfigs_safe_twoWorkers :
    ∃ configs, exec (getKvCacheConfigs twoWorkersEnv twoWorkersConfig
        (fun _ => .ok twoWorkersGroups) twoWorkers [1000, 500]) 32 =
          (.ok configs, 32) ∧
      configs.length = 2 ∧ ∃ numBlocks, ∀ (i : Nat) config,
        configs[i]? = some config → ∃ w mem,
          twoWorkers[i]? = some w ∧ [1000, 500][i]? = some mem ∧
          config.numBlocks = numBlocks ∧
          LayoutSafe w config.kvCacheGroups numBlocks config.kvCacheTensors ∧
          ∀ t ∈ config.kvCacheTensors, (t.size : Int) ≤ mem := by
  obtain ⟨configs, hreturn⟩ : ∃ configs, exec (getKvCacheConfigs twoWorkersEnv
      twoWorkersConfig (fun _ => .ok twoWorkersGroups) twoWorkers [1000, 500]) 32 =
        (.ok configs, 32) := ⟨_, rfl⟩
  have hmerged : mergeKvCacheSpecs twoWorkers = .ok twoWorkers.flatten := by rfl
  have hworkers : ∀ w ∈ twoWorkers, w ≠ [] ∧ w.names.Nodup := by decide
  obtain ⟨hlength, numBlocks, -, hsafe⟩ := getKvCacheConfigs_safe hmerged rfl
    (by decide) hworkers twoWorkers_notCsaLinear
    (.blockOutermost rfl fun _ _ _ _ => rfl) hreturn
  refine ⟨configs, hreturn, hlength, numBlocks, fun i config hi => ?_⟩
  obtain ⟨w, mem, hw, hmem, -, hnum, hlayout, hsize⟩ := hsafe i config hi
  exact ⟨w, mem, hw, hmem, hnum, hlayout, hsize rfl⟩

end FlashNext.Ports.KvCache
