import FlashNext.Ports.KvAutoFit
import FlashNext.Ports.KvCacheConfigsSafety
import Mathlib.Tactic.Ring

/-!
# KV-cache planning: an admitted request fits

The memory check, the search for a length and the number of blocks account for
the same bytes, with one block set aside.
-/

namespace FlashNext.Ports.KvCache

open FlashNext.Verified.Checked
open FlashNext.Verified.CheckedState

variable {env : Env} {cfg : VllmConfig} {groups : List KVCacheGroupSpec}

/-! ## The check of one worker -/

theorem checkWorker_eq_ok {worker : List KVCacheGroupSpec × Int}
    {maxModelLen s : Nat} :
    exec (checkWorker env worker) maxModelLen = (.ok (), s) ↔ s = maxModelLen ∧
      (worker.1 = [] ∨ 0 < worker.2 ∧ FitsIn env worker.1 worker.2 maxModelLen) := by
  unfold checkWorker
  by_cases hlen : worker.1.length = 0
  · rw [if_pos hlen, exec_pure]
    constructor
    · intro h
      cases h
      exact ⟨rfl, Or.inl (List.length_eq_zero_iff.mp hlen)⟩
    · rintro ⟨rfl, -⟩
      rfl
  · have hne : worker.1 ≠ [] := fun hnil => hlen (List.length_eq_zero_iff.mpr hnil)
    rw [if_neg hlen, checkEnoughKvCacheMemory, exec_lift_bind_eq_ok]
    constructor
    · rintro ⟨_, hpos, h⟩
      rw [exec_bind_of_ok (exec_get maxModelLen)] at h
      obtain ⟨needed, hneeded, h⟩ := exec_lift_bind_eq_ok.mp h
      by_cases hlt : worker.2 < (needed : Int)
      · rw [if_pos hlt] at h
        obtain ⟨_, _, -, h⟩ := exec_bind_eq_ok.mp h
        cases h
      · rw [if_neg hlt] at h
        cases h
        exact ⟨rfl, Or.inr ⟨require_eq_ok.mp hpos, needed, hneeded, not_lt.mp hlt⟩⟩
    · rintro ⟨rfl, hfits⟩
      obtain ⟨hpos, needed, hneeded, hle⟩ := hfits.resolve_left hne
      refine ⟨(), require_ok hpos, ?_⟩
      rw [exec_bind_of_ok (exec_get s), exec_lift_bind_eq_ok]
      refine ⟨needed, hneeded, ?_⟩
      rw [if_neg (not_lt.mpr hle)]
      rfl

/-- A worker that accepts a length passes the check that follows. -/
theorem Accepts.checked (husage : UsageOk env) {worker : List KVCacheGroupSpec × Int}
    {len : Nat} (hlen : 0 < len) (h : Accepts env worker len) :
    exec (checkWorker env worker) len = (.ok (), len) := by
  apply checkWorker_eq_ok.mpr
  refine ⟨rfl, ?_⟩
  by_cases hne : worker.1 = []
  · exact Or.inl hne
  · right
    have hfits := h.resolve_left hne
    refine ⟨?_, hfits⟩
    obtain ⟨needed, hneeded, hle⟩ := hfits
    obtain ⟨bytesPerBlock, blocks, hbytes, hblocks, rfl⟩ :=
      (maxMemoryUsageBytesFromGroups_eq_ok hne).mp hneeded
    have hpos := Nat.mul_pos (getKvCacheBytesPerBlock_pos hbytes)
      (requestBlocks_pos husage hne hlen hblocks)
    omega

/-! ## The blocks of one worker -/

section Worker

variable {w : SpecDict} {mem : Int} {maxModelLen : Nat} {plan : WorkerPlan}

/-- With and without an override the plan uses the memory that was checked. -/
theorem WorkerPlan.Of.numBlocks_eq (h : plan.Of env cfg groups maxModelLen w mem)
    (hne : groups ≠ []) : ∃ bytesPerBlock,
      getKvCacheBytesPerBlock plan.projected = .ok bytesPerBlock ∧
        plan.planned.numBlocks = blocksIn plan.planMemory bytesPerBlock ∧
        plan.checkMemory = plan.planMemory - bytesPerBlock := by
  have hlen : ¬ plan.projected.length = 0 := fun heq =>
    h.projected_ne_nil.mpr hne (List.length_eq_zero_iff.mp heq)
  obtain ⟨bytesPerBlock, hbytes, hnum⟩ := h.numBlocks hne
  refine ⟨bytesPerBlock, hbytes, ?_, ?_⟩
  · have hmemory := h.memory
    cases hoverride : cfg.numGpuBlocksOverride with
    | none =>
        rw [hnum, mayOverrideNumBlocks, hoverride]
        rfl
    | some numBlocks =>
        rw [overriddenMemory, hoverride] at hmemory
        dsimp only at hmemory
        rw [if_neg hlen, hbytes] at hmemory
        have hplan : ((numBlocks * bytesPerBlock : Nat) : Int) = plan.planMemory :=
          Except.ok.inj hmemory
        rw [hnum, mayOverrideNumBlocks, hoverride, ← hplan,
          blocksIn_mul (getKvCacheBytesPerBlock_pos hbytes)]
        rfl
  · have husable := h.usable
    rw [usableMemory, if_neg hlen, hbytes] at husable
    exact (Except.ok.inj husable).symm

/-- A worker that passed the check has a block more than one request takes. -/
theorem WorkerPlan.Of.admits (h : plan.Of env cfg groups maxModelLen w mem)
    (hne : groups ≠ []) : ∃ blocks,
      requestBlocks env maxModelLen plan.projected = .ok blocks ∧
        1 + blocks.sum ≤ plan.planned.numBlocks := by
  have hproj := h.projected_ne_nil.mpr hne
  obtain ⟨bytesPerBlock, hbytes, hnum, hcheck⟩ := h.numBlocks_eq hne
  obtain ⟨-, hchecked⟩ := checkWorker_eq_ok.mp h.checked
  obtain ⟨-, needed, hneeded, hle⟩ := hchecked.resolve_left hproj
  obtain ⟨bytesPerBlock', blocks, hbytes', hblocks, rfl⟩ :=
    (maxMemoryUsageBytesFromGroups_eq_ok hproj).mp hneeded
  rw [hbytes] at hbytes'
  cases hbytes'
  refine ⟨blocks, hblocks, ?_⟩
  have hpos := getKvCacheBytesPerBlock_pos hbytes
  have htotal : ((1 + blocks.sum : Nat) : Int) * bytesPerBlock ≤ plan.planMemory := by
    dsimp only at hle
    rw [hcheck] at hle
    calc
      ((1 + blocks.sum : Nat) : Int) * bytesPerBlock =
          (bytesPerBlock : Int) + ((bytesPerBlock * blocks.sum : Nat) : Int) := by
        push_cast
        ring
      _ ≤ plan.planMemory := by omega
  have hdiv : ((1 + blocks.sum : Nat) : Int) ≤ plan.planMemory / bytesPerBlock :=
    (Int.le_ediv_iff_mul_le (by omega)).mpr htotal
  rw [hnum, blocksIn]
  omega

end Worker

/-! ## The blocks of all workers -/

/-- What the planner relies on when it asks a dict of specs for its pages: they
are those of its layers, where these agree. -/
def PagesOfLayers (env : Env) : Prop :=
  ∀ (blockSize : Nat) (specs : SpecDict) (len : Nat) (r : Except PlanError Nat),
    specs ≠ [] →
    (∀ p ∈ specs, groupBlocks env len ⟨[p.1], .single p.2, false⟩ = r) →
    groupBlocks env len ⟨specs.names, .uniformType blockSize specs, false⟩ = r

/-- The layers of one group need equal page counts. -/
def EqualPages (env : Env) (groups : List KVCacheGroupSpec) : Prop :=
  ∀ group ∈ groups, ∀ blockSize specs,
    group.kvCacheSpec = .uniformType blockSize specs → specs ≠ [] ∧
      ∀ len, ∃ r : Except PlanError Nat, ∀ p ∈ specs,
        groupBlocks env len ⟨[p.1], .single p.2, false⟩ = r

theorem groupBlocks_congr {group group' : KVCacheGroupSpec} (len : Nat)
    (h : group.kvCacheSpec = group'.kvCacheSpec) :
    groupBlocks env len group = groupBlocks env len group' := by
  rw [groupBlocks, groupBlocks, h]

/-- A projected group needs the blocks of the whole group. -/
theorem ProjectedGroup.groupBlocks_eq (hpages : PagesOfLayers env) {w : SpecDict}
    {group projected : KVCacheGroupSpec} (h : ProjectedGroup w group projected)
    (hequal : ∀ blockSize specs, group.kvCacheSpec = .uniformType blockSize specs →
      specs ≠ [] ∧ ∀ len, ∃ r : Except PlanError Nat, ∀ p ∈ specs,
        groupBlocks env len ⟨[p.1], .single p.2, false⟩ = r) (len : Nat) :
    groupBlocks env len projected = groupBlocks env len group := by
  have hspec := h.spec
  generalize hglobal : group.kvCacheSpec = global at hspec
  generalize hlocal : projected.kvCacheSpec = owned at hspec
  cases hspec with
  | single spec => exact groupBlocks_congr len (hlocal.trans hglobal.symm)
  | none blockSize specs hnil => exact groupBlocks_congr len (hlocal.trans hglobal.symm)
  | some blockSize specs owned hne hnames hget =>
      obtain ⟨hspecs, hlayers⟩ := hequal blockSize specs hglobal
      obtain ⟨r, hr⟩ := hlayers len
      have howned : owned ≠ [] := by
        rintro rfl
        exact hne hnames.symm
      have hmem : ∀ p ∈ owned, p ∈ specs := by
        intro p hp
        have hlookup := hget p hp
        unfold SpecDict.get at hlookup
        split at hlookup
        · next spec hfound =>
            cases hlookup
            exact mem_of_lookup hfound
        · cases hlookup
      have hleft := hpages blockSize owned len r howned fun p hp => hr p (hmem p hp)
      have hright := hpages blockSize specs len r hspecs hr
      exact (groupBlocks_congr len hlocal).trans
        (hleft.trans (hright.symm.trans (groupBlocks_congr len hglobal.symm)))

theorem requestBlocks_projected (hpages : PagesOfLayers env)
    (hequal : EqualPages env groups) {w : SpecDict}
    {projected : List KVCacheGroupSpec}
    (h : List.Forall₂ (ProjectedGroup w) groups projected) (len : Nat) :
    requestBlocks env len projected = requestBlocks env len groups := by
  unfold requestBlocks
  induction h with
  | nil => rfl
  | @cons group first groups rest hgroup _ ih =>
      have hfirst := hgroup.groupBlocks_eq hpages (hequal group List.mem_cons_self) len
      have hrest := ih fun g hg => hequal g (List.mem_cons_of_mem _ hg)
      rw [List.mapM_cons, List.mapM_cons, hfirst, hrest]

/-- The common number of blocks serves a request of the longest length on every
worker, besides the null block. -/
theorem PlannerRun.admits (hpages : PagesOfLayers env) {workers : List SpecDict}
    {getKvCacheGroups : SpecDict → Except PlanError (List KVCacheGroupSpec)}
    {availableMemory : List Int} {maxModelLen minNumBlocks : Nat}
    {configs : List KVCacheConfig}
    (h : PlannerRun env cfg getKvCacheGroups workers availableMemory maxModelLen
      groups minNumBlocks configs)
    (hequal : EqualPages env groups) {config : KVCacheConfig}
    (hconfig : config ∈ configs) : ∃ blocks,
      requestBlocks env maxModelLen config.kvCacheGroups = .ok blocks ∧
        1 + blocks.sum ≤ config.numBlocks := by
  obtain ⟨i, hi⟩ := List.getElem?_of_mem hconfig
  obtain ⟨w, mem, plan, memory, -, -, hof, -, hkept, hnum, -⟩ := h.config hi
  rw [hkept, hnum, requestBlocks_projected hpages hequal hof.forall₂]
  by_cases hne : groups = []
  · refine ⟨[], by rw [hne]; rfl, ?_⟩
    rw [h.of_nil hne]
    exact Nat.le_refl 1
  · obtain ⟨w', -, mem', smallest, hof', hnum'⟩ := h.attained
    obtain ⟨blocks, hblocks, hle⟩ := hof'.admits hne
    rw [requestBlocks_projected hpages hequal hof'.forall₂] at hblocks
    rw [hnum'] at hle
    exact ⟨blocks, hblocks, hle⟩

/-! ## Auto-fit -/

section AutoFit

variable {projected : List (List KVCacheGroupSpec)} {memory : List Int} {top : Nat}

/-- What auto-fit leaves when it returns. -/
theorem autoFitMaxModelLen_ok (husage : UsageOk env) {s : Nat}
    (hsome : ∃ groups ∈ projected, groups ≠ [])
    (hrun : exec (autoFitMaxModelLen env projected memory) top = (.ok (), s)) :
    0 < s ∧ CommonFit env (projected.zip memory) top top s := by
  unfold autoFitMaxModelLen at hrun
  have hall : ¬ ∀ groups ∈ projected, groups.length = 0 := by
    intro hall
    obtain ⟨groups, hmem, hne⟩ := hsome
    exact hne (List.length_eq_zero_iff.mp (hall groups hmem))
  rw [exec_bind_of_ok (exec_get top)] at hrun
  rw [if_neg hall] at hrun
  obtain ⟨n, s₁, hloop, hset⟩ := exec_bind_eq_ok.mp hrun
  have hs₁ : s₁ = top := by
    rw [← keeps_autoFitFrom env top (projected.zip memory) top, hloop]
  obtain ⟨_, hpos, hset⟩ := exec_lift_bind_eq_ok.mp hset
  have hn : 0 < n := require_eq_ok.mp hpos
  have hfit := autoFitFrom_spec husage hloop
  have hs : s = n := by
    by_cases hle : top ≤ n
    · rw [if_pos hle, hs₁] at hset
      cases hset
      exact Nat.le_antisymm hle hfit.le
    · rw [if_neg hle] at hset
      cases hset
      rfl
  rw [hs]
  exact ⟨hn, hfit⟩

/-- No length from 1 to `top` passes the check on every worker. -/
def NonePasses (env : Env) (workers : List (List KVCacheGroupSpec × Int))
    (top : Nat) : Prop :=
  ∀ m, 0 < m → m ≤ top → ∃ worker ∈ workers,
    exec (checkWorker env worker) m ≠ (.ok (), m)

/-- `s` passes the check on every worker, and nothing above it up to `top` does. -/
structure LargestPassing (env : Env) (workers : List (List KVCacheGroupSpec × Int))
    (top s : Nat) : Prop where
  le : s ≤ top
  pos : 0 < top → 0 < s
  passes : ∀ worker ∈ workers, exec (checkWorker env worker) s = (.ok (), s)
  largest : ∀ m, s < m → m ≤ top → ∃ worker ∈ workers,
    exec (checkWorker env worker) m ≠ (.ok (), m)

theorem NoneAbove.fails {worker : List KVCacheGroupSpec × Int} {n m : Nat}
    (hne : worker.1 ≠ []) (hnone : NoneAbove env worker.1 worker.2 top n)
    (hm : n < m) (hmtop : m ≤ top) :
    exec (checkWorker env worker) m ≠ (.ok (), m) := by
  intro hpass
  obtain ⟨-, haccept⟩ := checkWorker_eq_ok.mp hpass
  exact hnone m hm hmtop (haccept.resolve_left hne).2

theorem autoFitMaxModelLen_largest (husage : UsageOk env) {s : Nat}
    (hrun : exec (autoFitMaxModelLen env projected memory) top = (.ok (), s)) :
    LargestPassing env (projected.zip memory) top s := by
  by_cases hsome : ∃ groups ∈ projected, groups ≠ []
  · obtain ⟨hpos, hfound⟩ := autoFitMaxModelLen_ok husage hsome hrun
    refine
      { le := hfound.le, pos := fun _ => hpos, passes := ?_, largest := ?_ }
    · exact fun worker hworker =>
        (hfound.accepted hpos worker hworker).checked husage hpos
    · intro m hm hmtop
      rcases hfound.largest with heq | ⟨worker, hworker, hne, hnone⟩
      · omega
      · exact ⟨worker, hworker, hnone.fails hne hm hmtop⟩
  · -- no worker holds a group, so every length passes
    have hall : ∀ groups ∈ projected, groups = [] := by
      intro groups hmem
      by_contra hne
      exact hsome ⟨groups, hmem, hne⟩
    unfold autoFitMaxModelLen at hrun
    rw [exec_bind_of_ok (exec_get top),
      if_pos fun groups hmem => List.length_eq_zero_iff.mpr (hall groups hmem)] at hrun
    cases hrun
    refine
      { le := Nat.le_refl _, pos := fun htop => htop, passes := ?_, largest := ?_ }
    · intro worker hworker
      have hnil := hall worker.1 (List.of_mem_zip hworker).1
      exact checkWorker_eq_ok.mpr ⟨rfl, Or.inl hnil⟩
    · intro m hm hmtop
      omega

/-- A failure leaves the length as it was.  It is either auto-fit's own, where no
length passes, or one of a usage computation. -/
theorem autoFitMaxModelLen_error (husage : UsageOk env) {e : PlanError} {s : Nat}
    (hrun : exec (autoFitMaxModelLen env projected memory) top = (.error e, s)) :
    s = top ∧ (e = .cannotAutoFit ∧ NonePasses env (projected.zip memory) top ∨
      ∃ worker ∈ projected.zip memory, ∃ n,
        maxMemoryUsageBytesFromGroups env worker.1 n = .error e) := by
  unfold autoFitMaxModelLen at hrun
  rw [exec_bind_of_ok (exec_get top)] at hrun
  by_cases hall : ∀ groups ∈ projected, groups.length = 0
  · rw [if_pos hall] at hrun
    cases hrun
  · rw [if_neg hall] at hrun
    have hkeep := keeps_autoFitFrom env top (projected.zip memory) top
    rcases exec_bind_eq_error hrun with hloop | ⟨n, s₁, hloop, hset⟩
    · rw [hloop] at hkeep
      exact ⟨hkeep, Or.inr (autoFitFrom_error hloop)⟩
    · rw [hloop] at hkeep
      rcases exec_bind_eq_error hset with hpos | ⟨_, s₂, -, hset⟩
      · rw [exec_lift] at hpos
        obtain ⟨herror, hs⟩ := Prod.mk.inj hpos
        unfold require at herror
        split at herror
        · cases herror
        · next hzero =>
            cases herror
            refine ⟨hs.symm.trans hkeep, Or.inl ⟨rfl, fun m hm hmtop => ?_⟩⟩
            rcases (autoFitFrom_spec husage hloop).largest with
              heq | ⟨worker, hworker, hne, hnone⟩
            · omega
            · exact ⟨worker, hworker, hnone.fails hne (by omega) hmtop⟩
      · by_cases hle : top ≤ n
        · rw [if_pos hle] at hset
          cases hset
        · rw [if_neg hle] at hset
          cases hset

end AutoFit

/-! ## The planner with a length to fit -/

section Planner

variable {getKvCacheGroups : SpecDict → Except PlanError (List KVCacheGroupSpec)}
  {workers : List SpecDict} {availableMemory planMemory checkMemory : List Int}
  {projected : List (List KVCacheGroupSpec)}

/-- Where `max_model_len` is -1 the planner either goes on with the largest length
that passes the check that follows, or fails with the old length in place. -/
theorem Prepared.autoFit (husage : UsageOk env)
    (h : Prepared cfg getKvCacheGroups workers availableMemory projected planMemory
      checkMemory) (hauto : cfg.originalMaxModelLen = -1) (top : Nat) :
    (∃ s, LargestPassing env (projected.zip checkMemory) top s ∧
      exec (getKvCacheConfigs env cfg getKvCacheGroups workers availableMemory) top =
        (planWorkers env cfg projected workers planMemory, s)) ∨
    ∃ e, exec (getKvCacheConfigs env cfg getKvCacheGroups workers availableMemory)
        top = (.error e, top) ∧
      (e = .cannotAutoFit ∧ NonePasses env (projected.zip checkMemory) top ∨
        ∃ worker ∈ projected.zip checkMemory, ∃ n,
          maxMemoryUsageBytesFromGroups env worker.1 n = .error e) := by
  rw [h.exec_eq, fitMaxModelLen, if_pos hauto]
  cases hfit : exec (autoFitMaxModelLen env projected checkMemory) top with
  | mk result s =>
      cases result with
      | ok _ =>
          left
          have hlargest := autoFitMaxModelLen_largest husage hfit
          refine ⟨s, hlargest, ?_⟩
          rw [exec_bind_of_ok hfit, exec_bind_of_ok (exec_forM_of_ok hlargest.passes)]
          rfl
      | error e =>
          right
          obtain ⟨rfl, hcause⟩ := autoFitMaxModelLen_error husage hfit
          exact ⟨e, exec_bind_of_error hfit, hcause⟩

end Planner

/-! ## Admission -/

/-- A planner that returns has room for a request of the longest length on every
worker.  Where the length is to be fitted, the planner goes on with the largest
length whose check passes on every worker, and a failure of the fit leaves the
old one in place.  That a token takes memory at all is part of `UsageOk`: the
search would accept a memory of zero bytes, which the check refuses. -/
theorem kv_admission_sound (husage : UsageOk env) (hpages : PagesOfLayers env) :
    (∀ {cfg getKvCacheGroups workers merged availableMemory originalMax maxModelLen}
        {groups : List KVCacheGroupSpec} {configs : List KVCacheConfig},
      mergeKvCacheSpecs workers = .ok merged → getKvCacheGroups merged = .ok groups →
      EqualPages env groups →
      exec (getKvCacheConfigs env cfg getKvCacheGroups workers availableMemory)
        originalMax = (.ok configs, maxModelLen) →
      ∀ config ∈ configs, ∃ blocks,
        requestBlocks env maxModelLen config.kvCacheGroups = .ok blocks ∧
          1 + blocks.sum ≤ config.numBlocks) ∧
    (∀ {projected : List (List KVCacheGroupSpec)} {memory : List Int} {top s : Nat},
      (∃ groups ∈ projected, groups ≠ []) →
      exec (autoFitMaxModelLen env projected memory) top = (.ok (), s) →
      0 < s ∧ s ≤ top ∧
        (∀ worker ∈ projected.zip memory,
          exec (checkWorker env worker) s = (.ok (), s)) ∧
        ∀ m, s < m → m ≤ top → ∃ worker ∈ projected.zip memory,
          exec (checkWorker env worker) m ≠ (.ok (), m)) ∧
    (∀ {projected : List (List KVCacheGroupSpec)} {memory : List Int} {top : Nat},
      (∃ groups ∈ projected, groups ≠ []) →
      (∀ m, 0 < m → m ≤ top → ∃ worker ∈ projected.zip memory,
        exec (checkWorker env worker) m ≠ (.ok (), m)) →
      ∃ e, exec (autoFitMaxModelLen env projected memory) top = (.error e, top) ∧
        (e = .cannotAutoFit ∨ ∃ worker ∈ projected.zip memory, ∃ n,
          maxMemoryUsageBytesFromGroups env worker.1 n = .error e)) ∧
    (∀ {cfg getKvCacheGroups workers availableMemory}
        {projected : List (List KVCacheGroupSpec)} {planMemory checkMemory : List Int},
      Prepared cfg getKvCacheGroups workers availableMemory projected planMemory
        checkMemory →
      cfg.originalMaxModelLen = -1 → ∀ top,
      (∃ s, LargestPassing env (projected.zip checkMemory) top s ∧
        exec (getKvCacheConfigs env cfg getKvCacheGroups workers availableMemory) top =
          (planWorkers env cfg projected workers planMemory, s)) ∨
      ∃ e, exec (getKvCacheConfigs env cfg getKvCacheGroups workers availableMemory)
          top = (.error e, top) ∧
        (e = .cannotAutoFit ∧ NonePasses env (projected.zip checkMemory) top ∨
          ∃ worker ∈ projected.zip checkMemory, ∃ n,
            maxMemoryUsageBytesFromGroups env worker.1 n = .error e)) ∧
    (∀ {cfg getKvCacheGroups workers availableMemory}
        {projected : List (List KVCacheGroupSpec)} {planMemory checkMemory : List Int},
      Prepared cfg getKvCacheGroups workers availableMemory projected planMemory
        checkMemory →
      cfg.originalMaxModelLen = -1 → ∀ top, 0 < top →
      NonePasses env (projected.zip checkMemory) top →
      ∃ e, exec (getKvCacheConfigs env cfg getKvCacheGroups workers availableMemory)
          top = (.error e, top) ∧
        (e = .cannotAutoFit ∨ ∃ worker ∈ projected.zip checkMemory, ∃ n,
          maxMemoryUsageBytesFromGroups env worker.1 n = .error e)) ∧
    ∀ (groups : List KVCacheGroupSpec) (memory : Int),
      Keeps (estimateMaxModelLenFromGroups env groups memory) := by
  refine ⟨?_, ?_, ?_, ?_, ?_, keeps_estimate⟩
  · intro cfg getKvCacheGroups workers merged availableMemory originalMax maxModelLen
      groups configs hmerged hgroups hequal hrun config hconfig
    obtain ⟨minNumBlocks, hplan⟩ := getKvCacheConfigs_run_of hmerged hgroups hrun
    exact hplan.admits hpages hequal hconfig
  · intro projected memory top s hsome hrun
    obtain ⟨hpos, -⟩ := autoFitMaxModelLen_ok husage hsome hrun
    have hlargest := autoFitMaxModelLen_largest husage hrun
    exact ⟨hpos, hlargest.le, hlargest.passes, hlargest.largest⟩
  · intro projected memory top hsome hno
    cases hrun : exec (autoFitMaxModelLen env projected memory) top with
    | mk result s =>
        cases result with
        | ok _ =>
            obtain ⟨hpos, -⟩ := autoFitMaxModelLen_ok husage hsome hrun
            have hlargest := autoFitMaxModelLen_largest husage hrun
            obtain ⟨worker, hworker, hfail⟩ := hno s hpos hlargest.le
            exact absurd (hlargest.passes worker hworker) hfail
        | error e =>
            obtain ⟨rfl, hcause⟩ := autoFitMaxModelLen_error husage hrun
            exact ⟨e, rfl, hcause.imp_left And.left⟩
  · exact fun hprepared hauto top => hprepared.autoFit husage hauto top
  · intro cfg getKvCacheGroups workers availableMemory projected planMemory checkMemory
      hprepared hauto top htop hno
    rcases hprepared.autoFit husage hauto top with ⟨s, hlargest, -⟩ | ⟨e, hrun, hcause⟩
    · obtain ⟨worker, hworker, hfail⟩ := hno s (hlargest.pos htop) hlargest.le
      exact absurd (hlargest.passes worker hworker) hfail
    · exact ⟨e, hrun, hcause.imp_left And.left⟩

/-! The two workers again. -/

theorem twoWorkers_usageOk : UsageOk twoWorkersEnv where
  pages_mono := by
    intro specs len len' b' hle hb'
    cases hb'
    exact ⟨_, cdiv_mono hle 16, rfl⟩
  bytes_mono := by
    intro spec len len' b' hle hb'
    cases hb'
    exact ⟨_, Nat.mul_le_mul_right _ (cdiv_mono hle 16), rfl⟩
  pages_pos := by
    intro specs len b hlen hb
    cases hb
    exact cdiv_pos hlen (by decide)
  bytes_pos := by
    intro spec len b hlen hb
    cases hb
    exact Nat.mul_pos (cdiv_pos hlen (by decide)) spec.pageSizeBytes.pos

theorem twoWorkers_single (len : Nat) (name : String) (spec : KVCacheSpec) :
    groupBlocks twoWorkersEnv len ⟨[name], .single spec, false⟩ =
      .ok (cdiv len 16) := by
  show Except.ok (cdiv (cdiv len 16 * _) _) = _
  rw [cdiv_mul_self _ spec.pageSizeBytes.pos]

theorem twoWorkers_pagesOfLayers : PagesOfLayers twoWorkersEnv := by
  intro blockSize specs len r hne hlayers
  obtain ⟨p, rest, rfl⟩ := List.exists_cons_of_ne_nil hne
  rw [← hlayers p List.mem_cons_self, twoWorkers_single]
  rfl

theorem twoWorkers_equalPages : EqualPages twoWorkersEnv twoWorkersGroups := by
  intro group hgroup blockSize specs hspec
  refine ⟨?_, fun len => ⟨_, fun p _ => twoWorkers_single len p.1 p.2⟩⟩
  rcases List.mem_cons.mp hgroup with rfl | hgroup
  · cases hspec
  · rw [List.mem_singleton.mp hgroup] at hspec
    cases hspec
    exact List.cons_ne_nil _ _

/-- The two workers with a length to fit. -/
def fittedConfig : VllmConfig := { twoWorkersConfig with originalMaxModelLen := -1 }

/-- The groups of each of the two workers. -/
def twoWorkersProjected : List (List KVCacheGroupSpec) :=
  [[⟨["0.a"], .single (twoWorkersSpec 64), false⟩,
    ⟨["0.b", "1.b"], .uniformType 16
      [("0.b", twoWorkersSpec 32), ("1.b", twoWorkersSpec 16)], false⟩],
   [⟨["2.a"], .single (twoWorkersSpec 64), false⟩,
    ⟨["3.b"], .uniformType 16 [("3.b", twoWorkersSpec 32)], false⟩]]

theorem twoWorkers_prepared (first second : Int) :
    Prepared fittedConfig (fun _ => .ok twoWorkersGroups) twoWorkers [first, second]
      twoWorkersProjected [first, second] [first - 64, second - 64] where
  grouping := ⟨twoWorkers.flatten, twoWorkersGroups, rfl, rfl, rfl⟩
  plan := rfl
  check := rfl

theorem twoWorkers_needed {groups : List KVCacheGroupSpec}
    (hgroups : groups ∈ twoWorkersProjected) (len : Nat) :
    maxMemoryUsageBytesFromGroups twoWorkersEnv groups len =
      .ok (64 * [cdiv len 16, cdiv len 16].sum) := by
  rcases List.mem_cons.mp hgroups with rfl | hgroups
  · rw [maxMemoryUsageBytesFromGroups, List.mapM_cons, List.mapM_cons,
      twoWorkers_single]
    rfl
  · rw [List.mem_singleton.mp hgroups, maxMemoryUsageBytesFromGroups, List.mapM_cons,
      List.mapM_cons, twoWorkers_single]
    rfl

theorem twoWorkers_check (first second : Int) {len : Nat}
    {worker : List KVCacheGroupSpec × Int}
    (hworker : worker ∈ twoWorkersProjected.zip [first - 64, second - 64]) :
    exec (checkWorker twoWorkersEnv worker) len = (.ok (), len) ↔
      0 < worker.2 ∧ ((64 * [cdiv len 16, cdiv len 16].sum : Nat) : Int) ≤ worker.2 := by
  have hgroups := (List.of_mem_zip hworker).1
  have hne : worker.1 ≠ [] := by
    rcases List.mem_cons.mp hgroups with heq | hgroups
    · rw [heq]
      exact List.cons_ne_nil _ _
    · rw [List.mem_singleton.mp hgroups]
      exact List.cons_ne_nil _ _
  rw [checkWorker_eq_ok, FitsIn, twoWorkers_needed hgroups]
  constructor
  · rintro ⟨-, hnil | ⟨hpos, needed, hneeded, hle⟩⟩
    · exact absurd hnil hne
    · cases hneeded
      exact ⟨hpos, hle⟩
  · rintro ⟨hpos, hle⟩
    exact ⟨rfl, Or.inr ⟨hpos, _, rfl, hle⟩⟩

theorem twoWorkers_second (first second : Int) :
    ([⟨["2.a"], .single (twoWorkersSpec 64), false⟩,
      ⟨["3.b"], .uniformType 16 [("3.b", twoWorkersSpec 32)], false⟩], second - 64) ∈
      twoWorkersProjected.zip [first - 64, second - 64] :=
  List.mem_cons_of_mem _ List.mem_cons_self

theorem kv_admission_sound_twoWorkers :
    (∃ configs, exec (getKvCacheConfigs twoWorkersEnv twoWorkersConfig
        (fun _ => .ok twoWorkersGroups) twoWorkers [1000, 500]) 32 =
          (.ok configs, 32) ∧
      ∀ config ∈ configs, ∃ blocks,
        requestBlocks twoWorkersEnv 32 config.kvCacheGroups = .ok blocks ∧
          1 + blocks.sum ≤ config.numBlocks) ∧
    (∃ e, exec (autoFitMaxModelLen twoWorkersEnv [twoWorkersGroups] [0]) 32 =
      (.error e, 32)) ∧
    (∃ configs, exec (getKvCacheConfigs twoWorkersEnv fittedConfig
        (fun _ => .ok twoWorkersGroups) twoWorkers [1000, 500]) 1000 =
          (.ok configs, 48) ∧
      ∀ config ∈ configs, ∃ blocks,
        requestBlocks twoWorkersEnv 48 config.kvCacheGroups = .ok blocks ∧
          1 + blocks.sum ≤ config.numBlocks) ∧
    exec (getKvCacheConfigs twoWorkersEnv fittedConfig
      (fun _ => .ok twoWorkersGroups) twoWorkers [1000, 100]) 1000 =
        (.error .cannotAutoFit, 1000) := by
  obtain ⟨hadmits, -, hfails, hfits, hnofit, -⟩ :=
    kv_admission_sound twoWorkers_usageOk twoWorkers_pagesOfLayers
  have hmerged : mergeKvCacheSpecs twoWorkers = .ok twoWorkers.flatten := by rfl
  have husage : ∀ {first second : Int} {e : PlanError},
      ¬ ∃ worker ∈ twoWorkersProjected.zip [first - 64, second - 64], ∃ n,
        maxMemoryUsageBytesFromGroups twoWorkersEnv worker.1 n = .error e := by
    rintro first second e ⟨worker, hworker, n, herror⟩
    rw [twoWorkers_needed (List.of_mem_zip hworker).1] at herror
    cases herror
  refine ⟨?_, ?_, ?_, ?_⟩
  · obtain ⟨configs, hreturn⟩ : ∃ configs, exec (getKvCacheConfigs twoWorkersEnv
        twoWorkersConfig (fun _ => .ok twoWorkersGroups) twoWorkers [1000, 500]) 32 =
          (.ok configs, 32) := ⟨_, rfl⟩
    exact ⟨configs, hreturn, hadmits hmerged rfl twoWorkers_equalPages hreturn⟩
  · have hsome : ∃ groups ∈ [twoWorkersGroups], groups ≠ [] :=
      ⟨_, List.mem_cons_self, List.cons_ne_nil _ _⟩
    have hno : ∀ m, 0 < m → m ≤ 32 → ∃ worker ∈ [twoWorkersGroups].zip [(0 : Int)],
        exec (checkWorker twoWorkersEnv worker) m ≠ (.ok (), m) := by
      intro m _ _
      refine ⟨_, List.mem_cons_self, fun hpass => ?_⟩
      obtain ⟨-, hworker⟩ := checkWorker_eq_ok.mp hpass
      exact absurd (hworker.resolve_left (List.cons_ne_nil _ _)).1 (by decide)
    obtain ⟨e, he, -⟩ := hfails hsome hno
    exact ⟨e, he⟩
  · -- the second worker has six blocks beside the null block, three for each group
    have hpasses : ∀ worker ∈ twoWorkersProjected.zip [(1000 : Int) - 64, 500 - 64],
        exec (checkWorker twoWorkersEnv worker) 48 = (.ok (), 48) := by
      intro worker hworker
      rw [twoWorkers_check 1000 500 hworker]
      rcases List.mem_cons.mp hworker with rfl | hworker
      · decide
      · rw [List.mem_singleton.mp hworker]
        decide
    rcases hfits (twoWorkers_prepared 1000 500) rfl 1000 with
      ⟨s, hlargest, hrun⟩ | ⟨e, -, hcause⟩
    · have hle : s ≤ 48 := by
        by_contra hgt
        have hmem := twoWorkers_second 1000 500
        have hsecond := (twoWorkers_check 1000 500 hmem).mp (hlargest.passes _ hmem)
        have hmono := cdiv_mono (show 49 ≤ s by omega) 16
        have hfour : cdiv 49 16 = 4 := by decide
        simp only [List.sum_cons, List.sum_nil] at hsecond
        omega
      have hge : 48 ≤ s := by
        by_contra hlt
        obtain ⟨worker, hworker, hfail⟩ := hlargest.largest 48 (by omega) (by decide)
        exact hfail (hpasses worker hworker)
      have hs : s = 48 := Nat.le_antisymm hle hge
      rw [hs] at hrun
      obtain ⟨configs, hplans⟩ : ∃ configs, planWorkers twoWorkersEnv fittedConfig
          twoWorkersProjected twoWorkers [1000, 500] = .ok configs := ⟨_, rfl⟩
      rw [hplans] at hrun
      exact ⟨configs, hrun, hadmits hmerged rfl twoWorkers_equalPages hrun⟩
    · rcases hcause with ⟨-, hnone⟩ | herror
      · obtain ⟨worker, hworker, hfail⟩ := hnone 48 (by decide) (by decide)
        exact absurd (hpasses worker hworker) hfail
      · exact absurd herror husage
  · have hno : NonePasses twoWorkersEnv
        (twoWorkersProjected.zip [(1000 : Int) - 64, 100 - 64]) 1000 := by
      intro m hm _
      have hmem := twoWorkers_second 1000 100
      refine ⟨_, hmem, fun hpass => ?_⟩
      have hsecond := (twoWorkers_check 1000 100 hmem).mp hpass
      have hpos : 0 < cdiv m 16 := cdiv_pos hm (by decide)
      simp only [List.sum_cons, List.sum_nil] at hsecond
      omega
    obtain ⟨e, hrun, hcause⟩ :=
      hnofit (twoWorkers_prepared 1000 100) rfl 1000 (by decide) hno
    rw [hrun, hcause.resolve_right husage]

end FlashNext.Ports.KvCache
