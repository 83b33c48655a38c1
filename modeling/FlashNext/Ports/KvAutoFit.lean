import FlashNext.Ports.KvCacheConfigsRun

/-!
# KV-cache planning: the length that fits

Auto-fit searches for the largest length whose cache fits into the memory of
every worker.  The search writes the lengths it tries into the configuration
and puts the old one back.
-/

namespace FlashNext.Ports.KvCache

open FlashNext.Verified.Checked
open FlashNext.Verified.CheckedState

variable {env : Env}

/-! ## Usage -/

/-- What the planner relies on when it asks a spec for its memory usage: it grows
with the length, and a request of at least one token takes some.  A length whose
usage cannot be computed counts as too long. -/
structure UsageOk (env : Env) : Prop where
  pages_mono : ∀ {specs len len' b'}, len ≤ len' →
    env.maxMemoryUsagePages specs len' = .ok b' →
    ∃ b ≤ b', env.maxMemoryUsagePages specs len = .ok b
  bytes_mono : ∀ {spec len len' b'}, len ≤ len' →
    env.maxMemoryUsageBytes spec len' = .ok b' →
    ∃ b ≤ b', env.maxMemoryUsageBytes spec len = .ok b
  pages_pos : ∀ {specs len b}, 0 < len →
    env.maxMemoryUsagePages specs len = .ok b → 0 < b
  bytes_pos : ∀ {spec len b}, 0 < len →
    env.maxMemoryUsageBytes spec len = .ok b → 0 < b

theorem groupBlocks_mono (h : UsageOk env) {group : KVCacheGroupSpec}
    {len len' b' : Nat} (hle : len ≤ len')
    (hb' : groupBlocks env len' group = .ok b') :
    ∃ b ≤ b', groupBlocks env len group = .ok b := by
  unfold groupBlocks at hb' ⊢
  cases hspec : group.kvCacheSpec with
  | uniformType blockSize specs =>
      rw [hspec] at hb'
      exact h.pages_mono hle hb'
  | single spec =>
      rw [hspec] at hb'
      obtain ⟨bytes', hbytes', hb'⟩ := bind_eq_ok.mp hb'
      cases hb'
      obtain ⟨bytes, hle', hbytes⟩ := h.bytes_mono hle hbytes'
      exact ⟨_, cdiv_mono hle' _, bind_eq_ok.mpr ⟨bytes, hbytes, rfl⟩⟩

theorem groupBlocks_pos (h : UsageOk env) {group : KVCacheGroupSpec} {len b : Nat}
    (hlen : 0 < len) (hb : groupBlocks env len group = .ok b) : 0 < b := by
  unfold groupBlocks at hb
  cases hspec : group.kvCacheSpec with
  | uniformType blockSize specs =>
      rw [hspec] at hb
      exact h.pages_pos hlen hb
  | single spec =>
      rw [hspec] at hb
      obtain ⟨bytes, hbytes, hb⟩ := bind_eq_ok.mp hb
      cases hb
      exact cdiv_pos (h.bytes_pos hlen hbytes) spec.pageSizeBytes.pos

/-- The blocks of one request in all groups. -/
def requestBlocks (env : Env) (maxModelLen : Nat) (groups : List KVCacheGroupSpec) :
    Except PlanError (List Nat) :=
  groups.mapM (groupBlocks env maxModelLen)

theorem requestBlocks_mono (h : UsageOk env) {groups : List KVCacheGroupSpec}
    {len len' : Nat} {blocks' : List Nat} (hle : len ≤ len')
    (hblocks' : requestBlocks env len' groups = .ok blocks') :
    ∃ blocks, requestBlocks env len groups = .ok blocks ∧
      blocks.sum ≤ blocks'.sum := by
  unfold requestBlocks at hblocks' ⊢
  induction groups generalizing blocks' with
  | nil =>
      cases hblocks'
      exact ⟨[], rfl, Nat.le_refl _⟩
  | cons group groups ih =>
      rw [List.mapM_cons] at hblocks'
      obtain ⟨b', hb', hrest⟩ := bind_eq_ok.mp hblocks'
      obtain ⟨rest', hrest', hcons⟩ := bind_eq_ok.mp hrest
      cases hcons
      obtain ⟨b, hbb, hb⟩ := groupBlocks_mono h hle hb'
      obtain ⟨rest, hrest, hsum⟩ := ih hrest'
      refine ⟨b :: rest, ?_, ?_⟩
      · rw [List.mapM_cons, hb, hrest]
        rfl
      · rw [List.sum_cons, List.sum_cons]
        exact Nat.add_le_add hbb hsum

theorem requestBlocks_pos (h : UsageOk env) {groups : List KVCacheGroupSpec}
    (hne : groups ≠ []) {len : Nat} (hlen : 0 < len) {blocks : List Nat}
    (hblocks : requestBlocks env len groups = .ok blocks) : 0 < blocks.sum := by
  cases groups with
  | nil => exact absurd rfl hne
  | cons group groups =>
      rw [requestBlocks, List.mapM_cons] at hblocks
      obtain ⟨b, hb, hrest⟩ := bind_eq_ok.mp hblocks
      obtain ⟨rest, -, hcons⟩ := bind_eq_ok.mp hrest
      cases hcons
      have hpos := groupBlocks_pos h hlen hb
      rw [List.sum_cons]
      omega

theorem maxMemoryUsageBytesFromGroups_eq_ok {groups : List KVCacheGroupSpec}
    (hne : groups ≠ []) {len needed : Nat} :
    maxMemoryUsageBytesFromGroups env groups len = .ok needed ↔
      ∃ bytesPerBlock blocks, getKvCacheBytesPerBlock groups = .ok bytesPerBlock ∧
        requestBlocks env len groups = .ok blocks ∧
        needed = bytesPerBlock * blocks.sum := by
  have hlen : ¬ groups.length = 0 := fun heq => hne (List.length_eq_zero_iff.mp heq)
  rw [maxMemoryUsageBytesFromGroups, if_neg hlen]
  constructor
  · intro h
    obtain ⟨bytesPerBlock, hbytes, h⟩ := bind_eq_ok.mp h
    obtain ⟨blocks, hblocks, h⟩ := bind_eq_ok.mp h
    cases h
    exact ⟨bytesPerBlock, blocks, hbytes, hblocks, rfl⟩
  · rintro ⟨bytesPerBlock, blocks, hbytes, hblocks, rfl⟩
    exact bind_eq_ok.mpr ⟨_, hbytes, bind_eq_ok.mpr ⟨_, hblocks, rfl⟩⟩

/-! ## Lengths that fit -/

/-- The cache of a request of a length fits into the memory. -/
def FitsIn (env : Env) (groups : List KVCacheGroupSpec) (availableMemory : Int)
    (len : Nat) : Prop :=
  ∃ needed, maxMemoryUsageBytesFromGroups env groups len = .ok needed ∧
    (needed : Int) ≤ availableMemory

theorem FitsIn.mono (h : UsageOk env) {groups : List KVCacheGroupSpec}
    {availableMemory : Int} {len len' : Nat} (hle : len ≤ len')
    (hfits : FitsIn env groups availableMemory len') :
    FitsIn env groups availableMemory len := by
  obtain ⟨needed', hneeded', hmem⟩ := hfits
  by_cases hne : groups = []
  · refine ⟨0, by rw [hne]; rfl, ?_⟩
    rw [hne] at hneeded'
    cases hneeded'
    exact hmem
  · obtain ⟨bytesPerBlock, blocks', hbytes, hblocks', rfl⟩ :=
      (maxMemoryUsageBytesFromGroups_eq_ok hne).mp hneeded'
    obtain ⟨blocks, hblocks, hsum⟩ := requestBlocks_mono h hle hblocks'
    refine ⟨_, (maxMemoryUsageBytesFromGroups_eq_ok hne).mpr
      ⟨bytesPerBlock, blocks, hbytes, hblocks, rfl⟩, ?_⟩
    have hmul := Nat.mul_le_mul_left bytesPerBlock hsum
    omega

theorem exec_fits (groups : List KVCacheGroupSpec) (availableMemory : Int)
    (n s : Nat) : exec (fits env groups availableMemory n) s =
      ((do
        let needed ← maxMemoryUsageBytesFromGroups env groups n
        return decide ((needed : Int) ≤ availableMemory)), n) := by
  unfold fits
  rw [exec_bind_of_ok (exec_set s n), exec_bind_of_ok (exec_get n)]
  cases maxMemoryUsageBytesFromGroups env groups n with
  | error e => exact exec_bind_of_error (exec_lift _ n)
  | ok needed => exact exec_bind_of_ok (exec_lift _ n)

theorem exec_fits_eq_ok {groups : List KVCacheGroupSpec} {availableMemory : Int}
    {n s s' : Nat} {b : Bool}
    (h : exec (fits env groups availableMemory n) s = (.ok b, s')) :
    b = true ↔ FitsIn env groups availableMemory n := by
  rw [exec_fits] at h
  obtain ⟨h, -⟩ := Prod.mk.inj h
  obtain ⟨needed, hneeded, hb⟩ := bind_eq_ok.mp h
  cases hb
  rw [decide_eq_true_eq]
  constructor
  · exact fun hle => ⟨needed, hneeded, hle⟩
  · rintro ⟨needed', hneeded', hle⟩
    rw [hneeded] at hneeded'
    cases hneeded'
    exact hle

/-! ## The binary search -/

/-- No length above `n`, up to `top`, fits. -/
def NoneAbove (env : Env) (groups : List KVCacheGroupSpec) (availableMemory : Int)
    (top n : Nat) : Prop :=
  ∀ m, n < m → m ≤ top → ¬ FitsIn env groups availableMemory m

section Search

variable {groups : List KVCacheGroupSpec} {availableMemory : Int} {top : Nat}

/-- `n` fits, and nothing above it does. -/
structure LargestFit (env : Env) (groups : List KVCacheGroupSpec)
    (availableMemory : Int) (top n : Nat) : Prop where
  fit : FitsIn env groups availableMemory n
  pos : 0 < n
  cap : n ≤ max 1 top
  above : NoneAbove env groups availableMemory top n

/-- The search keeps a length that fits, and nothing above `right` ever fits. -/
theorem searchMaxModelLen_spec (husage : UsageOk env) {left right result : Nat}
    (hresult : FitsIn env groups availableMemory result) (hpos : 0 < result)
    (hcap : result ≤ max 1 top) (hleft : 0 < left) (hnext : left ≤ result + 1)
    (hright : right ≤ top)
    (habove : NoneAbove env groups availableMemory top right) {n s s' : Nat}
    (hrun : exec (searchMaxModelLen (fits env groups availableMemory) left right
      result) s = (.ok n, s')) :
    LargestFit env groups availableMemory top n := by
  induction left, right, result using searchMaxModelLen.induct generalizing s with
  | case1 left right result hle mid ihFits ihNot =>
      have hmid : left ≤ mid ∧ mid ≤ right := by omega
      unfold searchMaxModelLen at hrun
      rw [if_pos hle] at hrun
      obtain ⟨found, s₁, htry, hrun⟩ := exec_bind_eq_ok.mp hrun
      have hfits := exec_fits_eq_ok htry
      cases found with
      | true =>
          apply ihFits (hfits.mp rfl) _ _ (Nat.succ_pos mid) (Nat.le_refl _) hright
            habove hrun
          · omega
          · omega
      | false =>
          have hnot : ¬ FitsIn env groups availableMemory mid :=
            fun hfit => Bool.false_ne_true (hfits.mpr hfit)
          have hzero : ¬ mid = 0 := by omega
          rw [if_neg Bool.false_ne_true, if_neg hzero] at hrun
          apply ihNot hzero hresult hpos hcap hleft hnext _ _ hrun
          · omega
          · intro m hm hmtop hfit
            exact hnot (hfit.mono husage (by omega))
  | case2 left right result hgt =>
      unfold searchMaxModelLen at hrun
      rw [if_neg hgt] at hrun
      cases hrun
      refine { fit := hresult, pos := hpos, cap := hcap, above := ?_ }
      intro m hm
      exact habove m (by omega)

/-- The estimate of one worker; zero means that no length fits. -/
theorem estimateMaxModelLenFromGroups_spec (husage : UsageOk env) {n s' : Nat}
    (hrun : exec (estimateMaxModelLenFromGroups env groups availableMemory) top =
      (.ok n, s')) :
    NoneAbove env groups availableMemory top n ∧
      (n ≠ 0 → LargestFit env groups availableMemory top n) := by
  unfold estimateMaxModelLenFromGroups at hrun
  rw [exec_bind_of_ok (exec_get top), exec_restoring] at hrun
  obtain ⟨hsearch, -⟩ := Prod.mk.inj hrun
  obtain ⟨first, s₁, htry, hsearch⟩ := exec_bind_eq_ok.mp
    (show exec (_ >>= _) top = (.ok n, _) from Prod.ext hsearch rfl)
  have hfits := exec_fits_eq_ok htry
  cases first with
  | true =>
      have hlargest : LargestFit env groups availableMemory top n := by
        apply searchMaxModelLen_spec husage (hfits.mp rfl) Nat.one_pos
          (Nat.le_max_left _ _) Nat.one_pos (Nat.le_succ 1) (Nat.le_refl _) _ hsearch
        intro m hm hmtop
        omega
      exact ⟨hlargest.above, fun _ => hlargest⟩
  | false =>
      rw [if_neg Bool.false_ne_true] at hsearch
      cases hsearch
      refine ⟨fun m hm _ hfit => ?_, fun hne => absurd rfl hne⟩
      exact Bool.false_ne_true (hfits.mpr (hfit.mono husage hm))

/-! ## Failures of the search -/

theorem fits_error {n s s' : Nat} {e : PlanError}
    (hrun : exec (fits env groups availableMemory n) s = (.error e, s')) :
    maxMemoryUsageBytesFromGroups env groups n = .error e := by
  rw [exec_fits] at hrun
  obtain ⟨h, -⟩ := Prod.mk.inj hrun
  cases hneeded : maxMemoryUsageBytesFromGroups env groups n with
  | error e' =>
      rw [hneeded] at h
      cases h
      rfl
  | ok needed =>
      rw [hneeded] at h
      cases h

theorem searchMaxModelLen_error {left right result s s' : Nat} {e : PlanError}
    (hrun : exec (searchMaxModelLen (fits env groups availableMemory) left right
      result) s = (.error e, s')) :
    ∃ n, maxMemoryUsageBytesFromGroups env groups n = .error e := by
  induction left, right, result using searchMaxModelLen.induct generalizing s with
  | case1 left right result hle mid ihFits =>
      rename_i ihNot
      unfold searchMaxModelLen at hrun
      rw [if_pos hle] at hrun
      rcases exec_bind_eq_error hrun with htry | ⟨found, s₁, -, hrun⟩
      · exact ⟨_, fits_error htry⟩
      · cases found with
        | true => exact ihFits hrun
        | false =>
            rw [if_neg Bool.false_ne_true] at hrun
            by_cases hzero : mid = 0
            · rw [if_pos hzero] at hrun
              cases hrun
            · rw [if_neg hzero] at hrun
              exact ihNot hzero hrun
  | case2 left right result hgt =>
      unfold searchMaxModelLen at hrun
      rw [if_neg hgt] at hrun
      cases hrun

theorem estimateMaxModelLenFromGroups_error {s s' : Nat} {e : PlanError}
    (hrun : exec (estimateMaxModelLenFromGroups env groups availableMemory) s =
      (.error e, s')) :
    ∃ n, maxMemoryUsageBytesFromGroups env groups n = .error e := by
  unfold estimateMaxModelLenFromGroups at hrun
  rw [exec_bind_of_ok (exec_get s), exec_restoring] at hrun
  obtain ⟨hsearch, -⟩ := Prod.mk.inj hrun
  rcases exec_bind_eq_error
    (show exec (_ >>= _) s = (.error e, _) from Prod.ext hsearch rfl) with
    htry | ⟨first, s₁, -, hsearch⟩
  · exact ⟨1, fits_error htry⟩
  · cases first with
    | true => exact searchMaxModelLen_error hsearch
    | false =>
        rw [if_neg Bool.false_ne_true] at hsearch
        cases hsearch

end Search

/-! ## Auto-fit over the workers -/

section AutoFit

variable {workers : List (List KVCacheGroupSpec × Int)} {top : Nat}

theorem keeps_autoFitFrom (env : Env) (autoFitMax : Nat)
    (workers : List (List KVCacheGroupSpec × Int)) :
    Keeps (autoFitFrom env autoFitMax workers) := by
  induction workers generalizing autoFitMax with
  | nil => exact keeps_pure autoFitMax
  | cons worker workers ih =>
      obtain ⟨groups, availableMemory⟩ := worker
      unfold autoFitFrom
      by_cases hlen : groups.length = 0
      · rw [if_pos hlen]
        exact ih autoFitMax
      · rw [if_neg hlen]
        exact Keeps.bind (keeps_estimate _ _) fun _ => ih _

/-- A length is accepted by a worker that holds no group, or whose memory it
fits into. -/
def Accepts (env : Env) (worker : List KVCacheGroupSpec × Int) (len : Nat) : Prop :=
  worker.1 = [] ∨ FitsIn env worker.1 worker.2 len

/-- What the loop over the workers has found. -/
structure CommonFit (env : Env) (workers : List (List KVCacheGroupSpec × Int))
    (top start n : Nat) : Prop where
  le : n ≤ start
  accepted : 0 < n → ∀ worker ∈ workers, Accepts env worker n
  largest : n = start ∨ ∃ worker ∈ workers, worker.1 ≠ [] ∧
    NoneAbove env worker.1 worker.2 top n

theorem autoFitFrom_spec (husage : UsageOk env) {start n s' : Nat}
    (hrun : exec (autoFitFrom env start workers) top = (.ok n, s')) :
    CommonFit env workers top start n := by
  induction workers generalizing start with
  | nil =>
      cases hrun
      exact
        { le := Nat.le_refl _, largest := Or.inl rfl
          accepted := fun _ worker hworker => (List.not_mem_nil hworker).elim }
  | cons worker workers ih =>
      obtain ⟨groups, availableMemory⟩ := worker
      unfold autoFitFrom at hrun
      by_cases hlen : groups.length = 0
      · rw [if_pos hlen] at hrun
        have hrest := ih hrun
        refine { le := hrest.le, accepted := ?_, largest := ?_ }
        · intro hpos worker hworker
          rcases List.mem_cons.mp hworker with rfl | hmem
          · exact Or.inl (List.length_eq_zero_iff.mp hlen)
          · exact hrest.accepted hpos worker hmem
        · apply hrest.largest.imp_right
          rintro ⟨worker, hworker, hnone⟩
          exact ⟨worker, List.mem_cons_of_mem _ hworker, hnone⟩
      · rw [if_neg hlen] at hrun
        have hne : groups ≠ [] := fun hnil => hlen (List.length_eq_zero_iff.mpr hnil)
        obtain ⟨workerMax, s₁, hestimate, hloop⟩ := exec_bind_eq_ok.mp hrun
        have hs₁ : s₁ = top := by
          rw [← keeps_estimate groups availableMemory top, hestimate]
        subst hs₁
        obtain ⟨hnone, hlargest⟩ := estimateMaxModelLenFromGroups_spec husage hestimate
        have hrest := ih hloop
        have hle := hrest.le
        have hworkerMax : n ≤ workerMax := by
          by_cases hlt : workerMax < start
          · rwa [if_pos hlt] at hle
          · rw [if_neg hlt] at hle
            omega
        refine { le := ?_, accepted := ?_, largest := ?_ }
        · by_cases hlt : workerMax < start
          · omega
          · rwa [if_neg hlt] at hle
        · intro hpos worker hworker
          rcases List.mem_cons.mp hworker with rfl | hmem
          · right
            have hfit := (hlargest (by omega)).fit
            exact hfit.mono husage hworkerMax
          · exact hrest.accepted hpos worker hmem
        · rcases hrest.largest with heq | ⟨worker, hworker, hfound⟩
          · by_cases hlt : workerMax < start
            · right
              rw [if_pos hlt] at heq
              rw [heq]
              exact ⟨_, List.mem_cons_self, hne, hnone⟩
            · left
              rwa [if_neg hlt] at heq
          · right
            exact ⟨worker, List.mem_cons_of_mem _ hworker, hfound⟩

theorem autoFitFrom_error {start s s' : Nat} {e : PlanError}
    (hrun : exec (autoFitFrom env start workers) s = (.error e, s')) :
    ∃ worker ∈ workers, ∃ n,
      maxMemoryUsageBytesFromGroups env worker.1 n = .error e := by
  induction workers generalizing start s with
  | nil => cases hrun
  | cons worker workers ih =>
      obtain ⟨groups, availableMemory⟩ := worker
      have hlift : (∃ worker ∈ workers, ∃ n,
          maxMemoryUsageBytesFromGroups env worker.1 n = .error e) →
          ∃ worker ∈ (groups, availableMemory) :: workers, ∃ n,
            maxMemoryUsageBytesFromGroups env worker.1 n = .error e := by
        rintro ⟨worker, hworker, hfound⟩
        exact ⟨worker, List.mem_cons_of_mem _ hworker, hfound⟩
      unfold autoFitFrom at hrun
      by_cases hlen : groups.length = 0
      · rw [if_pos hlen] at hrun
        exact hlift (ih hrun)
      · rw [if_neg hlen] at hrun
        rcases exec_bind_eq_error hrun with hestimate | ⟨workerMax, s₁, -, hrun⟩
        · obtain ⟨n, hn⟩ := estimateMaxModelLenFromGroups_error hestimate
          exact ⟨_, List.mem_cons_self, n, hn⟩
        · exact hlift (ih hrun)

end AutoFit

end FlashNext.Ports.KvCache
