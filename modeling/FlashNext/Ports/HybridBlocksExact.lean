import FlashNext.Ports.HybridBlocks
import Mathlib.Algebra.Order.Floor.Div
import Mathlib.Algebra.Order.Group.Nat
import Mathlib.Data.Nat.GCD.Basic

/-!
# When the hybrid block alignment is consistent

On the normal path the block is the alignment unit times the number of units a
mamba page needs, in every mode; the unit of an MLA backend is a maximum, not
a common multiple.  Under host offload the block is sixteen times the steps of
sixteen tokens that fit the mamba page, whatever the other constraints ask.
-/

namespace FlashNext.Ports.HybridBlocks

open FlashNext.Verified.Checked

/-! ## Consistency -/

/-- One geometry for attention and mamba pages. -/
structure Consistent (offload : Bool) (smallest mambaPage : Nat) (cfg : VllmConfig)
    (part : PipelinePartition cfg) (out : CacheConfig) : Prop where
  kernel : smallest ∣ out.blockSize
  mla : cfg.modelConfig.useMla = true → 128 ∣ out.blockSize
  mambaBlock : cfg.cacheConfig.mambaCacheMode = .all ∨ cfg.cacheConfig.mambaCacheMode = .align →
    out.mambaBlockSize = some out.blockSize
  covers : offload = false → mambaPage ≤ out.blockSize * cfg.attnPageSize1Token
  same : offload = false →
    out.mambaPageSizePadded.getD mambaPage = out.blockSize * cfg.attnPageSize1Token
  fits : offload = true → ∀ bytes, qsaOffloadBytesPerTokenPerLayer cfg = .ok bytes →
    ∀ rank, part.residentBytes bytes out.blockSize rank ≤ mambaPage

/-! ## The quantities of the inputs -/

/-- The token unit that blocks are rounded up to. -/
def alignmentUnit (smallest : Nat) (cfg : VllmConfig) : Nat :=
  if cfg.cacheConfig.mambaCacheMode = .all then
    Nat.lcm ((baseChunkSize cfg).toOption.getD 0) (kernelBlockAlignmentSize smallest cfg)
  else kernelBlockAlignmentSize smallest cfg

/-- How many units of attention tokens a mamba page needs. -/
def unitsNeeded (smallest mambaPage : Nat) (cfg : VllmConfig) : Nat :=
  let unitPage := alignmentUnit smallest cfg * cfg.attnPageSize1Token
  (mambaPage + unitPage - 1) / unitPage

/-- Resident bytes of one token in the average share of a rank. -/
def averageTokenBytes (cfg : VllmConfig) : Nat :=
  max 1 (fullAttention cfg.layerTypes / cfg.pipelineParallelSize) *
    (qsaOffloadBytesPerTokenPerLayer cfg).toOption.getD 0

/-- How many times sixteen tokens fit the mamba page. -/
def tokenSteps (mambaPage : Nat) (cfg : VllmConfig) : Nat :=
  mambaPage / averageTokenBytes cfg / 16

/-- The early return is taken. -/
def OffloadTaken (offload : Bool) (mambaPage : Nat) (cfg : VllmConfig) : Prop :=
  offload = true ∧ 0 < fullAttention cfg.layerTypes ∧ 0 < tokenSteps mambaPage cfg

/-- What the normal path needs: for MLA, that the number of units makes up for
the factor of 128 and of the kernel block that the unit lacks. -/
structure NormalSound (offload : Bool) (smallest mambaPage : Nat) (cfg : VllmConfig)
    (part : PipelinePartition cfg) : Prop where
  mla : cfg.modelConfig.useMla = true →
    Nat.lcm smallest 128 / Nat.gcd (Nat.lcm smallest 128) (alignmentUnit smallest cfg) ∣
      unitsNeeded smallest mambaPage cfg
  stale : offload = false →
    alignmentUnit smallest cfg * unitsNeeded smallest mambaPage cfg * cfg.attnPageSize1Token =
      mambaPage →
    cfg.cacheConfig.mambaPageSizePadded.getD mambaPage = mambaPage
  ranks : offload = true → ∀ bytes, qsaOffloadBytesPerTokenPerLayer cfg = .ok bytes →
    ∀ rank, fullAttention (part.rankLayers rank) * bytes *
      (alignmentUnit smallest cfg * unitsNeeded smallest mambaPage cfg) ≤ mambaPage

/-- What the early return needs: steps that make up for the factors sixteen
lacks, no mode `all` with another block size, and no rank with more layers
than fit. -/
structure OffloadSound (smallest mambaPage : Nat) (cfg : VllmConfig)
    (part : PipelinePartition cfg) : Prop where
  kernel : smallest / Nat.gcd smallest 16 ∣ tokenSteps mambaPage cfg
  mla : cfg.modelConfig.useMla = true → 8 ∣ tokenSteps mambaPage cfg
  mode : cfg.cacheConfig.mambaCacheMode = .all →
    alignmentUnit smallest cfg * unitsNeeded smallest mambaPage cfg =
      16 * tokenSteps mambaPage cfg
  ranks : ∀ bytes, qsaOffloadBytesPerTokenPerLayer cfg = .ok bytes →
    ∀ rank, fullAttention (part.rankLayers rank) * bytes * (16 * tokenSteps mambaPage cfg) ≤
      mambaPage

/-! ## Rounding -/

theorem floordiv_ok {a b c : Nat} (h : floordiv a b = .ok c) : 0 < b ∧ c = a / b := by
  unfold floordiv at h
  by_cases hb : b = 0
  · rw [if_pos hb] at h
    cases h
  · rw [if_neg hb] at h
    exact ⟨Nat.pos_of_ne_zero hb, (Except.ok.inj h).symm⟩

theorem cdiv_ok {a b c : Nat} (h : cdiv a b = .ok c) : 0 < b ∧ c = (a + b - 1) / b := by
  unfold cdiv at h
  by_cases hb : b = 0
  · rw [if_pos hb] at h
    cases h
  · rw [if_neg hb] at h
    exact ⟨Nat.pos_of_ne_zero hb, (Except.ok.inj h).symm⟩

/-- Rounding up twice is rounding up once. -/
theorem ceil_ceil {a p u : Nat} (hp : 0 < p) (hu : 0 < u) :
    ((a + p - 1) / p + u - 1) / u = (a + u * p - 1) / (u * p) := by
  have hup : p ≤ u * p := Nat.le_mul_of_pos_left p hu
  have hsplit : a + u * p - 1 = (a + p - 1) + p * (u - 1) := by
    have hmul : p * (u - 1) = u * p - p := by
      rw [Nat.mul_sub, Nat.mul_one, Nat.mul_comm]
    omega
  rw [Nat.mul_comm u p, ← Nat.div_div_eq_div_mul, Nat.mul_comm p u, hsplit,
    Nat.add_mul_div_left _ _ hp, Nat.add_sub_assoc hu]

theorem le_ceil_mul {a b : Nat} (hb : 0 < b) : a ≤ (a + b - 1) / b * b := by
  have hle : a ≤ b • (a ⌈/⌉ b) := le_smul_ceilDiv hb
  rwa [smul_eq_mul, Nat.ceilDiv_eq_add_pred_div, Nat.mul_comm] at hle

theorem ceil_pos {a b : Nat} (ha : 0 < a) (hb : 0 < b) : 0 < (a + b - 1) / b :=
  Nat.div_pos (by omega) hb

/-- A multiple of `u` is divisible by `d` when its factor supplies what `u`
lacks. -/
theorem dvd_mul_iff {d u c : Nat} (hu : 0 < u) : d ∣ u * c ↔ d / Nat.gcd d u ∣ c := by
  rw [← Nat.dvd_gcd_mul_iff_dvd_mul]
  exact (Nat.div_dvd_iff_dvd_mul (Nat.gcd_dvd_left d u) (Nat.gcd_pos_of_pos_right d hu)).symm

/-! ## The block of the normal path -/

variable {offload : Bool} {sizes : List KernelBlockSize} {cfg : VllmConfig}
  {smallest mambaPage : Nat}

/-- The unit times the units needed, and what the mode stores. -/
theorem attnBlockSize_eq {sized : Nat × CacheConfig}
    (h : attnBlockSize cfg (kernelBlockAlignmentSize smallest cfg) mambaPage = .ok sized) :
    0 < alignmentUnit smallest cfg ∧ 0 < cfg.attnPageSize1Token ∧
      sized.1 = alignmentUnit smallest cfg * unitsNeeded smallest mambaPage cfg ∧
      sized.2 = { cfg.cacheConfig with
        mambaBlockSize := if cfg.cacheConfig.mambaCacheMode = .all then some sized.1
          else cfg.cacheConfig.mambaBlockSize } := by
  unfold attnBlockSize at h
  by_cases hall : cfg.cacheConfig.mambaCacheMode = .all
  · rw [if_pos hall] at h
    obtain ⟨base, hbase, h⟩ := bind_eq_ok.mp h
    obtain ⟨tokens, htokens, h⟩ := bind_eq_ok.mp h
    obtain ⟨chunks, hchunks, h⟩ := bind_eq_ok.mp h
    obtain ⟨hp, rfl⟩ := cdiv_ok htokens
    obtain ⟨hu, rfl⟩ := cdiv_ok hchunks
    have hunit : alignmentUnit smallest cfg =
        Nat.lcm base (kernelBlockAlignmentSize smallest cfg) := by
      rw [alignmentUnit, if_pos hall, hbase]
      rfl
    rw [← hunit] at h hu
    cases h
    refine ⟨hu, hp, ?_, ?_⟩
    · show alignmentUnit smallest cfg * _ = _
      rw [ceil_ceil hp hu]
      rfl
    · rw [if_pos hall]
  · rw [if_neg hall] at h
    obtain ⟨blocks, hblocks, h⟩ := bind_eq_ok.mp h
    obtain ⟨hpos, rfl⟩ := cdiv_ok hblocks
    have hunit : alignmentUnit smallest cfg = kernelBlockAlignmentSize smallest cfg := by
      rw [alignmentUnit, if_neg hall]
    cases h
    rw [← hunit] at hpos
    refine ⟨Nat.pos_of_mul_pos_right hpos, Nat.pos_of_mul_pos_left hpos, ?_, ?_⟩
    · rw [hunit, unitsNeeded, hunit]
    · rw [if_neg hall]

theorem unitsNeeded_pos (hpage : 0 < mambaPage) (hunit : 0 < alignmentUnit smallest cfg)
    (hp : 0 < cfg.attnPageSize1Token) : 0 < unitsNeeded smallest mambaPage cfg :=
  ceil_pos hpage (Nat.mul_pos hunit hp)

/-- The block covers the mamba page. -/
theorem mambaPage_le (hunit : 0 < alignmentUnit smallest cfg)
    (hp : 0 < cfg.attnPageSize1Token) :
    mambaPage ≤ alignmentUnit smallest cfg * unitsNeeded smallest mambaPage cfg *
      cfg.attnPageSize1Token := by
  have hle := le_ceil_mul (a := mambaPage) (Nat.mul_pos hunit hp)
  rw [Nat.mul_comm (alignmentUnit smallest cfg), Nat.mul_assoc]
  exact hle

/-- The block is no smaller than the one before. -/
theorem blockSize_le (hpage : 0 < mambaPage) (hunit : 0 < alignmentUnit smallest cfg)
    (hp : 0 < cfg.attnPageSize1Token) :
    cfg.cacheConfig.blockSize ≤
      alignmentUnit smallest cfg * unitsNeeded smallest mambaPage cfg := by
  have halign : cfg.cacheConfig.blockSize ≤ kernelBlockAlignmentSize smallest cfg := by
    simp only [kernelBlockAlignmentSize]
    split <;> omega
  have hle : kernelBlockAlignmentSize smallest cfg ≤ alignmentUnit smallest cfg := by
    by_cases hall : cfg.cacheConfig.mambaCacheMode = .all
    · rw [alignmentUnit, if_pos hall] at hunit ⊢
      exact Nat.le_of_dvd hunit (Nat.dvd_lcm_right _ _)
    · rw [alignmentUnit, if_neg hall]
  have hmul := Nat.le_mul_of_pos_right (alignmentUnit smallest cfg)
    (unitsNeeded_pos hpage hunit hp)
  omega

/-- Without MLA the unit is a multiple of the kernel block. -/
theorem smallest_dvd_unit (hmla : cfg.modelConfig.useMla = false)
    (hblock : smallest ∣ cfg.cacheConfig.blockSize) :
    smallest ∣ alignmentUnit smallest cfg := by
  have halign : smallest ∣ kernelBlockAlignmentSize smallest cfg := by
    rw [kernelBlockAlignmentSize, hmla, if_neg Bool.false_ne_true]
    by_cases hzero : cfg.cacheConfig.blockSize = 0
    · rw [hzero, Nat.max_zero]
    · rw [Nat.max_eq_right (Nat.le_of_dvd (Nat.pos_of_ne_zero hzero) hblock)]
      exact hblock
  by_cases hall : cfg.cacheConfig.mambaCacheMode = .all
  · rw [alignmentUnit, if_pos hall]
    exact halign.trans (Nat.dvd_lcm_right _ _)
  · rw [alignmentUnit, if_neg hall]
    exact halign

/-- What the normal path returns. -/
structure NormalReturn (smallest mambaPage : Nat) (cfg : VllmConfig) (out : CacheConfig) :
    Prop where
  unit_pos : 0 < alignmentUnit smallest cfg
  page_pos : 0 < cfg.attnPageSize1Token
  block : out.blockSize = alignmentUnit smallest cfg * unitsNeeded smallest mambaPage cfg
  mambaBlock : cfg.cacheConfig.mambaCacheMode = .all ∨ cfg.cacheConfig.mambaCacheMode = .align →
    out.mambaBlockSize = some out.blockSize
  padded : out.mambaPageSizePadded =
    if out.blockSize * cfg.attnPageSize1Token = mambaPage then cfg.cacheConfig.mambaPageSizePadded
    else some (out.blockSize * cfg.attnPageSize1Token)

theorem padMambaPage_eq {sized : Nat × CacheConfig} {out : CacheConfig}
    (hpage : 0 < mambaPage)
    (hsized : attnBlockSize cfg (kernelBlockAlignmentSize smallest cfg) mambaPage = .ok sized)
    (h : padMambaPage sized.2 sized.1 cfg.attnPageSize1Token mambaPage = .ok out) :
    NormalReturn smallest mambaPage cfg out := by
  obtain ⟨hunit, hp, hsize, hcache⟩ := attnBlockSize_eq hsized
  have hle := blockSize_le hpage hunit hp
  rw [← hsize] at hle
  -- the block is raised to the size found, or was that size before
  have hraise : (if sized.2.blockSize < sized.1 then sized.1 else sized.2.blockSize) =
      sized.1 := by
    rw [hcache]
    show (if cfg.cacheConfig.blockSize < sized.1 then _ else cfg.cacheConfig.blockSize) = _
    split <;> omega
  have hmode : sized.2.mambaCacheMode = cfg.cacheConfig.mambaCacheMode := by rw [hcache]
  have hpad : sized.2.mambaPageSizePadded = cfg.cacheConfig.mambaPageSizePadded := by rw [hcache]
  have hmamba : cfg.cacheConfig.mambaCacheMode = .all →
      sized.2.mambaBlockSize = some sized.1 := by
    intro hall
    rw [hcache]
    exact if_pos hall
  have hstored : cfg.cacheConfig.mambaCacheMode = .all ∨
      cfg.cacheConfig.mambaCacheMode = .align →
      (if sized.2.mambaCacheMode = .align then some sized.1 else sized.2.mambaBlockSize) =
        some sized.1 := by
    rintro (hall | halign)
    · rw [hmode, hall, if_neg (by decide), hmamba hall]
    · rw [hmode, halign, if_pos rfl]
  simp only [padMambaPage, hraise, hpad] at h
  by_cases hshort : sized.1 * cfg.attnPageSize1Token < mambaPage
  · rw [if_pos hshort] at h
    cases h
  · rw [if_neg hshort] at h
    by_cases hexact : sized.1 * cfg.attnPageSize1Token = mambaPage
    · rw [if_pos hexact] at h
      cases h
      exact ⟨hunit, hp, hsize, hstored, (if_pos hexact).symm⟩
    · rw [if_neg hexact] at h
      by_cases hset : cfg.cacheConfig.mambaPageSizePadded =
          some (sized.1 * cfg.attnPageSize1Token)
      · rw [if_neg (not_not.mpr hset)] at h
        cases h
        exact ⟨hunit, hp, hsize, hstored, by rw [if_neg hexact]; exact hset⟩
      · rw [if_pos hset] at h
        cases h
        exact ⟨hunit, hp, hsize, hstored, (if_neg hexact).symm⟩

/-! ## The early return -/

theorem qsaOffloadBlockSize_eq {size? : Option Nat}
    (h : qsaOffloadBlockSize offload cfg mambaPage = .ok size?) (hpage : 0 < mambaPage) :
    (OffloadTaken offload mambaPage cfg → size? = some (16 * tokenSteps mambaPage cfg)) ∧
      (¬ OffloadTaken offload mambaPage cfg → size? = none) := by
  unfold qsaOffloadBlockSize at h
  by_cases hguard : offload = false ∨ cfg.layerTypes = [] ∨ mambaPage = 0 ∨
      fullAttention cfg.layerTypes = 0
  · rw [if_pos hguard] at h
    have hnot : ¬ OffloadTaken offload mambaPage cfg := by
      rintro ⟨hon, hfull, -⟩
      rcases hguard with hoff | hnil | hzero | hnone
      · rw [hon] at hoff
        cases hoff
      · rw [hnil] at hfull
        exact absurd hfull (Nat.lt_irrefl 0)
      · omega
      · omega
    exact ⟨fun htaken => absurd htaken hnot, fun _ => (Except.ok.inj h).symm⟩
  · rw [if_neg hguard] at h
    obtain ⟨layers, hlayers, h⟩ := bind_eq_ok.mp h
    obtain ⟨bytes, hbytes, h⟩ := bind_eq_ok.mp h
    obtain ⟨tokens, htokens, h⟩ := bind_eq_ok.mp h
    obtain ⟨-, rfl⟩ := floordiv_ok hlayers
    obtain ⟨-, rfl⟩ := floordiv_ok htokens
    have haverage : averageTokenBytes cfg =
        max 1 (fullAttention cfg.layerTypes / cfg.pipelineParallelSize) * bytes := by
      rw [averageTokenBytes, hbytes]
      rfl
    rw [← haverage] at h
    have hsteps : mambaPage / averageTokenBytes cfg / 16 * 16 =
        16 * tokenSteps mambaPage cfg := Nat.mul_comm _ _
    rw [hsteps] at h
    have hsize := (Except.ok.inj h).symm
    constructor
    · rintro ⟨-, -, hsome⟩
      rw [hsize, if_pos (by omega)]
    · intro hnot
      rw [hsize, if_neg]
      intro hge
      apply hnot
      refine ⟨?_, ?_, by omega⟩
      · by_contra hoff
        exact hguard (Or.inl (Bool.eq_false_iff.mpr hoff))
      · apply Nat.pos_of_ne_zero
        exact fun hzero => hguard (Or.inr (Or.inr (Or.inr hzero)))

variable {part : PipelinePartition cfg} {out : CacheConfig}

/-! ## The two paths -/

theorem NormalReturn.consistent_iff (hret : NormalReturn smallest mambaPage cfg out)
    (hblock : smallest ∣ cfg.cacheConfig.blockSize) :
    Consistent offload smallest mambaPage cfg part out ↔
      NormalSound offload smallest mambaPage cfg part := by
  have hlcm : smallest ∣ out.blockSize ∧ 128 ∣ out.blockSize ↔
      Nat.lcm smallest 128 / Nat.gcd (Nat.lcm smallest 128) (alignmentUnit smallest cfg) ∣
        unitsNeeded smallest mambaPage cfg := by
    rw [← dvd_mul_iff hret.unit_pos, ← hret.block, Nat.lcm_dvd_iff]
  constructor
  · intro h
    refine ⟨fun hmla => hlcm.mp ⟨h.kernel, h.mla hmla⟩, ?_, ?_⟩
    · intro hoff hexact
      rw [← hret.block] at hexact
      have hsame := h.same hoff
      rw [hret.padded, if_pos hexact, hexact] at hsame
      exact hsame
    · intro hon bytes hbytes rank
      rw [← hret.block]
      exact h.fits hon bytes hbytes rank
  · intro h
    have hkernel : smallest ∣ out.blockSize := by
      by_cases hmla : cfg.modelConfig.useMla = true
      · exact (hlcm.mpr (h.mla hmla)).1
      · rw [hret.block]
        exact (smallest_dvd_unit (Bool.eq_false_iff.mpr hmla) hblock).mul_right _
    refine ⟨hkernel, fun hmla => (hlcm.mpr (h.mla hmla)).2, hret.mambaBlock, ?_, ?_, ?_⟩
    · intro _
      rw [hret.block]
      exact mambaPage_le hret.unit_pos hret.page_pos
    · intro hoff
      rw [hret.padded]
      by_cases hexact : out.blockSize * cfg.attnPageSize1Token = mambaPage
      · rw [if_pos hexact, hexact]
        rw [hret.block] at hexact
        exact h.stale hoff hexact
      · rw [if_neg hexact]
        rfl
    · intro hon bytes hbytes rank
      rw [PipelinePartition.residentBytes, hret.block]
      exact h.ranks hon bytes hbytes rank

theorem offloadReturn_consistent_iff {sized : Nat × CacheConfig} (hon : offload = true)
    (hsized : attnBlockSize cfg (kernelBlockAlignmentSize smallest cfg) mambaPage = .ok sized) :
    Consistent offload smallest mambaPage cfg part
        (offloadReturn sized.2 (16 * tokenSteps mambaPage cfg) mambaPage) ↔
      OffloadSound smallest mambaPage cfg part := by
  obtain ⟨hunit, hp, hsize, hcache⟩ := attnBlockSize_eq hsized
  have hmode : sized.2.mambaCacheMode = cfg.cacheConfig.mambaCacheMode := by rw [hcache]
  have hmamba : cfg.cacheConfig.mambaCacheMode = .all →
      sized.2.mambaBlockSize =
        some (alignmentUnit smallest cfg * unitsNeeded smallest mambaPage cfg) := by
    intro hall
    rw [hcache, ← hsize]
    exact if_pos hall
  constructor
  · intro h
    refine ⟨(dvd_mul_iff (by decide)).mp h.kernel, ?_, ?_, ?_⟩
    · intro hmla
      have := h.mla hmla
      change 128 ∣ 16 * tokenSteps mambaPage cfg at this
      omega
    · intro hall
      have hstored := h.mambaBlock (Or.inl hall)
      rw [offloadReturn, hmode, hall, if_neg (by decide), hmamba hall] at hstored
      exact Option.some.inj hstored
    · intro bytes hbytes rank
      exact h.fits hon bytes hbytes rank
  · intro h
    refine ⟨(dvd_mul_iff (by decide)).mpr h.kernel, ?_, ?_, ?_, ?_, ?_⟩
    · intro hmla
      have := h.mla hmla
      show 128 ∣ 16 * tokenSteps mambaPage cfg
      omega
    · rintro (hall | halign)
      · rw [offloadReturn, hmode, hall, if_neg (by decide), hmamba hall]
        exact congrArg some (h.mode hall)
      · rw [offloadReturn, hmode, halign, if_pos rfl]
    · intro hoff
      rw [hon] at hoff
      cases hoff
    · intro hoff
      rw [hon] at hoff
      cases hoff
    · exact fun _ bytes hbytes rank => h.ranks bytes hbytes rank

/-- No rank overruns the mamba page when none has more full-attention layers
than the average share. -/
theorem residentBytes_le {bytes rank : Nat}
    (hbytes : qsaOffloadBytesPerTokenPerLayer cfg = .ok bytes)
    (hshare : fullAttention (part.rankLayers rank) ≤
      max 1 (fullAttention cfg.layerTypes / cfg.pipelineParallelSize)) :
    fullAttention (part.rankLayers rank) * bytes * (16 * tokenSteps mambaPage cfg) ≤
      mambaPage := by
  have hbyte : fullAttention (part.rankLayers rank) * bytes ≤ averageTokenBytes cfg := by
    rw [averageTokenBytes, hbytes]
    exact Nat.mul_le_mul_right bytes hshare
  have hsteps : 16 * tokenSteps mambaPage cfg ≤ mambaPage / averageTokenBytes cfg :=
    Nat.mul_div_le _ 16
  calc fullAttention (part.rankLayers rank) * bytes * (16 * tokenSteps mambaPage cfg)
      ≤ averageTokenBytes cfg * (mambaPage / averageTokenBytes cfg) :=
        Nat.mul_le_mul hbyte hsteps
    _ ≤ mambaPage := Nat.mul_div_le _ _

/-- The alignment is consistent exactly when the path it takes is sound for
these inputs. -/
theorem alignment_consistent_iff (offload : Bool) (sizes : List KernelBlockSize)
    (cfg : VllmConfig) (part : PipelinePartition cfg) (smallest mambaPage : Nat)
    (out : CacheConfig) (hpage : cfg.modelConfig.mambaPageSize = .ok mambaPage)
    (hpos : 0 < mambaPage) (hsmallest : smallestKernelBlock sizes = .ok smallest)
    (hblock : smallest ∣ cfg.cacheConfig.blockSize)
    (hrun : alignHybridBlockSize offload sizes cfg = .ok out) :
    Consistent offload smallest mambaPage cfg part out ↔
      (OffloadTaken offload mambaPage cfg → OffloadSound smallest mambaPage cfg part) ∧
        (¬ OffloadTaken offload mambaPage cfg →
          NormalSound offload smallest mambaPage cfg part) := by
  unfold alignHybridBlockSize at hrun
  rw [hpage, ok_bind, if_neg (Nat.ne_of_gt hpos), hsmallest, ok_bind] at hrun
  obtain ⟨sized, hsized, hrun⟩ := bind_eq_ok.mp hrun
  obtain ⟨size?, hsize, hrun⟩ := bind_eq_ok.mp hrun
  obtain ⟨htaken, hnot⟩ := qsaOffloadBlockSize_eq hsize hpos
  by_cases h : OffloadTaken offload mambaPage cfg
  · rw [htaken h] at hrun
    cases hrun
    rw [offloadReturn_consistent_iff h.1 hsized]
    exact ⟨fun hs => ⟨fun _ => hs, fun hn => absurd h hn⟩, fun hs => hs.1 h⟩
  · rw [hnot h] at hrun
    rw [(padMambaPage_eq hpos hsized hrun).consistent_iff hblock]
    exact ⟨fun hs => ⟨fun ht => absurd ht h, fun _ => hs⟩, fun hs => hs.2 h⟩

/-- An MLA model with pages of 1152 bytes a token. -/
def mlaConfig (blockSize mambaPage : Nat) : VllmConfig where
  cacheConfig := { blockSize := blockSize, mambaCacheMode := .align }
  modelConfig := { useMla := true, mlaPage := 1152, mambaStatePage := mambaPage }

/-- Forty-eight layers on three ranks, every fourth with full attention. -/
def offloadConfig : VllmConfig where
  cacheConfig := { blockSize := 16, mambaCacheMode := .align }
  modelConfig :=
    { attnPage := 1024, mambaStatePage := 3276800
      hfTextConfig :=
        { indexerHeadDim := 128, indexerCompressRatio := 4
          layerTypes := some ((List.replicate 12
            [LayerKind.other, .other, .other, .fullAttention]).flatten) } }
  pipelineParallelSize := 3

def onePartition (blockSize mambaPage : Nat) : PipelinePartition (mlaConfig blockSize mambaPage) :=
  ⟨[0], rfl, rfl⟩

/-- Five of the twelve full-attention layers fall on the second rank. -/
def unevenPartition : PipelinePartition offloadConfig := ⟨[18, 18, 12], rfl, rfl⟩

theorem alignment_consistent_iff_mla :
    ∃ out, alignHybridBlockSize false [.multipleOf 64] (mlaConfig 64 221184) = .ok out ∧
      Consistent false 64 221184 (mlaConfig 64 221184) (onePartition 64 221184) out := by
  refine ⟨_, rfl, (alignment_consistent_iff false [.multipleOf 64] (mlaConfig 64 221184)
    (onePartition 64 221184) 64 221184 _ rfl (by decide) rfl (by decide) rfl).mpr ⟨?_, ?_⟩⟩
  · rintro ⟨hoff, -, -⟩
    cases hoff
  · intro _
    exact ⟨fun _ => by decide, fun _ _ => rfl, nofun⟩

/-- A block of 192 tokens is kept for MLA, and a rank with more layers than
the average overruns the mamba page. -/
theorem misaligned_blocks :
    (∃ out, alignHybridBlockSize false [.multipleOf 64] (mlaConfig 192 200000) = .ok out ∧
      ¬ Consistent false 64 200000 (mlaConfig 192 200000) (onePartition 192 200000) out) ∧
    ∃ out, alignHybridBlockSize true [.multipleOf 16] offloadConfig = .ok out ∧
      ¬ Consistent true 16 3276800 offloadConfig unevenPartition out := by
  refine ⟨⟨_, rfl, fun h => ?_⟩, ⟨_, rfl, fun h => ?_⟩⟩
  · have hmla := h.mla rfl
    exact absurd hmla (by decide)
  · have hfits := h.fits rfl 66 rfl 1
    exact absurd hfits (by decide)

end FlashNext.Ports.HybridBlocks
