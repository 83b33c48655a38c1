import Mathlib.Algebra.Order.Floor.Ring
import Mathlib.Data.Int.Log
import Mathlib.Tactic.Linarith
import Mathlib.Tactic.Ring

/-!
# Rounding to the nearest float, ties to even

A binary format keeps a number of significant bits, and below its least
exponent keeps multiples of a fixed quantum instead.  The exponents have no
upper bound here: overflow is for the user to exclude.

* `abs_sub_roundEven_le`, `roundEven_mono` — rounding to an integer;
* `abs_sub_roundEven_div_mul_le`, `roundEven_mul_div` — rounding a quotient by
  a scale and multiplying by another;
* `abs_sub_nearest_le` — the error, relative in the normal range and absolute
  below it;
* `nearest_mono`, `nearest_nearest` — rounding is monotone and idempotent.
-/

namespace FlashNext.Verified.RoundNearest

variable {K : Type*} [Field K] [LinearOrder K] [IsStrictOrderedRing K] [FloorRing K]

/-! ## Integers -/

/-- The nearest integer, the even one of two. -/
def roundEven (x : K) : ℤ :=
  if x - ⌊x⌋ < 1 / 2 then ⌊x⌋
  else if 1 / 2 < x - ⌊x⌋ then ⌊x⌋ + 1
  else if ⌊x⌋ % 2 = 0 then ⌊x⌋ else ⌊x⌋ + 1

theorem abs_sub_roundEven_le (x : K) : |x - roundEven x| ≤ 1 / 2 := by
  have hlow := Int.floor_le x
  have hhigh := Int.lt_floor_add_one x
  unfold roundEven
  split_ifs <;> push_cast <;> rw [abs_le] <;> constructor <;> linarith

@[simp] theorem roundEven_intCast (n : ℤ) : roundEven (n : K) = n := by
  have hhalf : (n : K) - ⌊(n : K)⌋ < 1 / 2 := by
    rw [Int.floor_intCast, sub_self]
    norm_num
  rw [roundEven, if_pos hhalf, Int.floor_intCast]

theorem roundEven_mono {x y : K} (h : x ≤ y) : roundEven x ≤ roundEven y := by
  by_contra hlt
  have hx := abs_le.mp (abs_sub_roundEven_le x)
  have hy := abs_le.mp (abs_sub_roundEven_le y)
  have hstep : (roundEven y : K) + 1 ≤ roundEven x := by
    have hint : roundEven y + 1 ≤ roundEven x := by omega
    exact_mod_cast hint
  -- both are half way between the two integers
  have heq : x = y := le_antisymm h (by linarith [hx.2, hy.1])
  rw [heq] at hlt
  exact hlt le_rfl

theorem le_roundEven {x : K} {n : ℤ} (h : (n : K) ≤ x) : n ≤ roundEven x := by
  have := roundEven_mono h
  rwa [roundEven_intCast] at this

theorem roundEven_le {x : K} {n : ℤ} (h : x ≤ n) : roundEven x ≤ n := by
  have := roundEven_mono h
  rwa [roundEven_intCast] at this

theorem roundEven_eq {x : K} {n : ℤ} (h : |x - n| < 1 / 2) : roundEven x = n := by
  have hround := abs_le.mp (abs_sub_roundEven_le x)
  have hn := abs_lt.mp h
  have hlow : (n : K) - 1 < roundEven x := by linarith [hround.2, hn.1]
  have hhigh : (roundEven x : K) < n + 1 := by linarith [hround.1, hn.2]
  have hlow' : n - 1 < roundEven x := by exact_mod_cast hlow
  have hhigh' : roundEven x < n + 1 := by exact_mod_cast hhigh
  omega

/-! ## Quotients by a scale -/

section Scale

variable {x s : K} {m : ℤ}

theorem roundEven_div_bounds (hs : 0 < s) (h : |x| ≤ m * s) :
    -m ≤ roundEven (x / s) ∧ roundEven (x / s) ≤ m := by
  have hdiv : |x / s| ≤ m := by
    rw [abs_div, abs_of_pos hs, div_le_iff₀ hs]
    exact h
  obtain ⟨hlow, hhigh⟩ := abs_le.mp hdiv
  exact ⟨le_roundEven (by exact_mod_cast hlow), roundEven_le (by exact_mod_cast hhigh)⟩

/-- Half a scale for the integer, and up to `m` times the error of the scale
that is multiplied with. -/
theorem abs_sub_roundEven_div_mul_le (hs : 0 < s) (h : |x| ≤ m * s) (scale : K) :
    |x - roundEven (x / s) * scale| ≤ s / 2 + m * |scale - s| := by
  have hround := abs_sub_roundEven_le (x / s)
  obtain ⟨hlow, hhigh⟩ := roundEven_div_bounds hs h
  have hq : |(roundEven (x / s) : K)| ≤ m :=
    abs_le.mpr ⟨by exact_mod_cast hlow, by exact_mod_cast hhigh⟩
  generalize (roundEven (x / s) : K) = q at hround hq
  have hsplit : x - q * scale = (x / s - q) * s - q * (scale - s) := by
    rw [sub_mul, div_mul_cancel₀ x (ne_of_gt hs)]
    ring
  rw [hsplit]
  calc |(x / s - q) * s - q * (scale - s)|
      ≤ |x / s - q| * s + |q| * |scale - s| := by
        refine le_trans (abs_sub _ _) ?_
        rw [abs_mul, abs_mul, abs_of_pos hs]
    _ ≤ 1 / 2 * s + m * |scale - s| :=
        add_le_add (mul_le_mul_of_nonneg_right hround (le_of_lt hs))
          (mul_le_mul_of_nonneg_right hq (abs_nonneg _))
    _ = s / 2 + m * |scale - s| := by ring

/-- An integer is found again under a scale that is near enough. -/
theorem roundEven_mul_div {scale : K} {q : ℤ} (hs : 0 < s) (h : |(q : K)| * |scale - s| < s / 2) :
    roundEven (q * scale / s) = q := by
  apply roundEven_eq
  have hsplit : q * scale / s - q = q * (scale - s) / s := by
    rw [mul_sub, sub_div, mul_div_cancel_right₀ (q : K) (ne_of_gt hs)]
  rw [hsplit, abs_div, abs_of_pos hs, div_lt_iff₀ hs, abs_mul]
  linarith

end Scale

/-! ## Formats -/

/-- A binary format: the significant bits, and the exponent of the quantum of
the subnormal numbers. -/
structure FloatFormat where
  precision : ℕ
  minExponent : ℤ
  precision_pos : 0 < precision

variable (F : FloatFormat) {x y : K}

/-- The exponent of the last place at a positive number. -/
def FloatFormat.lastPlace (x : K) : ℤ :=
  max (Int.log 2 x - (F.precision - 1)) F.minExponent

/-- One unit in the last place. -/
def FloatFormat.quantum (x : K) : K := 2 ^ F.lastPlace x

/-- The nearest number of the format to a positive number. -/
def FloatFormat.nearest (x : K) : K := roundEven (x / F.quantum x) * F.quantum x

theorem FloatFormat.quantum_pos (x : K) : 0 < F.quantum x := zpow_pos two_pos _

theorem FloatFormat.lastPlace_mono (hx : 0 < x) (h : x ≤ y) :
    F.lastPlace x ≤ F.lastPlace y := by
  have := Int.log_mono_right (b := 2) hx h
  unfold FloatFormat.lastPlace
  omega

/-- Half a unit is the largest error. -/
theorem FloatFormat.abs_sub_nearest_le_quantum (x : K) :
    |x - F.nearest x| ≤ F.quantum x / 2 := by
  have hpos := F.quantum_pos x
  have hround := abs_sub_roundEven_le (x / F.quantum x)
  have hscale : x - F.nearest x =
      (x / F.quantum x - roundEven (x / F.quantum x)) * F.quantum x := by
    rw [FloatFormat.nearest, sub_mul, div_mul_cancel₀ x (ne_of_gt hpos)]
  rw [hscale, abs_mul, abs_of_pos hpos]
  calc |x / F.quantum x - roundEven (x / F.quantum x)| * F.quantum x
      ≤ 1 / 2 * F.quantum x := mul_le_mul_of_nonneg_right hround (le_of_lt hpos)
    _ = F.quantum x / 2 := by ring

/-- The error is relative in the normal range and absolute below it. -/
theorem FloatFormat.abs_sub_nearest_le (hx : 0 < x) :
    |x - F.nearest x| ≤ max (x * 2 ^ (-(F.precision : ℤ))) (2 ^ (F.minExponent - 1)) := by
  have htwo : (2 : K) ≠ 0 := two_ne_zero
  refine le_trans (F.abs_sub_nearest_le_quantum x) ?_
  unfold FloatFormat.quantum FloatFormat.lastPlace
  rcases le_total (Int.log 2 x - (F.precision - 1)) F.minExponent with hlow | hhigh
  · rw [max_eq_right hlow]
    apply le_max_of_le_right
    rw [zpow_sub_one₀ htwo, div_eq_mul_inv]
  · rw [max_eq_left hhigh]
    apply le_max_of_le_left
    have hpow := Int.zpow_log_le_self (b := 2) (by norm_num) hx
    have hsplit : (2 : K) ^ (Int.log 2 x - ((F.precision : ℤ) - 1)) / 2 =
        (2 : K) ^ Int.log 2 x * 2 ^ (-(F.precision : ℤ)) := by
      rw [← zpow_add₀ htwo, div_eq_mul_inv, ← zpow_sub_one₀ htwo]
      congr 1
      ring
    rw [hsplit]
    exact mul_le_mul_of_nonneg_right (by exact_mod_cast hpow) (le_of_lt (zpow_pos two_pos _))

/-- Below the normal range the quantum is fixed. -/
theorem FloatFormat.quantum_of_lt (hx : 0 < x) (h : x < 2 ^ (F.minExponent + F.precision)) :
    F.quantum x = 2 ^ F.minExponent := by
  have hlog : Int.log 2 x < F.minExponent + F.precision :=
    (Int.lt_zpow_iff_log_lt (by norm_num) hx).mp (by exact_mod_cast h)
  have hlast : F.lastPlace x = F.minExponent := by
    unfold FloatFormat.lastPlace
    omega
  rw [FloatFormat.quantum, hlast]

/-- Less than half a quantum is lost. -/
theorem FloatFormat.nearest_eq_zero (hx : 0 < x) (h : x < 2 ^ F.minExponent / 2) :
    F.nearest x = 0 := by
  have hpos := F.quantum_pos x
  have hmin : (2 : K) ^ F.minExponent ≤ F.quantum x :=
    zpow_le_zpow_right₀ one_le_two (le_max_right _ _)
  have hround : roundEven (x / F.quantum x) = 0 := by
    apply roundEven_eq
    rw [Int.cast_zero, sub_zero, abs_of_pos (div_pos hx hpos), div_lt_iff₀ hpos]
    linarith
  rw [FloatFormat.nearest, hround, Int.cast_zero, zero_mul]

/-! ## Multiples of the last place -/

/-- A larger power of two is a multiple of a smaller one. -/
theorem zpow_eq_mul {e l : ℤ} (h : e ≤ l) :
    (2 : K) ^ l = ((2 ^ (l - e).toNat : ℤ) : K) * 2 ^ e := by
  have htwo : (2 : K) ≠ 0 := ne_of_gt two_pos
  push_cast
  rw [← zpow_natCast, ← zpow_add₀ htwo]
  congr 1
  omega

theorem FloatFormat.nearest_le (h : ∃ m : ℤ, y = m * F.quantum x) (hxy : x ≤ y) :
    F.nearest x ≤ y := by
  obtain ⟨m, rfl⟩ := h
  have hpos := F.quantum_pos x
  have hdiv : x / F.quantum x ≤ m := (div_le_iff₀ hpos).mpr hxy
  exact mul_le_mul_of_nonneg_right (by exact_mod_cast roundEven_le hdiv) (le_of_lt hpos)

theorem FloatFormat.le_nearest (h : ∃ m : ℤ, y = m * F.quantum x) (hxy : y ≤ x) :
    y ≤ F.nearest x := by
  obtain ⟨m, rfl⟩ := h
  have hpos := F.quantum_pos x
  have hdiv : (m : K) ≤ x / F.quantum x := (le_div_iff₀ hpos).mpr hxy
  exact mul_le_mul_of_nonneg_right (by exact_mod_cast le_roundEven hdiv) (le_of_lt hpos)

theorem FloatFormat.nearest_eq (h : ∃ m : ℤ, x = m * F.quantum x) : F.nearest x = x :=
  le_antisymm (F.nearest_le h le_rfl) (F.le_nearest h le_rfl)

theorem FloatFormat.nearest_nonneg (hx : 0 < x) : 0 ≤ F.nearest x :=
  F.le_nearest ⟨0, by simp⟩ (le_of_lt hx)

/-- Where the last place moves up, a power of two lies between. -/
theorem FloatFormat.power_between (h : F.lastPlace x < F.lastPlace y) :
    x ≤ 2 ^ Int.log 2 y ∧ (∃ m : ℤ, (2 : K) ^ Int.log 2 y = m * F.quantum x) ∧
      ∃ m : ℤ, (2 : K) ^ Int.log 2 y = m * F.quantum y := by
  have hp := F.precision_pos
  have hlog : Int.log 2 x + 1 ≤ Int.log 2 y ∧ F.lastPlace y ≤ Int.log 2 y := by
    unfold FloatFormat.lastPlace at h ⊢
    omega
  refine ⟨?_, ⟨_, zpow_eq_mul (le_trans (le_of_lt h) hlog.2)⟩, ⟨_, zpow_eq_mul hlog.2⟩⟩
  have hlt := Int.lt_zpow_succ_log_self (b := 2) (by norm_num) x
  refine le_trans (le_of_lt (by exact_mod_cast hlt)) ?_
  exact zpow_le_zpow_right₀ one_le_two hlog.1

theorem FloatFormat.nearest_mono (hx : 0 < x) (h : x ≤ y) : F.nearest x ≤ F.nearest y := by
  have hy : 0 < y := lt_of_lt_of_le hx h
  rcases eq_or_lt_of_le (F.lastPlace_mono hx h) with heq | hlt
  · have hquantum : F.quantum x = F.quantum y := by
      unfold FloatFormat.quantum
      rw [heq]
    have hpos := F.quantum_pos y
    unfold FloatFormat.nearest
    rw [hquantum]
    refine mul_le_mul_of_nonneg_right ?_ (le_of_lt hpos)
    exact_mod_cast roundEven_mono (div_le_div_of_nonneg_right h (le_of_lt hpos))
  · obtain ⟨hbelow, hmx, hmy⟩ := F.power_between hlt
    have hself := Int.zpow_log_le_self (b := 2) (by norm_num) hy
    exact le_trans (F.nearest_le hmx hbelow) (F.le_nearest hmy (by exact_mod_cast hself))

/-- A number of the format is kept. -/
theorem FloatFormat.nearest_nearest (hx : 0 < x) : F.nearest (F.nearest x) = F.nearest x := by
  rcases eq_or_lt_of_le (F.nearest_nonneg hx) with hzero | hpos
  · rw [← hzero]
    exact F.nearest_eq ⟨0, by simp⟩
  apply F.nearest_eq
  rcases le_or_gt (F.lastPlace (F.nearest x)) (F.lastPlace x) with hle | hlt
  · -- a multiple of the coarser quantum is one of the finer
    refine ⟨roundEven (x / F.quantum x) * 2 ^ (F.lastPlace x - F.lastPlace (F.nearest x)).toNat,
      ?_⟩
    have hsplit : F.quantum x = _ * F.quantum (F.nearest x) := zpow_eq_mul hle
    push_cast at hsplit ⊢
    rw [mul_assoc, ← hsplit]
    rfl
  · -- rounding went up to a power of two
    obtain ⟨hbelow, hmx, hmy⟩ := F.power_between hlt
    have hself := Int.zpow_log_le_self (b := 2) (by norm_num) hpos
    have heq : F.nearest x = 2 ^ Int.log 2 (F.nearest x) :=
      le_antisymm (F.nearest_le hmx hbelow) (by exact_mod_cast hself)
    obtain ⟨m, hm⟩ := hmy
    exact ⟨m, heq.trans hm⟩

end FlashNext.Verified.RoundNearest
