import FlashNext.Verified.BFloat16
import Mathlib.Tactic.NormNum

/-!
# Rounded magnitudes as conversions

`IsNearestEven` compares integer values of magnitudes, with infinity as one of
them.  `Converts` compares the values of all finite patterns of both signs and
sends what is too large to infinity.  For the sign kept, the first is the
second (`converts_of_isNearestEven`).
-/

namespace FlashNext.Verified.BFloat16

open FlashNext.Verified.BinaryFormats

variable {u : BitVec 32} {v c : BitVec 16}

/-! ## Values -/

theorem bfValue_eq_units (b : Nat) : bfValue b = units 7 b * 2 ^ 16 := units_shift 7 16 b

theorem bfloat16_unit : bfloat16.unit = 2 ^ 16 * binary32.unit := by
  norm_num [Format.unit, Format.bias]

theorem bfloat16_units (b : Nat) :
    (units 7 b * bfloat16.unit : ℚ) = bfValue b * binary32.unit := by
  rw [bfloat16_unit, bfValue_eq_units]
  push_cast
  ring

theorem bfloat16_abs_value (c : BitVec 16) :
    |bfloat16.value c| = bfValue (bfloat16.magnitude c) * binary32.unit :=
  (bfloat16.abs_value c).trans (bfloat16_units _)

theorem binary32_abs_value (u : BitVec 32) :
    |binary32.value u| = magValue (binary32.magnitude u) * binary32.unit := binary32.abs_value u

theorem bfValue_infBits : bfValue infBits = 2 ^ 9 * 2 ^ 268 := by
  have hfields := units_fields (f := 7) 255 (d := 0) (by decide)
  rw [bfValue_eq_units]
  refine (congrArg (· * 2 ^ 16) hfields).trans ?_
  rw [if_neg (by decide), Nat.mul_assoc, ← Nat.pow_add]
  omega

theorem bfValue_largest : bfValue (infBits - 1) = (2 ^ 9 - 2) * 2 ^ 268 := by
  have hfields := units_fields (f := 7) 254 (d := 127) (by decide)
  rw [bfValue_eq_units]
  refine (congrArg (· * 2 ^ 16) hfields).trans ?_
  rw [if_neg (by decide), Nat.mul_assoc, ← Nat.pow_add]
  omega

/-- The middle between the largest finite pattern and infinity. -/
theorem bfloat16_overflow :
    2 * bfloat16.overflow =
      (bfValue (infBits - 1) + bfValue infBits : Nat) * binary32.unit := by
  have hsum : bfValue (infBits - 1) + bfValue infBits = (2 ^ 9 - 1) * 2 * 2 ^ 268 := by
    rw [bfValue_infBits, bfValue_largest]
    omega
  have hunit : (2 : ℚ) ^ 268 * binary32.unit = 2 ^ 119 := by
    rw [Format.unit, ← zpow_natCast, ← zpow_add₀ two_ne_zero, ← zpow_natCast]
    rfl
  rw [hsum, Nat.cast_mul, Nat.cast_pow, Nat.cast_ofNat, mul_assoc, hunit]
  norm_num [Format.overflow, Format.bias]

/-! ## Distances -/

theorem cast_dist (x y : Nat) : (dist x y : ℚ) = |(x : ℚ) - y| := by
  rcases Nat.le_total x y with h | h
  · rw [dist_of_le h, Nat.cast_sub h, abs_sub_comm, abs_of_nonneg]
    exact sub_nonneg.mpr (by exact_mod_cast h)
  · rw [dist_of_ge h, Nat.cast_sub h, abs_of_nonneg]
    exact sub_nonneg.mpr (by exact_mod_cast h)

/-- Distances of magnitudes bound distances of values. -/
theorem dist_le_abs_sub (c : BitVec 16) (u : BitVec 32) :
    dist (bfValue (bfloat16.magnitude c)) (magValue (binary32.magnitude u)) * binary32.unit ≤
      |bfloat16.value c - binary32.value u| := by
  refine le_trans (le_of_eq ?_) (abs_abs_sub_abs_le _ _)
  rw [bfloat16_abs_value, binary32_abs_value, ← sub_mul, abs_mul, cast_dist,
    abs_of_pos binary32.unit_pos]

/-- They are the same under one sign. -/
theorem abs_sub_eq_dist (hsign : v.msb = u.msb) :
    |bfloat16.value v - binary32.value u| =
      dist (bfValue (bfloat16.magnitude v)) (magValue (binary32.magnitude u)) *
        binary32.unit := by
  have hv := (bfloat16.value_eq v).trans (congrArg _ (bfloat16_units _))
  have hu := binary32.value_eq u
  rw [hv, hu, hsign, ← mul_sub, abs_mul, cast_dist, magValue_eq_units, ← sub_mul, abs_mul,
    abs_of_pos binary32.unit_pos]
  cases u.msb <;> simp

/-! ## Conversions -/

theorem bfloat16_infinity : bfloat16.infinity = infBits := by decide

theorem binary32_infinity : binary32.infinity = infBits * 2 ^ 16 := by decide

/-- Two patterns of one magnitude are as near to a number only if they are
zero, or the number is and they are nearest to it. -/
theorem eq_zero_of_opposite (h : IsNearestEven (binary32.magnitude u) (bfloat16.magnitude v))
    (hmag : bfloat16.magnitude c = bfloat16.magnitude v)
    (hvalue : bfloat16.value c ≠ bfloat16.value v)
    (htie : |bfloat16.value c - binary32.value u| = |bfloat16.value v - binary32.value u|) :
    bfloat16.magnitude v = 0 := by
  have hzero : bfValue (bfloat16.magnitude v) = 0 → bfloat16.magnitude v = 0 :=
    fun hv => bfValue_strictMono.injective hv
  have habs := bfloat16_abs_value c
  rw [hmag, ← bfloat16_abs_value v] at habs
  have hopposite : bfloat16.value c = -bfloat16.value v :=
    (abs_eq_abs.mp habs).resolve_left hvalue
  have hcases : bfloat16.value v = 0 ∨ binary32.value u = 0 := by
    rw [hopposite] at htie
    rcases abs_eq_abs.mp htie with hsame | hneg
    · exact .inl (by linarith)
    · exact .inr (by linarith)
  have hunit := ne_of_gt binary32.unit_pos
  rcases hcases with hv | hu
  · have hmul := bfloat16_abs_value v
    rw [hv, abs_zero, eq_comm, mul_eq_zero] at hmul
    exact hzero (by exact_mod_cast hmul.resolve_right hunit)
  · have hmul := binary32_abs_value u
    rw [hu, abs_zero, eq_comm, mul_eq_zero] at hmul
    have hm : magValue (binary32.magnitude u) = 0 := by
      exact_mod_cast hmul.resolve_right hunit
    have hnearest := h.nearest 0 (Nat.zero_le _)
    rw [hm] at hnearest
    have hsmall : bfValue 0 = 0 := rfl
    unfold dist at hnearest
    exact hzero (by omega)

/-- Below infinity the nearest magnitude makes the nearest pattern. -/
theorem isNearest_of_isNearestEven (hsign : v.msb = u.msb)
    (h : IsNearestEven (binary32.magnitude u) (bfloat16.magnitude v))
    (hne : bfloat16.magnitude v ≠ infBits) : bfloat16.IsNearest (binary32.value u) v := by
  have hle : ∀ c, bfloat16.IsFinite c → bfloat16.magnitude c ≤ infBits := by
    intro c hc
    rw [bfloat16.isFinite_iff, bfloat16_infinity] at hc
    exact Nat.le_of_lt hc
  constructor
  · rw [bfloat16.isFinite_iff, bfloat16_infinity]
    exact Nat.lt_of_le_of_ne h.le hne
  · intro c hc
    rw [abs_sub_eq_dist hsign]
    refine le_trans (mul_le_mul_of_nonneg_right ?_ (le_of_lt binary32.unit_pos))
      (dist_le_abs_sub c u)
    exact_mod_cast h.nearest _ (hle c hc)
  · intro c hc hvalue htie
    rw [bfloat16.even_fraction, Nat.even_iff]
    by_cases hmag : bfloat16.magnitude c = bfloat16.magnitude v
    · rw [eq_zero_of_opposite h hmag hvalue htie]
    · have hfar := dist_le_abs_sub c u
      rw [htie, abs_sub_eq_dist hsign] at hfar
      have hback := le_of_mul_le_mul_right hfar binary32.unit_pos
      exact h.even _ (hle c hc) hmag
        (Nat.le_antisymm (h.nearest _ (hle c hc)) (by exact_mod_cast hback))

/-- The nearest magnitude under the same sign is the result of a conversion. -/
theorem converts_of_isNearestEven (hsign : v.msb = u.msb)
    (h : IsNearestEven (binary32.magnitude u) (bfloat16.magnitude v)) :
    Converts binary32 bfloat16 u v := by
  have hmiddle : bfloat16.overflow ≤ |binary32.value u| ↔
      bfValue (infBits - 1) + bfValue infBits ≤ 2 * magValue (binary32.magnitude u) := by
    rw [← mul_le_mul_iff_right₀ (two_pos (α := ℚ)), bfloat16_overflow, binary32_abs_value,
      ← mul_assoc, mul_le_mul_iff_left₀ binary32.unit_pos]
    exact_mod_cast Iff.rfl
  have hbound : binary32.IsFinite u →
      magValue (binary32.magnitude u) ≤ bfValue infBits := by
    intro hfin
    rw [binary32.isFinite_iff, binary32_infinity] at hfin
    exact Nat.le_of_lt (magValue_strictMono hfin)
  refine { sign := hsign, infinite := ?_, overflow := ?_, nearest := ?_ }
  · intro hinf
    rw [binary32.isInfinite_iff, binary32_infinity] at hinf
    have hvalue : magValue (binary32.magnitude u) = bfValue infBits := congrArg magValue hinf
    have hlast : bfValue (infBits - 1) < bfValue infBits := bfValue_strictMono (by decide)
    rw [bfloat16.isInfinite_iff, bfloat16_infinity]
    exact (h.eq_infBits_iff (Nat.le_of_eq hvalue)).mpr (by omega)
  · intro hfin hlarge
    rw [bfloat16.isInfinite_iff, bfloat16_infinity]
    exact (h.eq_infBits_iff (hbound hfin)).mpr (hmiddle.mp hlarge)
  · intro hfin hsmall
    apply isNearest_of_isNearestEven hsign h
    intro hinf
    exact absurd (hmiddle.mpr ((h.eq_infBits_iff (hbound hfin)).mp hinf)) (not_le.mpr hsmall)

end FlashNext.Verified.BFloat16
