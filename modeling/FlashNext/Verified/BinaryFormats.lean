import Mathlib.Algebra.Order.Field.Power
import Mathlib.Algebra.Order.Field.Rat
import Mathlib.Algebra.Ring.Parity
import Mathlib.Tactic.FieldSimp
import Mathlib.Tactic.Linarith
import Mathlib.Tactic.Ring

/-!
# Binary interchange formats

A pattern is a sign bit, an exponent field and a fraction field.  The exponent
field zero stands for subnormal numbers, the largest one for infinities and
NaNs.  Without its sign bit a pattern is a number that grows with the value it
stands for, across all exponents.

* `units_succ`, `units_strictMono` — the value of a magnitude, in units of the
  least subnormal number;
* `value_eq` — the value of a pattern by its sign and magnitude;
* `Converts.unique` — a conversion between formats that rounds to nearest, ties
  to even, has one result.
-/

namespace FlashNext.Verified.BinaryFormats

/-! ## Magnitudes -/

/-- The value of a magnitude with `f` fraction bits, in units of the least
subnormal number. -/
def units (f m : ℕ) : ℕ :=
  if m / 2 ^ f = 0 then m else (2 ^ f + m % 2 ^ f) * 2 ^ (m / 2 ^ f - 1)

/-- The value by exponent and fraction field. -/
theorem units_fields {f : ℕ} (t : ℕ) {d : ℕ} (hd : d < 2 ^ f) :
    units f (t * 2 ^ f + d) = if t = 0 then d else (2 ^ f + d) * 2 ^ (t - 1) := by
  have hdiv : (t * 2 ^ f + d) / 2 ^ f = t := by
    rw [Nat.add_comm, Nat.add_mul_div_right _ _ (Nat.two_pow_pos f), Nat.div_eq_of_lt hd,
      Nat.zero_add]
  have hmod : (t * 2 ^ f + d) % 2 ^ f = d := by
    rw [Nat.add_comm, Nat.add_mul_mod_self_right, Nat.mod_eq_of_lt hd]
  unfold units
  rw [hdiv, hmod]
  by_cases ht : t = 0
  · rw [if_pos ht, if_pos ht, ht, Nat.zero_mul, Nat.zero_add]
  · rw [if_neg ht, if_neg ht]

/-- Neighbouring magnitudes differ by one unit in the last place. -/
theorem units_succ (f m : ℕ) : units f (m + 1) = units f m + 2 ^ (m / 2 ^ f - 1) := by
  have hpos := Nat.two_pow_pos f
  have hd := Nat.mod_lt m hpos
  have hm : m = m / 2 ^ f * 2 ^ f + m % 2 ^ f := by
    rw [Nat.mul_comm]
    exact (Nat.div_add_mod m (2 ^ f)).symm
  generalize m / 2 ^ f = t at hm ⊢
  generalize m % 2 ^ f = d at hm hd
  rw [hm, units_fields t hd]
  by_cases hlast : d + 1 = 2 ^ f
  · -- the fraction is full: the next magnitude has the next exponent
    have hnext : t * 2 ^ f + d + 1 = (t + 1) * 2 ^ f + 0 := by
      rw [Nat.add_assoc, hlast, Nat.succ_mul, Nat.add_zero]
    rw [hnext, units_fields (t + 1) hpos, if_neg (Nat.succ_ne_zero t), Nat.add_sub_cancel,
      Nat.add_zero]
    cases t with
    | zero =>
        rw [if_pos rfl, Nat.zero_sub, Nat.pow_zero, hlast, Nat.mul_one]
    | succ t =>
        rw [if_neg (Nat.succ_ne_zero t), Nat.add_sub_cancel, Nat.pow_succ]
        have hd' : 2 ^ f + d + 1 = 2 * 2 ^ f := by omega
        calc 2 ^ f * (2 ^ t * 2) = (2 * 2 ^ f) * 2 ^ t := by ring
          _ = (2 ^ f + d + 1) * 2 ^ t := by rw [hd']
          _ = (2 ^ f + d) * 2 ^ t + 2 ^ t := by ring
  · rw [Nat.add_assoc, units_fields t (by omega)]
    by_cases ht : t = 0
    · rw [if_pos ht, if_pos ht, ht, Nat.zero_sub, Nat.pow_zero]
    · rw [if_neg ht, if_neg ht]
      ring

theorem units_strictMono (f : ℕ) : StrictMono (units f) := by
  refine strictMono_nat_of_lt_succ fun m => ?_
  rw [units_succ]
  exact Nat.lt_add_of_pos_right (Nat.two_pow_pos _)

/-- Further fraction bits that are all zero scale the unit. -/
theorem units_shift (f k m : ℕ) : units (f + k) (m * 2 ^ k) = units f m * 2 ^ k := by
  unfold units
  rw [Nat.pow_add, Nat.mul_div_mul_right _ _ (Nat.two_pow_pos k), Nat.mul_mod_mul_right]
  by_cases hzero : m / 2 ^ f = 0
  · rw [if_pos hzero, if_pos hzero]
  · rw [if_neg hzero, if_neg hzero]
    ring

/-! ## Formats -/

/-- The widths of the exponent and of the fraction field. -/
structure Format where
  expBits : ℕ
  fracBits : ℕ
  fracBits_pos : 0 < fracBits

abbrev binary32 : Format := ⟨8, 23, by decide⟩

abbrev bfloat16 : Format := ⟨8, 7, by decide⟩

/-- A pattern: sign, exponent and fraction. -/
abbrev Format.Pattern (F : Format) := BitVec (1 + F.expBits + F.fracBits)

variable (F : Format)

def Format.exponent (v : F.Pattern) : ℕ := v.toNat / 2 ^ F.fracBits % 2 ^ F.expBits

def Format.fraction (v : F.Pattern) : ℕ := v.toNat % 2 ^ F.fracBits

def Format.IsNaN (v : F.Pattern) : Prop :=
  F.exponent v = 2 ^ F.expBits - 1 ∧ F.fraction v ≠ 0

def Format.IsInfinite (v : F.Pattern) : Prop :=
  F.exponent v = 2 ^ F.expBits - 1 ∧ F.fraction v = 0

def Format.IsFinite (v : F.Pattern) : Prop := F.exponent v < 2 ^ F.expBits - 1

instance (v : F.Pattern) : Decidable (F.IsNaN v) := inferInstanceAs (Decidable (_ ∧ _))

instance (v : F.Pattern) : Decidable (F.IsInfinite v) := inferInstanceAs (Decidable (_ ∧ _))

instance (v : F.Pattern) : Decidable (F.IsFinite v) := inferInstanceAs (Decidable (_ < _))

def Format.bias : ℤ := 2 ^ (F.expBits - 1) - 1

/-- The fraction behind the leading digit, which is zero for subnormal
numbers. -/
def Format.significand (v : F.Pattern) : ℚ :=
  (if F.exponent v = 0 then 0 else 1) + F.fraction v / 2 ^ F.fracBits

/-- The value of a finite pattern. -/
def Format.value (v : F.Pattern) : ℚ :=
  (if v.msb then -1 else 1) * F.significand v * 2 ^ ((max (F.exponent v) 1 : ℕ) - F.bias)

/-- From here on a value is rounded to infinity: half a unit in the last place
above the largest finite number. -/
def Format.overflow : ℚ := 2 ^ F.bias * (2 - 2 ^ (-(F.fracBits + 1 : ℤ)))

variable {F : Format} {v v' : F.Pattern}

theorem Format.isFinite_or_isInfinite (h : ¬ F.IsNaN v) : F.IsFinite v ∨ F.IsInfinite v := by
  have hlt : F.exponent v < 2 ^ F.expBits := Nat.mod_lt _ (Nat.two_pow_pos _)
  by_cases hmax : F.exponent v = 2 ^ F.expBits - 1
  · exact .inr ⟨hmax, not_not.mp fun hfraction => h ⟨hmax, hfraction⟩⟩
  · exact .inl (by unfold Format.IsFinite; omega)

/-! ## Sign and magnitude -/

/-- A pattern without its sign bit. -/
def Format.magnitude (F : Format) (v : F.Pattern) : ℕ := v.toNat % 2 ^ (F.expBits + F.fracBits)

theorem Format.magnitude_lt (v : F.Pattern) :
    F.magnitude v < 2 ^ (F.expBits + F.fracBits) := Nat.mod_lt _ (Nat.two_pow_pos _)

theorem Format.exponent_eq (v : F.Pattern) :
    F.exponent v = F.magnitude v / 2 ^ F.fracBits := by
  rw [Format.exponent, Format.magnitude, Nat.pow_add, Nat.mul_comm,
    Nat.mod_mul_right_div_self]

theorem Format.fraction_eq (v : F.Pattern) :
    F.fraction v = F.magnitude v % 2 ^ F.fracBits := by
  rw [Format.fraction, Format.magnitude, Nat.pow_add, Nat.mod_mul_left_mod]

theorem Format.toNat_eq (v : F.Pattern) :
    v.toNat = v.msb.toNat * 2 ^ (F.expBits + F.fracBits) + F.magnitude v := by
  have hlt := v.isLt
  have hwidth : 2 ^ (1 + F.expBits + F.fracBits) = 2 * 2 ^ (F.expBits + F.fracBits) := by
    rw [Nat.add_assoc, Nat.pow_add, Nat.pow_one]
  have hmsb : v.msb = decide (2 ^ (F.expBits + F.fracBits) ≤ v.toNat) := by
    rw [BitVec.msb_eq_decide]
    congr 3
    omega
  rw [hwidth] at hlt
  rw [hmsb, Format.magnitude]
  generalize 2 ^ (F.expBits + F.fracBits) = n at hlt
  by_cases hge : n ≤ v.toNat
  · rw [Nat.mod_eq_sub_mod hge, Nat.mod_eq_of_lt (by omega)]
    simp only [hge, decide_true, Bool.toNat_true]
    omega
  · rw [Nat.mod_eq_of_lt (Nat.lt_of_not_ge hge)]
    simp [hge]

/-- A pattern is its sign and its magnitude. -/
theorem Format.pattern_ext (hsign : v.msb = v'.msb) (hmag : F.magnitude v = F.magnitude v') :
    v = v' := by
  apply BitVec.eq_of_toNat_eq
  rw [F.toNat_eq v, F.toNat_eq v', hsign, hmag]

theorem Format.exists_pattern (F : Format) (negative : Bool) {m : ℕ}
    (hm : m < 2 ^ (F.expBits + F.fracBits)) :
    ∃ v : F.Pattern, v.msb = negative ∧ F.magnitude v = m := by
  have hwidth : 2 ^ (1 + F.expBits + F.fracBits) = 2 * 2 ^ (F.expBits + F.fracBits) := by
    rw [Nat.add_assoc, Nat.pow_add, Nat.pow_one]
  have hnat : (BitVec.ofNat (1 + F.expBits + F.fracBits)
      (negative.toNat * 2 ^ (F.expBits + F.fracBits) + m)).toNat =
      negative.toNat * 2 ^ (F.expBits + F.fracBits) + m := by
    rw [BitVec.toNat_ofNat, hwidth]
    apply Nat.mod_eq_of_lt
    cases negative <;> simp <;> omega
  refine ⟨.ofNat _ (negative.toNat * 2 ^ (F.expBits + F.fracBits) + m), ?_, ?_⟩
  · rw [BitVec.msb_eq_decide, hnat]
    have hexp : 1 + F.expBits + F.fracBits - 1 = F.expBits + F.fracBits := by omega
    rw [hexp]
    cases negative
    · simp [hm]
    · simp
  · rw [Format.magnitude, hnat, Nat.mul_comm, Nat.mul_add_mod, Nat.mod_eq_of_lt hm]

/-- The magnitude of the infinities. -/
def Format.infinity (F : Format) : ℕ := (2 ^ F.expBits - 1) * 2 ^ F.fracBits

theorem Format.isFinite_iff : F.IsFinite v ↔ F.magnitude v < F.infinity := by
  rw [Format.IsFinite, F.exponent_eq, Nat.div_lt_iff_lt_mul (Nat.two_pow_pos _)]
  rfl

theorem Format.isInfinite_iff : F.IsInfinite v ↔ F.magnitude v = F.infinity := by
  have hdiv := Nat.div_add_mod (F.magnitude v) (2 ^ F.fracBits)
  rw [Format.IsInfinite, F.exponent_eq, F.fraction_eq, Format.infinity]
  constructor
  · rintro ⟨hexponent, hfraction⟩
    rw [hexponent, hfraction, Nat.add_zero, Nat.mul_comm] at hdiv
    exact hdiv.symm
  · intro h
    rw [h]
    exact ⟨Nat.mul_div_cancel _ (Nat.two_pow_pos _), Nat.mul_mod_left _ _⟩

/-- The least subnormal number. -/
def Format.unit (F : Format) : ℚ := 2 ^ (1 - F.bias - F.fracBits)

theorem Format.unit_pos (F : Format) : 0 < F.unit := zpow_pos two_pos _

theorem Format.unit_eq (F : Format) : F.unit = 2 ^ (1 - F.bias) / 2 ^ F.fracBits := by
  rw [Format.unit, zpow_sub₀ two_ne_zero, zpow_natCast]

theorem Format.value_eq (v : F.Pattern) :
    F.value v = (if v.msb then -1 else 1) * (units F.fracBits (F.magnitude v) * F.unit) := by
  have hfields : F.significand v * 2 ^ ((max (F.exponent v) 1 : ℕ) - F.bias) =
      units F.fracBits (F.magnitude v) * F.unit := by
    rw [Format.significand, F.exponent_eq, F.fraction_eq, F.unit_eq, units]
    by_cases hzero : F.magnitude v / 2 ^ F.fracBits = 0
    · have hsmall : F.magnitude v % 2 ^ F.fracBits = F.magnitude v :=
        Nat.mod_eq_of_lt ((Nat.div_eq_zero_iff_lt (Nat.two_pow_pos _)).mp hzero)
      rw [if_pos hzero, if_pos hzero, hzero, hsmall, zero_add, max_eq_right (Nat.zero_le 1),
        Nat.cast_one]
      ring
    · obtain ⟨t, ht⟩ := Nat.exists_eq_succ_of_ne_zero hzero
      have hexp : ((t + 1 : ℕ) : ℤ) - F.bias = t + (1 - F.bias) := by
        push_cast
        ring
      rw [if_neg hzero, if_neg hzero, ht, Nat.succ_eq_add_one, Nat.add_sub_cancel,
        max_eq_left (Nat.le_add_left 1 t), hexp, zpow_add₀ two_ne_zero, zpow_natCast]
      push_cast
      field_simp
  rw [Format.value, mul_assoc, hfields]

theorem Format.abs_value (v : F.Pattern) :
    |F.value v| = units F.fracBits (F.magnitude v) * F.unit := by
  have hpos := mul_nonneg (Nat.cast_nonneg (α := ℚ) (units F.fracBits (F.magnitude v)))
    (le_of_lt F.unit_pos)
  rw [F.value_eq]
  cases v.msb
  · simp [abs_of_nonneg hpos]
  · simp [abs_of_nonneg hpos]

/-- The sign of a pattern is moved to the other number. -/
theorem Format.abs_value_sub (v : F.Pattern) (x : ℚ) :
    |F.value v - x| =
      |units F.fracBits (F.magnitude v) * F.unit - (if v.msb then -1 else 1) * x| := by
  rw [F.value_eq]
  cases v.msb
  · simp
  · rw [← abs_neg]
    congr 1
    simp only [if_true]
    ring

/-! ## Rounding -/

/-- A finite pattern nearest to a number, with an even fraction if another
number of the format is as near. -/
structure Format.IsNearest (F : Format) (x : ℚ) (v : F.Pattern) : Prop where
  finite : F.IsFinite v
  nearest : ∀ c, F.IsFinite c → |F.value v - x| ≤ |F.value c - x|
  even : ∀ c, F.IsFinite c → F.value c ≠ F.value v → |F.value c - x| = |F.value v - x| →
    Even (F.fraction v)

/-- The result of a conversion that rounds to nearest, ties to even. -/
structure Converts (F G : Format) (u : F.Pattern) (v : G.Pattern) : Prop where
  sign : v.msb = u.msb
  infinite : F.IsInfinite u → G.IsInfinite v
  overflow : F.IsFinite u → G.overflow ≤ |F.value u| → G.IsInfinite v
  nearest : F.IsFinite u → |F.value u| < G.overflow → G.IsNearest (F.value u) v

theorem Format.even_fraction : Even (F.fraction v) ↔ Even (F.magnitude v) := by
  rw [F.fraction_eq, Nat.even_iff, Nat.even_iff,
    Nat.mod_mod_of_dvd _ (dvd_pow_self 2 (Nat.ne_of_gt F.fracBits_pos))]

/-- Between two numbers with even fractions there is one that is nearer to
their middle. -/
theorem Format.IsNearest.not_lt {x : ℚ} (hv : F.IsNearest x v) (hv' : F.IsNearest x v')
    (hsign : v.msb = v'.msb) : ¬ F.magnitude v < F.magnitude v' := by
  intro hlt
  have htie : |F.value v - x| = |F.value v' - x| :=
    le_antisymm (hv.nearest v' hv'.finite) (hv'.nearest v hv.finite)
  have hstrict := units_strictMono F.fracBits hlt
  have hne : F.value v ≠ F.value v' := by
    intro heq
    have habs := congrArg abs heq
    rw [F.abs_value, F.abs_value] at habs
    have hunits := mul_right_cancel₀ (ne_of_gt F.unit_pos) habs
    exact ne_of_lt hstrict (by exact_mod_cast hunits)
  have heven := F.even_fraction.mp (hv.even v' hv'.finite hne.symm htie.symm)
  have heven' := F.even_fraction.mp (hv'.even v hv.finite hne htie)
  have hnext : F.magnitude v + 1 < F.magnitude v' := by
    rw [Nat.even_iff] at heven heven'
    omega
  obtain ⟨c, hcsign, hc⟩ := F.exists_pattern v.msb (lt_trans hnext (F.magnitude_lt v'))
  have hcfinite : F.IsFinite c := by
    rw [F.isFinite_iff, hc]
    exact lt_trans hnext (F.isFinite_iff.mp hv'.finite)
  have hnearest := hv.nearest c hcfinite
  rw [F.abs_value_sub, F.abs_value_sub] at htie hnearest
  rw [← hsign] at htie
  rw [hc, hcsign] at hnearest
  generalize (if v.msb then -1 else 1) * x = y at htie hnearest
  have hbelow : (units F.fracBits (F.magnitude v) * F.unit : ℚ) <
      units F.fracBits (F.magnitude v + 1) * F.unit :=
    mul_lt_mul_of_pos_right
      (by exact_mod_cast units_strictMono F.fracBits (Nat.lt_succ_self _)) F.unit_pos
  have habove : (units F.fracBits (F.magnitude v + 1) * F.unit : ℚ) <
      units F.fracBits (F.magnitude v') * F.unit :=
    mul_lt_mul_of_pos_right (by exact_mod_cast units_strictMono F.fracBits hnext) F.unit_pos
  generalize (units F.fracBits (F.magnitude v) * F.unit : ℚ) = a at *
  generalize (units F.fracBits (F.magnitude v + 1) * F.unit : ℚ) = b at *
  generalize (units F.fracBits (F.magnitude v') * F.unit : ℚ) = a' at *
  -- `y` is the middle of `a` and `a'`, and `b` lies between them
  rcases abs_eq_abs.mp htie with hsame | hmiddle
  · linarith
  · have hdist : |a - y| = y - a := by
      rw [abs_sub_comm]
      exact abs_of_nonneg (by linarith)
    rw [hdist] at hnearest
    exact absurd hnearest (not_le.mpr (abs_lt.mpr ⟨by linarith, by linarith⟩))

theorem Format.IsNearest.unique {x : ℚ} (hv : F.IsNearest x v) (hv' : F.IsNearest x v')
    (hsign : v.msb = v'.msb) : v = v' :=
  F.pattern_ext hsign (le_antisymm (Nat.le_of_not_lt (hv'.not_lt hv hsign.symm))
    (Nat.le_of_not_lt (hv.not_lt hv' hsign)))

/-- A number has one conversion. -/
theorem Converts.unique {G : Format} {u : F.Pattern} {w w' : G.Pattern}
    (h : Converts F G u w) (h' : Converts F G u w') (hu : ¬ F.IsNaN u) : w = w' := by
  have hsign : w.msb = w'.msb := h.sign.trans h'.sign.symm
  have hinfinite : G.IsInfinite w → G.IsInfinite w' → w = w' := by
    intro hw hw'
    rw [G.isInfinite_iff] at hw hw'
    exact G.pattern_ext hsign (hw.trans hw'.symm)
  rcases F.isFinite_or_isInfinite hu with hfin | hinf
  · rcases lt_or_ge |F.value u| G.overflow with hlt | hge
    · exact (h.nearest hfin hlt).unique (h'.nearest hfin hlt) hsign
    · exact hinfinite (h.overflow hfin hge) (h'.overflow hfin hge)
  · exact hinfinite (h.infinite hinf) (h'.infinite hinf)

end FlashNext.Verified.BinaryFormats
