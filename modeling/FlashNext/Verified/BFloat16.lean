import FlashNext.Verified.BinaryFormats

/-!
# Rounding a binary32 magnitude to bfloat16

A binary32 pattern without its sign bit is a number `m`, a bfloat16 pattern
without its sign bit is a number `b`, and `b` stands for the binary32 pattern
`b * 2 ^ 16`.  `magValue` is the value of a magnitude in units of the smallest
subnormal, with infinity read as the first power of two that is out of range;
that is the reading under which rounding to nearest overflows as it should.

* `magValue_strictMono`, `magValue_block` — the value grows with the pattern,
  and linearly between two neighbouring bfloat16 patterns;
* `IsNearestEven.unique` — there is only one nearest pattern, ties to even;
* `IsNearestEven.eq_infBits_iff` — it is infinity from the middle above the
  largest finite pattern on;
* `roundBits_isNearestEven` — adding `0x7FFF` plus the parity and dropping the
  low half computes it.
-/

namespace FlashNext.Verified.BFloat16

open FlashNext.Verified.BinaryFormats (units units_succ units_strictMono)

/-- The value of a binary32 magnitude, in units of `2 ^ (-149)`. -/
def magValue (m : Nat) : Nat :=
  if m / 2 ^ 23 = 0 then m
  else (2 ^ 23 + m % 2 ^ 23) * 2 ^ (m / 2 ^ 23 - 1)

theorem magValue_eq_units (m : Nat) : magValue m = units 23 m := rfl

/-- Neighbouring magnitudes differ by one unit in the last place. -/
theorem magValue_succ (m : Nat) :
    magValue (m + 1) = magValue m + 2 ^ (m / 2 ^ 23 - 1) := units_succ 23 m

theorem magValue_strictMono : StrictMono magValue := units_strictMono 23

/-- The value of a bfloat16 magnitude. -/
def bfValue (b : Nat) : Nat := magValue (b * 2 ^ 16)

theorem bfValue_strictMono : StrictMono bfValue := by
  intro a b h
  exact magValue_strictMono (Nat.mul_lt_mul_of_pos_right h (by decide))

/-- Between two neighbouring bfloat16 patterns the value is linear. -/
theorem magValue_block (t d : Nat) (hd : d ≤ 2 ^ 16) :
    magValue (t * 2 ^ 16 + d) = bfValue t + d * 2 ^ (t / 2 ^ 7 - 1) := by
  induction d with
  | zero => simp [bfValue]
  | succ d ih =>
      have hdiv : (t * 2 ^ 16 + d) / 2 ^ 23 = t / 2 ^ 7 := by omega
      rw [← Nat.add_assoc, magValue_succ, ih (by omega), hdiv, Nat.succ_mul,
        Nat.add_assoc]

/-- Distance of two values. -/
def dist (x y : Nat) : Nat := (x - y) + (y - x)

theorem dist_of_le {x y : Nat} (h : x ≤ y) : dist x y = y - x := by
  unfold dist
  omega

theorem dist_of_ge {x y : Nat} (h : y ≤ x) : dist x y = x - y := by
  unfold dist
  omega

/-- The largest bfloat16 magnitude that is not a NaN: infinity. -/
def infBits : Nat := 0x7F80

/-- `b` is the bfloat16 magnitude nearest to `m`, and even in case of a tie. -/
structure IsNearestEven (m b : Nat) : Prop where
  le : b ≤ infBits
  nearest : ∀ c ≤ infBits,
    dist (bfValue b) (magValue m) ≤ dist (bfValue c) (magValue m)
  even : ∀ c ≤ infBits, c ≠ b →
    dist (bfValue b) (magValue m) = dist (bfValue c) (magValue m) → b % 2 = 0

private theorem IsNearestEven.not_lt {m b c : Nat} (hb : IsNearestEven m b)
    (hc : IsNearestEven m c) : ¬ b < c := by
  intro hlt
  have htie : dist (bfValue b) (magValue m) = dist (bfValue c) (magValue m) :=
    Nat.le_antisymm (hb.nearest c hc.le) (hc.nearest b hb.le)
  have hbe := hb.even c hc.le (Nat.ne_of_gt hlt) htie
  have hce := hc.even b hb.le (Nat.ne_of_lt hlt) htie.symm
  -- two even patterns have one in between, which is nearer than both
  have hmid := hb.nearest (b + 1) (by have hle := hc.le; omega)
  have h₁ : bfValue b < bfValue (b + 1) :=
    bfValue_strictMono (Nat.lt_succ_self b)
  have h₂ : bfValue (b + 1) < bfValue c := bfValue_strictMono (by omega)
  unfold dist at htie hmid
  omega

/-- Rounding to nearest even is a function. -/
theorem IsNearestEven.unique {m b c : Nat} (hb : IsNearestEven m b)
    (hc : IsNearestEven m c) : b = c := by
  have h₁ := hb.not_lt hc
  have h₂ := hc.not_lt hb
  omega

/-- What is not below the middle between the largest finite pattern and
infinity is rounded to infinity, and only that. -/
theorem IsNearestEven.eq_infBits_iff {m b : Nat} (h : IsNearestEven m b)
    (hm : magValue m ≤ bfValue infBits) :
    b = infBits ↔ bfValue (infBits - 1) + bfValue infBits ≤ 2 * magValue m := by
  have hstep : bfValue (infBits - 1) < bfValue infBits := bfValue_strictMono (by decide)
  have hlast := h.nearest (infBits - 1) (Nat.sub_le ..)
  have hinf := h.nearest infBits (Nat.le_refl _)
  unfold dist at hlast hinf
  constructor
  · rintro rfl
    omega
  · intro hmiddle
    by_contra hne
    have hle : b ≤ infBits - 1 := by
      have hle := h.le
      omega
    rcases Nat.lt_or_eq_of_le hle with hlt | rfl
    · have hbelow := bfValue_strictMono hlt
      omega
    · -- a tie goes to infinity, whose pattern is even
      have heven := h.even infBits (Nat.le_refl _) (by decide) (by unfold dist; omega)
      exact absurd heven (by decide)

/-- Add `0x7FFF` and the parity of the upper half, drop the lower half. -/
def roundBits (m : Nat) : Nat := (m + (m / 2 ^ 16 % 2 + 0x7FFF)) / 2 ^ 16

/-- Below the midpoint, and at the midpoint above an even pattern. -/
theorem roundBits_down {t d : Nat} (hd : d < 2 ^ 16)
    (h : d < 2 ^ 15 ∨ d = 2 ^ 15 ∧ t % 2 = 0) :
    roundBits (t * 2 ^ 16 + d) = t := by
  unfold roundBits
  omega

theorem roundBits_up {t d : Nat} (hd : d < 2 ^ 16)
    (h : 2 ^ 15 < d ∨ d = 2 ^ 15 ∧ t % 2 = 1) :
    roundBits (t * 2 ^ 16 + d) = t + 1 := by
  unfold roundBits
  omega

/-- Patterns below the lower neighbour are further away. -/
theorem dist_lt_of_lt {m t c : Nat} (hlow : bfValue t ≤ magValue m)
    (hc : c < t) :
    dist (bfValue t) (magValue m) < dist (bfValue c) (magValue m) := by
  have hlt := bfValue_strictMono hc
  rw [dist_of_le hlow, dist_of_le (by omega)]
  omega

/-- Patterns above the upper neighbour are further away. -/
theorem dist_lt_of_gt {m t c : Nat} (hhigh : magValue m ≤ bfValue t)
    (hc : t < c) :
    dist (bfValue t) (magValue m) < dist (bfValue c) (magValue m) := by
  have hlt := bfValue_strictMono hc
  rw [dist_of_ge hhigh, dist_of_ge (by omega)]
  omega

/-- A pattern is nearest if all others but one are further away, and that one
is not nearer. -/
theorem isNearestEven_of_rival {m b c : Nat} (hb : b ≤ infBits)
    (hfar : ∀ d, d ≠ b → dist (bfValue b) (magValue m) < dist (bfValue d) (magValue m) ∨ d = c)
    (hle : dist (bfValue b) (magValue m) ≤ dist (bfValue c) (magValue m))
    (heven : dist (bfValue b) (magValue m) = dist (bfValue c) (magValue m) → b % 2 = 0) :
    IsNearestEven m b := by
  refine ⟨hb, fun d _ => ?_, fun d _ hne htie => ?_⟩
  · by_cases hne : d = b
    · exact hne ▸ Nat.le_refl _
    · rcases hfar d hne with hlt | rfl
      · exact Nat.le_of_lt hlt
      · exact hle
  · rcases hfar d hne with hlt | rfl
    · exact absurd htie (Nat.ne_of_lt hlt)
    · exact heven htie

section Neighbours

variable {m t : Nat} (hlow : bfValue t ≤ magValue m)
  (hhigh : magValue m ≤ bfValue (t + 1))

include hlow hhigh

/-- The lower neighbour is nearest if it is not further than the upper one. -/
theorem isNearestEven_low (ht : t ≤ infBits)
    (hle : dist (bfValue t) (magValue m) ≤ dist (bfValue (t + 1)) (magValue m))
    (heven : dist (bfValue t) (magValue m) =
      dist (bfValue (t + 1)) (magValue m) → t % 2 = 0) : IsNearestEven m t := by
  apply isNearestEven_of_rival ht _ hle heven
  intro c hne
  rcases Nat.lt_trichotomy c (t + 1) with hc | hc | hc
  · exact Or.inl (dist_lt_of_lt hlow (by omega))
  · exact Or.inr hc
  · exact Or.inl (Nat.lt_of_le_of_lt hle (dist_lt_of_gt hhigh hc))

/-- The upper neighbour is nearest if it is not further than the lower one. -/
theorem isNearestEven_high (ht : t + 1 ≤ infBits)
    (hle : dist (bfValue (t + 1)) (magValue m) ≤ dist (bfValue t) (magValue m))
    (heven : dist (bfValue (t + 1)) (magValue m) =
      dist (bfValue t) (magValue m) → (t + 1) % 2 = 0) :
    IsNearestEven m (t + 1) := by
  apply isNearestEven_of_rival ht _ hle heven
  intro c hne
  rcases Nat.lt_trichotomy c t with hc | hc | hc
  · exact Or.inl (Nat.lt_of_le_of_lt hle (dist_lt_of_lt hlow hc))
  · exact Or.inr hc
  · exact Or.inl (dist_lt_of_gt hhigh (by omega))

end Neighbours

/-- The rounding trick rounds to nearest even, up to infinity. -/
theorem roundBits_isNearestEven {m : Nat} (hm : m ≤ infBits * 2 ^ 16) :
    IsNearestEven m (roundBits m) := by
  obtain ⟨t, d, hd, rfl⟩ : ∃ t d, d < 2 ^ 16 ∧ m = t * 2 ^ 16 + d :=
    ⟨m / 2 ^ 16, m % 2 ^ 16, Nat.mod_lt _ (by decide), by omega⟩
  have hvalue := magValue_block t d (Nat.le_of_lt hd)
  have hnext : bfValue (t + 1) = bfValue t + 2 ^ 16 * 2 ^ (t / 2 ^ 7 - 1) := by
    rw [← magValue_block t (2 ^ 16) (Nat.le_refl _), bfValue, Nat.succ_mul]
  have hp : 0 < 2 ^ (t / 2 ^ 7 - 1) := Nat.two_pow_pos _
  have hinf : infBits = 0x7F80 := rfl
  generalize 2 ^ (t / 2 ^ 7 - 1) = p at hvalue hnext hp
  have hlast : d * p ≤ 2 ^ 16 * p := Nat.mul_le_mul_right p (Nat.le_of_lt hd)
  have hlow : bfValue t ≤ magValue (t * 2 ^ 16 + d) := by omega
  have hhigh : magValue (t * 2 ^ 16 + d) ≤ bfValue (t + 1) := by omega
  have hdistLow : dist (bfValue t) (magValue (t * 2 ^ 16 + d)) = d * p := by
    rw [dist_of_le hlow]
    omega
  have hdistHigh : dist (bfValue (t + 1)) (magValue (t * 2 ^ 16 + d)) =
      2 ^ 16 * p - d * p := by
    rw [dist_of_ge hhigh]
    omega
  by_cases hdown : d < 2 ^ 15 ∨ d = 2 ^ 15 ∧ t % 2 = 0
  · have hhalf : d * p ≤ 2 ^ 15 * p := Nat.mul_le_mul_right p (by omega)
    have hstrict : d < 2 ^ 15 → d * p < 2 ^ 15 * p :=
      fun h => Nat.mul_lt_mul_of_pos_right h hp
    rw [roundBits_down hd hdown]
    refine isNearestEven_low hlow hhigh (by omega) ?_ ?_ <;>
      rw [hdistLow, hdistHigh]
    · omega
    · intro htie
      omega
  · have hup : 2 ^ 15 < d ∨ d = 2 ^ 15 ∧ t % 2 = 1 := by omega
    have hhalf : 2 ^ 15 * p ≤ d * p := Nat.mul_le_mul_right p (by omega)
    have hstrict : 2 ^ 15 < d → 2 ^ 15 * p < d * p :=
      fun h => Nat.mul_lt_mul_of_pos_right h hp
    rw [roundBits_up hd hup]
    refine isNearestEven_high hlow hhigh (by omega) ?_ ?_ <;>
      rw [hdistLow, hdistHigh]
    · omega
    · intro htie
      omega

end FlashNext.Verified.BFloat16
