import Mathlib.Algebra.Order.Group.Abs

/-!
# The largest absolute value of a list

Zero for the empty list, so a bound on the maximum is a non-negative bound on
the entries.
-/

namespace FlashNext.Verified.AbsMax

variable {K : Type*} [AddGroup K] [LinearOrder K]

/-- The largest absolute value. -/
def absMax (xs : List K) : K := (xs.map abs).foldr max 0

@[simp] theorem absMax_nil : absMax ([] : List K) = 0 := rfl

@[simp] theorem absMax_cons (x : K) (xs : List K) : absMax (x :: xs) = max |x| (absMax xs) := rfl

variable {xs : List K} {x b : K}

theorem abs_le_absMax (h : x ∈ xs) : |x| ≤ absMax xs := by
  induction xs with
  | nil => cases h
  | cons y xs ih =>
      rw [absMax_cons]
      rcases List.mem_cons.mp h with rfl | hrest
      · exact le_max_left _ _
      · exact le_max_of_le_right (ih hrest)

theorem absMax_le (hb : 0 ≤ b) (h : ∀ x ∈ xs, |x| ≤ b) : absMax xs ≤ b := by
  induction xs with
  | nil => exact hb
  | cons y xs ih =>
      rw [absMax_cons]
      exact max_le (h y List.mem_cons_self) (ih fun x hx => h x (List.mem_cons_of_mem y hx))

/-- A positive maximum is the absolute value of an entry. -/
theorem exists_abs_eq_absMax (h : 0 < absMax xs) : ∃ x ∈ xs, |x| = absMax xs := by
  induction xs with
  | nil => exact absurd h (lt_irrefl 0)
  | cons y xs ih =>
      rw [absMax_cons] at h ⊢
      rcases le_total (absMax xs) |y| with hle | hle
      · exact ⟨y, List.mem_cons_self, (max_eq_left hle).symm⟩
      · rw [max_eq_right hle] at h ⊢
        obtain ⟨x, hx, heq⟩ := ih h
        exact ⟨x, List.mem_cons_of_mem y hx, heq⟩

end FlashNext.Verified.AbsMax
