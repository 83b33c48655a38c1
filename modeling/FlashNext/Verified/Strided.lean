import Mathlib.Data.List.Basic

/-!
# Rows built by stride

A row may be filled at every second place, stacked from pairs, or made of the
same value several times over.  Each of them is read back by the quotient and
the remainder of the column.
-/

namespace FlashNext.Verified.Strided

variable {α β : Type*}

/-- `row[start::2] = vals`. -/
def assignStrided (start : Nat) (vals row : List α) : List α :=
  row.mapIdx fun c x =>
    if start ≤ c ∧ (c - start) % 2 = 0 then vals.getD ((c - start) / 2) x else x

@[simp] theorem assignStrided_length (start : Nat) (vals row : List α) :
    (assignStrided start vals row).length = row.length := List.length_mapIdx

/-- Even columns from one list, odd columns from another. -/
theorem assignStrided_both {lo hi row : List α} {c : Nat} (hc : c < row.length)
    (hlo : row.length ≤ 2 * lo.length) (hhi : row.length ≤ 2 * hi.length) :
    (assignStrided 1 hi (assignStrided 0 lo row))[c]? =
      if c % 2 = 0 then lo[c / 2]? else hi[c / 2]? := by
  have hlow : c / 2 < lo.length := by omega
  have hhigh : c / 2 < hi.length := by omega
  simp only [assignStrided, List.getElem?_mapIdx, List.getElem?_eq_getElem hc,
    List.getElem?_eq_getElem hlow, List.getElem?_eq_getElem hhigh, Option.map_some]
  by_cases heven : c % 2 = 0
  · have hodd : ¬ (1 ≤ c ∧ (c - 1) % 2 = 0) := by omega
    simp only [if_neg hodd, Nat.sub_zero, Nat.zero_le, heven, and_self, if_true]
    rw [List.getD_eq_getElem?_getD, List.getElem?_eq_getElem hlow, Option.getD_some]
  · have hodd : 1 ≤ c ∧ (c - 1) % 2 = 0 := by omega
    have hdiv : (c - 1) / 2 = c / 2 := by omega
    rw [if_neg heven, if_pos hodd, hdiv, List.getD_eq_getElem?_getD,
      List.getElem?_eq_getElem hhigh, Option.getD_some]

/-- `stack((f, g), dim=-1).view(-1)`: two values for each entry. -/
def stackPairs (f g : α → β) (xs : List α) : List β := xs.flatMap fun x => [f x, g x]

theorem stackPairs_getElem? (f g : α → β) (xs : List α) (c : Nat) :
    (stackPairs f g xs)[c]? =
      if c % 2 = 0 then (xs[c / 2]?).map f else (xs[c / 2]?).map g := by
  induction xs generalizing c with
  | nil => simp [stackPairs]
  | cons x xs ih =>
      rcases c with _ | _ | c
      · rfl
      · rfl
      · have hmod : (c + 2) % 2 = c % 2 := by omega
        have hdiv : (c + 2) / 2 = c / 2 + 1 := by omega
        have hrest := ih c
        show (stackPairs f g xs)[c]? = _
        rw [hrest, hmod, hdiv, List.getElem?_cons_succ]

@[simp] theorem stackPairs_length (f g : α → β) (xs : List α) :
    (stackPairs f g xs).length = 2 * xs.length := by
  simp [stackPairs, Nat.mul_comm]

/-- `repeat(xs, n)`: every entry `n` times. -/
def repeatEach (n : Nat) (xs : List α) : List α := xs.flatMap (List.replicate n)

@[simp] theorem repeatEach_length (n : Nat) (xs : List α) :
    (repeatEach n xs).length = xs.length * n := by
  simp [repeatEach]

theorem repeatEach_getElem? {n : Nat} (hn : 0 < n) (xs : List α) (c : Nat) :
    (repeatEach n xs)[c]? = xs[c / n]? := by
  induction xs generalizing c with
  | nil => simp [repeatEach]
  | cons x xs ih =>
      show (List.replicate n x ++ repeatEach n xs)[c]? = _
      by_cases hc : c < n
      · have hlen : c < (List.replicate n x).length := by
          rw [List.length_replicate]
          exact hc
        rw [List.getElem?_append_left hlen, List.getElem?_replicate_of_lt hc,
          Nat.div_eq_of_lt hc]
        rfl
      · have hge : n ≤ c := Nat.le_of_not_lt hc
        have hdiv : c / n = (c - n) / n + 1 := Nat.div_eq_sub_div hn hge
        rw [List.getElem?_append_right (by rw [List.length_replicate]; exact hge),
          List.length_replicate, ih, hdiv, List.getElem?_cons_succ]

end FlashNext.Verified.Strided
