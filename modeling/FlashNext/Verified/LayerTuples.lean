import Mathlib.Data.List.Basic
import Mathlib.Data.List.Perm.Basic

/-!
# Tuples cut from rows of one length

`tuples rows` takes the first entry of every row, then the second entry of
every row, and so on until a row ends.  Rows of one length lose nothing.
-/

namespace FlashNext.Verified.LayerTuples

variable {α : Type*}

def tuples : List (List α) → List (List α)
  | [] => []
  | [row] => row.map fun x => [x]
  | row :: row' :: rows => List.zipWith List.cons row (tuples (row' :: rows))

theorem length_tuples {n : Nat} {rows : List (List α)} (hne : rows ≠ [])
    (h : ∀ row ∈ rows, row.length = n) : (tuples rows).length = n := by
  induction rows with
  | nil => exact absurd rfl hne
  | cons row rows ih =>
      have hrow := h row List.mem_cons_self
      cases rows with
      | nil => rw [tuples, List.length_map, hrow]
      | cons row' rows =>
          have hrest := ih (List.cons_ne_nil row' rows)
            fun r hr => h r (List.mem_cons_of_mem row hr)
          rw [tuples, List.length_zipWith, hrow, hrest, Nat.min_self]

theorem ne_nil_of_mem_tuples {rows : List (List α)} {t : List α}
    (ht : t ∈ tuples rows) : t ≠ [] := by
  cases rows with
  | nil => cases ht
  | cons row rows =>
      cases rows with
      | nil =>
          obtain ⟨x, -, rfl⟩ := List.mem_map.mp ht
          exact List.cons_ne_nil x []
      | cons row' rows =>
          rw [tuples, ← List.map_uncurry_zip_eq_zipWith] at ht
          obtain ⟨⟨x, xs⟩, -, rfl⟩ := List.mem_map.mp ht
          exact List.cons_ne_nil x xs

private theorem flatten_zipWith_cons {xs : List α} {yss : List (List α)}
    (h : xs.length = yss.length) :
    (List.zipWith List.cons xs yss).flatten.Perm (xs ++ yss.flatten) := by
  induction xs generalizing yss with
  | nil =>
      cases yss with
      | nil => exact List.Perm.refl _
      | cons ys yss => cases h
  | cons x xs ih =>
      cases yss with
      | nil => cases h
      | cons ys yss =>
          have hrest := ih (Nat.succ.inj h)
          rw [List.zipWith_cons_cons, List.flatten_cons, List.flatten_cons,
            List.cons_append, List.cons_append]
          apply List.Perm.cons
          exact (hrest.append_left ys).trans
            (by rw [← List.append_assoc, ← List.append_assoc]
                exact List.perm_append_comm.append_right _)

/-- Nothing is lost. -/
theorem tuples_perm {n : Nat} {rows : List (List α)}
    (h : ∀ row ∈ rows, row.length = n) :
    (tuples rows).flatten.Perm rows.flatten := by
  induction rows with
  | nil => exact List.Perm.refl _
  | cons row rows ih =>
      cases rows with
      | nil =>
          rw [tuples, ← List.flatMap_def, List.flatMap_singleton', List.flatten_singleton]
      | cons row' rows =>
          have hrest : ∀ r ∈ row' :: rows, r.length = n :=
            fun r hr => h r (List.mem_cons_of_mem row hr)
          have hlen : row.length = (tuples (row' :: rows)).length := by
            rw [h row List.mem_cons_self,
              length_tuples (List.cons_ne_nil row' rows) hrest]
          rw [tuples, List.flatten_cons]
          exact (flatten_zipWith_cons hlen).trans ((ih hrest).append_left row)

end FlashNext.Verified.LayerTuples
