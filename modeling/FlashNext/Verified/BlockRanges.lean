import FlashNext.Verified.Scatter
import Mathlib.Data.List.Range

/-!
# A range cut into blocks

A loop over `range(0, n, step)` takes the entries of `0 .. n - 1` block by
block; the last block may be short.
-/

namespace FlashNext.Verified.BlockRanges

open FlashNext.Verified.Scatter

variable {α β : Type*}

/-- `range(0, n, step)`. -/
def rangeStep (n step : Nat) : List Nat := (List.range ((n + step - 1) / step)).map (· * step)

/-- `xs[i:j]`. -/
def slice (xs : List α) (i j : Nat) : List α := (xs.drop i).take (j - i)

theorem slice_length {xs : List α} {i j : Nat} (hj : j ≤ xs.length) :
    (slice xs i j).length = j - i := by
  rw [slice, List.length_take, List.length_drop]
  omega

theorem map_slice (f : α → β) (xs : List α) (i j : Nat) :
    (slice xs i j).map f = slice (xs.map f) i j := by
  rw [slice, slice, List.map_take, List.map_drop]

/-- A slice lists the entries at its positions. -/
theorem slice_eq_map {xs : List α} {i j : Nat} (hj : j ≤ xs.length) (d : α) :
    slice xs i j = (List.range' i (j - i)).map fun k => xs.getD k d := by
  apply List.ext_getElem
  · rw [slice_length hj, List.length_map, List.length_range']
  · intro k hk _
    rw [slice_length hj] at hk
    have hik : i + k < xs.length := by omega
    simp only [slice, List.getElem_take, List.getElem_drop, List.getElem_map,
      List.getElem_range', Nat.one_mul]
    rw [List.getD_eq_getElem?_getD, List.getElem?_eq_getElem hik, Option.getD_some]

/-- Every position lies in a block. -/
theorem exists_block {n step k : Nat} (hstep : 0 < step) (hk : k < n) :
    ∃ i ∈ rangeStep n step, k ∈ List.range' i (min (i + step) n - i) := by
  have hmod := Nat.mod_add_div k step
  have hlt := Nat.mod_lt k hstep
  rw [Nat.mul_comm] at hmod
  refine ⟨k / step * step, List.mem_map.mpr ⟨k / step, ?_, rfl⟩, ?_⟩
  · rw [List.mem_range, Nat.div_lt_iff_lt_mul hstep]
    have hceil := Nat.div_add_mod (n + step - 1) step
    have hrest := Nat.mod_lt (n + step - 1) hstep
    rw [Nat.mul_comm] at hceil
    omega
  · rw [List.mem_range'_1]
    omega

/-- Blocks that write at each position what it asks for fill the whole range. -/
theorem foldl_put_blocks {n step : Nat} (hstep : 0 < step) {vals : Nat → List α} {f : Nat → α}
    (hvals : ∀ i ∈ rangeStep n step,
      vals i = (List.range' i (min (i + step) n - i)).map f) (st : Nat → α) {k : Nat}
    (hk : k < n) :
    (rangeStep n step).foldl
      (fun st i => put (List.range' i (min (i + step) n - i)) (vals i) st) st k = f k := by
  obtain ⟨i, hi, hmem⟩ := exists_block hstep hk
  let writes := (rangeStep n step).map fun i =>
    (List.range' i (min (i + step) n - i), vals i)
  have hwrites : ∀ a ∈ writes, a.2 = a.1.map f := by
    intro a ha
    obtain ⟨j, hj, rfl⟩ := List.mem_map.mp ha
    exact hvals j hj
  have hwritten : k ∈ writes.flatMap Prod.fst ∨ st k = f k :=
    Or.inl (List.mem_flatMap.mpr ⟨_, List.mem_map_of_mem hi, hmem⟩)
  have hfold := foldl_put_map hwrites hwritten
  rw [List.foldl_map] at hfold
  exact hfold

end FlashNext.Verified.BlockRanges
