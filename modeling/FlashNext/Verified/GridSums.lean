import Mathlib.Algebra.BigOperators.Group.Finset.Basic
import Mathlib.Algebra.BigOperators.Intervals

/-!
# Sums over a grid

Sums over nested loops, over blocks of one size and over consecutive pieces.
-/

namespace FlashNext.Verified.GridSums

variable {R : Type*} [AddCommMonoid R]

/-- A loop whose turns leave lists. -/
theorem sum_map_flatMap {α β : Type*} (xs : List α) (f : α → List β) (g : β → R) :
    ((xs.flatMap f).map g).sum = (xs.map fun x => ((f x).map g).sum).sum := by
  induction xs with
  | nil => rfl
  | cons x xs ih =>
      rw [List.flatMap_cons, List.map_append, List.sum_append, ih, List.map_cons, List.sum_cons]

theorem sum_flatMap_range {β : Type*} (n : Nat) (f : Nat → List β) (g : β → R) :
    (((List.range n).flatMap f).map g).sum = ∑ i ∈ Finset.range n, ((f i).map g).sum :=
  sum_map_flatMap _ f g

/-- Blocks of `r` consecutive numbers. -/
theorem sum_blocks (f : Nat → R) (n r : Nat) :
    ∑ b ∈ Finset.range n, ∑ t ∈ Finset.range r, f (b * r + t) =
      ∑ i ∈ Finset.range (n * r), f i := by
  induction n with
  | zero => rw [Nat.zero_mul, Finset.sum_range_zero, Finset.sum_range_zero]
  | succ n ih => rw [Finset.sum_range_succ, ih, Nat.succ_mul, Finset.sum_range_add]

/-- Consecutive pieces. -/
theorem sum_pieces {cut : Nat → Nat} (hmono : ∀ i, cut i ≤ cut (i + 1)) (f : Nat → R) (n : Nat) :
    ∑ b ∈ Finset.range n, ∑ k ∈ Finset.Ico (cut b) (cut (b + 1)), f k =
      ∑ k ∈ Finset.Ico (cut 0) (cut n), f k := by
  induction n with
  | zero => rw [Finset.sum_range_zero, Finset.Ico_self, Finset.sum_empty]
  | succ n ih =>
      have hle : cut 0 ≤ cut n := monotone_nat_of_le_succ hmono (Nat.zero_le n)
      rw [Finset.sum_range_succ, ih, Finset.sum_Ico_consecutive f hle (hmono n)]

/-- The only index that counts. -/
theorem sum_single {n i : Nat} (hi : i < n) (f : Nat → R) :
    (∑ j ∈ Finset.range n, if j = i then f j else 0) = f i := by
  rw [Finset.sum_ite_eq' (Finset.range n) i f, if_pos (Finset.mem_range.mpr hi)]

/-- A sum over the indices that pass a test. -/
theorem sum_filter_range (q : Nat → Bool) (f : Nat → R) (n : Nat) :
    (((List.range n).filter q).map f).sum =
      ∑ i ∈ Finset.range n, if q i then f i else 0 := by
  induction n with
  | zero => rfl
  | succ n ih =>
      rw [List.range_succ, List.filter_append, List.map_append, List.sum_append, ih,
        Finset.sum_range_succ]
      by_cases hn : q n
      · simp [hn]
      · simp [hn]

/-- A sum over the indices of one block. -/
theorem sum_block (f : Nat → R) {b n r : Nat} (hb : b < n) :
    (∑ i ∈ Finset.range (n * r), if i / r = b then f i else 0) =
      ∑ t ∈ Finset.range r, f (b * r + t) := by
  have hblocks : ∀ b', ∑ t ∈ Finset.range r,
      (if (b' * r + t) / r = b then f (b' * r + t) else 0) =
      if b' = b then ∑ t ∈ Finset.range r, f (b' * r + t) else 0 := by
    intro b'
    have hdiv : ∀ t ∈ Finset.range r, (b' * r + t) / r = b' := by
      intro t ht
      have hlt := Finset.mem_range.mp ht
      rw [Nat.mul_comm, Nat.mul_add_div (Nat.zero_lt_of_lt hlt), Nat.div_eq_of_lt hlt,
        Nat.add_zero]
    rw [Finset.sum_congr rfl fun t ht => by rw [hdiv t ht]]
    split
    · rfl
    · exact Finset.sum_const_zero
  rw [← sum_blocks]
  simp only [hblocks]
  exact sum_single hb _

end FlashNext.Verified.GridSums
