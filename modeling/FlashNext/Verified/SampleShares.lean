import Mathlib.Algebra.BigOperators.Group.Multiset.Basic
import Mathlib.Algebra.BigOperators.Group.List.Lemmas
import Mathlib.Algebra.Order.Field.Basic
import Mathlib.Algebra.CharZero.Defs
import FlashNext.Verified.OnlineSoftmax

/-!
# Samples with the same shares

Two samples of one population give every member the same share.  Then they have the
same softmax-weighted mean, whatever the members score and carry; and equal means for
all that they carry force equal shares.
-/

namespace FlashNext.Verified.SampleShares

open FlashNext.Verified.OnlineSoftmax

variable {ι : Type*} [DecidableEq ι]

/-- Both samples are empty or neither is, and every member has the same share of both. -/
structure SameShares (xs ys : List ι) : Prop where
  nil : xs = [] ↔ ys = []
  count : ∀ i, xs.count i * ys.length = ys.count i * xs.length

/-! ## Shares of samples without repetition -/

/-- The whole of a sample, in another order. -/
theorem SameShares.of_perm {xs ys : List ι} (h : xs.Perm ys) : SameShares xs ys where
  nil := by
    constructor
    · rintro rfl
      exact List.nil_perm.mp h
    · rintro rfl
      exact List.perm_nil.mp h
  count := fun i => by rw [h.count_eq, h.length_eq]

/-- One member alone, however often it was drawn. -/
theorem SameShares.replicate {m n : Nat} (hm : 0 < m) (hn : 0 < n) (i : ι) :
    SameShares (List.replicate m i) (List.replicate n i) where
  nil := by
    rw [List.replicate_eq_nil_iff, List.replicate_eq_nil_iff]
    omega
  count := fun j => by
    rw [List.count_replicate, List.count_replicate, List.length_replicate,
      List.length_replicate]
    split
    · exact Nat.mul_comm m n
    · rw [Nat.zero_mul, Nat.zero_mul]

/-- A part of a sample without repetition has the shares of the whole only if it is as
long. -/
theorem SameShares.length_eq {xs ys : List ι} (h : SameShares xs ys) (hxs : xs.Nodup)
    (hys : ys.Nodup) : xs.length = ys.length := by
  by_cases hnil : xs = []
  · rw [hnil, h.nil.mp hnil]
  · obtain ⟨i, hi⟩ := List.exists_mem_of_ne_nil xs hnil
    have hpos : 0 < ys.length := List.length_pos_iff.mpr fun hy => hnil (h.nil.mpr hy)
    have hcount := h.count i
    rw [List.count_eq_one_of_mem hxs hi, Nat.one_mul] at hcount
    have hle := List.nodup_iff_count_le_one.mp hys i
    have hne : ys.count i ≠ 0 := fun hzero => by
      rw [hzero, Nat.zero_mul] at hcount
      omega
    have hone : ys.count i = 1 := by omega
    rw [hcount, hone, Nat.one_mul]

/-- Sums over both samples, weighed by the other's length. -/
theorem SameShares.nsmul_sum {M : Type*} [AddCommMonoid M] {xs ys : List ι}
    (h : SameShares xs ys) (f : ι → M) :
    ys.length • (xs.map f).sum = xs.length • (ys.map f).sum := by
  have hrep : ys.length • (xs : Multiset ι) = xs.length • (ys : Multiset ι) := by
    ext i
    rw [Multiset.count_nsmul, Multiset.count_nsmul, Multiset.coe_count, Multiset.coe_count,
      Nat.mul_comm, h.count, Nat.mul_comm]
  have hsum := congrArg (fun s : Multiset ι => (s.map f).sum) hrep
  simp only [Multiset.map_nsmul, Multiset.sum_nsmul, Multiset.map_coe, Multiset.sum_coe]
    at hsum
  exact hsum

/-! ## Means -/

section Mean

variable {F V : Type*} [Field F] [LinearOrder F] [IsStrictOrderedRing F]
  [AddCommMonoid V] [Module F V] {E : Exp2 F} {xs ys : List ι}

/-- Same shares, same mean. -/
theorem SameShares.mean_eq (h : SameShares xs ys) (f : ι → F × V) :
    mean E (xs.map f) = mean E (ys.map f) := by
  by_cases hnil : xs = []
  · rw [hnil, h.nil.mp hnil]
  · have hys : ys ≠ [] := fun hy => hnil (h.nil.mpr hy)
    have hm : (ys.length : F) ≠ 0 := by exact_mod_cast (List.length_pos_iff.mpr hys).ne'
    have hn : (xs.length : F) ≠ 0 := by exact_mod_cast (List.length_pos_iff.mpr hnil).ne'
    have hweight : (ys.length : F) * totalWeight E (xs.map f) =
        (xs.length : F) * totalWeight E (ys.map f) := by
      have hsum := h.nsmul_sum fun i => E.exp2 (f i).1
      rw [nsmul_eq_mul, nsmul_eq_mul] at hsum
      simpa [totalWeight, List.map_map, Function.comp_def] using hsum
    have hvalue : (ys.length : F) • totalValue E (xs.map f) =
        (xs.length : F) • totalValue E (ys.map f) := by
      have hsum := h.nsmul_sum fun i => E.exp2 (f i).1 • (f i).2
      rw [← Nat.cast_smul_eq_nsmul F, ← Nat.cast_smul_eq_nsmul F] at hsum
      simpa [totalValue, List.map_map, Function.comp_def] using hsum
    have hscale : ∀ (c w : F) (v : V), c ≠ 0 → (c * w)⁻¹ • (c • v) = w⁻¹ • v := by
      intro c w v hc
      rw [← mul_smul, mul_inv, mul_right_comm, inv_mul_cancel₀ hc, one_mul]
    unfold mean
    rw [← hscale _ _ _ hm, hweight, hvalue, hscale _ _ _ hn]

omit [DecidableEq ι] [IsStrictOrderedRing F] [AddCommMonoid V] [Module F V] in
/-- Members that score zero have the plain mean. -/
theorem mean_zero_scores (xs : List ι) (v : ι → F) :
    mean E (xs.map fun i => ((0 : F), v i)) = (xs.length : F)⁻¹ * (xs.map v).sum := by
  have hweight : totalWeight E (xs.map fun i => ((0 : F), v i)) = xs.length := by
    simp [totalWeight, List.map_map, Function.comp_def, E.exp2_zero]
  have hvalue : totalValue E (xs.map fun i => ((0 : F), v i)) = (xs.map v).sum := by
    simp [totalValue, List.map_map, Function.comp_def, E.exp2_zero]
  rw [mean, hweight, hvalue, smul_eq_mul]

omit [AddCommMonoid V] [Module F V] in
/-- Equal means of everything force equal shares. -/
theorem SameShares.of_mean_eq
    (h : ∀ v : ι → F, mean E (xs.map fun i => ((0 : F), v i)) =
      mean E (ys.map fun i => ((0 : F), v i))) : SameShares xs ys := by
  simp only [mean_zero_scores] at h
  have hones := h fun _ => 1
  simp only [List.map_const', List.sum_replicate, nsmul_eq_mul, mul_one] at hones
  have hempty : ∀ a b : Nat, (a : F)⁻¹ * a = (b : F)⁻¹ * b → a = 0 → b = 0 := by
    intro a b heq ha
    by_contra hb
    rw [ha, Nat.cast_zero, inv_zero, zero_mul, inv_mul_cancel₀ (Nat.cast_ne_zero.mpr hb)]
      at heq
    exact zero_ne_one heq
  have hnil : xs.length = 0 ↔ ys.length = 0 := ⟨hempty _ _ hones, hempty _ _ hones.symm⟩
  refine { nil := by simpa [List.length_eq_zero_iff] using hnil, count := fun i => ?_ }
  by_cases hx : xs.length = 0
  · rw [hx, hnil.mp hx, Nat.mul_zero, Nat.mul_zero]
  · have hy : ys.length ≠ 0 := fun hy => hx (hnil.mpr hy)
    have hind : ∀ zs : List ι, (zs.map fun j => if j = i then (1 : F) else 0).sum =
        zs.count i := by
      intro zs
      induction zs with
      | nil => simp
      | cons j zs ih =>
          by_cases hj : j = i
          · rw [List.map_cons, List.sum_cons, ih, if_pos hj, hj, List.count_cons_self]
            push_cast
            ring
          · rw [List.map_cons, List.sum_cons, ih, if_neg hj, zero_add,
              List.count_cons_of_ne hj]
    have hshare := h fun j => if j = i then 1 else 0
    rw [hind, hind] at hshare
    have hx' : (xs.length : F) ≠ 0 := Nat.cast_ne_zero.mpr hx
    have hy' : (ys.length : F) ≠ 0 := Nat.cast_ne_zero.mpr hy
    rw [inv_mul_eq_div, inv_mul_eq_div, div_eq_div_iff hx' hy'] at hshare
    exact_mod_cast hshare

end Mean

end FlashNext.Verified.SampleShares
