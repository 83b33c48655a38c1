import Mathlib.Algebra.GroupWithZero.Nat
import Mathlib.Algebra.Order.BigOperators.Group.List
import Mathlib.Algebra.Order.Group.Nat

/-!
# Pages in one backing store

Every block of a paged store holds a page of every layer.  The pages of a
block are given by their offset and their size.  The store either keeps blocks
one after another, or layers one after another.
-/

namespace FlashNext.Verified.PackedPages

/-- Two ranges of bytes meet. -/
def Overlap (x p y q : Nat) : Prop := x < y + q ∧ y < x + p

/-- Two pages of a block are apart. -/
def Apart (o p o' p' : Nat) : Prop := o + p ≤ o' ∨ o' + p' ≤ o

theorem Apart.symm {o p o' p' : Nat} (h : Apart o p o' p') : Apart o' p' o p :=
  Or.symm h

/-! ## Blocks one after another -/

/-- The page at offset `o` of block `b`. -/
def blockMajor (stride o b : Nat) : Nat := o + b * stride

variable {stride total n o o' p p' b b' : Nat}

theorem blockMajor_inside (h : o + p ≤ stride) (hb : b < n) :
    blockMajor stride o b + p ≤ stride * n := by
  have hblocks : (b + 1) * stride ≤ n * stride := Nat.mul_le_mul_right stride hb
  have hsucc : (b + 1) * stride = b * stride + stride := Nat.succ_mul b stride
  have hcomm : stride * n = n * stride := Nat.mul_comm stride n
  unfold blockMajor
  omega

/-- Different blocks are apart, and so are pages that are apart in a block. -/
theorem blockMajor_apart (h : o + p ≤ stride) (h' : o' + p' ≤ stride)
    (hne : b ≠ b' ∨ Apart o p o' p') :
    ¬ Overlap (blockMajor stride o b) p (blockMajor stride o' b') p' := by
  unfold Overlap blockMajor
  rcases Nat.lt_trichotomy b b' with hlt | heq | hgt
  · have hblocks : (b + 1) * stride ≤ b' * stride := Nat.mul_le_mul_right stride hlt
    have hsucc : (b + 1) * stride = b * stride + stride := Nat.succ_mul b stride
    omega
  · subst heq
    have hapart : Apart o p o' p' := hne.resolve_left fun hbb => hbb rfl
    unfold Apart at hapart
    omega
  · have hblocks : (b' + 1) * stride ≤ b * stride := Nat.mul_le_mul_right stride hgt
    have hsucc : (b' + 1) * stride = b' * stride + stride := Nat.succ_mul b' stride
    omega

/-! ## Layers one after another -/

/-- The page of block `b` in a layer that lies at offset `o` of every block:
the `n` pages of a layer are kept together. -/
def layerMajor (n p o b : Nat) : Nat := o * n + b * p

private theorem layerMajor_end (hb : b < n) :
    layerMajor n p o b + p ≤ (o + p) * n := by
  have hpages : (b + 1) * p ≤ n * p := Nat.mul_le_mul_right p hb
  have hsucc : (b + 1) * p = b * p + p := Nat.succ_mul b p
  have hsum : (o + p) * n = o * n + n * p := by
    rw [Nat.add_mul, Nat.mul_comm p n]
  unfold layerMajor
  omega

theorem layerMajor_inside (h : o + p ≤ total) (hb : b < n) :
    layerMajor n p o b + p ≤ total * n :=
  (layerMajor_end hb).trans (Nat.mul_le_mul_right n h)

/-- Layers that are apart in a block are apart for all blocks. -/
theorem layerMajor_apart (hb : b < n) (hb' : b' < n) (h : Apart o p o' p') :
    ¬ Overlap (layerMajor n p o b) p (layerMajor n p' o' b') p' := by
  have hend : layerMajor n p o b + p ≤ (o + p) * n := layerMajor_end hb
  have hend' : layerMajor n p' o' b' + p' ≤ (o' + p') * n := layerMajor_end hb'
  have hstart : o * n ≤ layerMajor n p o b := Nat.le_add_right _ _
  have hstart' : o' * n ≤ layerMajor n p' o' b' := Nat.le_add_right _ _
  unfold Overlap
  rcases h with hle | hle
  · have := Nat.mul_le_mul_right n hle
    omega
  · have := Nat.mul_le_mul_right n hle
    omega

/-- The pages of one layer are apart. -/
theorem layerMajor_self (hne : b ≠ b') :
    ¬ Overlap (layerMajor n p o b) p (layerMajor n p o b') p := by
  have hpages : ¬ Overlap (blockMajor p 0 b) p (blockMajor p 0 b') p :=
    blockMajor_apart (Nat.zero_add p).le (Nat.zero_add p).le (Or.inl hne)
  unfold Overlap blockMajor at hpages
  unfold Overlap layerMajor
  omega

/-- Pages of one size. -/
theorem apart_of_same_page {k k' : Nat} (hne : k ≠ k') :
    Apart (k * p) p (k' * p) p := by
  unfold Apart
  rcases Nat.lt_or_gt_of_ne hne with hlt | hgt
  · left
    calc
      k * p + p = (k + 1) * p := (Nat.succ_mul k p).symm
      _ ≤ k' * p := Nat.mul_le_mul_right p hlt
  · right
    calc
      k' * p + p = (k' + 1) * p := (Nat.succ_mul k' p).symm
      _ ≤ k * p := Nat.mul_le_mul_right p hgt

/-! ## Packing pages side by side -/

/-- Where the `i`-th of some packed pages starts. -/
def packedOffset (pages : List Nat) (i : Nat) : Nat := (pages.take i).sum

theorem packedOffset_succ {pages : List Nat} {i : Nat} (hi : i < pages.length) :
    packedOffset pages (i + 1) = packedOffset pages i + pages[i] :=
  List.sum_take_succ pages i hi

theorem packedOffset_mono (pages : List Nat) : Monotone (packedOffset pages) :=
  List.monotone_sum_take pages

theorem packedOffset_le {pages : List Nat} {i : Nat} (hi : i < pages.length) :
    packedOffset pages i + pages[i] ≤ pages.sum := by
  calc
    packedOffset pages i + pages[i] = packedOffset pages (i + 1) :=
      (packedOffset_succ hi).symm
    _ ≤ packedOffset pages pages.length := packedOffset_mono pages hi
    _ = pages.sum := by rw [packedOffset, List.take_length]

theorem packedOffset_apart {pages : List Nat} {i j : Nat} (hi : i < pages.length)
    (hj : j < pages.length) (hne : i ≠ j) :
    Apart (packedOffset pages i) pages[i] (packedOffset pages j) pages[j] := by
  unfold Apart
  rcases Nat.lt_or_gt_of_ne hne with hlt | hgt
  · left
    rw [← packedOffset_succ hi]
    exact packedOffset_mono pages hlt
  · right
    rw [← packedOffset_succ hj]
    exact packedOffset_mono pages hgt

/-- Pages of one size are packed at multiples of it. -/
theorem packedOffset_of_same {pages : List Nat} (hsame : ∀ q ∈ pages, q = p)
    {i : Nat} (hi : i ≤ pages.length) : packedOffset pages i = i * p := by
  have htake : pages.take i = List.replicate i p := by
    apply List.eq_replicate_iff.mpr
    refine ⟨?_, fun q hq => hsame q (List.mem_of_mem_take hq)⟩
    rw [List.length_take, Nat.min_eq_left hi]
  rw [packedOffset, htake, List.sum_replicate_nat]

theorem packedOffset_append_left {pages pages' : List Nat} {i : Nat}
    (hi : i ≤ pages.length) :
    packedOffset (pages ++ pages') i = packedOffset pages i := by
  rw [packedOffset, packedOffset, List.take_append_of_le_length hi]

theorem packedOffset_append_right (pages pages' : List Nat) (i : Nat) :
    packedOffset (pages ++ pages') (pages.length + i) =
      pages.sum + packedOffset pages' i := by
  rw [packedOffset, packedOffset, List.take_length_add_append, List.sum_append]

end FlashNext.Verified.PackedPages
