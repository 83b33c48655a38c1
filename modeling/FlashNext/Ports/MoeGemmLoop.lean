import FlashNext.Ports.MoeGemm
import FlashNext.Verified.GridSums

/-!
# The fused MoE GEMM: the loop over K

At the head of the loop the constants belong to the group of `k`, or to the
group that ends at `k`; the accumulators hold the products of all positions
before `k`.
-/

namespace FlashNext.Ports.MoeGemm

open FlashNext.Verified.GridSums

variable {R : Type*} [Field R] (args : KernelArgs R)

/-! ## The weights that the layout stores -/

/-- The weight of an expert at a position along K and a column. -/
def weightAt (expert k n : Nat) : Nat :=
  shuffledNibble (args.bQWeight (expert * args.expertWeightStride + k / 8 * args.sizeN + n))
    (k % 8)

/-- The zero point of a group: the stored nibble plus one. -/
def zeroAt (expert group n : Nat) : Nat :=
  packedNibble (args.bQzeros (expert * args.expertZerosStride + group * (args.sizeN / 8) +
    n / 8)) (n % 8) + 1

def scaleAt (expert group n : Nat) : R :=
  args.bScales (expert * args.expertScalesStride + group * args.sizeN + n)

/-- The weight that is meant. -/
def dequantAt (expert k n : Nat) : R :=
  scaleAt args expert (k / groupsize args) n *
    ((weightAt args expert k n : R) - zeroAt args expert (k / groupsize args) n)

/-- Sizes that the layout allows. -/
structure KernelArgs.Sized : Prop where
  groups : args.groups * groupsize args = args.sizeK
  group_dvd : 32 ∣ groupsize args
  cols_dvd : 8 ∣ args.sizeN
  topK_pos : 0 < args.topK

/-! ## One word -/

omit [Field R] in
theorem zeroAt_le (expert group n : Nat) : zeroAt args expert group n ≤ 16 :=
  Nat.succ_le_of_lt (Nat.mod_lt _ (by decide))

/-- The constants of a group are those of its scale and zero point. -/
theorem refreshGroup_eq {expert n : Nat} (hn : 4 ∣ n) {c : Nat} (hc : c < 4) (group : Nat) :
    refreshGroup args expert group n c =
      prepZeroScaleFp16 (zeroAt args expert group (n + c)) (scaleAt args expert group (n + c)) := by
  simp only [refreshGroup, load4Zeros_eq _ hn hc, zeroAt, scaleAt, Nat.add_assoc]

/-- The products of a column over some positions. -/
def columnSum (args : KernelArgs R) (a : Nat → Nat → R) (expert n offsetK m c : Nat)
    (positions : Finset Nat) : R :=
  ∑ k ∈ positions, a m (k - offsetK) * dequantAt args expert k (n + c)

/-- The state at the head of the loop. -/
structure AtHead (args : KernelArgs R) (a : Nat → Nat → R) (expert n offsetK : Nat)
    (s : LoopState R) : Prop where
  ge : offsetK ≤ s.k
  dvd : 32 ∣ s.k
  bPtr : s.bPtr = expert * args.expertWeightStride + s.k / 8 * args.sizeN + n
  group_le : s.group * groupsize args ≤ s.k
  le_next : s.k ≤ s.nextgroup
  nextgroup : s.nextgroup = (s.group + 1) * groupsize args
  consts : s.consts = refreshGroup args expert s.group n
  blockC : ∀ m, ∀ c < 4, s.blockC m c =
    columnSum args a expert n offsetK m c (Finset.Ico offsetK s.k)

/-- The constants are those of the positions that come next. -/
structure InGroup (args : KernelArgs R) (a : Nat → Nat → R) (expert n offsetK : Nat)
    (s : LoopState R) : Prop extends AtHead args a expert n offsetK s where
  lt_next : s.k < s.nextgroup

variable {args} {expert n offsetK : Nat} {a : Nat → Nat → R} {s : LoopState R}

theorem AtHead.refresh (h : AtHead args a expert n offsetK s)
    (hpos : 0 < groupsize args) :
    InGroup args a expert n offsetK (refreshAtNext args expert n s) := by
  unfold refreshAtNext
  split
  · next hnext =>
      have hgroup : s.k = (s.group + 1) * groupsize args := by rw [hnext, h.nextgroup]
      have hnew : s.k < s.nextgroup + groupsize args := by omega
      exact
        { ge := h.ge
          dvd := h.dvd
          bPtr := h.bPtr
          group_le := Nat.le_of_eq hgroup.symm
          le_next := Nat.le_of_lt hnew
          nextgroup := by
            show s.nextgroup + groupsize args = (s.group + 1 + 1) * groupsize args
            rw [Nat.succ_mul, h.nextgroup]
          consts := rfl
          blockC := h.blockC
          lt_next := hnew }
  · next hother => exact { h with lt_next := Nat.lt_of_le_of_ne h.le_next hother }

/-- The whole chunk is in one group. -/
theorem InGroup.group_eq (h : InGroup args a expert n offsetK s)
    (hdvd : 32 ∣ groupsize args) {i : Nat} (hi : i < 32) :
    (s.k + i) / groupsize args = s.group := by
  have hnextDvd : 32 ∣ s.nextgroup := by
    rw [h.nextgroup]
    exact Dvd.dvd.mul_left hdvd _
  have hlt := h.lt_next
  have hk := h.dvd
  have hend : s.k + 32 ≤ s.nextgroup := by omega
  have hge := h.group_le
  have hnext := h.nextgroup
  rw [Nat.succ_mul] at hnext
  apply Nat.div_eq_of_lt_le
  · omega
  · rw [Nat.succ_mul]
    omega

variable [CharZero R]

/-- A word adds eight products. -/
theorem InGroup.addWord_eq (h : InGroup args a expert n offsetK s)
    (hdvd : 32 ∣ groupsize args) (hn : 4 ∣ n) (blockC : Nat → Nat → R) {j c : Nat} (hj : j < 4)
    (hc : c < 4) (m : Nat) :
    addWord args a offsetK s blockC j m c = blockC m c +
      ∑ i ∈ Finset.range 8, a m (s.k + (j * 8 + i) - offsetK) *
        dequantAt args expert (s.k + (j * 8 + i)) (n + c) := by
  have hk := h.dvd
  have hge := h.ge
  have hword : s.bPtr + j * args.sizeN + c =
      expert * args.expertWeightStride + (s.k / 8 + j) * args.sizeN + (n + c) := by
    rw [h.bPtr, Nat.add_mul]
    omega
  unfold addWord
  dsimp only
  rw [h.consts, refreshGroup_eq args hn hc, dot22_8_f_eq _ (zeroAt_le args _ _ _), hword]
  congr 1
  apply Finset.sum_congr rfl
  intro i hi
  have hi8 := Finset.mem_range.mp hi
  have hrow : (s.k + (j * 8 + i)) / 8 = s.k / 8 + j := by omega
  have hentry : (s.k + (j * 8 + i)) % 8 = i := by omega
  have hoff : s.k - offsetK + 8 * j + i = s.k + (j * 8 + i) - offsetK := by omega
  rw [dequantAt, h.group_eq hdvd (by omega), weightAt, hrow, hentry, hoff]

/-- A turn adds 32 products to every accumulator. -/
theorem InGroup.chunk_blockC (h : InGroup args a expert n offsetK s)
    (hdvd : 32 ∣ groupsize args) (hn : 4 ∣ n) {c : Nat} (hc : c < 4) (m : Nat) :
    (List.range 4).foldl (addWord args a offsetK s) s.blockC m c =
      columnSum args a expert n offsetK m c (Finset.Ico offsetK (s.k + 32)) := by
  have hwords := fun blockC j (hj : j < 4) => h.addWord_eq hdvd hn blockC hj hc m
  have hrange : List.range 4 = [0, 1, 2, 3] := rfl
  have hsplit := sum_blocks (fun i => a m (s.k + i - offsetK) *
    dequantAt args expert (s.k + i) (n + c)) 4 8
  have hcons := Finset.sum_Ico_consecutive
    (fun k => a m (k - offsetK) * dequantAt args expert k (n + c)) h.ge (Nat.le_add_right s.k 32)
  rw [Finset.sum_Ico_eq_sum_range _ s.k, Nat.add_sub_cancel_left] at hcons
  rw [columnSum, ← hcons, ← hsplit, hrange]
  simp only [List.foldl_cons, List.foldl_nil, hwords _ 0 (by decide), hwords _ 1 (by decide),
    hwords _ 2 (by decide), hwords _ 3 (by decide), h.blockC m c hc, columnSum, add_assoc]
  congr 1
  simp only [Finset.sum_range_succ _ 3, Finset.sum_range_succ _ 2, Finset.sum_range_succ _ 1,
    Finset.sum_range_succ _ 0, Finset.sum_range_zero, zero_add, add_assoc]

/-! ## The loop -/

theorem AtHead.chunk (h : AtHead args a expert n offsetK s) (hpos : 0 < groupsize args)
    (hdvd : 32 ∣ groupsize args) (hn : 4 ∣ n) :
    AtHead args a expert n offsetK (kChunk args a expert n offsetK s) := by
  have hin := h.refresh hpos
  have hnextDvd : 32 ∣ (refreshAtNext args expert n s).nextgroup := by
    rw [hin.nextgroup]
    exact Dvd.dvd.mul_left hdvd _
  have hk := hin.dvd
  have hge := hin.ge
  have hlt := hin.lt_next
  have hrow : (refreshAtNext args expert n s).k / 8 + 4 =
      ((refreshAtNext args expert n s).k + 32) / 8 := by omega
  exact
    { ge := by
        show offsetK ≤ (refreshAtNext args expert n s).k + 32
        omega
      dvd := by
        show 32 ∣ (refreshAtNext args expert n s).k + 32
        omega
      bPtr := by
        show (refreshAtNext args expert n s).bPtr + 4 * args.sizeN =
          expert * args.expertWeightStride +
            ((refreshAtNext args expert n s).k + 32) / 8 * args.sizeN + n
        rw [hin.bPtr, ← hrow, Nat.add_mul]
        omega
      group_le := Nat.le_trans hin.group_le (Nat.le_add_right _ 32)
      le_next := by
        show (refreshAtNext args expert n s).k + 32 ≤ (refreshAtNext args expert n s).nextgroup
        omega
      nextgroup := hin.nextgroup
      consts := hin.consts
      blockC := fun m c hc => hin.chunk_blockC hdvd hn hc m }

/-- The loop ends at `end_k` with the products of the whole tile. -/
theorem AtHead.kLoop (h : AtHead args a expert n offsetK s) (hpos : 0 < groupsize args)
    (hdvd : 32 ∣ groupsize args) (hn : 4 ∣ n) (hend : 32 ∣ endK args offsetK)
    (hle : s.k ≤ endK args offsetK) (m : Nat) {c : Nat} (hc : c < 4) :
    (kLoop args a expert n offsetK s).blockC m c =
      columnSum args a expert n offsetK m c (Finset.Ico offsetK (endK args offsetK)) := by
  induction s using kLoop.induct args a expert n offsetK with
  | case1 s hlt ih =>
      have hk := h.dvd
      rw [MoeGemm.kLoop, if_pos hlt]
      apply ih (h.chunk hpos hdvd hn)
      rw [kChunk_k]
      omega
  | case2 s hge =>
      have hk : s.k = endK args offsetK := Nat.le_antisymm hle (Nat.le_of_not_lt hge)
      rw [MoeGemm.kLoop, if_neg hge, h.blockC m c hc, hk]

omit [CharZero R] in
/-- The state before the loop is at its head. -/
theorem loopStart_atHead (hpos : 0 < groupsize args) (hoff : 32 ∣ offsetK) :
    AtHead args a expert n offsetK (loopStart args expert n offsetK) where
  ge := Nat.le_refl _
  dvd := hoff
  bPtr := rfl
  group_le := Nat.div_mul_le_self _ _
  le_next := by
    have hlt := Nat.lt_mul_div_succ offsetK hpos
    rw [Nat.mul_comm] at hlt
    exact Nat.le_of_lt hlt
  nextgroup := rfl
  consts := rfl
  blockC := fun _ _ _ => by
    show 0 = columnSum args a expert n offsetK _ _ (Finset.Ico offsetK offsetK)
    rw [columnSum, Finset.Ico_self, Finset.sum_empty]

end FlashNext.Ports.MoeGemm
