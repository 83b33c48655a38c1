import FlashNext.Ports.HashView
import Mathlib.Tactic.Ring

/-!
# The view and the list

Lengths, iteration, slices and non-negative indices are those of the list.  A
negative index counts from the end of the raw hashes, which is the end of the
list only when no hashes are left over behind the last target block.
-/

namespace FlashNext.Ports.HashView

open FlashNext.Verified.Checked
open FlashNext.Verified.PyLists

variable {α : Type} {v : View α}

@[simp] theorem View.length_listed (v : View α) : v.listed.length = v.len := List.length_ofFn

/-! ## Non-negative indices -/

/-- The index into the raw hashes. -/
theorem rawIndex_natCast (i s : Nat) (hs : 0 < s) :
    ((i : Int) + 1) * s - 1 = (((i + 1) * s - 1 : Nat) : Int) := by
  have hpos : 0 < (i + 1) * s := Nat.mul_pos (Nat.succ_pos i) hs
  rw [Int.natCast_sub hpos]
  push_cast
  rfl

theorem View.getValueAt_of_lt (hs : 0 < v.scaleFactor) {i : Nat} (hi : i < v.len) :
    v.getValueAt i = getItem v.listed i := by
  have hlisted : i < v.listed.length := by
    rw [View.length_listed]
    exact hi
  have hraw := v.index_lt ⟨i, hi⟩
  rw [View.getValueAt, rawIndex_natCast i _ hs, getItem_natCast hraw, getItem_natCast hlisted]
  simp only [View.listed, List.getElem_ofFn]
  rfl

theorem View.getValueAt_of_le (hs : 0 < v.scaleFactor) {i : Nat} (hi : v.len ≤ i) :
    v.getValueAt i = .error .outOfRange := by
  have hlt : v.blockHashes.length < (i + 1) * v.scaleFactor :=
    (Nat.div_lt_iff_lt_mul hs).mp (Nat.lt_succ_of_le hi)
  rw [View.getValueAt, rawIndex_natCast i _ hs]
  apply getItem_outOfRange
  omega

/-- Non-negative indices are those of the list. -/
theorem View.getValueAt_nonneg (hs : 0 < v.scaleFactor) (i : Nat) :
    v.getValueAt i = getItem v.listed i := by
  by_cases hi : i < v.len
  · exact getValueAt_of_lt hs hi
  · have hle : v.len ≤ i := Nat.le_of_not_lt hi
    rw [getValueAt_of_le hs hle, getItem_outOfRange]
    rw [View.length_listed]
    omega

/-- A slice computes its indices on the length of the view. -/
theorem View.getSlice_eq (hs : 0 < v.scaleFactor) (sl : Slice) :
    v.getSlice sl = FlashNext.Verified.PyLists.getSlice v.listed sl := by
  unfold View.getSlice FlashNext.Verified.PyLists.getSlice
  rw [View.length_listed]
  cases hindices : sl.indices v.len with
  | none => rfl
  | some bounds =>
      obtain ⟨start, stop, step⟩ := bounds
      show ((range start stop step).mapM v.getValueAt).mapError _ = _
      congr 1
      apply mapM_congr
      intro i hi
      obtain ⟨hnonneg, -⟩ := Slice.mem_range_indices hindices hi
      obtain ⟨k, rfl⟩ := Int.eq_ofNat_of_zero_le hnonneg
      exact getValueAt_nonneg hs k

theorem View.toList_eq (hs : 0 < v.scaleFactor) : v.toList = .ok v.listed := by
  have hread := mapM_getItem v.listed
  rw [View.length_listed] at hread
  rw [View.toList, ← hread]
  apply mapM_congr
  intro i hi
  rw [range_natCast] at hi
  obtain ⟨k, -, rfl⟩ := List.mem_map.mp hi
  exact getValueAt_nonneg hs k

/-! ## Negative indices -/

/-- A negative index counts from the end of the raw hashes. -/
theorem View.getValueAt_neg (v : View α) (k : Nat) :
    v.getValueAt (-((k : Int) + 1)) =
      getItem v.blockHashes (-(((k * v.scaleFactor : Nat) : Int) + 1)) := by
  have hindex : (-((k : Int) + 1) + 1) * v.scaleFactor - 1 =
      -(((k * v.scaleFactor : Nat) : Int) + 1) := by
    push_cast
    ring
  rw [View.getValueAt, hindex]

/-- Without leftover hashes it is that of the list. -/
theorem View.getValueAt_neg_of_dvd (hs : 0 < v.scaleFactor)
    (hdvd : v.scaleFactor ∣ v.blockHashes.length) (k : Nat) :
    v.getValueAt (-((k : Int) + 1)) = getItem v.listed (-((k : Int) + 1)) := by
  have hlen : v.len * v.scaleFactor = v.blockHashes.length := Nat.div_mul_cancel hdvd
  rw [View.getValueAt_neg]
  by_cases hk : k < v.len
  · have hlisted : k < v.listed.length := by
      rw [View.length_listed]
      exact hk
    have hraw : k * v.scaleFactor < v.blockHashes.length := by
      rw [← hlen]
      exact Nat.mul_lt_mul_of_pos_right hk hs
    have hsame : v.blockHashes.length - 1 - k * v.scaleFactor =
        (v.len - 1 - k + 1) * v.scaleFactor - 1 := by
      have hsub : v.len - 1 - k + 1 = v.len - k := by omega
      rw [hsub, Nat.sub_mul, hlen]
      omega
    rw [getItem_neg hraw, getItem_neg hlisted, View.length_listed, hsame,
      ← rawIndex_natCast _ _ hs]
    exact getValueAt_nonneg hs (v.len - 1 - k)
  · have hle : v.len * v.scaleFactor ≤ k * v.scaleFactor :=
      Nat.mul_le_mul_right _ (Nat.le_of_not_lt hk)
    rw [getItem_outOfRange (by omega), getItem_outOfRange (by rw [View.length_listed]; omega)]

/-- With leftover hashes the index before the first is not refused. -/
theorem View.getValueAt_before_first (hdvd : ¬ v.scaleFactor ∣ v.blockHashes.length) :
    v.getValueAt (-((v.len : Int) + 1)) ≠ getItem v.listed (-((v.len : Int) + 1)) := by
  have hlt : v.len * v.scaleFactor < v.blockHashes.length := by
    apply Nat.lt_of_le_of_ne (Nat.div_mul_le_self _ _)
    exact fun heq => hdvd ⟨v.len, heq.symm.trans (Nat.mul_comm _ _)⟩
  have hread : v.blockHashes.length - 1 - v.len * v.scaleFactor < v.blockHashes.length := by
    omega
  rw [View.getValueAt_neg, getItem_neg hlt, getItem_natCast hread,
    getItem_outOfRange (by rw [View.length_listed]; omega)]
  exact nofun

/-! ## The view -/

/-- A view that is resolved from raw hashes shows all of them, at the scale of
the two block sizes. -/
theorem resolved_view {hashes : List α} {hashBlockSize blockSize : Nat} {fineGrained : Bool}
    {alignmentTokens : Option Nat} (hblock : 0 < blockSize)
    (h : resolveBlockHashes (.raw hashes) hashBlockSize blockSize fineGrained alignmentTokens =
      .ok (.view v)) :
    v.blockHashes = hashes ∧ v.scaleFactor * hashBlockSize = blockSize ∧ 0 < v.scaleFactor := by
  have hnew : View.new hashes hashBlockSize blockSize = .ok v := by
    have hmap : ∀ result : Except HashError (View α),
        result.map BlockHashList.view = .ok (.view v) → result = .ok v := by
      intro result hresult
      cases result with
      | error e => cases hresult
      | ok w =>
          cases hresult
          rfl
    unfold resolveBlockHashes at h
    by_cases hsame : blockSize = hashBlockSize
    · rw [if_pos hsame] at h
      cases h
    · rw [if_neg hsame] at h
      cases alignmentTokens with
      | none => exact hmap _ h
      | some alignment =>
          simp only at h
          split at h
          · split at h
            · cases h
            · split at h
              · cases h
              · exact hmap _ h
          · exact hmap _ h
  unfold View.new at hnew
  split at hnew
  · cases hnew
  · split at hnew
    · next hmod =>
        cases hnew
        have hmul := Nat.div_mul_cancel (Nat.dvd_of_mod_eq_zero hmod)
        refine ⟨rfl, hmul, Nat.pos_of_ne_zero fun hzero => ?_⟩
        simp only at hzero
        rw [hzero, Nat.zero_mul] at hmul
        omega
    · cases hnew

/-- The view behaves as the list exactly when no hashes are left over. -/
theorem view_agrees_iff (v : View α) (hs : 0 < v.scaleFactor) :
    v.Agrees ↔ v.scaleFactor ∣ v.blockHashes.length := by
  constructor
  · intro h
    by_contra hdvd
    exact View.getValueAt_before_first hdvd (h.items _)
  · intro hdvd
    refine ⟨v.length_listed.symm, View.toList_eq hs, View.getSlice_eq hs, fun idx => ?_⟩
    cases idx with
    | ofNat i => exact View.getValueAt_nonneg hs i
    | negSucc k => exact View.getValueAt_neg_of_dvd hs hdvd k

theorem view_agrees_iff_even :
    (View.mk ["a", "b", "c", "d"] 2).Agrees ↔ 2 ∣ ["a", "b", "c", "d"].length :=
  view_agrees_iff ⟨["a", "b", "c", "d"], 2⟩ (by decide)

/-- With a hash left over the last block is the wrong one, and there is a block
before the first. -/
theorem leftover_hash_read :
    (View.mk ["a", "b", "c"] 2).getValueAt (-1) = .ok "c" ∧
      getItem (View.mk ["a", "b", "c"] 2).listed (-1) = .ok "b" ∧
      (View.mk ["a", "b", "c"] 2).getValueAt (-2) = .ok "a" ∧
      getItem (View.mk ["a", "b", "c"] 2).listed (-2) = .error .outOfRange ∧
      ¬ (View.mk ["a", "b", "c"] 2).Agrees := by
  refine ⟨by decide, by decide, by decide, by decide, ?_⟩
  intro h
  have hlast := h.items (-1)
  revert hlast
  decide

end FlashNext.Ports.HashView
