import Mathlib.Algebra.Group.Nat.Defs
import Mathlib.Data.List.Basic

/-!
# Eight nibbles in a signed word

Nibbles are or-ed into a 32-bit word from the low end; the topmost may set the
sign bit.  Reading widens the word, masks the sign extension away and shifts.
-/

namespace FlashNext.Verified.NibbleWords

/-- `packed |= nib[i] << (4 * i)` for the eight nibbles. -/
def packWord (nibs : List Int) : BitVec 32 :=
  (List.range 8).foldl (fun packed i => packed ||| (BitVec.ofInt 32 (nibs.getD i 0) <<< (4 * i)))
    0#32

/-- `packed.to(int64) & 0xFFFFFFFF`. -/
def widen (packed : BitVec 32) : BitVec 64 := packed.signExtend 64 &&& 0xFFFFFFFF#64

/-- `(p >> (4 * i)) & 0xF` for the eight nibbles. -/
def unpackWord (packed : BitVec 32) : List Int :=
  (List.range 8).map fun i => ((widen packed).sshiftRight (4 * i) &&& 0xF#64).toInt

/-- Or-ing a nibble in above the others adds it at its place. -/
theorem or_nibble_toNat {packed : BitVec 32} {n i : Nat} (hpacked : packed.toNat < 16 ^ i)
    (hn : n < 16) (hi : i < 8) :
    (packed ||| (BitVec.ofInt 32 (n : Int) <<< (4 * i))).toNat = packed.toNat + n * 16 ^ i ∧
      packed.toNat + n * 16 ^ i < 16 ^ (i + 1) := by
  have hpow : (16 : Nat) ^ i = 2 ^ (4 * i) := by rw [Nat.pow_mul]
  have hstep : (16 : Nat) ^ (i + 1) = 16 ^ i * 16 := Nat.pow_succ ..
  have hmul : n * 16 ^ i ≤ 15 * 16 ^ i := Nat.mul_le_mul_right _ (by omega)
  have hle : (16 : Nat) ^ (i + 1) ≤ 16 ^ 8 := Nat.pow_le_pow_right (by decide) (by omega)
  have hbound : packed.toNat + n * 16 ^ i < 16 ^ (i + 1) := by omega
  refine ⟨?_, hbound⟩
  have hnib : (BitVec.ofInt 32 (n : Int)).toNat = n := by
    rw [BitVec.ofInt_natCast, BitVec.toNat_ofNat, Nat.mod_eq_of_lt (by omega)]
  have hshift : (BitVec.ofInt 32 (n : Int) <<< (4 * i)).toNat = n <<< (4 * i) := by
    rw [BitVec.toNat_shiftLeft, hnib, Nat.mod_eq_of_lt]
    rw [Nat.shiftLeft_eq, ← hpow]
    omega
  rw [BitVec.toNat_or, hshift, Nat.or_comm, ← Nat.shiftLeft_add_eq_or_of_lt (hpow ▸ hpacked),
    Nat.shiftLeft_eq, ← hpow, Nat.add_comm]

/-- Reading one nibble of a word. -/
theorem nibble_toInt (packed : BitVec 32) (i : Nat) :
    ((widen packed).sshiftRight (4 * i) &&& 0xF#64).toInt =
      ((packed.toNat / 16 ^ i % 16 : Nat) : Int) := by
  have hlt := packed.isLt
  have hwiden : (widen packed).toNat = packed.toNat := by
    rw [widen, BitVec.toNat_and, BitVec.toNat_signExtend, BitVec.toNat_setWidth]
    show _ &&& (2 ^ 32 - 1) = _
    rw [Nat.and_two_pow_sub_one_eq_mod]
    split <;> omega
  have hmsb : (widen packed).msb = false := by
    rw [BitVec.msb_eq_false_iff_two_mul_lt, hwiden]
    omega
  have hnat : ((widen packed).sshiftRight (4 * i) &&& 0xF#64).toNat =
      packed.toNat / 16 ^ i % 16 := by
    rw [BitVec.toNat_and, BitVec.toNat_sshiftRight_of_msb_false hmsb, hwiden,
      Nat.shiftRight_eq_div_pow, Nat.pow_mul]
    exact Nat.and_two_pow_sub_one_eq_mod _ 4
  rw [BitVec.toInt_eq_toNat_of_lt (by rw [hnat]; omega), hnat]

/-- The first nibbles of a word that is being packed. -/
def packPrefix (nibs : List Int) (k : Nat) : BitVec 32 :=
  (List.range k).foldl (fun packed i => packed ||| (BitVec.ofInt 32 (nibs.getD i 0) <<< (4 * i)))
    0#32

theorem packPrefix_succ (nibs : List Int) (k : Nat) :
    packPrefix nibs (k + 1) =
      packPrefix nibs k ||| (BitVec.ofInt 32 (nibs.getD k 0) <<< (4 * k)) := by
  rw [packPrefix, List.range_succ, List.foldl_append]
  rfl

/-- The nibbles packed so far are the digits of the word. -/
theorem packPrefix_digits {nibs : List Int} (hlen : nibs.length = 8)
    (h : ∀ n ∈ nibs, 0 ≤ n ∧ n < 16) {k : Nat} (hk : k ≤ 8) :
    (packPrefix nibs k).toNat < 16 ^ k ∧
      ∀ i < k, (((packPrefix nibs k).toNat / 16 ^ i % 16 : Nat) : Int) = nibs.getD i 0 := by
  induction k with
  | zero => exact ⟨Nat.one_pos, nofun⟩
  | succ k ih =>
      obtain ⟨hlt, hdigits⟩ := ih (by omega)
      have hget : k < nibs.length := by omega
      have hmem : nibs.getD k 0 ∈ nibs := by
        rw [List.getD_eq_getElem?_getD, List.getElem?_eq_getElem hget]
        exact List.getElem_mem hget
      obtain ⟨n, hn⟩ := Int.eq_ofNat_of_zero_le (h _ hmem).1
      have hn16 : n < 16 := by
        have := (h _ hmem).2
        omega
      obtain ⟨hor, hbound⟩ := or_nibble_toNat hlt hn16 (by omega : k < 8)
      rw [packPrefix_succ, hn]
      rw [hor]
      refine ⟨hbound, fun i hi => ?_⟩
      by_cases hik : i = k
      · -- the new digit is on top
        rw [hik, Nat.add_mul_div_right _ _ (Nat.pow_pos (by decide)), Nat.div_eq_of_lt hlt,
          Nat.zero_add, Nat.mod_eq_of_lt hn16, hn]
      · -- the digits below do not see it
        have hsplit : n * 16 ^ k = 16 ^ i * (16 * (n * 16 ^ (k - i - 1))) := by
          have hpow : (16 : Nat) ^ k = 16 ^ i * (16 * 16 ^ (k - i - 1)) := by
            rw [← Nat.pow_succ', ← Nat.pow_add]
            congr 1
            omega
          rw [hpow, Nat.mul_left_comm, Nat.mul_left_comm n]
        rw [hsplit, Nat.add_mul_div_left _ _ (Nat.pow_pos (by decide)), Nat.add_mul_mod_self_left]
        exact hdigits i (by omega)

/-- Every nibble is read back, also when the topmost sets the sign. -/
theorem unpackWord_packWord {nibs : List Int} (hlen : nibs.length = 8)
    (h : ∀ n ∈ nibs, 0 ≤ n ∧ n < 16) : unpackWord (packWord nibs) = nibs := by
  obtain ⟨-, hdigits⟩ := packPrefix_digits hlen h (Nat.le_refl 8)
  apply List.ext_getElem
  · rw [unpackWord, List.length_map, List.length_range, hlen]
  · intro i hi hi'
    simp only [unpackWord, List.getElem_map, List.getElem_range]
    rw [nibble_toInt]
    show (((packPrefix nibs 8).toNat / 16 ^ i % 16 : Nat) : Int) = _
    rw [hdigits i (hlen ▸ hi'), List.getD_eq_getElem?_getD, List.getElem?_eq_getElem hi']
    rfl

end FlashNext.Verified.NibbleWords
