import Mathlib.Data.Int.Bitwise

/-!
# Unbounded integers that stand for machine integers

Code that computes with unbounded integers can follow a `w`-bit machine if it
brings every result back into `[-2 ^ (w-1), 2 ^ (w-1))` by `wrap`.  This
module relates the two readings: `BitVec w` with its own multiplication, xor
and conversion, and `Int` with `wrap`.

* `toInt_mul_eq_wrap`, `toInt_xor_eq` — one operation on either side;
* `wrap_toInt` — a value that is already in range stays as it is.
-/

namespace FlashNext.Verified.SignedWrap

/-- Reduce modulo `2 ^ w` and reinterpret as signed. -/
def wrap (w : Nat) (x : Int) : Int :=
  if 2 ^ (w - 1) ≤ x % 2 ^ w then x % 2 ^ w - 2 ^ w else x % 2 ^ w

theorem wrap_eq_bmod {w : Nat} (hw : 0 < w) (x : Int) :
    wrap w x = x.bmod (2 ^ w) := by
  obtain ⟨v, rfl⟩ := Nat.exists_eq_add_of_lt hw
  have hpow : (2 : Int) ^ (0 + v + 1) = 2 * 2 ^ v := by
    rw [Nat.zero_add, Int.pow_succ, Int.mul_comm]
  have hhalf : (((2 ^ (0 + v + 1) : Nat) : Int) + 1) / 2 = 2 ^ v := by
    push_cast
    rw [hpow]
    omega
  rw [Int.bmod_def, hhalf]
  push_cast
  simp only [wrap, Nat.zero_add, Nat.add_sub_cancel]
  by_cases h : (2 : Int) ^ v ≤ x % 2 ^ (v + 1)
  · rw [if_pos h, if_neg (by omega)]
  · rw [if_neg h, if_pos (by omega)]

variable {w : Nat}

/-- Signed multiplication wraps. -/
theorem toInt_mul_eq_wrap (hw : 0 < w) (x y : BitVec w) :
    (x * y).toInt = wrap w (x.toInt * y.toInt) := by
  rw [wrap_eq_bmod hw, BitVec.toInt_mul]

theorem wrap_toInt (hw : 0 < w) (x : BitVec w) : wrap w x.toInt = x.toInt := by
  rw [wrap_eq_bmod hw, BitVec.toInt_bmod_cancel]

theorem toInt_of_msb_false {x : BitVec w} (h : x.msb = false) :
    x.toInt = Int.ofNat x.toNat :=
  BitVec.toInt_eq_toNat_of_msb h

theorem toInt_of_msb_true {x : BitVec w} (h : x.msb = true) :
    x.toInt = Int.negSucc (~~~x).toNat := by
  have hlt := x.isLt
  have htoInt : x.toInt = (x.toNat : Int) - 2 ^ w := by
    rw [BitVec.toInt_eq_msb_cond, if_pos h]
    push_cast
    rfl
  rw [htoInt, BitVec.toNat_not, Int.negSucc_eq]
  have hcast : ((2 ^ w - 1 - x.toNat : Nat) : Int) =
      (2 : Int) ^ w - 1 - x.toNat := by
    have hpow : ((2 ^ w : Nat) : Int) = (2 : Int) ^ w := by push_cast; rfl
    omega
  rw [hcast]
  omega

/-- The exclusive or of two's complement integers is that of their words. -/
theorem toInt_xor_eq (x y : BitVec w) :
    (x ^^^ y).toInt = Int.xor x.toInt y.toInt := by
  cases hx : x.msb <;> cases hy : y.msb
  · have hxy : (x ^^^ y).msb = false := by rw [BitVec.msb_xor, hx, hy]; rfl
    rw [toInt_of_msb_false hxy, toInt_of_msb_false hx, toInt_of_msb_false hy,
      BitVec.toNat_xor]
    rfl
  · have hxy : (x ^^^ y).msb = true := by rw [BitVec.msb_xor, hx, hy]; rfl
    have hnot : ~~~(x ^^^ y) = x ^^^ ~~~y := by ext; simp
    rw [toInt_of_msb_true hxy, toInt_of_msb_false hx, toInt_of_msb_true hy,
      hnot, BitVec.toNat_xor]
    rfl
  · have hxy : (x ^^^ y).msb = true := by rw [BitVec.msb_xor, hx, hy]; rfl
    have hnot : ~~~(x ^^^ y) = ~~~x ^^^ y := by ext; simp
    rw [toInt_of_msb_true hxy, toInt_of_msb_true hx, toInt_of_msb_false hy,
      hnot, BitVec.toNat_xor]
    rfl
  · have hxy : (x ^^^ y).msb = false := by rw [BitVec.msb_xor, hx, hy]; rfl
    have hnot : x ^^^ y = ~~~x ^^^ ~~~y := by ext; simp
    rw [toInt_of_msb_false hxy, toInt_of_msb_true hx, toInt_of_msb_true hy,
      hnot, BitVec.toNat_xor]
    rfl

end FlashNext.Verified.SignedWrap
