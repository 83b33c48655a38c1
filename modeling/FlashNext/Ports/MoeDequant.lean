import Mathlib.Algebra.Field.Basic
import Mathlib.Algebra.BigOperators.Group.Finset.Basic
import Mathlib.Algebra.CharP.Defs
import Mathlib.Data.Nat.Bitwise
import Mathlib.Tactic.Ring
import Mathlib.Tactic.FieldSimp

/-!
# The W4A16 primitives of the fused MoE kernel

Weights are 4-bit, eight to a word, in the exllama order.  A nibble is read as
a half by placing it in the mantissa of 1024; scale and zero point are baked
into two pairs of constants.  Arithmetic is exact here.
-/

set_option linter.constructorNameAsVariable false

namespace FlashNext.Ports.MoeGemm

variable {R : Type*} [Field R]

/-! ## Halves -/

/-- The value of a normal half. -/
def halfValue (u : Nat) : R :=
  (if u / 2 ^ 15 % 2 = 1 then -1 else 1) * ((1024 + u % 2 ^ 10 : Nat) : R) *
    ((2 : Nat) : R) ^ ((u / 2 ^ 10 % 2 ^ 5 : Nat) - 25 : Int)

/-- A `half2` read from a word. -/
def half2OfBits (u : Nat) : R × R := (halfValue (u % 2 ^ 16), halfValue (u / 2 ^ 16 % 2 ^ 16))

/-- `__hfma2`, with constants that are equal in both halves. -/
def hfma2 (x : R × R) (y z : R) : R × R := (x.1 * y + z, x.2 * y + z)

/-! ## Dequantization -/

/-- `z1z16` and `y1y16` of one column. -/
structure DequantConsts (R : Type*) where
  z1 : R
  z16 : R
  y1 : R
  y16 : R

/-- `prep_zero_scale_fp16`. -/
def prepZeroScaleFp16 (zero : Nat) (scale : R) : DequantConsts R where
  z1 := scale * halfValue ((0xE400 ||| zero) % 2 ^ 16)
  z16 := scale * (-64 - (zero : R))
  y1 := scale * 1
  y16 := scale * (1 / 16)

/-- `dequant_4bit_8_fp16`; pair `i` of the result is `dq[i]`. -/
def dequant4bit8Fp16 (qa : Nat) (c : DequantConsts R) : Nat → R × R :=
  let c0 := 0x64006400
  let qaHi := qa >>> 8
  fun
  | 0 => hfma2 (half2OfBits (qa &&& 0x000F000F ||| c0)) c.y1 c.z1
  | 1 => hfma2 (half2OfBits (qa &&& 0x00F000F0 ||| c0)) c.y16 c.z16
  | 2 => hfma2 (half2OfBits (qaHi &&& 0x000F000F ||| c0)) c.y1 c.z1
  | _ => hfma2 (half2OfBits (qaHi &&& 0x00F000F0 ||| c0)) c.y16 c.z16

/-- `dot22_8_f`. -/
def dot22_8_f (dq : Nat → R × R) (a : Nat → R) : R :=
  (List.range 4).foldl
    (fun result i => (dq i).1 * a (2 * i) + (dq i).2 * a (2 * i + 1) + result) 0

/-- `load4_zeros`. -/
def load4Zeros (qzerosRow : Nat → Nat) (n : Nat) (i : Nat) : Nat :=
  let qcol := n / 8
  let shift := (n &&& 0x07) * 4
  let d := qzerosRow qcol >>> shift
  (d >>> (4 * i)) &&& 0xF

/-! ## What the bits mean -/

/-- Entry `i` of a word of eight weights in the exllama order: even entries in
the low half, odd entries in the high half. -/
def shuffledNibble (word i : Nat) : Nat := word / 2 ^ (4 * (i / 2) + 16 * (i % 2)) % 16

/-- Entry `i` of a word of eight zero points. -/
def packedNibble (word i : Nat) : Nat := word / 2 ^ (4 * i) % 16

private theorem low_bits : ∀ q < 16, q ||| 0x6400 = 1024 * 25 + q := by decide

private theorem high_bits :
    ∀ q < 256, (q &&& 0xF0) ||| 0x6400 = 1024 * 25 + 16 * (q / 16) := by decide +kernel

private theorem zero_bits : ∀ zero ≤ 16, 0xE400 ||| zero = 1024 * 57 + zero := by decide

/-- The low nibble of a half, placed in a mantissa. -/
theorem and_low (x : Nat) : x &&& 0xF ||| 0x6400 = 1024 * 25 + x % 16 := by
  have hmod : x &&& 0xF = x % 16 := Nat.and_two_pow_sub_one_eq_mod x 4
  rw [hmod, low_bits (x % 16) (Nat.mod_lt x (by decide))]

/-- The nibble above it. -/
theorem and_high (x : Nat) : x &&& 0xF0 ||| 0x6400 = 1024 * 25 + 16 * (x / 16 % 16) := by
  have hsmall : x &&& 0xF0 = (x &&& 0xF0) % 2 ^ 8 :=
    (Nat.mod_eq_of_lt (Nat.lt_of_le_of_lt Nat.and_le_right (by decide))).symm
  have hmod : x &&& 0xF0 = x % 256 &&& 0xF0 := by
    rw [hsmall, Nat.and_mod_two_pow]
  have hdiv : x % 256 / 16 = x / 16 % 16 := by omega
  rw [hmod, high_bits (x % 256) (Nat.mod_lt x (by decide)), hdiv]

/-- A half with the exponent of 1024. -/
theorem halfValue_pos {m : Nat} (hm : m < 1024) :
    (halfValue (1024 * 25 + m) : R) = 1024 + m := by
  have hsign : (1024 * 25 + m) / 2 ^ 15 % 2 = 0 := by omega
  have hmant : (1024 * 25 + m) % 2 ^ 10 = m := by omega
  have hexp : (1024 * 25 + m) / 2 ^ 10 % 2 ^ 5 = 25 := by omega
  rw [halfValue, hsign, hmant, hexp, if_neg (by decide)]
  simp

theorem halfValue_neg {m : Nat} (hm : m < 1024) :
    (halfValue (1024 * 57 + m) : R) = -1024 - m := by
  have hsign : (1024 * 57 + m) / 2 ^ 15 % 2 = 1 := by omega
  have hmant : (1024 * 57 + m) % 2 ^ 10 = m := by omega
  have hexp : (1024 * 57 + m) / 2 ^ 10 % 2 ^ 5 = 25 := by omega
  rw [halfValue, hsign, hmant, hexp, if_pos rfl]
  push_cast
  simp
  ring

/-- Two low nibbles. -/
theorem half2OfBits_low (x : Nat) :
    (half2OfBits (x &&& 0x000F000F ||| 0x64006400) : R × R) =
      (1024 + ((x % 16 : Nat) : R), 1024 + ((x / 2 ^ 16 % 16 : Nat) : R)) := by
  have hlow : (x &&& 0x000F000F ||| 0x64006400) % 2 ^ 16 = 1024 * 25 + x % 16 := by
    rw [Nat.or_mod_two_pow, Nat.and_mod_two_pow]
    show x % 2 ^ 16 &&& 0xF ||| 0x6400 = _
    rw [and_low]
    omega
  have hhigh : (x &&& 0x000F000F ||| 0x64006400) / 2 ^ 16 % 2 ^ 16 =
      1024 * 25 + x / 2 ^ 16 % 16 := by
    rw [Nat.or_div_two_pow, Nat.and_div_two_pow, Nat.or_mod_two_pow, Nat.and_mod_two_pow]
    show x / 2 ^ 16 % 2 ^ 16 &&& 0xF ||| 0x6400 = _
    rw [and_low]
    omega
  rw [half2OfBits, hlow, hhigh, halfValue_pos (by omega), halfValue_pos (by omega)]

/-- Two high nibbles. -/
theorem half2OfBits_high (x : Nat) :
    (half2OfBits (x &&& 0x00F000F0 ||| 0x64006400) : R × R) =
      (1024 + 16 * ((x / 16 % 16 : Nat) : R), 1024 + 16 * ((x / 2 ^ 20 % 16 : Nat) : R)) := by
  have hlow : (x &&& 0x00F000F0 ||| 0x64006400) % 2 ^ 16 =
      1024 * 25 + 16 * (x / 16 % 16) := by
    rw [Nat.or_mod_two_pow, Nat.and_mod_two_pow]
    show x % 2 ^ 16 &&& 0xF0 ||| 0x6400 = _
    rw [and_high]
    omega
  have hhigh : (x &&& 0x00F000F0 ||| 0x64006400) / 2 ^ 16 % 2 ^ 16 =
      1024 * 25 + 16 * (x / 2 ^ 20 % 16) := by
    rw [Nat.or_div_two_pow, Nat.and_div_two_pow, Nat.or_mod_two_pow, Nat.and_mod_two_pow]
    show x / 2 ^ 16 % 2 ^ 16 &&& 0xF0 ||| 0x6400 = _
    rw [and_high]
    omega
  rw [half2OfBits, hlow, hhigh, halfValue_pos (by omega), halfValue_pos (by omega)]
  push_cast
  rfl

/-! ## The exact result -/

variable [CharZero R]

/-- A dequantized pair is scale times weight minus zero point. -/
theorem dequant4bit8Fp16_eq (qa : Nat) {zero : Nat} (hzero : zero ≤ 16) (scale : R) {i : Nat}
    (hi : i < 4) :
    dequant4bit8Fp16 qa (prepZeroScaleFp16 zero scale) i =
      (scale * ((shuffledNibble qa (2 * i) : R) - zero),
        scale * ((shuffledNibble qa (2 * i + 1) : R) - zero)) := by
  have hbits : (0xE400 ||| zero) % 2 ^ 16 = 1024 * 57 + zero := by
    rw [zero_bits zero hzero]
    omega
  have hz1 : (prepZeroScaleFp16 zero scale).z1 = scale * (-1024 - zero) := by
    rw [prepZeroScaleFp16, hbits, halfValue_neg (by omega)]
  have h16 : (16 : R) ≠ 0 := by norm_num
  have hlow : ∀ q : R, (1024 + q) * (scale * 1) + scale * (-1024 - zero) = scale * (q - zero) :=
    fun q => by ring
  have hhigh : ∀ q : R, (1024 + 16 * q) * (scale * (1 / 16)) + scale * (-64 - zero) =
      scale * (q - zero) := fun q => by field_simp; ring
  have hshift : ∀ k, qa >>> 8 / 2 ^ k = qa / 2 ^ (8 + k) := fun k => by
    rw [Nat.shiftRight_eq_div_pow, Nat.div_div_eq_div_mul, ← Nat.pow_add]
  match i, hi with
  | 0, _ =>
      show hfma2 (half2OfBits _) (scale * 1) (prepZeroScaleFp16 zero scale).z1 = _
      have hfirst : qa % 16 = shuffledNibble qa (2 * 0) :=
        congrArg (· % 16) (Nat.div_one qa).symm
      rw [half2OfBits_low, hz1, hfma2, hlow, hlow, hfirst]
      rfl
  | 1, _ =>
      show hfma2 (half2OfBits _) (scale * (1 / 16)) (scale * (-64 - (zero : R))) = _
      rw [half2OfBits_high, hfma2, hhigh, hhigh]
      rfl
  | 2, _ =>
      show hfma2 (half2OfBits _) (scale * 1) (prepZeroScaleFp16 zero scale).z1 = _
      rw [half2OfBits_low, hz1, hfma2, hlow, hlow, hshift, Nat.shiftRight_eq_div_pow]
      rfl
  | 3, _ =>
      show hfma2 (half2OfBits _) (scale * (1 / 16)) (scale * (-64 - (zero : R))) = _
      have h4 := hshift 4
      rw [half2OfBits_high, hfma2, hhigh, hhigh, hshift, show (16 : Nat) = 2 ^ 4 from rfl, hshift]
      rfl

/-- Eight products of one word. -/
theorem dot22_8_f_eq (qa : Nat) {zero : Nat} (hzero : zero ≤ 16) (scale : R) (a : Nat → R) :
    dot22_8_f (dequant4bit8Fp16 qa (prepZeroScaleFp16 zero scale)) a =
      ∑ i ∈ Finset.range 8, a i * (scale * ((shuffledNibble qa i : R) - zero)) := by
  have hpair := fun i (hi : i < 4) => dequant4bit8Fp16_eq qa hzero scale hi
  have hrange : List.range 4 = [0, 1, 2, 3] := rfl
  rw [dot22_8_f, hrange]
  simp only [List.foldl_cons, List.foldl_nil, hpair 0 (by decide), hpair 1 (by decide),
    hpair 2 (by decide), hpair 3 (by decide), Finset.sum_range_succ, Finset.sum_range_zero]
  ring

/-- Four neighbouring zero points of a word. -/
theorem load4Zeros_eq (qzerosRow : Nat → Nat) {n i : Nat} (hn : 4 ∣ n) (hi : i < 4) :
    load4Zeros qzerosRow n i = packedNibble (qzerosRow ((n + i) / 8)) ((n + i) % 8) := by
  have hand : n &&& 0x07 = n % 8 := Nat.and_two_pow_sub_one_eq_mod n 3
  have hmask : ∀ x : Nat, x &&& 0xF = x % 16 := fun x => Nat.and_two_pow_sub_one_eq_mod x 4
  have hcol : (n + i) / 8 = n / 8 := by omega
  have hrow : (n + i) % 8 = n % 8 + i := by omega
  have hexp : n % 8 * 4 + 4 * i = 4 * (n % 8 + i) := by omega
  rw [load4Zeros, packedNibble, hand, hmask, Nat.shiftRight_eq_div_pow,
    Nat.shiftRight_eq_div_pow, Nat.div_div_eq_div_mul, ← Nat.pow_add, hcol, hrow, hexp]

end FlashNext.Ports.MoeGemm
