import FlashNext.Verified.AbsMax
import FlashNext.Verified.NibbleWords
import FlashNext.Verified.RoundNearest
import FlashNext.Verified.RowMajor
import Mathlib.Data.Rat.Floor

/-!
# Four-bit experts of the drafter

A weight matrix is quantised in groups of 128 along each row: a scale for each
group, kept as a bfloat16, and the quotients rounded to nibbles, eight of them
packed in a signed word.  Apart from the conversion of the scales the
arithmetic is that of the rationals.
-/

namespace FlashNext.Ports.MtpQuant

open FlashNext.Verified.AbsMax
open FlashNext.Verified.NibbleWords
open FlashNext.Verified.RoundNearest
open FlashNext.Verified.RowMajor (ofFlat)

/-- bfloat16, whose overflow `bf16_scale_lt` excludes. -/
def bf16 : FloatFormat where
  precision := 8
  minExponent := -133
  precision_pos := by decide

/-- `GS`. -/
abbrev groupSize : Nat := 128

/-- A matrix `[N, K]` of finite weights, with a row at least. -/
structure Matrix where
  rows : List (List ℚ)
  cols : Nat
  rows_ne_nil : rows ≠ []
  row_length : ∀ row ∈ rows, row.length = cols

/-! ## Quantising -/

/-- `wf.abs().amax(dim=-1).clamp_min(1e-8) / 7.0`, of one group. -/
def groupScale (group : List ℚ) : ℚ := max (absMax group) (1 / 10 ^ 8) / 7

/-- `torch.round(wf / scale).clamp_(-8, 7)`, of one group. -/
def quantGroup (group : List ℚ) : List ℤ :=
  group.map fun w => min (max (roundEven (w / groupScale group)) (-8)) 7

/-- One row of `w.float().reshape(n, k // GS, GS)`. -/
def groups (k : Nat) (row : List ℚ) : List (List ℚ) := ofFlat groupSize (k / groupSize) row

/-- One row of `nib`, of shape `(n, k)`. -/
def nibRow (k : Nat) (row : List ℚ) : List ℤ :=
  ((groups k row).map quantGroup).flatten.map (· + 8)

/-- One row of `packed`: the nibbles in eights. -/
def packRow (k : Nat) (row : List ℚ) : List (BitVec 32) :=
  (ofFlat 8 (k / 8) (nibRow k row)).map packWord

/-- One row of `scale.to(torch.bfloat16)`. -/
def scaleRow (k : Nat) (row : List ℚ) : List ℚ :=
  (groups k row).map fun group => bf16.nearest (groupScale group)

/-- `(packed, scale)`. -/
structure Quantized where
  packed : List (List (BitVec 32))
  scale : List (List ℚ)

inductive QuantError where
  | assertionError
  deriving DecidableEq, Repr

def quantRtn (w : Matrix) : Except QuantError Quantized :=
  if w.cols % groupSize = 0 ∧ w.cols % 8 = 0 then
    .ok
      { packed := w.rows.map (packRow w.cols)
        scale := w.rows.map (scaleRow w.cols) }
  else .error .assertionError

/-! ## Unpacking -/

/-- One row of `nib` in `unpack`, of shape `(n, k8 * 8)`. -/
def unpackNibs (packed : List (BitVec 32)) : List ℤ := packed.flatMap unpackWord

/-- One row of the result of `unpack`, of shape `(k // GS, GS)`. -/
def unpackRow (packed : List (BitVec 32)) (scale : List ℚ) : List (List ℚ) :=
  let q : List ℤ := (unpackNibs packed).map (· - 8)
  List.zipWith (fun group s => group.map fun (n : ℤ) => (n : ℚ) * s)
    (ofFlat groupSize (q.length / groupSize) q) scale

/-- `unpack`, of tensors whose shapes belong together. -/
def unpack (t : Quantized) : List (List (List ℚ)) := List.zipWith unpackRow t.packed t.scale

/-- `unpack(packed, scale).reshape(n, -1)`. -/
def unpackFlat (t : Quantized) : List (List ℚ) := (unpack t).map List.flatten

end FlashNext.Ports.MtpQuant
