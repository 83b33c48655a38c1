import FlashNext.Verified.BlockRanges
import FlashNext.Verified.RoundNearest
import Mathlib.Data.Rat.Floor

/-!
# Int8 shadows of the dense projections

A weight matrix of halves is quantised row by row to bytes and one scale per
row; a scale is stored as a half.  With the matrix released, a product is
computed from the bytes, a block of output rows at a time.  Apart from the
conversion of the scales the arithmetic is that of the rationals.
-/

namespace FlashNext.Ports.DenseInt8

open FlashNext.Verified.BlockRanges
open FlashNext.Verified.RoundNearest
open FlashNext.Verified.Scatter (put)

/-- binary16. -/
def half : FloatFormat where
  precision := 11
  minExponent := -24
  precision_pos := by decide

/-- A finite number of binary16. -/
structure IsHalf (x : ℚ) : Prop where
  le : |x| ≤ 65504
  exact : x = 0 ∨ half.nearest |x| = |x|

/-- A finite weight matrix `[N, K]`. -/
structure HalfMatrix where
  rows : List (List ℚ)
  cols : Nat
  row_length : ∀ row ∈ rows, row.length = cols
  finite : ∀ row ∈ rows, ∀ w ∈ row, IsHalf w

/-! ## Quantising -/

/-- `blk.abs().amax(dim=1)`, of one row. -/
def rowAbsMax (row : List ℚ) : ℚ := (row.map abs).foldr max 0

/-- `amax.clamp_min(1e-8) / 127.0`. -/
def rowScale (row : List ℚ) : ℚ := max (rowAbsMax row) (1 / 10 ^ 8) / 127

/-- `round(blk / sc).clamp_(-127, 127)`, of one row. -/
def quantRow (row : List ℚ) : List ℤ :=
  row.map fun w => min (max (roundEven (w / rowScale row)) (-127)) 127

/-- The tensors `q` and `scale`, by row. -/
structure Buffers where
  q : Nat → List ℤ
  scale : Nat → ℚ

/-- One turn of the loop over row blocks. -/
def blockStep (rows : List (List ℚ)) (step : Nat) (buf : Buffers) (r0 : Nat) : Buffers :=
  let r1 := min (r0 + step) rows.length
  let blk := slice rows r0 r1
  { q := put (List.range' r0 (r1 - r0)) (blk.map quantRow) buf.q
    scale := put (List.range' r0 (r1 - r0)) (blk.map rowScale) buf.scale }

/-- The block size, for `64 << 20` bytes of float32. -/
def rowStep (cols : Nat) : Nat := max 1 (64 * 2 ^ 20 / (cols * 4))

/-- `weight_i8` with its columns, and `weight_i8_scale`. -/
structure Shadow where
  weightI8 : List (List ℤ)
  weightI8Scale : List ℚ
  cols : Nat

inductive ShadowError where
  | zeroDivision
  | valueError
  deriving DecidableEq, Repr

/-- `make_shadow` of an enabled layer: nothing for a tiny or unaligned weight;
`empty` is what `torch.empty` finds. -/
def makeShadow (minRows : Int) (w : HalfMatrix) (empty : Buffers) :
    Except ShadowError (Option Shadow) :=
  if w.cols % 16 ≠ 0 ∨ (w.rows.length : Int) < minRows then .ok none
  else if w.cols = 0 then .error .zeroDivision
  else
    let n := w.rows.length
    let step := rowStep w.cols
    let buf := (rangeStep n step).foldl (blockStep w.rows step) empty
    .ok (some
      { weightI8 := (List.range n).map buf.q
        weightI8Scale := (List.range n).map fun i => half.nearest (buf.scale i)
        cols := w.cols })

/-! ## The product -/

/-- `weight_i8 * scale[:, None]`. -/
def scaled (weightI8 : List (List ℤ)) (scale : List ℚ) : List (List ℚ) :=
  List.zipWith (fun row s => row.map fun (q : ℤ) => (q : ℚ) * s) weightI8 scale

/-- The persistent buffers, by shape. -/
abbrev Scratch := Nat × Nat → List (List ℚ)

/-- `dequant`: the buffer of the shape now holds the product. -/
def dequant (scratch : Scratch) (cols : Nat) (weightI8 : List (List ℤ)) (scale : List ℚ) :
    Scratch :=
  fun key => if key = (weightI8.length, cols) then scaled weightI8 scale else scratch key

def dot (x row : List ℚ) : ℚ := (List.zipWith (· * ·) x row).sum

/-- `F.linear(x, weight, bias)` of one input vector. -/
def linear (x : List ℚ) (weight : List (List ℚ)) (bias : Option (List ℚ)) : List ℚ :=
  match bias with
  | none => weight.map (dot x)
  | some b => List.zipWith (fun row c => dot x row + c) weight b

/-- One turn of the loop over output rows; `out` by input vector and output
row. -/
def linearStep (sh : Shadow) (xs : List (List ℚ)) (bias : Option (List ℚ)) (blockRows : Nat)
    (st : Scratch × (Nat → Nat → ℚ)) (i : Nat) : Scratch × (Nat → Nat → ℚ) :=
  let j := min (i + blockRows) sh.weightI8.length
  let blockI8 := slice sh.weightI8 i j
  let scratch := dequant st.1 sh.cols blockI8 (slice sh.weightI8Scale i j)
  let buf := scratch (blockI8.length, sh.cols)
  (scratch, fun r => put (List.range' i (j - i))
    (linear (xs.getD r []) buf (bias.map fun b => slice b i j)) (st.2 r))

/-- `linear_released` of the input vectors `xs`; `empty` is what `new_empty`
finds in `out`. -/
def linearReleased (sh : Shadow) (xs : List (List ℚ)) (bias : Option (List ℚ)) (blockRows : Nat)
    (scratch : Scratch) (empty : Nat → Nat → ℚ) : Except ShadowError (List (List ℚ)) :=
  let n := sh.weightI8.length
  if n ≤ blockRows then
    let buf := dequant scratch sh.cols sh.weightI8 sh.weightI8Scale (n, sh.cols)
    .ok (xs.map fun x => linear x buf bias)
  else if blockRows = 0 then .error .valueError
  else
    let out := ((rangeStep n blockRows).foldl (linearStep sh xs bias blockRows)
      (scratch, empty)).2
    .ok ((List.range xs.length).map fun r => (List.range n).map (out r))

end FlashNext.Ports.DenseInt8
