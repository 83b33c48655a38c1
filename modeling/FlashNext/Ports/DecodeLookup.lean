import FlashNext.Verified.SignedWrap
import FlashNext.Verified.BFloat16

/-!
# The PLE decode lookup

`_fused_decode_lookup` hashes the last `ngram_size` tokens of every request
into row ids of the embedding table, gathers the rows and stores them in the
pinned result buffer.  A single request is hashed with unbounded Python
integers that are wrapped by hand, a batch with numpy `int64` arrays;
`_fused_decode_lookup_ref` always uses the numpy arrays and stores through
torch.  The optional consistency check only logs and is left out.

`int64` values are `BitVec 64`, `int32` token ids `BitVec 32`, `float32` and
`bfloat16` patterns `BitVec 32` and `BitVec 16`.  Numpy operations along the
request axis are element-wise, so they are stated for one request.
-/

namespace FlashNext.Ports.DecodeLookup

open FlashNext.Verified.SignedWrap (wrap)

/-! ## Layer, sidecar and batch -/

/-- The hashing constants of a layer.  `tableRows` is the number of rows of
its embedding table. -/
structure Layer where
  ngramSize : Nat
  headsPerNgram : Nat
  eosTokenId : BitVec 64
  multipliers : List (BitVec 64)
  headVocabSizes : List (BitVec 64)
  headOffsets : List (BitVec 64)
  tableRows : Nat
  two_le : 2 ≤ ngramSize
  multipliers_length : multipliers.length = ngramSize
  sizes_length : headVocabSizes.length = (ngramSize - 1) * headsPerNgram
  offsets_length : headOffsets.length = (ngramSize - 1) * headsPerNgram
  sizes_pos : ∀ x ∈ headVocabSizes, 0 < x.toInt
  offsets_nonneg : ∀ x ∈ headOffsets, 0 ≤ x.toInt
  within_table : ∀ k, (headOffsets.getD k 0).toInt +
    (headVocabSizes.getD k 0).toInt ≤ tableRows
  tableRows_lt : tableRows < 2 ^ 63

/-- The quantised sidecar: its layout and the dequantised row of an id. -/
structure Quant where
  isInt4 : Bool
  row : BitVec 64 → List (BitVec 32)

/-- The inputs of one lookup. -/
structure Batch where
  inputIds : List (BitVec 32)
  queryStartLoc : List Int
  ngramContext : Option (List (List (BitVec 64)))

/-- `num_reqs`. -/
def Batch.numReqs (x : Batch) : Nat := x.queryStartLoc.length - 1

/-- The pinned result buffer: its dtype, its row width and torch's conversion
into it. -/
structure Pinned (Cell : Type) where
  isBFloat16 : Bool
  width : Nat
  copyBFloat16 : BitVec 32 → BitVec 16
  copyOther : BitVec 32 → Cell
  zeroOther : Cell

/-- What an entry of the result buffer holds. -/
inductive Entry (Cell : Type)
  | bfloat16 (bits : BitVec 16)
  | other (x : Cell)
deriving DecidableEq

/-- A result: the view `[:num_tokens]`, and on the way to it the row ids and
the gathered `float32` rows of every request. -/
structure Result (Cell : Type) where
  ngramIds : List (List (BitVec 64))
  f32 : List (List (BitVec 32))
  out : List (List (Entry Cell))

variable {Cell : Type}

/-! ## Stores into the pinned buffer -/

/-- A store through torch's `copy_`. -/
def Pinned.copy (p : Pinned Cell) (u : BitVec 32) : Entry Cell :=
  if p.isBFloat16 then .bfloat16 (p.copyBFloat16 u) else .other (p.copyOther u)

/-- `((u + (((u >> 16) & 1) + 0x7FFF)) >> 16).astype(uint16)`. -/
def bf16Bits (u : BitVec 32) : BitVec 16 :=
  ((u + (((u >>> 16) &&& 1#32) + 0x7FFF#32)) >>> 16).truncate 16

/-- The fast path's store: integer rounding for bfloat16, torch otherwise. -/
def Pinned.store (p : Pinned Cell) (u : BitVec 32) : Entry Cell :=
  if p.isBFloat16 then .bfloat16 (bf16Bits u) else .other (p.copyOther u)

def Pinned.zeroRow (p : Pinned Cell) : List (Entry Cell) :=
  List.replicate p.width
    (if p.isBFloat16 then .bfloat16 0 else .other p.zeroOther)

/-- Gather the rows of every request, store them, and zero the rows past
them. -/
def emit (quant : Quant) (p : Pinned Cell) (store : BitVec 32 → Entry Cell)
    (numTokens : Nat) (ngramIds : List (List (BitVec 64))) : Result Cell where
  ngramIds := ngramIds
  f32 := ngramIds.map (fun ids => ids.flatMap quant.row)
  out := ngramIds.map (fun ids => (ids.flatMap quant.row).map store) ++
    List.replicate (numTokens - ngramIds.length) p.zeroRow

/-! ## One request, with Python integers -/

/-- `for j in range(a - 1, -1, -1)`: the last EOS before column `j`. -/
def findLastEos (row : List Int) (eos : Int) : Nat → Int
  | 0 => -1
  | j + 1 => if row.getD j 0 = eos then j else findLastEos row eos j

/-- `shifted[sh]`. -/
def shiftedPy (row : List Int) (eos : Int) (sh : Nat) : Int :=
  let a := row.length - 1
  let posInSeg := (a : Int) - findLastEos row eos a - 1
  if sh = 0 then row.getD a 0
  else if sh ≤ a ∧ (sh : Int) ≤ posInSeg then row.getD (a - sh) 0 else eos

/-- The loop `for n in range(2, ngram_size + 1)`, from `n` on. -/
def hashLoopPy (layer : Layer) (shifted : Nat → Int) :
    (rounds n : Nat) → (mixed : Int) → List Int
  | 0, _, _ => []
  | rounds + 1, n, mixed =>
      let mixed := wrap 64 (Int.xor mixed (wrap 64 (shifted (n - 1) *
        (layer.multipliers.getD (n - 1) 0).toInt)))
      let start := (n - 2) * layer.headsPerNgram
      (List.range layer.headsPerNgram).map (fun h =>
          mixed.fmod (layer.headVocabSizes.getD (start + h) 0).toInt +
            (layer.headOffsets.getD (start + h) 0).toInt) ++
        hashLoopPy layer shifted rounds (n + 1) mixed

/-- `out_ids` of the single request. -/
def outIdsPy (layer : Layer) (context : List (BitVec 64)) (token : BitVec 32) :
    List Int :=
  let row := context.map BitVec.toInt ++ [token.toInt]
  let shifted := shiftedPy row layer.eosTokenId.toInt
  hashLoopPy layer shifted (layer.ngramSize - 1) 2
    (wrap 64 (shifted 0 * (layer.multipliers.getD 0 0).toInt))

/-! ## One request of a batch, with numpy `int64` -/

/-- `np.argmax` of booleans: the first true position, or zero. -/
def argmax (xs : List Bool) : Nat :=
  if true ∈ xs then xs.findIdx id else 0

/-- `last_eos`: the last EOS strictly before the last column. -/
def lastEosNp (row : List (BitVec 64)) (eos : BitVec 64) : Int :=
  let a := row.length - 1
  let isEos := (row.take a).map (fun t => t == eos)
  if true ∈ isEos then (a : Int) - 1 - argmax isEos.reverse else -1

/-- `shifted[sh]`. -/
def shiftedNp (row : List (BitVec 64)) (eos : BitVec 64) (sh : Nat) :
    BitVec 64 :=
  let a := row.length - 1
  let posInSeg := (a : Int) - lastEosNp row eos - 1
  if sh = 0 then row.getD a 0
  else
    let valid := decide (sh ≤ a) && decide ((sh : Int) ≤ posInSeg)
    let vals := if sh ≤ a then row.getD (a - sh) 0 else eos
    if valid then vals else eos

/-- `np.remainder` on `int64`: floor modulo. -/
def npRemainder (x y : BitVec 64) : BitVec 64 :=
  BitVec.ofInt 64 (x.toInt.fmod y.toInt)

/-- The loop `for n in range(2, ngram_size + 1)`, from `n` on. -/
def hashLoopNp (layer : Layer) (shifted : Nat → BitVec 64) :
    (rounds n : Nat) → (mixed : BitVec 64) → List (BitVec 64)
  | 0, _, _ => []
  | rounds + 1, n, mixed =>
      let mixed := mixed ^^^ (shifted (n - 1) * layer.multipliers.getD (n - 1) 0)
      let start := (n - 2) * layer.headsPerNgram
      let sizes := (layer.headVocabSizes.drop start).take layer.headsPerNgram
      let offsets := (layer.headOffsets.drop start).take layer.headsPerNgram
      List.zipWith (fun size offset => npRemainder mixed size + offset)
          sizes offsets ++
        hashLoopNp layer shifted rounds (n + 1) mixed

/-- The row of `ngram_ids` that belongs to one request. -/
def ngramIdsNp (layer : Layer) (row : List (BitVec 64)) : List (BitVec 64) :=
  let shifted := shiftedNp row layer.eosTokenId
  hashLoopNp layer shifted (layer.ngramSize - 1) 2
    (shifted 0 * layer.multipliers.getD 0 0)

/-- `row` of every request: its context with its token last. -/
def rowsNp (x : Batch) (context : List (List (BitVec 64))) :
    List (List (BitVec 64)) :=
  List.zipWith (fun ctx (token : BitVec 32) => ctx ++ [token.signExtend 64])
    (context.take x.numReqs) (x.inputIds.take x.numReqs)

/-! ## The two lookups -/

/-- `np.array_equal(qsl, np.arange(num_reqs + 1))`. -/
def isArange (x : Batch) : Bool :=
  x.queryStartLoc == (List.range (x.numReqs + 1)).map Int.ofNat

/-- `_fused_decode_lookup_ref`. -/
def fusedDecodeLookupRef (layer : Layer) (quant : Option Quant)
    (p : Pinned Cell) (x : Batch) : Option (Result Cell) :=
  match quant, x.ngramContext with
  | some quant, some context =>
      if quant.isInt4 = false then none
      else if x.numReqs ≤ 0 ∨ 64 < x.numReqs ∨
          x.queryStartLoc.getLastD 0 ≠ x.numReqs then none
      else if isArange x = false then none
      else some (emit quant p p.copy x.inputIds.length
        ((rowsNp x context).map (ngramIdsNp layer)))
  | _, _ => none

/-- `_fused_decode_lookup`. -/
def fusedDecodeLookup (layer : Layer) (quant : Option Quant)
    (p : Pinned Cell) (x : Batch) : Option (Result Cell) :=
  match quant, x.ngramContext with
  | some quant, some context =>
      if quant.isInt4 = false then none
      else if x.numReqs = 1 then
        if x.queryStartLoc.getD 1 0 ≠ 1 then none
        else
          -- `np.asarray(out_ids, dtype=np.int64)`
          let ngramIds := (outIdsPy layer (context.getD 0 [])
            (x.inputIds.getD 0 0)).map (BitVec.ofInt 64)
          some (emit quant p p.store x.inputIds.length [ngramIds])
      else if x.numReqs ≤ 0 ∨ 64 < x.numReqs ∨
          x.queryStartLoc.getLastD 0 ≠ x.numReqs then none
      else if isArange x = false then none
      else some (emit quant p p.store x.inputIds.length
        ((rowsNp x context).map (ngramIdsNp layer)))
  | _, _ => none

end FlashNext.Ports.DecodeLookup
