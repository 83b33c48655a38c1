import FlashNext.Ports.QsaSelect
import Mathlib.Algebra.Ring.Int.Defs

/-!
# QSA group compression

The row that ends a group of `compress_ratio` tokens pools the raw keys of the group.
Members of this step are read from the raw rows, older ones from the compressor-state
ring of the request.  After pooling the raw rows are stored in the ring.

Arithmetic is exact, and lanes that a kernel masks off are left out.
-/

namespace FlashNext.Ports.Qsa

open FlashNext.Verified.Checked

/-! ## Tensors -/

/-- `[blocks, size, 1, width]`. -/
structure RowCache (α : Type) where
  numBlocks : Nat
  size : Nat
  width : Nat
  data : Nat → Nat → Nat → α

/-- `[rows, 1, width]`. -/
structure RawRows (α : Type) where
  rows : Nat
  width : Nat
  data : Nat → Nat → α

/-! ## Storing rows -/

section Store

variable {α : Type}

/-- A program of `_store_qsa_rows_kernel`. -/
def storeQsaRow (rows : RawRows α) (slotMapping : List Int) (cache : RowCache α)
    (row : Nat) : RowCache α :=
  let slot := slotMapping.getD row 0
  let block := slot.toNat / cache.size
  let token := slot.toNat % cache.size
  if 0 ≤ slot ∧ slot < cache.numBlocks * cache.size then
    { cache with
      data := fun b t d =>
        if b = block ∧ t = token ∧ d < cache.width then rows.data row d
        else cache.data b t d }
  else cache

/-- `qsa_store_cache_rows`. -/
def qsaStoreCacheRows (cache : RowCache α) (slotMapping : List Int) (rows : RawRows α) :
    Except QsaError (RowCache α) := do
  require (0 < cache.numBlocks ∧ 0 < cache.size ∧ 0 < cache.width)
    (.valueError "QSA cache dimensions must be nonzero")
  require (rows.rows = slotMapping.length ∧ rows.width = cache.width)
    (.valueError "QSA cache rows and slots have incompatible shapes")
  return (List.range rows.rows).foldl (storeQsaRow rows slotMapping) cache

end Store

/-! ## Pooling -/

variable {F : Type} [Field F]

/-- The arguments of `qsa_compress_groups_with_ratio`. -/
structure CompressArgs (F : Type) where
  rawKeys : RawRows F
  rawPositions : RawRows Int
  compressorStateCache : RowCache F
  compressorStateBlockTable : PageTable
  tokenToReq : List Int
  queryStartLoc : List Int
  logicalPositions : List Int
  compressedSlots : List Int
  compressRatio : Nat
  ropeCache : Option (RowCache Int)

def CompressArgs.numRequests (args : CompressArgs F) : Nat := args.queryStartLoc.length - 1

/-- What a program of `_compress_qsa_groups_kernel` knows about its row. -/
structure CompressRow where
  numRows : Nat
  queryRowStart : Int
  queryRowEnd : Int
  endPosition : Int
  chunkStartPosition : Int
  compressorStateBlock : Int
  validRow : Bool

def CompressArgs.row (args : CompressArgs F) (row : Nat) : CompressRow :=
  let request := args.tokenToReq.getD row 0
  let endPosition := args.logicalPositions.getD row 0
  let compressedSlot := args.compressedSlots.getD row 0
  let validRequest := InRange args.numRequests request
  let safe := safeRequest args.numRequests request
  let queryRowStart := if validRequest then args.queryStartLoc.getD safe 0 else 0
  let queryRowEnd := if validRequest then args.queryStartLoc.getD (safe + 1) 0 else 0
  { numRows := args.tokenToReq.length
    queryRowStart
    queryRowEnd
    endPosition
    chunkStartPosition := endPosition - (row - queryRowStart)
    compressorStateBlock :=
      if validRequest then args.compressorStateBlockTable.data safe 0 else -1
    validRow := decide (validRequest ∧ queryRowStart ≤ row ∧ (row : Int) < queryRowEnd ∧
      (args.compressRatio : Int) - 1 ≤ endPosition ∧ 0 ≤ compressedSlot) }

/-- What is loaded for a position: from the raw rows of this step, or from the ring. -/
def CompressRow.load {α : Type} [Zero α] (r : CompressRow) (raw : RawRows α)
    (cache : RowCache α) (position : Int) (d : Nat) : α :=
  let useRaw := r.chunkStartPosition ≤ position
  let rawRow := r.queryRowStart + position - r.chunkStartPosition
  if useRaw then
    if r.validRow ∧ r.queryRowStart ≤ rawRow ∧ rawRow < r.queryRowEnd ∧
        rawRow < r.numRows ∧ d < raw.width then
      raw.data rawRow.toNat d
    else 0
  else
    if r.validRow ∧ 0 ≤ r.compressorStateBlock ∧
        r.compressorStateBlock < cache.numBlocks ∧ d < raw.width then
      cache.data r.compressorStateBlock.toNat (position.tmod cache.size).toNat d
    else 0

/-- The pooled key of a row. -/
def CompressArgs.pooled (args : CompressArgs F) (row d : Nat) : F :=
  let r := args.row row
  ((List.range args.compressRatio).map fun groupOffset =>
    r.load args.rawKeys args.compressorStateCache
      (r.endPosition - ((args.compressRatio : Int) - 1 - (groupOffset : Nat))) d).sum /
    args.compressRatio

/-- The position of the first token of the group; without a packed tail it is the logical
one, for all three axes. -/
def CompressArgs.firstPosition (args : CompressArgs F) (row d : Nat) : Int :=
  let r := args.row row
  let firstPosition := r.endPosition - args.compressRatio + 1
  match args.ropeCache with
  | some ropeCache => r.load args.rawPositions ropeCache firstPosition d
  | none => if r.validRow then firstPosition else 0

/-- `qsa_compress_groups_with_ratio`. -/
def qsaCompressGroupsWithRatio (args : CompressArgs F) :
    Except QsaError (RawRows F × RawRows Int) := do
  let rows := args.tokenToReq.length
  let cache := args.compressorStateCache
  let table := args.compressorStateBlockTable
  require (0 < args.compressRatio) (.valueError "QSA compression ratio must be positive")
  require (args.rawKeys.rows = rows)
    (.valueError "QSA raw keys must be [rows, 1, head_size]")
  require (args.rawPositions.rows = rows ∧ args.rawPositions.width = 3)
    (.valueError "QSA raw positions must be [rows, 1, 3] int64")
  require (args.logicalPositions.length = rows ∧ args.compressedSlots.length = rows)
    (.valueError "QSA compression metadata must match token rows")
  require (args.compressRatio ≤ cache.size ∧ cache.width = args.rawKeys.width)
    (.valueError "QSA compressor-state cache does not match the compression layout")
  require (1 ≤ table.width)
    (.valueError "QSA compressor-state block table must contain one block per request")
  require (2 ≤ args.queryStartLoc.length)
    (.valueError "QSA query starts must contain a terminal offset")
  require (args.numRequests ≤ table.numRequests)
    (.valueError "QSA compressor-state block table has too few request rows")
  require (∀ rope ∈ args.ropeCache,
      (rope.numBlocks = cache.numBlocks ∧ rope.size = cache.size) ∧ rope.width = 3)
    (.valueError "QSA packed position view has an invalid shape or dtype")
  require (rows = 0 ∨ (0 < cache.numBlocks ∧ 0 < cache.size ∧ 0 < cache.width) ∧
      0 < table.numRequests ∧ 0 < table.width)
    (.valueError "QSA compressor-state cache and block table must be nonempty")
  return (⟨rows, args.rawKeys.width, args.pooled⟩, ⟨rows, 3, args.firstPosition⟩)

end FlashNext.Ports.Qsa
