import Mathlib.Algebra.Field.Basic
import Mathlib.Order.WithBot
import Mathlib.Data.Int.Notation
import FlashNext.Verified.Checked
import FlashNext.Verified.Groups

/-!
# QSA token selection

Every row scores the groups of compressed keys that its position sees, keeps the best
`block_topk` of them and expands them to tokens, with the tokens of the still open group
behind.  Rows are scored in chunks that fit the logits workspace; the buffer of the
selected groups is reused from chunk to chunk.

A program of a kernel writes a block of columns; the blocks cover the columns of the
output, so the kernels are stated for a row.  Scores are exact: `F` is a field.
-/

namespace FlashNext.Ports.Qsa

open FlashNext.Verified.Checked

variable {F : Type} [Field F] [LinearOrder F]

/-! ## Tensors -/

/-- `[rows, heads, head_dim]`. -/
structure Query (F : Type) where
  rows : Nat
  heads : Nat
  headDim : Nat
  data : Nat → Nat → Nat → F

/-- `[pages, page_size, 1, head_dim]`. -/
structure KeyCache (F : Type) where
  numPages : Nat
  pageSize : Nat
  headDim : Nat
  data : Nat → Nat → Nat → F

/-- `[requests, width]`. -/
structure PageTable where
  numRequests : Nat
  width : Nat
  data : Nat → Nat → Int

/-- `q[start:start + n]`. -/
def Query.slice (q : Query F) (start n : Nat) : Query F :=
  { q with rows := n, data := fun i => q.data (start + i) }

/-- `xs[start:start + n]`. -/
def slice {α : Type} (xs : List α) (start n : Nat) : List α := (xs.drop start).take n

inductive QsaError where
  | valueError (message : String)
  | assertion
  | zeroDivision
  | indexError
  deriving DecidableEq, Repr

/-! ## Scoring -/

/-- What both kernels read of the request of a row: its index made safe, and its
sequence length, zero when the index is out of range. -/
def safeRequest (numRequests : Nat) (request : Int) : Nat :=
  (min (max request 0) ((numRequests : Int) - 1)).toNat

def InRange (numRequests : Nat) (request : Int) : Prop :=
  0 ≤ request ∧ request < numRequests

instance (numRequests : Nat) (request : Int) : Decidable (InRange numRequests request) :=
  inferInstanceAs (Decidable (_ ∧ _))

def rowSequenceLength (sequenceLengths : List Int) (numRequests : Nat) (request : Int) : Int :=
  if InRange numRequests request then
    sequenceLengths.getD (safeRequest numRequests request) 0
  else 0

/-- `visible`: the complete groups up to the position and within the sequence. -/
def visibleBlocks (queryPosition sequenceLength : Int) (compressRatio : Nat) : Int :=
  min ((queryPosition + 1).tdiv compressRatio) (sequenceLength.tdiv compressRatio)

/-- The score of one column: the positive parts of the dot products of all heads. -/
def columnScore (heads headDim : Nat) (scoreDivisor : F) (query : Nat → Nat → F)
    (key : Nat → F) : F :=
  ((List.range heads).map fun head =>
    max ((List.range headDim).map fun d => key d * query head d).sum 0).sum / scoreDivisor

/-- A column of `_qsa_mqa_paged_kernel`. -/
def mqaColumn (kCache : KeyCache F) (pageTable : PageTable) (heads headDim : Nat)
    (scoreDivisor : F) (request visible : Int) (query : Nat → Nat → F) (column : Nat) :
    WithBot F :=
  let logicalPage := column / kCache.pageSize
  let pageOffset := column % kCache.pageSize
  let physicalPage :=
    if (column : Int) < visible ∧ InRange pageTable.numRequests request ∧
        logicalPage < pageTable.width then
      pageTable.data (safeRequest pageTable.numRequests request) logicalPage
    else -1
  if 0 ≤ physicalPage ∧ physicalPage < kCache.numPages then
    ((columnScore heads headDim scoreDivisor query
      (kCache.data physicalPage.toNat pageOffset) : F) : WithBot F)
  else ⊥

/-- The arguments that scoring and expansion share. -/
structure RowArgs where
  tokenToReq : List Int
  queryPositions : List Int
  sequenceLengths : List Int

def RowArgs.slice (args : RowArgs) (start n : Nat) : RowArgs where
  tokenToReq := Qsa.slice args.tokenToReq start n
  queryPositions := Qsa.slice args.queryPositions start n
  sequenceLengths := args.sequenceLengths

def RowArgs.request (args : RowArgs) (row : Nat) : Int := args.tokenToReq.getD row 0

def RowArgs.position (args : RowArgs) (row : Nat) : Int := args.queryPositions.getD row 0

def RowArgs.visible (args : RowArgs) (numRequests compressRatio row : Nat) : Int :=
  visibleBlocks (args.position row)
    (rowSequenceLength args.sequenceLengths numRequests (args.request row)) compressRatio

/-- The logits of a row. -/
def mqaRow (q : Query F) (kCache : KeyCache F) (pageTable : PageTable) (args : RowArgs)
    (compressRatio : Nat) (scoreDivisor : F) (row : Nat) : List (WithBot F) :=
  (List.range (pageTable.width * kCache.pageSize)).map
    (mqaColumn kCache pageTable q.heads q.headDim scoreDivisor (args.request row)
      (args.visible pageTable.numRequests compressRatio row) (q.data row))

/-- `qsa_mqa_paged` with its default width and scale; `sqrt` is the square root of the
head dimension. -/
def qsaMqaPaged (sqrt : Nat → F) (q : Query F) (kCache : KeyCache F)
    (pageTable : PageTable) (args : RowArgs) (compressRatio : Nat) :
    Except QsaError (List (List (WithBot F)) × List Int) := do
  require (0 < q.heads ∧ 0 < q.headDim)
    (.valueError "QSA query must be [rows, heads, head_dim]")
  require (kCache.headDim = q.headDim)
    (.valueError "QSA query and cache dimensions must match")
  require (q.rows = 0 ∨ (0 < kCache.numPages ∧ 0 < kCache.pageSize) ∧
      0 < pageTable.numRequests ∧ 0 < pageTable.width)
    (.valueError "QSA paged scoring cache and page table must be nonempty")
  require (args.tokenToReq.length = q.rows)
    (.valueError "QSA request mapping must match query rows")
  require (args.queryPositions.length = q.rows)
    (.valueError "QSA query positions must match query rows")
  require (args.sequenceLengths.length = pageTable.numRequests)
    (.valueError "QSA sequence lengths must match page-table requests")
  require (0 < compressRatio) (.valueError "QSA compression ratio must be positive")
  let scoreDivisor := sqrt q.headDim
  require (0 < scoreDivisor) (.valueError "QSA score scale must be positive")
  return ((List.range q.rows).map
      (mqaRow q kCache pageTable args compressRatio scoreDivisor),
    (List.range q.rows).map (args.visible pageTable.numRequests compressRatio))

/-! ## Expansion -/

/-- A column of `_expand_qsa_indices_kernel`. -/
def expandColumn (blockIndices : List Int) (queryPosition sequenceLength : Int)
    (blockTopk compressRatio : Nat) (column : Nat) : Int :=
  let completeBlocks := min (visibleBlocks queryPosition sequenceLength compressRatio) blockTopk
  let expandedCount := completeBlocks * compressRatio
  let tailStart := (queryPosition + 1).tdiv compressRatio * compressRatio
  let tailCount := queryPosition + 1 - tailStart
  let isExpanded := (column : Int) < expandedCount
  let blockRank := column / compressRatio
  let offset := column % compressRatio
  let safeRank := min blockRank (blockTopk - 1)
  let block := if isExpanded then blockIndices.getD safeRank (-1) else -1
  let expanded := block * compressRatio + offset
  let tailOffset := (column : Int) - expandedCount
  let isTail := expandedCount ≤ (column : Int) ∧ tailOffset < tailCount ∧
    tailOffset < (compressRatio : Int) - 1
  let token := if isExpanded then expanded else tailStart + tailOffset
  if (isExpanded ∨ isTail) ∧ 0 ≤ token ∧ token < sequenceLength then token else -1

def outputWidth (tokenTopk compressRatio : Nat) : Nat := tokenTopk + compressRatio - 1

/-- A row of the expanded indices. -/
def expandRow (args : RowArgs) (blockTopk compressRatio tokenTopk : Nat)
    (blockIndices : List Int) (row : Nat) : List Int :=
  (List.range (outputWidth tokenTopk compressRatio)).map
    (expandColumn blockIndices (args.position row)
      (rowSequenceLength args.sequenceLengths args.sequenceLengths.length
        (args.request row)) blockTopk compressRatio)

/-- `expand_qsa_block_indices_cuda` with the output it is given: all its rows are
written. -/
def expandQsaBlockIndices (blockIndices : List (List Int)) (args : RowArgs)
    (compressRatio tokenTopk : Nat) (outShape : Nat × Nat) :
    Except QsaError (List (List Int)) := do
  require (tokenTopk % compressRatio = 0)
    (.valueError "QSA token top-k must be divisible by compression ratio")
  let blockTopk := tokenTopk / compressRatio
  require (blockIndices.length = args.queryPositions.length ∧
      ∀ row ∈ blockIndices, row.length = blockTopk)
    (.valueError "QSA compressed top-k has an invalid shape")
  require (args.tokenToReq.length = args.queryPositions.length)
    (.valueError "QSA request mapping must match query positions")
  require (0 < args.sequenceLengths.length)
    (.valueError "QSA request sequence lengths must be nonempty")
  require (outShape = (blockIndices.length, outputWidth tokenTopk compressRatio))
    (.valueError "QSA expansion output has an invalid shape")
  return (List.range blockIndices.length).map fun row =>
    expandRow args blockTopk compressRatio tokenTopk (blockIndices.getD row []) row

/-! ## The top-k operations -/

/-- A top-k operation on a chunk: the logits, the numbers of visible groups, what the
output rows hold and their width.  Its scratch workspace carries nothing over. -/
abbrev TopK (F : Type) :=
  List (List (WithBot F)) → List Int → List (List Int) → Nat → List (List Int)

/-- The platform and its three top-k operations. -/
structure Platform (F : Type) where
  isCuda : Bool
  hasDeviceCapability90 : Bool
  isDeviceCapabilityFamily120 : Bool
  cooperativeTopk : TopK F
  persistentTopk : TopK F
  topKPerRowDecode : TopK F

/-- The operation that a chunk of `rows` rows and `columns` columns is given to. -/
def Platform.topK (platform : Platform F) (rows columns : Nat) : TopK F :=
  let useCooperativeTopk := platform.isCuda && decide (rows ≤ 32) &&
    decide (columns % 4 = 0) && platform.hasDeviceCapability90 &&
    !platform.isDeviceCapabilityFamily120
  if useCooperativeTopk then platform.cooperativeTopk
  else if platform.isCuda then platform.persistentTopk
  else platform.topKPerRowDecode

/-! ## Selection -/

/-- `_LOGITS_WORKSPACE_BYTES`. -/
def logitsWorkspaceBytes : Nat := 128 * 1024 * 1024

/-- What a chunk leaves: the buffer of the selected groups, and the rows written so far. -/
structure ChunkState where
  blocksBuffer : List (List Int)
  out : List (List Int)

/-- One turn of the loop over the chunks. -/
def chunkStep (platform : Platform F) (sqrt : Nat → F) (q : Query F) (kCache : KeyCache F)
    (pageTable : PageTable) (args : RowArgs) (tokenTopk compressRatio rowsPerChunk : Nat)
    (s : ChunkState) (rowStart : Nat) : Except QsaError ChunkState := do
  let rowEnd := min (rowStart + rowsPerChunk) q.rows
  let n := rowEnd - rowStart
  let chunkArgs := args.slice rowStart n
  let (logits, visible) ← qsaMqaPaged sqrt (q.slice rowStart n) kCache pageTable chunkArgs
    compressRatio
  let columns := pageTable.width * kCache.pageSize
  let blocks := platform.topK n columns logits visible (s.blocksBuffer.take n)
    (tokenTopk / compressRatio)
  let rows ← expandQsaBlockIndices blocks chunkArgs compressRatio tokenTopk
    (n, outputWidth tokenTopk compressRatio)
  return ⟨blocks ++ s.blocksBuffer.drop n, s.out ++ rows⟩

/-- `qsa_select_paged_tokens` with a workspace of `workspaceBytes`.  `uninit` is what the
buffer of the selected groups holds when it is allocated. -/
def selectWithWorkspace (workspaceBytes : Nat) (uninit : Nat → Nat → Int)
    (platform : Platform F) (sqrt : Nat → F) (q : Query F) (kCache : KeyCache F)
    (pageTable : PageTable) (args : RowArgs) (tokenTopk compressRatio : Nat)
    (outShape : Option (Nat × Nat)) : Except QsaError (List (List Int)) := do
  require (outShape.getD (q.rows, outputWidth tokenTopk compressRatio) =
      (q.rows, outputWidth tokenTopk compressRatio))
    (.valueError "QSA selection output has an invalid shape")
  if q.rows = 0 then
    return []
  let columns := pageTable.width * kCache.pageSize
  require (compressRatio ≠ 0) .zeroDivision
  let blockTopk := tokenTopk / compressRatio
  let rowsPerChunk := max 1 (workspaceBytes / max (columns * 4) 1)
  let chunkRows := min q.rows rowsPerChunk
  let blocksBuffer := (List.range chunkRows).map fun i => (List.range blockTopk).map (uninit i)
  let numChunks := (q.rows + rowsPerChunk - 1) / rowsPerChunk
  let s ← (List.range' 0 numChunks rowsPerChunk).foldlM
    (chunkStep platform sqrt q kCache pageTable args tokenTopk compressRatio rowsPerChunk)
    ⟨blocksBuffer, []⟩
  return s.out

/-- `qsa_select_paged_tokens`. -/
def qsaSelectPagedTokens (uninit : Nat → Nat → Int) (platform : Platform F)
    (sqrt : Nat → F) (q : Query F) (kCache : KeyCache F) (pageTable : PageTable)
    (args : RowArgs) (tokenTopk compressRatio : Nat) (outShape : Option (Nat × Nat)) :
    Except QsaError (List (List Int)) :=
  selectWithWorkspace logitsWorkspaceBytes uninit platform sqrt q kCache pageTable args
    tokenTopk compressRatio outShape

end FlashNext.Ports.Qsa
