import Mathlib.Algebra.Algebra.Pi
import Mathlib.Data.Nat.Log
import Mathlib.Data.Nat.Size
import FlashNext.Verified.OnlineSoftmax
import FlashNext.Ports.QsaSelect

/-!
# QSA sparse paged attention

The selected columns of a row are cut into tiles and the tiles into splits.  A program
runs the online softmax over the tiles of its split; a second kernel merges the splits.
The launch profile is chosen from the shape of the batch.

Arithmetic is exact, and lanes that a kernel masks off are left out.
-/

namespace FlashNext.Ports.Qsa

open FlashNext.Verified.Checked
open FlashNext.Verified.OnlineSoftmax

variable {F : Type} [Field F] [LinearOrder F]

/-! ## Tensors -/

/-- `[pages, page_size, kv_heads, head_dim]`. -/
structure KvTensor (F : Type) where
  numPages : Nat
  pageSize : Nat
  numHeads : Nat
  headDim : Nat
  data : Nat → Nat → Nat → Nat → F

def KvTensor.shape (x : KvTensor F) : Nat × Nat × Nat × Nat :=
  (x.numPages, x.pageSize, x.numHeads, x.headDim)

def Query.shape (x : Query F) : Nat × Nat × Nat := (x.rows, x.heads, x.headDim)

/-- `logical_indices`. -/
structure Indices where
  rows : Nat
  width : Nat
  data : Nat → Nat → Int

/-! ## Columns and tiles -/

/-- The score that stands for a masked column. -/
def scoreSentinel : F := -(10 ^ 20)

/-- What a normalizer is clamped to. -/
def normalizerClamp : F := 1 / 10 ^ 20

/-- What a kernel reads of the keys and values for one row and one head. -/
structure HeadArgs (F : Type) where
  kCache : KvTensor F
  vCache : KvTensor F
  blockTable : PageTable
  softmaxScaleLog2 : F
  request : Int
  kvHead : Nat
  query : Nat → F

/-- The scaled score of a cached key. -/
def HeadArgs.score (args : HeadArgs F) (page offset : Nat) : F :=
  ((List.range args.kCache.headDim).map fun d =>
    args.query d * args.kCache.data page offset args.kvHead d).sum * args.softmaxScaleLog2

/-- The physical page of a token, `-1` when there is none. -/
def HeadArgs.physicalPage (args : HeadArgs F) (logicalToken : Int) : Int :=
  let logicalPage := (max logicalToken 0).toNat / args.kCache.pageSize
  if InRange args.blockTable.numRequests args.request ∧ 0 ≤ logicalToken ∧
      logicalPage < args.blockTable.width then
    args.blockTable.data (safeRequest args.blockTable.numRequests args.request) logicalPage
  else -1

/-- A column: the score and the value of its token, or nothing when it is not valid. -/
def HeadArgs.column (args : HeadArgs F) (logicalToken : Int) : Option (F × (Nat → F)) :=
  let pageOffset := (max logicalToken 0).toNat % args.kCache.pageSize
  let physicalPage := args.physicalPage logicalToken
  if 0 ≤ physicalPage ∧ physicalPage < args.kCache.numPages then
    some (args.score physicalPage.toNat pageOffset,
      args.vCache.data physicalPage.toNat pageOffset args.kvHead)
  else none

/-- The lanes of a tile; a lane past the selection loads `-1`. -/
def tileColumns (column : Int → Option (F × (Nat → F))) (indices : Nat → Int)
    (topk blockN tile : Nat) : List (Option (F × (Nat → F))) :=
  (List.range blockN).map fun lane =>
    column (if tile * blockN + lane < topk then indices (tile * blockN + lane) else -1)

/-! ## The two kernels -/

/-- The loop of `_qsa_sparse_paged_gqa_splitk_kernel` over the tiles of a split. -/
def splitState (E : Exp2 F) (column : Int → Option (F × (Nat → F))) (indices : Nat → Int)
    (topk blockN numTiles numSplits splitId : Nat) : State F (Nat → F) :=
  let splitTileStart := splitId * numTiles / numSplits
  let splitTileEnd := (splitId + 1) * numTiles / numSplits
  (List.range' splitTileStart (splitTileEnd - splitTileStart)).foldl
    (fun s tile => s.absorb E scoreSentinel (tileColumns column indices topk blockN tile))
    (State.start scoreSentinel)

/-- What is written for a row and a head: the only split's output, or what
`_qsa_merge_splitk_kernel` makes of all splits. -/
def attentionHead (E : Exp2 F) (column : Int → Option (F × (Nat → F))) (indices : Nat → Int)
    (topk blockN numTiles numSplits : Nat) : Nat → F :=
  let split := splitState E column indices topk blockN numTiles numSplits
  if numSplits = 1 then (split 0).output normalizerClamp
  else
    merge E ((List.range numSplits).map fun splitId =>
      ((split splitId).lse E normalizerClamp, (split splitId).output normalizerClamp))

/-! ## The launch profile -/

/-- The width of a tile and the number of splits aimed at. -/
structure Profile where
  blockN : Nat
  targetSplits : Nat

/-- `triton.next_power_of_2`. -/
def nextPowerOf2 (n : Nat) : Nat := 2 ^ Nat.clog 2 n

/-- The profile of a batch; that of a prefill is configured from the environment. -/
def launchProfile (prefill : Profile) (groupSize basePrograms : Nat) : Profile :=
  let blockM := nextPowerOf2 groupSize
  let smallProfileLimit := if blockM ≤ 8 then 8 else 4
  if basePrograms ≤ smallProfileLimit then ⟨16, 64⟩
  else if basePrograms < 32 then ⟨16, 32⟩
  else if basePrograms ≤ 256 then ⟨64, 8⟩
  else if basePrograms ≤ 512 then ⟨64, 4⟩
  else prefill

/-- `triton.cdiv`. -/
def cdiv (n d : Nat) : Nat := (n + d - 1) / d

/-- No more splits than tiles, as powers of two go. -/
def numSplits (numTiles targetSplits : Nat) : Nat :=
  min (1 <<< (Nat.size numTiles - 1)) targetSplits

/-! ## The function -/

/-- The head arguments of a row and a query head. -/
def headArgs (softmaxScaleLog2 : Nat → F) (q : Query F) (kCache vCache : KvTensor F)
    (blockTable : PageTable) (tokenToReq : List Int) (row head : Nat) : HeadArgs F where
  kCache := kCache
  vCache := vCache
  blockTable := blockTable
  softmaxScaleLog2 := softmaxScaleLog2 q.headDim
  request := tokenToReq.getD row 0
  kvHead := head / (q.heads / kCache.numHeads)
  query := q.data row head

/-- `qsa_sparse_paged_attention`.  `out` is the tensor it writes to; without one it
allocates one of the shape of the query. -/
def qsaSparsePagedAttention (E : Exp2 F) (prefill : Profile) (softmaxScaleLog2 : Nat → F)
    (q : Query F) (kCache vCache : KvTensor F) (logicalIndices : Indices)
    (blockTable : PageTable) (tokenToReq : List Int) (out : Query F) :
    Except QsaError (Query F) := do
  require (vCache.shape = kCache.shape)
    (.valueError "QSA sparse attention received invalid Q/K/V shapes")
  require (logicalIndices.rows = q.rows)
    (.valueError "QSA indices must have one row per query")
  require (tokenToReq.length = q.rows)
    (.valueError "QSA sparse attention metadata has invalid shapes")
  require ((0 < kCache.numPages ∧ 0 < kCache.pageSize ∧ 0 < kCache.numHeads) ∧
      0 < blockTable.numRequests ∧ 0 < blockTable.width)
    (.valueError "QSA sparse attention cache and block table must be nonempty")
  require (0 < logicalIndices.width)
    (.valueError "QSA sparse attention requires a positive selection width")
  require (q.headDim = kCache.headDim ∧ q.heads % kCache.numHeads = 0)
    (.valueError "QSA sparse attention requires valid grouped-query heads")
  require (16 ≤ q.headDim ∧ q.headDim &&& (q.headDim - 1) = 0) .assertion
  require (out.shape = q.shape) (.valueError "QSA sparse output must match its query")
  if q.rows = 0 then
    return out
  let groupSize := q.heads / kCache.numHeads
  let basePrograms := q.rows * kCache.numHeads
  let profile := launchProfile prefill groupSize basePrograms
  let numTiles := cdiv logicalIndices.width profile.blockN
  let splits := numSplits numTiles profile.targetSplits
  let attention := fun row head => attentionHead E
    (headArgs softmaxScaleLog2 q kCache vCache blockTable tokenToReq row head).column
    (logicalIndices.data row) logicalIndices.width profile.blockN numTiles splits
  return { out with data := fun row head d =>
             if row < q.rows ∧ head < q.heads ∧ d < q.headDim then attention row head d
             else out.data row head d }

end FlashNext.Ports.Qsa
