import FlashNext.Ports.QsaAttentionExact

/-!
# QSA staged attention

Keys and values on the host are streamed through an arena, one bucket of pages after the
other.  A bucket runs the selected columns whose pages it holds; the state of the online
softmax is carried from bucket to bucket, and the last one writes the rows.
-/

namespace FlashNext.Ports.Qsa

open FlashNext.Verified.Checked
open FlashNext.Verified.OnlineSoftmax

variable {F : Type} [Field F] [LinearOrder F]

/-! ## Tensors -/

/-- `[blocks, num_kv_heads, page_size, 2 * head_dim]`: keys before values. -/
structure HostKv (F : Type) where
  blocks : Nat
  numKvHeads : Nat
  pageSize : Nat
  headDim : Nat
  data : Nat → Nat → Nat → Nat → F

/-- The first half of `kv_cache.transpose(1, 2).split(head_dim, dim=-1)`. -/
def HostKv.keys (kv : HostKv F) : KvTensor F :=
  ⟨kv.blocks, kv.pageSize, kv.numKvHeads, kv.headDim,
    fun page offset head d => kv.data page head offset d⟩

/-- The second half. -/
def HostKv.values (kv : HostKv F) : KvTensor F :=
  ⟨kv.blocks, kv.pageSize, kv.numKvHeads, kv.headDim,
    fun page offset head d => kv.data page head offset (kv.headDim + d)⟩

/-- The arguments of `qsa_sparse_paged_attention_staged`, with the tile width that
`_select_config` chooses. -/
structure StagedArgs (F : Type) where
  q : Query F
  kvCache : HostKv F
  logicalIndices : Indices
  blockTableRow : List Int
  rows : List Nat
  maxLogicalPage : Nat
  arenaPages : Nat
  blockN : Nat
  softmaxScaleLog2 : F

/-! ## The kernel -/

/-- A page of the arena. -/
abbrev ArenaPage (F : Type) := Nat → Nat → Nat → F

/-- A column of a bucket: its token lies in one of the staged pages. -/
def stagedColumn (args : StagedArgs F) (arena : Nat → ArenaPage F)
    (pageLo pagesInArena kvHead : Nat) (query : Nat → F) (logicalToken : Int) :
    Option (F × (Nat → F)) :=
  let safeToken := (max logicalToken 0).toNat
  let logicalPage := safeToken / args.kvCache.pageSize
  let pageOffset := safeToken % args.kvCache.pageSize
  let arenaPage : Int := (logicalPage : Int) - pageLo
  if 0 ≤ logicalToken ∧ 0 ≤ arenaPage ∧ arenaPage < pagesInArena then
    some (((List.range args.q.headDim).map fun d =>
        query d * arena arenaPage.toNat kvHead pageOffset d).sum * args.softmaxScaleLog2,
      fun d => arena arenaPage.toNat kvHead pageOffset (args.kvCache.headDim + d))
  else none

/-- `tile_end`. -/
def tileEnd (validCount : Int) (topk numTiles blockN : Nat) : Int :=
  min (numTiles : Int) ((min validCount topk + (blockN - 1)).tdiv blockN)

/-- The loop of `_qsa_sparse_staged_gqa_kernel` from the state `s`. -/
def stagedState (E : Exp2 F) (column : Int → Option (F × (Nat → F))) (indices : Nat → Int)
    (topk blockN numTiles : Nat) (s : State F (Nat → F)) : State F (Nat → F) :=
  let validCount := indices topk
  (List.range (tileEnd validCount topk numTiles blockN).toNat).foldl
    (fun s tile => s.absorb E scoreSentinel (tileColumns column indices topk blockN tile)) s

/-! ## The buckets -/

def StagedArgs.numPages (args : StagedArgs F) : Nat := args.maxLogicalPage + 1

def StagedArgs.numBuckets (args : StagedArgs F) : Nat := cdiv args.numPages args.arenaPages

def StagedArgs.selectionWidth (args : StagedArgs F) : Nat := args.logicalIndices.width - 1

def StagedArgs.numTiles (args : StagedArgs F) : Nat := cdiv args.selectionWidth args.blockN

/-- The arena, the states of the local rows and heads, and the output. -/
structure StagedLoop (F : Type) where
  arena : Nat → ArenaPage F
  state : Nat → Nat → State F (Nat → F)
  out : Nat → Nat → Nat → F

/-- The store of the last bucket for one local row. -/
def storeRow (args : StagedArgs F) (state : Nat → Nat → State F (Nat → F))
    (out : Nat → Nat → Nat → F) (localRow : Nat) : Nat → Nat → Nat → F :=
  fun row head d =>
    if row = args.rows.getD localRow 0 ∧ head < args.q.heads ∧ d < args.q.headDim then
      (state localRow head).output normalizerClamp d
    else out row head d

/-- One turn of the loop over the buckets. -/
def bucketStep (E : Exp2 F) (args : StagedArgs F) (s : StagedLoop F) (bucket : Nat) :
    Except QsaError (StagedLoop F) := do
  let pageLo := bucket * args.arenaPages
  let pageHi := min (pageLo + args.arenaPages) args.numPages
  let physical := (args.blockTableRow.drop pageLo).take (pageHi - pageLo)
  require (physical.length = pageHi - pageLo ∧
    ∀ page ∈ physical, 0 ≤ page ∧ page < args.kvCache.blocks) .indexError
  let arena := fun page =>
    if page < pageHi - pageLo then args.kvCache.data (physical.getD page 0).toNat
    else s.arena page
  let groupSize := args.q.heads / args.kvCache.numKvHeads
  let state := fun localRow head =>
    let row := args.rows.getD localRow 0
    let column := stagedColumn args arena pageLo (pageHi - pageLo) (head / groupSize)
      (args.q.data row head)
    stagedState E column (args.logicalIndices.data row) args.selectionWidth args.blockN
      args.numTiles (if bucket = 0 then State.start scoreSentinel else s.state localRow head)
  let out :=
    if bucket = args.numBuckets - 1 then
      (List.range args.rows.length).foldl (storeRow args state) s.out
    else s.out
  return ⟨arena, state, out⟩

/-- `qsa_sparse_paged_attention_staged`.  The arena and the workspaces hold anything when
they are allocated. -/
def qsaSparsePagedAttentionStaged (E : Exp2 F) (args : StagedArgs F)
    (arena : Nat → ArenaPage F) (workspace : Nat → Nat → State F (Nat → F)) (out : Query F) :
    Except QsaError (Query F) := do
  if args.rows.length = 0 then
    return out
  let s ← (List.range args.numBuckets).foldlM (bucketStep E args) ⟨arena, workspace, out.data⟩
  return { out with data := s.out }

end FlashNext.Ports.Qsa
