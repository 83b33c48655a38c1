import FlashNext.Verified.Checked
import Mathlib.Algebra.GroupWithZero.Nat
import Mathlib.Data.List.MinMax

/-!
# Block alignment of hybrid models

The attention blocks of a hybrid model are enlarged until a page covers a
mamba state, and the mamba page is padded to match.  When the main keys and
values live on the host, a block is instead made as large as the mamba page
allows for what stays on the GPU.
-/

namespace FlashNext.Ports.HybridBlocks

open FlashNext.Verified.Checked

inductive AlignError where
  | valueError
  | zeroDivision
  | assertion
  deriving DecidableEq, Repr

/-- A kernel block size of a backend: one size, or every multiple of a base. -/
inductive KernelBlockSize where
  | exactly (n : Nat)
  | multipleOf (base : Nat)
  deriving DecidableEq, Repr

/-- `s.base if isinstance(s, MultipleOf) else s`. -/
def KernelBlockSize.base : KernelBlockSize → Nat
  | exactly n => n
  | multipleOf b => b

/-- `mamba_cache_mode`. -/
inductive MambaCacheMode where
  | none
  | align
  | all
  deriving DecidableEq, Repr

/-- An entry of `layer_types`. -/
inductive LayerKind where
  | fullAttention
  | other
  deriving DecidableEq, Repr

/-- What `hf_text_config` says of the layers, with `getattr`'s defaults. -/
structure TextConfig where
  indexerHeadDim : Nat := 0
  indexerCompressRatio : Nat := 0
  indexerKvHeads : Nat := 1
  layerTypes : Option (List LayerKind) := none

/-- The fields of the cache config that the alignment reads and writes;
`turboquant` says that `cache_dtype` starts with `turboquant_`. -/
structure CacheConfig where
  blockSize : Nat
  mambaCacheMode : MambaCacheMode
  userSpecifiedMambaBlockSize : Bool := false
  mambaBlockSize : Option Nat := none
  mambaPageSizePadded : Option Nat := none
  turboquant : Bool := false
  kvCacheDtypeSkipLayers : Bool := false
  deriving DecidableEq

/-- What the alignment asks the model for: the page sizes of one token under
each kind of spec, and those of the mamba states. -/
structure ModelConfig where
  useMla : Bool := false
  mlaPage : Nat := 0
  tqPage : Nat := 0
  skipPage : Nat := 0
  attnPage : Nat := 0
  mambaSpecPages : Option (List Nat) := none
  mambaStatePage : Nat := 0
  mambaChunkSize : Option Nat := none
  dtypeItemsize : Nat := 2
  hfTextConfig : TextConfig := {}

structure VllmConfig where
  cacheConfig : CacheConfig
  modelConfig : ModelConfig
  pipelineParallelSize : Nat := 1

/-! ## The page sizes -/

/-- `attn_page_size_1_token`. -/
def VllmConfig.attnPageSize1Token (cfg : VllmConfig) : Nat :=
  let model := cfg.modelConfig
  if model.useMla then model.mlaPage
  else if cfg.cacheConfig.turboquant then
    if cfg.cacheConfig.kvCacheDtypeSkipLayers then Nat.lcm model.tqPage model.skipPage
    else model.tqPage
  else model.attnPage

/-- `mamba_page_size`. -/
def ModelConfig.mambaPageSize (model : ModelConfig) : Except AlignError Nat :=
  match model.mambaSpecPages with
  | some pages => pages.max?.elim (.error .valueError) .ok
  | none => .ok model.mambaStatePage

def floordiv (a b : Nat) : Except AlignError Nat :=
  if b = 0 then .error .zeroDivision else .ok (a / b)

def cdiv (a b : Nat) : Except AlignError Nat :=
  if b = 0 then .error .zeroDivision else .ok ((a + b - 1) / b)

/-! ## The block size under host offload -/

/-- `_qsa_offload_bytes_per_token_per_layer`. -/
def qsaOffloadBytesPerTokenPerLayer (cfg : VllmConfig) : Except AlignError Nat :=
  let text := cfg.modelConfig.hfTextConfig
  if text.indexerHeadDim = 0 ∨ text.indexerCompressRatio = 0 then .error .valueError
  else .ok (2 + text.indexerKvHeads * (text.indexerHeadDim / text.indexerCompressRatio) *
    cfg.modelConfig.dtypeItemsize)

/-- `layer_types`, empty when the config has none. -/
def VllmConfig.layerTypes (cfg : VllmConfig) : List LayerKind :=
  cfg.modelConfig.hfTextConfig.layerTypes.getD []

/-- The number of full-attention layers among some. -/
def fullAttention (kinds : List LayerKind) : Nat := kinds.count .fullAttention

/-- `_qsa_offload_block_size`; `offload` says that `VLLM_QSA_KV_OFFLOAD` is `1`. -/
def qsaOffloadBlockSize (offload : Bool) (cfg : VllmConfig) (mambaPageSize : Nat) :
    Except AlignError (Option Nat) :=
  if offload = false ∨ cfg.layerTypes = [] ∨ mambaPageSize = 0 ∨
      fullAttention cfg.layerTypes = 0 then .ok none
  else do
    let layersPerRank ← floordiv (fullAttention cfg.layerTypes) cfg.pipelineParallelSize
    let bytes ← qsaOffloadBytesPerTokenPerLayer cfg
    let tokens ← floordiv mambaPageSize (max 1 layersPerRank * bytes)
    let blockSize := tokens / 16 * 16
    pure (if 16 ≤ blockSize then some blockSize else none)

/-! ## The alignment -/

/-- The smallest kernel block of the backend. -/
def smallestKernelBlock (sizes : List KernelBlockSize) : Except AlignError Nat :=
  ((sizes.map KernelBlockSize.base).min?).elim (.error .valueError) .ok

/-- `kernel_block_alignment_size`. -/
def kernelBlockAlignmentSize (smallest : Nat) (cfg : VllmConfig) : Nat :=
  let size := max smallest cfg.cacheConfig.blockSize
  if cfg.modelConfig.useMla then max size 128 else size

/-- `base_chunk_size`: the user's block size, else the model's chunk; a user's
zero counts as absent. -/
def baseChunkSize (cfg : VllmConfig) : Except AlignError Nat :=
  let user := if cfg.cacheConfig.userSpecifiedMambaBlockSize
    then cfg.cacheConfig.mambaBlockSize else none
  match user.filter (· ≠ 0) with
  | some size => .ok size
  | none => cfg.modelConfig.mambaChunkSize.elim (.error .assertion) .ok

/-- `attn_block_size`, and what mode `all` stores as `mamba_block_size`. -/
def attnBlockSize (cfg : VllmConfig) (alignment mambaPageSize : Nat) :
    Except AlignError (Nat × CacheConfig) :=
  let page := cfg.attnPageSize1Token
  if cfg.cacheConfig.mambaCacheMode = .all then do
    let base ← baseChunkSize cfg
    let tokens ← cdiv mambaPageSize page
    let chunkSize := Nat.lcm base alignment
    let chunks ← cdiv tokens chunkSize
    let size := chunkSize * chunks
    pure (size, { cfg.cacheConfig with mambaBlockSize := some size })
  else do
    let blocks ← cdiv mambaPageSize (alignment * page)
    pure (alignment * blocks, cfg.cacheConfig)

/-- The early return for host offload. -/
def offloadReturn (cache : CacheConfig) (qsaBlockSize mambaPageSize : Nat) : CacheConfig :=
  { cache with
    blockSize := qsaBlockSize
    mambaBlockSize :=
      if cache.mambaCacheMode = .align then some qsaBlockSize else cache.mambaBlockSize
    mambaPageSizePadded := some mambaPageSize }

/-- The rest of the normal path: raise the block size, then pad the mamba
page to the attention page. -/
def padMambaPage (cache : CacheConfig) (attnBlockSize page mambaPageSize : Nat) :
    Except AlignError CacheConfig :=
  let size := if cache.blockSize < attnBlockSize then attnBlockSize else cache.blockSize
  let cache := { cache with
    blockSize := size
    mambaBlockSize := if cache.mambaCacheMode = .align then some size else cache.mambaBlockSize }
  let attnPageSize := size * page
  if attnPageSize < mambaPageSize then .error .assertion
  else if attnPageSize = mambaPageSize then .ok cache
  else if cache.mambaPageSizePadded ≠ some attnPageSize then
    .ok { cache with mambaPageSizePadded := some attnPageSize }
  else .ok cache

/-- `_align_hybrid_block_size`: the cache config it leaves. -/
def alignHybridBlockSize (offload : Bool) (sizes : List KernelBlockSize) (cfg : VllmConfig) :
    Except AlignError CacheConfig := do
  let mambaPageSize ← cfg.modelConfig.mambaPageSize
  if mambaPageSize = 0 then pure cfg.cacheConfig
  else do
    let smallest ← smallestKernelBlock sizes
    let alignment := kernelBlockAlignmentSize smallest cfg
    let sized ← attnBlockSize cfg alignment mambaPageSize
    let qsaBlockSize ← qsaOffloadBlockSize offload cfg mambaPageSize
    match qsaBlockSize with
    | some size => pure (offloadReturn sized.2 size mambaPageSize)
    | none => padMambaPage sized.2 sized.1 cfg.attnPageSize1Token mambaPageSize

/-! ## Pipeline ranks -/

/-- The numbers of layers per rank that `get_pp_indices` accepts: one for each
rank, all layers together. -/
structure PipelinePartition (cfg : VllmConfig) where
  counts : List Nat
  length_eq : counts.length = cfg.pipelineParallelSize
  sum_eq : counts.sum = cfg.layerTypes.length

/-- The layers of one rank. -/
def PipelinePartition.rankLayers {cfg : VllmConfig} (part : PipelinePartition cfg)
    (rank : Nat) : List LayerKind :=
  (cfg.layerTypes.drop (part.counts.take rank).sum).take (part.counts.getD rank 0)

/-- The GPU-resident attention bytes that a block of `blockSize` tokens takes
on one rank. -/
def PipelinePartition.residentBytes {cfg : VllmConfig} (part : PipelinePartition cfg)
    (bytes blockSize rank : Nat) : Nat :=
  fullAttention (part.rankLayers rank) * bytes * blockSize

end FlashNext.Ports.HybridBlocks
