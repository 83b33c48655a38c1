import FlashNext.Ports.MoeGemmLaunch

/-!
# `_rdna2_fused_moe`

Two launches with an activation in between.  The output of the first and the
input of the second live in buffers that the layer keeps from call to call,
unless the batch is too large for them.  Token alignment and activation are
code of the surrounding system.
-/

namespace FlashNext.Ports.MoeGemm

open FlashNext.Verified.CasAdd FlashNext.Verified.GridSums

/-! ## Tensors -/

/-- A contiguous tensor, or a slice of the first rows of one; `data` is the
whole storage. -/
structure Tensor2 (α : Type*) where
  size0 : Nat
  size1 : Nat
  data : Nat → α

structure Tensor3 (α : Type*) where
  size0 : Nat
  size1 : Nat
  size2 : Nat
  data : Nat → α

def Tensor2.numel {α : Type*} (x : Tensor2 α) : Nat := x.size0 * x.size1

/-- `x[:n]` -/
def Tensor2.takeRows {α : Type*} (x : Tensor2 α) (n : Nat) : Tensor2 α := 
  { x with size0 := min n x.size0 }

/-- `x.zero_()` -/
def Tensor2.zero {α : Type*} [Zero α] (x : Tensor2 α) : Tensor2 α :=
  { x with data := fun i => if i < x.numel then 0 else x.data i }

/-- `torch.zeros(size0, size1)` -/
def torchZeros (α : Type*) [Zero α] (size0 size1 : Nat) : Tensor2 α := ⟨size0, size1, fun _ => 0⟩

/-- What `moe_align_block_size` returns; `sortedSize` is
`sorted_token_ids.size(0)`. -/
structure Alignment where
  sortedTokenIds : Nat → Nat
  sortedSize : Nat
  expertIds : Nat → Int
  numTokensPostPadded : Nat

variable {R : Type*} [Field R]

/-! ## The entry point of the kernel -/

/-- The arguments that `moe_gptq_gemm_rdna2` reads off its tensors. -/
def gemmArgs (a : Tensor2 R) (bQWeight : Tensor3 Nat) (bScales : Tensor3 R)
    (bQzeros : Tensor3 Nat) (topkWeights : Tensor2 R) (routing : Alignment)
    (topK blockSizeM : Nat) (mulTopkWeight : Bool) (outputTopk : Nat) : KernelArgs R where
  a := a.data
  bQWeight := bQWeight.data
  bScales := bScales.data
  bQzeros := bQzeros.data
  topkWeights := if 0 < topkWeights.numel then some topkWeights.data else none
  sortedTokenIds := routing.sortedTokenIds
  expertIds := routing.expertIds
  numTokensPostPadded := routing.numTokensPostPadded
  sizeM := a.size0
  sizeN := bQWeight.size2
  sizeK := a.size1
  groups := bScales.size1
  topK := topK
  expertWeightStride := bQWeight.size1 * bQWeight.size2
  expertScalesStride := bScales.size1 * bScales.size2
  expertZerosStride := bQzeros.size1 * bQzeros.size2
  mulTopkWeight := mulTopkWeight
  outputTopk := outputTopk
  blockSizeM := blockSizeM

/-- A launch over the whole routing takes the memory of `c` from `c` to `c'`. -/
def Gemm (args : KernelArgs R) (sortedSize : Nat) (c c' : Nat → R) : Prop :=
  ∃ lds updates, dispatchUpdates args lds (sortedSize / args.blockSizeM) = .ok updates ∧
    Completes updates c c'

/-! ## The layer -/

/-- The weights of one of the two products. -/
structure ExpertWeights (R : Type*) where
  weightPacked : Tensor3 Nat
  weightScale : Tensor3 R
  qzeros : Tensor3 Nat

structure MoeLayer (R : Type*) where
  w13 : ExpertWeights R
  w2 : ExpertWeights R
  rdna2W1Buf : Tensor2 R
  rdna2ActBuf : Tensor2 R
  expertMap : Option (Nat → Int)

/-- The code outside the layer. -/
structure MoeSystem (R : Type*) where
  Activation : Type
  isGated : Activation → Bool
  /-- What `apply_moe_activation` leaves in the storage of its output. -/
  applyMoeActivation : Activation → Tensor2 R → Tensor2 R → Except String (Nat → R)
  moeAlignBlockSize : Tensor2 Nat → Nat → Nat → Option (Nat → Int) → Alignment

variable (sys : MoeSystem R)

structure FusedInput where
  hiddenStates : Tensor2 R
  topkWeights : Tensor2 R
  topkIds : Tensor2 Nat
  activation : sys.Activation
  applyRouterWeightOnInput : Bool
  globalNumExperts : Int

variable {sys} (layer : MoeLayer R) (x : FusedInput sys)

def FusedInput.numTokens : Nat := x.hiddenStates.size0

def FusedInput.topK : Nat := x.topkIds.size1

def FusedInput.totalTokens : Nat := x.numTokens * x.topK

/-- `BLOCK_SIZE_M=1` for decode. -/
def FusedInput.blockSizeM : Nat := if x.numTokens ≤ 4 then 1 else 4

def nGateUp : Nat := layer.w13.weightPacked.size2

def hiddenSize : Nat := layer.w2.weightPacked.size2

def intermediateSize : Nat :=
  if sys.isGated x.activation then nGateUp layer / 2 else nGateUp layer

/-- `w1_out` and `act_out`. -/
structure Scratch (R : Type*) where
  w1Out : Tensor2 R
  actOut : Tensor2 R

/-- The buffers of one call; `empty` is what `torch.empty` returns. -/
def scratch (empty : Nat → R) : Scratch R :=
  if x.totalTokens ≤ layer.rdna2W1Buf.size0 then
    { w1Out := (layer.rdna2W1Buf.takeRows x.totalTokens).zero
      actOut := layer.rdna2ActBuf.takeRows x.totalTokens }
  else
    { w1Out := torchZeros R x.totalTokens (nGateUp layer)
      actOut := ⟨x.totalTokens, intermediateSize layer x, empty⟩ }

/-- The routing of one call. -/
def routing (blockSizeM : Nat) : Alignment :=
  let globalNumExperts :=
    if x.globalNumExperts ≤ 0 then layer.w13.weightPacked.size0 else x.globalNumExperts.toNat
  sys.moeAlignBlockSize x.topkIds blockSizeM globalNumExperts layer.expertMap

/-- `rdna2_empty_tw` -/
def emptyTw : Tensor2 R := ⟨1, 0, fun _ => 0⟩

/-- `topk_weights.view(-1)` -/
def topkWFloat : Tensor2 R := ⟨1, x.totalTokens, x.topkWeights.data⟩

/-- The first launch. -/
def w1Args (blockSizeM : Nat) : KernelArgs R :=
  gemmArgs x.hiddenStates layer.w13.weightPacked layer.w13.weightScale layer.w13.qzeros
    (if x.applyRouterWeightOnInput then topkWFloat x else emptyTw) (routing layer x blockSizeM)
    x.topK blockSizeM x.applyRouterWeightOnInput 0

/-- The second launch. -/
def w2Args (actOut : Tensor2 R) (blockSizeM : Nat) : KernelArgs R :=
  gemmArgs actOut layer.w2.weightPacked layer.w2.weightScale layer.w2.qzeros
    (if !x.applyRouterWeightOnInput then topkWFloat x else emptyTw) (routing layer x blockSizeM)
    1 blockSizeM (!x.applyRouterWeightOnInput) x.topK

/-- The tensors of a call when it ends, and what it returns. -/
structure FusedRun (R : Type*) where
  w1Out : Tensor2 R
  actOut : Tensor2 R
  out : Except String (Tensor2 R)

/-- One call on the given buffers; the launches commit their additions in any
order. -/
inductive FusedMoeOn (blockSizeM : Nat) (s : Scratch R) : FusedRun R → Prop where
  | ok {w1 act out : Nat → R} (hw1 : Gemm (w1Args layer x blockSizeM)
      (routing layer x blockSizeM).sortedSize s.w1Out.data w1)
      (hact : sys.applyMoeActivation x.activation s.actOut { s.w1Out with data := w1 } = .ok act)
      (hw2 : Gemm (w2Args layer x { s.actOut with data := act } blockSizeM)
        (routing layer x blockSizeM).sortedSize
        (torchZeros R x.numTokens (hiddenSize layer)).data out) :
      FusedMoeOn blockSizeM s
        { w1Out := { s.w1Out with data := w1 }
          actOut := { s.actOut with data := act }
          out := .ok ⟨x.numTokens, hiddenSize layer, out⟩ }
  | error {w1 act : Nat → R} {message : String} (hw1 : Gemm (w1Args layer x blockSizeM)
      (routing layer x blockSizeM).sortedSize s.w1Out.data w1)
      (hact : sys.applyMoeActivation x.activation s.actOut { s.w1Out with data := w1 } =
        .error message) :
      FusedMoeOn blockSizeM s
        { w1Out := { s.w1Out with data := w1 }
          actOut := { s.actOut with data := act }
          out := .error message }

/-- `_rdna2_fused_moe` -/
def Rdna2FusedMoe (r : FusedRun R) : Prop :=
  ∃ empty, FusedMoeOn layer x x.blockSizeM (scratch layer x empty) r

/-- The layer after a call. -/
def MoeLayer.keep (r : FusedRun R) : MoeLayer R :=
  if x.totalTokens ≤ layer.rdna2W1Buf.size0 then
    { layer with
      rdna2W1Buf := { layer.rdna2W1Buf with data := r.w1Out.data }
      rdna2ActBuf := { layer.rdna2ActBuf with data := r.actOut.data } }
  else layer

end FlashNext.Ports.MoeGemm
