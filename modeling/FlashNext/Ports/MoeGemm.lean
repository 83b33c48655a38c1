import FlashNext.Ports.MoeDequant
import FlashNext.Verified.CasAdd

/-!
# The fused MoE GEMM

One launch of `moe_gemm_q4_kernel_rdna2`: a grid of token blocks, tiles of
1024 columns and tiles of 256 positions along K.  A thread owns four columns
of its tile and adds what it accumulates to the output by compare-and-swap.
Arithmetic is exact, device memory is addressed element by element.
-/

namespace FlashNext.Ports.MoeGemm

open FlashNext.Verified.CasAdd

variable {R : Type*} [Field R]

/-- The arguments of the kernel and its template parameter. -/
structure KernelArgs (R : Type*) where
  a : Nat → R
  bQWeight : Nat → Nat
  bScales : Nat → R
  bQzeros : Nat → Nat
  topkWeights : Option (Nat → R)
  sortedTokenIds : Nat → Nat
  expertIds : Nat → Int
  numTokensPostPadded : Nat
  sizeM : Nat
  sizeN : Nat
  sizeK : Nat
  groups : Nat
  topK : Nat
  expertWeightStride : Nat
  expertScalesStride : Nat
  expertZerosStride : Nat
  mulTopkWeight : Bool
  outputTopk : Nat
  blockSizeM : Nat

variable (args : KernelArgs R)

/-! ## Activations -/

def endK (offsetK : Nat) : Nat := min (offsetK + 256) args.sizeK

/-- `block_a` after the loads; `lds` is what the shared memory held before. -/
def blockA (lds : Nat → Nat → R) (tokenBlock offsetK m t : Nat) : R :=
  if offsetK + t < endK args offsetK then
    let tokenId := args.sortedTokenIds (tokenBlock * args.blockSizeM + m)
    let tokenRow := tokenId / args.topK
    if tokenRow < args.sizeM then args.a (tokenRow * args.sizeK + offsetK + t) else 0
  else lds m t

/-! ## The loop over K -/

/-- `refresh_group`, for the expert's rows of scales and zero points. -/
def refreshGroup (expert group n : Nat) : Nat → DequantConsts R := fun i =>
  let qzRow := fun q =>
    args.bQzeros (expert * args.expertZerosStride + group * (args.sizeN / 8) + q)
  let scale := args.bScales (expert * args.expertScalesStride + group * args.sizeN + n + i)
  prepZeroScaleFp16 (load4Zeros qzRow n i + 1) scale

structure LoopState (R : Type*) where
  k : Nat
  group : Nat
  nextgroup : Nat
  bPtr : Nat
  consts : Nat → DequantConsts R
  blockC : Nat → Nat → R

def groupsize : Nat := args.sizeK / args.groups

/-- The constants of the next group, once `k` reaches it. -/
def refreshAtNext (expert n : Nat) (s : LoopState R) : LoopState R :=
  if s.k = s.nextgroup then
    { s with
      group := s.group + 1
      nextgroup := s.nextgroup + groupsize args
      consts := refreshGroup args expert (s.group + 1) n }
  else s

/-- What word `j` of the four columns adds to the accumulators. -/
def addWord (a : Nat → Nat → R) (offsetK : Nat) (s : LoopState R) (blockC : Nat → Nat → R)
    (j : Nat) : Nat → Nat → R := fun m c =>
  let aOff := s.k - offsetK + 8 * j
  let dq := dequant4bit8Fp16 (args.bQWeight (s.bPtr + j * args.sizeN + c)) (s.consts c)
  blockC m c + dot22_8_f dq fun i => a m (aOff + i)

/-- One turn of the loop over K. -/
def kChunk (a : Nat → Nat → R) (expert n offsetK : Nat) (s : LoopState R) : LoopState R :=
  let s := refreshAtNext args expert n s
  { s with
    k := s.k + 32
    bPtr := s.bPtr + 4 * args.sizeN
    blockC := (List.range 4).foldl (addWord args a offsetK s) s.blockC }

@[simp]
theorem refreshAtNext_k (expert n : Nat) (s : LoopState R) :
    (refreshAtNext args expert n s).k = s.k := by
  unfold refreshAtNext
  split <;> rfl

@[simp]
theorem kChunk_k (a : Nat → Nat → R) (expert n offsetK : Nat) (s : LoopState R) :
    (kChunk args a expert n offsetK s).k = s.k + 32 := by
  show (refreshAtNext args expert n s).k + 32 = s.k + 32
  rw [refreshAtNext_k]

/-- `while (k < end_k)`. -/
def kLoop (a : Nat → Nat → R) (expert n offsetK : Nat) (s : LoopState R) : LoopState R :=
  if s.k < endK args offsetK then
    kLoop a expert n offsetK (kChunk args a expert n offsetK s)
  else s
termination_by endK args offsetK - s.k
decreasing_by
  rw [kChunk_k]
  omega

/-- The state before the loop. -/
def loopStart (expert n offsetK : Nat) : LoopState R :=
  let group := offsetK / groupsize args
  { k := offsetK
    group := group
    nextgroup := (group + 1) * groupsize args
    bPtr := expert * args.expertWeightStride + offsetK / 8 * args.sizeN + n
    consts := refreshGroup args expert group n
    blockC := fun _ _ => 0 }

/-! ## Threads -/

/-- The factor of a slot in the epilogue. -/
def routerWeight (tokenId : Nat) : R :=
  match args.topkWeights with
  | some topkWeights => if args.mulTopkWeight then topkWeights tokenId else 1
  | none => 1

def outRow (tokenId : Nat) : Nat :=
  if 0 < args.outputTopk then tokenId / args.outputTopk else tokenId

/-- The epilogue for one slot of the block. -/
def epilogueSlot (n : Nat) (blockC : Nat → Nat → R) (tokenBlock m : Nat) :
    List (Update R 4) :=
  let tokenId := args.sortedTokenIds (tokenBlock * args.blockSizeM + m)
  if args.sizeM ≤ tokenId / args.topK then []
  else [⟨outRow args tokenId * args.sizeN + n,
    fun j => blockC m j * routerWeight args tokenId⟩]

/-- The additions of one thread. -/
def threadUpdates (lds : Nat → Nat → R) (tokenBlock blockY blockZ t : Nat) :
    List (Update R 4) :=
  let offsetN := blockY * 256 * 4
  let offsetK := blockZ * 256
  let n := offsetN + t * 4
  if args.numTokensPostPadded ≤ tokenBlock * args.blockSizeM then []
  else if args.expertIds tokenBlock = -1 then []
  else if args.sizeN ≤ n then []
  else
    let expert := (args.expertIds tokenBlock).toNat
    let done := kLoop args (blockA args lds tokenBlock offsetK) expert n offsetK
      (loopStart args expert n offsetK)
    (List.range args.blockSizeM).flatMap fun m => epilogueSlot args n done.blockC tokenBlock m

/-- What the shared memory of every block holds before its loads. -/
abbrev SharedMemory (R : Type*) := Nat → Nat → Nat → Nat → Nat → R

/-- `launch_moe_gemm_q4`. -/
def launchUpdates (lds : SharedMemory R) (numTokenBlocks : Nat) : List (Update R 4) :=
  (List.range numTokenBlocks).flatMap fun x =>
    (List.range ((args.sizeN + 256 * 4 - 1) / (256 * 4))).flatMap fun y =>
      (List.range ((args.sizeK + 256 - 1) / 256)).flatMap fun z =>
        (List.range 256).flatMap fun t => threadUpdates args (lds x y z) x y z t

/-- `dispatch_moe_gemm_q4`. -/
def dispatchUpdates (lds : SharedMemory R) (numTokenBlocks : Nat) :
    Except String (List (Update R 4)) :=
  if args.blockSizeM ∈ [1, 2, 4, 8] then .ok (launchUpdates args lds numTokenBlocks)
  else .error s!"moe_gptq_gemm_rdna2: block_size_m must be 1, 2, 4, or 8, got {args.blockSizeM}"

end FlashNext.Ports.MoeGemm
