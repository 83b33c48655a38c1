import FlashNext.Verified.RangeTable
import Mathlib.Data.List.Sort

/-!
# CUDA graph candidates and dispatch

The manager plans one descriptor per capture size, LoRA case and decode query
length, orders the descriptors of a mode by tokens, and fills a table with
candidates per token count and LoRA case.  A batch shape is looked up in one
cell of the table.
-/

namespace FlashNext.Ports.GraphDispatch

open FlashNext.Verified.RangeTable

/-! ## Modes and descriptors -/

/-- A runtime mode. -/
inductive Mode where
  | none
  | piecewise
  | full
  deriving DecidableEq, Repr

/-- `CUDAGraphMode`: one mode for all batches, or one for decode batches and
one for mixed ones. -/
inductive CUDAGraphMode where
  | single (mode : Mode)
  | separate (decode mixed : Mode)
  deriving DecidableEq, Repr

/-- `separate_routine()`. -/
def CUDAGraphMode.separateRoutine : CUDAGraphMode → Bool
  | single _ => false
  | separate _ _ => true

/-- `decode_mode()`. -/
def CUDAGraphMode.decodeMode : CUDAGraphMode → Mode
  | single mode => mode
  | separate decode _ => decode

/-- `mixed_mode()`. -/
def CUDAGraphMode.mixedMode : CUDAGraphMode → Mode
  | single mode => mode
  | separate _ mixed => mixed

structure BatchExecutionDescriptor where
  cgMode : Mode
  numTokens : Nat
  numReqs : Option Nat
  uniformTokenCount : Option Nat := none
  maxQueryLen : Option Nat := none
  numActiveLoras : Nat := 0
  deriving DecidableEq, Repr

/-- The arguments of `dispatch`. -/
structure Shape where
  numReqs : Nat
  numTokens : Nat
  uniformTokenCount : Option Nat := none
  numActiveLoras : Nat := 0
  maxQueryLen : Option Nat := none

/-- `_is_compatible`, at an effective LoRA case. -/
def isCompatible (desc : BatchExecutionDescriptor) (shape : Shape) (loras : Nat) : Bool :=
  (desc.uniformTokenCount == none || desc.uniformTokenCount == shape.uniformTokenCount) &&
    (match desc.maxQueryLen, shape.maxQueryLen with
      | none, _ => true
      | some _, none => false
      | some bound, some len => decide (len ≤ bound)) &&
    (match desc.numReqs with
      | none => true
      | some reqs => decide (shape.numReqs ≤ reqs)) &&
    decide (shape.numTokens ≤ desc.numTokens) && desc.numActiveLoras == loras

/-! ## The manager's configuration -/

/-- What `CudaGraphManager` is built from.  `denseSchedule` is the table of
`build_dynamic_sd_schedule_lookup` when the speculation is dynamic; a decode
step has at least one token beyond the speculative ones. -/
structure Config where
  captureSizes : List Nat
  maxCudagraphCaptureSize : Nat
  maxNumReqs : Nat
  cudagraphMode : CUDAGraphMode
  decodeQueryLen : Nat
  numSpeculativeTokens : Nat := 0
  denseSchedule : Option (List Nat) := none
  varlenDecode : Bool := false
  loraCaptureCases : List Nat := []
  numSpeculativeTokens_lt : numSpeculativeTokens < decodeQueryLen

/-- `lora_capture_cases or [0]`. -/
def Config.loraCases (cfg : Config) : List Nat :=
  if cfg.loraCaptureCases = [] then [0] else cfg.loraCaptureCases

/-- `decode_query_lens`. -/
def Config.decodeQueryLens (cfg : Config) : List Nat :=
  match cfg.denseSchedule with
  | none => [cfg.decodeQueryLen]
  | some schedule =>
      let newTokens := cfg.decodeQueryLen - cfg.numSpeculativeTokens
      (((schedule.drop 1).map (· + newTokens)).dedup).insertionSort (· ≤ ·)

/-- `max_decode_tokens`. -/
def Config.maxDecodeTokens (cfg : Config) : Nat := cfg.maxNumReqs * cfg.decodeQueryLen

/-! ## LoRA cases -/

/-- `captured_with_lora`. -/
def Config.capturedWithLora (cfg : Config) : List Nat :=
  (cfg.loraCases.filter (0 < ·)).insertionSort (· ≤ ·)

/-- One turn of `_build_lora_dispatch_map`: the cases from `case_idx` on, and
the map so far. -/
def mapLora (st : List Nat × List (Nat × Nat)) (n : Nat) : List Nat × List (Nat × Nat) :=
  let cases := st.1.dropWhile (· < n)
  (cases, st.2 ++ [(n, cases.headD 0)])

/-- `_max_lora_case`. -/
def Config.maxLoraCase (cfg : Config) : Nat := cfg.capturedWithLora.getLastD 0

/-- `_lora_dispatch_map`. -/
def Config.loraDispatchMap (cfg : Config) : List (Nat × Nat) :=
  ((List.range' 1 cfg.maxLoraCase).foldl mapLora (cfg.capturedWithLora, [])).2

/-- `_resolve_effective_loras`. -/
def Config.resolveEffectiveLoras (cfg : Config) (numActiveLoras : Nat) : Nat :=
  if numActiveLoras = 0 ∨ cfg.loraDispatchMap = [] then numActiveLoras
  else (cfg.loraDispatchMap.lookup numActiveLoras).getD cfg.maxLoraCase

/-! ## Planning the descriptors -/

/-- `round_up`. -/
def roundUp (x y : Nat) : Nat := (x + y - 1) / y * y

/-- `descs_by_mode`. -/
abbrev DescsByMode := Mode → List BatchExecutionDescriptor

def DescsByMode.append (descs : DescsByMode) (desc : BatchExecutionDescriptor) : DescsByMode :=
  fun mode => if mode = desc.cgMode then descs mode ++ [desc] else descs mode

/-- The graph of a uniform decode batch. -/
def uniformDesc (cfg : Config) (numTokens loras queryLen : Nat) : BatchExecutionDescriptor where
  cgMode := cfg.cudagraphMode.decodeMode
  numTokens := roundUp numTokens queryLen
  numReqs := some (roundUp numTokens queryLen / queryLen)
  uniformTokenCount := some queryLen
  numActiveLoras := loras

/-- The graph of a decode batch with query lengths up to a bound. -/
def varlenDesc (cfg : Config) (numTokens loras : Nat) : BatchExecutionDescriptor where
  cgMode := cfg.cudagraphMode.decodeMode
  numTokens := numTokens
  numReqs := some (min numTokens cfg.maxNumReqs)
  maxQueryLen := some cfg.decodeQueryLen
  numActiveLoras := loras

/-- The graph of a mixed batch; a piecewise one does not pad requests. -/
def mixedDesc (cfg : Config) (numTokens loras : Nat) : BatchExecutionDescriptor where
  cgMode := cfg.cudagraphMode.mixedMode
  numTokens := numTokens
  numReqs :=
    if cfg.cudagraphMode.mixedMode = .full then some (min numTokens cfg.maxNumReqs) else none
  numActiveLoras := loras

/-- The loop body over `decode_query_lens`. -/
def addUniform (cfg : Config) (numTokens loras : Nat) (descs : DescsByMode) (queryLen : Nat) :
    DescsByMode :=
  let desc := uniformDesc cfg numTokens loras queryLen
  if desc.numTokens > cfg.maxDecodeTokens ∨ desc.numTokens > cfg.maxCudagraphCaptureSize ∨
      desc.numTokens / queryLen > cfg.maxNumReqs then descs
  else if desc ∈ descs cfg.cudagraphMode.decodeMode then descs
  else descs.append desc

/-- The decode part of the loop body over sizes and LoRA cases. -/
def addDecode (cfg : Config) (descs : DescsByMode) (numTokens loras : Nat) : DescsByMode :=
  let decodes := cfg.cudagraphMode.separateRoutine && cfg.cudagraphMode.decodeMode != .none
  if decodes && cfg.varlenDecode && decide (numTokens ≤ cfg.maxDecodeTokens) then
    descs.append (varlenDesc cfg numTokens loras)
  else if decodes && !cfg.varlenDecode then
    cfg.decodeQueryLens.foldl (addUniform cfg numTokens loras) descs
  else descs

/-- The loop body over sizes and LoRA cases. -/
def addSize (cfg : Config) (descs : DescsByMode) (size : Nat × Nat) : DescsByMode :=
  let descs := addDecode cfg descs size.1 size.2
  if cfg.cudagraphMode.mixedMode = .none then descs
  else descs.append (mixedDesc cfg size.1 size.2)

/-- `product(capture_sizes, lora_capture_cases)`, the sizes sorted. -/
def Config.sizes (cfg : Config) : List (Nat × Nat) :=
  (cfg.captureSizes.insertionSort (· ≤ ·)).product cfg.loraCases

/-- `descs_by_mode` after the loop. -/
def Config.descsByMode (cfg : Config) : DescsByMode :=
  if cfg.cudagraphMode = .single .none ∨ cfg.captureSizes = [] then fun _ => []
  else cfg.sizes.foldl (addSize cfg) fun _ => []

/-- `_capture_descs[mode]`: by tokens, the most first. -/
def Config.captureDescs (cfg : Config) (mode : Mode) : List BatchExecutionDescriptor :=
  (cfg.descsByMode mode).insertionSort fun a b => b.numTokens ≤ a.numTokens

/-! ## The candidate table -/

/-- `_candidates`, by token count and LoRA case; an absent key is an empty
list. -/
abbrev Candidates := Nat → Nat → List BatchExecutionDescriptor

/-- The candidates of one LoRA case of one mode. -/
def addCandidates (descs : List BatchExecutionDescriptor) (cells : Candidates) (loras : Nat) :
    Candidates :=
  let loraDescs := descs.filter fun d => d.numActiveLoras == loras
  let groups := groupby BatchExecutionDescriptor.numTokens loraDescs
  fun i l => if l = loras then fillGroups 0 groups (cells · l) i else cells i l

/-- The candidates of one mode. -/
def addMode (cfg : Config) (cells : Candidates) (mode : Mode) : Candidates :=
  cfg.loraCases.foldl (addCandidates (cfg.captureDescs mode).reverse) cells

/-- `_init_candidates`. -/
def Config.candidates (cfg : Config) : Candidates :=
  [Mode.full, Mode.piecewise].foldl (addMode cfg) fun _ _ => []

/-! ## Dispatch -/

/-- The descriptor of an eager step. -/
def eagerDesc (shape : Shape) (loras : Nat) : BatchExecutionDescriptor where
  cgMode := .none
  numTokens := shape.numTokens
  numReqs := some shape.numReqs
  numActiveLoras := loras

/-- `dispatch`. -/
def dispatch (cfg : Config) (graphsCaptured : Bool) (shape : Shape) : BatchExecutionDescriptor :=
  let loras := cfg.resolveEffectiveLoras shape.numActiveLoras
  if graphsCaptured = true ∧ 0 < shape.numTokens then
    ((cfg.candidates shape.numTokens loras).find? fun desc => isCompatible desc shape loras).getD
      (eagerDesc shape loras)
  else eagerDesc shape loras

end FlashNext.Ports.GraphDispatch
