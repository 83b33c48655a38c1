import FlashNext.Verified.Varlen

/-!
# The input ids of an asynchronous step

With asynchronous scheduling the CPU does not know the tokens that were sampled last.  Where a
request of the previous step goes on, its sampled token and its drafts are taken from the GPU
and scattered over the ids that the CPU has gathered.
-/

namespace FlashNext.Ports.AsyncInputIds

open FlashNext.Verified.Scatter
open FlashNext.Verified.Varlen

/-! ## The batch -/

/-- A request of the batch: its `prev_positions` entry (`none` for -1), its scheduled tokens and
drafts, and the ids that `index_select` has gathered for it. -/
structure BatchReq where
  prevPosition : Option Nat
  numScheduledTokens : Nat
  draftLen : Nat
  cpuIds : List Int

/-- A tensor of draft tokens, a row for each request of the previous step. -/
structure DraftTokenIds where
  width : Nat
  row : Nat → Nat → Int

/-- `draft_token_ids.flatten()[k]`. -/
def DraftTokenIds.flatten (drafts : DraftTokenIds) (k : Nat) : Int :=
  drafts.row (k / drafts.width) (k % drafts.width)

/-- What the step before has left: column 0 of `prev_sampled_token_ids`, the drafts, and
`prev_num_spec_tokens`. -/
structure Previous where
  prevSampledTokenIds : Option (Nat → Int)
  draftTokenIds : Option DraftTokenIds
  prevNumSpecTokens : Nat

/-! ## The scan over the requests -/

/-- The variables of the loop. -/
structure Scan where
  sampleFlattenedIndices : List Nat := []
  specFlattenedIndices : List Nat := []
  prevDraftTokenIndices : List Nat := []
  prevIndices : List Nat := []
  commonIndicesMatch : Bool := true
  maxFlattenedIndex : Int := -1
  totalNumSpecTokens : Nat := 0

/-- The loop body, with the entry of `cu_num_tokens`.  A scheduled request has its sampled token
and its drafts among its tokens, so no subtraction is cut off. -/
def Scan.step (prevNumSpecTokens : Nat) (scan : Scan) (entry : Nat × BatchReq) : Scan :=
  match entry.2.prevPosition with
  | none => scan
  | some prevIndex =>
      let draftLen := entry.2.draftLen
      let flattenedIndex := entry.1 - 1
      let start := prevIndex * prevNumSpecTokens
      { sampleFlattenedIndices := scan.sampleFlattenedIndices ++ [flattenedIndex - draftLen]
        specFlattenedIndices := scan.specFlattenedIndices ++
          List.range' (flattenedIndex - draftLen + 1) draftLen
        prevDraftTokenIndices := scan.prevDraftTokenIndices ++ List.range' start draftLen
        prevIndices := scan.prevIndices ++ [prevIndex]
        commonIndicesMatch := scan.commonIndicesMatch && prevIndex == flattenedIndex
        maxFlattenedIndex := max scan.maxFlattenedIndex flattenedIndex
        totalNumSpecTokens := scan.totalNumSpecTokens + draftLen }

/-- `cu_num_tokens`, entry by entry beside the requests. -/
def withCu : Nat → List BatchReq → List (Nat × BatchReq)
  | _, [] => []
  | start, r :: batch =>
      (start + r.numScheduledTokens, r) :: withCu (start + r.numScheduledTokens) batch

/-! ## The GPU buffer -/

/-- `input_ids.copy_to_gpu(n)`. -/
def copyToGpu (cpu : List Int) (gpu : Nat → Int) : Nat → Int :=
  fun i => (cpu[i]?).getD (gpu i)

/-- `_prepare_input_ids`: the buffer behind it. -/
def prepareInputIds (prev : Previous) (batch : List BatchReq) (gpu : Nat → Int) : Nat → Int :=
  let cpu := batch.flatMap BatchReq.cpuIds
  match prev.prevSampledTokenIds with
  | none => copyToGpu cpu gpu
  | some prevSampledTokenIds =>
      let scan := (withCu 0 batch).foldl (Scan.step prev.prevNumSpecTokens) {}
      let numCommonTokens := scan.sampleFlattenedIndices.length
      let totalNumScheduledTokens := (batch.map BatchReq.numScheduledTokens).sum
      let totalWithoutSpec := totalNumScheduledTokens - scan.totalNumSpecTokens
      let gpu := if numCommonTokens < totalWithoutSpec then copyToGpu cpu gpu else gpu
      if numCommonTokens = 0 then gpu
      else if scan.commonIndicesMatch ∧ scan.maxFlattenedIndex = (numCommonTokens : Int) - 1 then
        fun i => if i < numCommonTokens then prevSampledTokenIds i else gpu i
      else
        let gpu := put scan.sampleFlattenedIndices (scan.prevIndices.map prevSampledTokenIds) gpu
        match prev.draftTokenIds with
        | none => gpu
        | some drafts =>
            if scan.specFlattenedIndices = [] then gpu
            else put scan.specFlattenedIndices
              (scan.prevDraftTokenIndices.map drafts.flatten) gpu

/-! ## What the ids should be -/

/-- The ids of a request: where it goes on from the previous step, the ones of the CPU, then its
sampled token, then its drafts. -/
def BatchReq.ids (prev : Previous) (r : BatchReq) : List Int :=
  match r.prevPosition with
  | none => r.cpuIds
  | some p =>
      r.cpuIds.take (r.numScheduledTokens - 1 - r.draftLen) ++
        ((prev.prevSampledTokenIds.map (· p)).toList ++
          (List.range r.draftLen).map fun k =>
            (prev.draftTokenIds.map (·.row p k)).getD 0)

end FlashNext.Ports.AsyncInputIds
