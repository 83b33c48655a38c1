import Mathlib.Algebra.Order.Floor.Div
import Mathlib.Analysis.SpecialFunctions.Log.Basic
import FlashNext.Ports.QsaAttention

/-!
# QSA sparse paged attention is softmax attention

Every valid column lies in one tile of one split.  The state of a split holds the
weights of its columns, and the merge adds them up, so the launch profile does not show
in the result.
-/

namespace FlashNext.Ports.Qsa

open FlashNext.Verified.Checked
open FlashNext.Verified.Groups
open FlashNext.Verified.OnlineSoftmax

variable {F : Type} [Field F] [LinearOrder F]

/-! ## Which columns a split reads -/

/-- The valid columns of a row, in order. -/
def rowColumns (column : Int → Option (F × (Nat → F))) (indices : Nat → Int) (topk : Nat) :
    List (F × (Nat → F)) :=
  (List.range topk).filterMap fun c => column (indices c)

section Columns

variable (column : Int → Option (F × (Nat → F))) (indices : Nat → Int)
  (topk blockN numTiles numSplits : Nat)

/-- The valid columns of a split. -/
def splitColumns (splitId : Nat) : List (F × (Nat → F)) :=
  (List.range' (splitId * numTiles / numSplits)
      ((splitId + 1) * numTiles / numSplits - splitId * numTiles / numSplits)).flatMap
    fun tile => (tileColumns column indices topk blockN tile).filterMap id

omit [Field F] [LinearOrder F] in
theorem tileColumns_valid (tile : Nat) :
    (tileColumns column indices topk blockN tile).filterMap id =
      (members blockN tile).filterMap fun c =>
        column (if c < topk then indices c else -1) := by
  unfold tileColumns members
  rw [List.filterMap_map, List.filterMap_map]
  rfl

variable {column topk blockN numTiles numSplits}

omit [Field F] [LinearOrder F] in
/-- Lanes past the selection read nothing. -/
theorem filterMap_load (hneg : column (-1) = none) (n : Nat) :
    ((List.range n).filterMap fun c => column (if c < topk then indices c else -1)) =
      (List.range (min n topk)).filterMap fun c => column (indices c) := by
  obtain ⟨rest, hrest⟩ := Nat.exists_eq_add_of_le (Nat.min_le_left n topk)
  have hpast : (((List.range rest).map (min n topk + ·)).filterMap fun c =>
      column (if c < topk then indices c else -1)) = [] := by
    rw [List.filterMap_eq_nil_iff]
    intro c hc
    obtain ⟨o, ho, rfl⟩ := List.mem_map.mp hc
    have hlt := List.mem_range.mp ho
    rw [if_neg (by omega), hneg]
  conv_lhs => rw [hrest, List.range_add, List.filterMap_append, hpast, List.append_nil]
  refine List.filterMap_congr fun c hc => ?_
  have hlt := List.mem_range.mp hc
  rw [if_pos (by omega)]

omit [Field F] [LinearOrder F] in
/-- The splits read every valid column once, in order. -/
theorem flatMap_splitColumns (hneg : column (-1) = none) (hsplits : 0 < numSplits)
    (hcover : topk ≤ numTiles * blockN) :
    (List.range numSplits).flatMap
        (splitColumns column indices topk blockN numTiles numSplits) =
      rowColumns column indices topk := by
  obtain ⟨cut, hcut⟩ : ∃ cut : Nat → Nat, cut = fun i => i * numTiles / numSplits := ⟨_, rfl⟩
  have hmono : ∀ i, cut i ≤ cut (i + 1) := by
    intro i
    rw [hcut]
    exact Nat.div_le_div_right (Nat.mul_le_mul_right _ (Nat.le_succ i))
  have hzero : cut 0 = 0 := by rw [hcut]; simp
  have hend : cut numSplits = numTiles := by
    rw [hcut]
    exact Nat.mul_div_cancel_left _ hsplits
  have hpieces := flatMap_pieces hmono hzero numSplits
  rw [hend] at hpieces
  obtain ⟨load, hload⟩ : ∃ load : Nat → Option (F × (Nat → F)),
      load = fun c => column (if c < topk then indices c else -1) := ⟨_, rfl⟩
  have hsplit : ∀ i, splitColumns column indices topk blockN numTiles numSplits i =
      (List.range' (cut i) (cut (i + 1) - cut i)).flatMap fun tile =>
        (members blockN tile).filterMap load := by
    intro i
    unfold splitColumns
    simp only [tileColumns_valid, hcut, hload]
  calc (List.range numSplits).flatMap
        (splitColumns column indices topk blockN numTiles numSplits)
      = (List.range numTiles).flatMap fun tile =>
          (members blockN tile).filterMap load := by
        rw [← hpieces, List.flatMap_assoc]
        exact congrArg (List.flatMap · _) (funext hsplit)
    _ = ((List.range numTiles).flatMap (members blockN)).filterMap load := by
        rw [List.filterMap_flatMap]
    _ = rowColumns column indices topk := by
        rw [flatMap_members_range, hload, filterMap_load indices hneg, Nat.min_eq_right hcover]
        rfl

end Columns

/-! ## One row and one head -/

section Head

variable {E : Exp2 F} {column : Int → Option (F × (Nat → F))} {indices : Nat → Int}
  {topk blockN numTiles numSplits : Nat}

/-- The state of a split holds its columns. -/
theorem splitState_holds (splitId : Nat) :
    Holds E scoreSentinel (splitColumns column indices topk blockN numTiles numSplits splitId)
      (splitState E column indices topk blockN numTiles numSplits splitId) := by
  have hstart : Holds E (scoreSentinel : F) [] (State.start scoreSentinel : State F (Nat → F)) :=
    holds_start
  have hrun := hstart.run
    ((List.range' (splitId * numTiles / numSplits) ((splitId + 1) * numTiles / numSplits -
      splitId * numTiles / numSplits)).map (tileColumns column indices topk blockN))
  rw [List.nil_append, List.flatMap_map, List.foldl_map] at hrun
  exact hrun

variable [IsStrictOrderedRing F]

theorem normalizerClamp_le_one : (normalizerClamp : F) ≤ 1 := by
  unfold normalizerClamp
  rw [div_le_one (by positivity)]
  exact one_le_pow₀ (by norm_num)

/-- However the columns are cut, the mean over the valid ones is written. -/
theorem attentionHead_eq (hneg : column (-1) = none) (hsplits : 0 < numSplits)
    (hcover : topk ≤ numTiles * blockN)
    (habove : ∀ c ∈ rowColumns column indices topk, scoreSentinel < c.1) :
    attentionHead E column indices topk blockN numTiles numSplits =
      mean E (rowColumns column indices topk) := by
  have hcolumns := flatMap_splitColumns indices hneg hsplits hcover
  have hsplit : ∀ splitId < numSplits,
      ∀ c ∈ splitColumns column indices topk blockN numTiles numSplits splitId,
        scoreSentinel < c.1 := by
    intro splitId hlt c hc
    apply habove c
    rw [← hcolumns]
    exact List.mem_flatMap.mpr ⟨splitId, List.mem_range.mpr hlt, hc⟩
  unfold attentionHead
  by_cases hone : numSplits = 1
  · subst hone
    rw [if_pos rfl, (splitState_holds 0).output_eq (hsplit 0 Nat.one_pos)
      normalizerClamp_le_one, ← hcolumns]
    simp
  · rw [if_neg hone, ← hcolumns, List.flatMap_def]
    refine merge_eq_mean ?_
    rw [List.forall₂_map_left_iff, List.forall₂_map_right_iff, List.forall₂_same]
    intro splitId hid
    exact (splitState_holds splitId).isPart (hsplit splitId (List.mem_range.mp hid))
      normalizerClamp_le_one

end Head

/-! ## The batch -/

section Batch

variable {E : Exp2 F} {prefill : Profile} {softmaxScaleLog2 : Nat → F} {q : Query F}
  {kCache vCache : KvTensor F} {logicalIndices : Indices} {blockTable : PageTable}
  {tokenToReq : List Int} {out : Query F}

theorem le_cdiv_mul {n d : Nat} (hd : 0 < d) : n ≤ cdiv n d * d := by
  have hle : n ≤ d • (n ⌈/⌉ d) := le_smul_ceilDiv hd
  rwa [smul_eq_mul, Nat.ceilDiv_eq_add_pred_div, Nat.mul_comm] at hle

/-- The environment configures a tile and at least one split. -/
structure Profile.Ok (profile : Profile) : Prop where
  blockN : 0 < profile.blockN
  targetSplits : 0 < profile.targetSplits

theorem launchProfile_ok (hprefill : prefill.Ok) (groupSize basePrograms : Nat) :
    (launchProfile prefill groupSize basePrograms).Ok := by
  unfold launchProfile
  dsimp only
  generalize (if nextPowerOf2 groupSize ≤ 8 then 8 else 4) = limit
  split
  · exact ⟨by decide, by decide⟩
  · split
    · exact ⟨by decide, by decide⟩
    · split
      · exact ⟨by decide, by decide⟩
      · split
        · exact ⟨by decide, by decide⟩
        · exact hprefill

theorem numSplits_pos {numTiles targetSplits : Nat} (h : 0 < targetSplits) :
    0 < numSplits numTiles targetSplits := by
  unfold numSplits
  rw [Nat.one_shiftLeft]
  exact Nat.lt_min.mpr ⟨Nat.two_pow_pos _, h⟩

omit [LinearOrder F] in
/-- A lane that loads `-1` is masked. -/
theorem column_neg_one (args : HeadArgs F) : args.column (-1) = none := by
  have hpage : args.physicalPage (-1) = -1 := by
    unfold HeadArgs.physicalPage
    dsimp only
    rw [if_neg]
    rintro ⟨_, hneg, _⟩
    omega
  unfold HeadArgs.column
  dsimp only
  rw [hpage, if_neg]
  rintro ⟨hneg, _⟩
  omega

/-- The shapes that the function checks. -/
structure AttentionShapes (q : Query F) (kCache vCache : KvTensor F)
    (logicalIndices : Indices) (blockTable : PageTable) (tokenToReq : List Int)
    (out : Query F) : Prop where
  caches : vCache.shape = kCache.shape
  indices : logicalIndices.rows = q.rows
  tokenToReq : tokenToReq.length = q.rows
  nonempty : (0 < kCache.numPages ∧ 0 < kCache.pageSize ∧ 0 < kCache.numHeads) ∧
    0 < blockTable.numRequests ∧ 0 < blockTable.width
  width : 0 < logicalIndices.width
  heads : q.headDim = kCache.headDim ∧ q.heads % kCache.numHeads = 0
  headDim : 16 ≤ q.headDim ∧ q.headDim &&& (q.headDim - 1) = 0
  out : out.shape = q.shape

/-- What is left to run after the checks. -/
theorem qsaSparsePagedAttention_run (E : Exp2 F) (prefill : Profile)
    (softmaxScaleLog2 : Nat → F)
    (hshape : AttentionShapes q kCache vCache logicalIndices blockTable tokenToReq out) :
    ∃ profile : Profile, ∃ numTiles splits,
      profile = launchProfile prefill (q.heads / kCache.numHeads)
        (q.rows * kCache.numHeads) ∧
      numTiles = cdiv logicalIndices.width profile.blockN ∧
      splits = numSplits numTiles profile.targetSplits ∧
      ∃ result, qsaSparsePagedAttention E prefill softmaxScaleLog2 q kCache vCache
          logicalIndices blockTable tokenToReq out = .ok result ∧ result.shape = q.shape ∧
        ∀ row head d, result.data row head d =
          if row < q.rows ∧ head < q.heads ∧ d < q.headDim then
            attentionHead E (headArgs softmaxScaleLog2 q kCache vCache blockTable tokenToReq
              row head).column (logicalIndices.data row) logicalIndices.width
              profile.blockN numTiles splits d
          else out.data row head d := by
  refine ⟨_, _, _, rfl, rfl, rfl, ?_⟩
  unfold qsaSparsePagedAttention
  rw [require_ok hshape.caches, ok_bind, require_ok hshape.indices, ok_bind,
    require_ok hshape.tokenToReq, ok_bind, require_ok hshape.nonempty, ok_bind,
    require_ok hshape.width, ok_bind, require_ok hshape.heads, ok_bind,
    require_ok hshape.headDim, ok_bind, require_ok hshape.out, ok_bind]
  by_cases hzero : q.rows = 0
  · rw [if_pos hzero]
    refine ⟨out, rfl, hshape.out, fun row head d => ?_⟩
    rw [if_neg]
    rintro ⟨hrow, _⟩
    omega
  · rw [if_neg hzero]
    exact ⟨_, rfl, hshape.out, fun row head d => rfl⟩

/-- Where a token of a request is cached: the request and the token are there, the block
table has the token's logical page, and the cache has the physical page it names. -/
structure CachedAt (blockTable : PageTable) (numPages pageSize : Nat) (request token : Int)
    (page offset : Nat) : Prop where
  inBatch : InRange blockTable.numRequests request
  nonneg : 0 ≤ token
  inTable : token.toNat / pageSize < blockTable.width
  pageAt : blockTable.data request.toNat (token.toNat / pageSize) = page
  inCache : page < numPages
  offsetAt : offset = token.toNat % pageSize

omit [LinearOrder F] in
/-- A column is valid exactly when its token is cached.  It then carries the scaled dot
product of the query head with the key there, and the value there. -/
theorem headArgs_column_eq_some {softmaxScaleLog2 : Nat → F} {row head : Nat} {token : Int}
    {c : F × (Nat → F)} :
    (headArgs softmaxScaleLog2 q kCache vCache blockTable tokenToReq row head).column
        token = some c ↔
      ∃ page offset, CachedAt blockTable kCache.numPages kCache.pageSize
          (tokenToReq.getD row 0) token page offset ∧
        c = (((List.range kCache.headDim).map fun d =>
            q.data row head d *
              kCache.data page offset (head / (q.heads / kCache.numHeads)) d).sum *
            softmaxScaleLog2 q.headDim,
          vCache.data page offset (head / (q.heads / kCache.numHeads))) := by
  unfold HeadArgs.column
  dsimp only
  by_cases hin : InRange blockTable.numRequests (tokenToReq.getD row 0) ∧ 0 ≤ token ∧
      (max token 0).toNat / kCache.pageSize < blockTable.width
  · have hpage : (headArgs softmaxScaleLog2 q kCache vCache blockTable tokenToReq row
        head).physicalPage token =
          blockTable.data (safeRequest blockTable.numRequests (tokenToReq.getD row 0))
            ((max token 0).toNat / kCache.pageSize) := if_pos hin
    obtain ⟨hrequest, hnonneg, htable⟩ := hin
    have hsafe : safeRequest blockTable.numRequests (tokenToReq.getD row 0) =
        (tokenToReq.getD row 0).toNat := by
      unfold InRange at hrequest
      unfold safeRequest
      omega
    have hmax : (max token 0).toNat = token.toNat := by omega
    rw [hpage, hsafe, hmax]
    rw [hmax] at htable
    constructor
    · intro h
      obtain ⟨⟨hpage, hlt⟩, h⟩ := Option.ite_none_right_eq_some.mp h
      cases h
      exact ⟨_, _, ⟨hrequest, hnonneg, htable, (Int.toNat_of_nonneg hpage).symm,
        (Int.toNat_lt hpage).mpr hlt, rfl⟩, rfl⟩
    · rintro ⟨page, offset, h, rfl⟩
      rw [h.pageAt, h.offsetAt]
      exact if_pos ⟨Int.natCast_nonneg page, Int.ofNat_lt.mpr h.inCache⟩
  · have hpage : (headArgs softmaxScaleLog2 q kCache vCache blockTable tokenToReq row
        head).physicalPage token = -1 := if_neg hin
    rw [hpage, if_neg fun h => absurd h.1 (by decide)]
    constructor
    · intro h
      cases h
    · rintro ⟨page, offset, h, -⟩
      have hmax : (max token 0).toNat = token.toNat := by
        have hnonneg := h.nonneg
        omega
      exact absurd ⟨h.inBatch, h.nonneg, hmax.symm ▸ h.inTable⟩ hin

/-- Every row and head gets the softmax-weighted mean of the values of its valid selected
columns, zero when there is none.  Neither the profile nor the rest of the batch shows. -/
theorem qsaSparsePagedAttention_spec [IsStrictOrderedRing F] (E : Exp2 F)
    (softmaxScaleLog2 : Nat → F) (hprefill : prefill.Ok)
    (hshape : AttentionShapes q kCache vCache logicalIndices blockTable tokenToReq out) :
    ∃ result, qsaSparsePagedAttention E prefill softmaxScaleLog2 q kCache vCache
        logicalIndices blockTable tokenToReq out = .ok result ∧ result.shape = q.shape ∧
      ∀ row < q.rows, ∀ head < q.heads, ∀ d < q.headDim,
        ∀ columns, columns = rowColumns (headArgs softmaxScaleLog2 q kCache vCache blockTable
            tokenToReq row head).column (logicalIndices.data row) logicalIndices.width →
          (∀ c ∈ columns, scoreSentinel < c.1) →
          result.data row head d = mean E columns d ∧
            (columns = [] → result.data row head d = 0) := by
  obtain ⟨profile, numTiles, splits, hprofile, htiles, hsplits, result, hrun, hres, hdata⟩ :=
    qsaSparsePagedAttention_run E prefill softmaxScaleLog2 hshape
  have hok := launchProfile_ok hprefill (q.heads / kCache.numHeads)
    (q.rows * kCache.numHeads)
  rw [← hprofile] at hok
  refine ⟨result, hrun, hres, fun row hrow head hhead d hd columns hcolumns habove => ?_⟩
  have hmean : result.data row head d = mean E columns d := by
    rw [hcolumns] at habove ⊢
    rw [hdata, if_pos ⟨hrow, hhead, hd⟩, attentionHead_eq (column_neg_one _)
      (hsplits ▸ numSplits_pos hok.targetSplits) (htiles ▸ le_cdiv_mul hok.blockN) habove]
  refine ⟨hmean, ?_⟩
  rintro rfl
  rw [hmean, mean_nil]
  rfl

end Batch

/-! Two rows of two heads over one page; the second row belongs to no request. -/

section Sample

/-- The powers of two. -/
noncomputable def realExp2 : Exp2 ℝ where
  exp2 := fun a => Real.exp (a * Real.log (2 : ℕ))
  log2 := fun x => Real.log x / Real.log (2 : ℕ)
  exp2_pos := fun a => Real.exp_pos _
  exp2_add := fun a b => by rw [add_mul, Real.exp_add]
  exp2_log2 := fun x hx => by
    rw [Nat.cast_ofNat, div_mul_cancel₀ _ (Real.log_pos one_lt_two).ne', Real.exp_log hx]

noncomputable def sampleHeads : Query ℝ := ⟨2, 2, 16, fun row head d => row + head + d⟩

noncomputable def sampleKeys : KvTensor ℝ := ⟨1, 2, 1, 16, fun _ _ _ _ => 0⟩

noncomputable def sampleValues : KvTensor ℝ := ⟨1, 2, 1, 16, fun _ offset _ d => offset + d⟩

def sampleIndices : Indices := ⟨2, 3, fun _ column => if column = 1 then -1 else column / 2⟩

def sampleTable : PageTable := ⟨1, 1, fun _ _ => 0⟩

theorem sampleAttentionShapes : AttentionShapes sampleHeads sampleKeys sampleValues
    sampleIndices sampleTable [0, -1] sampleHeads where
  caches := rfl
  indices := rfl
  tokenToReq := rfl
  nonempty := ⟨⟨Nat.one_pos, Nat.two_pos, Nat.one_pos⟩, Nat.one_pos, Nat.one_pos⟩
  width := Nat.succ_pos 2
  heads := ⟨rfl, rfl⟩
  headDim := ⟨Nat.le_refl 16, rfl⟩
  out := rfl

/-- Zero keys score zero. -/
theorem sample_above (row head : Nat) : ∀ c ∈ rowColumns (headArgs (fun _ => (1 : ℝ))
    sampleHeads sampleKeys sampleValues sampleTable [0, -1] row head).column
    (sampleIndices.data row) sampleIndices.width, scoreSentinel < c.1 := by
  intro c hc
  obtain ⟨column, _, hcolumn⟩ := List.mem_filterMap.mp hc
  obtain ⟨page, offset, -, rfl⟩ := headArgs_column_eq_some.mp hcolumn
  simp [sampleKeys, scoreSentinel]

theorem qsaSparsePagedAttention_spec_twoRows :
    ∃ result, qsaSparsePagedAttention realExp2 ⟨32, 1⟩ (fun _ => (1 : ℝ)) sampleHeads
        sampleKeys sampleValues sampleIndices sampleTable [0, -1] sampleHeads = .ok result ∧
      result.data 1 1 3 = mean realExp2 (rowColumns (headArgs (fun _ => (1 : ℝ)) sampleHeads
        sampleKeys sampleValues sampleTable [0, -1] 1 1).column (sampleIndices.data 1) 3) 3 := by
  have hprefill : Profile.Ok ⟨32, 1⟩ := ⟨Nat.succ_pos 31, Nat.one_pos⟩
  obtain ⟨result, hrun, _, hdata⟩ := qsaSparsePagedAttention_spec realExp2
    (fun _ => (1 : ℝ)) hprefill sampleAttentionShapes
  exact ⟨result, hrun, (hdata 1 Nat.one_lt_two 1 Nat.one_lt_two 3 (by decide) _ rfl
    (sample_above 1 1)).1⟩

end Sample

end FlashNext.Ports.Qsa
