import FlashNext.Ports.QsaStagedExact
import FlashNext.Verified.SampleShares

/-!
# When the staged path agrees with the direct one

The staged kernel takes the last column of a row for the count of the valid ones and
leaves it out of the selection; the rows that the selection writes have no such column.
The two paths agree on all contents of the cache exactly when the columns that the
staged one still reads give every cached place the share that all columns give it.
-/

namespace FlashNext.Ports.Qsa

open FlashNext.Verified.OnlineSoftmax
open FlashNext.Verified.SampleShares

variable {F : Type} [Field F] [LinearOrder F]

/-! ## Other contents -/

/-- The same shapes and selection over other queries and another cache. -/
def StagedArgs.withContents (args : StagedArgs F) (query : Nat → Nat → Nat → F)
    (cache : Nat → Nat → Nat → Nat → F) : StagedArgs F :=
  { args with
    q := { args.q with data := query }
    kvCache := { args.kvCache with data := cache } }

/-- The places of the columns that the staged path reads. -/
def StagedArgs.readSlots (args : StagedArgs F) (row : Nat) : List (Nat × Nat) :=
  (args.tokens row (args.columnsRead row)).map args.slot

/-- The places of all valid columns. -/
def StagedArgs.selectedSlots (args : StagedArgs F) (row : Nat) : List (Nat × Nat) :=
  (args.tokens row args.logicalIndices.width).map args.slot

/-- No score of a valid column is as low as the one that stands for a masked column. -/
def StagedArgs.ScoresAbove (args : StagedArgs F) : Prop :=
  ∀ row ∈ args.rows, ∀ head < args.q.heads,
    ∀ token ∈ args.tokens row args.logicalIndices.width,
      scoreSentinel < (args.slotColumn row head (args.slot token)).1

/-- The direct path on the same arguments. -/
def StagedArgs.direct (E : Exp2 F) (args : StagedArgs F) (prefill : Profile)
    (softmaxScaleLog2 : Nat → F) (blockTable : PageTable) (tokenToReq : List Int)
    (out : Query F) : Except QsaError (Query F) :=
  qsaSparsePagedAttention E prefill softmaxScaleLog2 args.q args.kvCache.keys
    args.kvCache.values args.logicalIndices blockTable tokenToReq out

/-- The staged path writes the output of the direct one for each handled row, and no
other row. -/
def MatchesDirect (args : StagedArgs F) (out : Query F)
    (staged direct : Except QsaError (Query F)) : Prop :=
  ∃ x y, staged = .ok x ∧ direct = .ok y ∧ ∀ row head d, x.data row head d =
    if row ∈ args.rows ∧ head < args.q.heads ∧ d < args.q.headDim then y.data row head d
    else out.data row head d

section Input

variable {args : StagedArgs F} {softmaxScaleLog2 : Nat → F} {blockTable : PageTable}
  {tokenToReq : List Int} {request : Nat}

omit [Field F] [LinearOrder F] in
theorem StagedInput.withContents
    (hin : StagedInput args softmaxScaleLog2 blockTable tokenToReq request)
    (query : Nat → Nat → Nat → F) (cache : Nat → Nat → Nat → Nat → F) :
    StagedInput (args.withContents query cache) softmaxScaleLog2 blockTable tokenToReq
      request where
  arenaPages := hin.arenaPages
  blockN := hin.blockN
  scale := hin.scale
  inTable := hin.inTable
  tableRow := hin.tableRow
  rows := hin.rows
  maxPage := hin.maxPage
  pages := hin.pages
  tokens := hin.tokens

omit [Field F] [LinearOrder F] in
theorem AttentionShapes.withContents {directOut : Query F}
    (hshape : AttentionShapes args.q args.kvCache.keys args.kvCache.values
      args.logicalIndices blockTable tokenToReq directOut)
    (query : Nat → Nat → Nat → F) (cache : Nat → Nat → Nat → Nat → F) :
    AttentionShapes (args.withContents query cache).q
      (args.withContents query cache).kvCache.keys
      (args.withContents query cache).kvCache.values args.logicalIndices blockTable tokenToReq
      directOut where
  caches := hshape.caches
  indices := hshape.indices
  tokenToReq := hshape.tokenToReq
  nonempty := hshape.nonempty
  width := hshape.width
  heads := hshape.heads
  headDim := hshape.headDim
  out := hshape.out

/-! ## The direct path -/

omit [LinearOrder F] in
/-- The direct path reads a token where the staged one does. -/
theorem column_eq (hin : StagedInput args softmaxScaleLog2 blockTable tokenToReq request)
    (hdim : args.q.headDim = args.kvCache.headDim) {row : Nat} (hrow : row ∈ args.rows)
    (head : Nat) {token : Int}
    (hpage : 0 ≤ token → token.toNat / args.kvCache.pageSize ≤ args.maxLogicalPage) :
    (headArgs softmaxScaleLog2 args.q args.kvCache.keys args.kvCache.values blockTable
      tokenToReq row head).column token =
        if 0 ≤ token then some (args.slotColumn row head (args.slot token.toNat)) else none := by
  have hrequest := (hin.rows row hrow).2
  have hinTable := hin.inTable
  have hsafe : safeRequest blockTable.numRequests request = request := by
    unfold safeRequest
    omega
  by_cases hneg : token < 0
  · have hmask : (headArgs softmaxScaleLog2 args.q args.kvCache.keys args.kvCache.values
        blockTable tokenToReq row head).physicalPage token = -1 :=
      if_neg fun h => absurd h.2.1 (not_le.mpr hneg)
    unfold HeadArgs.column
    dsimp only
    rw [hmask, if_neg (by omega), if_neg (not_le.mpr hneg)]
  · have hnonneg : 0 ≤ token := not_lt.mp hneg
    have hle := hpage hnonneg
    have hmaxPage := hin.maxPage
    have hmax : (max token 0).toNat = token.toNat := by omega
    have hphysical : (headArgs softmaxScaleLog2 args.q args.kvCache.keys args.kvCache.values
        blockTable tokenToReq row head).physicalPage token =
          blockTable.data request (token.toNat / args.kvCache.pageSize) := by
      unfold HeadArgs.physicalPage headArgs
      dsimp only
      rw [hmax, hrequest, hsafe]
      refine if_pos ⟨⟨Int.natCast_nonneg request, by omega⟩, hnonneg, ?_⟩
      exact Nat.lt_of_le_of_lt hle hmaxPage
    have hrange := hin.pages _ hle
    unfold HeadArgs.column
    dsimp only
    rw [hphysical, if_pos hnonneg]
    refine (if_pos hrange).trans ?_
    unfold StagedArgs.slotColumn StagedArgs.slot HeadArgs.score headArgs
    dsimp only
    rw [tableRow_getD hin hle, hmax, hin.scale, hdim]
    rfl

omit [LinearOrder F] in
/-- The valid columns of the direct path. -/
theorem rowColumns_eq
    (hin : StagedInput args softmaxScaleLog2 blockTable tokenToReq request)
    (hdim : args.q.headDim = args.kvCache.headDim) {row : Nat} (hrow : row ∈ args.rows)
    (head : Nat) :
    rowColumns (headArgs softmaxScaleLog2 args.q args.kvCache.keys args.kvCache.values
      blockTable tokenToReq row head).column (args.logicalIndices.data row)
        args.logicalIndices.width =
      (args.selectedSlots row).map (args.slotColumn row head) := by
  unfold rowColumns StagedArgs.selectedSlots StagedArgs.tokens
  rw [List.map_map, List.map_filterMap]
  refine List.filterMap_congr fun c hc => ?_
  rw [column_eq hin hdim hrow head (hin.tokens row hrow c (List.mem_range.mp hc))]
  by_cases hnonneg : 0 ≤ args.logicalIndices.data row c
  · simp [hnonneg]
  · simp [hnonneg]

variable [IsStrictOrderedRing F] {E : Exp2 F} {prefill : Profile} {directOut : Query F}

/-- Both runs return; a handled row holds the mean over the columns that its path
reads. -/
theorem runs_eq (hprefill : prefill.Ok)
    (hshape : AttentionShapes args.q args.kvCache.keys args.kvCache.values
      args.logicalIndices blockTable tokenToReq directOut)
    (hin : StagedInput args softmaxScaleLog2 blockTable tokenToReq request)
    (habove : args.ScoresAbove)
    (arena : Nat → ArenaPage F) (workspace : Nat → Nat → State F (Nat → F)) (out : Query F) :
    ∃ x y, qsaSparsePagedAttentionStaged E args arena workspace out = .ok x ∧
      args.direct E prefill softmaxScaleLog2 blockTable tokenToReq directOut = .ok y ∧
      (∀ row head d, x.data row head d =
        if row ∈ args.rows ∧ head < args.q.heads ∧ d < args.q.headDim then
          mean E ((args.readSlots row).map (args.slotColumn row head)) d
        else out.data row head d) ∧
      ∀ row ∈ args.rows, ∀ head < args.q.heads, ∀ d < args.q.headDim,
        y.data row head d =
          mean E ((args.selectedSlots row).map (args.slotColumn row head)) d := by
  obtain ⟨x, hx, _, hxdata⟩ := qsaSparsePagedAttentionStaged_run E hin habove arena workspace out
  obtain ⟨profile, numTiles, splits, hprofile, htiles, hsplits, y, hy, _, hydata⟩ :=
    qsaSparsePagedAttention_run E prefill softmaxScaleLog2 hshape
  have hok := launchProfile_ok hprefill (args.q.heads / args.kvCache.keys.numHeads)
    (args.q.rows * args.kvCache.keys.numHeads)
  rw [← hprofile] at hok
  refine ⟨x, y, hx, hy, hxdata, fun row hrow head hhead d hd => ?_⟩
  have hcolumns := rowColumns_eq hin hshape.heads.1 hrow head
  rw [hydata, if_pos ⟨(hin.rows row hrow).1, hhead, hd⟩,
    attentionHead_eq (column_neg_one _) (hsplits ▸ numSplits_pos hok.targetSplits)
      (htiles ▸ le_cdiv_mul hok.blockN), hcolumns]
  rw [hcolumns]
  intro c hc
  obtain ⟨slot, hslot, rfl⟩ := List.mem_map.mp hc
  obtain ⟨token, htoken, rfl⟩ := List.mem_map.mp hslot
  exact habove row hrow head hhead token htoken

/-! ## The exact condition -/

/-- The paths agree on all contents exactly when the columns that are read give every
place its share of the selection. -/
theorem matchesDirect_iff_sameShares (hprefill : prefill.Ok)
    (hshape : AttentionShapes args.q args.kvCache.keys args.kvCache.values
      args.logicalIndices blockTable tokenToReq directOut)
    (hheads : 0 < args.q.heads)
    (hin : StagedInput args softmaxScaleLog2 blockTable tokenToReq request)
    (arena : Nat → ArenaPage F) (workspace : Nat → Nat → State F (Nat → F)) (out : Query F) :
    (∀ query cache, (args.withContents query cache).ScoresAbove →
        MatchesDirect args out
          (qsaSparsePagedAttentionStaged E (args.withContents query cache) arena workspace out)
          ((args.withContents query cache).direct E prefill softmaxScaleLog2 blockTable
            tokenToReq directOut)) ↔
      ∀ row ∈ args.rows, SameShares (args.readSlots row) (args.selectedSlots row) := by
  have hruns := fun query cache habove => runs_eq (E := E) hprefill
    (hshape.withContents query cache) (hin.withContents query cache) habove arena workspace
    out
  have hdim : 0 < args.q.headDim := Nat.lt_of_lt_of_le (by decide) hshape.headDim.1
  constructor
  · intro hmatch row hrow
    apply SameShares.of_mean_eq (E := E)
    intro v
    -- Keys of zero weigh all tokens the same; the values tell the places apart.
    obtain ⟨cache, hcache⟩ : ∃ cache : Nat → Nat → Nat → Nat → F, cache =
        fun page _ offset d => if d < args.kvCache.headDim then 0 else v (page, offset) :=
      ⟨_, rfl⟩
    have hcolumn : ∀ row head slot,
        (args.withContents args.q.data cache).slotColumn row head slot =
          ((0 : F), fun _ => v slot) := by
      intro row head slot
      unfold StagedArgs.slotColumn StagedArgs.withContents
      rw [hcache]
      refine Prod.ext ?_ ?_
      · dsimp only
        rw [List.sum_eq_zero, zero_mul]
        intro x hx
        obtain ⟨d, hd, rfl⟩ := List.mem_map.mp hx
        have hlt := List.mem_range.mp hd
        have hkey : d < args.kvCache.headDim := Nat.lt_of_lt_of_eq hlt hshape.heads.1
        rw [if_pos hkey, mul_zero]
      · funext d
        exact if_neg (Nat.not_lt.mpr (Nat.le_add_right _ _))
    have habove : (args.withContents args.q.data cache).ScoresAbove := by
      intro row _ head _ token _
      rw [hcolumn]
      show (scoreSentinel : F) < 0
      unfold scoreSentinel
      exact neg_lt_zero.mpr (by positivity)
    obtain ⟨x, y, hx, hy, hxdata, hydata⟩ := hruns _ _ habove
    obtain ⟨x', y', hx', hy', hdata⟩ := hmatch _ _ habove
    cases hx.symm.trans hx'
    cases hy.symm.trans hy'
    have hagree := hdata row 0 0
    rw [if_pos ⟨hrow, hheads, hdim⟩, hydata row hrow 0 hheads 0 hdim, hxdata,
      if_pos ⟨hrow, hheads, hdim⟩, mean_apply, mean_apply, List.map_map, List.map_map]
      at hagree
    simp only [Function.comp_def, hcolumn] at hagree
    exact hagree
  · intro hshares query cache habove
    obtain ⟨x, y, hx, hy, hxdata, hydata⟩ := hruns query cache habove
    refine ⟨x, y, hx, hy, fun row head d => ?_⟩
    rw [hxdata]
    by_cases hhandled : row ∈ args.rows ∧ head < args.q.heads ∧ d < args.q.headDim
    · obtain ⟨hrow, hhead, hd⟩ := hhandled
      rw [if_pos ⟨hrow, hhead, hd⟩, if_pos ⟨hrow, hhead, hd⟩, hydata row hrow head hhead d hd]
      exact congrFun ((hshares row hrow).mean_eq _) d
    · rw [if_neg hhandled]
      exact if_neg hhandled

end Input

/-! ## Rows that the selection writes -/

section Produced

variable {args : StagedArgs F} {row : Nat} {tokens : List Nat}

omit [Field F] [LinearOrder F] in
/-- A last entry of `-1` counts no column. -/
theorem columnsRead_of_last (hblockN : 0 < args.blockN)
    (hlast : args.logicalIndices.data row args.selectionWidth = -1) :
    args.columnsRead row = 0 := by
  have hend : (tileEnd (-1) args.selectionWidth args.numTiles args.blockN).toNat = 0 := by
    have hmin : min (-1) (args.selectionWidth : Int) = -1 := by omega
    have hdiv : (-1 + ((args.blockN : Int) - 1)).tdiv args.blockN ≤ 0 := by
      by_cases hone : args.blockN = 1
      · rw [hone]
        decide
      · rw [Int.tdiv_eq_zero_of_lt (by omega) (by omega)]
    unfold tileEnd
    rw [hmin]
    omega
  unfold StagedArgs.columnsRead
  rw [hlast, hend, Nat.zero_mul, Nat.zero_min]

omit [Field F] [LinearOrder F] in
/-- The tokens in the first columns of a row that holds tokens and then `-1`. -/
theorem tokens_eq_take {width n : Nat} (hn : n ≤ width)
    (hrow : ∀ c < width, args.logicalIndices.data row c =
      (tokens.map Int.ofNat ++ List.replicate (width - tokens.length) (-1)).getD c (-1)) :
    args.tokens row n = tokens.take n := by
  obtain ⟨load, hload⟩ : ∃ load : Int → Option Nat,
      load = fun token => if 0 ≤ token then some token.toNat else none := ⟨_, rfl⟩
  have hentry : ∀ c < n, load (args.logicalIndices.data row c) = tokens[c]? := by
    intro c hc
    rw [hload, hrow c (by omega), List.getD_eq_getElem?_getD]
    by_cases hin : c < tokens.length
    · rw [List.getElem?_append_left (by rwa [List.length_map]), List.getElem?_map,
        List.getElem?_eq_getElem hin]
      exact if_pos (Int.natCast_nonneg _)
    · rw [List.getElem?_append_right (by rw [List.length_map]; omega),
        List.getElem?_eq_none (Nat.not_lt.mp hin), List.getElem?_replicate]
      split <;> rfl
  have htake : ∀ m, (List.range m).filterMap (fun c => tokens[c]?) = tokens.take m := by
    intro m
    induction m with
    | zero => rfl
    | succ m ih =>
        rw [List.range_succ, List.filterMap_append, ih, List.take_add_one,
          List.filterMap_cons, List.filterMap_nil]
        cases tokens[m]? with
        | none => rfl
        | some token => rfl
  rw [← htake n]
  refine List.filterMap_congr fun c hc => ?_
  rw [← hentry c (List.mem_range.mp hc), hload]

omit [Field F] [LinearOrder F] in
/-- A row of tokens and then `-1`, over distinct places: the paths agree only when it
selects nothing. -/
theorem sameShares_produced_iff (hblockN : 0 < args.blockN)
    (hwidth : 0 < args.logicalIndices.width)
    (hlen : tokens.length ≤ args.logicalIndices.width)
    (hrow : ∀ c < args.logicalIndices.width, args.logicalIndices.data row c =
      (tokens.map Int.ofNat ++
        List.replicate (args.logicalIndices.width - tokens.length) (-1)).getD c (-1))
    (hnodup : (tokens.map args.slot).Nodup) :
    SameShares (args.readSlots row) (args.selectedSlots row) ↔ tokens = [] := by
  have hread := columnsRead_le args row
  have hwidth' : args.selectionWidth + 1 = args.logicalIndices.width :=
    Nat.sub_add_cancel hwidth
  have hsome : args.readSlots row = (tokens.map args.slot).take (args.columnsRead row) := by
    unfold StagedArgs.readSlots
    rw [tokens_eq_take (by omega) hrow, List.map_take]
  have hall : args.selectedSlots row = tokens.map args.slot := by
    unfold StagedArgs.selectedSlots
    rw [tokens_eq_take (Nat.le_refl _) hrow, List.take_of_length_le hlen]
  rw [hsome, hall]
  constructor
  · intro hshares
    have hlength := hshares.length_eq (hnodup.sublist (List.take_sublist _ _)) hnodup
    rw [List.length_take, List.length_map] at hlength
    have hlast : args.logicalIndices.data row args.selectionWidth = -1 := by
      rw [hrow _ (by omega), List.getD_eq_getElem?_getD,
        List.getElem?_append_right (by rw [List.length_map]; omega), List.getElem?_replicate]
      split <;> rfl
    rw [columnsRead_of_last hblockN hlast, Nat.zero_min] at hlength
    exact List.length_eq_zero_iff.mp hlength.symm
  · rintro rfl
    exact SameShares.of_perm (by simp)

end Produced

/-! The first token of a request, selected with two places and groups of two: the row has
one token and two columns of `-1`. -/

section Sample

noncomputable def stagedSample : StagedArgs ℝ where
  q := ⟨1, 1, 16, fun _ _ _ => 0⟩
  kvCache := ⟨1, 1, 16, 16, fun _ _ _ d => if d < 16 then 0 else 1⟩
  logicalIndices := ⟨1, 3, fun _ column => [0, -1, -1].getD column (-1)⟩
  blockTableRow := [0]
  rows := [0]
  maxLogicalPage := 0
  arenaPages := 1
  blockN := 32
  softmaxScaleLog2 := 1

theorem stagedSampleShapes : AttentionShapes stagedSample.q stagedSample.kvCache.keys
    stagedSample.kvCache.values stagedSample.logicalIndices sampleTable [0]
    stagedSample.q where
  caches := rfl
  indices := rfl
  tokenToReq := rfl
  nonempty := ⟨⟨Nat.one_pos, Nat.succ_pos 15, Nat.one_pos⟩, Nat.one_pos, Nat.one_pos⟩
  width := Nat.succ_pos 2
  heads := ⟨rfl, rfl⟩
  headDim := ⟨Nat.le_refl 16, rfl⟩
  out := rfl

theorem stagedSampleInput :
    StagedInput stagedSample (fun _ => (1 : ℝ)) sampleTable [0] 0 where
  arenaPages := Nat.one_pos
  blockN := Nat.succ_pos 31
  scale := rfl
  inTable := Nat.one_pos
  tableRow := rfl
  rows := fun row hrow => by
    rw [List.mem_singleton.mp hrow]
    exact ⟨Nat.one_pos, rfl⟩
  maxPage := Nat.one_pos
  pages := fun _ _ => ⟨Int.le_refl 0, Int.zero_lt_one⟩
  tokens := fun row _ c hc _ => by
    have hcases : c = 0 ∨ c = 1 ∨ c = 2 := by
      have hlt : c < 3 := hc
      omega
    rcases hcases with rfl | rfl | rfl <;> exact Nat.le_of_eq (Nat.zero_div 16)

theorem stagedSample_column (slot : Nat × Nat) :
    stagedSample.slotColumn 0 0 slot = ((0 : ℝ), fun _ => 1) := by
  refine Prod.ext ?_ ?_
  · simp [StagedArgs.slotColumn, stagedSample]
  · funext d
    simp [StagedArgs.slotColumn, stagedSample]

theorem stagedSample_above : stagedSample.ScoresAbove := by
  intro row hrow head hhead token _
  have hhead' : head < 1 := hhead
  obtain rfl : head = 0 := by omega
  rw [List.mem_singleton.mp hrow, stagedSample_column]
  simp [scoreSentinel]

/-- Two rows over two pages and an arena of one page: each row selects one token in all
its columns, in the page of its own bucket. -/
noncomputable def bucketSample : StagedArgs ℝ where
  q := ⟨2, 1, 16, fun _ _ _ => 0⟩
  kvCache := ⟨2, 1, 16, 16, fun _ _ _ _ => 0⟩
  logicalIndices := ⟨2, 3, fun row _ => 16 * row + 1⟩
  blockTableRow := [1, 0]
  rows := [0, 1]
  maxLogicalPage := 1
  arenaPages := 1
  blockN := 32
  softmaxScaleLog2 := 1

def bucketTable : PageTable := ⟨1, 2, fun _ page => 1 - page⟩

theorem bucketSampleShapes : AttentionShapes bucketSample.q bucketSample.kvCache.keys
    bucketSample.kvCache.values bucketSample.logicalIndices bucketTable [0, 0]
    bucketSample.q where
  caches := rfl
  indices := rfl
  tokenToReq := rfl
  nonempty := ⟨⟨Nat.succ_pos 1, Nat.succ_pos 15, Nat.one_pos⟩, Nat.one_pos, Nat.succ_pos 1⟩
  width := Nat.succ_pos 2
  heads := ⟨rfl, rfl⟩
  headDim := ⟨Nat.le_refl 16, rfl⟩
  out := rfl

theorem bucketSampleInput :
    StagedInput bucketSample (fun _ => (1 : ℝ)) bucketTable [0, 0] 0 where
  arenaPages := Nat.one_pos
  blockN := Nat.succ_pos 31
  scale := rfl
  inTable := Nat.one_pos
  tableRow := rfl
  rows := fun row hrow => by
    have hcases : row = 0 ∨ row = 1 := by simpa [bucketSample] using hrow
    rcases hcases with rfl | rfl
    · exact ⟨Nat.succ_pos 1, rfl⟩
    · exact ⟨Nat.le_refl 2, rfl⟩
  maxPage := Nat.le_refl 2
  pages := fun page hpage => by
    have hle : page ≤ 1 := hpage
    show (0 : Int) ≤ 1 - (page : Int) ∧ 1 - (page : Int) < ((2 : Nat) : Int)
    omega
  tokens := fun row hrow c _ _ => by
    have hcases : row = 0 ∨ row = 1 := by simpa [bucketSample] using hrow
    show (16 * (row : Int) + 1).toNat / 16 ≤ 1
    omega

theorem bucketSample_sameShares (row : Nat) (hrow : row ∈ bucketSample.rows) :
    SameShares (bucketSample.readSlots row) (bucketSample.selectedSlots row) := by
  have hcases : row = 0 ∨ row = 1 := by simpa [bucketSample] using hrow
  rcases hcases with rfl | rfl
  · exact SameShares.replicate Nat.two_pos (Nat.succ_pos 2) ((1, 1) : Nat × Nat)
  · exact SameShares.replicate Nat.two_pos (Nat.succ_pos 2) ((0, 1) : Nat × Nat)

/-- The rows of the two buckets agree on all contents; the first token of a request
does not. -/
theorem matchesDirect_iff_sameShares_samples :
    ((∀ query cache, (stagedSample.withContents query cache).ScoresAbove →
        MatchesDirect stagedSample stagedSample.q
          (qsaSparsePagedAttentionStaged realExp2 (stagedSample.withContents query cache)
            (fun _ _ _ _ => 0) (fun _ _ => State.start 0) stagedSample.q)
          ((stagedSample.withContents query cache).direct realExp2 ⟨32, 1⟩ (fun _ => 1)
            sampleTable [0] stagedSample.q)) ↔
      ∀ row ∈ stagedSample.rows,
        SameShares (stagedSample.readSlots row) (stagedSample.selectedSlots row)) ∧
    bucketSample.numBuckets = 2 ∧
      ∀ query cache, (bucketSample.withContents query cache).ScoresAbove →
        MatchesDirect bucketSample bucketSample.q
          (qsaSparsePagedAttentionStaged realExp2 (bucketSample.withContents query cache)
            (fun _ _ _ _ => 0) (fun _ _ => State.start 0) bucketSample.q)
          ((bucketSample.withContents query cache).direct realExp2 ⟨32, 1⟩ (fun _ => 1)
            bucketTable [0, 0] bucketSample.q) := by
  have hprefill : Profile.Ok ⟨32, 1⟩ := ⟨Nat.succ_pos 31, Nat.one_pos⟩
  refine ⟨matchesDirect_iff_sameShares hprefill stagedSampleShapes Nat.one_pos
    stagedSampleInput _ _ _, rfl, ?_⟩
  exact (matchesDirect_iff_sameShares hprefill bucketSampleShapes Nat.one_pos
    bucketSampleInput _ _ _).mpr bucketSample_sameShares

/-- The only token of the row is dropped: the staged path writes zero where the direct one
writes the token's value. -/
theorem staged_drops_firstToken :
    qsaSelectPagedTokens (fun _ _ => 9) sortingPlatform (fun _ => (1 : ℝ))
        ⟨1, 1, 16, fun _ _ _ => 1⟩ ⟨1, 8, 16, fun _ _ _ => 1⟩ sampleTable
        ⟨[0], [0], [1]⟩ 2 2 none = .ok [[0, -1, -1]] ∧
      (∀ column < 3, stagedSample.logicalIndices.data 0 column =
        [0, -1, -1].getD column 0) ∧
      StagedInput stagedSample (fun _ => (1 : ℝ)) sampleTable [0] 0 ∧
      ¬ MatchesDirect stagedSample stagedSample.q
        (qsaSparsePagedAttentionStaged realExp2 stagedSample (fun _ _ _ _ => 0)
          (fun _ _ => State.start 0) stagedSample.q)
        (stagedSample.direct realExp2 ⟨32, 1⟩ (fun _ => 1) sampleTable [0]
          stagedSample.q) := by
  refine ⟨?_, by decide, stagedSampleInput, ?_⟩
  · have hshape : ShapesOk (fun _ => (1 : ℝ)) ⟨1, 1, 16, fun _ _ _ => 1⟩
        ⟨1, 8, 16, fun _ _ _ => 1⟩ sampleTable ⟨[0], [0], [1]⟩ 2 2 none :=
      { heads := ⟨Nat.one_pos, Nat.succ_pos 15⟩
        headDim := rfl
        nonempty := ⟨⟨Nat.one_pos, Nat.succ_pos 7⟩, Nat.one_pos, Nat.one_pos⟩
        tokenToReq := rfl
        queryPositions := rfl
        sequenceLengths := rfl
        ratio_pos := Nat.two_pos
        ratio_dvd := rfl
        scoreDivisor := one_pos
        out_eq := rfl }
    obtain ⟨out, hrun, hlen, hrows⟩ := selectWithWorkspace_ok sortingPlatform_lawful
      (fun h => h) hshape logitsWorkspaceBytes fun _ _ => 9
    obtain ⟨row, rfl⟩ : ∃ row, out = [row] := List.length_eq_one_iff.mp hlen
    obtain ⟨sel, hsel, hrow⟩ := (hrows 0 row rfl).2 0 1
      ⟨⟨Int.le_refl 0, Int.zero_lt_one⟩, rfl, rfl, Nat.one_pos, Nat.zero_le _⟩
    obtain rfl : sel = [] := List.length_eq_zero_iff.mp hsel.length
    exact hrun.trans (by rw [hrow]; rfl)
  · have hprefill : Profile.Ok ⟨32, 1⟩ := ⟨Nat.succ_pos 31, Nat.one_pos⟩
    obtain ⟨x, y, hx, hy, hxdata, hydata⟩ := runs_eq (E := realExp2) hprefill
      stagedSampleShapes stagedSampleInput stagedSample_above (fun _ _ _ _ => 0)
      (fun _ _ => State.start 0) stagedSample.q
    rintro ⟨x', y', hx', hy', hdata⟩
    cases hx.symm.trans hx'
    cases hy.symm.trans hy'
    have hrow : 0 ∈ stagedSample.rows := List.mem_singleton.mpr rfl
    have hin : 0 ∈ stagedSample.rows ∧ 0 < stagedSample.q.heads ∧ 0 < stagedSample.q.headDim :=
      ⟨hrow, Nat.one_pos, Nat.succ_pos 15⟩
    have hread : stagedSample.readSlots 0 = [] := rfl
    have hall : stagedSample.selectedSlots 0 = [(0, 0)] := rfl
    have hagree := hdata 0 0 0
    rw [if_pos hin, hxdata, if_pos hin, hydata 0 hrow 0 hin.2.1 0 hin.2.2, hread, hall,
      List.map_nil, mean_nil, List.map_singleton, mean_singleton, stagedSample_column] at hagree
    exact zero_ne_one hagree

end Sample

end FlashNext.Ports.Qsa
