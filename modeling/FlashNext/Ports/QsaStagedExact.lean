import FlashNext.Ports.QsaSelectBatch
import FlashNext.Ports.QsaStaged

/-!
# What the staged path computes

A bucket absorbs the columns whose pages it stages, so all buckets together absorb the
columns that are read, each once.  A handled row gets the mean over the columns before
the last one and before the tile bound.
-/

namespace FlashNext.Ports.Qsa

open FlashNext.Verified.Checked
open FlashNext.Verified.Groups
open FlashNext.Verified.OnlineSoftmax

variable {F : Type} [Field F] [LinearOrder F]

/-! ## The columns of a row -/

section Columns

variable (args : StagedArgs F)

/-- The place of a token in the cache: its physical page and its offset there. -/
def StagedArgs.slot (token : Nat) : Nat × Nat :=
  ((args.blockTableRow.getD (token / args.kvCache.pageSize) 0).toNat,
    token % args.kvCache.pageSize)

/-- The tokens in the first `n` columns of a row. -/
def StagedArgs.tokens (row n : Nat) : List Nat :=
  (List.range n).filterMap fun c =>
    if 0 ≤ args.logicalIndices.data row c then some (args.logicalIndices.data row c).toNat
    else none

/-- How many columns of a row the kernel loads. -/
def StagedArgs.columnsRead (row : Nat) : Nat :=
  min ((tileEnd (args.logicalIndices.data row args.selectionWidth) args.selectionWidth
    args.numTiles args.blockN).toNat * args.blockN) args.selectionWidth

/-- The score and the value at a place in the cache, for a row and a head. -/
def StagedArgs.slotColumn (row head : Nat) (slot : Nat × Nat) : F × (Nat → F) :=
  let kvHead := head / (args.q.heads / args.kvCache.numKvHeads)
  (((List.range args.q.headDim).map fun d =>
      args.q.data row head d * args.kvCache.data slot.1 kvHead slot.2 d).sum *
        args.softmaxScaleLog2,
    fun d => args.kvCache.data slot.1 kvHead slot.2 (args.kvCache.headDim + d))

/-- The bucket that stages a token. -/
def StagedArgs.bucketOf (token : Nat) : Nat :=
  token / args.kvCache.pageSize / args.arenaPages

/-- The columns that the buckets before `k` absorb. -/
def StagedArgs.absorbed (row head k : Nat) : List (F × (Nat → F)) :=
  ((List.range k).flatMap fun bucket => (args.tokens row (args.columnsRead row)).filter
    fun token => args.bucketOf token = bucket).map
      fun token => args.slotColumn row head (args.slot token)

end Columns

/-- What a caller of the staged path provides: the rows of one request, its row of the
block table with pages in range up to `max_logical_page`, and no token beyond that. -/
structure StagedInput (args : StagedArgs F) (softmaxScaleLog2 : Nat → F)
    (blockTable : PageTable) (tokenToReq : List Int) (request : Nat) : Prop where
  arenaPages : 0 < args.arenaPages
  blockN : 0 < args.blockN
  scale : args.softmaxScaleLog2 = softmaxScaleLog2 args.q.headDim
  inTable : request < blockTable.numRequests
  tableRow : args.blockTableRow = (List.range blockTable.width).map (blockTable.data request)
  rows : ∀ row ∈ args.rows, row < args.q.rows ∧ tokenToReq.getD row 0 = request
  maxPage : args.maxLogicalPage < blockTable.width
  pages : ∀ page ≤ args.maxLogicalPage, 0 ≤ blockTable.data request page ∧
    blockTable.data request page < args.kvCache.blocks
  tokens : ∀ row ∈ args.rows, ∀ c < args.logicalIndices.width,
    0 ≤ args.logicalIndices.data row c →
      (args.logicalIndices.data row c).toNat / args.kvCache.pageSize ≤ args.maxLogicalPage

section Input

variable {args : StagedArgs F} {softmaxScaleLog2 : Nat → F} {blockTable : PageTable}
  {tokenToReq : List Int} {request : Nat}

omit [Field F] [LinearOrder F] in
theorem mem_tokens {row n token : Nat} : token ∈ args.tokens row n ↔
    ∃ c < n, args.logicalIndices.data row c = token := by
  unfold StagedArgs.tokens
  rw [List.mem_filterMap]
  constructor
  · rintro ⟨c, hc, hsome⟩
    refine ⟨c, List.mem_range.mp hc, ?_⟩
    split at hsome
    · next hnonneg =>
        cases hsome
        exact (Int.toNat_of_nonneg hnonneg).symm
    · cases hsome
  · rintro ⟨c, hc, htoken⟩
    refine ⟨c, List.mem_range.mpr hc, ?_⟩
    rw [htoken, if_pos (Int.natCast_nonneg token), Int.toNat_natCast]

omit [Field F] [LinearOrder F] in
theorem columnsRead_le (args : StagedArgs F) (row : Nat) :
    args.columnsRead row ≤ args.selectionWidth := Nat.min_le_right _ _

omit [Field F] [LinearOrder F] in
theorem mem_tokens_of_read {row token : Nat}
    (h : token ∈ args.tokens row (args.columnsRead row)) :
    token ∈ args.tokens row args.logicalIndices.width := by
  obtain ⟨c, hc, htoken⟩ := mem_tokens.mp h
  have hread := columnsRead_le args row
  unfold StagedArgs.selectionWidth at hread
  exact mem_tokens.mpr ⟨c, by omega, htoken⟩

omit [Field F] [LinearOrder F] in
theorem page_le (hin : StagedInput args softmaxScaleLog2 blockTable tokenToReq request)
    {row token : Nat} (hrow : row ∈ args.rows)
    (h : token ∈ args.tokens row args.logicalIndices.width) :
    token / args.kvCache.pageSize ≤ args.maxLogicalPage := by
  obtain ⟨c, hc, htoken⟩ := mem_tokens.mp h
  have hle := hin.tokens row hrow c hc (htoken ▸ Int.natCast_nonneg token)
  rwa [htoken, Int.toNat_natCast] at hle

omit [Field F] [LinearOrder F] in
theorem tableRow_getD
    (hin : StagedInput args softmaxScaleLog2 blockTable tokenToReq request) {page : Nat}
    (hpage : page ≤ args.maxLogicalPage) :
    args.blockTableRow.getD page 0 = blockTable.data request page := by
  have hlt := Nat.lt_of_le_of_lt hpage hin.maxPage
  rw [hin.tableRow, List.getD_eq_getElem?_getD, List.getElem?_map,
    List.getElem?_range hlt]
  rfl

omit [Field F] [LinearOrder F] in
theorem numBuckets_pos (args : StagedArgs F) (h : 0 < args.arenaPages) :
    0 < args.numBuckets := by
  have hle := le_cdiv_mul (n := args.numPages) h
  have hpages : 0 < args.numPages := Nat.succ_pos _
  exact Nat.pos_of_ne_zero fun hzero => by
    unfold StagedArgs.numBuckets at hzero
    rw [hzero, Nat.zero_mul] at hle
    omega

omit [Field F] [LinearOrder F] in
theorem bucketOf_lt (hin : StagedInput args softmaxScaleLog2 blockTable tokenToReq request)
    {token : Nat} (hpage : token / args.kvCache.pageSize ≤ args.maxLogicalPage) :
    args.bucketOf token < args.numBuckets := by
  unfold StagedArgs.bucketOf
  rw [Nat.div_lt_iff_lt_mul hin.arenaPages]
  exact Nat.lt_of_lt_of_le (Nat.lt_succ_of_le hpage) (le_cdiv_mul hin.arenaPages)

/-! ## One bucket -/

omit [LinearOrder F] in
/-- A column of a bucket is read when the bucket stages its token. -/
theorem stagedColumn_eq (hin : StagedInput args softmaxScaleLog2 blockTable tokenToReq request)
    {bucket pageLo n row head : Nat} {arena : Nat → ArenaPage F}
    (hlo : pageLo = bucket * args.arenaPages)
    (hn : n = min (pageLo + args.arenaPages) args.numPages - pageLo)
    (harena : ∀ page < n,
      arena page = args.kvCache.data (args.blockTableRow.getD (pageLo + page) 0).toNat)
    {token : Int}
    (hpage : 0 ≤ token → token.toNat / args.kvCache.pageSize ≤ args.maxLogicalPage) :
    stagedColumn args arena pageLo n (head / (args.q.heads / args.kvCache.numKvHeads))
        (args.q.data row head) token =
      if 0 ≤ token ∧ args.bucketOf token.toNat = bucket then
        some (args.slotColumn row head (args.slot token.toNat))
      else none := by
  unfold stagedColumn
  dsimp only
  by_cases hneg : token < 0
  · rw [if_neg (fun h => absurd h.1 (not_le.mpr hneg)),
      if_neg (fun h => absurd h.1 (not_le.mpr hneg))]
  · have hnonneg : 0 ≤ token := not_lt.mp hneg
    have hle := hpage hnonneg
    have hmax : (max token 0).toNat = token.toNat := by omega
    have hbucket : args.bucketOf token.toNat = bucket ↔
        pageLo ≤ token.toNat / args.kvCache.pageSize ∧
          token.toNat / args.kvCache.pageSize < pageLo + args.arenaPages := by
      unfold StagedArgs.bucketOf
      rw [Nat.div_eq_iff hin.arenaPages, hlo]
      have hpos := hin.arenaPages
      omega
    obtain ⟨page, hp⟩ : ∃ page, page = token.toNat / args.kvCache.pageSize := ⟨_, rfl⟩
    have hnum : args.numPages = args.maxLogicalPage + 1 := rfl
    rw [← hp] at hle hbucket
    rw [hmax, ← hp]
    by_cases hstaged : pageLo ≤ page ∧ page < pageLo + args.arenaPages
    · have hrel : ((page : Int) - pageLo).toNat = page - pageLo := by omega
      have hlt : page - pageLo < n := by omega
      have hadd : pageLo + (page - pageLo) = page := by omega
      rw [if_pos ⟨hnonneg, by omega, by omega⟩, if_pos ⟨hnonneg, hbucket.mpr hstaged⟩, hrel,
        harena _ hlt, hadd]
      unfold StagedArgs.slotColumn StagedArgs.slot
      rw [← hp]
    · rw [if_neg (by omega), if_neg (fun h => hstaged (hbucket.mp h.2))]

omit [LinearOrder F] in
/-- The columns that a bucket absorbs for a row. -/
theorem bucketColumns_eq
    (hin : StagedInput args softmaxScaleLog2 blockTable tokenToReq request)
    {bucket pageLo n row : Nat} (head : Nat) {arena : Nat → ArenaPage F}
    (hlo : pageLo = bucket * args.arenaPages)
    (hn : n = min (pageLo + args.arenaPages) args.numPages - pageLo)
    (harena : ∀ page < n,
      arena page = args.kvCache.data (args.blockTableRow.getD (pageLo + page) 0).toNat)
    (hrow : row ∈ args.rows) :
    ((List.range (args.columnsRead row)).filterMap fun c =>
        stagedColumn args arena pageLo n (head / (args.q.heads / args.kvCache.numKvHeads))
          (args.q.data row head) (args.logicalIndices.data row c)) =
      ((args.tokens row (args.columnsRead row)).filter
        fun token => args.bucketOf token = bucket).map
          fun token => args.slotColumn row head (args.slot token) := by
  unfold StagedArgs.tokens
  rw [List.filter_filterMap, List.map_filterMap]
  refine List.filterMap_congr fun c hc => ?_
  have hread := columnsRead_le args row
  unfold StagedArgs.selectionWidth at hread
  have hlt := List.mem_range.mp hc
  rw [stagedColumn_eq hin hlo hn harena (hin.tokens row hrow c (by omega))]
  by_cases hnonneg : 0 ≤ args.logicalIndices.data row c
  · by_cases hbucket : args.bucketOf (args.logicalIndices.data row c).toNat = bucket
    · simp [hnonneg, hbucket]
    · simp [hnonneg, hbucket]
  · simp [hnonneg]

omit [LinearOrder F] in
theorem stagedColumn_neg_one (args : StagedArgs F) (arena : Nat → ArenaPage F)
    (pageLo n kvHead : Nat) (query : Nat → F) :
    stagedColumn args arena pageLo n kvHead query (-1) = none := by
  unfold stagedColumn
  dsimp only
  rw [if_neg]
  rintro ⟨hneg, _⟩
  omega

/-- The kernel absorbs the columns before the last one and before the tile bound. -/
theorem stagedState_holds {E : Exp2 F} {column : Int → Option (F × (Nat → F))}
    (indices : Nat → Int) (topk blockN numTiles : Nat) {cols : List (F × (Nat → F))}
    {s : State F (Nat → F)} (hneg : column (-1) = none) (h : Holds E scoreSentinel cols s) :
    Holds E scoreSentinel
      (cols ++ (List.range (min ((tileEnd (indices topk) topk numTiles blockN).toNat * blockN)
        topk)).filterMap fun c => column (indices c))
      (stagedState E column indices topk blockN numTiles s) := by
  have hrun := h.run ((List.range (tileEnd (indices topk) topk numTiles blockN).toNat).map
    (tileColumns column indices topk blockN))
  rw [List.flatMap_map, List.foldl_map] at hrun
  have hcols : (List.range (tileEnd (indices topk) topk numTiles blockN).toNat).flatMap
      (fun tile => (tileColumns column indices topk blockN tile).filterMap id) =
        (List.range (min ((tileEnd (indices topk) topk numTiles blockN).toNat * blockN)
          topk)).filterMap fun c => column (indices c) := by
    simp only [tileColumns_valid]
    rw [← List.filterMap_flatMap, flatMap_members_range, filterMap_load indices hneg]
  rw [← hcols]
  exact hrun

/-! ## The loop over the buckets -/

omit [LinearOrder F] in
theorem absorbed_succ (row head k : Nat) :
    args.absorbed row head (k + 1) = args.absorbed row head k ++
      ((args.tokens row (args.columnsRead row)).filter
        fun token => args.bucketOf token = k).map
          fun token => args.slotColumn row head (args.slot token) := by
  unfold StagedArgs.absorbed
  rw [List.range_succ, List.flatMap_append, List.flatMap_singleton, List.map_append]

/-- What the last bucket stores: every handled row gets the state of one of its local
rows. -/
theorem foldl_storeRow {state : Nat → Nat → State F (Nat → F)}
    {out : Nat → Nat → Nat → F} {row head d : Nat} {x : F} (n : Nat)
    (hstate : ∀ localRow < n, args.rows.getD localRow 0 = row → head < args.q.heads →
      (state localRow head).output normalizerClamp d = x) :
    (List.range n).foldl (storeRow args state) out row head d =
      if (∃ localRow < n, args.rows.getD localRow 0 = row) ∧ head < args.q.heads ∧
          d < args.q.headDim then x
      else out row head d := by
  induction n with
  | zero =>
      rw [if_neg]
      · rfl
      · rintro ⟨⟨localRow, hlt, _⟩, _⟩
        exact absurd hlt (Nat.not_lt_zero _)
  | succ n ih =>
      have ih := ih fun localRow hlt => hstate localRow (Nat.lt_succ_of_lt hlt)
      rw [List.range_succ, List.foldl_append]
      show storeRow args state ((List.range n).foldl (storeRow args state) out) n row head d = _
      unfold storeRow
      by_cases hhere : row = args.rows.getD n 0 ∧ head < args.q.heads ∧ d < args.q.headDim
      · rw [if_pos hhere, if_pos ⟨⟨n, Nat.lt_succ_self n, hhere.1.symm⟩, hhere.2⟩]
        exact hstate n (Nat.lt_succ_self n) hhere.1.symm hhere.2.1
      · rw [if_neg hhere]
        refine ih.trans (if_congr ?_ rfl rfl)
        constructor
        · rintro ⟨⟨localRow, hlt, hrow⟩, hin⟩
          exact ⟨⟨localRow, Nat.lt_succ_of_lt hlt, hrow⟩, hin⟩
        · rintro ⟨⟨localRow, hlt, hrow⟩, hin⟩
          have hne : localRow ≠ n := fun heq => hhere ⟨by rw [← heq, hrow], hin⟩
          exact ⟨⟨localRow, by omega, hrow⟩, hin⟩

/-- After `k` buckets. -/
structure BucketsDone (E : Exp2 F) (args : StagedArgs F) (out : Nat → Nat → Nat → F) (k : Nat)
    (s : StagedLoop F) : Prop where
  state : 0 < k → ∀ localRow < args.rows.length, ∀ head,
    Holds E scoreSentinel (args.absorbed (args.rows.getD localRow 0) head k)
      (s.state localRow head)
  out : s.out = if k = args.numBuckets then
      (List.range args.rows.length).foldl (storeRow args s.state) out else out

theorem bucketStep_ok {E : Exp2 F} {out : Nat → Nat → Nat → F} {bucket : Nat}
    {s : StagedLoop F}
    (hin : StagedInput args softmaxScaleLog2 blockTable tokenToReq request)
    (hbucket : bucket < args.numBuckets) (h : BucketsDone E args out bucket s) :
    ∃ s', bucketStep E args s bucket = .ok s' ∧ BucketsDone E args out (bucket + 1) s' := by
  obtain ⟨pageLo, hlo⟩ : ∃ pageLo, pageLo = bucket * args.arenaPages := ⟨_, rfl⟩
  obtain ⟨n, hn⟩ : ∃ n, n = min (pageLo + args.arenaPages) args.numPages - pageLo := ⟨_, rfl⟩
  obtain ⟨physical, hphysical⟩ : ∃ physical,
      physical = (args.blockTableRow.drop pageLo).take n := ⟨_, rfl⟩
  have hnum : args.numPages = args.maxLogicalPage + 1 := rfl
  have hmax := hin.maxPage
  have hlen : physical.length = n := by
    rw [hphysical, hin.tableRow, List.length_take, List.length_drop, List.length_map,
      List.length_range]
    omega
  have hget : ∀ page < n, physical.getD page 0 = args.blockTableRow.getD (pageLo + page) 0 := by
    intro page hpage
    rw [hphysical, List.getD_eq_getElem?_getD, List.getElem?_take_of_lt hpage,
      List.getElem?_drop, List.getD_eq_getElem?_getD]
  have hok : physical.length = n ∧
      ∀ page ∈ physical, 0 ≤ page ∧ page < args.kvCache.blocks := by
    refine ⟨hlen, fun page hpage => ?_⟩
    obtain ⟨i, hi, rfl⟩ := List.mem_iff_getElem.mp hpage
    have hpages := hin.pages (pageLo + i) (by omega)
    rw [← tableRow_getD hin (by omega), ← hget i (hlen ▸ hi), List.getD_eq_getElem?_getD,
      List.getElem?_eq_getElem hi] at hpages
    exact hpages
  obtain ⟨arena, harena⟩ : ∃ arena : Nat → ArenaPage F, arena = fun page =>
      if page < n then args.kvCache.data (physical.getD page 0).toNat else s.arena page :=
    ⟨_, rfl⟩
  have hstaged : ∀ page < n,
      arena page = args.kvCache.data (args.blockTableRow.getD (pageLo + page) 0).toNat := by
    intro page hpage
    rw [harena, ← hget page hpage]
    exact if_pos hpage
  unfold bucketStep
  dsimp only
  rw [← hlo, ← hn, ← hphysical, require_ok hok, ok_bind, ← harena]
  refine ⟨_, rfl, { state := fun _ localRow hlocal head => ?_, out := ?_ }⟩
  · have hmem : args.rows.getD localRow 0 ∈ args.rows := by
      rw [List.getD_eq_getElem?_getD, List.getElem?_eq_getElem hlocal]
      exact List.getElem_mem hlocal
    have hstart : Holds E scoreSentinel (args.absorbed (args.rows.getD localRow 0) head bucket)
        (if bucket = 0 then State.start scoreSentinel else s.state localRow head) := by
      by_cases hzero : bucket = 0
      · rw [if_pos hzero, hzero]
        exact holds_start
      · rw [if_neg hzero]
        exact h.state (Nat.pos_of_ne_zero hzero) localRow hlocal head
    have hstep := stagedState_holds (args.logicalIndices.data (args.rows.getD localRow 0))
      args.selectionWidth args.blockN args.numTiles
      (stagedColumn_neg_one args arena pageLo n
        (head / (args.q.heads / args.kvCache.numKvHeads))
        (args.q.data (args.rows.getD localRow 0) head)) hstart
    have hcols := bucketColumns_eq hin head hlo hn hstaged hmem
    unfold StagedArgs.columnsRead at hcols
    rw [hcols] at hstep
    rw [absorbed_succ]
    exact hstep
  · dsimp only
    have hold := h.out
    rw [if_neg (Nat.ne_of_lt hbucket)] at hold
    rw [hold]
    exact if_congr (by omega) rfl rfl

theorem bucketLoop_ok {E : Exp2 F} {out : Nat → Nat → Nat → F} {s : StagedLoop F}
    (hin : StagedInput args softmaxScaleLog2 blockTable tokenToReq request)
    (h : BucketsDone E args out 0 s) (k : Nat) (hk : k ≤ args.numBuckets) :
    ∃ s', (List.range k).foldlM (bucketStep E args) s = .ok s' ∧
      BucketsDone E args out k s' := by
  induction k with
  | zero => exact ⟨s, rfl, h⟩
  | succ k ih =>
      obtain ⟨t, hrun, ht⟩ := ih (Nat.le_of_succ_le hk)
      obtain ⟨s', hstep, hs'⟩ := bucketStep_ok hin hk ht
      refine ⟨s', ?_, hs'⟩
      rw [List.range_succ, List.foldlM_append, hrun, ok_bind]
      show (bucketStep E args t k >>= fun s => pure s) = _
      rw [hstep]
      rfl

omit [LinearOrder F] in
/-- All buckets together absorb the columns that are read. -/
theorem absorbed_perm
    (hin : StagedInput args softmaxScaleLog2 blockTable tokenToReq request) {row : Nat}
    (hrow : row ∈ args.rows) (head : Nat) :
    (args.absorbed row head args.numBuckets).Perm
      (((args.tokens row (args.columnsRead row)).map args.slot).map
        (args.slotColumn row head)) := by
  have hcut := flatMap_filter_perm args.bucketOf (args.tokens row (args.columnsRead row))
    args.numBuckets
  have hall : (args.tokens row (args.columnsRead row)).filter
      (fun token => args.bucketOf token < args.numBuckets) =
        args.tokens row (args.columnsRead row) := by
    rw [List.filter_eq_self]
    exact fun token htoken =>
      decide_eq_true (bucketOf_lt hin (page_le hin hrow (mem_tokens_of_read htoken)))
  rw [hall] at hcut
  rw [List.map_map]
  exact hcut.map _

/-- A handled row gets the mean over the columns that are read; other rows keep what
they held. -/
theorem qsaSparsePagedAttentionStaged_run [IsStrictOrderedRing F] (E : Exp2 F)
    (hin : StagedInput args softmaxScaleLog2 blockTable tokenToReq request)
    (habove : ∀ row ∈ args.rows, ∀ head < args.q.heads,
      ∀ token ∈ args.tokens row args.logicalIndices.width,
        scoreSentinel < (args.slotColumn row head (args.slot token)).1)
    (arena : Nat → ArenaPage F) (workspace : Nat → Nat → State F (Nat → F)) (out : Query F) :
    ∃ result, qsaSparsePagedAttentionStaged E args arena workspace out = .ok result ∧
      result.shape = out.shape ∧
      ∀ row head d, result.data row head d =
        if row ∈ args.rows ∧ head < args.q.heads ∧ d < args.q.headDim then
          mean E (((args.tokens row (args.columnsRead row)).map args.slot).map
            (args.slotColumn row head)) d
        else out.data row head d := by
  unfold qsaSparsePagedAttentionStaged
  by_cases hzero : args.rows.length = 0
  · rw [if_pos hzero]
    refine ⟨out, rfl, rfl, fun row head d => ?_⟩
    rw [List.length_eq_zero_iff.mp hzero, if_neg (fun h => by cases h.1)]
  · have hbuckets := numBuckets_pos args hin.arenaPages
    have hstart : BucketsDone E args out.data 0 ⟨arena, workspace, out.data⟩ :=
      { state := fun hlt => absurd hlt (Nat.lt_irrefl 0)
        out := (if_neg (Nat.ne_of_lt hbuckets)).symm }
    obtain ⟨s, hrun, hs⟩ := bucketLoop_ok hin hstart args.numBuckets (Nat.le_refl _)
    have hout := hs.out
    rw [if_pos rfl] at hout
    rw [if_neg hzero, hrun]
    refine ⟨{ out with data := s.out }, rfl, rfl, fun row head d => ?_⟩
    show s.out row head d = _
    have hmem : (∃ localRow < args.rows.length, args.rows.getD localRow 0 = row) ↔
        row ∈ args.rows := by
      rw [List.mem_iff_getElem]
      constructor
      · rintro ⟨i, hi, hget⟩
        rw [List.getD_eq_getElem?_getD, List.getElem?_eq_getElem hi] at hget
        exact ⟨i, hi, hget⟩
      · rintro ⟨i, hi, hget⟩
        refine ⟨i, hi, ?_⟩
        rw [List.getD_eq_getElem?_getD, List.getElem?_eq_getElem hi]
        exact hget
    rw [hout, foldl_storeRow args.rows.length]
    · exact if_congr (and_congr_left' hmem) rfl rfl
    · intro localRow hlocal hrow hhead
      have hin_rows := hmem.mp ⟨localRow, hlocal, hrow⟩
      have hholds := hs.state hbuckets localRow hlocal head
      have hperm := absorbed_perm hin hin_rows head
      rw [hrow] at hholds
      rw [hholds.output_eq ?_ normalizerClamp_le_one, mean_perm hperm]
      intro c hc
      obtain ⟨slot, hslot, rfl⟩ := List.mem_map.mp (hperm.mem_iff.mp hc)
      obtain ⟨token, htoken, rfl⟩ := List.mem_map.mp hslot
      exact habove row hin_rows head hhead token (mem_tokens_of_read htoken)

end Input

end FlashNext.Ports.Qsa
