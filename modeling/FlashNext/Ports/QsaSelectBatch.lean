import Mathlib.Data.List.Sort
import Mathlib.Data.Rat.Defs
import Mathlib.Algebra.Order.Ring.Rat
import Mathlib.Algebra.Field.Rat
import FlashNext.Ports.QsaSelectRows

/-!
# QSA token selection: the batch

Every chunk writes the rows it covers, whatever the buffer of the selected groups held
before.  The number of its rows picks the top-k operation, so a row depends on the chunks
where the operations break a tie in different ways, and only there.
-/

namespace FlashNext.Ports.Qsa

open FlashNext.Verified.Checked

variable {F : Type} [Field F] [LinearOrder F]

/-! ## The top-k operation -/

/-- Distinct visible groups of maximal score. -/
structure SelectsTopK (logits : List (WithBot F)) (visible k : Nat) (sel : List Nat) :
    Prop where
  length : sel.length = min visible k
  nodup : sel.Nodup
  lt_visible : ∀ b ∈ sel, b < visible
  maximal : ∀ b ∈ sel, ∀ c < visible, c ∉ sel → logits.getD c ⊥ ≤ logits.getD b ⊥

/-- No visible group that is left out has the score of a selected one. -/
def TieFree (logits : List (WithBot F)) (visible k : Nat) : Prop :=
  ∀ sel, SelectsTopK logits visible k sel →
    ∀ b ∈ sel, ∀ c < visible, c ∉ sel → logits.getD c ⊥ ≠ logits.getD b ⊥

section TieFree

variable {logits : List (WithBot F)} {visible k : Nat} {sel sel' : List Nat}

omit [Field F] in
theorem SelectsTopK.subset (hfree : TieFree logits visible k)
    (h : SelectsTopK logits visible k sel) (h' : SelectsTopK logits visible k sel') :
    sel' ⊆ sel := by
  intro c hc
  by_contra hnot
  -- as many groups are selected in `sel`, so one of them is left out of `sel'`
  obtain ⟨b, hb, hb'⟩ : ∃ b ∈ sel, b ∉ sel' := by
    by_contra hall
    push Not at hall
    have hsub : sel ⊆ sel'.erase c := fun b hb =>
      (h'.nodup.mem_erase_iff).mpr ⟨fun heq => hnot (heq ▸ hb), hall b hb⟩
    have hle := (h.nodup.subperm hsub).length_le
    rw [List.length_erase_of_mem hc, h.length, h'.length] at hle
    have hpos := List.length_pos_of_mem hc
    rw [h'.length] at hpos
    omega
  have hle := h.maximal b hb c (h'.lt_visible c hc) hnot
  have hge := h'.maximal c hc b (h.lt_visible b hb) hb'
  exact hfree sel h b hb c (h'.lt_visible c hc) hnot (le_antisymm hle hge)

omit [Field F] in
/-- Without a tie the selection is unique up to the order of its groups. -/
theorem SelectsTopK.perm (hfree : TieFree logits visible k)
    (h : SelectsTopK logits visible k sel) (h' : SelectsTopK logits visible k sel') :
    sel'.Perm sel :=
  (List.perm_ext_iff_of_nodup h'.nodup h.nodup).mpr fun _ =>
    ⟨fun hmem => h.subset hfree h' hmem, fun hmem => h'.subset hfree h hmem⟩

omit [Field F] in
theorem tieFree_of_ne (hne : ∀ b < visible, ∀ c < visible, b ≠ c →
    logits.getD c ⊥ ≠ logits.getD b ⊥) : TieFree logits visible k :=
  fun _ hsel b hb c hc hnot =>
    hne b (hsel.lt_visible b hb) c hc fun heq => hnot (heq ▸ hb)

end TieFree

/-- What may be selected for a row: its logits, the number of visible groups, the number
of places and the selection. -/
abbrev Choice (F : Type) := List (WithBot F) → Nat → Nat → List Nat → Prop

/-- The operation puts a selection that `chosen` allows first in every row of its chunk;
the places behind it may keep what they held. -/
structure TopK.Picks (op : TopK F) (chosen : Choice F) : Prop where
  length : ∀ {logits visible blocks k}, blocks.length = logits.length →
    (op logits visible blocks k).length = logits.length
  width : ∀ {logits visible blocks k}, blocks.length = logits.length →
    (∀ row ∈ blocks, row.length = k) → ∀ row ∈ op logits visible blocks k, row.length = k
  picks : ∀ {logits visible blocks k}, blocks.length = logits.length →
    (∀ row ∈ blocks, row.length = k) → ∀ {i n : Nat} {row : List (WithBot F)},
    logits[i]? = some row → visible[i]? = some (n : Int) → n ≤ row.length →
    ∃ sel, chosen row n k sel ∧
      ((op logits visible blocks k).getD i []).take (min n k) = sel.map Int.ofNat

structure Platform.Picks (platform : Platform F) (chosen : Choice F) : Prop where
  cooperative : platform.cooperativeTopk.Picks chosen
  persistent : platform.persistentTopk.Picks chosen
  perRow : platform.topKPerRowDecode.Picks chosen

/-- Each operation returns distinct visible groups of maximal score; ties are its own
affair, and so is the order. -/
def Platform.Lawful (platform : Platform F) : Prop := platform.Picks SelectsTopK

omit [Field F] [LinearOrder F] in
theorem Platform.Picks.topK {platform : Platform F} {chosen : Choice F}
    (h : platform.Picks chosen) (rows columns : Nat) :
    (platform.topK rows columns).Picks chosen := by
  unfold Platform.topK
  dsimp only
  split
  · exact h.cooperative
  · split
    · exact h.persistent
    · exact h.perRow

omit [Field F] [LinearOrder F] in
theorem TopK.Picks.and {op : TopK F} {chosen chosen' : Choice F} (h : op.Picks chosen)
    (h' : op.Picks chosen') :
    op.Picks fun logits visible k sel =>
      chosen logits visible k sel ∧ chosen' logits visible k sel where
  length := h.length
  width := h.width
  picks := by
    intro logits visible blocks k hlen hwidth i n row hrow hn hle
    obtain ⟨sel, hsel, hentries⟩ := h.picks hlen hwidth hrow hn hle
    obtain ⟨sel', hsel', hentries'⟩ := h'.picks hlen hwidth hrow hn hle
    have heq : sel = sel' := List.map_injective_iff.mpr (fun _ _ h => Int.ofNat.inj h)
      (hentries.symm.trans hentries')
    exact ⟨sel, ⟨hsel, heq ▸ hsel'⟩, hentries⟩

omit [Field F] [LinearOrder F] in
theorem TopK.Picks.mono {op : TopK F} {chosen chosen' : Choice F} (h : op.Picks chosen)
    (himp : ∀ logits visible k sel, chosen logits visible k sel →
      chosen' logits visible k sel) : op.Picks chosen' where
  length := h.length
  width := h.width
  picks := by
    intro logits visible blocks k hlen hwidth i n row hrow hn hle
    obtain ⟨sel, hsel, hentries⟩ := h.picks hlen hwidth hrow hn hle
    exact ⟨sel, himp row n k sel hsel, hentries⟩

omit [Field F] [LinearOrder F] in
theorem Platform.Picks.mono {platform : Platform F} {chosen chosen' : Choice F}
    (h : platform.Picks chosen) (himp : ∀ logits visible k sel, chosen logits visible k sel →
      chosen' logits visible k sel) : platform.Picks chosen' where
  cooperative := h.cooperative.mono himp
  persistent := h.persistent.mono himp
  perRow := h.perRow.mono himp

omit [Field F] [LinearOrder F] in
theorem Platform.Picks.and {platform : Platform F} {chosen chosen' : Choice F}
    (h : platform.Picks chosen) (h' : platform.Picks chosen') :
    platform.Picks fun logits visible k sel =>
      chosen logits visible k sel ∧ chosen' logits visible k sel where
  cooperative := h.cooperative.and h'.cooperative
  persistent := h.persistent.and h'.persistent
  perRow := h.perRow.and h'.perRow

/-! ## Slices -/

theorem slice_length {α : Type} {xs : List α} {start n : Nat} (h : start + n ≤ xs.length) :
    (slice xs start n).length = n := by
  rw [slice, List.length_take, List.length_drop]
  omega

theorem slice_getD {α : Type} {xs : List α} {start n i : Nat} (d : α) (hi : i < n) :
    (slice xs start n).getD i d = xs.getD (start + i) d := by
  rw [slice, List.getD_eq_getElem?_getD, List.getElem?_take_of_lt hi, List.getElem?_drop,
    List.getD_eq_getElem?_getD]

variable {q : Query F} {kCache : KeyCache F} {pageTable : PageTable} {args : RowArgs}
  {sqrt : Nat → F} {compressRatio start n i : Nat}

theorem request_slice (args : RowArgs) (start : Nat) (hi : i < n) :
    (args.slice start n).request i = args.request (start + i) := slice_getD 0 hi

theorem position_slice (args : RowArgs) (start : Nat) (hi : i < n) :
    (args.slice start n).position i = args.position (start + i) := slice_getD 0 hi

theorem visible_slice (args : RowArgs) (start numRequests compressRatio : Nat) (hi : i < n) :
    (args.slice start n).visible numRequests compressRatio i =
      args.visible numRequests compressRatio (start + i) := by
  unfold RowArgs.visible
  rw [request_slice args start hi, position_slice args start hi]
  rfl

omit [LinearOrder F] in
theorem mqaRow_slice [LinearOrder F] (scoreDivisor : F) (hi : i < n) :
    mqaRow (q.slice start n) kCache pageTable (args.slice start n) compressRatio
        scoreDivisor i =
      mqaRow q kCache pageTable args compressRatio scoreDivisor (start + i) := by
  unfold mqaRow
  rw [request_slice args start hi, visible_slice args start _ _ hi]
  rfl

/-! ## Shapes -/

/-- The shapes that the functions check. -/
structure ShapesOk (sqrt : Nat → F) (q : Query F) (kCache : KeyCache F)
    (pageTable : PageTable) (args : RowArgs) (tokenTopk compressRatio : Nat)
    (outShape : Option (Nat × Nat)) : Prop where
  heads : 0 < q.heads ∧ 0 < q.headDim
  headDim : kCache.headDim = q.headDim
  nonempty : (0 < kCache.numPages ∧ 0 < kCache.pageSize) ∧
    0 < pageTable.numRequests ∧ 0 < pageTable.width
  tokenToReq : args.tokenToReq.length = q.rows
  queryPositions : args.queryPositions.length = q.rows
  sequenceLengths : args.sequenceLengths.length = pageTable.numRequests
  ratio_pos : 0 < compressRatio
  ratio_dvd : tokenTopk % compressRatio = 0
  scoreDivisor : 0 < sqrt q.headDim
  out_eq : outShape.getD (q.rows, outputWidth tokenTopk compressRatio) =
    (q.rows, outputWidth tokenTopk compressRatio)

section Chunks

variable {tokenTopk : Nat} {outShape : Option (Nat × Nat)}
  (hshape : ShapesOk sqrt q kCache pageTable args tokenTopk compressRatio outShape)

include hshape

theorem qsaMqaPaged_slice (hn : start + n ≤ q.rows) :
    qsaMqaPaged sqrt (q.slice start n) kCache pageTable (args.slice start n) compressRatio =
      .ok ((List.range n).map fun i => mqaRow q kCache pageTable args compressRatio
          (sqrt q.headDim) (start + i),
        (List.range n).map fun i =>
          args.visible pageTable.numRequests compressRatio (start + i)) := by
  have htoken := hshape.tokenToReq
  have hpos := hshape.queryPositions
  have hrows : (List.range n).map (mqaRow (q.slice start n) kCache pageTable
      (args.slice start n) compressRatio (sqrt q.headDim)) =
      (List.range n).map fun i => mqaRow q kCache pageTable args compressRatio
        (sqrt q.headDim) (start + i) :=
    List.map_congr_left fun i hi => mqaRow_slice _ (List.mem_range.mp hi)
  have hvisible : (List.range n).map
      ((args.slice start n).visible pageTable.numRequests compressRatio) =
      (List.range n).map fun i =>
        args.visible pageTable.numRequests compressRatio (start + i) :=
    List.map_congr_left fun i hi => visible_slice args start _ _ (List.mem_range.mp hi)
  have hheads : 0 < (q.slice start n).heads ∧ 0 < (q.slice start n).headDim := hshape.heads
  have hheadDim : kCache.headDim = (q.slice start n).headDim := hshape.headDim
  have htoken' : (args.slice start n).tokenToReq.length = (q.slice start n).rows :=
    slice_length (by omega)
  have hpos' : (args.slice start n).queryPositions.length = (q.slice start n).rows :=
    slice_length (by omega)
  have hseq : (args.slice start n).sequenceLengths.length = pageTable.numRequests :=
    hshape.sequenceLengths
  unfold qsaMqaPaged
  rw [require_ok hheads, ok_bind, require_ok hheadDim, ok_bind,
    require_ok (Or.inr hshape.nonempty), ok_bind, require_ok htoken', ok_bind,
    require_ok hpos', ok_bind, require_ok hseq, ok_bind, require_ok hshape.ratio_pos, ok_bind]
  show (require (0 < sqrt q.headDim) _ >>= _) = _
  rw [require_ok hshape.scoreDivisor, ok_bind]
  show Except.ok ((List.range n).map (mqaRow (q.slice start n) kCache pageTable
      (args.slice start n) compressRatio (sqrt q.headDim)), (List.range n).map
      ((args.slice start n).visible pageTable.numRequests compressRatio)) = _
  rw [hrows, hvisible]

/-- The rows of a chunk, whatever groups were selected for them. -/
theorem expandQsaBlockIndices_slice {blocks : List (List Int)} (hn : start + n ≤ q.rows)
    (hlen : blocks.length = n)
    (hwidth : ∀ row ∈ blocks, row.length = tokenTopk / compressRatio) :
    expandQsaBlockIndices blocks (args.slice start n) compressRatio tokenTopk
        (n, outputWidth tokenTopk compressRatio) =
      .ok ((List.range n).map fun i => expandRow args (tokenTopk / compressRatio)
        compressRatio tokenTopk (blocks.getD i []) (start + i)) := by
  have htoken := hshape.tokenToReq
  have hpos := hshape.queryPositions
  have hpos' : (args.slice start n).queryPositions.length = n := slice_length (by omega)
  have htoken' : (args.slice start n).tokenToReq.length =
      (args.slice start n).queryPositions.length :=
    (slice_length (by omega)).trans hpos'.symm
  have hblocks : blocks.length = (args.slice start n).queryPositions.length ∧
      ∀ row ∈ blocks, row.length = tokenTopk / compressRatio := ⟨hlen.trans hpos'.symm, hwidth⟩
  have hseq : 0 < (args.slice start n).sequenceLengths.length := by
    show 0 < args.sequenceLengths.length
    rw [hshape.sequenceLengths]
    exact hshape.nonempty.2.1
  have hrows : (List.range n).map (fun i => expandRow (args.slice start n)
      (tokenTopk / compressRatio) compressRatio tokenTopk (blocks.getD i []) i) =
      (List.range n).map fun i => expandRow args (tokenTopk / compressRatio)
        compressRatio tokenTopk (blocks.getD i []) (start + i) := by
    refine List.map_congr_left fun i hi => ?_
    have hi' := List.mem_range.mp hi
    unfold expandRow
    rw [request_slice args start hi', position_slice args start hi']
    rfl
  unfold expandQsaBlockIndices
  rw [require_ok hshape.ratio_dvd, ok_bind]
  dsimp only
  rw [require_ok hblocks, ok_bind, require_ok htoken', ok_bind, require_ok hseq, ok_bind,
    require_ok (by rw [hlen]), ok_bind, hlen]
  exact congrArg Except.ok hrows

end Chunks

/-! ## Rows and chunks -/

/-- A row of a request of the batch, at position `p` within its `l` tokens, whose visible
groups are covered by the page table. -/
structure ValidRow (kCache : KeyCache F) (pageTable : PageTable) (args : RowArgs)
    (compressRatio i p l : Nat) : Prop where
  inRange : InRange pageTable.numRequests (args.request i)
  position : args.position i = p
  sequenceLength :
    rowSequenceLength args.sequenceLengths pageTable.numRequests (args.request i) = l
  lt : p < l
  covered : (p + 1) / compressRatio ≤ pageTable.width * kCache.pageSize

/-- The row of a selection. -/
def selectedRow (r k p : Nat) (sel : List Nat) : List Int :=
  (selectedTokens r p sel).map Int.ofNat ++
    List.replicate (k * r + r - 1 - (selectedTokens r p sel).length) (-1)

/-- What is written for row `i`. -/
def RowOk (chosen : Choice F) (sqrt : Nat → F)
    (q : Query F) (kCache : KeyCache F) (pageTable : PageTable) (args : RowArgs)
    (tokenTopk compressRatio i : Nat) (row : List Int) : Prop :=
  (¬ InRange pageTable.numRequests (args.request i) →
    row = List.replicate (outputWidth tokenTopk compressRatio) (-1)) ∧
  ∀ p l, ValidRow kCache pageTable args compressRatio i p l →
    ∃ sel, chosen (mqaRow q kCache pageTable args compressRatio (sqrt q.headDim) i)
        ((p + 1) / compressRatio) (tokenTopk / compressRatio) sel ∧
      row = selectedRow compressRatio (tokenTopk / compressRatio) p sel

omit [Field F] [LinearOrder F] in
theorem ValidRow.visible_eq {i p l : Nat}
    (h : ValidRow kCache pageTable args compressRatio i p l) :
    args.visible pageTable.numRequests compressRatio i = ((p + 1) / compressRatio : Nat) := by
  unfold RowArgs.visible
  rw [h.position, h.sequenceLength, visibleBlocks_of_lt h.lt]

section Loop

variable {tokenTopk rowsPerChunk : Nat} {outShape : Option (Nat × Nat)}
  {platform : Platform F} {chosen : Choice F}
  (hpicks : platform.Picks chosen)
  (hchosen : ∀ {logits visible k sel}, chosen logits visible k sel →
    SelectsTopK logits visible k sel)
  (hshape : ShapesOk sqrt q kCache pageTable args tokenTopk compressRatio outShape)

include hchosen hshape

/-- The expansion of what a top-k operation leaves for a row. -/
theorem expandRow_ok {i : Nat} {left : List Int}
    (hleft : ∀ p l, ValidRow kCache pageTable args compressRatio i p l →
      ∃ sel, chosen (mqaRow q kCache pageTable args compressRatio (sqrt q.headDim) i)
          ((p + 1) / compressRatio) (tokenTopk / compressRatio) sel ∧
        left.take (min ((p + 1) / compressRatio) (tokenTopk / compressRatio)) =
          sel.map Int.ofNat) :
    RowOk chosen sqrt q kCache pageTable args tokenTopk compressRatio i
      (expandRow args (tokenTopk / compressRatio) compressRatio tokenTopk left i) := by
  have hr := hshape.ratio_pos
  have hk : tokenTopk / compressRatio * compressRatio = tokenTopk :=
    Nat.div_mul_cancel (Nat.dvd_of_mod_eq_zero hshape.ratio_dvd)
  have hwidth : outputWidth tokenTopk compressRatio =
      tokenTopk / compressRatio * compressRatio + compressRatio - 1 := by
    rw [hk]
    rfl
  unfold RowOk expandRow
  rw [hshape.sequenceLengths]
  constructor
  · intro hout
    have hzero : rowSequenceLength args.sequenceLengths pageTable.numRequests
        (args.request i) = 0 := if_neg hout
    rw [hzero]
    refine List.eq_replicate_iff.mpr ⟨by rw [List.length_map, List.length_range], ?_⟩
    intro x hx
    obtain ⟨column, _, rfl⟩ := List.mem_map.mp hx
    exact expandColumn_zero _ column
  · intro p l hvalid
    obtain ⟨sel, hsel, hentries⟩ := hleft p l hvalid
    have htopk := hchosen hsel
    rw [← htopk.length] at hentries
    refine ⟨sel, hsel, ?_⟩
    rw [hvalid.position, hvalid.sequenceLength, hwidth]
    exact expandColumns_eq hr hvalid.lt
      { length := htopk.length, entries := hentries, nodup := htopk.nodup
        visible := htopk.lt_visible }

/-- The chunks before `start` are written. -/
structure ChunkOk (chosen : Choice F) (sqrt : Nat → F)
    (q : Query F) (kCache : KeyCache F) (pageTable : PageTable) (args : RowArgs)
    (tokenTopk compressRatio rowsPerChunk start : Nat) (s : ChunkState) : Prop where
  buffer : s.blocksBuffer.length = min q.rows rowsPerChunk
  bufferWidth : ∀ row ∈ s.blocksBuffer, row.length = tokenTopk / compressRatio
  length : s.out.length = min start q.rows
  rows : ∀ i row, s.out[i]? = some row →
    RowOk chosen sqrt q kCache pageTable args tokenTopk compressRatio i row

include hpicks

theorem chunkStep_ok {s : ChunkState} (hstart : start < q.rows)
    (hs : ChunkOk chosen sqrt q kCache pageTable args tokenTopk compressRatio rowsPerChunk
      start s) :
    ∃ s', chunkStep platform sqrt q kCache pageTable args tokenTopk compressRatio
        rowsPerChunk s start = .ok s' ∧
      ChunkOk chosen sqrt q kCache pageTable args tokenTopk compressRatio rowsPerChunk
        (start + rowsPerChunk) s' := by
  obtain ⟨n, hn⟩ : ∃ n, n = min (start + rowsPerChunk) q.rows - start := ⟨_, rfl⟩
  have hend : start + n ≤ q.rows := by omega
  have hfits : n ≤ s.blocksBuffer.length := by
    rw [hs.buffer]
    omega
  obtain ⟨logits, hlogits⟩ : ∃ logits, logits = (List.range n).map fun i =>
      mqaRow q kCache pageTable args compressRatio (sqrt q.headDim) (start + i) := ⟨_, rfl⟩
  obtain ⟨visible, hvisible⟩ : ∃ visible, visible = (List.range n).map fun i =>
      args.visible pageTable.numRequests compressRatio (start + i) := ⟨_, rfl⟩
  obtain ⟨blocks, hblocks⟩ : ∃ blocks, blocks = platform.topK n
      (pageTable.width * kCache.pageSize) logits visible (s.blocksBuffer.take n)
      (tokenTopk / compressRatio) := ⟨_, rfl⟩
  have hop := hpicks.topK n (pageTable.width * kCache.pageSize)
  have hrows : logits.length = n := by rw [hlogits, List.length_map, List.length_range]
  have hold : (s.blocksBuffer.take n).length = logits.length := by
    rw [List.length_take, hrows]
    omega
  have holdWidth : ∀ row ∈ s.blocksBuffer.take n, row.length = tokenTopk / compressRatio :=
    fun row hrow => hs.bufferWidth row (List.mem_of_mem_take hrow)
  have hlen : blocks.length = n := by rw [hblocks, hop.length hold, hrows]
  have hwidth : ∀ row ∈ blocks, row.length = tokenTopk / compressRatio := by
    rw [hblocks]
    exact hop.width hold holdWidth
  have hleft : ∀ i < n, ∀ p l,
      ValidRow kCache pageTable args compressRatio (start + i) p l →
      ∃ sel, chosen (mqaRow q kCache pageTable args compressRatio (sqrt q.headDim) (start + i))
          ((p + 1) / compressRatio) (tokenTopk / compressRatio) sel ∧
        (blocks.getD i []).take (min ((p + 1) / compressRatio)
          (tokenTopk / compressRatio)) = sel.map Int.ofNat := by
    intro i hi p l hvalid
    have hcovered : (p + 1) / compressRatio ≤ (mqaRow q kCache pageTable args compressRatio
        (sqrt q.headDim) (start + i)).length := by
      rw [mqaRow, List.length_map, List.length_range]
      exact hvalid.covered
    have hat : visible[i]? = some (((p + 1) / compressRatio : Nat) : Int) := by
      rw [hvisible, List.getElem?_map, List.getElem?_range hi, Option.map_some,
        hvalid.visible_eq]
    rw [hblocks]
    refine hop.picks hold holdWidth ?_ hat hcovered
    rw [hlogits, List.getElem?_map, List.getElem?_range hi]
    rfl
  refine ⟨⟨blocks ++ s.blocksBuffer.drop n, s.out ++ (List.range n).map fun i =>
    expandRow args (tokenTopk / compressRatio) compressRatio tokenTopk
      (blocks.getD i []) (start + i)⟩, ?_, ?_⟩
  · unfold chunkStep
    dsimp only
    rw [← hn, qsaMqaPaged_slice hshape hend, ok_bind]
    dsimp only
    rw [← hlogits, ← hvisible, ← hblocks,
      expandQsaBlockIndices_slice hshape hend hlen hwidth]
    rfl
  · refine { buffer := ?_, bufferWidth := ?_, length := ?_, rows := ?_ }
    · have hbuffer := hs.buffer
      rw [List.length_append, List.length_drop, hlen]
      omega
    · intro row hrow
      rcases List.mem_append.mp hrow with hnew | hdrop
      · exact hwidth row hnew
      · exact hs.bufferWidth row (List.mem_of_mem_drop hdrop)
    · rw [List.length_append, List.length_map, List.length_range, hs.length]
      omega
    · intro i row hrow
      have hout := hs.length
      by_cases hi : i < s.out.length
      · rw [List.getElem?_append_left hi] at hrow
        exact hs.rows i row hrow
      · rw [List.getElem?_append_right (by omega), List.getElem?_map] at hrow
        obtain ⟨j, hj, rfl⟩ := Option.map_eq_some_iff.mp hrow
        have hlt : i - s.out.length < n := by
          simpa using (List.getElem?_eq_some_iff.mp hj).1
        rw [List.getElem?_range hlt] at hj
        cases hj
        have hidx : start + (i - s.out.length) = i := by omega
        have hrow := hleft _ hlt
        rw [hidx] at hrow ⊢
        exact expandRow_ok hchosen hshape hrow

theorem chunkLoop_ok (rowsPerChunk start m : Nat) {s : ChunkState}
    (hlast : m = 0 ∨ start + (m - 1) * rowsPerChunk < q.rows)
    (hs : ChunkOk chosen sqrt q kCache pageTable args tokenTopk compressRatio rowsPerChunk
      start s) :
    ∃ s', (List.range' start m rowsPerChunk).foldlM (chunkStep platform sqrt q kCache
        pageTable args tokenTopk compressRatio rowsPerChunk) s = .ok s' ∧
      ChunkOk chosen sqrt q kCache pageTable args tokenTopk compressRatio rowsPerChunk
        (start + m * rowsPerChunk) s' := by
  induction m generalizing start s with
  | zero =>
      refine ⟨s, rfl, ?_⟩
      rw [Nat.zero_mul]
      exact hs
  | succ m ih =>
      have hlt : start + m * rowsPerChunk < q.rows := by
        rcases hlast with hzero | hlt
        · cases hzero
        · exact hlt
      have hstart : start < q.rows := Nat.lt_of_le_of_lt (Nat.le_add_right _ _) hlt
      obtain ⟨t, ht, hok⟩ := chunkStep_ok hpicks hchosen hshape hstart hs
      have hnext : m = 0 ∨ start + rowsPerChunk + (m - 1) * rowsPerChunk < q.rows := by
        cases m with
        | zero => exact Or.inl rfl
        | succ m =>
            right
            rw [Nat.succ_mul] at hlt
            rw [Nat.succ_sub_one]
            omega
      obtain ⟨s', hs', hok'⟩ := ih _ hnext hok
      refine ⟨s', ?_, ?_⟩
      · rw [List.range'_succ, List.foldlM_cons, ht]
        exact hs'
      · have hsum : start + (m + 1) * rowsPerChunk =
            start + rowsPerChunk + m * rowsPerChunk := by
          rw [Nat.succ_mul]
          omega
        rw [hsum]
        exact hok'

end Loop

/-! ## The whole batch -/

section Batch

variable {tokenTopk : Nat} {outShape : Option (Nat × Nat)} {platform : Platform F}
  {chosen : Choice F}

theorem selectWithWorkspace_ok (hpicks : platform.Picks chosen)
    (hchosen : ∀ {logits visible k sel}, chosen logits visible k sel →
      SelectsTopK logits visible k sel)
    (hshape : ShapesOk sqrt q kCache pageTable args tokenTopk compressRatio outShape)
    (workspaceBytes : Nat) (uninit : Nat → Nat → Int) :
    ∃ out, selectWithWorkspace workspaceBytes uninit platform sqrt q kCache pageTable args
        tokenTopk compressRatio outShape = .ok out ∧ out.length = q.rows ∧
      ∀ i row, out[i]? = some row →
        RowOk chosen sqrt q kCache pageTable args tokenTopk compressRatio i row := by
  unfold selectWithWorkspace
  rw [require_ok hshape.out_eq, ok_bind]
  by_cases hzero : q.rows = 0
  · rw [if_pos hzero]
    refine ⟨[], rfl, hzero.symm, fun i row hrow => ?_⟩
    cases hrow
  · obtain ⟨rowsPerChunk, hchunk⟩ : ∃ n, n = max 1
        (workspaceBytes / max (pageTable.width * kCache.pageSize * 4) 1) := ⟨_, rfl⟩
    have hpos : 0 < rowsPerChunk := by omega
    have hcover := Nat.div_add_mod (q.rows + rowsPerChunk - 1) rowsPerChunk
    have hmod := Nat.mod_lt (q.rows + rowsPerChunk - 1) hpos
    have hcomm := Nat.mul_comm rowsPerChunk ((q.rows + rowsPerChunk - 1) / rowsPerChunk)
    have hlast : (q.rows + rowsPerChunk - 1) / rowsPerChunk = 0 ∨
        0 + ((q.rows + rowsPerChunk - 1) / rowsPerChunk - 1) * rowsPerChunk < q.rows := by
      right
      rw [Nat.sub_mul]
      omega
    obtain ⟨s, hrun, hs⟩ := chunkLoop_ok hpicks hchosen hshape rowsPerChunk 0
      _ (s := ⟨(List.range (min q.rows rowsPerChunk)).map fun i =>
        (List.range (tokenTopk / compressRatio)).map (uninit i), []⟩) hlast
      { buffer := by rw [List.length_map, List.length_range]
        bufferWidth := by
          intro row hrow
          obtain ⟨i, _, rfl⟩ := List.mem_map.mp hrow
          rw [List.length_map, List.length_range]
        length := by rw [Nat.zero_min]; rfl
        rows := fun i row hrow => by cases hrow }
    have hlen := hs.length
    refine ⟨s.out, ?_, by omega, hs.rows⟩
    rw [if_neg hzero]
    dsimp only
    rw [require_ok (Nat.pos_iff_ne_zero.mp hshape.ratio_pos), ok_bind, ← hchunk, hrun]
    rfl

/-- The order of the selected groups moves the tokens of a row around. -/
theorem selectedRow_perm {r k p : Nat} {sel sel' : List Nat} (h : sel'.Perm sel) :
    (selectedRow r k p sel').Perm (selectedRow r k p sel) := by
  have htokens : (selectedTokens r p sel').Perm (selectedTokens r p sel) :=
    (h.flatMap_right _).append_right _
  unfold selectedRow
  rw [htokens.length_eq]
  exact (htokens.map _).append_right _

/-- Every row of the batch: a request out of range gets `-1` alone; a position within its
sequence gets the tokens of groups of maximal score and of its open group, each once.  The
size of the chunks shows in a row only through the top-k operation: without a tie the row
holds the same tokens, and where the operations all select the same for it it is the same
row. -/
theorem qsaSelectPagedTokens_spec (hlaw : platform.Lawful)
    (hshape : ShapesOk sqrt q kCache pageTable args tokenTopk compressRatio outShape)
    (uninit : Nat → Nat → Int) :
    ∃ out, qsaSelectPagedTokens uninit platform sqrt q kCache pageTable args tokenTopk
        compressRatio outShape = .ok out ∧ out.length = q.rows ∧
      (∀ i row, out[i]? = some row → ¬ InRange pageTable.numRequests (args.request i) →
        row = List.replicate (outputWidth tokenTopk compressRatio) (-1)) ∧
      (∀ i row p l, out[i]? = some row →
        ValidRow kCache pageTable args compressRatio i p l →
        ∃ sel, SelectsTopK
            (mqaRow q kCache pageTable args compressRatio (sqrt q.headDim) i)
            ((p + 1) / compressRatio) (tokenTopk / compressRatio) sel ∧
          TokenRow compressRatio (tokenTopk / compressRatio) p sel row) ∧
      ∀ workspaceBytes uninit', ∃ out',
        selectWithWorkspace workspaceBytes uninit' platform sqrt q kCache pageTable args
            tokenTopk compressRatio outShape = .ok out' ∧ out'.length = q.rows ∧
          (∀ i, ¬ InRange pageTable.numRequests (args.request i) → out'[i]? = out[i]?) ∧
          (∀ i row row' p l, ValidRow kCache pageTable args compressRatio i p l →
            TieFree (mqaRow q kCache pageTable args compressRatio (sqrt q.headDim) i)
              ((p + 1) / compressRatio) (tokenTopk / compressRatio) →
            out[i]? = some row → out'[i]? = some row' → row'.Perm row) ∧
          ∀ i p l sel, ValidRow kCache pageTable args compressRatio i p l →
            (platform.Picks fun logits visible k picked =>
              logits = mqaRow q kCache pageTable args compressRatio (sqrt q.headDim) i →
                visible = (p + 1) / compressRatio → k = tokenTopk / compressRatio →
                  picked = sel) →
            out'[i]? = out[i]? := by
  obtain ⟨out, hrun, hlen, hrows⟩ :=
    selectWithWorkspace_ok hlaw (fun h => h) hshape logitsWorkspaceBytes uninit
  refine ⟨out, hrun, hlen, fun i row hrow => (hrows i row hrow).1, ?_, ?_⟩
  · intro i row p l hrow hvalid
    obtain ⟨sel, hsel, hrow⟩ := (hrows i row hrow).2 p l hvalid
    have hentries : (sel.map Int.ofNat).take sel.length = sel.map Int.ofNat :=
      List.take_of_length_le (Nat.le_of_eq (List.length_map _))
    rw [hrow]
    exact ⟨sel, hsel, tokenRow_of_selected hshape.ratio_pos
      { length := hsel.length
        entries := hentries
        nodup := hsel.nodup
        visible := hsel.lt_visible }⟩
  · intro workspaceBytes uninit'
    obtain ⟨out', hrun', hlen', hrows'⟩ :=
      selectWithWorkspace_ok hlaw (fun h => h) hshape workspaceBytes uninit'
    -- two outputs of equal length agree at `i` when their rows there do
    have hat : ∀ i : Nat, (∀ row row', out[i]? = some row → out'[i]? = some row' → row' = row) →
        out'[i]? = out[i]? := by
      intro i hsame
      by_cases hlt : i < q.rows
      · have hget := List.getElem?_eq_getElem (show i < out.length by omega)
        have hget' := List.getElem?_eq_getElem (show i < out'.length by omega)
        rw [hget, hget', hsame _ _ hget hget']
      · rw [List.getElem?_eq_none (by omega), List.getElem?_eq_none (by omega)]
    refine ⟨out', hrun', hlen', fun i hout => hat i fun row row' hrow hrow' => ?_, ?_, ?_⟩
    · rw [(hrows i row hrow).1 hout, (hrows' i row' hrow').1 hout]
    · intro i row row' p l hvalid hfree hrow hrow'
      obtain ⟨sel, hsel, hrow⟩ := (hrows i row hrow).2 p l hvalid
      obtain ⟨sel', hsel', hrow'⟩ := (hrows' i row' hrow').2 p l hvalid
      rw [hrow, hrow']
      exact selectedRow_perm (hsel.perm hfree hsel')
    · intro i p l sel₀ hvalid hpicked
      obtain ⟨same, hsame, -, hrowsSame⟩ := selectWithWorkspace_ok (hlaw.and hpicked)
        And.left hshape logitsWorkspaceBytes uninit
      obtain ⟨same', hsame', -, hrowsSame'⟩ := selectWithWorkspace_ok (hlaw.and hpicked)
        And.left hshape workspaceBytes uninit'
      cases hrun.symm.trans hsame
      cases hrun'.symm.trans hsame'
      refine hat i fun row row' hrow hrow' => ?_
      obtain ⟨sel, ⟨-, hsel⟩, hrow⟩ := (hrowsSame i row hrow).2 p l hvalid
      obtain ⟨sel', ⟨-, hsel'⟩, hrow'⟩ := (hrowsSame' i row' hrow').2 p l hvalid
      rw [hrow, hrow', hsel rfl rfl rfl, hsel' rfl rfl rfl]

end Batch

/-! ## Platforms that sort -/

section Sorting

/-- The candidates, best first; a tie keeps their order. -/
def rankedBlocks (logits : List (WithBot F)) (candidates : List Nat) : List Nat :=
  candidates.insertionSort fun b c => logits.getD c ⊥ ≤ logits.getD b ⊥

/-- A tie goes to the earlier group. -/
def sortingSelect (logits : List (WithBot F)) (visible k : Nat) : List Nat :=
  (rankedBlocks logits (List.range visible)).take k

/-- A tie goes to the later group. -/
def latestSelect (logits : List (WithBot F)) (visible k : Nat) : List Nat :=
  (rankedBlocks logits (List.range visible).reverse).take k

/-- A selection for every row, over what the row held. -/
def rowwiseTopK (select : List (WithBot F) → Nat → Nat → List Nat) : TopK F :=
  fun logits visible blocks k => (List.range logits.length).map fun i =>
    let sel := (select (logits.getD i []) (visible.getD i 0).toNat k).map Int.ofNat
    sel ++ (blocks.getD i []).drop sel.length

def sortingPlatform : Platform F where
  isCuda := false
  hasDeviceCapability90 := false
  isDeviceCapabilityFamily120 := false
  cooperativeTopk := rowwiseTopK sortingSelect
  persistentTopk := rowwiseTopK sortingSelect
  topKPerRowDecode := rowwiseTopK sortingSelect

/-- A platform whose two operations break a tie in different ways. -/
def tiePlatform : Platform F where
  isCuda := true
  hasDeviceCapability90 := true
  isDeviceCapabilityFamily120 := false
  cooperativeTopk := rowwiseTopK sortingSelect
  persistentTopk := rowwiseTopK latestSelect
  topKPerRowDecode := rowwiseTopK sortingSelect

omit [Field F] in
theorem rankedBlocks_selects (logits : List (WithBot F)) (visible k : Nat)
    {candidates : List Nat} (hcandidates : candidates.Perm (List.range visible)) :
    SelectsTopK logits visible k ((rankedBlocks logits candidates).take k) := by
  have hperm : (rankedBlocks logits candidates).Perm (List.range visible) :=
    (List.perm_insertionSort _ _).trans hcandidates
  have hsorted : (rankedBlocks logits candidates).Pairwise
      fun b c => logits.getD c ⊥ ≤ logits.getD b ⊥ := by
    have htotal : Std.Total fun b c : Nat => logits.getD c ⊥ ≤ logits.getD b ⊥ :=
      ⟨fun b c => le_total _ _⟩
    have htrans : IsTrans Nat fun b c => logits.getD c ⊥ ≤ logits.getD b ⊥ :=
      ⟨fun b c d hbc hcd => le_trans hcd hbc⟩
    exact List.pairwise_insertionSort _ _
  refine { length := ?_, nodup := ?_, lt_visible := ?_, maximal := ?_ }
  · rw [List.length_take, hperm.length_eq, List.length_range, Nat.min_comm]
  · exact (hperm.nodup_iff.mpr List.nodup_range).sublist (List.take_sublist k _)
  · intro b hb
    exact List.mem_range.mp (hperm.mem_iff.mp (List.mem_of_mem_take hb))
  · intro b hb c hc hnot
    have hmem := hperm.mem_iff.mpr (List.mem_range.mpr hc)
    rw [← List.take_append_drop k (rankedBlocks logits candidates)] at hmem hsorted
    have hdrop := (List.mem_append.mp hmem).resolve_left hnot
    exact (List.pairwise_append.mp hsorted).2.2 b hb c hdrop

omit [Field F] in
theorem sortingSelect_selects (logits : List (WithBot F)) (visible k : Nat) :
    SelectsTopK logits visible k (sortingSelect logits visible k) :=
  rankedBlocks_selects logits visible k (List.Perm.refl _)

omit [Field F] in
theorem latestSelect_selects (logits : List (WithBot F)) (visible k : Nat) :
    SelectsTopK logits visible k (latestSelect logits visible k) :=
  rankedBlocks_selects logits visible k (List.reverse_perm _)

omit [Field F] in
theorem rowwiseTopK_picks {select : List (WithBot F) → Nat → Nat → List Nat}
    (hselect : ∀ logits visible k,
      SelectsTopK logits visible k (select logits visible k)) :
    (rowwiseTopK select).Picks fun logits visible k sel => sel = select logits visible k where
  length := by
    intro logits visible blocks k _
    rw [rowwiseTopK, List.length_map, List.length_range]
  width := by
    intro logits visible blocks k hlen hwidth row hrow
    obtain ⟨i, hi, rfl⟩ := List.mem_map.mp hrow
    have hlt : i < blocks.length := by
      rw [hlen]
      exact List.mem_range.mp hi
    have hold : (blocks.getD i []).length = k := by
      rw [List.getD_eq_getElem?_getD, List.getElem?_eq_getElem hlt]
      exact hwidth _ (List.getElem_mem hlt)
    have hsel := (hselect (logits.getD i []) (visible.getD i 0).toNat k).length
    dsimp only
    rw [List.length_append, List.length_drop, List.length_map, hsel, hold]
    omega
  picks := by
    intro logits visible blocks k _ _ i n row hrow hn _
    have hlt : i < logits.length := (List.getElem?_eq_some_iff.mp hrow).1
    have hlogits : logits.getD i [] = row := by
      rw [List.getD_eq_getElem?_getD, hrow]
      rfl
    have hvisible : (visible.getD i 0).toNat = n := by
      rw [List.getD_eq_getElem?_getD, hn]
      rfl
    have hsel := hselect row n k
    refine ⟨select row n k, rfl, ?_⟩
    rw [rowwiseTopK, List.getD_eq_getElem?_getD, List.getElem?_map, List.getElem?_range hlt,
      Option.map_some, Option.getD_some]
    dsimp only
    rw [hlogits, hvisible, List.take_left' (by rw [List.length_map, hsel.length])]

omit [Field F] in
theorem sortingPlatform_picks : (sortingPlatform (F := F)).Picks fun logits visible k sel =>
    sel = sortingSelect logits visible k where
  cooperative := rowwiseTopK_picks sortingSelect_selects
  persistent := rowwiseTopK_picks sortingSelect_selects
  perRow := rowwiseTopK_picks sortingSelect_selects

omit [Field F] in
theorem sortingPlatform_lawful : (sortingPlatform (F := F)).Lawful :=
  sortingPlatform_picks.mono fun logits visible k _ heq =>
    heq ▸ sortingSelect_selects logits visible k

omit [Field F] in
theorem rowwiseTopK_selects {select : List (WithBot F) → Nat → Nat → List Nat}
    (hselect : ∀ logits visible k,
      SelectsTopK logits visible k (select logits visible k)) :
    (rowwiseTopK select).Picks SelectsTopK :=
  (rowwiseTopK_picks hselect).mono fun logits visible k _ heq => heq ▸ hselect logits visible k

omit [Field F] in
theorem tiePlatform_lawful : (tiePlatform (F := F)).Lawful where
  cooperative := rowwiseTopK_selects sortingSelect_selects
  persistent := rowwiseTopK_selects latestSelect_selects
  perRow := rowwiseTopK_selects sortingSelect_selects

end Sorting

/-! Thirty-three rows of one request whose two visible groups have the same score, with one
place.  One chunk takes them all, or a chunk each. -/

def tieQuery : Query Rat := ⟨33, 1, 1, fun _ _ _ => 0⟩

def tieCache : KeyCache Rat := ⟨1, 4, 1, fun _ _ _ => 0⟩

def tiePageTable : PageTable := ⟨1, 1, fun _ _ => 0⟩

def tieArgs : RowArgs := ⟨List.replicate 33 0, List.replicate 33 1, [2]⟩

theorem tieShapes :
    ShapesOk (fun _ => (1 : Rat)) tieQuery tieCache tiePageTable tieArgs 1 1 none where
  heads := by decide
  headDim := rfl
  nonempty := by decide
  tokenToReq := rfl
  queryPositions := rfl
  sequenceLengths := rfl
  ratio_pos := by decide
  ratio_dvd := rfl
  scoreDivisor := by decide
  out_eq := rfl

/-- The chunks decide: thirty-three rows in one chunk go to the persistent operation,
chunks of one row to the cooperative one, and the two select different groups. -/
theorem qsaSelectPagedTokens_chunks_differ :
    (tiePlatform (F := Rat)).Lawful ∧
      ShapesOk (fun _ => (1 : Rat)) tieQuery tieCache tiePageTable tieArgs 1 1 none ∧
      ValidRow tieCache tiePageTable tieArgs 1 0 1 2 ∧
      ∃ out out', qsaSelectPagedTokens (fun _ _ => 0) tiePlatform (fun _ => (1 : Rat))
          tieQuery tieCache tiePageTable tieArgs 1 1 none = .ok out ∧
        selectWithWorkspace 16 (fun _ _ => 0) tiePlatform (fun _ => (1 : Rat))
          tieQuery tieCache tiePageTable tieArgs 1 1 none = .ok out' ∧
        out[0]? = some [1] ∧ out'[0]? = some [0] := by
  refine ⟨tiePlatform_lawful, tieShapes, ⟨by decide, rfl, rfl, by decide, by decide⟩,
    List.replicate 33 [1], List.replicate 33 [0], ?_, ?_, rfl, rfl⟩
  · decide +kernel
  · decide +kernel

/-! Two rows, the second without a request; two of the three visible groups are kept. -/

def sampleQuery : Query Rat := ⟨2, 1, 1, fun _ _ _ => 1⟩

def sampleCache : KeyCache Rat := ⟨4, 2, 1, fun page offset _ => page * 2 + offset⟩

def samplePageTable : PageTable := ⟨1, 2, fun _ page => 3 - page⟩

def sampleArgs : RowArgs := ⟨[0, -1], [6, 0], [7]⟩

theorem sampleShapes :
    ShapesOk (fun _ => (1 : Rat)) sampleQuery sampleCache samplePageTable sampleArgs 4 2
      none where
  heads := by decide
  headDim := rfl
  nonempty := by decide
  tokenToReq := rfl
  queryPositions := rfl
  sequenceLengths := rfl
  ratio_pos := by decide
  ratio_dvd := rfl
  scoreDivisor := by decide
  out_eq := rfl

theorem sampleRow_valid : ValidRow sampleCache samplePageTable sampleArgs 2 0 6 7 :=
  ⟨by decide, rfl, rfl, by decide, by decide⟩

theorem sampleRow_tieFree :
    TieFree (mqaRow sampleQuery sampleCache samplePageTable sampleArgs 2 (1 : Rat) 0) 3 2 :=
  tieFree_of_ne (by decide +kernel)

theorem qsaSelectPagedTokens_spec_twoRows :
    ∃ out, qsaSelectPagedTokens (fun _ _ => 9) sortingPlatform (fun _ => (1 : Rat)) sampleQuery
        sampleCache samplePageTable sampleArgs 4 2 none = .ok out ∧ out.length = 2 ∧
      (∀ row, out[1]? = some row → row = List.replicate 5 (-1)) ∧
      (∀ row, out[0]? = some row → ∃ sel,
        SelectsTopK
            (mqaRow sampleQuery sampleCache samplePageTable sampleArgs 2 (1 : Rat) 0) 3 2 sel ∧
          TokenRow 2 2 6 sel row) ∧
      ∀ workspaceBytes uninit', ∃ out',
        selectWithWorkspace workspaceBytes uninit' sortingPlatform (fun _ => (1 : Rat))
            sampleQuery sampleCache samplePageTable sampleArgs 4 2 none = .ok out' ∧
          out'[1]? = out[1]? ∧ out'[0]? = out[0]? ∧
          ∀ row row', out[0]? = some row → out'[0]? = some row' → row'.Perm row := by
  obtain ⟨out, hrun, hlen, hout, hvalid, hchunks⟩ :=
    qsaSelectPagedTokens_spec sortingPlatform_lawful sampleShapes fun _ _ => 9
  refine ⟨out, hrun, hlen, fun row hrow => hout 1 row hrow (by decide),
    fun row hrow => hvalid 0 row 6 7 hrow sampleRow_valid, fun workspaceBytes uninit' => ?_⟩
  obtain ⟨out', hrun', -, hnone, hfree, hsame⟩ := hchunks workspaceBytes uninit'
  have hpicked := hsame 0 6 7 (sortingSelect (mqaRow sampleQuery sampleCache samplePageTable
    sampleArgs 2 (1 : Rat) 0) 3 2) sampleRow_valid (sortingPlatform_picks.mono (by
      rintro _ _ _ _ heq rfl rfl rfl
      exact heq))
  exact ⟨out', hrun', hnone 1 (by decide), hpicked, fun row row' hrow hrow' =>
    hfree 0 row row' 6 7 sampleRow_valid sampleRow_tieFree hrow hrow'⟩

end FlashNext.Ports.Qsa
