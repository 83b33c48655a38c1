import FlashNext.Ports.QsaCompressSteps
import FlashNext.Verified.RowMajor

/-!
# What a step of group compression computes

A row that ends a group pools the tokens of the group, old ones from the ring and new
ones from the rows of its request.  The stores put every row in its own slot.
-/

namespace FlashNext.Ports.Qsa

open FlashNext.Verified.Checked
open FlashNext.Verified.RingWindow
open FlashNext.Verified.RowMajor (flat_lt)
open FlashNext.Verified.Varlen

variable {F : Type} [Field F]

/-! ## Storing rows -/

section Store

variable {α : Type} {rows : RawRows α} {slotMapping : List Int} {cache : RowCache α}

theorem storeQsaRow_shape (rows : RawRows α) (slotMapping : List Int) (cache : RowCache α)
    (row : Nat) :
    (storeQsaRow rows slotMapping cache row).numBlocks = cache.numBlocks ∧
      (storeQsaRow rows slotMapping cache row).size = cache.size ∧
      (storeQsaRow rows slotMapping cache row).width = cache.width := by
  unfold storeQsaRow
  dsimp only
  split <;> exact ⟨rfl, rfl, rfl⟩

theorem storeQsaRow_data {row b t d : Nat} (hb : b < cache.numBlocks) (ht : t < cache.size)
    (hd : d < cache.width) :
    (storeQsaRow rows slotMapping cache row).data b t d =
      if slotMapping.getD row 0 = ((b * cache.size + t : Nat) : Int) then rows.data row d
      else cache.data b t d := by
  unfold storeQsaRow
  dsimp only
  have hlt : b * cache.size + t < cache.numBlocks * cache.size := flat_lt hb ht
  by_cases hslot : slotMapping.getD row 0 = ((b * cache.size + t : Nat) : Int)
  · have hcond : 0 ≤ slotMapping.getD row 0 ∧
        slotMapping.getD row 0 < cache.numBlocks * cache.size := by
      rw [hslot]
      exact ⟨Int.natCast_nonneg _, by exact_mod_cast hlt⟩
    have hpos : 0 < cache.size := Nat.lt_of_le_of_lt (Nat.zero_le t) ht
    have hdiv : (b * cache.size + t) / cache.size = b := by
      rw [Nat.mul_comm, Nat.mul_add_div hpos, Nat.div_eq_of_lt ht, Nat.add_zero]
    have hmod : (b * cache.size + t) % cache.size = t := by
      rw [Nat.mul_comm, Nat.mul_add_mod, Nat.mod_eq_of_lt ht]
    rw [if_pos hcond, if_pos hslot, hslot, Int.toNat_natCast, hdiv, hmod]
    exact if_pos ⟨rfl, rfl, hd⟩
  · rw [if_neg hslot]
    by_cases hcond : 0 ≤ slotMapping.getD row 0 ∧
        slotMapping.getD row 0 < cache.numBlocks * cache.size
    · rw [if_pos hcond]
      refine if_neg ?_
      rintro ⟨hblock, htoken, _⟩
      apply hslot
      have hsplit := Nat.div_add_mod (slotMapping.getD row 0).toNat cache.size
      rw [← hblock, ← htoken, Nat.mul_comm] at hsplit
      rw [hsplit, Int.toNat_of_nonneg hcond.1]
    · rw [if_neg hcond]

theorem foldl_store_shape (rows : RawRows α) (slotMapping : List Int) (cache : RowCache α)
    (n : Nat) :
    ((List.range n).foldl (storeQsaRow rows slotMapping) cache).numBlocks =
        cache.numBlocks ∧
      ((List.range n).foldl (storeQsaRow rows slotMapping) cache).size = cache.size ∧
      ((List.range n).foldl (storeQsaRow rows slotMapping) cache).width = cache.width := by
  induction n with
  | zero => exact ⟨rfl, rfl, rfl⟩
  | succ n ih =>
      rw [List.range_succ, List.foldl_append]
      have hlast := storeQsaRow_shape rows slotMapping
        ((List.range n).foldl (storeQsaRow rows slotMapping) cache) n
      exact ⟨hlast.1.trans ih.1, hlast.2.1.trans ih.2.1, hlast.2.2.trans ih.2.2⟩

/-- A slot holds what the rows with this slot carry, or what it held. -/
theorem foldl_store_data {b t d : Nat} {x : α} (hb : b < cache.numBlocks)
    (ht : t < cache.size) (hd : d < cache.width) (n : Nat)
    (hrows : ∀ row < n, slotMapping.getD row 0 = ((b * cache.size + t : Nat) : Int) →
      rows.data row d = x) :
    ((List.range n).foldl (storeQsaRow rows slotMapping) cache).data b t d =
      if ∃ row < n, slotMapping.getD row 0 = ((b * cache.size + t : Nat) : Int) then x
      else cache.data b t d := by
  induction n with
  | zero =>
      rw [if_neg]
      · rfl
      · rintro ⟨row, hlt, _⟩
        exact absurd hlt (Nat.not_lt_zero row)
  | succ n ih =>
      have ih := ih fun row hlt => hrows row (Nat.lt_succ_of_lt hlt)
      obtain ⟨hblocks, hsize, hwidth⟩ := foldl_store_shape rows slotMapping cache n
      rw [List.range_succ, List.foldl_append]
      show (storeQsaRow rows slotMapping
        ((List.range n).foldl (storeQsaRow rows slotMapping) cache) n).data b t d = _
      rw [storeQsaRow_data (by rwa [hblocks]) (by rwa [hsize]) (by rwa [hwidth]), hsize, ih]
      by_cases hhere : slotMapping.getD n 0 = ((b * cache.size + t : Nat) : Int)
      · rw [if_pos hhere, if_pos ⟨n, Nat.lt_succ_self n, hhere⟩]
        exact hrows n (Nat.lt_succ_self n) hhere
      · rw [if_neg hhere]
        refine if_congr ?_ rfl rfl
        constructor
        · rintro ⟨row, hlt, hrow⟩
          exact ⟨row, Nat.lt_succ_of_lt hlt, hrow⟩
        · rintro ⟨row, hlt, hrow⟩
          have hne : row ≠ n := fun heq => hhere (heq ▸ hrow)
          exact ⟨row, by omega, hrow⟩

end Store

/-! ## Shapes -/

/-- The shapes that the function checks. -/
structure CompressShapes (args : CompressArgs F) : Prop where
  ratio : 0 < args.compressRatio
  keys : args.rawKeys.rows = args.tokenToReq.length
  positions : args.rawPositions.rows = args.tokenToReq.length ∧ args.rawPositions.width = 3
  metadata : args.logicalPositions.length = args.tokenToReq.length ∧
    args.compressedSlots.length = args.tokenToReq.length
  layout : args.compressRatio ≤ args.compressorStateCache.size ∧
    args.compressorStateCache.width = args.rawKeys.width
  table : 1 ≤ args.compressorStateBlockTable.width
  starts : 2 ≤ args.queryStartLoc.length
  requests : args.numRequests ≤ args.compressorStateBlockTable.numRequests
  rope : ∀ rope ∈ args.ropeCache, (rope.numBlocks = args.compressorStateCache.numBlocks ∧
    rope.size = args.compressorStateCache.size) ∧ rope.width = 3
  nonempty : args.tokenToReq.length = 0 ∨ (0 < args.compressorStateCache.numBlocks ∧
    0 < args.compressorStateCache.size ∧ 0 < args.compressorStateCache.width) ∧
    0 < args.compressorStateBlockTable.numRequests ∧ 0 < args.compressorStateBlockTable.width

theorem qsaCompressGroupsWithRatio_ok {args : CompressArgs F} (h : CompressShapes args) :
    qsaCompressGroupsWithRatio args =
      .ok (⟨args.tokenToReq.length, args.rawKeys.width, args.pooled⟩,
        ⟨args.tokenToReq.length, 3, args.firstPosition⟩) := by
  unfold qsaCompressGroupsWithRatio
  dsimp only
  rw [require_ok h.ratio, ok_bind, require_ok h.keys, ok_bind, require_ok h.positions,
    ok_bind, require_ok h.metadata, ok_bind, require_ok h.layout, ok_bind,
    require_ok h.table, ok_bind, require_ok h.starts, ok_bind, require_ok h.requests,
    ok_bind, require_ok h.rope, ok_bind, require_ok h.nonempty, ok_bind]
  rfl

/-- The checks of a store. -/
theorem qsaStoreCacheRows_ok {α : Type} (cache : RowCache α) (slotMapping : List Int)
    (rows : RawRows α) (hdims : 0 < cache.numBlocks ∧ 0 < cache.size ∧ 0 < cache.width)
    (hrows : rows.rows = slotMapping.length ∧ rows.width = cache.width) :
    qsaStoreCacheRows cache slotMapping rows =
      .ok ((List.range rows.rows).foldl (storeQsaRow rows slotMapping) cache) := by
  unfold qsaStoreCacheRows
  rw [require_ok hdims, ok_bind, require_ok hrows, ok_bind]
  rfl

/-! ## The rows of a step -/

section Rows

variable {cfg : CompressConfig} {w : CompressWorld F} {b : CompressBatch F} {i o : Nat}
  {p : RequestRows F} {token : RawToken F}

/-- The first row of part `i`. -/
def rowStart (b : CompressBatch F) (i : Nat) : Nat :=
  ((b.parts.take i).map (·.rows.length)).sum

omit [Field F] in
/-- Row `o` of part `i`. -/
theorem batchRows_get (cfg : CompressConfig) (w : CompressWorld F) (hi : b.parts[i]? = some p)
    (ho : p.rows[o]? = some token) :
    (batchRows cfg w b)[rowStart b i + o]? = some (partRow cfg w b.groupSlot i p o token) := by
  obtain ⟨f, hf⟩ : ∃ f : RequestRows F × Nat → List (BatchRow F),
      f = fun q => q.1.rows.mapIdx (partRow cfg w b.groupSlot q.2 q.1) := ⟨_, rfl⟩
  have hlen : ∀ q, (f q).length = q.1.rows.length := fun q => by
    rw [hf]
    exact List.length_mapIdx
  have hzip : b.parts.zipIdx[i]? = some (p, i) := by
    rw [List.getElem?_zipIdx, hi, Nat.zero_add]
    rfl
  have hstart : ((b.parts.zipIdx.take i).map fun q => (f q).length).sum = rowStart b i := by
    have hfst : (b.parts.zipIdx.take i).map Prod.fst = b.parts.take i := by
      rw [List.map_take, List.zipIdx_map_fst]
    simp only [hlen]
    rw [rowStart, ← hfst, List.map_map]
    rfl
  have hlt : o < (f (p, i)).length := by
    rw [hlen]
    exact (List.getElem?_eq_some_iff.mp ho).1
  have hget := getElem?_flatMap_add hzip hlt
  rw [hstart] at hget
  have hin : rowStart b i + o < (b.parts.zipIdx.flatMap f).length := by
    by_contra hout
    rw [List.getElem?_eq_none (Nat.not_lt.mp hout)] at hget
    exact absurd (List.getElem?_eq_none_iff.mp hget.symm) (Nat.not_le.mpr hlt)
  unfold batchRows
  rw [← hf, List.getElem?_append_left hin, hget, hf, List.getElem?_mapIdx, ho]
  rfl

omit [Field F] in
/-- Every row belongs to a part or to the padding. -/
theorem mem_batchRows {x : BatchRow F} (hx : x ∈ batchRows cfg w b) :
    (∃ i p o token, b.parts[i]? = some p ∧ p.rows[o]? = some token ∧
      x = partRow cfg w b.groupSlot i p o token) ∨ ∃ token, x = paddingRow token := by
  rcases List.mem_append.mp hx with hpart | hpad
  · obtain ⟨⟨p, i⟩, hq, hmem⟩ := List.mem_flatMap.mp hpart
    obtain ⟨o, ho, hx⟩ := List.mem_mapIdx.mp hmem
    left
    refine ⟨i, p, o, p.rows[o], ?_, List.getElem?_eq_getElem ho, hx.symm⟩
    exact List.mem_zipIdx_iff_getElem?.mp hq
  · obtain ⟨token, _, rfl⟩ := List.mem_map.mp hpad
    exact Or.inr ⟨token, rfl⟩

omit [Field F] in
theorem rowStart_succ (hi : b.parts[i]? = some p) :
    rowStart b (i + 1) = rowStart b i + p.rows.length := by
  unfold rowStart
  rw [List.take_add_one, hi, Option.toList_some, List.map_append, List.sum_append]
  simp

theorem queryStartLoc_get (hi : i ≤ b.parts.length) :
    (compressArgs cfg w b).queryStartLoc.getD i 0 = (rowStart b i : Nat) := by
  have hget := getElem?_cuSeqlens 0 (b.parts.map (·.rows.length)) (i := i)
    (by rwa [List.length_map])
  show ((cuSeqlens 0 (b.parts.map (·.rows.length))).map Int.ofNat).getD i 0 = _
  rw [List.getD_eq_getElem?_getD, List.getElem?_map, hget, Nat.zero_add, ← List.map_take]
  rfl

theorem numRequests_eq : (compressArgs cfg w b).numRequests = b.parts.length := by
  show ((cuSeqlens 0 (b.parts.map (·.rows.length))).map Int.ofNat).length - 1 = _
  rw [List.length_map, length_cuSeqlens, List.length_map, Nat.add_sub_cancel]

/-- What the program of a row knows. -/
theorem row_eq (hi : b.parts[i]? = some p) (ho : p.rows[o]? = some token) :
    (compressArgs cfg w b).row (rowStart b i + o) =
      { numRows := (batchRows cfg w b).length
        queryRowStart := (rowStart b i : Nat)
        queryRowEnd := (rowStart b i + p.rows.length : Nat)
        endPosition := ((w.committed p.request).length + o : Nat)
        chunkStartPosition := (w.committed p.request).length
        compressorStateBlock := w.blockOf p.request
        validRow := decide (cfg.compressRatio ≤ (w.committed p.request).length + o + 1 ∧
          0 ≤ (partRow cfg w b.groupSlot i p o token).compressedSlot) } := by
  have hget := batchRows_get cfg w hi ho
  have hlt : i < b.parts.length := (List.getElem?_eq_some_iff.mp hi).1
  have hin : o < p.rows.length := (List.getElem?_eq_some_iff.mp ho).1
  have hcolumn : ∀ f : BatchRow F → Int, ((batchRows cfg w b).map f).getD (rowStart b i + o) 0 =
      f (partRow cfg w b.groupSlot i p o token) := fun f => by
    rw [List.getD_eq_getElem?_getD, List.getElem?_map, hget]
    rfl
  have hrequest : (compressArgs cfg w b).tokenToReq.getD (rowStart b i + o) 0 = (i : Int) :=
    hcolumn _
  have hposition : (compressArgs cfg w b).logicalPositions.getD (rowStart b i + o) 0 =
      (((w.committed p.request).length + o : Nat) : Int) := hcolumn _
  have hslot : (compressArgs cfg w b).compressedSlots.getD (rowStart b i + o) 0 =
      (partRow cfg w b.groupSlot i p o token).compressedSlot := hcolumn _
  have hvalid : InRange (compressArgs cfg w b).numRequests (i : Int) := by
    rw [numRequests_eq]
    exact ⟨Int.natCast_nonneg i, by exact_mod_cast hlt⟩
  have hsafe : safeRequest (compressArgs cfg w b).numRequests (i : Int) = i := by
    rw [numRequests_eq]
    unfold safeRequest
    omega
  have hblock : (compressArgs cfg w b).compressorStateBlockTable.data i 0 =
      (w.blockOf p.request : Int) := by
    show (((b.parts[i]?.map fun p => w.blockOf p.request).getD 0 : Nat) : Int) = _
    rw [hi]
    rfl
  have hlen : (compressArgs cfg w b).tokenToReq.length = (batchRows cfg w b).length :=
    List.length_map _
  have hratio : (compressArgs cfg w b).compressRatio = cfg.compressRatio := rfl
  unfold CompressArgs.row
  dsimp only
  rw [hrequest, hposition, hslot, if_pos hvalid, if_pos hvalid, if_pos hvalid, hsafe,
    queryStartLoc_get (Nat.le_of_lt hlt), queryStartLoc_get hlt, rowStart_succ hi, hblock, hlen,
    hratio]
  congr 1
  · push_cast
    omega
  · rw [decide_eq_decide]
    constructor
    · rintro ⟨_, _, _, hend, hcompressed⟩
      exact ⟨by omega, hcompressed⟩
    · rintro ⟨hend, hcompressed⟩
      exact ⟨hvalid, by omega, by omega, by omega, hcompressed⟩

end Rows

/-! ## Groups -/

/-- The mean of the raw keys of a group of a token sequence. -/
def groupKey (compressRatio : Nat) (tokens : List (RawToken F)) (group d : Nat) : F :=
  (((tokens.drop (group * compressRatio)).take compressRatio).map fun token =>
    token.key d).sum / compressRatio

/-- The position stored for the first token of a group, or its logical position when no
positions are packed. -/
def groupPosition (packed : Bool) (compressRatio : Nat) (tokens : List (RawToken F))
    (group d : Nat) : Int :=
  if packed then (tokens[group * compressRatio]?.map fun token => token.position d).getD 0
  else (group * compressRatio : Nat)

section Groups

variable {compressRatio group : Nat} {tokens more : List (RawToken F)}

theorem groupKey_append (h : (group + 1) * compressRatio ≤ tokens.length) (d : Nat) :
    groupKey compressRatio (tokens ++ more) group d =
      groupKey compressRatio tokens group d := by
  rw [Nat.succ_mul] at h
  unfold groupKey
  rw [List.drop_append_of_le_length (by omega), List.take_append_of_le_length]
  rw [List.length_drop]
  omega

omit [Field F] in
theorem groupPosition_append {packed : Bool} (hratio : 0 < compressRatio)
    (h : (group + 1) * compressRatio ≤ tokens.length) (d : Nat) :
    groupPosition packed compressRatio (tokens ++ more) group d =
      groupPosition packed compressRatio tokens group d := by
  rw [Nat.succ_mul] at h
  unfold groupPosition
  rw [List.getElem?_append_left (by omega)]

omit [Field F] in
/-- The tokens of a group, one by one. -/
theorem group_tokens {α : Type} (f : RawToken F → α) (x : α)
    (h : (group + 1) * compressRatio ≤ tokens.length) :
    ((List.range compressRatio).map fun j =>
        (tokens[group * compressRatio + j]?.map f).getD x) =
      ((tokens.drop (group * compressRatio)).take compressRatio).map f := by
  rw [Nat.succ_mul] at h
  apply List.ext_getElem?
  intro j
  by_cases hj : j < compressRatio
  · have hlt : group * compressRatio + j < tokens.length := by omega
    rw [List.getElem?_map, List.getElem?_map, List.getElem?_range hj,
      List.getElem?_take_of_lt hj, List.getElem?_drop]
    simp [List.getElem?_eq_getElem hlt]
  · rw [List.getElem?_eq_none (by simpa using hj), List.getElem?_eq_none]
    rw [List.length_map, List.length_take]
    omega

end Groups

/-! ## Pooling -/

section Pooling

variable {cfg : CompressConfig} {w : CompressWorld F} {b : CompressBatch F} {i o : Nat}
  {p : RequestRows F} {token : RawToken F}

omit [Field F] in
/-- The end of a group is pooled. -/
theorem validRow_groupEnd {group : Nat}
    (hend : (w.committed p.request).length + o + 1 = (group + 1) * cfg.compressRatio) :
    cfg.compressRatio ≤ (w.committed p.request).length + o + 1 ∧
      0 ≤ (partRow cfg w b.groupSlot i p o token).compressedSlot := by
  constructor
  · rw [hend]
    exact Nat.le_mul_of_pos_left _ (Nat.succ_pos group)
  · show 0 ≤ (if ((w.committed p.request).length + o + 1) % cfg.compressRatio = 0 then _
      else _ : Int)
    rw [hend, Nat.mul_mod_left, if_pos rfl]
    exact Int.natCast_nonneg _

omit [Field F] in
/-- A token of the window before the step, or of the request's rows, is loaded. -/
theorem load_eq {α : Type} [Zero α] {f : RawToken F → Nat → α} {raw : RawRows α}
    {cache : RowCache α} {r : CompressRow} {window d q : Nat} {x : RawToken F}
    (hi : b.parts[i]? = some p)
    (hraw : ∀ row, raw.data row d =
      ((batchRows cfg w b)[row]?.map fun y => f y.token d).getD 0)
    (hr : r =
      { numRows := (batchRows cfg w b).length
        queryRowStart := (rowStart b i : Nat)
        queryRowEnd := (rowStart b i + p.rows.length : Nat)
        endPosition := r.endPosition
        chunkStartPosition := (w.committed p.request).length
        compressorStateBlock := w.blockOf p.request
        validRow := true })
    (hblock : w.blockOf p.request < cache.numBlocks) (hd : d < raw.width)
    (hwindow : Window cache.size window ((w.committed p.request).map fun y => f y d)
      fun t => cache.data (w.blockOf p.request) t d)
    (hq : (w.committed p.request).length ≤ q + window)
    (hx : (w.committed p.request ++ p.rows)[q]? = some x) :
    r.load raw cache q d = f x d := by
  obtain ⟨past, hpast⟩ : ∃ past, past = (w.committed p.request).length := ⟨_, rfl⟩
  rw [← hpast] at hr hq
  rw [hr]
  unfold CompressRow.load
  dsimp only
  by_cases hold : q < past
  · rw [List.getElem?_append_left (hpast ▸ hold)] at hx
    have hring := hwindow q (f x d) (by rw [List.length_map]; omega)
      (by rw [List.getElem?_map, hx]; rfl)
    have hmod : ((q : Int).tmod cache.size).toNat = q % cache.size := by
      rw [← Int.ofNat_tmod, Int.toNat_natCast]
    rw [if_neg (by omega), if_pos ⟨rfl, by omega, by omega, hd⟩, Int.toNat_natCast, hmod]
    exact hring
  · obtain ⟨o, rfl⟩ : ∃ o, q = past + o := ⟨q - past, by omega⟩
    rw [List.getElem?_append_right (by omega), ← hpast, Nat.add_sub_cancel_left] at hx
    have ho : o < p.rows.length := (List.getElem?_eq_some_iff.mp hx).1
    have hget := batchRows_get cfg w hi hx
    have hin : rowStart b i + o < (batchRows cfg w b).length :=
      (List.getElem?_eq_some_iff.mp hget).1
    have hrow : ((rowStart b i : Int) + ((past + o : Nat) : Int) - past).toNat =
        rowStart b i + o := by omega
    rw [if_pos (by omega), if_pos ⟨rfl, by omega, by omega, by omega, hd⟩, hrow, hraw, hget]
    rfl

/-- The tokens of a request with the rows of this step. -/
abbrev seen (w : CompressWorld F) (p : RequestRows F) : List (RawToken F) :=
  w.committed p.request ++ p.rows

variable {group : Nat}

theorem row_groupEnd (hi : b.parts[i]? = some p)
    (ho : p.rows[o]? = some token)
    (hend : (w.committed p.request).length + o + 1 = (group + 1) * cfg.compressRatio) :
    (compressArgs cfg w b).row (rowStart b i + o) =
      { numRows := (batchRows cfg w b).length
        queryRowStart := (rowStart b i : Nat)
        queryRowEnd := (rowStart b i + p.rows.length : Nat)
        endPosition := ((w.committed p.request).length + o : Nat)
        chunkStartPosition := (w.committed p.request).length
        compressorStateBlock := w.blockOf p.request
        validRow := true } := by
  rw [row_eq hi ho, decide_eq_true (validRow_groupEnd hend)]

/-- The pooled key of a row that ends a group. -/
theorem pooled_groupEnd (hratio : 0 < cfg.compressRatio) (hi : b.parts[i]? = some p)
    (ho : p.rows[o]? = some token)
    (hend : (w.committed p.request).length + o + 1 = (group + 1) * cfg.compressRatio)
    (hblock : w.blockOf p.request < w.keys.numBlocks) {d : Nat} (hd : d < w.keys.width)
    (hwindow : Window w.keys.size (cfg.compressRatio - 1)
      ((w.committed p.request).map fun y => y.key d)
      fun t => w.keys.data (w.blockOf p.request) t d) :
    (compressArgs cfg w b).pooled (rowStart b i + o) d =
      groupKey cfg.compressRatio (seen w p) group d := by
  have hin : o < p.rows.length := (List.getElem?_eq_some_iff.mp ho).1
  have hlen : (group + 1) * cfg.compressRatio ≤ (seen w p).length := by
    rw [List.length_append, ← hend]
    omega
  unfold groupKey
  rw [← group_tokens (fun y : RawToken F => y.key d) 0 hlen]
  unfold CompressArgs.pooled
  rw [row_groupEnd hi ho hend]
  dsimp only
  congr 2
  refine List.map_congr_left fun j hj => ?_
  have hjlt : j < cfg.compressRatio := List.mem_range.mp hj
  have hsucc := Nat.add_one_mul group cfg.compressRatio
  have hposition : (((w.committed p.request).length + o : Nat) : Int) -
      ((cfg.compressRatio : Int) - 1 - (j : Nat)) =
        ((group * cfg.compressRatio + j : Nat) : Int) := by omega
  have hlt : group * cfg.compressRatio + j < (seen w p).length := by omega
  rw [List.getElem?_eq_getElem hlt]
  refine (congrArg (fun q => CompressRow.load _ _ _ q d) hposition).trans ?_
  exact load_eq (f := RawToken.key) hi (fun row => rfl) rfl hblock hd hwindow (by omega)
    (List.getElem?_eq_getElem hlt)

/-- Its first position. -/
theorem firstPosition_groupEnd (hratio : 0 < cfg.compressRatio) (hi : b.parts[i]? = some p)
    (ho : p.rows[o]? = some token)
    (hend : (w.committed p.request).length + o + 1 = (group + 1) * cfg.compressRatio)
    (hblock : w.blockOf p.request < w.positions.numBlocks) {d : Nat} (hd : d < 3)
    (hwindow : Window w.positions.size (cfg.compressRatio - 1)
      ((w.committed p.request).map fun y => y.position d)
      fun t => w.positions.data (w.blockOf p.request) t d) :
    (compressArgs cfg w b).firstPosition (rowStart b i + o) d =
      groupPosition cfg.packed cfg.compressRatio (seen w p) group d := by
  have hin : o < p.rows.length := (List.getElem?_eq_some_iff.mp ho).1
  have hsucc := Nat.add_one_mul group cfg.compressRatio
  have hlt : group * cfg.compressRatio < (seen w p).length := by
    rw [List.length_append]
    omega
  have hposition : (((w.committed p.request).length + o : Nat) : Int) -
      (cfg.compressRatio : Int) + 1 = ((group * cfg.compressRatio : Nat) : Int) := by omega
  have hargs : (compressArgs cfg w b).compressRatio = cfg.compressRatio := rfl
  unfold CompressArgs.firstPosition groupPosition
  rw [row_groupEnd hi ho hend, hargs]
  dsimp only
  rw [hposition]
  by_cases hpacked : cfg.packed = true
  · have hrope : (compressArgs cfg w b).ropeCache = some w.positions := if_pos hpacked
    rw [hrope, if_pos hpacked, List.getElem?_eq_getElem hlt]
    exact load_eq (f := RawToken.position) hi (fun row => rfl) rfl hblock hd hwindow (by omega)
      (List.getElem?_eq_getElem hlt)
  · have hrope : (compressArgs cfg w b).ropeCache = none := if_neg hpacked
    rw [hrope, if_neg hpacked]
    rfl

end Pooling

end FlashNext.Ports.Qsa
