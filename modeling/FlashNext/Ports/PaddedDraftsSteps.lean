import FlashNext.Ports.PaddedDraftsInputs

/-!
# The passes of the drafter

The first pass shifts the ids of the accepted rows and puts the next token behind them; what
becomes of the rejected rows does not matter, for no accepted row attends to them.  A later pass
overwrites the entries that they have left.
-/

namespace FlashNext.Ports.PaddedDrafts

open FlashNext.Verified.Ragged
open FlashNext.Verified.Scatter
open FlashNext.Verified.Varlen

variable {H V O M : Type} {env : Drafter H V O M} {round : Round H M}

/-! ## Writing to the cache -/

/-- An entry that no row names. -/
theorem store_of_notMem {slots : List (Option Nat)} {rows : List (Row H)} {s : Nat}
    (h : some s ∉ slots) (cache : Nat → V) : store env slots rows cache s = cache s := by
  induction slots generalizing rows cache with
  | nil => rfl
  | cons slot slots ih =>
      cases rows with
      | nil => rfl
      | cons row rows =>
          obtain ⟨hslot, hrest⟩ := not_or.mp (mt List.mem_cons.mpr h)
          show store env slots rows _ s = _
          rw [ih hrest]
          cases slot with
          | none => rfl
          | some q => exact Function.update_of_ne (fun heq => hslot (congrArg some heq)) ..

/-- The entry of a row, where every row has a slot of its own. -/
theorem store_of_mem {slots : List (Option Nat)} {rows : List (Row H)} {s : Nat} {row : Row H}
    (hnodup : slots.Nodup) (h : (some s, row) ∈ slots.zip rows) (cache : Nat → V) :
    store env slots rows cache s = env.keyValue row := by
  induction slots generalizing rows cache with
  | nil => cases h
  | cons slot slots ih =>
      cases rows with
      | nil => cases h
      | cons first rows =>
          obtain ⟨hslot, hrest⟩ := List.nodup_cons.mp hnodup
          rcases List.mem_cons.mp h with heq | hmem
          · obtain ⟨rfl, rfl⟩ := Prod.mk.inj heq
            exact (store_of_notMem hslot _).trans (Function.update_self ..)
          · exact ih hrest hmem _

/-! ## The first pass -/

/-- The row of the drafter at position `j` of a request; the last accepted one is given the next
token. -/
def acceptedRow (env : Drafter H V O M) (useSpecDecode : Bool) (next : DraftRequest H M → Int)
    (r : DraftRequest H M) (j : Nat) (row : Row H) : Row H :=
  { row with
    inputId := if j + 1 = numAccepted env useSpecDecode r then next r
      else ((r.rows[j + 1]?).map Row.inputId).getD 0 }

def acceptedRows (env : Drafter H V O M) (useSpecDecode : Bool) (next : DraftRequest H M → Int)
    (r : DraftRequest H M) : List (Row H) :=
  (r.rows.take (numAccepted env useSpecDecode r)).mapIdx (acceptedRow env useSpecDecode next r)

theorem getElem?_rows_append {n : DraftRequest H M → Nat} (hfits : ∀ r, n r ≤ r.numScheduledTokens)
    {batch : List (DraftRequest H M)} {i j : Nat} {r : DraftRequest H M}
    (hi : batch[i]? = some r) (hj : j < n r) :
    (batch.flatMap fun r => r.rows.take (n r))[((batch.take i).map n).sum + j]? = r.rows[j]? := by
  have hlen : ∀ r : DraftRequest H M, (r.rows.take (n r)).length = n r := fun r => by
    rw [List.length_take, r.length_rows]
    exact Nat.min_eq_left (hfits r)
  have hread := getElem?_flatMap_add (f := fun r : DraftRequest H M => r.rows.take (n r)) hi
    (by rw [hlen]; exact hj)
  simp only [hlen] at hread
  rw [hread, List.getElem?_take, if_pos hj]

/-- The accepted rows behind `set_inputs_first_pass`. -/
theorem setInputsFirstPass_get {n : DraftRequest H M → Nat}
    (hfits : ∀ r, n r ≤ r.numScheduledTokens) (h : round.Ok env)
    (hacc : ∀ r ∈ round.batch, numAccepted env round.useSpecDecode r ≤ n r)
    (next : DraftRequest H M → Int) (stale : Nat → Int) {i j : Nat} {r : DraftRequest H M}
    (hi : round.batch[i]? = some r) (hj : j < numAccepted env round.useSpecDecode r) :
    (setInputsFirstPass (round.batch.flatMap fun r => r.rows.take (n r)) (round.batch.map next)
        (bases n (fun r => numAccepted env round.useSpecDecode r - 1) round.batch)
        stale)[((round.batch.take i).map n).sum + j]? =
      (r.rows[j]?).map (acceptedRow env round.useSpecDecode next r j) := by
  have hr : r ∈ round.batch := List.mem_of_getElem? hi
  have hjn : j < n r := Nat.lt_of_lt_of_le hj (hacc r hr)
  have hskip : ∀ q ∈ round.batch, numAccepted env round.useSpecDecode q - 1 < n q := fun q hq => by
    have hpos := h.numAccepted_pos hq
    have hle := hacc q hq
    omega
  rw [setInputsFirstPass, List.getElem?_mapIdx, getElem?_rows_append hfits hi hjn]
  congr 1
  funext row
  rw [acceptedRow]
  congr 1
  by_cases hlast : j + 1 = numAccepted env round.useSpecDecode r
  · rw [if_pos hlast]
    have hindex : (bases n (fun r => numAccepted env round.useSpecDecode r - 1) round.batch)[i]? =
        some (((round.batch.take i).map n).sum + j) := by
      rw [getElem?_bases hi, ← hlast, Nat.add_sub_cancel]
    have hlen : (round.batch.map next).length = (bases n
        (fun r => numAccepted env round.useSpecDecode r - 1) round.batch).length := by
      rw [List.length_map, length_bases]
    have hmap := map_put (nodup_bases hskip) hlen fun i =>
        (((round.batch.flatMap fun r => r.rows.take (n r))[i + 1]?).map Row.inputId).getD (stale i)
    have hentry := congrArg (·[i]?) hmap
    simp only [List.getElem?_map, hindex, hi, Option.map_some] at hentry
    exact Option.some.inj hentry
  · have hne : j ≠ numAccepted env round.useSpecDecode r - 1 := by omega
    have hle := hacc r hr
    have hfit := hfits r
    have hlt : j + 1 < r.rows.length := by
      rw [r.length_rows]
      omega
    rw [if_neg hlast, put_of_not_mem (notMem_bases hi hjn hne hskip), Nat.add_assoc,
      getElem?_rows_append hfits hi (by omega)]
    rw [List.getElem?_eq_getElem hlt, Option.map_some, Option.getD_some, Option.getD_some]

/-- The rows of the first pass, cut apart. -/
theorem exists_pieces {n : DraftRequest H M → Nat}
    (hfits : ∀ r, n r ≤ r.numScheduledTokens) (h : round.Ok env)
    (hacc : ∀ r ∈ round.batch, numAccepted env round.useSpecDecode r ≤ n r)
    (next : DraftRequest H M → Int) (stale : Nat → Int) :
    ∃ pieces : List (DraftRequest H M × List (Row H)), pieces.map Prod.fst = round.batch ∧
      pieces.flatMap Prod.snd =
        setInputsFirstPass (round.batch.flatMap fun r => r.rows.take (n r)) (round.batch.map next)
          (bases n (fun r => numAccepted env round.useSpecDecode r - 1) round.batch) stale ∧
      ∀ q ∈ pieces, q.2.length = n q.1 ∧ q.2.take (numAccepted env round.useSpecDecode q.1) =
        acceptedRows env round.useSpecDecode next q.1 := by
  have hlen : (setInputsFirstPass (round.batch.flatMap fun r => r.rows.take (n r))
      (round.batch.map next)
      (bases n (fun r => numAccepted env round.useSpecDecode r - 1) round.batch) stale).length =
        (round.batch.map n).sum := by
    rw [setInputsFirstPass, List.length_mapIdx, List.length_flatMap]
    congr 1
    refine List.map_congr_left fun r _ => ?_
    rw [List.length_take, r.length_rows]
    exact Nat.min_eq_left (hfits r)
  refine ⟨cut n round.batch _, map_fst_cut n round.batch _, flatMap_snd_cut hlen, fun q hq => ?_⟩
  have hqlen := length_of_mem_cut hlen hq
  refine ⟨hqlen, ?_⟩
  obtain ⟨i, hi, hrows⟩ := exists_of_mem_cut hq
  have hr : q.1 ∈ round.batch := List.mem_of_getElem? hi
  have hle := hacc q.1 hr
  apply List.ext_getElem?
  intro j
  rw [acceptedRows, List.getElem?_mapIdx, List.getElem?_take, List.getElem?_take]
  by_cases hj : j < numAccepted env round.useSpecDecode q.1
  · rw [if_pos hj, if_pos hj, hrows, List.getElem?_take, if_pos (Nat.lt_of_lt_of_le hj hle),
      List.getElem?_drop, setInputsFirstPass_get hfits h hacc next stale hi hj]
  · rw [if_neg hj, if_neg hj, Option.map_none]

/-- A forward pass over pieces of the requests. -/
theorem forward_pieces (env : Drafter H V O M) {n : DraftRequest H M → Nat}
    {pieces : List (DraftRequest H M × List (Row H))}
    (hlen : ∀ q ∈ pieces, q.2.length = n q.1) (cache : Nat → V) :
    let stored := store env (cutMetadata env n (pieces.map Prod.fst)).slotMapping
      (pieces.flatMap Prod.snd) cache
    forward env (cutMetadata env n (pieces.map Prod.fst)) (pieces.flatMap Prod.snd) cache =
      (pieces.flatMap fun q => q.2.mapIdx fun j row =>
        env.attend row (context env stored q.1.blockTable (q.1.numComputedTokens + j + 1)),
        stored) := by
  intro stored
  have hsegments : segments (cutMetadata env n (pieces.map Prod.fst)).queryStartLoc
      (pieces.flatMap Prod.snd) = pieces.map Prod.snd := by
    rw [cutMetadata, List.map_map]
    exact segments_flatMap pieces Prod.snd _ hlen
  have hrequests : (pieces.map Prod.snd).zip
      ((cutMetadata env n (pieces.map Prod.fst)).seqLens.zip
        (cutMetadata env n (pieces.map Prod.fst)).blockTable) =
      pieces.map fun q => (q.2, q.1.numComputedTokens + n q.1, q.1.blockTable) := by
    show (pieces.map Prod.snd).zip (((pieces.map Prod.fst).map _).zip
      ((pieces.map Prod.fst).map _)) = _
    rw [List.map_map, List.map_map, List.zip_map', List.zip_map']
    rfl
  unfold forward
  simp only [hsegments, hrequests, List.flatMap_map]
  refine congrArg (·, stored) (List.flatMap_congr fun q hq => ?_)
  have hctx : q.1.numComputedTokens + n q.1 - q.2.length = q.1.numComputedTokens := by
    rw [hlen q hq, Nat.add_sub_cancel]
  rw [hctx]

section Last

variable [Inhabited H]

/-- The last accepted row of a request. -/
def lastRow (env : Drafter H V O M) (useSpecDecode : Bool) (next : DraftRequest H M → Int)
    (r : DraftRequest H M) : Row H where
  inputId := next r
  position := r.numComputedTokens + (numAccepted env useSpecDecode r - 1)
  hidden := ((r.tokens[numAccepted env useSpecDecode r - 1]?).map Prod.snd).getD default

theorem acceptedRows_last {useSpecDecode : Bool} (next : DraftRequest H M → Int)
    {r : DraftRequest H M} (hpos : 0 < numAccepted env useSpecDecode r) :
    (acceptedRows env useSpecDecode next r)[numAccepted env useSpecDecode r - 1]? =
      some (lastRow env useSpecDecode next r) := by
  have hlt : numAccepted env useSpecDecode r - 1 < r.tokens.length :=
    Nat.lt_of_lt_of_le (Nat.sub_lt hpos Nat.one_pos) (numAccepted_le env useSpecDecode r)
  rw [acceptedRows, List.getElem?_mapIdx, List.getElem?_take, if_pos (by omega),
    DraftRequest.rows, List.getElem?_mapIdx, List.getElem?_eq_getElem hlt, Option.map_some,
    Option.map_some, acceptedRow, if_pos (by omega), lastRow, List.getElem?_eq_getElem hlt]
  rfl

theorem take_one_drop {α : Type} {l : List α} {k : Nat} {x : α} (h : l[k]? = some x) :
    (l.drop k).take 1 = [x] := by
  obtain ⟨hlt, rfl⟩ := List.getElem?_eq_some_iff.mp h
  rw [List.drop_eq_getElem_cons hlt]
  rfl

/-- What is read at the rows to sample from. -/
theorem gather_last {α : Type} {n : DraftRequest H M → Nat} {useSpecDecode : Bool}
    {next : DraftRequest H M → Int} {pieces : List (DraftRequest H M × List (Row H))}
    (hpos : ∀ q ∈ pieces, 0 < numAccepted env useSpecDecode q.1)
    (hacc : ∀ q ∈ pieces, numAccepted env useSpecDecode q.1 ≤ n q.1)
    (hpieces : ∀ q ∈ pieces, q.2.length = n q.1 ∧
      q.2.take (numAccepted env useSpecDecode q.1) = acceptedRows env useSpecDecode next q.1)
    (f : DraftRequest H M → Nat → Row H → α) :
    gather (pieces.flatMap fun q => q.2.mapIdx (f q.1))
        (bases n (fun r => numAccepted env useSpecDecode r - 1) (pieces.map Prod.fst)) =
      some ((pieces.map Prod.fst).map fun r =>
        f r (numAccepted env useSpecDecode r - 1) (lastRow env useSpecDecode next r)) := by
  have hbases : bases n (fun r => numAccepted env useSpecDecode r - 1) (pieces.map Prod.fst) =
      bases (fun q => n q.1) (fun q => numAccepted env useSpecDecode q.1 - 1) pieces := by
    rw [bases, bases, List.map_map, List.map_map]
    rfl
  have hread := gather_single (fun q : DraftRequest H M × List (Row H) => q.2.mapIdx (f q.1)) []
    (fun q => n q.1) (fun q => numAccepted env useSpecDecode q.1 - 1)
    (fun q hq => by rw [List.length_mapIdx]; exact (hpieces q hq).1)
    fun q hq => Nat.lt_of_lt_of_le (Nat.sub_lt (hpos q hq) Nat.one_pos) (hacc q hq)
  rw [List.append_nil] at hread
  rw [hbases, hread, List.map_map, List.map_eq_flatMap]
  refine congrArg some (List.flatMap_congr fun q hq => take_one_drop ?_)
  have hlast := acceptedRows_last next (hpos q hq)
  rw [← (hpieces q hq).2, List.getElem?_take, if_pos (Nat.sub_lt (hpos q hq) Nat.one_pos)] at hlast
  rw [List.getElem?_mapIdx, hlast]
  rfl

end Last

/-! ## The entries of the first pass -/

theorem mem_ownedSlots {r : DraftRequest H M} {j : Nat}
    (hj : j < r.numScheduledTokens + env.numSpeculativeTokens) :
    env.slot r.blockTable (r.numComputedTokens + j) ∈ ownedSlots env r :=
  List.mem_map.mpr ⟨j, List.mem_range.mpr hj, rfl⟩

/-- The slots of the first rows are the first of those that a request owns. -/
theorem take_slots (n : DraftRequest H M → Nat) (hfits : ∀ r, n r ≤ r.numScheduledTokens)
    (r : DraftRequest H M) :
    (r.slots env).take (n r) = ((ownedSlots env r).take (n r)).map some := by
  apply List.ext_getElem?
  intro j
  rw [List.getElem?_map, List.getElem?_take, List.getElem?_take]
  by_cases hj : j < n r
  · have hlt : j < r.tokens.length := Nat.lt_of_lt_of_le hj (hfits r)
    have hlt' : j < r.numScheduledTokens + env.numSpeculativeTokens := Nat.lt_add_right _ hlt
    rw [if_pos hj, if_pos hj, DraftRequest.slots, List.getElem?_mapIdx,
      List.getElem?_eq_getElem hlt, ownedSlots, List.getElem?_map, List.getElem?_range hlt']
    rfl
  · rw [if_neg hj, if_neg hj, Option.map_none]

theorem sublist_owned {batch : List (DraftRequest H M)} {f : DraftRequest H M → List Nat}
    (h : ∀ r ∈ batch, (f r).Sublist (ownedSlots env r)) :
    (batch.flatMap f).Sublist (batch.flatMap (ownedSlots env)) := by
  induction batch with
  | nil => exact List.Sublist.refl _
  | cons r batch ih =>
      rw [List.flatMap_cons, List.flatMap_cons]
      exact (h r List.mem_cons_self).append (ih fun q hq => h q (List.mem_cons_of_mem _ hq))

theorem cutMetadata_slots {n : DraftRequest H M → Nat} (hfits : ∀ r, n r ≤ r.numScheduledTokens)
    (batch : List (DraftRequest H M)) :
    (cutMetadata env n batch).slotMapping =
      (batch.flatMap fun r => (ownedSlots env r).take (n r)).map some := by
  rw [List.map_flatMap]
  exact List.flatMap_congr fun r _ => take_slots n hfits r

section Stored

variable {n : DraftRequest H M → Nat} {next : DraftRequest H M → Int}
  {pieces : List (DraftRequest H M × List (Row H))}

/-- Slots that nobody owns are left alone. -/
theorem stored_frame (hfits : ∀ r, n r ≤ r.numScheduledTokens)
    {batch : List (DraftRequest H M)} {s : Nat} (hs : s ∉ batch.flatMap (ownedSlots env))
    (rows : List (Row H)) (cache : Nat → V) :
    store env (cutMetadata env n batch).slotMapping rows cache s = cache s := by
  refine store_of_notMem (fun hmem => hs ?_) cache
  rw [cutMetadata_slots hfits] at hmem
  obtain ⟨q, hq, heq⟩ := List.mem_map.mp hmem
  rw [← Option.some.inj heq]
  exact (sublist_owned fun r _ => List.take_sublist _ _).subset hq

/-- The entry of an accepted row. -/
theorem stored_accepted (hfits : ∀ r, n r ≤ r.numScheduledTokens) (h : round.Ok env)
    (hacc : ∀ r ∈ round.batch, numAccepted env round.useSpecDecode r ≤ n r)
    (hfst : pieces.map Prod.fst = round.batch)
    (hpieces : ∀ q ∈ pieces, q.2.length = n q.1 ∧
      q.2.take (numAccepted env round.useSpecDecode q.1) =
        acceptedRows env round.useSpecDecode next q.1)
    {r : DraftRequest H M} (hr : r ∈ round.batch) {j : Nat} {row : Row H}
    (hrow : (acceptedRows env round.useSpecDecode next r)[j]? = some row) (cache : Nat → V) :
    store env (cutMetadata env n round.batch).slotMapping (pieces.flatMap Prod.snd) cache
      (env.slot r.blockTable (r.numComputedTokens + j)) = env.keyValue row := by
  have hnodup : (cutMetadata env n round.batch).slotMapping.Nodup := by
    rw [cutMetadata_slots hfits]
    exact List.Nodup.map (fun _ _ heq => Option.some.inj heq)
      (h.owned.sublist (sublist_owned fun r _ => List.take_sublist _ _))
  refine store_of_mem hnodup ?_ cache
  have hslots : (cutMetadata env n round.batch).slotMapping =
      pieces.flatMap fun q => (q.1.slots env).take (n q.1) := by
    rw [cutMetadata, ← hfst, List.flatMap_map]
  rw [hslots, zip_flatMap _ _ _ fun q hq => by
    rw [List.length_take, q.1.length_slots, (hpieces q hq).1]
    exact Nat.min_eq_left (hfits q.1)]
  rw [← hfst] at hr
  obtain ⟨q, hq, rfl⟩ := List.mem_map.mp hr
  refine List.mem_flatMap.mpr ⟨q, hq, ?_⟩
  rw [← (hpieces q hq).2, List.getElem?_take] at hrow
  split at hrow
  · next hj =>
      have hjn : j < n q.1 :=
        Nat.lt_of_lt_of_le hj (hacc q.1 (hfst ▸ List.mem_map_of_mem hq))
      have hlt : j < q.1.tokens.length := Nat.lt_of_lt_of_le hjn (hfits q.1)
      refine List.mem_of_getElem? (List.getElem?_zip_eq_some.mpr ⟨?_, hrow⟩)
      rw [List.getElem?_take, if_pos hjn, DraftRequest.slots, List.getElem?_mapIdx,
        List.getElem?_eq_getElem hlt]
      rfl
  · cases hrow

end Stored

/-! ## A later pass -/

/-- The state of the loop, request by request, `t` steps behind the first pass. -/
structure Represents (env : Drafter H V O M) (round : Round H M) (t : Nat)
    (ids : DraftRequest H M → Int) (hidden : DraftRequest H M → H)
    (columns : List (DraftRequest H M → Int)) (s : Drafting H V) : Prop where
  ids : s.draftTokenIds = round.batch.map ids
  positions : s.positions = round.batch.map fun r =>
    r.numComputedTokens + (numAccepted env round.useSpecDecode r - 1) + t
  hidden : s.hiddenStates = round.batch.map hidden
  seqLens : s.seqLens = round.batch.map fun r =>
    r.numComputedTokens + numAccepted env round.useSpecDecode r + t
  columns : s.draftTokenIdsList = columns.map fun column => round.batch.map column

/-- The row of a request in step `t`. -/
def draftRow (env : Drafter H V O M) (round : Round H M) (t : Nat)
    (ids : DraftRequest H M → Int) (hidden : DraftRequest H M → H) (r : DraftRequest H M) :
    Row H where
  inputId := ids r
  position := r.numComputedTokens + numAccepted env round.useSpecDecode r + t
  hidden := hidden r

/-- The cache behind step `t`. -/
def draftCache (env : Drafter H V O M) (round : Round H M) (t : Nat)
    (ids : DraftRequest H M → Int) (hidden : DraftRequest H M → H) (cache : Nat → V) : Nat → V :=
  store env
    (round.batch.map fun r => some (env.slot r.blockTable
      (r.numComputedTokens + numAccepted env round.useSpecDecode r + t)))
    (round.batch.map (draftRow env round t ids hidden)) cache

/-- What the model gives for a request in step `t`. -/
def draftOutput (env : Drafter H V O M) (round : Round H M) (t : Nat)
    (ids : DraftRequest H M → Int) (hidden : DraftRequest H M → H) (cache : Nat → V)
    (r : DraftRequest H M) : O × H :=
  env.attend (draftRow env round t ids hidden r)
    (context env (draftCache env round t ids hidden cache) r.blockTable
      (r.numComputedTokens + numAccepted env round.useSpecDecode r + t + 1))

/-- A forward pass with one row for each request. -/
theorem forward_single (env : Drafter H V O M) {β : Type} (batch : List β) (row : β → Row H)
    (n : β → Nat) (blockTable : β → List Nat) (slots : List (Option Nat)) (cache : Nat → V) :
    forward env ⟨List.range (batch.length + 1), batch.map fun r => n r + 1,
        batch.map blockTable, slots⟩ (batch.map row) cache =
      (batch.map fun r => env.attend (row r)
        (context env (store env slots (batch.map row) cache) (blockTable r) (n r + 1)),
        store env slots (batch.map row) cache) := by
  have hsegments : segments (List.range (batch.length + 1)) (batch.map row) =
      batch.map fun r => [row r] := by
    have hcut := segments_flatMap batch (fun r => [row r]) (fun _ => 1) fun _ _ => rfl
    rw [cuSeqlens_ones, ← List.map_eq_flatMap] at hcut
    rwa [List.range_eq_range']
  unfold forward
  simp only [hsegments, List.zip_map', List.flatMap_map]
  exact Prod.ext List.map_eq_flatMap.symm rfl

theorem draftStep_represents (hlawful : env.Lawful) (h : round.Ok env) {t : Nat}
    (hroom : ∀ r ∈ round.batch,
      r.numComputedTokens + numAccepted env round.useSpecDecode r + t < env.maxModelLen)
    {ids : DraftRequest H M → Int} {hidden : DraftRequest H M → H}
    {columns : List (DraftRequest H M → Int)} {s : Drafting H V}
    (hs : Represents env round t ids hidden columns s) (k : Nat) :
    let ids' := fun r => env.sampleDraft (k + 1) r.samplingMetadata
      (draftOutput env round t ids hidden s.cache r).1
    Represents env round (t + 1) ids'
        (fun r => (draftOutput env round t ids hidden s.cache r).2) (columns ++ [ids'])
        (draftStep env (round.batch.map DraftRequest.blockTable)
          (round.batch.map DraftRequest.samplingMetadata) s k) ∧
      (draftStep env (round.batch.map DraftRequest.blockTable)
        (round.batch.map DraftRequest.samplingMetadata) s k).cache =
          draftCache env round t ids hidden s.cache := by
  intro ids'
  have hmoved : List.zipWith (fun p (q : List Nat × Nat) => env.stepUpdate p q.1 q.2) s.positions
      ((round.batch.map DraftRequest.blockTable).zip s.seqLens) =
        round.batch.map fun r =>
          (r.numComputedTokens + numAccepted env round.useSpecDecode r + t,
            r.numComputedTokens + numAccepted env round.useSpecDecode r + t + 1,
            some (env.slot r.blockTable
              (r.numComputedTokens + numAccepted env round.useSpecDecode r + t))) := by
    rw [hs.positions, hs.seqLens, List.zip_map', List.zipWith_map, List.zipWith_self]
    refine List.map_congr_left fun r hr => ?_
    have hpos := h.numAccepted_pos hr
    have hnext : r.numComputedTokens + (numAccepted env round.useSpecDecode r - 1) + t + 1 =
        r.numComputedTokens + numAccepted env round.useSpecDecode r + t := by omega
    have hlast : r.numComputedTokens + (numAccepted env round.useSpecDecode r - 1) + t + 2 =
        r.numComputedTokens + numAccepted env round.useSpecDecode r + t + 1 := by omega
    have hstep := hlawful.step (r.numComputedTokens +
      (numAccepted env round.useSpecDecode r - 1) + t) r.blockTable (hnext ▸ hroom r hr)
    rw [hnext, hlast] at hstep
    exact hstep
  have hrows : List.zipWith (fun inputId (q : Nat × H) => (⟨inputId, q.1, q.2⟩ : Row H))
      s.draftTokenIds ((round.batch.map fun r =>
        r.numComputedTokens + numAccepted env round.useSpecDecode r + t).zip s.hiddenStates) =
        round.batch.map (draftRow env round t ids hidden) := by
    rw [hs.ids, hs.hidden, List.zip_map', List.zipWith_map, List.zipWith_self]
    rfl
  have hpass := forward_single env round.batch (draftRow env round t ids hidden)
    (fun r => r.numComputedTokens + numAccepted env round.useSpecDecode r + t)
    DraftRequest.blockTable
    (round.batch.map fun r => some (env.slot r.blockTable
      (r.numComputedTokens + numAccepted env round.useSpecDecode r + t))) s.cache
  have hdrafts : List.zipWith (env.sampleDraft (k + 1))
      (round.batch.map DraftRequest.samplingMetadata)
      ((round.batch.map (draftOutput env round t ids hidden s.cache)).map Prod.fst) =
        round.batch.map ids' := by
    rw [List.map_map, List.zipWith_map, List.zipWith_self]
    rfl
  unfold draftStep
  simp only [hmoved, List.map_map, Function.comp_def, hrows, List.length_map, hpass]
  rw [List.map_map] at hdrafts
  refine ⟨?_, rfl⟩
  exact
    { ids := hdrafts
      positions := List.map_congr_left fun r hr => by
        have hpos := h.numAccepted_pos hr
        omega
      hidden := rfl
      seqLens := rfl
      columns := by
        rw [List.map_append, ← hs.columns]
        exact congrArg (fun column => s.draftTokenIdsList ++ [column]) hdrafts }

end FlashNext.Ports.PaddedDrafts
