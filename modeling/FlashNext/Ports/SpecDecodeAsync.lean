import FlashNext.Ports.AsyncInputIdsExact
import FlashNext.Ports.SpecDecodeExact

/-!
# What the rejection sampler is given in an asynchronous step

The drafts never leave the GPU: `_prepare_input_ids` scatters them behind the sampled tokens, and
the metadata reads them back from the input ids.  Their probabilities are looked up by request.
The batch may have been reordered in between, and requests may have left; still every draft
token meets the probabilities it was drawn from.
-/

namespace FlashNext.Ports.SpecDecode

open FlashNext.Verified.Checked
open FlashNext.Verified.PyLists
open FlashNext.Ports.AsyncInputIds

variable {κ α : Type} [DecidableEq κ]

/-- The batch behind an asynchronous step: a request with drafts goes on from the row of the
previous step where it stood, and the scheduler's placeholders count the drafts. -/
structure VerifyOk (prev : Previous) (prevReqIds : List κ) (batch : List (κ × BatchReq))
    (spec : List (κ × List Int)) : Prop where
  step : StepOk prev (batch.map Prod.snd)
  nonempty : batch ≠ []
  distinct : (batch.map Prod.fst).Nodup
  entries : (spec.map Prod.fst).Nodup
  known : ∀ e ∈ spec, e.1 ∈ batch.map Prod.fst
  counted : ∀ r ∈ batch, draftLen spec r.1 = r.2.draftLen
  goesOn : ∀ r ∈ batch, 0 < r.2.draftLen → ∃ p, r.2.prevPosition = some p ∧
    prevReqIds[p]? = some r.1
  prevDistinct : prevReqIds.Nodup

/-- The drafts have been drawn from the probabilities: `R` relates a token to its row. -/
structure DrawnFrom (R : Int → α → Prop) (prevReqIds : List κ) (drafts : DraftTokenIds)
    (rows : List (List α)) : Prop where
  length : rows.length = prevReqIds.length
  drawn : ∀ p row, rows[p]? = some row → row.length = drafts.width ∧
    ∀ k a, row[k]? = some a → R (drafts.row p k) a

variable {prev : Previous} {prevReqIds : List κ} {batch : List (κ × BatchReq)}
  {spec : List (κ × List Int)}

omit [DecidableEq κ] in
theorem map_ids_fst (prev : Previous) (batch : List (κ × BatchReq)) :
    (batch.map fun r => (r.1, r.2.ids prev)).map Prod.fst = batch.map Prod.fst := by
  rw [List.map_map]
  rfl

theorem VerifyOk.batchOk (h : VerifyOk prev prevReqIds batch spec) :
    BatchOk (batch.map fun r => (r.1, r.2.ids prev)) spec where
  nonempty := fun hnil => h.nonempty (List.map_eq_nil_iff.mp hnil)
  distinct := by
    rw [map_ids_fst]
    exact h.distinct
  entries := h.entries
  known := by
    rw [map_ids_fst]
    exact h.known
  scheduled := by
    intro r hr
    obtain ⟨q, hq, rfl⟩ := List.mem_map.mp hr
    have hmem : q.2 ∈ batch.map Prod.snd := List.mem_map_of_mem hq
    apply List.ne_nil_of_length_pos
    rw [h.step.length_ids hmem]
    exact h.step.scheduled _ hmem

/-- A request has a token besides its drafts. -/
theorem VerifyOk.fits (h : VerifyOk prev prevReqIds batch spec) {r : κ × BatchReq}
    (hr : r ∈ batch) : draftLen spec r.1 < (r.2.ids prev).length := by
  have hmem : r.2 ∈ batch.map Prod.snd := List.mem_map_of_mem hr
  rw [h.counted r hr, h.step.length_ids hmem]
  by_cases hzero : r.2.draftLen = 0
  · rw [hzero]
    exact h.step.scheduled _ hmem
  · obtain ⟨p, hp, -⟩ := h.goesOn r hr (Nat.pos_of_ne_zero hzero)
    exact (h.step.sampled _ hmem (by rw [hp]; exact Option.some_ne_none p)).2

/-- The last tokens of a request are its drafts. -/
theorem VerifyOk.drop_ids (h : VerifyOk prev prevReqIds batch spec) {r : κ × BatchReq}
    (hr : r ∈ batch) {p : Nat} (hp : r.2.prevPosition = some p) :
    (r.2.ids prev).drop ((r.2.ids prev).length - draftLen spec r.1) =
      (List.range r.2.draftLen).map fun k => (prev.draftTokenIds.map (·.row p k)).getD 0 := by
  have hids : r.2.ids prev = r.2.cpuIds.take (r.2.numScheduledTokens - 1 - r.2.draftLen) ++
      ((prev.prevSampledTokenIds.map (· p)).toList ++
        (List.range r.2.draftLen).map fun k =>
          (prev.draftTokenIds.map (·.row p k)).getD 0) := by
    rw [BatchReq.ids, hp]
  rw [hids, ← List.append_assoc, List.length_append, List.length_map, List.length_range,
    h.counted r hr, Nat.add_sub_cancel]
  exact List.drop_left

/-- The probabilities that the drafter has left for a request. -/
def cachedRow (rows : List (List α)) (r : κ × BatchReq) : List α :=
  (r.2.prevPosition.bind (rows[·]?)).getD []

theorem VerifyOk.cachedRow_eq (h : VerifyOk prev prevReqIds batch spec) {R : Int → α → Prop}
    {drafts : DraftTokenIds} {rows : List (List α)} (hrows : DrawnFrom R prevReqIds drafts rows)
    {r : κ × BatchReq} (hr : r ∈ batch) (hpos : 0 < r.2.draftLen) :
    ∃ p, r.2.prevPosition = some p ∧ rows[p]? = some (cachedRow rows r) ∧
      (prevReqIds.zip rows).lookup r.1 = some (cachedRow rows r) := by
  obtain ⟨p, hp, hid⟩ := h.goesOn r hr hpos
  have hlt : p < rows.length := by
    rw [hrows.length]
    exact (List.getElem?_eq_some_iff.mp hid).1
  have hrow : rows[p]? = some (cachedRow rows r) := by
    rw [cachedRow, hp, Option.bind_some, List.getElem?_eq_getElem hlt, Option.getD_some]
  refine ⟨p, hp, hrow, ?_⟩
  have hnodup : ((prevReqIds.zip rows).map Prod.fst).Nodup := by
    rw [List.map_fst_zip (Nat.le_of_eq hrows.length.symm)]
    exact h.prevDistinct
  have hmem : (r.1, cachedRow rows r) ∈ prevReqIds.zip rows :=
    List.mem_of_getElem? (List.getElem?_zip_eq_some.mpr ⟨hid, hrow⟩)
  exact lookup_of_mem hnodup hmem

/-- The drafts of a request and their probabilities. -/
theorem VerifyOk.drawn (h : VerifyOk prev prevReqIds batch spec) {R : Int → α → Prop}
    {drafts : DraftTokenIds} (hdrafts : prev.draftTokenIds = some drafts)
    {rows : List (List α)} (hrows : DrawnFrom R prevReqIds drafts rows)
    {r : κ × BatchReq} (hr : r ∈ batch) :
    List.Forall₂ R ((r.2.ids prev).drop ((r.2.ids prev).length - draftLen spec r.1))
      ((cachedRow rows r).take (draftLen spec r.1)) := by
  have hcount := h.counted r hr
  by_cases hzero : r.2.draftLen = 0
  · rw [hcount, hzero, Nat.sub_zero, List.drop_length, List.take_zero]
    exact List.Forall₂.nil
  obtain ⟨p, hp, hrow, -⟩ := h.cachedRow_eq hrows hr (Nat.pos_of_ne_zero hzero)
  obtain ⟨hwidth, hdrawn⟩ := hrows.drawn p _ hrow
  have hmem : r.2 ∈ batch.map Prod.snd := List.mem_map_of_mem hr
  obtain ⟨_, hsome, -, hle⟩ := h.step.drafted _ hmem (by rw [hp]; exact Option.some_ne_none p)
    (Nat.pos_of_ne_zero hzero)
  obtain rfl := Option.some.inj (hdrafts.symm.trans hsome)
  rw [h.drop_ids hr hp, hcount, hdrafts]
  have hlen : ((cachedRow rows r).take r.2.draftLen).length = r.2.draftLen := by
    rw [List.length_take, hwidth]
    exact Nat.min_eq_left hle
  refine List.forall₂_iff_get.mpr ⟨?_, fun k hk hk' => ?_⟩
  · rw [List.length_map, List.length_range, hlen]
  · rw [List.get_eq_getElem, List.get_eq_getElem, List.getElem_map, List.getElem_range,
      List.getElem_take]
    exact hdrawn k _ (List.getElem?_eq_getElem _)

theorem forall₂_flatMap {β : Type} {R : Int → α → Prop} {l : List β} {f : β → List Int}
    {g : β → List α} (h : ∀ x ∈ l, List.Forall₂ R (f x) (g x)) :
    List.Forall₂ R (l.flatMap f) (l.flatMap g) := by
  induction l with
  | nil => exact List.Forall₂.nil
  | cons x l ih =>
      rw [List.flatMap_cons, List.flatMap_cons]
      exact List.rel_append (h x List.mem_cons_self)
        (ih fun y hy => h y (List.mem_cons_of_mem x hy))

/-- The draft tokens that the rejection sampler is given are those of the requests, each with
the probabilities it was drawn from, and the logits that judge them are their own. -/
theorem verification_inputs (h : VerifyOk prev prevReqIds batch spec) (hspec : spec ≠ [])
    {R : Int → α → Prop} {drafts : DraftTokenIds} (hdrafts : prev.draftTokenIds = some drafts)
    {rows : List (List α)} (hrows : DrawnFrom R prevReqIds drafts rows) (gpu : Nat → Int)
    (behind : List Int) :
    ∃ out metadata probs,
      prepareLogits (batch.map fun r => (r.1, r.2.numScheduledTokens)) spec
        ((List.range (batch.map fun r => r.2.numScheduledTokens).sum).map
          (prepareInputIds prev (batch.map Prod.snd) gpu) ++ behind) = .ok out ∧
      Selects (batch.map fun r => (r.1, r.2.ids prev)) spec out ∧
      out.specDecodeMetadata = some metadata ∧
      getSpecDecodeDraftProbs (some ⟨prevReqIds, rows⟩) (batch.map Prod.fst)
        metadata.numDraftTokens = (if metadata.draftTokenIds = [] then none else some probs) ∧
      List.Forall₂ R metadata.draftTokenIds probs := by
  have hlens : (batch.map fun r => (r.1, r.2.numScheduledTokens)) =
      (batch.map fun r => (r.1, r.2.ids prev)).map fun r => (r.1, r.2.length) := by
    rw [List.map_map]
    exact List.map_congr_left fun r hr => by
      rw [← h.step.length_ids (List.mem_map_of_mem hr)]
      rfl
  have hinputs : (List.range (batch.map fun r => r.2.numScheduledTokens).sum).map
      (prepareInputIds prev (batch.map Prod.snd) gpu) =
        (batch.map fun r => (r.1, r.2.ids prev)).flatMap Prod.snd := by
    have hsum : (batch.map fun r => r.2.numScheduledTokens).sum =
        ((batch.map Prod.snd).map BatchReq.numScheduledTokens).sum := by
      rw [List.map_map]
      rfl
    rw [hsum, List.map_congr_left fun i hi =>
      h.step.prepareInputIds_apply (List.mem_range.mp hi) gpu, h.step.map_want, List.flatMap_map,
      List.flatMap_map]
  obtain ⟨out, hout, hselects⟩ := selects_drafts h.batchOk hspec (fun r hr => by
    obtain ⟨q, hq, rfl⟩ := List.mem_map.mp hr
    exact h.fits hq) behind
  cases hmeta : out.specDecodeMetadata with
  | none => exact absurd (hselects.plain.mpr hmeta) hspec
  | some metadata =>
      obtain ⟨-, hcounts, htokens⟩ := hselects.drafts metadata hmeta
      rw [List.map_map] at hcounts
      rw [List.flatMap_map] at htokens
      have hdrawn := forall₂_flatMap fun r hr => h.drawn hdrafts hrows hr
      refine ⟨out, metadata, batch.flatMap fun r => (cachedRow rows r).take (draftLen spec r.1),
        by rw [hlens, hinputs]; exact hout, hselects, hmeta, ?_, by rw [htokens]; exact hdrawn⟩
      have hprobs := getSpecDecodeDraftProbs_eq ⟨prevReqIds, rows⟩ Prod.fst
        (fun r : κ × BatchReq => draftLen spec r.1) (cachedRow rows)
        fun r (hr : r ∈ batch) hne => by
          rw [h.counted r hr] at hne
          obtain ⟨_, -, -, hlookup⟩ := h.cachedRow_eq hrows hr (Nat.pos_of_ne_zero hne)
          exact hlookup
      rw [hcounts]
      refine hprobs.trans ?_
      congr 1
      rw [htokens, List.flatMap_eq_nil_iff]
      refine propext (forall₂_congr fun r hr => ?_)
      have hfits := h.fits hr
      rw [List.drop_eq_nil_iff]
      show draftLen spec r.1 = 0 ↔
        (r.2.ids prev).length ≤ (r.2.ids prev).length - draftLen spec r.1
      omega

/-- Request 7 has moved from row 1 to row 0, request 5 is new, and request 4 goes on without
drafts. -/
def movedBatch : List (Nat × BatchReq) :=
  [(7, ⟨some 1, 3, 2, [0, -1, -1]⟩), (5, ⟨none, 2, 0, [51, 52]⟩), (4, ⟨some 0, 1, 0, [0]⟩)]

def movedPrevious : Previous where
  prevSampledTokenIds := some fun i => 100 + i
  draftTokenIds := some ⟨2, fun p k => 200 + 10 * p + k⟩
  prevNumSpecTokens := 2

def movedDrafts : DraftTokenIds := ⟨2, fun p k => 200 + 10 * p + k⟩

theorem movedBatch_ok : VerifyOk movedPrevious [4, 7, 6] movedBatch [(7, [-1, -1])] where
  step :=
    { gathered := by decide
      scheduled := by decide
      sampled := fun r hr _ => ⟨Option.some_ne_none _,
        (by decide : ∀ r ∈ movedBatch.map Prod.snd, r.draftLen < r.numScheduledTokens) r hr⟩
      drafted := fun r hr _ _ => ⟨movedDrafts, rfl, rfl,
        (by decide : ∀ r ∈ movedBatch.map Prod.snd, r.draftLen ≤ 2) r hr⟩ }
  nonempty := by decide
  distinct := by decide
  entries := by decide
  known := by decide
  counted := by decide
  goesOn := by
    intro r hr hpos
    rcases List.mem_cons.mp hr with rfl | hr
    · exact ⟨1, rfl, rfl⟩
    · exact absurd hpos ((by decide : ∀ r ∈ movedBatch.tail, ¬ 0 < r.2.draftLen) r hr)
  prevDistinct := by decide

theorem movedDrafts_drawn : DrawnFrom (fun token prob : Int => token = prob) [4, 7, 6] movedDrafts
    ((List.range 3).map fun (p : Nat) => (List.range 2).map fun (k : Nat) =>
      200 + 10 * (p : Int) + k) where
  length := rfl
  drawn := by
    intro p row hrow
    rw [List.getElem?_map] at hrow
    obtain ⟨_, hp, rfl⟩ := Option.map_eq_some_iff.mp hrow
    obtain ⟨hlt, rfl⟩ := List.getElem?_eq_some_iff.mp hp
    refine ⟨rfl, fun k a ha => ?_⟩
    rw [List.getElem?_map] at ha
    obtain ⟨_, hk, rfl⟩ := Option.map_eq_some_iff.mp ha
    obtain ⟨_, rfl⟩ := List.getElem?_eq_some_iff.mp hk
    rw [List.getElem_range, List.getElem_range]
    rfl

theorem verification_inputs_moved : ∃ out metadata probs,
    prepareLogits [(7, 3), (5, 2), (4, 1)] [(7, [-1, -1])]
      ((List.range 6).map (prepareInputIds movedPrevious (movedBatch.map Prod.snd) fun _ => 9) ++
        [9]) = .ok out ∧
    Selects [(7, [101, 210, 211]), (5, [51, 52]), (4, [100])] [(7, [-1, -1])] out ∧
    out.specDecodeMetadata = some metadata ∧
    getSpecDecodeDraftProbs (some ⟨[4, 7, 6], [[200, 201], [210, 211], [220, 221]]⟩) [7, 5, 4]
      metadata.numDraftTokens = (if metadata.draftTokenIds = [] then none else some probs) ∧
    List.Forall₂ (fun token prob : Int => token = prob) metadata.draftTokenIds probs :=
  verification_inputs movedBatch_ok (by decide) rfl movedDrafts_drawn (fun _ => 9) [9]

end FlashNext.Ports.SpecDecode
