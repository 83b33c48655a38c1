import FlashNext.Ports.SpecDecode
import FlashNext.Verified.PyLists
import Mathlib.Data.List.Nodup

/-!
# The metadata selects the right rows

Packed request by request, the logits are the last rows of each request, one more than its
drafts; the target rows are all of these but the last, the bonus row is the last, and the
draft tokens are the last tokens of the request.
-/

namespace FlashNext.Ports.SpecDecode

open FlashNext.Verified.Checked
open FlashNext.Verified.PyLists
open FlashNext.Verified.Ragged
open FlashNext.Verified.Varlen

variable {κ α β : Type} [DecidableEq κ]

/-! ## Sums and running numbers -/

theorem checked_some (a : α) (e : SpecError) : checked (some a) e = .ok a := rfl

theorem getCumsumAndArange_ok {numTokens : List Nat} (h : numTokens ≠ []) :
    getCumsumAndArange numTokens = .ok (cumsum numTokens, numTokens.flatMap List.range) := by
  rw [getCumsumAndArange, getLast?_cumsum numTokens h, cumsum_sub, checked_some, ok_bind]
  show Except.ok (cumsum numTokens, List.zipWith _ _ _) = _
  rw [arange_sub]

/-! ## The metadata -/

/-- The last tokens of a request. -/
theorem take_drop_last {l : List α} {n k : Nat} (hlen : l.length = n) (hk : k ≤ n) :
    (l.drop (n - k)).take k = l.drop (n - k) :=
  List.take_of_length_le (by rw [List.length_drop]; omega)

theorem drop_one_last {l : List α} {n k : Nat} (hlen : l.length = n) (hk : k + 1 ≤ n) :
    ((l.drop (n - (k + 1))).drop 1).take k = l.drop (n - k) := by
  rw [List.drop_drop, (by omega : n - (k + 1) + 1 = n - k)]
  exact take_drop_last hlen (by omega)

/-- The metadata of a batch of requests with `len` tokens, `drafts` of them drafts. -/
def metadata (batch : List β) (ids : β → List Int) (len drafts : β → Nat) :
    SpecDecodeMetadata where
  draftTokenIds := batch.flatMap fun r => (ids r).drop (len r - drafts r)
  numDraftTokens := batch.map drafts
  cuNumDraftTokens := cumsum (batch.map drafts)
  cuNumSampledTokens := cumsum (batch.map fun r => drafts r + 1)
  targetLogitsIndices := (List.zipWith List.range'
    (bases (fun r => drafts r + 1) (fun _ => 0) batch) (batch.map drafts)).flatten
  bonusLogitsIndices := bases (fun r => drafts r + 1) drafts batch
  logitsIndices := (List.zipWith List.range'
    (bases len (fun r => len r - (drafts r + 1)) batch)
    (batch.map fun r => drafts r + 1)).flatten

theorem calcSpecDecodeMetadata_ok {batch : List β} (ids : β → List Int) (len drafts : β → Nat)
    (hne : batch ≠ []) (hids : ∀ r ∈ batch, (ids r).length = len r)
    (hfits : ∀ r ∈ batch, drafts r < len r) (behind : List Int) :
    calcSpecDecodeMetadata (batch.flatMap ids ++ behind) (batch.map drafts)
      (cumsum (batch.map len)) = .ok (metadata batch ids len drafts) := by
  have hsampled : (batch.map drafts).map (· + 1) = batch.map fun r => drafts r + 1 := by
    rw [List.map_map]
    rfl
  have hnonempty : ∀ f : β → Nat, batch.map f ≠ [] := fun f h => hne (List.map_eq_nil_iff.mp h)
  have hlogits : List.zipWith (· + ·)
      (repeatBy (List.zipWith (· - ·) (cumsum (batch.map len))
        (batch.map fun r => drafts r + 1)) (batch.map fun r => drafts r + 1))
      ((batch.map fun r => drafts r + 1).flatMap List.range) =
        (metadata batch ids len drafts).logitsIndices := by
    rw [cumsum_sub_eq_bases _ _ _ fun r hr => Nat.succ_le_of_lt (hfits r hr)]
    exact repeatBy_add _ _ (by rw [length_bases, List.length_map])
  have htarget : List.zipWith (· + ·)
      (repeatBy (List.zipWith (· - ·) (cumsum (batch.map fun r => drafts r + 1))
        (batch.map fun r => drafts r + 1)) (batch.map drafts))
      ((batch.map drafts).flatMap List.range) =
        (metadata batch ids len drafts).targetLogitsIndices := by
    rw [cumsum_sub_eq_bases _ _ _ fun r _ => Nat.le_refl _]
    simp only [Nat.sub_self]
    exact repeatBy_add _ _ (by rw [length_bases, List.length_map])
  have hgather : gather (batch.flatMap ids ++ behind)
      (metadata batch ids len drafts).logitsIndices =
        some (batch.flatMap fun r => (ids r).drop (len r - (drafts r + 1))) := by
    rw [metadata, gather_bases batch ids behind len _ _ hids fun r hr => by
      have hlt := hfits r hr
      omega]
    exact congrArg some (List.flatMap_congr fun r hr =>
      take_drop_last (hids r hr) (Nat.succ_le_of_lt (hfits r hr)))
  have hdrafts : gather (batch.flatMap fun r => (ids r).drop (len r - (drafts r + 1)))
      ((metadata batch ids len drafts).targetLogitsIndices.map (· + 1)) =
        some (metadata batch ids len drafts).draftTokenIds := by
    have hread := gather_bases batch (fun r => (ids r).drop (len r - (drafts r + 1))) []
      (fun r => drafts r + 1) (fun _ => 0 + 1) drafts
      (fun r hr => by
        have hlt := hfits r hr
        rw [List.length_drop, hids r hr]
        omega)
      (fun r _ => by omega)
    rw [List.append_nil] at hread
    rw [metadata, map_add_flatten, bases_add, hread]
    exact congrArg some (List.flatMap_congr fun r hr =>
      drop_one_last (hids r hr) (Nat.succ_le_of_lt (hfits r hr)))
  have hbonus : (cumsum (batch.map fun r => drafts r + 1)).map (· - 1) =
      (metadata batch ids len drafts).bonusLogitsIndices :=
    cumsum_sub_one fun r _ => Nat.succ_pos (drafts r)
  unfold calcSpecDecodeMetadata
  simp only [hsampled, getCumsumAndArange_ok (hnonempty _), ok_bind, hlogits, htarget, hgather,
    hdrafts, checked_some, hbonus]
  rfl

/-! ## Counting the drafts -/

/-- The number of drafts that are scheduled for a request. -/
def draftLen (spec : List (κ × List Int)) (id : κ) : Nat :=
  ((spec.lookup id).map List.length).getD 0

/-- The entry of `num_decode_draft_tokens`: -1 where there is more than drafts to compute. -/
def decodeLen (spec : List (κ × List Int)) (r : κ × Nat) : Int :=
  ((spec.lookup r.1).bind fun drafts =>
    if r.2 = drafts.length + 1 then some (drafts.length : Int) else none).getD (-1)

section Counts

variable {batch : List (κ × Nat)} {spec : List (κ × List Int)}

theorem countDrafts_eq (hnodup : (batch.map Prod.fst).Nodup) {r : κ × Nat} (hr : r ∈ batch)
    (drafts : List Int) (f : κ × Nat → Nat) (g : κ × Nat → Int) :
    countDrafts batch ⟨batch.map f, batch.map g⟩ (r.1, drafts) =
      if drafts.length + 1 ≤ r.2 then
        .ok ⟨batch.map fun q => if q.1 = r.1 then drafts.length else f q,
          batch.map fun q => if q.1 = r.1 ∧ q.2 = drafts.length + 1 then (drafts.length : Int)
            else g q⟩
      else .error .assertion := by
  obtain ⟨i, hfind, hget, hset⟩ := set_of_mem hnodup hr
  rw [countDrafts, hfind, checked_some, ok_bind, hget, Option.map_some, checked_some, ok_bind]
  by_cases hfits : drafts.length + 1 ≤ r.2
  · rw [require_ok hfits, if_pos hfits, ok_bind, hset]
    congr 2
    by_cases heq : r.2 = drafts.length + 1
    · rw [if_pos heq, hset]
      refine List.map_congr_left fun q hq => ?_
      by_cases hkey : q.1 = r.1
      · have hsame : q = r := List.inj_on_of_nodup_map hnodup hq hr hkey
        rw [hsame, if_pos rfl, if_pos ⟨rfl, heq⟩]
      · rw [if_neg hkey, if_neg fun h => hkey h.1]
    · rw [if_neg heq]
      refine List.map_congr_left fun q hq => ?_
      refine (if_neg fun h => heq ?_).symm
      rw [← List.inj_on_of_nodup_map hnodup hq hr h.1]
      exact h.2
  · rw [if_neg hfits, require, if_neg hfits]
    rfl

/-- The counts behind the loop. -/
theorem foldlM_countDrafts (hnodup : (batch.map Prod.fst).Nodup)
    (hkeys : (spec.map Prod.fst).Nodup)
    (hknown : ∀ e ∈ spec, ∃ r ∈ batch, r.1 = e.1 ∧ e.2.length + 1 ≤ r.2)
    (f : κ × Nat → Nat) (g : κ × Nat → Int) :
    spec.foldlM (countDrafts batch) ⟨batch.map f, batch.map g⟩ =
      .ok ⟨batch.map fun r => ((spec.lookup r.1).map List.length).getD (f r),
        batch.map fun r => ((spec.lookup r.1).bind fun drafts =>
          if r.2 = drafts.length + 1 then some (drafts.length : Int) else none).getD (g r)⟩ := by
  induction spec generalizing f g with
  | nil => rfl
  | cons e spec ih =>
      obtain ⟨hfresh, hrest⟩ := List.nodup_cons.mp hkeys
      obtain ⟨r, hr, hkey, hfits⟩ := hknown e List.mem_cons_self
      have hstep := countDrafts_eq hnodup hr e.2 f g
      rw [if_pos hfits, hkey] at hstep
      have hgone : spec.lookup e.1 = none := List.lookup_eq_none_iff.mpr fun p hp =>
        bne_iff_ne.mpr fun h => hfresh (List.mem_map.mpr ⟨p, hp, h.symm⟩)
      rw [List.foldlM_cons, hstep, ok_bind,
        ih hrest fun q hq => hknown q (List.mem_cons_of_mem _ hq)]
      congr 2
      · refine List.map_congr_left fun q _ => ?_
        rw [List.lookup_cons]
        by_cases hq : q.1 = e.1
        · rw [hq, hgone, if_pos rfl, beq_self_eq_true]
          rfl
        · rw [if_neg hq, beq_false_of_ne hq]
      · refine List.map_congr_left fun q _ => ?_
        rw [List.lookup_cons]
        by_cases hq : q.1 = e.1
        · rw [hq, hgone, beq_self_eq_true]
          by_cases heq : q.2 = e.2.length + 1
          · rw [if_pos ⟨rfl, heq⟩, Option.bind_some, if_pos heq]
            rfl
          · rw [if_neg fun h => heq h.2, Option.bind_some, if_neg heq]
            rfl
        · rw [if_neg fun h => hq h.1, beq_false_of_ne hq]

/-- A request with too many drafts stops the loop. -/
theorem foldlM_countDrafts_error (hnodup : (batch.map Prod.fst).Nodup)
    (hknown : ∀ e ∈ spec, ∃ r ∈ batch, r.1 = e.1)
    (hover : ∃ e ∈ spec, ∃ r ∈ batch, r.1 = e.1 ∧ r.2 ≤ e.2.length)
    (f : κ × Nat → Nat) (g : κ × Nat → Int) :
    spec.foldlM (countDrafts batch) ⟨batch.map f, batch.map g⟩ = .error .assertion := by
  induction spec generalizing f g with
  | nil =>
      obtain ⟨e, he, -⟩ := hover
      cases he
  | cons e spec ih =>
      obtain ⟨r, hr, hkey⟩ := hknown e List.mem_cons_self
      have hstep := countDrafts_eq hnodup hr e.2 f g
      rw [hkey] at hstep
      rw [List.foldlM_cons, hstep]
      by_cases hfits : e.2.length + 1 ≤ r.2
      · rw [if_pos hfits, ok_bind]
        refine ih (fun q hq => hknown q (List.mem_cons_of_mem _ hq)) ?_ _ _
        obtain ⟨q, hq, s, hs, hsq, hle⟩ := hover
        rcases List.mem_cons.mp hq with rfl | hq
        · have hsame : s = r := List.inj_on_of_nodup_map hnodup hs hr (hsq.trans hkey.symm)
          rw [hsame] at hle
          omega
        · exact ⟨q, hq, s, hs, hsq, hle⟩
      · rw [if_neg hfits]
        rfl

end Counts

/-! ## Draft probabilities -/

/-- The rows of the requests with drafts, one behind the other. -/
theorem mapM_probs {cached : DraftProbs κ α} {batch : List β} {id : β → κ} {count : β → Nat}
    {row : β → List α}
    (h : ∀ r ∈ batch, count r ≠ 0 → (cached.reqIds.zip cached.rows).lookup (id r) = some (row r)) :
    ((batch.map fun r => (id r, count r)).filter fun r => r.2 ≠ 0).mapM (fun r => do
      let probs ← (cached.reqIds.zip cached.rows).lookup r.1
      some (probs.take r.2)) =
        some ((batch.filter fun r => count r ≠ 0).map fun r => (row r).take (count r)) := by
  induction batch with
  | nil => rfl
  | cons r batch ih =>
      have hrest := ih fun q hq => h q (List.mem_cons_of_mem _ hq)
      by_cases hzero : count r = 0
      · rw [List.map_cons, List.filter_cons_of_neg (by simpa using hzero),
          List.filter_cons_of_neg (by simpa using hzero)]
        exact hrest
      · rw [List.map_cons, List.filter_cons_of_pos (by simpa using hzero),
          List.filter_cons_of_pos (by simpa using hzero), List.mapM_cons, hrest,
          h r List.mem_cons_self hzero]
        rfl

theorem getSpecDecodeDraftProbs_eq (cached : DraftProbs κ α) {batch : List β} (id : β → κ)
    (count : β → Nat) (row : β → List α)
    (h : ∀ r ∈ batch, count r ≠ 0 → (cached.reqIds.zip cached.rows).lookup (id r) = some (row r)) :
    getSpecDecodeDraftProbs (some cached) (batch.map id) (batch.map count) =
      if ∀ r ∈ batch, count r = 0 then none
      else some (batch.flatMap fun r => (row r).take (count r)) := by
  have hflatten : ((batch.filter fun r => count r ≠ 0).map fun r =>
      (row r).take (count r)).flatten = batch.flatMap fun r => (row r).take (count r) := by
    induction batch with
    | nil => rfl
    | cons r batch ih =>
        have hrest := ih fun q hq => h q (List.mem_cons_of_mem _ hq)
        by_cases hzero : count r = 0
        · rw [List.filter_cons_of_neg (by simpa using hzero), List.flatMap_cons, hzero,
            List.take_zero]
          exact hrest
        · rw [List.filter_cons_of_pos (by simpa using hzero), List.map_cons, List.flatten_cons,
            hrest, List.flatMap_cons]
  have hzip : (batch.map id).zip (batch.map count) = batch.map fun r => (id r, count r) :=
    List.zip_map' ..
  rw [getSpecDecodeDraftProbs, Option.bind_eq_bind, Option.bind_some, hzip, mapM_probs h,
    Option.bind_eq_bind, Option.bind_some, hflatten]
  congr 1
  rw [List.isEmpty_iff, List.map_eq_nil_iff, List.filter_eq_nil_iff]
  simp

/-! ## The rows that are selected -/

/-- What the scheduler and the input batch promise: requests and entries are distinct, every
entry has its request, and a request has a token. -/
structure BatchOk (batch spec : List (κ × List Int)) : Prop where
  nonempty : batch ≠ []
  distinct : (batch.map Prod.fst).Nodup
  entries : (spec.map Prod.fst).Nodup
  known : ∀ e ∈ spec, e.1 ∈ batch.map Prod.fst
  scheduled : ∀ r ∈ batch, r.2 ≠ []

/-- The logits are those of the last rows; every draft is judged by the row before it, and the
last row of a request gives its bonus token. -/
structure Selects (batch spec : List (κ × List Int)) (out : PreparedLogits) : Prop where
  logits : ∀ {α : Type} (rows : κ × List Int → List α) (behind : List α),
    (∀ r ∈ batch, (rows r).length = r.2.length) →
      gather (batch.flatMap rows ++ behind) out.logitsIndices =
        some (batch.flatMap fun r => (rows r).drop (r.2.length - (draftLen spec r.1 + 1)))
  sampled : out.numSampledTokens = batch.map fun r => draftLen spec r.1 + 1
  decodes : ∀ counts, out.numDecodeDraftTokens = some counts →
    counts = batch.map fun r => decodeLen spec (r.1, r.2.length)
  plain : spec = [] ↔ out.specDecodeMetadata = none
  drafts : ∀ m, out.specDecodeMetadata = some m → m.logitsIndices = out.logitsIndices ∧
    m.numDraftTokens = batch.map (fun r => draftLen spec r.1) ∧
    m.draftTokenIds = batch.flatMap fun r => r.2.drop (r.2.length - draftLen spec r.1)
  judges : ∀ m, out.specDecodeMetadata = some m → ∀ {α : Type} (rows : κ × List Int → List α),
    (∀ r ∈ batch, (rows r).length = draftLen spec r.1 + 1) →
      gather (batch.flatMap rows) m.targetLogitsIndices =
          some (batch.flatMap fun r => (rows r).take (draftLen spec r.1)) ∧
        gather (batch.flatMap rows) m.bonusLogitsIndices =
          some (batch.flatMap fun r => (rows r).drop (draftLen spec r.1))

section Batch

variable {batch spec : List (κ × List Int)}

omit [DecidableEq κ] in
theorem BatchOk.nodup_scheduled (h : BatchOk batch spec) :
    ((batch.map fun r => (r.1, r.2.length)).map Prod.fst).Nodup := by
  rw [List.map_map]
  exact h.distinct

/-- The drafts of an entry are counted for its request. -/
theorem BatchOk.draftLen_eq (h : BatchOk batch spec) {e : κ × List Int} (he : e ∈ spec) :
    draftLen spec e.1 = e.2.length := by
  rw [draftLen, lookup_of_mem h.entries he]
  rfl

omit [DecidableEq κ] in
theorem BatchOk.exists_request (h : BatchOk batch spec) {e : κ × List Int} (he : e ∈ spec) :
    ∃ r ∈ batch, r.1 = e.1 := List.mem_map.mp (h.known e he)

/-- A request whose drafts do not fit has an entry. -/
theorem BatchOk.exists_entry (h : BatchOk batch spec) {r : κ × List Int} (hr : r ∈ batch)
    (hover : r.2.length ≤ draftLen spec r.1) : ∃ e ∈ spec, e.1 = r.1 := by
  cases hlookup : spec.lookup r.1 with
  | none =>
      have hpos := List.length_pos_iff.mpr (h.scheduled r hr)
      rw [draftLen, hlookup, Option.map_none, Option.getD_none] at hover
      omega
  | some drafts =>
      obtain ⟨_, _, hsplit, -⟩ := List.lookup_eq_some_iff.mp hlookup
      exact ⟨(r.1, drafts), by rw [hsplit]; simp, rfl⟩

theorem prepareLogits_error (h : BatchOk batch spec) (ids : List Int)
    (hover : ∃ r ∈ batch, r.2.length ≤ draftLen spec r.1) :
    prepareLogits (batch.map fun r => (r.1, r.2.length)) spec ids = .error .assertion := by
  obtain ⟨r, hr, hle⟩ := hover
  obtain ⟨e, he, hkey⟩ := h.exists_entry hr hle
  have hsome : spec.isEmpty = false := by
    cases spec with
    | nil => cases he
    | cons _ _ => rfl
  have hloop := foldlM_countDrafts_error h.nodup_scheduled
    (fun q hq => by
      obtain ⟨s, hs, hsq⟩ := h.exists_request hq
      exact ⟨_, List.mem_map_of_mem hs, hsq⟩)
    ⟨e, he, (r.1, r.2.length), List.mem_map_of_mem hr, hkey.symm, by
      rw [← h.draftLen_eq he, hkey]
      exact hle⟩ (fun _ => 0) (fun _ => -1)
  rw [prepareLogits, hsome]
  show (_ >>= _) = _
  rw [hloop]
  rfl

/-- A batch without drafts. -/
theorem selects_plain (h : BatchOk batch []) (ids : List Int) :
    ∃ out, prepareLogits (batch.map fun r => (r.1, r.2.length)) [] ids = .ok out ∧
      Selects batch [] out := by
  have hlens : (batch.map fun r => (r.1, r.2.length)).map Prod.snd =
      batch.map fun r => r.2.length := by rw [List.map_map]; rfl
  have hpos : ∀ r ∈ batch, 0 < r.2.length := fun r hr =>
    List.length_pos_iff.mpr (h.scheduled r hr)
  refine ⟨_, rfl, ?_⟩
  exact
    { logits := by
        intro α rows behind hrows
        show gather _ ((cumsum _).map _) = _
        rw [hlens, cumsum_sub_one hpos, gather_single rows behind _ _ hrows fun r hr => by
          have hr' := hpos r hr
          omega]
        exact congrArg some (List.flatMap_congr fun r hr =>
          take_drop_last (hrows r hr) (hpos r hr))
      sampled := by
        show (batch.map _).map _ = _
        rw [List.map_map]
        rfl
      decodes := nofun
      plain := iff_of_true rfl rfl
      drafts := nofun
      judges := nofun }

theorem selects_drafts (h : BatchOk batch spec) (hne : spec ≠ [])
    (hfits : ∀ r ∈ batch, draftLen spec r.1 < r.2.length) (behind : List Int) :
    ∃ out, prepareLogits (batch.map fun r => (r.1, r.2.length)) spec
        (batch.flatMap Prod.snd ++ behind) = .ok out ∧ Selects batch spec out := by
  have hsome : spec.isEmpty = false := by
    cases spec with
    | nil => exact absurd rfl hne
    | cons _ _ => rfl
  have hlens : (batch.map fun r => (r.1, r.2.length)).map Prod.snd =
      batch.map fun r => r.2.length := by rw [List.map_map]; rfl
  have hloop := foldlM_countDrafts h.nodup_scheduled h.entries
    (fun e he => by
      obtain ⟨r, hr, hkey⟩ := h.exists_request he
      refine ⟨_, List.mem_map_of_mem hr, hkey, ?_⟩
      rw [← h.draftLen_eq he, ← hkey]
      exact hfits r hr) (fun _ => 0) (fun _ => -1)
  have hcounts : (batch.map fun r => (r.1, r.2.length)).map
      (fun r => ((spec.lookup r.1).map List.length).getD 0) =
        batch.map fun r => draftLen spec r.1 := by rw [List.map_map]; rfl
  rw [hcounts] at hloop
  have hmeta := calcSpecDecodeMetadata_ok Prod.snd (fun r => r.2.length)
    (fun r => draftLen spec r.1) h.nonempty (fun r _ => rfl) hfits behind
  let m := metadata batch Prod.snd (fun r => r.2.length) fun r => draftLen spec r.1
  refine ⟨⟨m.logitsIndices, some m, (batch.map fun r => draftLen spec r.1).map (· + 1),
    some ((batch.map fun r => (r.1, r.2.length)).map (decodeLen spec))⟩, ?_, ?_⟩
  · rw [prepareLogits, hsome]
    show (_ >>= _) = _
    rw [hloop, ok_bind, hlens, hmeta]
    rfl
  exact
    { logits := by
        intro α rows behind hrows
        refine (gather_bases batch rows behind _ _ _ hrows fun r hr => ?_).trans ?_
        · exact Nat.le_of_eq (Nat.sub_add_cancel (hfits r hr))
        · exact congrArg some (List.flatMap_congr fun r hr =>
            take_drop_last (hrows r hr) (hfits r hr))
      sampled := by
        rw [List.map_map]
        rfl
      decodes := by
        intro counts hcounts
        rw [← Option.some.inj hcounts, List.map_map]
        rfl
      plain := iff_of_false hne nofun
      drafts := by
        intro m' hm
        obtain rfl := Option.some.inj hm
        exact ⟨rfl, rfl, rfl⟩
      judges := by
        intro m' hm α rows hrows
        obtain rfl := Option.some.inj hm
        constructor
        · have hread := gather_bases batch rows [] _ (fun _ => 0)
            (fun r => draftLen spec r.1) hrows fun r _ => by omega
          rw [List.append_nil] at hread
          exact hread
        · have hread := gather_single rows [] _ (fun r => draftLen spec r.1) hrows
            fun r _ => Nat.lt_succ_self _
          rw [List.append_nil] at hread
          refine hread.trans (congrArg some (List.flatMap_congr fun r hr => ?_))
          refine List.take_of_length_le ?_
          rw [List.length_drop, hrows r hr]
          omega }

/-- A request with fewer tokens than its drafts need stops the step; every other batch gets
the rows it should. -/
theorem prepareLogits_exact (h : BatchOk batch spec) (behind : List Int) :
    ((∃ r ∈ batch, r.2.length ≤ draftLen spec r.1) →
      prepareLogits (batch.map fun r => (r.1, r.2.length)) spec
        (batch.flatMap Prod.snd ++ behind) = .error .assertion) ∧
    ((∀ r ∈ batch, draftLen spec r.1 < r.2.length) →
      ∃ out, prepareLogits (batch.map fun r => (r.1, r.2.length)) spec
        (batch.flatMap Prod.snd ++ behind) = .ok out ∧ Selects batch spec out) := by
  refine ⟨prepareLogits_error h _, fun hfits => ?_⟩
  by_cases hne : spec = []
  · subst hne
    exact selects_plain h _
  · exact selects_drafts h hne hfits behind

end Batch

/-- Drafts for the first and the last of three requests. -/
def threeRequests : List (Nat × List Int) :=
  [(0, [10, 11, 12, 13]), (1, [20, 21, 22]), (2, [30, 31, 32])]

def twoDrafted : List (Nat × List Int) := [(2, [-1, -1]), (0, [-1, -1, -1])]

theorem prepareLogits_exact_twoDrafted : ∃ out,
    prepareLogits [(0, 4), (1, 3), (2, 3)] twoDrafted
      [10, 11, 12, 13, 20, 21, 22, 30, 31, 32, 99] = .ok out ∧
    Selects threeRequests twoDrafted out :=
  (prepareLogits_exact (show BatchOk threeRequests twoDrafted from
    ⟨by decide, by decide, by decide, by decide, by decide⟩) [99]).2 (by decide)

end FlashNext.Ports.SpecDecode
