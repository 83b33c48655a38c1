import FlashNext.Ports.AsyncRunReady

/-!
# All ranks run on the true tokens

As long as the scheduler sends what the world allows, every rank gives the model the true
tokens, and all ranks discard the same rows; so they also agree on which steps have a broadcast.
-/

namespace FlashNext.Ports.AsyncRun

open FlashNext.Verified.Checked
open FlashNext.Verified.PyLists (lookup_of_mem)

variable {κ : Type} [DecidableEq κ]

/-! ## Behind the sampler -/

/-- A state with a placeholder more. -/
def extendState (state : CachedRequestState) : CachedRequestState :=
  { state with outputTokenIds := state.outputTokenIds ++ [-1] }

/-- A row with a token more. -/
def extendRow (writeToken : Bool) (row : BatchRow) : BatchRow :=
  { row with
    tokenIds := if writeToken then Function.update row.tokenIds row.numTokensNoSpec (-1)
      else row.tokenIds
    numTokensNoSpec := row.numTokensNoSpec + 1 }

/-- The placeholders go to the rows that are kept, once each. -/
theorem foldl_appendPlaceholder (writeToken : Bool) {entries : List (κ × Nat)}
    (hnodup : (entries.map Prod.fst).Nodup) (st : Runner κ) :
    entries.foldl (fun st entry => st.appendPlaceholder writeToken entry.1) st =
      { st with
        requests := fun id => if id ∈ entries.map Prod.fst then
          (st.requests id).map extendState else st.requests id
        rows := fun id => if id ∈ entries.map Prod.fst then
          (st.rows id).map (extendRow writeToken) else st.rows id } := by
  induction entries generalizing st with
  | nil => simp
  | cons entry entries ih =>
      obtain ⟨hentry, hrest⟩ := List.nodup_cons.mp hnodup
      rw [List.foldl_cons, ih hrest]
      have hext : ∀ {β : Type} (f : κ → Option β) (g : β → β),
          (fun id => if id ∈ entries.map Prod.fst then
              (Function.update f entry.1 ((f entry.1).map g) id).map g
            else Function.update f entry.1 ((f entry.1).map g) id) =
          fun id => if id ∈ (entry :: entries).map Prod.fst then (f id).map g else f id := by
        intro β f g
        funext id
        by_cases hid : id = entry.1
        · subst hid
          have hself : entry.1 ∈ (entry :: entries).map Prod.fst := List.mem_cons_self
          rw [if_neg hentry, if_pos hself, Function.update_self]
        · have hiff : id ∈ (entry :: entries).map Prod.fst ↔ id ∈ entries.map Prod.fst := by
            rw [List.map_cons, List.mem_cons]
            exact or_iff_right hid
          simp only [Function.update_of_ne hid, hiff]
      exact congrArg₂ (fun requests rows => { st with requests, rows })
        (hext st.requests extendState) (hext st.rows (extendRow writeToken))

theorem foldlM_bookkeepRow {maxModelLen : Nat} {entries : List (κ × Nat)}
    (hnodup : (entries.map Prod.fst).Nodup) {st : Runner κ}
    (hroom : ∀ entry ∈ entries,
      ((st.rows entry.1).map (·.numTokensNoSpec)).getD 0 + 1 ≤ maxModelLen) :
    entries.foldlM (Runner.bookkeepRow maxModelLen) st =
      .ok (entries.foldl (fun st entry => st.appendPlaceholder true entry.1) st) := by
  induction entries generalizing st with
  | nil => rfl
  | cons entry entries ih =>
      obtain ⟨hentry, hrest⟩ := List.nodup_cons.mp hnodup
      have hstep : st.bookkeepRow maxModelLen entry = .ok (st.appendPlaceholder true entry.1) := by
        rw [Runner.bookkeepRow]
        show (require (_ + 1 ≤ maxModelLen) _ >>= _) = _
        rw [require_ok (hroom entry List.mem_cons_self)]
        rfl
      rw [List.foldlM_cons, hstep, ok_bind, List.foldl_cons]
      apply ih hrest
      intro entry' hmem
      have hne : entry'.1 ≠ entry.1 := fun heq => hentry (heq ▸ List.mem_map_of_mem hmem)
      show ((Function.update st.rows entry.1 _ entry'.1).map _).getD 0 + 1 ≤ maxModelLen
      rw [Function.update_of_ne hne]
      exact hroom entry' (List.mem_cons_of_mem entry hmem)

section Sample

variable {maxModelLen : Nat} {w : World κ} {input : StepInput κ} {st : Runner κ}

/-- The rows that are kept are those of the requests that get a token. -/
theorem Ready.mem_kept (h : Ready w input st) {entry : κ × Nat} :
    entry ∈ st.kept (w.trace input) ↔
      input.order[entry.2]? = some entry.1 ∧ w.samples input entry.1 = true := by
  rw [Runner.kept, List.mem_filter, h.ids, List.mem_zipIdx_iff_getElem?]
  apply and_congr_right
  intro hget
  have hmask : (w.trace input).discardRequestMask[entry.2]? =
      some (decide (input.output.computedAfter entry.1 <
        ((w.arrive input.output).tokens entry.1).length)) := by
    rw [World.trace, List.getElem?_map, hget, Option.map_some]
  have hmem : entry.1 ∈ input.order := List.mem_of_getElem? hget
  rw [hmask, Option.getD_some, World.samples, decide_eq_true hmem, Bool.true_and,
    Bool.not_eq_true', decide_eq_false_iff_not, Nat.not_lt, decide_eq_true_iff]

theorem Ready.nodup_kept (h : Ready w input st) (hs : Scheduled maxModelLen w input) :
    ((st.kept (w.trace input)).map Prod.fst).Nodup := by
  have hsub : ((st.kept (w.trace input)).map Prod.fst).Sublist
      (input.order.zipIdx.map Prod.fst) := by
    rw [Runner.kept, h.ids]
    exact List.filter_sublist.map _
  rw [List.zipIdx_map_fst] at hsub
  exact hsub.nodup hs.nodup_order

theorem Ready.mem_map_kept (h : Ready w input st) {id : κ} :
    id ∈ (st.kept (w.trace input)).map Prod.fst ↔ w.samples input id = true := by
  constructor
  · intro hmem
    obtain ⟨entry, hentry, rfl⟩ := List.mem_map.mp hmem
    exact (h.mem_kept.mp hentry).2
  · intro hsamples
    have hmem : id ∈ input.order := by
      rw [World.samples, Bool.and_eq_true, decide_eq_true_iff] at hsamples
      exact hsamples.1
    have hentry : (id, input.order.idxOf id) ∈ st.kept (w.trace input) :=
      h.mem_kept.mpr ⟨List.getElem?_idxOf hmem, hsamples⟩
    exact List.mem_map.mpr ⟨_, hentry, rfl⟩

theorem Ready.lookup_kept (h : Ready w input st) (hs : Scheduled maxModelLen w input) (id : κ) :
    (st.kept (w.trace input)).lookup id =
      if w.samples input id then some (input.order.idxOf id) else none := by
  cases hsamples : w.samples input id with
  | true =>
      have hmem : id ∈ input.order := by
        rw [World.samples, Bool.and_eq_true, decide_eq_true_iff] at hsamples
        exact hsamples.1
      have hentry : (id, input.order.idxOf id) ∈ st.kept (w.trace input) :=
        h.mem_kept.mpr ⟨List.getElem?_idxOf hmem, hsamples⟩
      exact lookup_of_mem (h.nodup_kept hs) hentry
  | false =>
      rw [if_neg Bool.false_ne_true, List.lookup_eq_none_iff]
      intro entry hentry
      rw [bne_iff_ne]
      rintro rfl
      rw [(h.mem_kept.mp hentry).2] at hsamples
      cases hsamples

/-- The world behind the step, for a request that gets a token and for the others. -/
theorem step_tokens (w : World κ) (input : StepInput κ) (id : κ) :
    (w.step input).tokens id = if w.samples input id then
      (w.arrive input.output).tokens id ++ [(input.sampled[input.order.idxOf id]?).getD 0]
    else (w.arrive input.output).tokens id := rfl

/-- A rank behind the sampler: the placeholders are appended, and the tokens themselves lie
where the requests are looked up. -/
theorem Ready.sampled_agrees (h : Ready w input st) (hs : Scheduled maxModelLen w input)
    (writeToken : Bool) {sampled : Nat → Int}
    (hsampled : (∃ id, w.samples input id = true) →
      sampled = fun i => (input.sampled[i]?).getD 0) :
    Agrees (w.step input)
      { (st.kept (w.trace input)).foldl
          (fun st entry => st.appendPlaceholder writeToken entry.1) st with
        prevSampledTokenIds := some sampled
        prevReqIdToIndex := fun id => (st.kept (w.trace input)).lookup id } := by
  rw [foldl_appendPlaceholder writeToken (h.nodup_kept hs)]
  simp only [h.mem_map_kept, h.lookup_kept hs]
  constructor
  · intro id hlive
    obtain ⟨state, hstate, hagrees⟩ := h.state id hlive
    cases hsamples : w.samples input id with
    | false =>
        refine ⟨state, ?_, hagrees.congr ?_ rfl⟩
        · simp only [hsamples, Bool.false_eq_true, if_false]
          exact hstate
        · rw [step_tokens, hsamples, if_neg Bool.false_ne_true]
    | true =>
        have htokens := step_tokens w input id
        rw [hsamples, if_pos rfl] at htokens
        refine ⟨extendState state, ?_, ?_, ?_, ?_⟩
        · simp only [hsamples, if_true, hstate, Option.map_some]
        · show state.promptTokenIds = _
          rw [htokens, hagrees.prompt]
          exact (List.take_append_of_le_length hagrees.promptLen_le).symm
        · rw [htokens, List.length_append]
          exact Nat.le_trans hagrees.promptLen_le (Nat.le_add_right _ _)
        · rw [htokens, List.length_append, ← hagrees.count]
          show _ + (state.outputTokenIds ++ [-1]).length = _
          rw [List.length_append, ← Nat.add_assoc]
          rfl
  · intro id hgone
    have hnone := h.gone id hgone
    show (if _ then (st.requests id).map extendState else st.requests id) = none
    rw [hnone]
    split <;> rfl
  · intro id (hid : id ∈ input.order)
    obtain ⟨row, hrow, hcomputed, hagrees⟩ := h.row id hid
    cases hsamples : w.samples input id with
    | false =>
        refine ⟨row, ?_, ?_, ?_⟩
        · simp only [hsamples, Bool.false_eq_true, if_false]
          exact hrow
        · rw [step_tokens, hsamples, if_neg Bool.false_ne_true]
          exact hagrees.count
        · intro _ k hk hlt
          rw [step_tokens, hsamples, if_neg Bool.false_ne_true] at hlt ⊢
          -- a request with a token on the GPU would have got another one
          have hunsampled : w.sampled id = false := by
            cases hwas : w.sampled id with
            | false => rfl
            | true =>
                obtain ⟨hlast, -⟩ := h.sampled id hid hwas
                have hpos := hs.numTokens_pos hid
                rw [World.samples, decide_eq_true hid, Bool.true_and, decide_eq_false_iff_not,
                  SchedulerOutput.computedAfter] at hsamples
                omega
          exact hagrees.tokens hunsampled k (Nat.le_trans (Nat.le_add_right _ _) hk) hlt
    | true =>
        refine ⟨extendRow writeToken row, ?_, ?_, ?_⟩
        · simp only [hsamples, if_true, hrow, Option.map_some]
        · rw [step_tokens, hsamples, if_pos rfl, List.length_append]
          show row.numTokensNoSpec + 1 = _
          rw [hagrees.count]
          rfl
        · intro hnot
          cases hsamples.symm.trans hnot
  · intro id (hid : id ∉ input.order)
    show (if _ then (st.rows id).map _ else st.rows id) = none
    rw [h.noRow id hid]
    split <;> rfl
  · intro id (hnot : w.samples input id = false)
    refine if_neg ?_
    rw [hnot]
    exact Bool.false_ne_true
  · intro id (hsamples' : w.samples input id = true)
    have hid : id ∈ input.order := by
      rw [World.samples, Bool.and_eq_true, decide_eq_true_iff] at hsamples'
      exact hsamples'.1
    have hreached : ((w.arrive input.output).tokens id).length ≤
        input.output.computedAfter id := by
      rw [World.samples, decide_eq_true hid, Bool.true_and, decide_eq_true_iff] at hsamples'
      exact hsamples'
    have hfits := hs.fits id hid
    rw [step_tokens, hsamples', if_pos rfl]
    refine ⟨?_, input.order.idxOf id, sampled, if_pos hsamples', rfl, ?_⟩
    · rw [List.length_append]
      exact congrArg (· + 1) (Nat.le_antisymm hfits hreached)
    · rw [List.getLast?_append, hsampled ⟨id, hsamples'⟩]
      rfl

theorem Ready.bookkeep (h : Ready w input st) (hs : Scheduled maxModelLen w input) :
    ∃ st', st.bookkeep maxModelLen (w.trace input) input.sampled = .ok st' ∧
      Agrees (w.step input) st' := by
  refine ⟨_, ?_, h.sampled_agrees hs true fun _ => rfl⟩
  have hroom : ∀ entry ∈ st.kept (w.trace input),
      ((st.rows entry.1).map (·.numTokensNoSpec)).getD 0 + 1 ≤ maxModelLen := by
    intro entry hentry
    obtain ⟨hget, hsamples⟩ := h.mem_kept.mp hentry
    obtain ⟨row, hrow, -, hagrees⟩ := h.row entry.1 (List.mem_of_getElem? hget)
    rw [hrow, Option.map_some, Option.getD_some, hagrees.count]
    exact hs.room entry.1 hsamples
  have hkept : ((st.kept (w.trace input)).foldl
      (fun st entry => st.appendPlaceholder true entry.1) st).kept (w.trace input) =
        st.kept (w.trace input) := by
    rw [foldl_appendPlaceholder true (h.nodup_kept hs)]
    rfl
  rw [Runner.bookkeep, foldlM_bookkeepRow (h.nodup_kept hs) hroom, ok_bind, hkept]
  rfl

theorem Ready.receive (h : Ready w input st) (hs : Scheduled maxModelLen w input)
    (uninit : Nat → Int) :
    Agrees (w.step input) (st.receive uninit (w.trace input) input.sampled) := by
  apply h.sampled_agrees hs false
  rintro ⟨id, hsamples⟩
  obtain ⟨entry, hentry, heq⟩ := List.mem_map.mp (h.mem_map_kept.mpr hsamples)
  -- the row that is kept is not discarded, so there is a broadcast
  rw [if_neg]
  intro hall
  rw [StepTrace.isAllReqsChunkedPrefill, List.all_eq_true] at hall
  have hkept := (List.mem_filter.mp hentry).2
  cases hmask : (w.trace input).discardRequestMask[entry.2]? with
  | none =>
      have hget := (h.mem_kept.mp hentry).1
      rw [World.trace, List.getElem?_map, hget] at hmask
      cases hmask
  | some discarded =>
      rw [hmask, Option.getD_some, Bool.not_eq_true'] at hkept
      have htrue := hall _ (List.mem_of_getElem? hmask)
      rw [hkept] at htrue
      cases htrue

/-- A step gives the model the true tokens, on every rank. -/
theorem Agrees.step (h : Agrees w st) (hs : Scheduled maxModelLen w input) (isLastRank : Bool)
    {memory : Memory κ} (hmemory : memory.Lawful) :
    ∃ st', st.step isLastRank maxModelLen memory input = .ok (w.trace input, st') ∧
      Agrees (w.step input) st' := by
  obtain ⟨st₁, hupdate, hready⟩ := h.updateStates hs isLastRank hmemory
  obtain ⟨inputIds, hprepare⟩ := hready.prepareInputs hs
  have hready' : Ready w input { st₁ with inputIds } :=
    ⟨hready.ids, hready.state, hready.gone, hready.live, hready.row, hready.noRow,
      hready.unsampled, hready.sampled⟩
  cases isLastRank with
  | true =>
      obtain ⟨st₂, hbookkeep, hagrees⟩ := hready'.bookkeep hs
      refine ⟨st₂, ?_, hagrees⟩
      rw [Runner.step, hupdate, ok_bind, hprepare, ok_bind]
      simp only [if_true]
      rw [hbookkeep]
      rfl
  | false =>
      refine ⟨_, ?_, hready'.receive hs memory.uninit⟩
      rw [Runner.step, hupdate, ok_bind, hprepare, ok_bind]
      rfl

theorem Agrees.run {inputs : List (StepInput κ)} (h : Agrees w st)
    (hs : ScheduledRun maxModelLen w inputs) (isLastRank : Bool) {memory : Nat → Memory κ}
    (hmemory : ∀ step, (memory step).Lawful) :
    st.run isLastRank maxModelLen memory inputs = .ok (w.traces inputs) := by
  induction inputs generalizing w st with
  | nil => rfl
  | cons input inputs ih =>
      obtain ⟨st', hstep, hagrees⟩ := h.step hs.1 isLastRank (hmemory inputs.length)
      rw [Runner.run, hstep, ok_bind]
      show (st'.run isLastRank maxModelLen memory inputs >>= _) = _
      rw [ih hagrees hs.2]
      rfl

end Sample

/-- Whatever the scheduler may send, and whatever lies in the memory of a rank, each rank is
given the true tokens and discards the rows that are to be discarded. -/
theorem async_ranks_agree (maxModelLen : Nat) (inputs : List (StepInput κ))
    (hs : ScheduledRun maxModelLen World.empty inputs) (isLastRank : Bool)
    (memory : Nat → Memory κ) (hmemory : ∀ step, (memory step).Lawful) (inputIds : Nat → Int) :
    (Runner.fresh inputIds).run isLastRank maxModelLen memory inputs =
      .ok ((World.empty : World κ).traces inputs) :=
  (agrees_fresh inputIds).run hs isLastRank hmemory

/-- A prefill in two chunks, beside a request that pauses for a step. -/
def pausingRun : List (StepInput (Fin 2)) :=
  [{ output := {
       finishedReqIds := []
       scheduledNewReqs := [⟨0, [11, 12, 13], 0⟩, ⟨1, [21], 0⟩]
       scheduledCachedReqs := []
       allTokenIds := fun _ => []
       numScheduledTokens := [(0, 2), (1, 1)] }
     order := [1, 0]
     sampled := [91, 7] },
   { output := {
       finishedReqIds := []
       scheduledNewReqs := []
       scheduledCachedReqs := [⟨0, 2, 0, false⟩]
       allTokenIds := fun _ => []
       numScheduledTokens := [(0, 1)] }
     order := [0]
     sampled := [81] },
   { output := {
       finishedReqIds := []
       scheduledNewReqs := []
       scheduledCachedReqs := [⟨0, 3, 1, false⟩, ⟨1, 1, 1, false⟩]
       allTokenIds := fun _ => [21, 91]
       numScheduledTokens := [(1, 1), (0, 1)] }
     order := [0, 1]
     sampled := [82, 92] }]

/-- Tokens are written over what a row held before, and nothing is received. -/
def staleMemory : Memory (Fin 2) where
  addRequest := fun _ state => {
    tokenIds := fun k => ((state.promptTokenIds ++ state.outputTokenIds)[k]?).getD 5
    numTokensNoSpec := state.numTokens
    numPromptTokens := state.promptTokenIds.length
    numComputedTokens := state.numComputedTokens }
  uninit := fun _ => 6

theorem staleMemory_lawful : staleMemory.Lawful := by
  refine fun _ state => ⟨fun k token htoken => ?_, rfl, rfl, rfl⟩
  exact (congrArg (Option.getD · 5) htoken :)

theorem async_ranks_agree_pausing :
    (Runner.fresh fun _ => 0).run false 8 (fun _ => staleMemory) pausingRun =
      .ok [⟨[21, 11, 12], [false, true]⟩, ⟨[13], [false]⟩, ⟨[81, 91], [false, false]⟩] :=
  async_ranks_agree 8 pausingRun
    ⟨⟨by decide, by decide, by decide, by decide, by decide, by decide, by decide, by decide,
        by decide, by decide⟩,
      ⟨by decide, by decide, by decide, by decide, by decide, by decide, by decide, by decide,
        by decide, by decide⟩,
      ⟨by decide, by decide, by decide, by decide, by decide, by decide, by decide, by decide,
        by decide, by decide⟩, trivial⟩ false _ (fun _ => staleMemory_lawful) _

end FlashNext.Ports.AsyncRun
