import FlashNext.Ports.AsyncInputIdsExact
import FlashNext.Ports.AsyncRunWorld

/-!
# A rank before its step

Behind `_update_states` a rank has the rows and states of the batch; `_prepare_inputs` then
gives the model the true tokens and discards the rows that have more.
-/

namespace FlashNext.Ports.AsyncRun

open FlashNext.Verified.Checked
open FlashNext.Ports.AsyncInputIds

variable {κ : Type} [DecidableEq κ]

/-! ## `_update_states` -/

/-- A rank whose batch is set up for the step. -/
structure Ready (w : World κ) (input : StepInput κ) (st : Runner κ) : Prop where
  ids : st.reqIds = input.order
  state : ∀ id, (w.arrive input.output).live id = true → ∃ state, st.requests id = some state ∧
    StateAgrees (w.arrive input.output) id state
  gone : ∀ id, (w.arrive input.output).live id = false → st.requests id = none
  live : ∀ id ∈ input.order, (w.arrive input.output).live id = true
  row : ∀ id ∈ input.order, ∃ row, st.rows id = some row ∧
    row.numComputedTokens = input.output.numComputed id ∧
      RowAgrees (w.arrive input.output) id (input.output.numComputed id) row
  noRow : ∀ id ∉ input.order, st.rows id = none
  unsampled : ∀ id, w.sampled id = false → st.prevReqIdToIndex id = none
  sampled : ∀ id ∈ input.order, w.sampled id = true →
    input.output.numComputed id + 1 = ((w.arrive input.output).tokens id).length ∧
      ∃ i sampled, st.prevReqIdToIndex id = some i ∧ st.prevSampledTokenIds = some sampled ∧
        ((w.arrive input.output).tokens id).getLast? = some (sampled i)

section Update

variable {maxModelLen : Nat} {w : World κ} {input : StepInput κ} {st : Runner κ}

/-- The rows that are kept belong to cached requests of the last batch. -/
theorem Scheduled.kept_row (hs : Scheduled maxModelLen w input) {req : CachedRequestData κ}
    (hreq : req ∈ input.output.scheduledCachedReqs) :
    (st.dropRequests input.output).rows req.reqId =
      if req.resumed then none else st.rows req.reqId := by
  have hfinished := (hs.known req hreq).2.1
  have hscheduled : req.reqId ∈ input.output.scheduledReqIds :=
    hs.mem_scheduled.mpr (Or.inr (List.mem_map.mpr ⟨req, hreq, rfl⟩))
  have hresumed : req.reqId ∈
      (input.output.scheduledCachedReqs.filter (·.resumed)).map (·.reqId) ↔
        req.resumed = true := by
    constructor
    · intro hmem
      obtain ⟨req', hreq', heq⟩ := List.mem_map.mp hmem
      obtain ⟨hmem', hres⟩ := List.mem_filter.mp hreq'
      rwa [List.inj_on_of_nodup_map hs.nodup_cached hmem' hreq heq] at hres
    · exact fun hres => List.mem_map.mpr ⟨req, List.mem_filter.mpr ⟨hreq, hres⟩, rfl⟩
  cases hres : req.resumed with
  | true =>
      rw [if_pos rfl]
      exact if_neg fun hand => hand.2.2 (hresumed.mpr hres)
  | false =>
      rw [if_neg Bool.false_ne_true]
      exact if_pos ⟨hfinished, hscheduled, fun hmem => by
        rw [hresumed, hres] at hmem
        cases hmem⟩

/-- The states before the loops. -/
theorem Agrees.dropped (h : Agrees w st) (hs : Scheduled maxModelLen w input) :
    (∀ req ∈ input.output.scheduledNewReqs,
        (st.dropRequests input.output).requests req.reqId = none) ∧
      ∀ req ∈ input.output.scheduledCachedReqs, ∃ state,
        CachedOk (st.dropRequests input.output) req state ∧ StateAgrees w req.reqId state := by
  constructor
  · intro req hreq
    show (if req.reqId ∈ input.output.finishedReqIds then none else st.requests req.reqId) = none
    split
    · rfl
    · next hnot => exact h.gone _ ((hs.fresh req hreq).2.resolve_right hnot)
  · intro req hreq
    obtain ⟨hlive, hfinished, houtputs⟩ := hs.known req hreq
    obtain ⟨state, hstate, hagrees⟩ := h.state _ hlive
    refine ⟨state, ⟨(if_neg hfinished).trans hstate, ?_, ?_⟩, hagrees⟩
    · have hlen := hagrees.count
      have hle := hagrees.promptLen_le
      rw [CachedRequestState.numTokens, hagrees.prompt, List.length_take,
        Nat.min_eq_left hle, houtputs] at hlen
      omega
    · rw [hs.kept_row hreq]
      cases req.resumed with
      | true => exact Or.inr rfl
      | false => exact Or.inl rfl

/-- A request that comes back has all its tokens again. -/
theorem Scheduled.recovered (hs : Scheduled maxModelLen w input) {req : CachedRequestData κ}
    (hreq : req ∈ input.output.scheduledCachedReqs) {state : CachedRequestState}
    (hagrees : StateAgrees w req.reqId state)
    (hback : req.reqId ∉ w.batch ∨ req.resumed = true) :
    let recovered := cachedState input.output req none state
    recovered.promptTokenIds ++ recovered.outputTokenIds = w.tokens req.reqId ∧
      recovered.promptTokenIds = state.promptTokenIds := by
  obtain ⟨-, -, houtputs⟩ := hs.known req hreq
  obtain ⟨-, hall⟩ := hs.comesBack req hreq hback
  have hlen := hagrees.count
  have hle := hagrees.promptLen_le
  rw [CachedRequestState.numTokens, hagrees.prompt, List.length_take, Nat.min_eq_left hle] at hlen
  by_cases hpos : 0 < req.numOutputTokens
  · have hrecovered : cachedState input.output req none state =
        { state with
          numComputedTokens := req.numComputedTokens
          outputTokenIds := (w.tokens req.reqId).drop
            ((w.tokens req.reqId).length - req.numOutputTokens) } := by
      show recoverOutput input.output req _ = _
      rw [recoverOutput, if_pos hpos, hall hpos]
    rw [hrecovered]
    refine ⟨?_, rfl⟩
    show state.promptTokenIds ++ _ = _
    rw [hagrees.prompt, houtputs, Nat.add_sub_cancel, List.take_append_drop]
  · have hrecovered : cachedState input.output req none state =
        { state with numComputedTokens := req.numComputedTokens } := if_neg hpos
    rw [hrecovered]
    refine ⟨?_, rfl⟩
    have hnil : state.outputTokenIds = [] := List.length_eq_zero_iff.mp (by omega)
    show state.promptTokenIds ++ state.outputTokenIds = _
    rw [hnil, List.append_nil, hagrees.prompt]
    exact List.take_of_length_le (by omega)

/-- What the loops leave behind, request by request. -/
structure Looped (w : World κ) (input : StepInput κ)
    (addRequest : κ → CachedRequestState → BatchRow) (st st' : Runner κ) : Prop where
  new : ∀ req ∈ input.output.scheduledNewReqs,
    st'.requests req.reqId = some (newState req) ∧
      st'.rows req.reqId = some (addRequest req.reqId (newState req))
  cached : ∀ req ∈ input.output.scheduledCachedReqs, ∃ state row,
    st'.requests req.reqId = some state ∧ StateAgrees w req.reqId state ∧
      st'.rows req.reqId = some row ∧ row.numComputedTokens = req.numComputedTokens ∧
        RowAgrees w req.reqId req.numComputedTokens row
  other : ∀ id ∉ input.output.scheduledReqIds,
    st'.requests id = (st.dropRequests input.output).requests id ∧ st'.rows id = none

theorem Agrees.looped (h : Agrees w st) (hs : Scheduled maxModelLen w input)
    (isLastRank : Bool) {memory : Memory κ} (hmemory : memory.Lawful) :
    ∃ requests rows, st.updateStates isLastRank memory.addRequest input.order input.output =
        .ok { st with requests, rows, reqIds := input.order } ∧
      Looped w input memory.addRequest st { st with requests, rows, reqIds := input.order } := by
  obtain ⟨hnew, hcached⟩ := h.dropped hs
  obtain ⟨u₁, hadd₁, hrows₁, htoAdd₁, hin₁, hout₁⟩ := foldlM_addNew hs.nodup_new hnew
  have hcachedOut : ∀ req ∈ input.output.scheduledCachedReqs,
      u₁.requests req.reqId = (st.dropRequests input.output).requests req.reqId :=
    fun req hreq => hout₁ _ fun hmem =>
      hs.new_ne_cached hmem (List.mem_map.mpr ⟨req, hreq, rfl⟩)
  obtain ⟨u₂, hupdate₂, hworked, htoAdd₂⟩ :=
    foldlM_updateCached (u := u₁) isLastRank input.output hs.nodup_cached
      (fun req hreq => by
        obtain ⟨state, hok, -⟩ := hcached req hreq
        exact ⟨state, (hcachedOut req hreq).trans hok.known, hok.outputs, by
          rw [hrows₁]
          exact hok.resumed⟩)
      (fun p hp => by
        rw [htoAdd₁] at hp
        obtain ⟨req, hreq, rfl⟩ := List.mem_map.mp hp
        exact ⟨hin₁ req hreq, hs.new_ne_cached (List.mem_map.mpr ⟨req, hreq, rfl⟩)⟩)
  have hadded : u₂.reqsToAdd.map Prod.fst = input.output.scheduledNewReqs.map (·.reqId) ++
      (input.output.scheduledCachedReqs.filter fun req =>
        ((st.dropRequests input.output).rows req.reqId).isNone).map (·.reqId) := by
    rw [hworked.added, htoAdd₁, hrows₁]
    show ([] ++ input.output.scheduledNewReqs.map _).map Prod.fst ++ _ = _
    rw [List.nil_append, List.map_map]
    rfl
  have hnewRequests : ∀ req ∈ input.output.scheduledNewReqs,
      u₂.requests req.reqId = some (newState req) := by
    intro req hreq
    rw [(hworked.other _ (hs.new_ne_cached (List.mem_map.mpr ⟨req, hreq, rfl⟩))).1]
    exact hin₁ req hreq
  have hotherRequests : ∀ id, id ∉ input.output.scheduledReqIds →
      u₂.requests id = (st.dropRequests input.output).requests id := by
    intro id hid
    obtain ⟨hnotNew, hnotCached⟩ := not_or.mp (mt hs.mem_scheduled.mpr hid)
    rw [(hworked.other _ hnotCached).1, hout₁ _ hnotNew]
  -- a request that was added has the row of its state
  have haddedRow : ∀ id state, id ∈ u₂.reqsToAdd.map Prod.fst → u₂.requests id = some state →
      u₂.reqsToAdd.foldl (addRow memory.addRequest) u₂.rows id =
        some (memory.addRequest id state) := by
    intro id state hid hstate
    apply foldl_addRow_of_mem hid
    intro p hp hpid
    have hp' := htoAdd₂ p hp
    rw [hpid, hstate] at hp'
    exact (Option.some.inj hp').symm
  have hfinalNew : ∀ req ∈ input.output.scheduledNewReqs,
      u₂.reqsToAdd.foldl (addRow memory.addRequest) u₂.rows req.reqId =
        some (memory.addRequest req.reqId (newState req)) := by
    intro req hreq
    refine haddedRow _ _ ?_ (hnewRequests req hreq)
    rw [hadded]
    exact List.mem_append_left _ (List.mem_map.mpr ⟨req, hreq, rfl⟩)
  have hfinalCached : ∀ req ∈ input.output.scheduledCachedReqs, ∃ state row,
      u₂.requests req.reqId = some state ∧ StateAgrees w req.reqId state ∧
        u₂.reqsToAdd.foldl (addRow memory.addRequest) u₂.rows req.reqId = some row ∧
          row.numComputedTokens = req.numComputedTokens ∧
            RowAgrees w req.reqId req.numComputedTokens row := by
    intro req hreq
    have hid : req.reqId ∈ input.output.scheduledCachedReqs.map (·.reqId) :=
      List.mem_map.mpr ⟨req, hreq, rfl⟩
    have hnotNew : req.reqId ∉ input.output.scheduledNewReqs.map (·.reqId) :=
      fun hmem => hs.new_ne_cached hmem hid
    obtain ⟨state, hok, hagrees⟩ := hcached req hreq
    have hrequests := hworked.state req hreq state ((hcachedOut req hreq).trans hok.known)
    have hrow := hworked.row req hreq
    have hkept : (st.dropRequests input.output).rows req.reqId =
        if req.resumed then none else st.rows req.reqId := hs.kept_row hreq
    have hle := hs.numComputed_le (hs.order.mem_iff.mpr (hs.mem_scheduled.mpr (Or.inr hid)))
    rw [hs.numComputed_cached hreq, (arrive_of_notMem w hnotNew).1] at hle
    rw [hrows₁] at hrequests hrow
    cases hdropped : (st.dropRequests input.output).rows req.reqId with
    | none =>
        have hback : req.reqId ∉ w.batch ∨ req.resumed = true := by
          cases hres : req.resumed with
          | true => exact Or.inr rfl
          | false =>
              rw [hres, if_neg Bool.false_ne_true] at hkept
              refine Or.inl fun hbatch => ?_
              obtain ⟨row, hsome, -⟩ := h.row _ hbatch
              cases hsome.symm.trans (hkept.symm.trans hdropped)
        rw [hdropped] at hrequests
        obtain ⟨htokens, hprompt⟩ := hs.recovered hreq hagrees hback
        refine ⟨_, _, hrequests, ⟨hprompt.trans hagrees.prompt, hagrees.promptLen_le, ?_⟩,
          haddedRow _ _ ?_ hrequests, ?_, (hmemory _ _).agrees htokens _⟩
        · rw [← htokens, List.length_append]
          rfl
        · rw [hadded]
          refine List.mem_append_right _ (List.mem_map.mpr ⟨req, List.mem_filter.mpr
            ⟨hreq, ?_⟩, rfl⟩)
          rw [hdropped]
          rfl
        · rw [(hmemory _ _).numComputedTokens]
          show (recoverOutput input.output req _).numComputedTokens = _
          rw [recoverOutput]
          split <;> rfl
    | some row =>
        have hstays : req.resumed = false := by
          cases hres : req.resumed with
          | false => rfl
          | true =>
              rw [hres, if_pos rfl, hdropped] at hkept
              cases hkept
        rw [hstays, if_neg Bool.false_ne_true, hdropped] at hkept
        have hbatch : req.reqId ∈ w.batch := by
          by_contra hnot
          cases (h.noRow _ hnot).symm.trans hkept.symm
        obtain ⟨row', hsome, hagreesRow⟩ := h.row _ hbatch
        obtain rfl := Option.some.inj (hkept.trans hsome)
        rw [← hs.goesOn req hreq hbatch hstays] at hagreesRow
        rw [hdropped] at hrequests hrow
        refine ⟨_, advanceRow isLastRank req row, hrequests,
          ⟨hagrees.prompt, hagrees.promptLen_le, hagrees.count⟩, ?_, rfl,
          advanceRow_agrees isLastRank hagreesRow hle⟩
        rw [foldl_addRow_of_notMem, hrow]
        · rfl
        · rw [hadded]
          intro hmem
          rcases List.mem_append.mp hmem with hmem' | hmem'
          · exact hnotNew hmem'
          · obtain ⟨req', hreq', heq⟩ := List.mem_map.mp hmem'
            obtain ⟨hin, hnone⟩ := List.mem_filter.mp hreq'
            obtain rfl := List.inj_on_of_nodup_map hs.nodup_cached hin hreq heq
            rw [hdropped] at hnone
            cases hnone
  have hfinalOther : ∀ id, id ∉ input.output.scheduledReqIds →
      u₂.reqsToAdd.foldl (addRow memory.addRequest) u₂.rows id = none := by
    intro id hid
    obtain ⟨hnotNew, hnotCached⟩ := not_or.mp (mt hs.mem_scheduled.mpr hid)
    rw [foldl_addRow_of_notMem, (hworked.other _ hnotCached).2, hrows₁]
    · exact if_neg fun hand => hid hand.2.1
    · rw [hadded]
      intro hmem
      rcases List.mem_append.mp hmem with hmem' | hmem'
      · exact hnotNew hmem'
      · obtain ⟨req', hreq', heq⟩ := List.mem_map.mp hmem'
        exact hnotCached (List.mem_map.mpr ⟨req', (List.mem_filter.mp hreq').1, heq⟩)
  refine ⟨u₂.requests, u₂.reqsToAdd.foldl (addRow memory.addRequest) u₂.rows, ?_,
    fun req hreq => ⟨hnewRequests req hreq, hfinalNew req hreq⟩, hfinalCached,
    fun id hid => ⟨hotherRequests id hid, hfinalOther id hid⟩⟩
  rw [Runner.updateStates, hadd₁, ok_bind, hupdate₂, ok_bind]
  rfl

/-- The batch is set up for the step. -/
theorem Agrees.updateStates (h : Agrees w st) (hs : Scheduled maxModelLen w input)
    (isLastRank : Bool) {memory : Memory κ} (hmemory : memory.Lawful) :
    ∃ st', st.updateStates isLastRank memory.addRequest input.order input.output = .ok st' ∧
      Ready w input st' := by
  obtain ⟨requests, rows, hupdate, hlooped⟩ := h.looped hs isLastRank hmemory
  refine ⟨_, hupdate, ?_⟩
  have hnewAgrees : ∀ req ∈ input.output.scheduledNewReqs,
      StateAgrees (w.arrive input.output) req.reqId (newState req) ∧
        RowAgrees (w.arrive input.output) req.reqId req.numComputedTokens
          (memory.addRequest req.reqId (newState req)) := by
    intro req hreq
    obtain ⟨htokens, hlen, -⟩ := hs.admit_new hreq
    refine ⟨⟨?_, ?_, ?_⟩, (hmemory _ _).agrees ?_ _⟩
    · rw [htokens, hlen, List.take_length]
      rfl
    · rw [htokens, hlen]
    · rw [htokens]
      rfl
    · rw [htokens]
      exact List.append_nil _
  -- which request is new, which is cached, and which is not scheduled
  have hcases : ∀ id, (∃ req ∈ input.output.scheduledNewReqs, req.reqId = id) ∨
      (∃ req ∈ input.output.scheduledCachedReqs, req.reqId = id) ∨
        id ∉ input.output.scheduledReqIds := by
    intro id
    by_cases hid : id ∈ input.output.scheduledReqIds
    · rcases hs.mem_scheduled.mp hid with hmem | hmem
      · obtain ⟨req, hreq, heq⟩ := List.mem_map.mp hmem
        exact Or.inl ⟨req, hreq, heq⟩
      · obtain ⟨req, hreq, heq⟩ := List.mem_map.mp hmem
        exact Or.inr (Or.inl ⟨req, hreq, heq⟩)
    · exact Or.inr (Or.inr hid)
  have hcachedAdmit : ∀ req ∈ input.output.scheduledCachedReqs,
      (w.arrive input.output).tokens req.reqId = w.tokens req.reqId ∧
        (w.arrive input.output).promptLen req.reqId = w.promptLen req.reqId ∧
          (w.arrive input.output).live req.reqId = true := by
    intro req hreq
    have hnotNew : req.reqId ∉ input.output.scheduledNewReqs.map (·.reqId) :=
      fun hmem => hs.new_ne_cached hmem (List.mem_map.mpr ⟨req, hreq, rfl⟩)
    obtain ⟨htokens, hlen, hlive⟩ := arrive_of_notMem w hnotNew
    obtain ⟨hwas, hfinished, -⟩ := hs.known req hreq
    refine ⟨htokens, hlen, ?_⟩
    rw [hlive, hwas, decide_eq_false hfinished]
    rfl
  refine
    { ids := rfl
      state := ?_
      gone := ?_
      live := ?_
      row := ?_
      noRow := fun id hid => (hlooped.other id (mt hs.order.mem_iff.mpr hid)).2
      unsampled := h.unsampled
      sampled := ?_ }
  · intro id hlive
    rcases hcases id with ⟨req, hreq, rfl⟩ | ⟨req, hreq, rfl⟩ | hid
    · exact ⟨_, (hlooped.new req hreq).1, (hnewAgrees req hreq).1⟩
    · obtain ⟨state, -, hstate, hagrees, -⟩ := hlooped.cached req hreq
      obtain ⟨htokens, hlen, -⟩ := hcachedAdmit req hreq
      exact ⟨state, hstate, hagrees.congr htokens hlen⟩
    · have hnotNew : id ∉ input.output.scheduledNewReqs.map (·.reqId) :=
        fun hmem => hid (hs.mem_scheduled.mpr (Or.inl hmem))
      obtain ⟨htokens, hlen, hlive'⟩ := arrive_of_notMem w hnotNew
      rw [hlive', Bool.and_eq_true, Bool.not_eq_true', decide_eq_false_iff_not] at hlive
      obtain ⟨state, hstate, hagrees⟩ := h.state id hlive.1
      exact ⟨state, (hlooped.other id hid).1.trans ((if_neg hlive.2).trans hstate),
        hagrees.congr htokens hlen⟩
  · intro id hgone
    rcases hcases id with ⟨req, hreq, rfl⟩ | ⟨req, hreq, rfl⟩ | hid
    · rw [(hs.admit_new hreq).2.2] at hgone
      cases hgone
    · rw [(hcachedAdmit req hreq).2.2] at hgone
      cases hgone
    · have hnotNew : id ∉ input.output.scheduledNewReqs.map (·.reqId) :=
        fun hmem => hid (hs.mem_scheduled.mpr (Or.inl hmem))
      rw [(arrive_of_notMem w hnotNew).2.2] at hgone
      rw [(hlooped.other id hid).1]
      by_cases hfinished : id ∈ input.output.finishedReqIds
      · exact if_pos hfinished
      · rw [decide_eq_false hfinished, Bool.not_false, Bool.and_true] at hgone
        exact (if_neg hfinished).trans (h.gone id hgone)
  · intro id hid
    rcases hcases id with ⟨req, hreq, rfl⟩ | ⟨req, hreq, rfl⟩ | hnot
    · exact (hs.admit_new hreq).2.2
    · exact (hcachedAdmit req hreq).2.2
    · exact absurd (hs.order.mem_iff.mp hid) hnot
  · intro id hid
    rcases hcases id with ⟨req, hreq, rfl⟩ | ⟨req, hreq, rfl⟩ | hnot
    · rw [hs.numComputed_new hreq]
      exact ⟨_, (hlooped.new req hreq).2, (hmemory _ _).numComputedTokens,
        (hnewAgrees req hreq).2⟩
    · obtain ⟨-, row, -, -, hrow, hcomputed, hagrees⟩ := hlooped.cached req hreq
      rw [hs.numComputed_cached hreq]
      exact ⟨row, hrow, hcomputed, hagrees.congr (hcachedAdmit req hreq).1 rfl⟩
    · exact absurd (hs.order.mem_iff.mp hid) hnot
  · intro id hid hsampled
    rcases hcases id with ⟨req, hreq, rfl⟩ | ⟨req, hreq, rfl⟩ | hnot
    · rw [(hs.fresh req hreq).1] at hsampled
      cases hsampled
    · have hstays : req.reqId ∈ w.batch ∧ req.resumed = false := by
        by_contra hnot
        have hback : req.reqId ∉ w.batch ∨ req.resumed = true := by
          rcases not_and_or.mp hnot with hbatch | hres
          · exact Or.inl hbatch
          · exact Or.inr (by simpa using hres)
        rw [(hs.comesBack req hreq hback).1] at hsampled
        cases hsampled
      rw [hs.numComputed_cached hreq, hs.goesOn req hreq hstays.1 hstays.2,
        (hcachedAdmit req hreq).1]
      exact h.sampled req.reqId hsampled
    · exact absurd (hs.order.mem_iff.mp hid) hnot

end Update

/-! ## `_prepare_inputs` -/

section Prepare

variable {maxModelLen : Nat} {w : World κ} {input : StepInput κ} {st : Runner κ}

/-- The tokens of a request that the step computes. -/
def World.slice (w : World κ) (input : StepInput κ) (id : κ) : List Int :=
  (((w.arrive input.output).tokens id).drop (input.output.numComputed id)).take
    (input.output.numTokens id)

/-- A request of the batch is scattered its true tokens, and discarded when it has more. -/
theorem Ready.prepareRequest (h : Ready w input st) (hs : Scheduled maxModelLen w input) {id : κ}
    (hid : id ∈ input.order) :
    ∃ r, st.prepareRequest input.output id = .ok (r, decide (input.output.computedAfter id <
          ((w.arrive input.output).tokens id).length)) ∧
      r.numScheduledTokens = input.output.numTokens id ∧
      r.cpuIds.length = input.output.numTokens id ∧ r.draftLen = 0 ∧
      (r.prevPosition ≠ none → st.prevSampledTokenIds ≠ none) ∧
      r.ids ⟨st.prevSampledTokenIds, none, 0⟩ = w.slice input id := by
  obtain ⟨row, hrow, hcomputed, hagrees⟩ := h.row id hid
  obtain ⟨state, hstate, hcount⟩ := h.state id (h.live id hid)
  have hfits := hs.fits id hid
  have hpos := hs.numTokens_pos hid
  rw [SchedulerOutput.computedAfter] at hfits
  refine ⟨{
    prevPosition := st.prevReqIdToIndex id
    numScheduledTokens := input.output.numTokens id
    draftLen := 0
    cpuIds := (List.range (input.output.numTokens id)).map fun j =>
      row.tokenIds (input.output.numComputed id + j) }, ?_, rfl, ?_, rfl, ?_, ?_⟩
  · rw [Runner.prepareRequest, hrow, hstate]
    simp only [hcomputed, hcount.count]
    rfl
  · rw [List.length_map, List.length_range]
  · intro hprev
    cases hsampled : w.sampled id with
    | false => exact absurd (h.unsampled id hsampled) hprev
    | true =>
        obtain ⟨-, i, sampled, -, hsome, -⟩ := h.sampled id hid hsampled
        rw [hsome]
        exact Option.some_ne_none sampled
  · cases hsampled : w.sampled id with
    | false =>
        -- the row holds the tokens itself
        rw [BatchReq.ids, h.unsampled id hsampled]
        apply List.ext_getElem?
        intro j
        rw [World.slice]
        by_cases hj : j < input.output.numTokens id
        · rw [List.getElem?_take_of_lt hj, List.getElem?_drop, List.getElem?_map,
            List.getElem?_range hj, hagrees.tokens hsampled _ (Nat.le_add_right _ _) (by omega)]
          rfl
        · rw [List.getElem?_eq_none, List.getElem?_eq_none]
          · rw [List.length_take]
            omega
          · rw [List.length_map, List.length_range]
            omega
    | true =>
        -- the only token is the one that was sampled last
        obtain ⟨hlast, i, sampled, hprev, hsome, hget⟩ := h.sampled id hid hsampled
        have hone : input.output.numTokens id = 1 := by omega
        have hne : (w.arrive input.output).tokens id ≠ [] := by
          intro hnil
          rw [hnil] at hlast
          cases hlast
        have hdrop : ((w.arrive input.output).tokens id).drop (input.output.numComputed id) =
            [sampled i] := by
          rw [List.getLast?_eq_some_getLast hne] at hget
          rw [← Option.some.inj hget, ← List.drop_length_sub_one hne]
          congr 1
          omega
        rw [BatchReq.ids, hprev, hsome, World.slice, hdrop, hone]
        rfl

/-- The step is given the true tokens of its requests. -/
theorem Ready.prepareInputs (h : Ready w input st) (hs : Scheduled maxModelLen w input) :
    ∃ inputIds, st.prepareInputs input.output =
      .ok (w.trace input, { st with inputIds }) := by
  let prepared : κ → BatchReq × Bool := fun id =>
    ((st.prepareRequest input.output id).toOption).getD (⟨none, 0, 0, []⟩, false)
  have hprepared : ∀ id ∈ input.order, st.prepareRequest input.output id = .ok (prepared id) := by
    intro id hid
    obtain ⟨r, hr, -⟩ := h.prepareRequest hs hid
    show _ = Except.ok (((st.prepareRequest input.output id).toOption).getD _)
    rw [hr]
    rfl
  have hspec : ∀ id ∈ input.order,
      (prepared id).2 = decide (input.output.computedAfter id <
          ((w.arrive input.output).tokens id).length) ∧
        (prepared id).1.numScheduledTokens = input.output.numTokens id ∧
        (prepared id).1.cpuIds.length = input.output.numTokens id ∧
        (prepared id).1.draftLen = 0 ∧
        ((prepared id).1.prevPosition ≠ none → st.prevSampledTokenIds ≠ none) ∧
        (prepared id).1.ids ⟨st.prevSampledTokenIds, none, 0⟩ = w.slice input id := by
    intro id hid
    obtain ⟨r, hr, hrest⟩ := h.prepareRequest hs hid
    obtain ⟨hfst, hsnd⟩ := Prod.mk.inj (Except.ok.inj ((hprepared id hid).symm.trans hr))
    exact ⟨hsnd, hfst ▸ hrest⟩
  have hok : StepOk ⟨st.prevSampledTokenIds, none, 0⟩
      ((input.order.map prepared).map Prod.fst) := by
    have hmem : ∀ r ∈ (input.order.map prepared).map Prod.fst,
        ∃ id ∈ input.order, (prepared id).1 = r := by
      intro r hr
      rw [List.map_map] at hr
      exact List.mem_map.mp hr
    constructor
    · intro r hr
      obtain ⟨id, hid, rfl⟩ := hmem r hr
      obtain ⟨-, hn, hlen, -⟩ := hspec id hid
      rw [hlen, hn]
    · intro r hr
      obtain ⟨id, hid, rfl⟩ := hmem r hr
      rw [(hspec id hid).2.1]
      exact hs.numTokens_pos hid
    · intro r hr hprev
      obtain ⟨id, hid, rfl⟩ := hmem r hr
      obtain ⟨-, hn, -, hdraft, hsampled, -⟩ := hspec id hid
      rw [hdraft, hn]
      exact ⟨hsampled hprev, hs.numTokens_pos hid⟩
    · intro r hr _ hpos
      obtain ⟨id, hid, rfl⟩ := hmem r hr
      rw [(hspec id hid).2.2.2.1] at hpos
      cases hpos
  have hids : ((input.order.map prepared).map Prod.fst).flatMap
      (BatchReq.ids ⟨st.prevSampledTokenIds, none, 0⟩) = (w.trace input).inputIds := by
    rw [List.map_map, List.flatMap_map]
    exact List.flatMap_congr fun id hid => (hspec id hid).2.2.2.2.2
  have hdiscard : (input.order.map prepared).map Prod.snd =
      (w.trace input).discardRequestMask := by
    rw [List.map_map]
    exact List.map_congr_left fun id hid => (hspec id hid).1
  refine ⟨prepareInputIds ⟨st.prevSampledTokenIds, none, 0⟩
    ((input.order.map prepared).map Prod.fst) st.inputIds, ?_⟩
  rw [Runner.prepareInputs, h.ids, mapM_ok hprepared, ok_bind]
  have hbuffer := List.map_congr_left (l := List.range
      (((input.order.map prepared).map Prod.fst).map BatchReq.numScheduledTokens).sum)
    fun i hi => hok.prepareInputIds_apply (List.mem_range.mp hi) st.inputIds
  rw [hok.map_want, hids] at hbuffer
  show Except.ok (StepTrace.mk _ _, _) = _
  rw [hbuffer, hdiscard]

end Prepare

end FlashNext.Ports.AsyncRun
