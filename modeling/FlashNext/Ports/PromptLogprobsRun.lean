import FlashNext.Ports.PromptLogprobsExact

/-!
# Chunks and one prefill give the same tensors

The runner follows the ledger through every step of a run.
-/

namespace FlashNext.Ports.PromptLogprobs

open FlashNext.Verified.Checked
open FlashNext.Verified.OrderedDicts

variable {κ : Type} [DecidableEq κ] {H L R : Type}

/-! ## The runner and the ledger -/

/-- The runner knows the requests of the ledger, and the tensors of those that wait. -/
structure Agrees (env : Env H L R) (hidden : List Int → Nat → H) (ledger : Ledger κ)
    (st : Runner κ R) : Prop where
  entries : st.numPromptLogprobs = ledger.pending.map fun p => (p.reqId, p.numPromptLogprobs)
  distinct : (ledger.pending.map Pending.reqId).Nodup
  live : ∀ id, id ∈ ledger.live ↔ (st.requests id).isSome
  waits : ∀ p ∈ ledger.pending, ∃ state, st.requests p.reqId = some state ∧
    Waits env hidden p state

section Agrees

variable {env : Env H L R} {hidden : List Int → Nat → H} {ledger : Ledger κ} {st : Runner κ R}

omit [DecidableEq κ] in
theorem agrees_fresh : Agrees env hidden ⟨[], []⟩ (Runner.fresh : Runner κ R) where
  entries := rfl
  distinct := List.nodup_nil
  live := fun _ => ⟨nofun, nofun⟩
  waits := nofun

omit [DecidableEq κ] in
theorem Agrees.mem_live (h : Agrees env hidden ledger st) {p : Pending κ}
    (hp : p ∈ ledger.pending) : p.reqId ∈ ledger.live := by
  obtain ⟨state, hstate, -⟩ := h.waits p hp
  rw [h.live, hstate]
  rfl

theorem Agrees.finish (h : Agrees env hidden ledger st) (finishedReqIds : List κ) :
    Agrees env hidden ⟨ledger.live.filter (· ∉ finishedReqIds),
      ledger.pending.filter (·.reqId ∉ finishedReqIds)⟩ (st.finish finishedReqIds) where
  entries := by
    rw [Runner.finish, h.entries, List.filter_map]
    rfl
  distinct := h.distinct.sublist (List.filter_sublist.map _)
  live := fun id => by
    rw [List.mem_filter, h.live, Runner.finish]
    by_cases hid : id ∈ finishedReqIds
    · simp [hid]
    · simp [hid]
  waits := fun p hp => by
    obtain ⟨hmem, hnot⟩ := List.mem_filter.mp hp
    obtain ⟨state, hstate, hwaits⟩ := h.waits p hmem
    exact ⟨state, (if_neg (of_decide_eq_true hnot)).trans hstate, hwaits⟩

theorem Agrees.addNew (h : Agrees env hidden ledger st) {r : NewRequestData κ}
    (hfresh : r.reqId ∉ ledger.live) (hprompt : r.promptTokenIds ≠ some []) :
    ∃ st', addNew env st r = .ok st' ∧
      Agrees env hidden ⟨ledger.live ++ [r.reqId], ledger.pending ++ (r.pending env).toList⟩ st' ∧
      st'.requests = Function.update st.requests r.reqId
        (some ⟨r.promptTokenIds, r.numComputedTokens, none⟩) := by
  have hnone : st.requests r.reqId = none :=
    Option.not_isSome_iff_eq_none.mp (mt (h.live r.reqId).mpr hfresh)
  have hnot : r.reqId ∉ ledger.pending.map Pending.reqId := fun hmem => by
    obtain ⟨p, hp, heq⟩ := List.mem_map.mp hmem
    exact hfresh (heq ▸ h.mem_live hp)
  have hid : ∀ p ∈ (r.pending env).toList, p.reqId = r.reqId ∧
      p.promptTokenIds = r.promptTokenIds ∧ p.reached = 0 := fun p hp => by
    obtain ⟨n, -, rfl⟩ := Option.map_eq_some_iff.mp (Option.mem_toList.mp hp)
    exact ⟨rfl, rfl, rfl⟩
  rw [PromptLogprobs.addNew, require_ok (by rw [hnone]; rfl), ok_bind]
  refine ⟨_, rfl, ?_, rfl⟩
  exact
    { entries := by
        rw [List.map_append, ← h.entries]
        cases hn : r.promptLogprobs with
        | none =>
            rw [NewRequestData.pending, hn]
            exact (List.append_nil _).symm
        | some n =>
            have hkey : r.reqId ∉ keys st.numPromptLogprobs := by
              rw [keys, h.entries, List.map_map]
              exact hnot
            rw [NewRequestData.pending, hn]
            exact put_of_notMem hkey
      distinct := by
        rw [List.map_append]
        refine List.nodup_append'.mpr ⟨h.distinct, ?_, ?_⟩
        · cases hp : r.pending env with
          | none => exact List.nodup_nil
          | some p => exact List.nodup_singleton _
        · refine List.disjoint_left.mpr fun id hmem hnew => ?_
          obtain ⟨p, hp, heq⟩ := List.mem_map.mp hnew
          exact hnot ((hid p hp).1 ▸ heq ▸ hmem)
      live := fun id => by
        show id ∈ ledger.live ++ [r.reqId] ↔ (Function.update st.requests r.reqId _ id).isSome
        by_cases heq : id = r.reqId
        · subst heq
          rw [Function.update_self]
          exact ⟨fun _ => rfl, fun _ => List.mem_append_right _ (List.mem_singleton_self _)⟩
        · rw [Function.update_of_ne heq, ← h.live, List.mem_append, List.mem_singleton,
            or_iff_left heq]
      waits := fun p hp => by
        rcases List.mem_append.mp hp with hold | hnew
        · obtain ⟨state, hstate, hwaits⟩ := h.waits p hold
          have hne : p.reqId ≠ r.reqId := fun heq => hfresh (heq ▸ h.mem_live hold)
          exact ⟨state, (Function.update_of_ne hne _ _).trans hstate, hwaits⟩
        · obtain ⟨hreq, htokens, hreached⟩ := hid p hnew
          refine ⟨⟨r.promptTokenIds, r.numComputedTokens, none⟩, ?_, htokens.symm,
            fun prompt hsome => ?_⟩
          · rw [hreq]
            exact Function.update_self ..
          · have hpos : 0 < prompt.length := List.length_pos_iff.mpr fun hnil =>
              hprompt (by rw [← htokens, hsome, hnil])
            rw [hreached, ← length_promptRows env hidden p.numPromptLogprobs]
            exact ⟨hpos, filled_empty _⟩ }

theorem foldlM_addNew {news : List (NewRequestData κ)}
    (hfresh : ∀ r ∈ news, r.reqId ∉ ledger.live) (hprompts : ∀ r ∈ news, r.promptTokenIds ≠ some [])
    (hnodup : (news.map NewRequestData.reqId).Nodup) (h : Agrees env hidden ledger st) :
    ∃ st', news.foldlM (addNew env) st = .ok st' ∧
      Agrees env hidden ⟨ledger.live ++ news.map NewRequestData.reqId,
        ledger.pending ++ news.filterMap (NewRequestData.pending env)⟩ st' ∧
      (∀ id ∉ news.map NewRequestData.reqId, st'.requests id = st.requests id) ∧
      ∀ r ∈ news, ∃ state, st'.requests r.reqId = some state ∧
        state.numComputedTokens = r.numComputedTokens := by
  induction news generalizing ledger st with
  | nil =>
      rw [List.map_nil, List.filterMap_nil, List.append_nil, List.append_nil]
      exact ⟨st, rfl, h, fun _ _ => rfl, nofun⟩
  | cons r news ih =>
      obtain ⟨hnot, hrest⟩ := List.nodup_cons.mp hnodup
      obtain ⟨st₁, hadd, hagrees, hrequests⟩ :=
        h.addNew (hfresh r List.mem_cons_self) (hprompts r List.mem_cons_self)
      obtain ⟨st', hrun, hfinal, hframe, hstates⟩ := ih (fun q hq hmem => by
          rcases List.mem_append.mp hmem with hold | hsame
          · exact hfresh q (List.mem_cons_of_mem r hq) hold
          · exact hnot (List.mem_singleton.mp hsame ▸ List.mem_map_of_mem hq))
        (fun q hq => hprompts q (List.mem_cons_of_mem r hq)) hrest hagrees
      refine ⟨st', ?_, ?_, fun id hid => ?_, fun q hq => ?_⟩
      · rw [List.foldlM_cons, hadd, ok_bind]
        exact hrun
      · rw [List.append_assoc, List.append_assoc] at hfinal
        rw [List.map_cons, List.filterMap_cons]
        cases hp : r.pending env with
        | none =>
            rw [hp] at hfinal
            exact hfinal
        | some p =>
            rw [hp] at hfinal
            exact hfinal
      · obtain ⟨hid, hothers⟩ := not_or.mp (mt List.mem_cons.mpr hid)
        rw [hframe id hothers, hrequests, Function.update_of_ne hid]
      · rcases List.mem_cons.mp hq with rfl | hmem
        · refine ⟨⟨q.promptTokenIds, q.numComputedTokens, none⟩, ?_, rfl⟩
          rw [hframe _ hnot, hrequests, Function.update_self]
        · exact hstates q hmem

theorem Agrees.updateCached (h : Agrees env hidden ledger st) {r : CachedRequestData κ}
    (hlive : r.reqId ∈ ledger.live) :
    ∃ st' state, updateCached st r = .ok st' ∧ Agrees env hidden ledger st' ∧
      st'.requests = Function.update st.requests r.reqId (some state) ∧
      state.numComputedTokens = r.numComputedTokens := by
  obtain ⟨state, hstate⟩ := Option.isSome_iff_exists.mp ((h.live r.reqId).mp hlive)
  refine ⟨{ st with
      requests := Function.update st.requests r.reqId
        (some { state with numComputedTokens := r.numComputedTokens }) },
    { state with numComputedTokens := r.numComputedTokens }, ?_, ?_, rfl, rfl⟩
  · rw [PromptLogprobs.updateCached, hstate]
  · exact
      { entries := h.entries
        distinct := h.distinct
        live := fun id => by
          rw [h.live]
          show _ ↔ (Function.update st.requests r.reqId _ id).isSome
          by_cases heq : id = r.reqId
          · subst heq
            rw [Function.update_self, hstate]
            exact Iff.rfl
          · rw [Function.update_of_ne heq]
        waits := fun p hp => by
          obtain ⟨old, hold, hwaits⟩ := h.waits p hp
          by_cases heq : p.reqId = r.reqId
          · obtain rfl := Option.some.inj (hstate.symm.trans (heq ▸ hold))
            refine ⟨{ state with numComputedTokens := r.numComputedTokens }, ?_,
              hwaits.prompt, hwaits.tensors⟩
            rw [heq]
            exact Function.update_self ..
          · exact ⟨old, (Function.update_of_ne heq _ _).trans hold, hwaits⟩ }

theorem foldlM_updateCached {cached : List (CachedRequestData κ)}
    (hlive : ∀ r ∈ cached, r.reqId ∈ ledger.live)
    (hnodup : (cached.map CachedRequestData.reqId).Nodup) (h : Agrees env hidden ledger st) :
    ∃ st', cached.foldlM PromptLogprobs.updateCached st = .ok st' ∧
      Agrees env hidden ledger st' ∧
      (∀ id ∉ cached.map CachedRequestData.reqId, st'.requests id = st.requests id) ∧
      ∀ r ∈ cached, ∃ state, st'.requests r.reqId = some state ∧
        state.numComputedTokens = r.numComputedTokens := by
  induction cached generalizing st with
  | nil => exact ⟨st, rfl, h, fun _ _ => rfl, nofun⟩
  | cons r cached ih =>
      obtain ⟨hnot, hrest⟩ := List.nodup_cons.mp hnodup
      obtain ⟨st₁, state, hupdate, hagrees, hrequests, hcomputed⟩ :=
        h.updateCached (hlive r List.mem_cons_self)
      obtain ⟨st', hrun, hfinal, hframe, hstates⟩ :=
        ih (fun q hq => hlive q (List.mem_cons_of_mem r hq)) hrest hagrees
      refine ⟨st', ?_, hfinal, fun id hid => ?_, fun q hq => ?_⟩
      · rw [List.foldlM_cons, hupdate, ok_bind]
        exact hrun
      · obtain ⟨hid, hothers⟩ := not_or.mp (mt List.mem_cons.mpr hid)
        rw [hframe id hothers, hrequests, Function.update_of_ne hid]
      · rcases List.mem_cons.mp hq with rfl | hmem
        · exact ⟨state, by rw [hframe _ hnot, hrequests, Function.update_self], hcomputed⟩
        · exact hstates q hmem

/-- The ledger behind the arrivals of a step, and the computed tokens of the step. -/
theorem Agrees.updateStates (h : Agrees env hidden ledger st) {step : Step κ H}
    (hok : step.Ok env hidden ledger) :
    ∃ st', updateStates env step st = .ok st' ∧ Agrees env hidden (ledger.arrive env step) st' ∧
      ∀ id state start, get id step.starts = some start → st'.requests id = some state →
        state.numComputedTokens = start := by
  have hkeys : keys step.starts = step.scheduledNewReqs.map NewRequestData.reqId ++
      step.scheduledCachedReqs.map CachedRequestData.reqId := by
    rw [keys, Step.starts, List.map_append, List.map_map, List.map_map]
    rfl
  have hdistinct := hok.distinct
  rw [hkeys] at hdistinct
  obtain ⟨hnew, hcached, hdisjoint⟩ := List.nodup_append'.mp hdistinct
  obtain ⟨st₁, hadd, hagrees, -, hnewStates⟩ := foldlM_addNew
    (fun r hr hmem => by
      obtain ⟨hlive, hnot⟩ := List.mem_filter.mp hmem
      exact of_decide_eq_true hnot (hok.fresh r hr hlive)) hok.prompts hnew
    (h.finish step.finishedReqIds)
  obtain ⟨st', hupdate, hfinal, hframe, hstates⟩ := foldlM_updateCached
    (fun r hr => by
      obtain ⟨hlive, hnot⟩ := hok.cached r hr
      exact List.mem_append_left _ (List.mem_filter.mpr ⟨hlive, decide_eq_true hnot⟩))
    hcached hagrees
  refine ⟨st', ?_, hfinal, fun id state start hstart hstate => ?_⟩
  · rw [PromptLogprobs.updateStates, hadd, ok_bind]
    exact hupdate
  · rcases List.mem_append.mp (mem_of_get hstart) with hmem | hmem
    · obtain ⟨r, hr, heq⟩ := List.mem_map.mp hmem
      obtain ⟨rfl, rfl⟩ := Prod.mk.inj heq
      obtain ⟨other, hother, hcomputed⟩ := hnewStates r hr
      have hnot := List.disjoint_left.mp hdisjoint (List.mem_map_of_mem hr)
      rw [hframe _ hnot, hother] at hstate
      rw [← Option.some.inj hstate, hcomputed]
    · obtain ⟨r, hr, heq⟩ := List.mem_map.mp hmem
      obtain ⟨rfl, rfl⟩ := Prod.mk.inj heq
      obtain ⟨other, hother, hcomputed⟩ := hstates r hr
      rw [hother] at hstate
      rw [← Option.some.inj hstate, hcomputed]

/-- The dictionary of a step, and the ledger behind it. -/
theorem Agrees.getPromptLogprobsDict {step : Step κ H} (hok : step.Ok env hidden ledger)
    (h : Agrees env hidden (ledger.arrive env step) st)
    (hcomputed : ∀ id state start, get id step.starts = some start →
      st.requests id = some state → state.numComputedTokens = start) :
    ∃ st', getPromptLogprobsDict env step st =
        .ok (((ledger.arrive env step).pending.filter (Pending.completes step)).map
          (Pending.entry env hidden), st') ∧
      Agrees env hidden ((ledger.arrive env step).leave step) st' := by
  obtain ⟨c, hrun, hdict, hcompleted, hframe, hstates⟩ := foldlM_collect hok
    (fun p hp => hp) h.distinct ⟨st.requests, [], []⟩ fun p hp => by
      obtain ⟨state, hstate, hwaits⟩ := h.waits p hp
      exact ⟨state, hstate, fun start hstart => hcomputed _ state start hstart hstate, hwaits⟩
  rw [List.nil_append] at hdict hcompleted
  have hiff : ∀ p ∈ (ledger.arrive env step).pending,
      p.reqId ∈ c.completedPrefillReqs ↔ p.completes step = true := fun p hp => by
    rw [hcompleted]
    refine ⟨fun hmem => ?_, fun hcompletes =>
      List.mem_map_of_mem (List.mem_filter.mpr ⟨hp, hcompletes⟩)⟩
    obtain ⟨q, hq, heq⟩ := List.mem_map.mp hmem
    obtain ⟨hqmem, hcompletes⟩ := List.mem_filter.mp hq
    rwa [List.inj_on_of_nodup_map h.distinct hqmem hp heq] at hcompletes
  rw [PromptLogprobs.getPromptLogprobsDict, h.entries, hrun, ok_bind, hdict]
  refine ⟨_, rfl, ?_⟩
  exact
    { entries := by
        show (List.map _ _).filter _ = ((List.filter _ _).map _).map _
        rw [List.filter_map, List.map_map]
        refine congrArg (List.map _) (List.filter_congr fun p hp => ?_)
        show decide (p.reqId ∉ c.completedPrefillReqs) = !p.completes step
        cases hcompletes : p.completes step with
        | true => exact decide_eq_false (not_not.mpr ((hiff p hp).mpr hcompletes))
        | false => exact decide_eq_true (mt (hiff p hp).mp (Bool.eq_false_iff.mp hcompletes))
      distinct := by
        show (((List.filter _ _).map (Pending.advance step)).map Pending.reqId).Nodup
        rw [List.map_map]
        exact h.distinct.sublist (List.filter_sublist.map _)
      live := fun id => by
        have hsome : (c.requests id).isSome = (st.requests id).isSome := by
          by_cases hid : id ∈ (ledger.arrive env step).pending.map Pending.reqId
          · obtain ⟨p, hp, rfl⟩ := List.mem_map.mp hid
            obtain ⟨state, hstate, -⟩ := hstates p hp
            obtain ⟨old, hold, -⟩ := h.waits p hp
            rw [hstate, hold]
            rfl
          · rw [hframe id hid]
        show id ∈ (ledger.arrive env step).live ↔ (if id ∈ c.completedPrefillReqs then _ else _ :
          Option (CachedRequestState R)).isSome
        rw [h.live, ← hsome]
        split
        · rw [Option.isSome_map]
        · exact Iff.rfl
      waits := fun p hp => by
        obtain ⟨q, hq, rfl⟩ := List.mem_map.mp hp
        obtain ⟨hmem, hnot⟩ := List.mem_filter.mp hq
        rw [Bool.not_eq_true'] at hnot
        obtain ⟨state, hstate, hwaits⟩ := hstates q hmem
        refine ⟨state, ?_, hwaits hnot⟩
        show (if q.reqId ∈ c.completedPrefillReqs then _ else c.requests q.reqId) = some state
        rw [if_neg (mt (hiff q hmem).mp (Bool.eq_false_iff.mp hnot)), hstate] }

end Agrees

/-- The runner returns what the ledger says: the tensors of one prefill, however the prompt is
cut into chunks and however often it starts again. -/
theorem promptLogprobs_exact {env : Env H L R} {hidden : List Int → Nat → H}
    {steps : List (Step κ H)} (h : RunOk env hidden ⟨[], []⟩ steps) :
    runSteps env Runner.fresh steps = .ok (expected env hidden ⟨[], []⟩ steps) := by
  have hrun : ∀ (ledger : Ledger κ) (st : Runner κ R), Agrees env hidden ledger st →
      RunOk env hidden ledger steps →
        runSteps env st steps = .ok (expected env hidden ledger steps) := by
    clear h
    induction steps with
    | nil => exact fun _ _ _ _ => rfl
    | cons step steps ih =>
        intro ledger st hagrees hok
        obtain ⟨st₁, hupdate, harrived, hcomputed⟩ := hagrees.updateStates hok.1
        obtain ⟨st₂, hdict, hleft⟩ := harrived.getPromptLogprobsDict hok.1 hcomputed
        rw [runSteps, hupdate, ok_bind, hdict, ok_bind]
        show (runSteps env st₂ steps >>= _) = _
        rw [ih _ st₂ hleft hok.2]
        rfl
  exact hrun ⟨[], []⟩ Runner.fresh agrees_fresh h

/-! ## Two chunks, a preemption, and the whole prompt again -/

def echoEnv : Env Int Int (Int × Nat × Int) where
  logprobsMode := .rawLogprobs
  vocabSize := 50
  computeLogits := (· + 1)
  toFloat32 := id
  computeLogprobs := (2 * ·)
  gatherLogprobs := fun score n token => (score, n, token)

def echoHidden (prompt : List Int) (position : Nat) : Int := prompt.getD position 0 + position

/-- Request 4 has a prompt of five tokens; request 9 asks for nothing and decodes. -/
def preemptedSteps : List (Step Nat Int) :=
  [⟨[], [⟨4, some [11, 12, 13, 14, 15], 0, some 2⟩, ⟨9, some [21], 0, none⟩], [],
      [(4, 2), (9, 1)], [9, 4], [70, 11, 13]⟩,
    ⟨[], [], [⟨9, 1⟩], [(9, 1)], [9], [71]⟩,
    ⟨[], [], [⟨4, 0⟩, ⟨9, 2⟩], [(4, 4), (9, 1)], [9, 4], [72, 11, 13, 15, 17]⟩,
    ⟨[9], [], [⟨4, 4⟩], [(4, 1)], [4], [19]⟩]

theorem promptLogprobs_exact_preempted :
    runSteps echoEnv Runner.fresh preemptedSteps =
      .ok (expected echoEnv echoHidden ⟨[], []⟩ preemptedSteps) := by
  refine promptLogprobs_exact ⟨?_, ?_, ?_, ?_, trivial⟩
  · exact ⟨by decide, by decide, by decide, by decide, by decide, by decide, by decide, by decide,
      fun id => if id = 4 then [11, 13] else [70], by decide, by decide, by decide⟩
  · exact ⟨by decide, by decide, by decide, by decide, by decide, by decide, by decide, by decide,
      fun _ => [71], by decide, by decide, by decide⟩
  · exact ⟨by decide, by decide, by decide, by decide, by decide, by decide, by decide, by decide,
      fun id => if id = 4 then [11, 13, 15, 17] else [72], by decide, by decide, by decide⟩
  · exact ⟨by decide, by decide, by decide, by decide, by decide, by decide, by decide, by decide,
      fun _ => [19], by decide, by decide, by decide⟩

end FlashNext.Ports.PromptLogprobs
