import FlashNext.Ports.PpRelayInvariant

/-!
# Pipeline relay: consuming a slot, freeing and adding requests

The invariant is kept by everything `execute_model` does before the forward.
-/

namespace FlashNext.Ports.PpRelayState

open FlashNext.Ports.PpRelay
open FlashNext.Verified.Scatter
open FlashNext.Verified.DelayLine
open FlashNext.Verified.StepRuns

variable {ReqId : Type} {s s' : State ReqId} {cfg : RelayConfig}
  {K : Kernels} {i j : Nat} {r : PendingRow}

/-! ## What consuming a slot does to one index -/

private theorem distinct_output (gen : Nat → Nat) {rows : List PendingRow}
    (h : (rows.map PendingRow.idx).Nodup) :
    Distinct (fun o : OutputRow => o.update.idx)
      (rows.map (PendingRow.output gen)) := by
  have hpair : rows.Pairwise fun a b => a.idx ≠ b.idx := List.pairwise_map.mp h
  refine List.pairwise_map.mpr (hpair.imp fun {a b} hne heq => ?_)
  simp only [PendingRow.output] at heq ⊢
  split
  case isTrue => decide
  case isFalse ha =>
    rw [if_neg ha] at heq
    split at heq
    case isTrue => omega
    case isFalse => exact absurd (Int.ofNat.inj heq) hne

/-- A live row of the slot is applied to its index. -/
theorem applyOutputs_of_live (hK : K.Lawful) {slot : Slot}
    {rows : List PendingRow} {gen : Nat → Nat} (hrecv : slot.recv = some rows)
    (hnodup : (rows.map PendingRow.idx).Nodup) (hr : r ∈ rows)
    (hlive : r.Live gen) (gpu : Nat → GpuRow) :
    applyOutputs K (getPrevSampledOutputs gen slot) gpu r.idx =
      r.apply (gpu r.idx) := by
  have hincluded := PendingRow.excluded_eq_false.mpr hlive
  have hsome : getPrevSampledOutputs gen slot =
      some (rows.map (PendingRow.output gen)) := by
    have hany : ¬ rows.all (PendingRow.excluded gen) = true := by
      rw [List.all_eq_true]
      intro hall
      rw [hall r hr] at hincluded
      cases hincluded
    simp only [getPrevSampledOutputs, hrecv, if_neg hany]
  have hdistinct := distinct_output gen hnodup
  have hmem : r.output gen ∈ rows.map (PendingRow.output gen) :=
    List.mem_map_of_mem hr
  have hidx : (r.output gen).update.idx = (r.idx : Int) := by rw [hlive.output]; rfl
  have hupdated : K.postUpdate
      ((rows.map (PendingRow.output gen)).map OutputRow.update) gpu r.idx =
      (gpu r.idx).postUpdate (r.output gen).update := by
    refine hK.postUpdate_updates _ _ _ _ ?_ (List.mem_map_of_mem hmem) hidx
    exact List.pairwise_map.mpr hdistinct
  simp only [hsome, applyOutputs, scatterDrafts]
  rw [scatter_of_mem hdistinct hmem hidx, hupdated, hlive.output]
  rfl

/-- An index for which the slot has no live row is left alone. -/
theorem applyOutputs_of_idle (hK : K.Lawful) {slot : Slot} {gen : Nat → Nat}
    (hidle : ∀ rows, slot.recv = some rows → ∀ r ∈ rows, r.idx = i →
      ¬ r.Live gen) (gpu : Nat → GpuRow) :
    applyOutputs K (getPrevSampledOutputs gen slot) gpu i = gpu i := by
  rw [getPrevSampledOutputs]
  split
  case h_1 => rfl
  case h_2 rows hrecv =>
    split
    case isTrue => rfl
    case isFalse =>
      have hne : ∀ o ∈ rows.map (PendingRow.output gen),
          o.update.idx ≠ (i : Int) := by
        intro o ho
        obtain ⟨r, hr, rfl⟩ := List.mem_map.mp ho
        simp only [PendingRow.output]
        split
        case isTrue => omega
        case isFalse hexcluded =>
          intro heq
          have hlive : r.Live gen := by
            rw [← PendingRow.excluded_eq_false]
            exact Bool.eq_false_iff.mpr hexcluded
          exact hidle rows hrecv r hr (Int.ofNat.inj heq) hlive
      have hupdate : ∀ u ∈ (rows.map (PendingRow.output gen)).map OutputRow.update,
          u.idx ≠ (i : Int) := by
        intro u hu
        obtain ⟨o, ho, rfl⟩ := List.mem_map.mp hu
        exact hne o ho
      show scatterDrafts _ _ i = gpu i
      rw [scatterDrafts, scatter_of_ne hne, hK.postUpdate_skips _ _ _ hupdate]

/-! ## `update_pp_decode_requests` -/

private theorem updatePpDecodeRequests_cons {slot : Slot} {rest : List Slot}
    (hq : s.queue = slot :: rest) :
    updatePpDecodeRequests K s =
      { s with
        queue := rest ++ [⟨s.time, none⟩]
        time := s.time + 1
        other :=
          applyOutputs K (getPrevSampledOutputs s.reqIdxGenNp slot) s.other } := by
  rw [updatePpDecodeRequests, hq]

/-- Every pending row moves one place to the front. -/
private theorem waiting_updatePp {slot : Slot} {rest : List Slot}
    (hq : s.queue = slot :: rest) :
    Waiting (updatePpDecodeRequests K s) i j r ↔ Waiting s i (j + 1) r := by
  rw [updatePpDecodeRequests_cons hq, Waiting, Waiting, hq]
  constructor
  · rintro ⟨slot', rows, hslot, hrecv, h⟩
    rcases (getElem?_rotate (a := slot)).mp hslot with hold | ⟨-, rfl⟩
    · exact ⟨slot', rows, hold, hrecv, h⟩
    · cases hrecv
  · rintro ⟨slot', rows, hslot, h⟩
    exact ⟨slot', rows, (getElem?_rotate (a := slot)).mpr (.inl hslot), h⟩

/-- The consumed slot has a live row for the index. -/
private theorem other_updatePp_of_waiting (hK : K.Lawful) (h : Inv cfg s)
    {slot : Slot} {rest : List Slot} (hq : s.queue = slot :: rest)
    (hw : Waiting s i 0 r) :
    (updatePpDecodeRequests K s).other i = r.apply (s.other i) := by
  obtain ⟨slot', rows, hslot, hrecv, hr, rfl, hlive⟩ := hw
  rw [hq, List.getElem?_cons_zero] at hslot
  obtain rfl : slot = slot' := Option.some.inj hslot
  have hok := h.slots slot (hq ▸ List.mem_cons_self) rows hrecv
  rw [updatePpDecodeRequests_cons hq]
  exact applyOutputs_of_live hK hrecv hok.nodup hr hlive s.other

private theorem other_updatePp_of_idle (hK : K.Lawful)
    {slot : Slot} {rest : List Slot} (hq : s.queue = slot :: rest)
    (hidle : ∀ r, ¬ Waiting s i 0 r) :
    (updatePpDecodeRequests K s).other i = s.other i := by
  rw [updatePpDecodeRequests_cons hq]
  refine applyOutputs_of_idle hK ?_ s.other
  intro rows hrecv r hr hidx hlive
  exact hidle r ⟨slot, rows, by rw [hq, List.getElem?_cons_zero], hrecv, hr,
    hidx, hlive⟩

/-- Without a relay nothing in the queue carries drafts. -/
private theorem draft_apply (h : Inv cfg s) (hrelay : cfg.relayDraftTokens = false)
    (hw : Waiting s i j r) (row : GpuRow) :
    (r.apply row).draftTokens = row.draftTokens := by
  obtain ⟨slot, rows, hslot, hrecv, hr, -, -⟩ := hw
  have hok := h.slots slot (List.mem_of_getElem? hslot) rows hrecv
  rw [PendingRow.apply, hok.drafts hrelay r hr]
  rfl

private theorem Prefilling.consume (hK : K.Lawful) (h : Prefilling s i)
    {slot : Slot} {rest : List Slot} (hq : s.queue = slot :: rest) :
    Prefilling (updatePpDecodeRequests K s) i := by
  have hother := other_updatePp_of_idle hK hq (h.idle 0)
  have hfields := updatePpDecodeRequests_cons (K := K) hq
  have hlast : (updatePpDecodeRequests K s).last = s.last := by rw [hfields]
  have hlen : (updatePpDecodeRequests K s).prefillLen = s.prefillLen := by
    rw [hfields]
  refine
    { count := ?_, tokens := ?_, prompt := ?_, unfinished := ?_, idle := ?_ }
  · rw [hother, hlast]; exact h.count
  · rw [hother, hlast]; exact h.tokens
  · rw [hlast, hlen]; exact h.prompt
  · rw [hlast, hlen]; exact h.unfinished
  · intro j r hw
    exact h.idle (j + 1) r ((waiting_updatePp hq).mp hw)

private theorem Sampled.consume (hK : K.Lawful) (hinv : Inv cfg s)
    {at_ : Int} {row : GpuRow} (h : Sampled cfg s i at_ row)
    {slot : Slot} {rest : List Slot} (hq : s.queue = slot :: rest) :
    Sampled cfg (updatePpDecodeRequests K s) i at_ row := by
  have hfields := updatePpDecodeRequests_cons (K := K) hq
  have hlast : (updatePpDecodeRequests K s).last = s.last := by rw [hfields]
  have hlen : (updatePpDecodeRequests K s).prefillLen = s.prefillLen := by
    rw [hfields]
  have hmax : (updatePpDecodeRequests K s).maxSeqLen = s.maxSeqLen := by
    rw [hfields]
  have htime : (updatePpDecodeRequests K s).time = s.time + 1 := by rw [hfields]
  refine
    { current := by rw [hlast]; exact h.current
      prefilled := by rw [hlast, hlen]; exact h.prefilled
      tokens := by rw [hlast]; exact h.tokens
      waiting := ?_, settled := ?_ }
  · intro j r hw
    have hold := (waiting_updatePp hq).mp hw
    obtain ⟨hat, happly⟩ := h.waiting (j + 1) r hold
    -- The slot consumed now was reserved by another step.
    have hidle : ∀ r, ¬ Waiting s i 0 r := by
      intro r' hw'
      have := (h.waiting 0 r' hw').1
      push_cast at hat
      omega
    rw [other_updatePp_of_idle hK hq hidle, hlast, htime]
    push_cast at hat
    exact ⟨by omega, happly⟩
  · rw [hlast, hmax]
    by_cases hhead : ∃ r, Waiting s i 0 r
    · obtain ⟨r, hw⟩ := hhead
      right; left
      rw [other_updatePp_of_waiting hK hinv hq hw]
      exact (h.waiting 0 r hw).2
    · have hidle : ∀ r, ¬ Waiting s i 0 r := fun r hw => hhead ⟨r, hw⟩
      rw [other_updatePp_of_idle hK hq hidle]
      refine h.settled.imp_left ?_
      rintro ⟨j, r, hw⟩
      cases j with
      | zero => exact absurd hw (hidle r)
      | succ j => exact ⟨j, r, (waiting_updatePp hq).mpr hw⟩

theorem updatePpDecodeRequests_inv (hK : K.Lawful) (h : Inv cfg s) :
    Inv cfg (updatePpDecodeRequests K s) := by
  have hpp := cfg.two_le_ppSize
  obtain ⟨slot, rest, hq, -⟩ := h.stamped.uncons (by omega)
  have hfields := updatePpDecodeRequests_cons (K := K) hq
  refine
    { stamped := ?_, held := ?_, injective := ?_, slots := ?_, drafts := ?_
      requests := ?_ }
  · have hstamped := h.stamped
    rw [hq] at hstamped
    rw [hfields]
    exact hstamped.rotate rfl
  · rw [hfields]; exact h.held
  · rw [hfields]; exact h.injective
  · intro slot' hslot' rows hrecv
    rw [hfields] at hslot' ⊢
    rcases List.mem_append.mp hslot' with hrest | hnew
    · exact h.slots slot' (hq ▸ List.mem_cons_of_mem _ hrest) rows hrecv
    · rw [List.mem_singleton.mp hnew] at hrecv
      cases hrecv
  · intro hrelay i
    have hlast : (updatePpDecodeRequests K s).last = s.last := by rw [hfields]
    rw [hlast, ← h.drafts hrelay i]
    by_cases hhead : ∃ r, Waiting s i 0 r
    · obtain ⟨r, hw⟩ := hhead
      rw [other_updatePp_of_waiting hK h hq hw, draft_apply h hrelay hw]
    · rw [other_updatePp_of_idle hK hq fun r hw => hhead ⟨r, hw⟩]
  · intro reqId i hidx
    have hat : (updatePpDecodeRequests K s).sampledAt = s.sampledAt := by
      rw [hfields]
    rw [hfields] at hidx
    have hreq := h.requests reqId i hidx
    rw [RequestOk] at hreq ⊢
    rw [hat]
    cases hs : s.sampledAt reqId with
    | none =>
        rw [hs] at hreq
        exact Prefilling.consume hK hreq hq
    | some p =>
        rw [hs] at hreq
        exact Sampled.consume hK h hreq hq

theorem updatePpDecodeRequests_time (s : State ReqId) :
    (updatePpDecodeRequests K s).time = s.time + 1 := by
  rw [updatePpDecodeRequests]
  split
  · rfl
  · rfl

theorem updatePpDecodeRequests_reserved (h : Inv cfg s) :
    Reserved (updatePpDecodeRequests K s) := by
  have hpp := cfg.two_le_ppSize
  obtain ⟨slot, rest, hq, -⟩ := h.stamped.uncons (by omega)
  rw [updatePpDecodeRequests_cons hq]
  exact ⟨rest, _, rfl, rfl⟩

/-! ## `update_requests` -/

theorem updateRequest_inv (h : Inv cfg s) {c : ReqId × Nat}
    (hupdate : updateRequest s c = some s') : Inv cfg s' := by
  rw [updateRequest] at hupdate
  split at hupdate
  case h_1 => cases hupdate
  case h_2 =>
    obtain rfl := Option.some.inj hupdate
    refine
      { stamped := h.stamped, held := h.held, injective := h.injective
        slots := h.slots, drafts := h.drafts, requests := ?_ }
    intro y i hy
    exact (h.requests y i hy).frame
      (SameAt.of_queue rfl rfl rfl rfl rfl rfl rfl) rfl

theorem updateRequest_frame {c : ReqId × Nat}
    (hupdate : updateRequest s c = some s') :
    s'.queue = s.queue ∧ s'.time = s.time := by
  rw [updateRequest] at hupdate
  split at hupdate
  case h_1 => cases hupdate
  case h_2 =>
    obtain rfl := Option.some.inj hupdate
    exact ⟨rfl, rfl⟩

/-! ## What is left alone -/

/-- A sampled request of `t` was already live in `s`, at the same index and
with the same row on the other rank. -/
def Kept (s t : State ReqId) : Prop :=
  ∀ reqId i p, t.reqIdToIndex reqId = some i → t.sampledAt reqId = some p →
    s.reqIdToIndex reqId = some i ∧ s.sampledAt reqId = some p ∧
      t.other i = s.other i

private theorem Kept.update {t t' : State ReqId} (h : Kept s t)
    {c : ReqId × Nat} (hupdate : updateRequest t c = some t') : Kept s t' := by
  rw [updateRequest] at hupdate
  split at hupdate
  case h_1 => cases hupdate
  case h_2 =>
    obtain rfl := Option.some.inj hupdate
    exact h

theorem Reserved.congr (h : Reserved s) (hqueue : s'.queue = s.queue) :
    Reserved s' := by
  rw [Reserved, hqueue]
  exact h

variable [DecidableEq ReqId]

/-! ## `_remove_request` -/

/-- Freeing an index makes every row pending for it stale. -/
private theorem SlotOk.freed {gen : Nat → Nat} {holder : Nat → Option Nat}
    {rows : List PendingRow} (h : SlotOk cfg gen holder rows) (i : Nat) :
    SlotOk cfg (Function.update gen i (gen i + 1))
      (Function.update holder i none) rows := by
  refine { nodup := h.nodup, gen_le := ?_, held := ?_, drafts := h.drafts }
  · intro r hr
    have hle := h.gen_le r hr
    by_cases hi : r.idx = i
    · subst hi
      rw [Function.update_self]
      omega
    · rw [Function.update_of_ne hi]
      exact hle
  · intro r hr heq
    have hle := h.gen_le r hr
    by_cases hi : r.idx = i
    · subst hi
      rw [Function.update_self] at heq
      omega
    · rw [Function.update_of_ne hi] at heq ⊢
      exact h.held r hr heq

theorem removeRequest_inv (h : Inv cfg s) (reqId : ReqId) :
    Inv cfg (removeRequest s reqId) := by
  rw [removeRequest]
  split
  case h_1 => exact h
  case h_2 idx hidx =>
    have hold : ∀ {y : ReqId} {i : Nat},
        Function.update s.reqIdToIndex reqId none y = some i →
          y ≠ reqId ∧ s.reqIdToIndex y = some i := by
      intro y i hy
      by_cases heq : y = reqId
      · subst heq
        rw [Function.update_self] at hy
        cases hy
      · rw [Function.update_of_ne heq] at hy
        exact ⟨heq, hy⟩
    have hne : ∀ {y : ReqId} {i : Nat}, y ≠ reqId →
        s.reqIdToIndex y = some i → i ≠ idx := by
      intro y i hy hyi heq
      exact hy (h.injective y reqId i hyi (heq ▸ hidx))
    refine
      { stamped := h.stamped, held := ?_, injective := ?_, slots := ?_
        drafts := h.drafts, requests := ?_ }
    · intro y i hy
      obtain ⟨hyne, hyi⟩ := hold hy
      show (Function.update s.holder idx none i).isSome
      rw [Function.update_of_ne (hne hyne hyi)]
      exact h.held y i hyi
    · intro y z i hy hz
      exact h.injective y z i (hold hy).2 (hold hz).2
    · intro slot hslot rows hrecv
      exact (h.slots slot hslot rows hrecv).freed idx
    · intro y i hy
      obtain ⟨hyne, hyi⟩ := hold hy
      refine (h.requests y i hyi).frame ?_ rfl
      refine SameAt.of_queue rfl rfl rfl rfl rfl rfl ?_
      exact Function.update_of_ne (hne hyne hyi) ..

theorem removeRequest_unknown (s : State ReqId) (reqId : ReqId) :
    (removeRequest s reqId).reqIdToIndex reqId = none := by
  rw [removeRequest]
  split
  case h_1 hnone => exact hnone
  case h_2 => exact Function.update_self ..

theorem removeRequest_frame (s : State ReqId) (reqId : ReqId) :
    (removeRequest s reqId).queue = s.queue ∧
      (removeRequest s reqId).time = s.time := by
  rw [removeRequest]
  split
  · exact ⟨rfl, rfl⟩
  · exact ⟨rfl, rfl⟩

/-! ## `add_request` -/

theorem addRequest_inv (h : Inv cfg s) {n : NewRequestData ReqId}
    (hunfinished : n.numComputedTokens < n.prefillTokenIds.length)
    (hadd : addRequest s n = some s') : Inv cfg s' := by
  have hremoved := removeRequest_inv h n.reqId
  have hunknown := removeRequest_unknown s n.reqId
  rw [addRequest] at hadd
  generalize removeRequest s n.reqId = t at hremoved hunknown hadd
  split at hadd
  case isFalse => cases hadd
  case isTrue hfree =>
    obtain rfl := Option.some.inj hadd
    have hne : ∀ {y : ReqId} {i : Nat}, t.reqIdToIndex y = some i →
        i ≠ n.idx := by
      rintro y i hy rfl
      have := hremoved.held y _ hy
      rw [hfree] at this
      cases this
    have hcases : ∀ {y : ReqId} {i : Nat},
        Function.update t.reqIdToIndex n.reqId (some n.idx) y = some i →
          (y = n.reqId ∧ i = n.idx) ∨
            (y ≠ n.reqId ∧ t.reqIdToIndex y = some i) := by
      intro y i hy
      by_cases heq : y = n.reqId
      · rw [heq, Function.update_self] at hy
        exact .inl ⟨heq, (Option.some.inj hy).symm⟩
      · rw [Function.update_of_ne heq] at hy
        exact .inr ⟨heq, hy⟩
    refine
      { stamped := hremoved.stamped, held := ?_, injective := ?_, slots := ?_
        drafts := ?_, requests := ?_ }
    · intro y i hy
      show (Function.update t.holder n.idx (some t.nextSerial) i).isSome
      rcases hcases hy with ⟨-, rfl⟩ | ⟨-, hyi⟩
      · rw [Function.update_self]
        rfl
      · rw [Function.update_of_ne (hne hyi)]
        exact hremoved.held y i hyi
    · intro y z i hy hz
      rcases hcases hy with ⟨rfl, rfl⟩ | ⟨-, hyi⟩
      · rcases hcases hz with ⟨rfl, -⟩ | ⟨-, hzi⟩
        · rfl
        · exact absurd rfl (hne hzi)
      · rcases hcases hz with ⟨-, rfl⟩ | ⟨-, hzi⟩
        · exact absurd rfl (hne hyi)
        · exact hremoved.injective y z i hyi hzi
    · intro slot hslot rows hrecv
      have hok := hremoved.slots slot hslot rows hrecv
      refine
        { nodup := hok.nodup, gen_le := hok.gen_le, held := ?_
          drafts := hok.drafts }
      intro r hr hgen
      obtain ⟨hholder, hsome⟩ := hok.held r hr hgen
      have hidx : r.idx ≠ n.idx := by
        intro heq
        rw [← hholder, heq, hfree] at hsome
        cases hsome
      show Function.update t.holder n.idx (some t.nextSerial) r.idx = _ ∧ _
      rw [Function.update_of_ne hidx]
      exact ⟨hholder, hsome⟩
    · intro hrelay i
      have hdraft := hremoved.drafts hrelay i
      show (Function.update t.other n.idx _ i).draftTokens =
        (Function.update t.last n.idx _ i).draftTokens
      by_cases heq : i = n.idx
      · subst heq
        rw [Function.update_self, Function.update_self]
        exact hdraft
      · rw [Function.update_of_ne heq, Function.update_of_ne heq]
        exact hdraft
    · intro y i hy
      rcases hcases hy with ⟨rfl, rfl⟩ | ⟨hyne, hyi⟩
      · -- The new request: no live row can be pending for a free index.
        rw [RequestOk]
        simp only [Function.update_self]
        refine
          { count := ?_, tokens := ?_, prompt := ?_, unfinished := ?_
            idle := ?_ }
        · simp only [Function.update_self, GpuRow.reset]
        · simp only [Function.update_self, GpuRow.reset]
        · simp only [Function.update_self, GpuRow.reset]
        · simp only [Function.update_self, GpuRow.reset]
          omega
        · rintro j r ⟨slot, rows, hslot, hrecv, hr, hidx, hlive⟩
          have hok := hremoved.slots slot (List.mem_of_getElem? hslot) rows hrecv
          obtain ⟨hholder, hsome⟩ := hok.held r hr hlive.gen_eq
          rw [← hholder, hidx, hfree] at hsome
          cases hsome
      · have hidx := hne hyi
        refine (hremoved.requests y i hyi).frame ?_ ?_
        · refine SameAt.of_queue ?_ ?_ ?_ ?_ rfl rfl rfl
          all_goals exact Function.update_of_ne hidx ..
        · exact Function.update_of_ne hyne ..

theorem addRequest_frame {n : NewRequestData ReqId}
    (hadd : addRequest s n = some s') :
    s'.queue = s.queue ∧ s'.time = s.time := by
  rw [addRequest] at hadd
  split at hadd
  case isFalse => cases hadd
  case isTrue =>
    obtain rfl := Option.some.inj hadd
    exact removeRequest_frame s n.reqId

/-! ## Everything before the forward -/

private theorem Kept.remove {t : State ReqId} (h : Kept s t) (reqId : ReqId) :
    Kept s (removeRequest t reqId) := by
  rw [removeRequest]
  split
  case h_1 => exact h
  case h_2 =>
    intro y i p hy hp
    refine h y i p ?_ hp
    by_cases heq : y = reqId
    · subst heq
      simp only [Function.update_self, reduceCtorEq] at hy
    · rw [← hy]
      exact (Function.update_of_ne heq ..).symm

private theorem Kept.add {t t' : State ReqId} (h : Kept s t) (hinv : Inv cfg t)
    {n : NewRequestData ReqId} (hadd : addRequest t n = some t') :
    Kept s t' := by
  have hremoved := h.remove n.reqId
  have hinvRemoved := removeRequest_inv hinv n.reqId
  rw [addRequest] at hadd
  generalize removeRequest t n.reqId = u at hremoved hinvRemoved hadd
  split at hadd
  case isFalse => cases hadd
  case isTrue hfree =>
    obtain rfl := Option.some.inj hadd
    intro y i p hy hp
    have hyne : y ≠ n.reqId := by
      rintro rfl
      simp only [Function.update_self, reduceCtorEq] at hp
    have hyi : u.reqIdToIndex y = some i := by
      rw [← hy]
      exact (Function.update_of_ne hyne ..).symm
    have hyp : u.sampledAt y = some p := by
      rw [← hp]
      exact (Function.update_of_ne hyne ..).symm
    have hidx : i ≠ n.idx := by
      rintro rfl
      have := hinvRemoved.held y _ hyi
      rw [hfree] at this
      cases this
    obtain ⟨hi, hs, hother⟩ := hremoved y i p hyi hyp
    refine ⟨hi, hs, ?_⟩
    rw [← hother]
    exact Function.update_of_ne hidx ..

/-- The state the batch is gathered from. -/
structure Ready (K : Kernels) (cfg : RelayConfig) (s t : State ReqId) :
    Prop where
  inv : Inv cfg t
  reserved : Reserved t
  time : t.time = s.time + 1
  kept : Kept (updatePpDecodeRequests K s) t

theorem prepare_ready (hK : K.Lawful) (h : Inv cfg s)
    {so : SchedulerOutput ReqId}
    (hunfinished : ∀ n ∈ so.scheduledNewReqs,
      n.numComputedTokens < n.prefillTokenIds.length)
    (hprepare : prepare K s so = some s') : Ready K cfg s s' := by
  have hconsumed : Ready K cfg s (updatePpDecodeRequests K s) :=
    { inv := updatePpDecodeRequests_inv hK h
      reserved := updatePpDecodeRequests_reserved h
      time := updatePpDecodeRequests_time s
      kept := fun _ _ _ hi hp => ⟨hi, hp, rfl⟩ }
  have hfinished : Ready K cfg s
      (so.finishedReqIds.foldl removeRequest (updatePpDecodeRequests K s)) := by
    refine foldl_invariant (P := Ready K cfg s) (fun t reqId ht => ?_) hconsumed
    obtain ⟨hqueue, htime⟩ := removeRequest_frame t reqId
    exact
      { inv := removeRequest_inv ht.inv reqId
        reserved := ht.reserved.congr hqueue
        time := htime.trans ht.time
        kept := ht.kept.remove reqId }
  rw [prepare] at hprepare
  obtain ⟨u, hadd, hupdate⟩ := Option.bind_eq_some_iff.mp hprepare
  have hadded : Ready K cfg s u := by
    refine foldlM_invariant (P := Ready K cfg s) ?_ hadd hfinished
    intro t n t' hn ht hstep
    obtain ⟨hqueue, htime⟩ := addRequest_frame hstep
    exact
      { inv := addRequest_inv ht.inv (hunfinished n hn) hstep
        reserved := ht.reserved.congr hqueue
        time := htime.trans ht.time
        kept := ht.kept.add ht.inv hstep }
  refine foldlM_invariant (P := Ready K cfg s) ?_ hupdate hadded
  intro t c t' _ ht hstep
  obtain ⟨hqueue, htime⟩ := updateRequest_frame hstep
  exact
    { inv := updateRequest_inv ht.inv hstep
      reserved := ht.reserved.congr hqueue
      time := htime.trans ht.time
      kept := ht.kept.update hstep }

end FlashNext.Ports.PpRelayState
