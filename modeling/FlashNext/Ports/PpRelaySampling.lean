import FlashNext.Ports.PpRelaySteps
import Mathlib.Data.List.ModifyLast
import Mathlib.Data.List.Nodup

/-!
# Pipeline relay: sampling and receiving

The invariant is kept by `sample_tokens`: the last rank updates its rows, the
other rank advances its counts and leaves the rest in the slot of this step.
-/

namespace FlashNext.Ports.PpRelayState

open FlashNext.Ports.PpRelay
open FlashNext.Verified.Scatter
open FlashNext.Verified.DelayLine

variable {ReqId : Type} {s : State ReqId} {cfg : RelayConfig}
  {K : Kernels} {i j : Nat} {r : PendingRow} {e : BatchEntry ReqId}
  {batch : List (BatchEntry ReqId)}

/-! ## The batch -/

/-- A row of the batch shows the request it is for. -/
structure Entry (s : State ReqId) (e : BatchEntry ReqId) : Prop where
  index : s.reqIdToIndex e.1.reqId = some e.2.idx
  computed : e.2.numComputedTokens = s.numComputedTokensNp e.2.idx
  scheduled : e.2.numScheduledTokens = e.1.numScheduledTokens
  prefillLen : e.2.prefillLen = s.prefillLen e.2.idx
  maxSeqLen : e.2.maxSeqLen = s.maxSeqLen e.2.idx

theorem entry_of_batchEntry {q : ScheduledRequest ReqId}
    (h : batchEntry s q = some e) : e.1 = q ∧ Entry s e := by
  rw [batchEntry] at h
  split at h
  case h_1 => cases h
  case h_2 idx hidx =>
    obtain rfl := Option.some.inj h
    exact ⟨rfl, hidx, rfl, rfl, rfl, rfl⟩

/-- The batch of distinct requests. -/
structure Gathered (s : State ReqId) (batch : List (BatchEntry ReqId)) :
    Prop where
  entry : ∀ e ∈ batch, Entry s e
  ids : (batch.map fun e => e.1.reqId).Nodup
  idxs : (batch.map fun e => e.2.idx).Nodup

private theorem gatherBatch_spec {scheduled : List (ScheduledRequest ReqId)} :
    ∀ {batch : List (BatchEntry ReqId)}, gatherBatch s scheduled = some batch →
      batch.map Prod.fst = scheduled ∧ ∀ e ∈ batch, Entry s e := by
  induction scheduled with
  | nil =>
      intro batch h
      obtain rfl : [] = batch := by simpa [gatherBatch] using h
      exact ⟨rfl, fun e he => by cases he⟩
  | cons q scheduled ih =>
      intro batch h
      rw [gatherBatch, List.mapM_cons] at h
      obtain ⟨e, he, h⟩ := Option.bind_eq_some_iff.mp h
      obtain ⟨rest, hrest, h⟩ := Option.bind_eq_some_iff.mp h
      obtain rfl : e :: rest = batch := Option.some.inj h
      obtain ⟨hq, hentry⟩ := entry_of_batchEntry he
      obtain ⟨hmap, hall⟩ := ih hrest
      refine ⟨by rw [List.map_cons, hq, hmap], ?_⟩
      intro e' he'
      rcases List.mem_cons.mp he' with rfl | hmem
      · exact hentry
      · exact hall e' hmem

theorem gatherBatch_fst {scheduled : List (ScheduledRequest ReqId)}
    (h : gatherBatch s scheduled = some batch) :
    batch.map Prod.fst = scheduled :=
  (gatherBatch_spec h).1

theorem gathered_of_gatherBatch (hinv : Inv cfg s)
    {scheduled : List (ScheduledRequest ReqId)}
    (hnodup : (scheduled.map ScheduledRequest.reqId).Nodup)
    (h : gatherBatch s scheduled = some batch) : Gathered s batch := by
  obtain ⟨hfst, hentry⟩ := gatherBatch_spec h
  have hids : (batch.map fun e => e.1.reqId).Nodup := by
    rw [← hfst, List.map_map] at hnodup
    exact hnodup
  refine { entry := hentry, ids := hids, idxs := ?_ }
  have hpair := List.pairwise_map.mp hids
  refine List.pairwise_map.mpr (hpair.imp_of_mem ?_)
  intro a b ha hb hne heq
  have hindex := (hentry b hb).index
  rw [← heq] at hindex
  exact hne (hinv.injective _ _ _ (hentry a ha).index hindex)

theorem Gathered.eq_of_reqId (h : Gathered s batch) {e e' : BatchEntry ReqId}
    (he : e ∈ batch) (he' : e' ∈ batch) (heq : e.1.reqId = e'.1.reqId) :
    e = e' :=
  List.inj_on_of_nodup_map h.ids he he' heq

/-! ## The last rank's rows -/

/-- The row that sampling leaves the last rank with. -/
def sampledRow (cfg : RelayConfig) (e : BatchEntry ReqId) (row : GpuRow) :
    GpuRow :=
  if cfg.hasSpeculator true then
    (row.postUpdate (lastUpdate e)).setDraft e.1.draftTokens
  else row.postUpdate (lastUpdate e)

private theorem Gathered.distinct (h : Gathered s batch) :
    Distinct (fun e : BatchEntry ReqId => (e.2.idx : Int)) batch := by
  refine distinct_of_nodup ?_
  have hcast : (batch.map fun e => (e.2.idx : Int)) =
      (batch.map fun e => e.2.idx).map Int.ofNat := by
    rw [List.map_map]
    rfl
  rw [hcast]
  exact h.idxs.map fun a b hab => Int.ofNat.inj hab

theorem sampledLast_of_mem (hK : K.Lawful) (h : Gathered s batch)
    (he : e ∈ batch) :
    sampledLast K cfg s batch e.2.idx = sampledRow cfg e (s.last e.2.idx) := by
  have hdistinct : Distinct PostUpdate.idx (batch.map lastUpdate) :=
    List.pairwise_map.mpr h.distinct
  have hpost := hK.postUpdate_updates _ s.last e.2.idx (lastUpdate e) hdistinct
    (List.mem_map_of_mem he) rfl
  rw [sampledLast, sampledRow]
  split
  · rw [scatter_of_mem h.distinct he rfl, hpost]
  · exact hpost

theorem sampledLast_of_ne (hK : K.Lawful) (hne : ∀ e ∈ batch, e.2.idx ≠ i) :
    sampledLast K cfg s batch i = s.last i := by
  have hcast : ∀ e ∈ batch, (e.2.idx : Int) ≠ i := by
    intro e he heq
    exact hne e he (Int.ofNat.inj heq)
  have hpost : K.postUpdate (batch.map lastUpdate) s.last i = s.last i := by
    refine hK.postUpdate_skips _ _ _ ?_
    intro u hu
    obtain ⟨e, he, rfl⟩ := List.mem_map.mp hu
    exact hcast e he
  rw [sampledLast]
  split
  · rw [scatter_of_ne hcast, hpost]
  · exact hpost

/-! ## The other rank's counts -/

private theorem counted_of_mem (hK : K.Lawful) (h : Gathered s batch)
    (he : e ∈ batch) :
    K.postUpdateNumComputedTokens
        (batch.map fun e => (e.2.idx, e.1.numScheduledTokens)) s.other e.2.idx =
      (s.other e.2.idx).addComputed e.1.numScheduledTokens := by
  refine hK.count_adds _ _ _ (e.2.idx, e.1.numScheduledTokens) ?_ ?_ rfl
  · rw [List.map_map]
    exact h.idxs
  · exact List.mem_map_of_mem he

private theorem counted_of_ne (hK : K.Lawful) (hne : ∀ e ∈ batch, e.2.idx ≠ i) :
    K.postUpdateNumComputedTokens
        (batch.map fun e => (e.2.idx, e.1.numScheduledTokens)) s.other i =
      s.other i := by
  refine hK.count_skips _ _ _ ?_
  intro r hr
  obtain ⟨e, he, rfl⟩ := List.mem_map.mp hr
  exact hne e he

/-! ## The received rows -/

/-- What `receive` leaves in the slot of this step. -/
def received (cfg : RelayConfig) (s : State ReqId)
    (batch : List (BatchEntry ReqId)) : Option (List PendingRow) :=
  (computeNeedSampledMask (batch.map Prod.snd)).map fun _ =>
    batch.map (pendingRow cfg s)

theorem receiveQueue_eq {rest : List Slot} {slot : Slot}
    (hq : s.queue = rest ++ [slot]) (hrecv : slot.recv = none) :
    receiveQueue cfg s batch =
      rest ++ [⟨slot.reservedBy, received cfg s batch⟩] := by
  rw [receiveQueue, received]
  split
  case h_1 hmask =>
    rw [hmask, Option.map_none, ← hrecv]
    exact hq
  case h_2 hmask => rw [hq, List.modifyLast_concat, hmask, Option.map_some]

/-- A needed row of the batch is received. -/
private theorem received_of_needed (he : e ∈ batch)
    (hneed : e.2.needSampled = true) :
    received cfg s batch = some (batch.map (pendingRow cfg s)) := by
  rw [received]
  cases hmask : computeNeedSampledMask (batch.map Prod.snd) with
  | none =>
      have hnot := computeNeedSampledMask_eq_none hmask e.2
        (List.mem_map_of_mem he)
      rw [hneed] at hnot
      cases hnot
  | some mask => rfl

/-- The state after `sample_tokens` waits for what it waited for, and for the
needed rows of the batch. -/
theorem waiting_sampleTokens [DecidableEq ReqId] {rest : List Slot}
    {slot : Slot} (hq : s.queue = rest ++ [slot]) (hrecv : slot.recv = none) :
    Waiting (sampleTokens K cfg s batch) i j r ↔
      Waiting s i j r ∨ (j = rest.length ∧ ∃ e ∈ batch,
        e.2.idx = i ∧ e.2.needSampled = true ∧ r = pendingRow cfg s e) := by
  have hqueue : (sampleTokens K cfg s batch).queue =
      rest ++ [⟨slot.reservedBy, received cfg s batch⟩] := receiveQueue_eq hq hrecv
  rw [Waiting, Waiting, hqueue, hq]
  constructor
  · rintro ⟨slot', rows, hslot, hrows, hr, hidx, hlive⟩
    rcases (getElem?_rotate (a := slot)).mp hslot with hold | ⟨hj, rfl⟩
    · left
      exact ⟨slot', rows, (getElem?_rotate (a := slot)).mpr (.inl hold), hrows,
        hr, hidx, hlive⟩
    · right
      refine ⟨hj, ?_⟩
      obtain ⟨mask, -, rfl⟩ := Option.map_eq_some_iff.mp hrows
      obtain ⟨e, he, rfl⟩ := List.mem_map.mp hr
      exact ⟨e, he, hidx, hlive.needed, rfl⟩
  · rintro (⟨slot', rows, hslot, hrows, hr, hidx, hlive⟩ |
      ⟨hj, e, he, hidx, hneed, rfl⟩)
    · rcases (getElem?_rotate (a := slot)).mp hslot with hold | ⟨-, rfl⟩
      · exact ⟨slot', rows, (getElem?_rotate (a := slot)).mpr (.inl hold),
          hrows, hr, hidx, hlive⟩
      · rw [hrecv] at hrows
        cases hrows
    · refine ⟨_, _, (getElem?_rotate (a := slot)).mpr (.inr ⟨hj, rfl⟩),
        received_of_needed he hneed, List.mem_map_of_mem he, hidx, ?_⟩
      exact ⟨rfl, hneed⟩

/-- The last valid token survives the padding. -/
private theorem getD_catPadRow (maxSampleLen : Nat) {n : Nat} {row : List Int}
    (hpos : 0 < n) (hn : n ≤ row.length) :
    (catPadRow maxSampleLen row).getD (n - 1) (-1) = row.getD (n - 1) (-1) := by
  rw [List.getD_eq_getElem?_getD, List.getD_eq_getElem?_getD,
    getElem?_catPadRow (by omega)]

private theorem slotOk_received (hinv : Inv cfg s) (h : Gathered s batch)
    {rows : List PendingRow} (hrows : received cfg s batch = some rows) :
    SlotOk cfg s.reqIdxGenNp s.holder rows := by
  obtain ⟨mask, -, rfl⟩ := Option.map_eq_some_iff.mp hrows
  refine { nodup := ?_, gen_le := ?_, held := ?_, drafts := ?_ }
  · rw [List.map_map]
    exact h.idxs
  · intro r hr
    obtain ⟨e, he, rfl⟩ := List.mem_map.mp hr
    exact Nat.le_refl _
  · intro r hr _
    obtain ⟨e, he, rfl⟩ := List.mem_map.mp hr
    exact ⟨rfl, hinv.held _ _ (h.entry e he).index⟩
  · intro hrelay r hr
    obtain ⟨e, he, rfl⟩ := List.mem_map.mp hr
    simp only [pendingRow, hrelay, Bool.false_eq_true, if_false]

/-- Two ranks that agree on the tokens and the count of a request agree on
all of it once the count is advanced now and the received row is applied
later. -/
theorem apply_pendingRow {o l : GpuRow}
    (hcount : o.numComputedTokens = l.numComputedTokens)
    (htokens : o.allTokenIds = l.allTokenIds)
    (hdraft : cfg.relayDraftTokens = false → o.draftTokens = l.draftTokens)
    (hpos : 0 < e.1.numSampled)
    (hvalid : e.1.numSampled ≤ e.1.sampledTokens.length) :
    (pendingRow cfg s e).apply (o.addComputed e.1.numScheduledTokens) =
      sampledRow cfg e l := by
  have hlast := getD_catPadRow cfg.maxSampleLen hpos hvalid
  have htake : (catPadRow cfg.maxSampleLen e.1.sampledTokens).take
      e.1.numSampled = e.1.sampledTokens.take e.1.numSampled :=
    take_catPadRow hvalid
  have hne : e.1.numSampled ≠ 0 := by omega
  have hrow : (o.addComputed e.1.numScheduledTokens).postUpdate
      (pendingRow cfg s e).update =
        { l.postUpdate (lastUpdate e) with draftTokens := o.draftTokens } := by
    simp only [GpuRow.postUpdate, PendingRow.update, pendingRow, lastUpdate,
      GpuRow.addComputed, hne, if_false, hlast, htake, hcount, htokens,
      Option.getD_none, Option.getD_some, Int.natCast_zero, Int.add_zero]
  rw [PendingRow.apply, hrow, sampledRow, Config.hasSpeculator, Bool.and_true]
  by_cases hrelay : cfg.relayDraftTokens = true
  · have hspec : cfg.speculativeConfig = true := hrelay
    rw [if_pos hspec]
    simp only [pendingRow, hrelay, if_true, Option.map_some, Option.getD_some,
      GpuRow.setDraft]
  · have hspec : ¬ cfg.speculativeConfig = true := hrelay
    rw [if_neg hspec]
    simp only [pendingRow, hrelay, if_false, Bool.false_eq_true,
      Option.map_none, Option.getD_none, hdraft (Bool.eq_false_iff.mpr hrelay)]
    rfl

/-! ## One request of the batch -/

theorem sampledRow_numComputedTokens (row : GpuRow) :
    (sampledRow cfg e row).numComputedTokens =
      row.numComputedTokens + e.1.numScheduledTokens - e.1.numRejected := by
  rw [sampledRow]
  split <;> rfl

theorem sampledRow_allTokenIds (row : GpuRow) :
    (sampledRow cfg e row).allTokenIds =
      row.allTokenIds ++ e.1.sampledTokens.take e.1.numSampled := by
  rw [sampledRow]
  split <;> rfl

theorem sampledRow_length (row : GpuRow)
    (hvalid : e.1.numSampled ≤ e.1.sampledTokens.length) :
    (sampledRow cfg e row).allTokenIds.length =
      row.allTokenIds.length + e.1.numSampled := by
  rw [sampledRow_allTokenIds, List.length_append, List.length_take]
  omega

/-- A sampling row that is not needed has used up its length. -/
private theorem not_needed_length (hentry : Entry s e)
    (hproduces : e.2.producesSample = true) (hneed : e.2.needSampled = false) :
    s.maxSeqLen e.2.idx ≤ max e.2.numComputedTokens e.2.prefillLen + 1 := by
  rw [BatchRow.needSampled, hproduces, Bool.true_and, BatchRow.notFinishing,
    decide_eq_false_iff_not, hentry.maxSeqLen] at hneed
  omega

variable [DecidableEq ReqId]

theorem sampledAt_of_mem (h : Gathered s batch) (he : e ∈ batch)
    (hpos : 0 < e.1.numSampled) :
    (sampleTokens K cfg s batch).sampledAt e.1.reqId =
      some (s.time - 1, sampledLast K cfg s batch e.2.idx) := by
  simp only [sampleTokens]
  split
  case h_1 hnone =>
    rw [List.find?_eq_none] at hnone
    exact absurd (decide_eq_true ⟨rfl, hpos⟩) (hnone e he)
  case h_2 e' hsome =>
    have hmem := List.mem_of_find?_eq_some hsome
    have hpred := List.find?_some hsome
    rw [decide_eq_true_eq] at hpred
    rw [h.eq_of_reqId hmem he hpred.1]

theorem sampledAt_of_idle {reqId : ReqId}
    (hidle : ∀ e ∈ batch, e.1.reqId = reqId → e.1.numSampled = 0) :
    (sampleTokens K cfg s batch).sampledAt reqId = s.sampledAt reqId := by
  simp only [sampleTokens]
  split
  case h_1 => rfl
  case h_2 e' hsome =>
    have hpred := List.find?_some hsome
    rw [decide_eq_true_eq] at hpred
    have hzero := hidle e' (List.mem_of_find?_eq_some hsome) hpred.1
    omega

/-- After `sample_tokens` a request of the batch waits for its own row, if it
waited for nothing before. -/
private theorem waiting_of_mem (h : Gathered s batch) {rest : List Slot}
    {slot : Slot} (hq : s.queue = rest ++ [slot]) (hrecv : slot.recv = none)
    (he : e ∈ batch) (hidle : ∀ j r, ¬ Waiting s e.2.idx j r) :
    Waiting (sampleTokens K cfg s batch) e.2.idx j r ↔
      j = rest.length ∧ e.2.needSampled = true ∧ r = pendingRow cfg s e := by
  rw [waiting_sampleTokens hq hrecv]
  constructor
  · rintro (hold | ⟨hj, e', he', hidx, hneed, hr⟩)
    · exact absurd hold (hidle j r)
    · obtain rfl : e' = e := List.inj_on_of_nodup_map h.idxs he' he hidx
      exact ⟨hj, hneed, hr⟩
  · rintro ⟨hj, hneed, hr⟩
    exact .inr ⟨hj, e, he, rfl, hneed, hr⟩

/-- A request that samples is left in order: if its row is needed, the row
that will be applied in `pp_size` steps makes the two ranks equal; if not, the
request has used up its length. -/
private theorem sampled_of_mem (hK : K.Lawful) (h : Gathered s batch)
    {rest : List Slot} {slot : Slot} (hq : s.queue = rest ++ [slot])
    (hrecv : slot.recv = none) (hlen : rest.length + 1 = cfg.ppSize)
    (he : e ∈ batch) (hcontract : RowContract cfg s e)
    (hpos : 0 < e.1.numSampled) (hidle : ∀ j r, ¬ Waiting s e.2.idx j r)
    (hprefilled : (s.prefillLen e.2.idx : Int) ≤
      (s.last e.2.idx).numComputedTokens + e.1.numScheduledTokens -
        e.1.numRejected)
    (htokens : ((s.last e.2.idx).allTokenIds.length : Int) + e.1.numSampled =
      (s.last e.2.idx).numComputedTokens + e.1.numScheduledTokens -
        e.1.numRejected + 1)
    (hagree : e.2.needSampled = true →
      (s.other e.2.idx).numComputedTokens = (s.last e.2.idx).numComputedTokens ∧
        (s.other e.2.idx).allTokenIds = (s.last e.2.idx).allTokenIds ∧
        (cfg.relayDraftTokens = false →
          (s.other e.2.idx).draftTokens = (s.last e.2.idx).draftTokens))
    (hdone : e.2.needSampled = false → s.maxSeqLen e.2.idx ≤
      (s.last e.2.idx).allTokenIds.length + e.1.numSampled) :
    Sampled cfg (sampleTokens K cfg s batch) e.2.idx (s.time - 1)
      (sampledLast K cfg s batch e.2.idx) := by
  have hlast : (sampleTokens K cfg s batch).last e.2.idx =
      sampledRow cfg e (s.last e.2.idx) := sampledLast_of_mem hK h he
  have hother : (sampleTokens K cfg s batch).other e.2.idx =
      (s.other e.2.idx).addComputed e.1.numScheduledTokens :=
    counted_of_mem hK h he
  have hwaiting : ∀ {j : Nat} {r : PendingRow},
      Waiting (sampleTokens K cfg s batch) e.2.idx j r ↔
        j = rest.length ∧ e.2.needSampled = true ∧ r = pendingRow cfg s e :=
    waiting_of_mem h hq hrecv he hidle
  refine
    { current := rfl, prefilled := ?_, tokens := ?_, waiting := ?_
      settled := ?_ }
  · rw [hlast, sampledRow_numComputedTokens]
    exact hprefilled
  · rw [hlast, sampledRow_numComputedTokens,
      sampledRow_length _ hcontract.valid]
    push_cast
    exact htokens
  · intro j r hw
    obtain ⟨rfl, hneed, rfl⟩ := hwaiting.mp hw
    obtain ⟨hcount, hall, hdraft⟩ := hagree hneed
    rw [hother, hlast]
    refine ⟨?_, apply_pendingRow hcount hall hdraft hpos hcontract.valid⟩
    show s.time - 1 + cfg.ppSize = s.time + rest.length
    omega
  · cases hneed : e.2.needSampled with
    | true => exact .inl ⟨_, _, hwaiting.mpr ⟨rfl, hneed, rfl⟩⟩
    | false =>
        right; right
        rw [hlast, sampledRow_length _ hcontract.valid]
        exact hdone hneed

/-! ## The two phases -/

/-- A prefill chunk that is not the final one. -/
private theorem Prefilling.chunk (hK : K.Lawful) (h : Gathered s batch)
    {rest : List Slot} {slot : Slot} (hq : s.queue = rest ++ [slot])
    (hrecv : slot.recv = none) (he : e ∈ batch)
    (hcontract : RowContract cfg s e) (hphase : Prefilling s e.2.idx)
    (hproduces : e.2.producesSample = false) :
    e.1.numSampled = 0 ∧
      Prefilling (sampleTokens K cfg s batch) e.2.idx := by
  have hentry := h.entry e he
  have hcount := hcontract.count
  have hunfinished := hphase.unfinished
  rw [← hcount, ← hentry.prefillLen] at hunfinished
  obtain ⟨-, hrejected, hsampled⟩ := hcontract.prefill (by omega)
  rw [hproduces, if_neg Bool.false_ne_true] at hsampled
  have hlast : (sampleTokens K cfg s batch).last e.2.idx =
      sampledRow cfg e (s.last e.2.idx) := sampledLast_of_mem hK h he
  have hother : (sampleTokens K cfg s batch).other e.2.idx =
      (s.other e.2.idx).addComputed e.1.numScheduledTokens :=
    counted_of_mem hK h he
  have htokens : (sampledRow cfg e (s.last e.2.idx)).allTokenIds =
      (s.last e.2.idx).allTokenIds := by
    rw [sampledRow_allTokenIds, hsampled, List.take_zero, List.append_nil]
  refine ⟨hsampled,
    { count := ?_, tokens := ?_, prompt := ?_, unfinished := ?_, idle := ?_ }⟩
  · rw [hother, hlast, sampledRow_numComputedTokens, GpuRow.addComputed,
      hphase.count, hrejected]
    simp
  · rw [hother, hlast, htokens]
    exact hphase.tokens
  · rw [hlast, htokens]
    exact hphase.prompt
  · rw [hlast, sampledRow_numComputedTokens, hrejected]
    rw [BatchRow.producesSample, decide_eq_false_iff_not, hentry.prefillLen,
      hentry.scheduled] at hproduces
    show _ < (s.prefillLen e.2.idx : Int)
    omega
  · intro j r hw
    rw [waiting_of_mem h hq hrecv he hphase.idle] at hw
    rw [BatchRow.needSampled, hproduces, Bool.false_and] at hw
    exact absurd hw.2.1 Bool.false_ne_true

/-- The final prefill chunk. -/
private theorem Prefilling.final (hK : K.Lawful) (hinv : Inv cfg s)
    (h : Gathered s batch) {rest : List Slot} {slot : Slot}
    (hq : s.queue = rest ++ [slot]) (hrecv : slot.recv = none)
    (hlen : rest.length + 1 = cfg.ppSize) (he : e ∈ batch)
    (hcontract : RowContract cfg s e) (hphase : Prefilling s e.2.idx)
    (hproduces : e.2.producesSample = true) :
    0 < e.1.numSampled ∧
      Sampled cfg (sampleTokens K cfg s batch) e.2.idx (s.time - 1)
        (sampledLast K cfg s batch e.2.idx) := by
  have hentry := h.entry e he
  have hcount := hcontract.count
  have hprompt := hphase.prompt
  have hunfinished := hphase.unfinished
  rw [← hcount, ← hentry.prefillLen] at hunfinished
  obtain ⟨hinside, hrejected, hsampled⟩ := hcontract.prefill (by omega)
  rw [hproduces, if_pos rfl] at hsampled
  have hreached : e.2.prefillLen ≤ e.2.numComputedTokens + e.2.numScheduledTokens :=
    of_decide_eq_true hproduces
  rw [hentry.scheduled] at hinside hreached
  rw [hentry.prefillLen] at hinside hreached hunfinished
  have hpos : 0 < e.1.numSampled := by omega
  refine ⟨hpos, sampled_of_mem hK h hq hrecv hlen he hcontract hpos hphase.idle
    ?_ ?_ ?_ ?_⟩
  · omega
  · omega
  · intro _
    exact ⟨hphase.count, hphase.tokens, fun hrelay => hinv.drafts hrelay _⟩
  · intro hneed
    have hmax := not_needed_length hentry hproduces hneed
    rw [hentry.prefillLen] at hmax
    omega

/-- A decode. -/
private theorem Sampled.decode (hK : K.Lawful)
    (h : Gathered s batch) {rest : List Slot} {slot : Slot}
    (hq : s.queue = rest ++ [slot]) (hrecv : slot.recv = none)
    (hlen : rest.length + 1 = cfg.ppSize) (he : e ∈ batch)
    (hcontract : RowContract cfg s e) {p : Int × GpuRow}
    (hat : s.sampledAt e.1.reqId = some p)
    (hphase : Sampled cfg s e.2.idx p.1 p.2) :
    0 < e.1.numSampled ∧
      Sampled cfg (sampleTokens K cfg s batch) e.2.idx (s.time - 1)
        (sampledLast K cfg s batch e.2.idx) := by
  have hentry := h.entry e he
  have hcount := hcontract.count
  have hprefilled := hphase.prefilled
  have htokens := hphase.tokens
  rw [← hcount, ← hentry.prefillLen] at hprefilled
  have hdecode : e.2.prefillLen ≤ e.2.numComputedTokens := by omega
  obtain ⟨hpos, hsplit⟩ := hcontract.decode hdecode
  rw [hentry.scheduled] at hsplit
  have hspacing := hcontract.spacing hdecode p hat
  have hproduces : e.2.producesSample = true :=
    decide_eq_true (Nat.le_trans hdecode (Nat.le_add_right ..))
  -- What the previous sampling left in the queue has been consumed.
  have hidle : ∀ j r, ¬ Waiting s e.2.idx j r := by
    intro j r hw
    have := (hphase.waiting j r hw).1
    omega
  refine ⟨hpos, sampled_of_mem hK h hq hrecv hlen he hcontract hpos hidle
    ?_ ?_ ?_ ?_⟩
  · rw [← hentry.prefillLen]
    omega
  · omega
  · intro hneed
    rcases hphase.settled with ⟨j, r, hw⟩ | heq | hmax
    · exact absurd hw (hidle j r)
    · rw [heq]
      exact ⟨rfl, rfl, fun _ => rfl⟩
    · rw [BatchRow.needSampled, hproduces, Bool.true_and] at hneed
      have hfinishing := of_decide_eq_true hneed
      rw [hentry.maxSeqLen] at hfinishing
      omega
  · intro hneed
    have hmax := not_needed_length hentry hproduces hneed
    omega

/-! ## `sample_tokens` -/

private theorem drafts_sampleTokens (hK : K.Lawful) (hinv : Inv cfg s)
    (h : Gathered s batch) (hrelay : cfg.relayDraftTokens = false) (i : Nat) :
    ((sampleTokens K cfg s batch).other i).draftTokens =
      ((sampleTokens K cfg s batch).last i).draftTokens := by
  have hdraft := hinv.drafts hrelay i
  have hspec : ¬ cfg.hasSpeculator true = true := by
    rw [Config.hasSpeculator, Bool.and_true]
    exact Bool.eq_false_iff.mp hrelay
  by_cases hmem : ∃ e ∈ batch, e.2.idx = i
  · obtain ⟨e, he, rfl⟩ := hmem
    have hlast : (sampleTokens K cfg s batch).last e.2.idx =
        sampledRow cfg e (s.last e.2.idx) := sampledLast_of_mem hK h he
    have hother : (sampleTokens K cfg s batch).other e.2.idx =
        (s.other e.2.idx).addComputed e.1.numScheduledTokens :=
      counted_of_mem hK h he
    rw [hlast, hother, sampledRow, if_neg hspec]
    exact hdraft
  · have hne : ∀ e ∈ batch, e.2.idx ≠ i := fun e he hidx => hmem ⟨e, he, hidx⟩
    have hlast : (sampleTokens K cfg s batch).last i = s.last i :=
      sampledLast_of_ne hK hne
    have hother : (sampleTokens K cfg s batch).other i = s.other i :=
      counted_of_ne hK hne
    rw [hlast, hother]
    exact hdraft

private theorem request_of_mem (hK : K.Lawful) (hinv : Inv cfg s)
    (h : Gathered s batch) {rest : List Slot} {slot : Slot}
    (hq : s.queue = rest ++ [slot]) (hrecv : slot.recv = none)
    (hlen : rest.length + 1 = cfg.ppSize) (he : e ∈ batch)
    (hcontract : RowContract cfg s e) :
    RequestOk cfg (sampleTokens K cfg s batch) e.1.reqId e.2.idx := by
  have hphase := hinv.requests e.1.reqId e.2.idx (h.entry e he).index
  rw [RequestOk] at hphase ⊢
  cases hat : s.sampledAt e.1.reqId with
  | none =>
      rw [hat] at hphase
      cases hproduces : e.2.producesSample with
      | false =>
          obtain ⟨hzero, hnext⟩ :=
            Prefilling.chunk hK h hq hrecv he hcontract hphase hproduces
          have hidle : ∀ e' ∈ batch, e'.1.reqId = e.1.reqId →
              e'.1.numSampled = 0 := by
            intro e' he' heq
            rw [h.eq_of_reqId he' he heq]
            exact hzero
          rw [sampledAt_of_idle hidle, hat]
          exact hnext
      | true =>
          obtain ⟨hpos, hnext⟩ := Prefilling.final hK hinv h hq hrecv hlen he
            hcontract hphase hproduces
          rw [sampledAt_of_mem h he hpos]
          exact hnext
  | some p =>
      rw [hat] at hphase
      obtain ⟨hpos, hnext⟩ :=
        Sampled.decode hK h hq hrecv hlen he hcontract hat hphase
      rw [sampledAt_of_mem h he hpos]
      exact hnext

private theorem request_of_ne (hK : K.Lawful) (hinv : Inv cfg s)
    (h : Gathered s batch) {rest : List Slot} {slot : Slot}
    (hq : s.queue = rest ++ [slot]) (hrecv : slot.recv = none)
    {reqId : ReqId} (hindex : s.reqIdToIndex reqId = some i)
    (hne : ∀ e ∈ batch, e.1.reqId ≠ reqId) :
    RequestOk cfg (sampleTokens K cfg s batch) reqId i := by
  have hidx : ∀ e ∈ batch, e.2.idx ≠ i := by
    intro e he heq
    have hentry := (h.entry e he).index
    rw [heq] at hentry
    exact hne e he (hinv.injective _ _ _ hentry hindex)
  refine (hinv.requests reqId i hindex).frame ?_ ?_
  · refine
      { prefillLen := rfl, maxSeqLen := rfl, time := rfl
        last := sampledLast_of_ne hK hidx
        other := counted_of_ne hK hidx, waiting := ?_ }
    intro j r
    rw [waiting_sampleTokens hq hrecv]
    refine or_iff_left ?_
    rintro ⟨-, e, he, heq, -⟩
    exact hidx e he heq
  · exact sampledAt_of_idle fun e he heq => absurd heq (hne e he)

theorem sampleTokens_inv (hK : K.Lawful) (hinv : Inv cfg s)
    (hreserved : Reserved s) (h : Gathered s batch)
    (hcontract : ∀ e ∈ batch, RowContract cfg s e) :
    Inv cfg (sampleTokens K cfg s batch) := by
  obtain ⟨rest, slot, hq, hrecv⟩ := hreserved
  have hqueue : (sampleTokens K cfg s batch).queue =
      rest ++ [⟨slot.reservedBy, received cfg s batch⟩] := receiveQueue_eq hq hrecv
  have hstamped := hinv.stamped
  rw [hq] at hstamped
  have hlen : rest.length + 1 = cfg.ppSize := by
    rw [← hstamped.length, List.length_append, List.length_singleton]
  refine
    { stamped := ?_, held := hinv.held, injective := hinv.injective
      slots := ?_, drafts := drafts_sampleTokens hK hinv h, requests := ?_ }
  · rw [hqueue]
    exact hstamped.fill rfl
  · intro slot' hslot' rows hrows
    rw [hqueue] at hslot'
    rcases List.mem_append.mp hslot' with hrest | hnew
    · have hold : slot' ∈ s.queue := by
        rw [hq]
        exact List.mem_append_left _ hrest
      exact hinv.slots slot' hold rows hrows
    · rw [List.mem_singleton.mp hnew] at hrows
      exact slotOk_received hinv h hrows
  · intro reqId i hindex
    by_cases hmem : ∃ e ∈ batch, e.1.reqId = reqId
    · obtain ⟨e, he, rfl⟩ := hmem
      have hentry := (h.entry e he).index
      obtain rfl : e.2.idx = i := Option.some.inj (hentry.symm.trans hindex)
      exact request_of_mem hK hinv h hq hrecv hlen he (hcontract e he)
    · exact request_of_ne hK hinv h hq hrecv hindex
        fun e he heq => hmem ⟨e, he, heq⟩

end FlashNext.Ports.PpRelayState
