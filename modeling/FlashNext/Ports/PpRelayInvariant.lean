import FlashNext.Verified.StepRuns
import FlashNext.Verified.DelayLine
import FlashNext.Ports.PpRelayState

/-!
# Pipeline relay: the invariant

A live request is either prefilling, when nothing is pending for it and the
two ranks agree on its prompt, or it has been sampled.  A sampled request has
at most one live pending row, in the slot reserved by the step that sampled;
applying this row to the other rank's row gives the last rank's row.  Once it
is applied the two rows are equal, unless the request has used up its length
and was not relayed.

A pending row is live only while its index is held by the request it was
received for: freeing an index raises its generation above every pending one.
-/

namespace FlashNext.Ports.PpRelayState

open FlashNext.Ports.PpRelay
open FlashNext.Verified.Scatter
open FlashNext.Verified.DelayLine
open FlashNext.Verified.StepRuns

variable {ReqId : Type} {s s' : State ReqId} {cfg : RelayConfig} {i j : Nat}
  {r : PendingRow}

/-! ## Pending rows -/

/-- The row will not be excluded. -/
structure PendingRow.Live (gen : Nat → Nat) (r : PendingRow) : Prop where
  gen_eq : gen r.idx = r.genAtReceive
  needed : r.needSampled = true

theorem PendingRow.excluded_eq_false {gen : Nat → Nat} :
    r.excluded gen = false ↔ r.Live gen := by
  simp only [PendingRow.excluded, Bool.or_eq_false_iff, decide_eq_false_iff_not,
    not_not, Bool.not_eq_false']
  exact ⟨fun h => ⟨h.1, h.2⟩, fun h => ⟨h.gen_eq, h.needed⟩⟩

/-- The row as it is handed to `post_update`. -/
def PendingRow.update (r : PendingRow) : PostUpdate :=
  ⟨r.idx, r.sampledTokens, r.numSampled, r.numRejected, none⟩

/-- What consuming a live row makes of the GPU row it is for. -/
def PendingRow.apply (r : PendingRow) (row : GpuRow) : GpuRow :=
  (r.draftTokens.map (GpuRow.setDraft · (row.postUpdate r.update))).getD
    (row.postUpdate r.update)

theorem PendingRow.Live.output {gen : Nat → Nat} (h : r.Live gen) :
    r.output gen = ⟨r.update, r.draftTokens, r.receivedFor⟩ := by
  have hincluded := PendingRow.excluded_eq_false.mpr h
  simp [PendingRow.output, hincluded, PendingRow.update]

/-- The slot at position `j` holds a live row for index `i`. -/
def Waiting (s : State ReqId) (i j : Nat) (r : PendingRow) : Prop :=
  ∃ slot rows, s.queue[j]? = some slot ∧ slot.recv = some rows ∧ r ∈ rows ∧
    r.idx = i ∧ r.Live s.reqIdxGenNp

/-! ## The invariant -/

/-- What a slot of the queue promises. -/
structure SlotOk (cfg : RelayConfig) (gen : Nat → Nat)
    (holder : Nat → Option Nat) (rows : List PendingRow) : Prop where
  nodup : (rows.map PendingRow.idx).Nodup
  gen_le : ∀ r ∈ rows, r.genAtReceive ≤ gen r.idx
  held : ∀ r ∈ rows, gen r.idx = r.genAtReceive →
    holder r.idx = r.receivedFor ∧ r.receivedFor.isSome
  drafts : cfg.relayDraftTokens = false → ∀ r ∈ rows, r.draftTokens = none

/-- A live request that has not been sampled. -/
structure Prefilling (s : State ReqId) (i : Nat) : Prop where
  count : (s.other i).numComputedTokens = (s.last i).numComputedTokens
  tokens : (s.other i).allTokenIds = (s.last i).allTokenIds
  prompt : (s.last i).allTokenIds.length = s.prefillLen i
  unfinished : (s.last i).numComputedTokens < s.prefillLen i
  idle : ∀ j r, ¬ Waiting s i j r

/-- A live request that step `at_` sampled, leaving the last rank with
`row`. -/
structure Sampled (cfg : RelayConfig) (s : State ReqId) (i : Nat)
    (at_ : Int) (row : GpuRow) : Prop where
  current : s.last i = row
  prefilled : s.prefillLen i ≤ (s.last i).numComputedTokens
  tokens : (s.last i).allTokenIds.length = (s.last i).numComputedTokens + 1
  waiting : ∀ j r, Waiting s i j r →
    at_ + cfg.ppSize = s.time + j ∧ r.apply (s.other i) = s.last i
  settled : (∃ j r, Waiting s i j r) ∨ s.other i = s.last i ∨
    s.maxSeqLen i ≤ (s.last i).allTokenIds.length

/-- A live request, in either phase. -/
def RequestOk (cfg : RelayConfig) (s : State ReqId) (reqId : ReqId) (i : Nat) :
    Prop :=
  match s.sampledAt reqId with
  | none => Prefilling s i
  | some p => Sampled cfg s i p.1 p.2

structure Inv (cfg : RelayConfig) (s : State ReqId) : Prop where
  stamped : Stamped Slot.reservedBy cfg.ppSize s.time s.queue
  held : ∀ reqId i, s.reqIdToIndex reqId = some i → (s.holder i).isSome
  injective : ∀ reqId reqId' i, s.reqIdToIndex reqId = some i →
    s.reqIdToIndex reqId' = some i → reqId = reqId'
  slots : ∀ slot ∈ s.queue, ∀ rows, slot.recv = some rows →
    SlotOk cfg s.reqIdxGenNp s.holder rows
  drafts : cfg.relayDraftTokens = false →
    ∀ i, (s.other i).draftTokens = (s.last i).draftTokens
  requests : ∀ reqId i, s.reqIdToIndex reqId = some i →
    RequestOk cfg s reqId i

/-- Between `update_pp_decode_requests` and `receive`: the slot of this step
is empty. -/
def Reserved (s : State ReqId) : Prop :=
  ∃ rest slot, s.queue = rest ++ [slot] ∧ slot.recv = none

/-! ## Frames -/

/-- Nothing that the invariant says of index `i` has changed. -/
structure SameAt (s s' : State ReqId) (i : Nat) : Prop where
  prefillLen : s'.prefillLen i = s.prefillLen i
  maxSeqLen : s'.maxSeqLen i = s.maxSeqLen i
  last : s'.last i = s.last i
  other : s'.other i = s.other i
  time : s'.time = s.time
  waiting : ∀ j r, Waiting s' i j r ↔ Waiting s i j r

theorem SameAt.of_queue (hprefill : s'.prefillLen i = s.prefillLen i)
    (hmax : s'.maxSeqLen i = s.maxSeqLen i) (hlast : s'.last i = s.last i)
    (hother : s'.other i = s.other i) (htime : s'.time = s.time)
    (hqueue : s'.queue = s.queue)
    (hgen : s'.reqIdxGenNp i = s.reqIdxGenNp i) : SameAt s s' i where
  prefillLen := hprefill
  maxSeqLen := hmax
  last := hlast
  other := hother
  time := htime
  waiting := by
    have hlive : ∀ r : PendingRow, r.idx = i →
        (r.Live s'.reqIdxGenNp ↔ r.Live s.reqIdxGenNp) := by
      rintro r rfl
      exact ⟨fun h => ⟨hgen ▸ h.gen_eq, h.needed⟩,
        fun h => ⟨hgen.trans h.gen_eq, h.needed⟩⟩
    intro j r
    rw [Waiting, Waiting, hqueue]
    constructor
    · rintro ⟨slot, rows, hslot, hrecv, hr, hidx, h⟩
      exact ⟨slot, rows, hslot, hrecv, hr, hidx, (hlive r hidx).mp h⟩
    · rintro ⟨slot, rows, hslot, hrecv, hr, hidx, h⟩
      exact ⟨slot, rows, hslot, hrecv, hr, hidx, (hlive r hidx).mpr h⟩

theorem Prefilling.frame (h : Prefilling s i) (hsame : SameAt s s' i) :
    Prefilling s' i where
  count := by rw [hsame.other, hsame.last]; exact h.count
  tokens := by rw [hsame.other, hsame.last]; exact h.tokens
  prompt := by rw [hsame.last, hsame.prefillLen]; exact h.prompt
  unfinished := by rw [hsame.last, hsame.prefillLen]; exact h.unfinished
  idle := fun j r hw => h.idle j r ((hsame.waiting j r).mp hw)

theorem Sampled.frame {at_ : Int} {row : GpuRow} (h : Sampled cfg s i at_ row)
    (hsame : SameAt s s' i) : Sampled cfg s' i at_ row where
  current := by rw [hsame.last]; exact h.current
  prefilled := by rw [hsame.last, hsame.prefillLen]; exact h.prefilled
  tokens := by rw [hsame.last]; exact h.tokens
  waiting := by
    intro j r hw
    rw [hsame.time, hsame.other, hsame.last]
    exact h.waiting j r ((hsame.waiting j r).mp hw)
  settled := by
    rw [hsame.other, hsame.last, hsame.maxSeqLen]
    refine h.settled.imp_left ?_
    rintro ⟨j, r, hw⟩
    exact ⟨j, r, (hsame.waiting j r).mpr hw⟩

theorem RequestOk.frame {reqId : ReqId} (h : RequestOk cfg s reqId i)
    (hsame : SameAt s s' i) (hat : s'.sampledAt reqId = s.sampledAt reqId) :
    RequestOk cfg s' reqId i := by
  rw [RequestOk, hat]
  rw [RequestOk] at h
  cases hs : s.sampledAt reqId with
  | none =>
      rw [hs] at h
      exact Prefilling.frame h hsame
  | some p =>
      rw [hs] at h
      exact Sampled.frame h hsame

end FlashNext.Ports.PpRelayState
