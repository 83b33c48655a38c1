import FlashNext.Ports.AsyncRunUpdate
import FlashNext.Verified.PyLists
import Mathlib.Data.List.Nodup

/-!
# The tokens behind an asynchronous run

Beside the ranks runs a world that knows the tokens of every request.  It says what a step
should be, and what the scheduler may send.
-/

namespace FlashNext.Ports.AsyncRun

open FlashNext.Verified.PyLists (lookup_of_mem find?_of_mem)

variable {κ : Type}

/-! ## The world -/

/-- The tokens of the requests, and of the last step: its batch, the tokens computed behind it,
and the requests that got a token from it. -/
structure World (κ : Type) where
  tokens : κ → List Int
  promptLen : κ → Nat
  live : κ → Bool
  batch : List κ
  computed : κ → Nat
  sampled : κ → Bool

def World.empty : World κ where
  tokens := fun _ => []
  promptLen := fun _ => 0
  live := fun _ => false
  batch := []
  computed := fun _ => 0
  sampled := fun _ => false

/-- The requests of a step, with the tokens computed before it. -/
def SchedulerOutput.entries (out : SchedulerOutput κ) : List (κ × Nat) :=
  out.scheduledNewReqs.map (fun req => (req.reqId, req.numComputedTokens)) ++
    out.scheduledCachedReqs.map fun req => (req.reqId, req.numComputedTokens)

theorem map_fst_entries (out : SchedulerOutput κ) : out.entries.map Prod.fst =
    out.scheduledNewReqs.map (·.reqId) ++ out.scheduledCachedReqs.map (·.reqId) := by
  rw [SchedulerOutput.entries, List.map_append, List.map_map, List.map_map]
  rfl

/-! ## The invariant -/

/-- A row counts the tokens of its request, and holds those that are still to be computed, but
for a token that was sampled last. -/
structure RowAgrees (w : World κ) (id : κ) (start : Nat) (row : BatchRow) : Prop where
  count : row.numTokensNoSpec = (w.tokens id).length
  tokens : w.sampled id = false → ∀ k, start ≤ k → k < (w.tokens id).length →
    (w.tokens id)[k]? = some (row.tokenIds k)

/-- A state knows the prompt, and as many output tokens as there are. -/
structure StateAgrees (w : World κ) (id : κ) (state : CachedRequestState) : Prop where
  prompt : state.promptTokenIds = (w.tokens id).take (w.promptLen id)
  promptLen_le : w.promptLen id ≤ (w.tokens id).length
  count : state.numTokens = (w.tokens id).length

/-- A rank between two steps. -/
structure Agrees (w : World κ) (st : Runner κ) : Prop where
  state : ∀ id, w.live id = true → ∃ state, st.requests id = some state ∧ StateAgrees w id state
  gone : ∀ id, w.live id = false → st.requests id = none
  row : ∀ id ∈ w.batch, ∃ row, st.rows id = some row ∧ RowAgrees w id (w.computed id) row
  noRow : ∀ id ∉ w.batch, st.rows id = none
  unsampled : ∀ id, w.sampled id = false → st.prevReqIdToIndex id = none
  sampled : ∀ id, w.sampled id = true → w.computed id + 1 = (w.tokens id).length ∧
    ∃ i sampled, st.prevReqIdToIndex id = some i ∧ st.prevSampledTokenIds = some sampled ∧
      (w.tokens id).getLast? = some (sampled i)

theorem agrees_fresh (inputIds : Nat → Int) :
    Agrees (World.empty : World κ) (Runner.fresh inputIds) where
  state := fun _ hid => Bool.noConfusion hid
  gone := fun _ _ => rfl
  row := fun _ hid => absurd hid List.not_mem_nil
  noRow := fun _ _ => rfl
  unsampled := fun _ _ => rfl
  sampled := fun _ hid => Bool.noConfusion hid

theorem StateAgrees.congr {w w' : World κ} {id : κ} {state : CachedRequestState}
    (h : StateAgrees w id state) (htokens : w'.tokens id = w.tokens id)
    (hlen : w'.promptLen id = w.promptLen id) : StateAgrees w' id state where
  prompt := by
    rw [htokens, hlen]
    exact h.prompt
  promptLen_le := by
    rw [htokens, hlen]
    exact h.promptLen_le
  count := by
    rw [htokens]
    exact h.count

theorem RowAgrees.congr {w w' : World κ} {id : κ} {start : Nat} {row : BatchRow}
    (h : RowAgrees w id start row) (htokens : w'.tokens id = w.tokens id)
    (hsampled : w'.sampled id = w.sampled id) : RowAgrees w' id start row where
  count := by
    rw [htokens]
    exact h.count
  tokens := by
    rw [htokens, hsampled]
    exact h.tokens

/-- A fresh row holds the tokens of its request. -/
theorem BatchRow.Holds.agrees {w : World κ} {id : κ} {state : CachedRequestState}
    {row : BatchRow} (hrow : row.Holds state)
    (htokens : state.promptTokenIds ++ state.outputTokenIds = w.tokens id) (start : Nat) :
    RowAgrees w id start row where
  count := by
    rw [hrow.numTokensNoSpec, ← htokens, List.length_append]
    rfl
  tokens := by
    intro _ k _ hk
    obtain ⟨token, hget⟩ : ∃ token, (w.tokens id)[k]? = some token :=
      ⟨_, List.getElem?_eq_getElem hk⟩
    rw [hget, hrow.tokenIds k token (by rw [htokens, hget])]

/-- A row that stays agrees as before. -/
theorem advanceRow_agrees (isLastRank : Bool) {w : World κ} {req : CachedRequestData κ}
    {row : BatchRow} (h : RowAgrees w req.reqId req.numComputedTokens row)
    (hle : req.numComputedTokens ≤ (w.tokens req.reqId).length) :
    RowAgrees w req.reqId req.numComputedTokens (advanceRow isLastRank req row) where
  count := by
    show (if isLastRank then _ else max _ _) = _
    rw [h.count, Nat.max_eq_left hle]
    split <;> rfl
  tokens := h.tokens

/-! ## The world's steps -/

variable [DecidableEq κ]

def SchedulerOutput.numComputed (out : SchedulerOutput κ) (id : κ) : Nat :=
  (out.entries.lookup id).getD 0

/-- The prompt of a new request. -/
def SchedulerOutput.prompt (out : SchedulerOutput κ) (id : κ) : Option (List Int) :=
  (out.scheduledNewReqs.find? fun req => req.reqId = id).map (·.promptTokenIds)

/-- Requests leave and arrive. -/
def World.arrive (w : World κ) (out : SchedulerOutput κ) : World κ :=
  { w with
    tokens := fun id => (out.prompt id).getD (w.tokens id)
    promptLen := fun id => ((out.prompt id).map List.length).getD (w.promptLen id)
    live := fun id => (out.prompt id).isSome || (w.live id && !decide (id ∈ out.finishedReqIds)) }

/-- The tokens of a request that are computed behind the step. -/
def SchedulerOutput.computedAfter (out : SchedulerOutput κ) (id : κ) : Nat :=
  out.numComputed id + out.numTokens id

/-- A request gets a token when the step reaches its last one. -/
def World.samples (w : World κ) (input : StepInput κ) (id : κ) : Bool :=
  decide (id ∈ input.order) &&
    decide (((w.arrive input.output).tokens id).length ≤ input.output.computedAfter id)

def World.step (w : World κ) (input : StepInput κ) : World κ :=
  { w.arrive input.output with
    tokens := fun id =>
      if w.samples input id then
        (w.arrive input.output).tokens id ++
          [(input.sampled[input.order.idxOf id]?).getD 0]
      else (w.arrive input.output).tokens id
    batch := input.order
    computed := input.output.computedAfter
    sampled := w.samples input }

/-- The step as it should be: the true tokens, and the rows that are to be discarded. -/
def World.trace (w : World κ) (input : StepInput κ) : StepTrace where
  inputIds := input.order.flatMap fun id =>
    (((w.arrive input.output).tokens id).drop (input.output.numComputed id)).take
      (input.output.numTokens id)
  discardRequestMask := input.order.map fun id =>
    decide (input.output.computedAfter id < ((w.arrive input.output).tokens id).length)

def World.traces (w : World κ) : List (StepInput κ) → List StepTrace
  | [] => []
  | input :: inputs => w.trace input :: World.traces (w.step input) inputs

/-! ## What the scheduler sends -/

/-- The scheduler names each request once, never schedules a token that is not there, goes on
where it stopped, and sends a request that comes back with all its tokens. -/
structure Scheduled (maxModelLen : Nat) (w : World κ) (input : StepInput κ) : Prop where
  nodup : (input.output.entries.map Prod.fst).Nodup
  keys : (input.output.entries.map Prod.fst).Perm input.output.scheduledReqIds
  order : input.order.Perm input.output.scheduledReqIds
  positive : ∀ q ∈ input.output.numScheduledTokens, 0 < q.2
  fits : ∀ id ∈ input.order,
    input.output.computedAfter id ≤ ((w.arrive input.output).tokens id).length
  room : ∀ id, w.samples input id = true →
    ((w.arrive input.output).tokens id).length < maxModelLen
  fresh : ∀ req ∈ input.output.scheduledNewReqs, w.sampled req.reqId = false ∧
    (w.live req.reqId = false ∨ req.reqId ∈ input.output.finishedReqIds)
  known : ∀ req ∈ input.output.scheduledCachedReqs, w.live req.reqId = true ∧
    req.reqId ∉ input.output.finishedReqIds ∧
      (w.tokens req.reqId).length = w.promptLen req.reqId + req.numOutputTokens
  goesOn : ∀ req ∈ input.output.scheduledCachedReqs, req.reqId ∈ w.batch → req.resumed = false →
    req.numComputedTokens = w.computed req.reqId
  comesBack : ∀ req ∈ input.output.scheduledCachedReqs, req.reqId ∉ w.batch ∨ req.resumed = true →
    w.sampled req.reqId = false ∧
      (0 < req.numOutputTokens → input.output.allTokenIds req.reqId = w.tokens req.reqId)

/-- Every step of a run is as the scheduler may send it. -/
def ScheduledRun (maxModelLen : Nat) : World κ → List (StepInput κ) → Prop
  | _, [] => True
  | w, input :: inputs =>
      Scheduled maxModelLen w input ∧ ScheduledRun maxModelLen (w.step input) inputs

/-! ## The requests of a step -/

section Requests

variable {maxModelLen : Nat} {w : World κ} {input : StepInput κ}

theorem Scheduled.nodup_new (h : Scheduled maxModelLen w input) :
    (input.output.scheduledNewReqs.map (·.reqId)).Nodup := by
  have hnodup := h.nodup
  rw [map_fst_entries] at hnodup
  exact (List.nodup_append.mp hnodup).1

theorem Scheduled.nodup_cached (h : Scheduled maxModelLen w input) :
    (input.output.scheduledCachedReqs.map (·.reqId)).Nodup := by
  have hnodup := h.nodup
  rw [map_fst_entries] at hnodup
  exact (List.nodup_append.mp hnodup).2.1

theorem Scheduled.new_ne_cached (h : Scheduled maxModelLen w input) {id : κ}
    (hnew : id ∈ input.output.scheduledNewReqs.map (·.reqId)) :
    id ∉ input.output.scheduledCachedReqs.map (·.reqId) := by
  have hnodup := h.nodup
  rw [map_fst_entries] at hnodup
  exact fun hcached => (List.nodup_append.mp hnodup).2.2 id hnew id hcached rfl

theorem Scheduled.mem_scheduled (h : Scheduled maxModelLen w input) {id : κ} :
    id ∈ input.output.scheduledReqIds ↔
      id ∈ input.output.scheduledNewReqs.map (·.reqId) ∨
        id ∈ input.output.scheduledCachedReqs.map (·.reqId) := by
  rw [← h.keys.mem_iff, map_fst_entries, List.mem_append]

theorem Scheduled.numComputed_new (h : Scheduled maxModelLen w input) {req : NewRequestData κ}
    (hreq : req ∈ input.output.scheduledNewReqs) :
    input.output.numComputed req.reqId = req.numComputedTokens := by
  have hmem : (req.reqId, req.numComputedTokens) ∈ input.output.entries :=
    List.mem_append_left _ (List.mem_map.mpr ⟨req, hreq, rfl⟩)
  rw [SchedulerOutput.numComputed, lookup_of_mem h.nodup hmem]
  rfl

theorem Scheduled.numComputed_cached (h : Scheduled maxModelLen w input)
    {req : CachedRequestData κ} (hreq : req ∈ input.output.scheduledCachedReqs) :
    input.output.numComputed req.reqId = req.numComputedTokens := by
  have hmem : (req.reqId, req.numComputedTokens) ∈ input.output.entries :=
    List.mem_append_right _ (List.mem_map.mpr ⟨req, hreq, rfl⟩)
  rw [SchedulerOutput.numComputed, lookup_of_mem h.nodup hmem]
  rfl

theorem Scheduled.prompt_new (h : Scheduled maxModelLen w input) {req : NewRequestData κ}
    (hreq : req ∈ input.output.scheduledNewReqs) :
    input.output.prompt req.reqId = some req.promptTokenIds := by
  rw [SchedulerOutput.prompt, find?_of_mem h.nodup_new hreq]
  rfl

theorem prompt_of_notMem {out : SchedulerOutput κ} {id : κ}
    (hid : id ∉ out.scheduledNewReqs.map (·.reqId)) : out.prompt id = none := by
  rw [SchedulerOutput.prompt, List.find?_eq_none.mpr]
  · rfl
  · intro req hreq heq
    exact hid (List.mem_map.mpr ⟨req, hreq, of_decide_eq_true heq⟩)

/-- A request that is not new keeps its tokens. -/
theorem arrive_of_notMem (w : World κ) {out : SchedulerOutput κ} {id : κ}
    (hid : id ∉ out.scheduledNewReqs.map (·.reqId)) :
    (w.arrive out).tokens id = w.tokens id ∧ (w.arrive out).promptLen id = w.promptLen id ∧
      (w.arrive out).live id = (w.live id && !decide (id ∈ out.finishedReqIds)) := by
  have hprompt := prompt_of_notMem hid
  refine ⟨?_, ?_, ?_⟩
  · show (out.prompt id).getD _ = _
    rw [hprompt, Option.getD_none]
  · show ((out.prompt id).map List.length).getD _ = _
    rw [hprompt, Option.map_none, Option.getD_none]
  · show ((out.prompt id).isSome || _) = _
    rw [hprompt, Option.isSome_none, Bool.false_or]

theorem Scheduled.admit_new (h : Scheduled maxModelLen w input) {req : NewRequestData κ}
    (hreq : req ∈ input.output.scheduledNewReqs) :
    (w.arrive input.output).tokens req.reqId = req.promptTokenIds ∧
      (w.arrive input.output).promptLen req.reqId = req.promptTokenIds.length ∧
      (w.arrive input.output).live req.reqId = true := by
  have hprompt := h.prompt_new hreq
  refine ⟨?_, ?_, ?_⟩
  · show (input.output.prompt req.reqId).getD _ = _
    rw [hprompt, Option.getD_some]
  · show ((input.output.prompt req.reqId).map List.length).getD _ = _
    rw [hprompt, Option.map_some, Option.getD_some]
  · show ((input.output.prompt req.reqId).isSome || _) = _
    rw [hprompt, Option.isSome_some, Bool.true_or]

theorem Scheduled.numComputed_le (h : Scheduled maxModelLen w input) {id : κ}
    (hid : id ∈ input.order) :
    input.output.numComputed id ≤ ((w.arrive input.output).tokens id).length :=
  Nat.le_trans (Nat.le_add_right _ _) (h.fits id hid)

theorem Scheduled.numTokens_pos (h : Scheduled maxModelLen w input) {id : κ}
    (hid : id ∈ input.order) : 0 < input.output.numTokens id := by
  have hmem : id ∈ input.output.numScheduledTokens.map Prod.fst := h.order.mem_iff.mp hid
  obtain ⟨q, hq, rfl⟩ := List.mem_map.mp hmem
  have hnodup : (input.output.numScheduledTokens.map Prod.fst).Nodup :=
    h.keys.nodup_iff.mp h.nodup
  rw [SchedulerOutput.numTokens, lookup_of_mem hnodup hq]
  exact h.positive q hq

theorem Scheduled.nodup_order (h : Scheduled maxModelLen w input) : input.order.Nodup :=
  h.order.nodup_iff.mpr (h.keys.nodup_iff.mp h.nodup)

end Requests

end FlashNext.Ports.AsyncRun
