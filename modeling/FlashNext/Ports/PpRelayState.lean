import FlashNext.Verified.Scatter
import FlashNext.Ports.PpRelay
import Mathlib.Algebra.GroupWithZero.Nat

/-!
# Pipeline relay: the state of two ranks

The last rank samples and updates its own `req_states` at once.  Any other
rank advances `num_computed_tokens` when it posts the receive and applies the
rest `pp_size` steps later, when `update_pp_decode_requests` takes the
entry out of its queue.  The state below holds the last rank and one other
rank side by side; one step is one `execute_model` call with its
`sample_tokens` call, on the same scheduler output on both.

The index map and the CPU arrays of `req_states` are written by the same
calls with the same arguments on every rank, and are kept once.  What the
last rank broadcasts reaches the slot that this step reserved
(`PpRelayCollectives`), padded to the width of the receive buffer.

Fields marked *ghost* are not in the source.
-/

namespace FlashNext.Ports.PpRelayState

open FlashNext.Ports.PpRelay
open FlashNext.Verified.Scatter

/-! ## GPU rows and kernels -/

/-- One request index in the GPU tensors of `req_states`. -/
structure GpuRow where
  numComputedTokens : Int
  lastSampledTokens : Int
  /-- `all_token_ids[:total_len]`. -/
  allTokenIds : List Int
  draftTokens : List Int
deriving DecidableEq

/-- One row of a `post_update` launch; `queryLen` is `none` when the launch
has no `query_start_loc`. -/
structure PostUpdate where
  /-- May be `-1` for masked entries. -/
  idx : Int
  sampledTokens : List Int
  numSampled : Nat
  numRejected : Nat
  queryLen : Option Nat

/-- What `post_update` makes of the row it is given. -/
def GpuRow.postUpdate (row : GpuRow) (u : PostUpdate) : GpuRow :=
  { row with
    numComputedTokens :=
      row.numComputedTokens + u.queryLen.getD 0 - u.numRejected
    lastSampledTokens :=
      if u.numSampled = 0 then row.lastSampledTokens
      else u.sampledTokens.getD (u.numSampled - 1) (-1)
    allTokenIds := row.allTokenIds ++ u.sampledTokens.take u.numSampled }

/-- What `post_update_num_computed_tokens` makes of a row. -/
def GpuRow.addComputed (row : GpuRow) (queryLen : Nat) : GpuRow :=
  { row with numComputedTokens := row.numComputedTokens + queryLen }

/-- The two kernels, which this repository calls but does not contain. -/
structure Kernels where
  postUpdate : List PostUpdate → (Nat → GpuRow) → Nat → GpuRow
  postUpdateNumComputedTokens :
    List (Nat × Nat) → (Nat → GpuRow) → Nat → GpuRow

/-- The documented behaviour of the kernels.  A row with index `-1` names no
entry, so `postUpdate_skips` says in particular that it is skipped. -/
structure Kernels.Lawful (K : Kernels) : Prop where
  postUpdate_skips : ∀ us gpu (i : Nat), (∀ u ∈ us, u.idx ≠ (i : Int)) →
    K.postUpdate us gpu i = gpu i
  postUpdate_updates : ∀ us gpu (i : Nat) u, Distinct PostUpdate.idx us →
    u ∈ us → u.idx = (i : Int) → K.postUpdate us gpu i = (gpu i).postUpdate u
  count_skips : ∀ rows gpu (i : Nat), (∀ r ∈ rows, r.1 ≠ i) →
    K.postUpdateNumComputedTokens rows gpu i = gpu i
  count_adds : ∀ rows gpu (i : Nat) r, (rows.map Prod.fst).Nodup →
    r ∈ rows → r.1 = i →
    K.postUpdateNumComputedTokens rows gpu i = (gpu i).addComputed r.2

/-! ## State -/

/-- One row of a `PendingRecv`. -/
structure PendingRow where
  /-- `idx_mapping_np`. -/
  idx : Nat
  sampledTokens : List Int
  numSampled : Nat
  numRejected : Nat
  needSampled : Bool
  genAtReceive : Nat
  draftTokens : Option (List Int)
  /-- Ghost: the serial number of the request that held `idx` at `receive`. -/
  receivedFor : Option Nat

/-- One entry of `PPHandler.queue`. -/
structure Slot where
  /-- Ghost: the step that appended the entry. -/
  reservedBy : Int
  /-- `None` while no postprocess is pending for the step. -/
  recv : Option (List PendingRow)

structure State (ReqId : Type) where
  reqIdToIndex : ReqId → Option Nat
  numComputedTokensNp : Nat → Nat
  prefillLen : Nat → Nat
  maxSeqLen : Nat → Nat
  /-- The GPU rows of the last rank. -/
  last : Nat → GpuRow
  /-- The GPU rows of the other rank. -/
  other : Nat → GpuRow
  /-- `PPHandler.queue` of the other rank. -/
  queue : List Slot
  reqIdxGenNp : Nat → Nat
  /-- Ghost: the number of `execute_model` calls so far. -/
  time : Int
  /-- The serial number of the request that holds an index; `none` while the
  index is free. -/
  holder : Nat → Option Nat
  /-- Ghost: the next serial number. -/
  nextSerial : Nat
  /-- Ghost: the step that last sampled for a request, and the row the last
  rank was left with. -/
  sampledAt : ReqId → Option (Int × GpuRow)

structure RelayConfig extends Config where
  ppSize : Nat
  /-- There is a rank that is not the last one. -/
  two_le_ppSize : 2 ≤ ppSize

/-! ## Scheduler output -/

structure NewRequestData (ReqId : Type) where
  reqId : ReqId
  /-- The free index that `req_states.add_request` takes. -/
  idx : Nat
  prefillTokenIds : List Int
  numComputedTokens : Nat
  maxSeqLen : Nat

/-- A request of `num_scheduled_tokens`, with what the last rank samples and
drafts for it in this step. -/
structure ScheduledRequest (ReqId : Type) where
  reqId : ReqId
  numScheduledTokens : Nat
  sampledTokens : List Int
  numSampled : Nat
  numRejected : Nat
  draftTokens : List Int

structure SchedulerOutput (ReqId : Type) where
  /-- The finished and the preempted requests, sorted. -/
  finishedReqIds : List ReqId
  scheduledNewReqs : List (NewRequestData ReqId)
  /-- The requests of `scheduled_cached_reqs` and their computed tokens. -/
  scheduledCachedReqs : List (ReqId × Nat)
  /-- In batch order. -/
  scheduled : List (ScheduledRequest ReqId)

variable {ReqId : Type} [DecidableEq ReqId]

/-! ## Consuming a slot -/

/-- The row belongs to a request freed since `receive`, or was not needed. -/
def PendingRow.excluded (gen : Nat → Nat) (r : PendingRow) : Bool :=
  decide (gen r.idx ≠ r.genAtReceive) || !r.needSampled

/-- A row of what `get_prev_sampled_outputs` returns. -/
structure OutputRow where
  update : PostUpdate
  draftTokens : Option (List Int)
  /-- Ghost, from the `PendingRow`. -/
  receivedFor : Option Nat

def PendingRow.output (gen : Nat → Nat) (r : PendingRow) : OutputRow where
  update :=
    { idx := if r.excluded gen then -1 else r.idx
      sampledTokens := r.sampledTokens
      numSampled := r.numSampled
      numRejected := r.numRejected
      queryLen := none }
  draftTokens := r.draftTokens
  receivedFor := r.receivedFor

/-- `get_prev_sampled_outputs` once the slot is popped. -/
def getPrevSampledOutputs (gen : Nat → Nat) (slot : Slot) :
    Option (List OutputRow) :=
  match slot.recv with
  | none => none
  | some rows =>
      if rows.all (PendingRow.excluded gen) then none
      else some (rows.map (PendingRow.output gen))

/-- `req_states.draft_tokens[idx] = row`. -/
def GpuRow.setDraft (draftTokens : List Int) (row : GpuRow) : GpuRow :=
  { row with draftTokens := draftTokens }

/-- The scatter of the relayed drafts at `idx_mapping[valid]`. -/
def scatterDrafts (outputs : List OutputRow) (gpu : Nat → GpuRow) :
    Nat → GpuRow :=
  scatter (fun o => o.update.idx)
    (fun o row => (o.draftTokens.map (GpuRow.setDraft · row)).getD row)
    outputs gpu

/-- The rows after the outputs, if any, are applied: `postprocess_sampled`,
then the drafts. -/
def applyOutputs (K : Kernels) (outputs : Option (List OutputRow))
    (gpu : Nat → GpuRow) : Nat → GpuRow :=
  match outputs with
  | none => gpu
  | some outputs =>
      scatterDrafts outputs (K.postUpdate (outputs.map OutputRow.update) gpu)

/-- `update_pp_decode_requests`. -/
def updatePpDecodeRequests (K : Kernels) (s : State ReqId) : State ReqId :=
  match s.queue with
  | [] => { s with time := s.time + 1 }
  | slot :: rest =>
      { s with
        queue := rest ++ [⟨s.time, none⟩]
        time := s.time + 1
        other :=
          applyOutputs K (getPrevSampledOutputs s.reqIdxGenNp slot) s.other }

/-! ## Freeing and adding requests -/

/-- `_remove_request`, with `on_req_idx_freed`. -/
def removeRequest (s : State ReqId) (reqId : ReqId) : State ReqId :=
  match s.reqIdToIndex reqId with
  | none => s
  | some idx =>
      { s with
        reqIdToIndex := Function.update s.reqIdToIndex reqId none
        reqIdxGenNp := Function.update s.reqIdxGenNp idx (s.reqIdxGenNp idx + 1)
        holder := Function.update s.holder idx none }

/-- What `req_states.add_request` writes to the GPU row of an index; the last
sampled token and the drafts are left as they were. -/
def GpuRow.reset (n : NewRequestData ReqId) (row : GpuRow) : GpuRow :=
  { row with
    numComputedTokens := n.numComputedTokens
    allTokenIds := n.prefillTokenIds }

/-- One round of `add_requests`; `none` if the index is not free. -/
def addRequest (s : State ReqId) (n : NewRequestData ReqId) :
    Option (State ReqId) :=
  let s := removeRequest s n.reqId
  if s.holder n.idx = none then
    some
      { s with
        reqIdToIndex := Function.update s.reqIdToIndex n.reqId (some n.idx)
        numComputedTokensNp :=
          Function.update s.numComputedTokensNp n.idx n.numComputedTokens
        prefillLen := Function.update s.prefillLen n.idx n.prefillTokenIds.length
        maxSeqLen := Function.update s.maxSeqLen n.idx n.maxSeqLen
        last := Function.update s.last n.idx ((s.last n.idx).reset n)
        other := Function.update s.other n.idx ((s.other n.idx).reset n)
        holder := Function.update s.holder n.idx (some s.nextSerial)
        nextSerial := s.nextSerial + 1
        sampledAt := Function.update s.sampledAt n.reqId none }
  else none

/-- One round of `update_requests`; `none` if the request is unknown. -/
def updateRequest (s : State ReqId) (c : ReqId × Nat) : Option (State ReqId) :=
  match s.reqIdToIndex c.1 with
  | none => none
  | some idx =>
      some { s with
        numComputedTokensNp := Function.update s.numComputedTokensNp idx c.2 }

/-- What `execute_model` does before the forward. -/
def prepare (K : Kernels) (s : State ReqId) (so : SchedulerOutput ReqId) :
    Option (State ReqId) := do
  let s := updatePpDecodeRequests K s
  let s := so.finishedReqIds.foldl removeRequest s
  let s ← so.scheduledNewReqs.foldlM addRequest s
  so.scheduledCachedReqs.foldlM updateRequest s

/-! ## Sampling -/

/-- A scheduled request with its row of the `InputBatch`. -/
abbrev BatchEntry (ReqId : Type) := ScheduledRequest ReqId × BatchRow

def batchEntry (s : State ReqId) (r : ScheduledRequest ReqId) :
    Option (BatchEntry ReqId) :=
  match s.reqIdToIndex r.reqId with
  | none => none
  | some idx =>
      some
        (r,
          { idx := idx
            numComputedTokens := s.numComputedTokensNp idx
            numScheduledTokens := r.numScheduledTokens
            prefillLen := s.prefillLen idx
            maxSeqLen := s.maxSeqLen idx })

/-- The batch of a step, `none` if a scheduled request is unknown. -/
def gatherBatch (s : State ReqId) (scheduled : List (ScheduledRequest ReqId)) :
    Option (List (BatchEntry ReqId)) :=
  scheduled.mapM (batchEntry s)

/-- What the other rank receives for one row of the batch. -/
def pendingRow (cfg : RelayConfig) (s : State ReqId) (e : BatchEntry ReqId) :
    PendingRow where
  idx := e.2.idx
  sampledTokens := catPadRow cfg.maxSampleLen e.1.sampledTokens
  numSampled := e.1.numSampled
  numRejected := e.1.numRejected
  needSampled := e.2.needSampled
  genAtReceive := s.reqIdxGenNp e.2.idx
  draftTokens := if cfg.relayDraftTokens then some e.1.draftTokens else none
  receivedFor := s.holder e.2.idx

/-- The queue after `receive`: `self.queue[-1] = PendingRecv(..)`. -/
def receiveQueue (cfg : RelayConfig) (s : State ReqId)
    (batch : List (BatchEntry ReqId)) : List Slot :=
  match computeNeedSampledMask (batch.map Prod.snd) with
  | none => s.queue
  | some _ =>
      s.queue.modifyLast fun slot =>
        { slot with recv := some (batch.map (pendingRow cfg s)) }

/-- The row of the last rank's `post_update` launch. -/
def lastUpdate (e : BatchEntry ReqId) : PostUpdate where
  idx := e.2.idx
  sampledTokens := e.1.sampledTokens
  numSampled := e.1.numSampled
  numRejected := e.1.numRejected
  queryLen := some e.1.numScheduledTokens

/-- The last rank's rows after `sample_tokens`: `postprocess_sampled`, then,
if there is a speculator, the write of its drafts. -/
def sampledLast (K : Kernels) (cfg : RelayConfig) (s : State ReqId)
    (batch : List (BatchEntry ReqId)) : Nat → GpuRow :=
  let gpu := K.postUpdate (batch.map lastUpdate) s.last
  if cfg.hasSpeculator true then
    scatter (fun e : BatchEntry ReqId => (e.2.idx : Int))
      (fun e row => row.setDraft e.1.draftTokens) batch gpu
  else gpu

/-- `sample_tokens` on both ranks. -/
def sampleTokens (K : Kernels) (cfg : RelayConfig) (s : State ReqId)
    (batch : List (BatchEntry ReqId)) : State ReqId :=
  let last := sampledLast K cfg s batch
  { s with
    queue := receiveQueue cfg s batch
    other :=
      K.postUpdateNumComputedTokens
        (batch.map fun e => (e.2.idx, e.1.numScheduledTokens)) s.other
    last := last
    sampledAt := fun reqId =>
      match batch.find? fun e => e.1.reqId = reqId ∧ 0 < e.1.numSampled with
      | none => s.sampledAt reqId
      | some e => some (s.time - 1, last e.2.idx) }

/-- One step of the pipeline. -/
def step (K : Kernels) (cfg : RelayConfig) (s : State ReqId)
    (so : SchedulerOutput ReqId) : Option (State ReqId) := do
  let s ← prepare K s so
  if (so.scheduled.map ScheduledRequest.numScheduledTokens).sum = 0 then
    some s
  else
    let batch ← gatherBatch s so.scheduled
    some (sampleTokens K cfg s batch)

/-- The start: nothing is live, both ranks allocated the same tensors, and the
queue holds `pp_size` placeholders. -/
def init (cfg : RelayConfig) (rows : Nat → GpuRow) : State ReqId where
  reqIdToIndex _ := none
  numComputedTokensNp _ := 0
  prefillLen _ := 0
  maxSeqLen _ := 0
  last := rows
  other := rows
  queue := (List.range cfg.ppSize).map fun j : Nat => ⟨j - cfg.ppSize, none⟩
  reqIdxGenNp _ := 0
  time := 0
  holder _ := none
  nextSerial := 0
  sampledAt _ := none

/-! ## What the callers promise -/

/-- What the scheduler and the sampler promise of one row of a batch.
`s` is the state the batch is gathered from, in which `s.time - 1` is the
current step. -/
structure RowContract (cfg : RelayConfig) (s : State ReqId)
    (e : BatchEntry ReqId) : Prop where
  /-- The scheduler's count of computed tokens is the count. -/
  count : (e.2.numComputedTokens : Int) = (s.last e.2.idx).numComputedTokens
  /-- The sampler returns at most `num_speculative_steps + 1` tokens, and as
  many valid ones as it says. -/
  valid : e.1.numSampled ≤ e.1.sampledTokens.length
  width : e.1.sampledTokens.length ≤ cfg.maxSampleLen
  /-- A prefill chunk stays inside the prompt; only the final one samples, and
  it samples one token. -/
  prefill : e.2.numComputedTokens < e.2.prefillLen →
    e.2.numComputedTokens + e.2.numScheduledTokens ≤ e.2.prefillLen ∧
      e.1.numRejected = 0 ∧
      e.1.numSampled = if e.2.producesSample then 1 else 0
  /-- A decode samples; every scheduled position is accepted or rejected. -/
  decode : e.2.prefillLen ≤ e.2.numComputedTokens →
    0 < e.1.numSampled ∧
      e.1.numSampled + e.1.numRejected = e.2.numScheduledTokens
  /-- A decode runs no earlier than `pp_size` calls after the step that last
  sampled for the request. -/
  spacing : e.2.prefillLen ≤ e.2.numComputedTokens →
    ∀ p ∈ s.sampledAt e.1.reqId, p.1 + cfg.ppSize ≤ s.time - 1

/-- What the callers promise of a step taken in state `s`. -/
structure Contract (K : Kernels) (cfg : RelayConfig) (s : State ReqId)
    (so : SchedulerOutput ReqId) : Prop where
  /-- A new request has something left to prefill. -/
  unfinished : ∀ n ∈ so.scheduledNewReqs,
    n.numComputedTokens < n.prefillTokenIds.length
  /-- `num_scheduled_tokens` is a dictionary. -/
  nodup : (so.scheduled.map ScheduledRequest.reqId).Nodup
  rows : ∀ s' ∈ prepare K s so, ∀ batch ∈ gatherBatch s' so.scheduled,
    ∀ e ∈ batch, RowContract cfg s' e

end FlashNext.Ports.PpRelayState
