import FlashNext.Ports.PpRelaySampling

/-!
# Pipeline relay: the ranks agree

In every run whose steps keep the callers' promises, a live request that is
decoded finds on the other rank exactly the row the last rank was left with
by the step that sampled for it.
-/

namespace FlashNext.Ports.PpRelayState

open FlashNext.Ports.PpRelay
open FlashNext.Verified.Scatter
open FlashNext.Verified.DelayLine
open FlashNext.Verified.StepRuns

variable {ReqId : Type} {s s' : State ReqId} {cfg : RelayConfig}
  {K : Kernels}

/-! ## Reading the invariant -/

private theorem written_held (h : Inv cfg s) {slot : Slot}
    (hslot : slot ∈ s.queue) {outputs : List OutputRow}
    (houtputs : getPrevSampledOutputs s.reqIdxGenNp slot = some outputs)
    {o : OutputRow} (ho : o ∈ outputs) {i : Nat} (hidx : o.update.idx = i) :
    s.holder i = o.receivedFor ∧ o.receivedFor.isSome := by
  rw [getPrevSampledOutputs] at houtputs
  split at houtputs
  case h_1 => cases houtputs
  case h_2 rows hrecv =>
    split at houtputs
    case isTrue => cases houtputs
    case isFalse =>
      obtain rfl := Option.some.inj houtputs
      obtain ⟨r, hr, rfl⟩ := List.mem_map.mp ho
      cases hexcluded : r.excluded s.reqIdxGenNp with
      | true =>
          rw [PendingRow.output, hexcluded, if_pos rfl] at hidx
          dsimp only at hidx
          omega
      | false =>
          have hlive := PendingRow.excluded_eq_false.mp hexcluded
          rw [hlive.output] at hidx ⊢
          obtain rfl : r.idx = i := Int.ofNat.inj hidx
          exact (h.slots slot hslot rows hrecv).held r hr hlive.gen_eq

/-- A sampled request that may be decoded again agrees on both ranks. -/
private theorem other_of_sampled {i : Nat} {p : Int × GpuRow}
    (h : Sampled cfg s i p.1 p.2) (hspacing : p.1 + cfg.ppSize ≤ s.time - 1)
    (hlive : (s.last i).allTokenIds.length < s.maxSeqLen i) :
    s.other i = p.2 := by
  rcases h.settled with ⟨j, r, hw⟩ | heq | hmax
  · have := (h.waiting j r hw).1
    omega
  · exact heq.trans h.current
  · omega

/-! ## Runs -/

theorem init_inv (cfg : RelayConfig) (rows : Nat → GpuRow) :
    Inv cfg (init cfg rows : State ReqId) where
  stamped :=
    stamped_placeholders (fun k => (⟨k, none⟩ : Slot)) (fun _ => rfl) cfg.ppSize
  held := by
    intro reqId i hindex
    cases hindex
  injective := by
    intro reqId reqId' i hindex
    cases hindex
  slots := by
    intro slot hslot rows hrecv
    obtain ⟨j, -, rfl⟩ := List.mem_map.mp hslot
    cases hrecv
  drafts := fun _ _ => rfl
  requests := by
    intro reqId i hindex
    cases hindex

variable [DecidableEq ReqId]

theorem step_inv (hK : K.Lawful) (h : Inv cfg s) {so : SchedulerOutput ReqId}
    (hcontract : Contract K cfg s so) (hstep : step K cfg s so = some s') :
    Inv cfg s' := by
  rw [step] at hstep
  obtain ⟨t, hprepare, hstep⟩ := Option.bind_eq_some_iff.mp hstep
  have hready := prepare_ready hK h hcontract.unfinished hprepare
  split at hstep
  case isTrue =>
    obtain rfl := Option.some.inj hstep
    exact hready.inv
  case isFalse =>
    obtain ⟨batch, hbatch, hstep⟩ := Option.bind_eq_some_iff.mp hstep
    obtain rfl := Option.some.inj hstep
    have hgathered :=
      gathered_of_gatherBatch hready.inv hcontract.nodup hbatch
    exact sampleTokens_inv hK hready.inv hready.reserved hgathered
      (hcontract.rows t hprepare batch hbatch)

theorem run_inv (hK : K.Lawful) {rows : Nat → GpuRow}
    {as : List (SchedulerOutput ReqId)}
    (hrun : Run (step K cfg) (Contract K cfg) (init cfg rows) as s) :
    Inv cfg s :=
  hrun.invariant (fun _ _ _ h hcontract hstep => step_inv hK h hcontract hstep)
    (init_inv cfg rows)

/-! ## What a step finds -/

/-- What a step taken in state `s` finds, `t` being the state its batch is
gathered from. -/
structure Agreement (K : Kernels) (cfg : RelayConfig) (s : State ReqId)
    (so : SchedulerOutput ReqId) (t : State ReqId) : Prop where
  /-- The FIFO keeps exactly `pp_size` slots. -/
  slots : s.queue.length = cfg.ppSize
  /-- The slot consumed now was reserved `pp_size` steps ago. -/
  reserved : ∀ slot ∈ s.queue.head?, slot.reservedBy = s.time - cfg.ppSize
  /-- A row is written only to the request it was received for. -/
  written : ∀ slot ∈ s.queue.head?,
    ∀ outputs ∈ getPrevSampledOutputs s.reqIdxGenNp slot, ∀ o ∈ outputs,
      ∀ i : Nat, o.update.idx = i →
        s.holder i = o.receivedFor ∧ o.receivedFor.isSome
  /-- A decoded request that has not used up its length has the row the last
  rank recorded, after `update_pp_decode_requests` and when the batch is
  gathered. -/
  decoded : ∀ r ∈ so.scheduled, ∀ i, t.reqIdToIndex r.reqId = some i →
    t.prefillLen i ≤ t.numComputedTokensNp i →
    (t.last i).allTokenIds.length < t.maxSeqLen i →
    ∃ p, t.sampledAt r.reqId = some p ∧ p.1 + cfg.ppSize ≤ s.time ∧
      (updatePpDecodeRequests K s).other i = p.2 ∧ t.other i = p.2

/-- In every run, every further step that keeps the callers' promises finds
the two ranks in agreement. -/
theorem relay_agreement (K : Kernels) (hK : K.Lawful) (cfg : RelayConfig)
    (rows : Nat → GpuRow) (as : List (SchedulerOutput ReqId)) (s : State ReqId)
    (hrun : Run (step K cfg) (Contract K cfg) (init cfg rows) as s)
    (so : SchedulerOutput ReqId) (hcontract : Contract K cfg s so)
    (t : State ReqId) (hprepare : prepare K s so = some t)
    (hbatch : (gatherBatch t so.scheduled).isSome) :
    Agreement K cfg s so t := by
  have hinv := run_inv hK hrun
  have hready := prepare_ready hK hinv hcontract.unfinished hprepare
  have hpp := cfg.two_le_ppSize
  obtain ⟨slot, rest, hq, hstamp⟩ := hinv.stamped.uncons (by omega)
  have hhead : ∀ slot' ∈ s.queue.head?, slot' = slot := by
    intro slot' hslot'
    rw [hq, List.head?_cons] at hslot'
    exact (Option.some.inj hslot').symm
  refine
    { slots := hinv.stamped.length, reserved := ?_, written := ?_
      decoded := ?_ }
  · intro slot' hslot'
    rw [hhead slot' hslot']
    omega
  · intro slot' hslot' outputs houtputs o ho i hidx
    have hmem : slot' ∈ s.queue := List.mem_of_mem_head? hslot'
    exact written_held hinv hmem houtputs ho hidx
  · intro r hr i hindex hdecode hlive
    obtain ⟨batch, hbatch⟩ := Option.isSome_iff_exists.mp hbatch
    have hfst := gatherBatch_fst hbatch
    rw [← hfst] at hr
    obtain ⟨e, he, rfl⟩ := List.mem_map.mp hr
    have hgathered := gathered_of_gatherBatch hready.inv hcontract.nodup hbatch
    have hentry := hgathered.entry e he
    obtain rfl : e.2.idx = i := Option.some.inj (hentry.index.symm.trans hindex)
    have hrow := hcontract.rows t hprepare batch hbatch e he
    have hphase := hready.inv.requests _ _ hindex
    rw [← hentry.prefillLen, ← hentry.computed] at hdecode
    rw [RequestOk] at hphase
    cases hat : t.sampledAt e.1.reqId with
    | none =>
        rw [hat] at hphase
        have hunfinished := Prefilling.unfinished hphase
        rw [← hrow.count, ← hentry.prefillLen] at hunfinished
        omega
    | some p =>
        rw [hat] at hphase
        have hspacing := hrow.spacing hdecode p hat
        have hother := other_of_sampled hphase hspacing hlive
        obtain ⟨-, -, hkept⟩ := hready.kept _ _ p hindex hat
        have htime := hready.time
        exact ⟨p, rfl, by omega, hkept.symm.trans hother, hother⟩

/-! ## Kernels that behave as documented -/

/-- Both kernels, written as loops over the rows they are given. -/
def loopKernels : Kernels where
  postUpdate := scatter PostUpdate.idx fun u row => row.postUpdate u
  postUpdateNumComputedTokens :=
    scatter (fun r => (r.1 : Int)) fun r row => row.addComputed r.2

theorem loopKernels_lawful : loopKernels.Lawful where
  postUpdate_skips := by
    intro us gpu i h
    exact scatter_of_ne (f := fun u row => GpuRow.postUpdate row u) h gpu
  postUpdate_updates := by
    intro us gpu i u hdistinct hu hidx
    exact scatter_of_mem (f := fun u row => GpuRow.postUpdate row u)
      hdistinct hu hidx gpu
  count_skips := by
    intro rows gpu i h
    refine scatter_of_ne (f := fun (r : Nat × Nat) row => GpuRow.addComputed row r.2)
      (fun r hr heq => ?_) gpu
    exact h r hr (Int.ofNat.inj heq)
  count_adds := by
    intro rows gpu i r hnodup hr hidx
    have hcast : (rows.map fun r => (r.1 : Int)).Nodup := by
      have hmap := hnodup.map fun a b hab => Int.ofNat.inj hab
      rw [List.map_map] at hmap
      exact hmap
    have hidx' : (r.1 : Int) = i := congrArg Int.ofNat hidx
    exact scatter_of_mem (f := fun (r : Nat × Nat) row => GpuRow.addComputed row r.2)
      (distinct_of_nodup hcast) hr hidx' gpu

/-! ## A prefill, an idle step and a decode -/

instance (cfg : RelayConfig) (s : State ReqId) (e : BatchEntry ReqId) :
    Decidable (RowContract cfg s e) :=
  decidable_of_iff
    ((e.2.numComputedTokens : Int) = (s.last e.2.idx).numComputedTokens ∧
      e.1.numSampled ≤ e.1.sampledTokens.length ∧
      e.1.sampledTokens.length ≤ cfg.maxSampleLen ∧
      (e.2.numComputedTokens < e.2.prefillLen →
        e.2.numComputedTokens + e.2.numScheduledTokens ≤ e.2.prefillLen ∧
          e.1.numRejected = 0 ∧
          e.1.numSampled = if e.2.producesSample then 1 else 0) ∧
      (e.2.prefillLen ≤ e.2.numComputedTokens →
        0 < e.1.numSampled ∧
          e.1.numSampled + e.1.numRejected = e.2.numScheduledTokens) ∧
      (e.2.prefillLen ≤ e.2.numComputedTokens →
        ∀ p ∈ s.sampledAt e.1.reqId, p.1 + cfg.ppSize ≤ s.time - 1))
    ⟨fun ⟨h₁, h₂, h₃, h₄, h₅, h₆⟩ => ⟨h₁, h₂, h₃, h₄, h₅, h₆⟩,
      fun h => ⟨h.count, h.valid, h.width, h.prefill, h.decode, h.spacing⟩⟩

instance (K : Kernels) (cfg : RelayConfig) (s : State ReqId)
    (so : SchedulerOutput ReqId) : Decidable (Contract K cfg s so) :=
  decidable_of_iff
    ((∀ n ∈ so.scheduledNewReqs,
        n.numComputedTokens < n.prefillTokenIds.length) ∧
      (so.scheduled.map ScheduledRequest.reqId).Nodup ∧
      ∀ s' ∈ prepare K s so, ∀ batch ∈ gatherBatch s' so.scheduled,
        ∀ e ∈ batch, RowContract cfg s' e)
    ⟨fun ⟨h₁, h₂, h₃⟩ => ⟨h₁, h₂, h₃⟩,
      fun h => ⟨h.unfinished, h.nodup, h.rows⟩⟩

def twoRanks : RelayConfig where
  numSpeculativeSteps := 1
  speculativeConfig := true
  maxNumReqs := 4
  ppSize := 2
  two_le_ppSize := by decide

def blankRows (_ : Nat) : GpuRow := ⟨0, 0, [], [0]⟩

/-- Request `0` enters at index `3` and its whole prompt is run. -/
def prefillStep : SchedulerOutput Nat :=
  ⟨[], [⟨0, 3, [4, 5, 6], 0, 9⟩], [], [⟨0, 3, [7], 1, 0, [8]⟩]⟩

def idleStep : SchedulerOutput Nat := ⟨[], [], [], []⟩

/-- The first decode of request `0`, with the draft the last rank relayed. -/
def decodeStep : SchedulerOutput Nat :=
  ⟨[], [], [(0, 3)], [⟨0, 2, [8, 9], 2, 0, [10]⟩]⟩

theorem relay_agreement_first_decode :
    ∃ s t, Run (step loopKernels twoRanks) (Contract loopKernels twoRanks)
        (init twoRanks blankRows) [prefillStep, idleStep] s ∧
      prepare loopKernels s decodeStep = some t ∧
      t.other 3 = ⟨3, 7, [4, 5, 6, 7], [8]⟩ ∧
      Agreement loopKernels twoRanks s decodeStep t :=
  have hrun := @run_of_exec _ _ (step loopKernels twoRanks)
    (Contract loopKernels twoRanks) _ (init twoRanks blankRows) _
    [prefillStep, idleStep] rfl
  ⟨_, _, hrun, rfl, by decide,
    relay_agreement loopKernels loopKernels_lawful twoRanks blankRows _ _ hrun
      decodeStep (by decide) _ rfl (by decide)⟩

end FlashNext.Ports.PpRelayState
