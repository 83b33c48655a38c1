import FlashNext.Ports.DraftInputsSteps

/-!
# Draft inputs: the proposal

`propose` from the prefill to the last draft step.
-/

namespace FlashNext.Ports.Draft

open FlashNext.Verified.Launch

variable {H Slots : Type} {env : DraftEnv H Slots} {cfg : SpeculatorConfig}
  {args : ProposeArgs H Slots} {desc : BatchDesc} {s : Speculator H Slots}

section Propose

variable {first : DraftStep H Slots}

/-- The decode inputs of the first decode step. -/
theorem prepareDecodeInputs_ok (hlaw : env.Lawful) (hbatch : ValidBatch cfg args)
    (hrec : Recorded env cfg args desc first 1 s)
    (hposition : ∀ r < args.inputBatch.numReqs, s.positions r = lastPosition args r)
    (hkey : ∀ r < args.inputBatch.numReqs,
      s.sampleSrcPositions r = lastPosition args r + 1)
    (hidx : ∀ r < args.inputBatch.numReqs, s.idxMapping r = args.inputBatch.idxMapping r)
    (htail : ∀ j, args.inputBatch.numReqs ≤ j → j < cfg.maxNumReqs →
      s.lastTokenIndices j = 0)
    (hhidden : ∀ r < args.inputBatch.numReqs,
      s.hiddenStates r = handedOn env [] 0 first r) :
    LoopReady env cfg args desc first 1 (prepareDecodeInputs env cfg args s) where
  recorded := { hrec with }
  ready := fun _ => by
    obtain ⟨n, hn⟩ : ∃ n, n = args.inputBatch.numReqs := ⟨_, rfl⟩
    have hrequests := fun {α : Type} => launch_requests (α := α) hlaw n
    rw [← hn] at hposition hkey hidx htail
    refine
      { position := ?_
        seqLen := ?_
        inputId := ?_
        hiddenState := ?_
        sampleKey := ?_
        idxMapping := by rw [← hn]; exact hidx
        queryStartLoc := ?_
        seqLenTail := ?_
        lastTokenTail := by rw [← hn]; exact htail }
    · intro r hr
      unfold prepareDecodeInputs draftPosition
      dsimp only
      rw [← hn] at hr ⊢
      by_cases hadv : cfg.advanceDraftPositions = true
      · rw [if_pos hadv, if_pos hadv, hrequests, if_pos hr, hposition r hr]
      · rw [if_neg hadv, if_neg hadv, hposition r hr]
    · intro r hr
      obtain ⟨hlen, hmodel⟩ := lastPosition_lt hbatch hr
      unfold prepareDecodeInputs draftPosition
      dsimp only
      rw [← hn] at hr ⊢
      refine launch_of_some (hlaw.mem.mpr (Nat.lt_succ_of_lt hr)) (r := r) ?_ ?_
      · rw [if_neg (Nat.ne_of_lt hr), if_pos hr, own, if_pos rfl, ← hlen]
        congr 1
        split <;> omega
      · intro r' hr' v' hv'
        have hlt := hlaw.mem.mp hr'
        by_cases hpad : r' = n
        · rw [if_pos hpad, if_neg (by omega)] at hv'
          cases hv'
        · rw [if_neg hpad, if_pos (by omega), own] at hv'
          split at hv'
          · next heq =>
              cases hv'
              rw [← heq, ← hlen]
              split <;> omega
          · cases hv'
    · intro r hr
      unfold prepareDecodeInputs
      dsimp only
      rw [← hn] at hr ⊢
      rw [hrequests, if_pos hr]
    · intro r hr prev hprev
      have hfirst := hrec.first
      cases hfirst.symm.trans hprev
      exact hhidden r hr
    · intro r hr
      unfold prepareDecodeInputs
      dsimp only
      rw [← hn] at hr ⊢
      rw [hrequests, if_pos hr, hkey r hr]
    · intro j hj
      unfold prepareDecodeInputs
      dsimp only
      rw [← hn]
      refine launch_of_some (hlaw.mem.mpr (Nat.lt_succ_self n)) (r := n) ?_ ?_
      · rw [if_pos ⟨rfl, Nat.lt_succ_of_le hj⟩]
        congr 1
        split <;> omega
      · intro r' _ v' hv'
        split at hv'
        · cases hv'
          split <;> omega
        · cases hv'
    · intro j hge hj
      have hzero : min (1 - 1) cfg.maxModelLen = 0 := Nat.zero_min _
      rw [hzero, ite_self]
      unfold prepareDecodeInputs
      dsimp only
      rw [← hn] at hge ⊢
      refine launch_of_some (hlaw.mem.mpr (Nat.lt_succ_self n)) (r := n) ?_ ?_
      · rw [if_pos rfl, if_pos ⟨hge, hj⟩]
      · intro r' hr' v' hv'
        have hlt := hlaw.mem.mp hr'
        by_cases hpad : r' = n
        · rw [if_pos hpad, if_pos ⟨hge, hj⟩] at hv'
          exact (Option.some.inj hv').symm
        · rw [if_neg hpad, if_pos (by omega), own, if_neg (by omega)] at hv'
          cases hv'

/-- The step of the draft prefill: the prepared buffers behind the target's hidden states,
with the target's slots, and the sampling keys one behind the last accepted positions. -/
structure PrefillStepOk (args : ProposeArgs H Slots) (desc : BatchDesc)
    (prepared : Speculator H Slots) (first : DraftStep H Slots) : Prop where
  inputs : first.toModelInputs =
    { inputIds := prepared.inputIds
      positions := prepared.positions
      hiddenStates := prepared.hiddenStates
      queryStartLoc := prepared.queryStartLoc
      seqLens := prepared.seqLens
      slotMapping := some args.slotMappings
      numTokens := desc.numTokens }
  hiddenStates : ∀ j < args.inputBatch.numTokensAfterPadding,
    first.hiddenStates j = args.hiddenStates j
  lastTokenIndices : first.lastTokenIndices = prepared.lastTokenIndices
  idxMapping : ∀ r < args.inputBatch.numReqs,
    first.idxMapping r = args.inputBatch.idxMapping r
  sampleKey : ∀ r < args.inputBatch.numReqs,
    first.sampleSrcPositions r = lastPosition args r + 1
  currentDraftStep : first.currentDraftStep = 0

/-- What the draft prefill is given. -/
def prefillGiven (args : ProposeArgs H Slots) (desc : BatchDesc) (prepared : Speculator H Slots) :
    DraftStep H Slots :=
  prepared.observe (some args.slotMappings) desc.numTokens fun r =>
    prepared.positions (prepared.lastTokenIndices r) + 1

section Prefill

variable {prefillDesc : BatchDesc} {prepared : Speculator H Slots} {rows : Nat}

theorem PrefillPrepared.lastPosition (h : PrefillPrepared cfg args s prepared)
    (hbatch : ValidBatch cfg args) {r : Nat} (hr : r < args.inputBatch.numReqs) :
    prepared.positions (prepared.lastTokenIndices r) = lastPosition args r := by
  have hlen := queryLen_pos hbatch hr
  have hrow := h.positions r hr (queryLen args r - 1) (by omega)
  have hindex : args.inputBatch.queryStartLoc r + (queryLen args r - 1) =
      lastTokenIndex args r := by
    unfold lastTokenIndex
    omega
  rw [hindex, position_last hbatch hr] at hrow
  rw [(h.next r hr).1]
  exact hrow

/-- The prefill is the first step, and has stored its samples. -/
theorem prefill_recorded (h : PrefillPrepared cfg args s prepared)
    (hsteps : prepared.steps = []) (hwrites : prepared.draftWrites = [])
    (hrows : args.inputBatch.numReqs ≤ rows) :
    Recorded env cfg args desc (prefillGiven args prefillDesc prepared) 1
      (prefill env prefillDesc args.slotMappings rows prepared) := by
  obtain ⟨t, ht⟩ : ∃ t, t = prefill env prefillDesc args.slotMappings rows prepared :=
    ⟨_, rfl⟩
  have hfirst : t.steps = [prefillGiven args prefillDesc prepared] := by
    have hpushed : t.steps = prepared.steps ++ [prefillGiven args prefillDesc prepared] := by
      rw [ht]
      rfl
    rw [hpushed, hsteps]
    rfl
  rw [← ht]
  refine { length := ?_, first := ?_, later := ?_, tokens := ?_, writes := ?_ }
  · rw [hfirst]
    rfl
  · rw [hfirst]
    rfl
  · intro step prev x _ hx
    rw [hfirst] at hx
    cases hx
  · intro step x hx r hr
    rw [hfirst] at hx
    cases step with
    | zero =>
        cases hx
        have hcolumn : t.draftTokens r 0 = env.sampleDraft
            (fun q => ((prefillGiven args prefillDesc prepared).run env prepared.steps).1
              (prepared.lastTokenIndices q))
            (prefillGiven args prefillDesc prepared).sampleSrcPositions
            (prefillGiven args prefillDesc prepared).idxMapping prepared.currentDraftStep r := by
          rw [ht]
          exact if_pos ⟨Nat.lt_of_lt_of_le hr hrows, rfl⟩
        rw [hcolumn, hsteps, h.currentDraftStep]
        rfl
    | succ step => cases hx
  · intro r hr c
    have hstored : t.draftWrites = (List.range rows).map fun r => (r, 0) := by
      have hpushed : t.draftWrites =
          prepared.draftWrites ++ (List.range rows).map fun r => (r, 0) := by
        rw [ht]
        rfl
      rw [hpushed, hwrites, List.nil_append]
    rw [hstored, count_rows (List.Perm.refl _) (Nat.lt_of_lt_of_le hr hrows)]
    exact if_congr Nat.lt_one_iff.symm rfl rfl

end Prefill

/-- The draft prefill is given the target's ids shifted by one, and every later step the
draft tokens and hidden states of the step before, for either loop and either mode.  The
column of a step holds what the sampler makes of the hidden rows of its run, with its keys
and requests, and is stored once. -/
theorem propose_ok (hlaw : env.Lawful) (hbatch : ValidBatch cfg args)
    (hsteps : 0 < cfg.numSpeculativeSteps) {prefillDesc : BatchDesc}
    (hprefill : args.inputBatch.numReqs ≤ prefillDesc.rows args.inputBatch.numReqs)
    (hdecode : args.inputBatch.numReqs ≤ desc.rows args.inputBatch.numReqs)
    (s : Speculator H Slots) :
    ∃ prepared first, PrefillPrepared cfg args s prepared ∧
      PrefillStepOk args prefillDesc prepared first ∧
      Recorded env cfg args desc first cfg.numSpeculativeSteps
        (propose env cfg prefillDesc desc args s) ∧
      ∀ step < cfg.numSpeculativeSteps, ∃ x,
        (propose env cfg prefillDesc desc args s).steps[step]? = some x ∧
        ∀ r < args.inputBatch.numReqs,
          (propose env cfg prefillDesc desc args s).draftTokens r step =
            env.sampleDraft
              (fun q => (x.run env ((propose env cfg prefillDesc desc args s).steps.take
                step)).1 (if step = 0 then x.lastTokenIndices q else q))
              x.sampleSrcPositions x.idxMapping step r := by
  obtain ⟨prepared, hprepared⟩ : ∃ prepared, prepared = beginPropose env cfg args s := ⟨_, rfl⟩
  obtain ⟨t, ht⟩ : ∃ t, t = prefill env prefillDesc args.slotMappings
    (prefillDesc.rows args.inputBatch.numReqs) prepared := ⟨_, rfl⟩
  have hspec : PrefillPrepared cfg args s prepared := by
    rw [hprepared]
    exact { preparePrefillInputs_spec hlaw hbatch _ with }
  have hlast := fun r hr => hspec.lastPosition hbatch (r := r) hr
  have hempty : prepared.steps = [] := by
    rw [hprepared]
    rfl
  have hfirstOk : PrefillStepOk args prefillDesc prepared
      (prefillGiven args prefillDesc prepared) := by
    refine
      { inputs := rfl
        hiddenStates := ?_
        lastTokenIndices := rfl
        idxMapping := ?_
        sampleKey := fun r hr => congrArg (· + 1) (hlast r hr)
        currentDraftStep := hspec.currentDraftStep }
    · intro j hj
      rw [hprepared]
      exact if_pos hj
    · intro r hr
      rw [hprepared]
      exact if_pos hr
  have hrec : Recorded env cfg args desc (prefillGiven args prefillDesc prepared) 1 t := by
    rw [ht]
    exact prefill_recorded hspec hempty (by rw [hprepared]; rfl) hprefill
  have hready : LoopReady env cfg args desc (prefillGiven args prefillDesc prepared) 1
      (prepareDecodeInputs env cfg args t) := by
    refine prepareDecodeInputs_ok hlaw hbatch hrec ?_ ?_ ?_ ?_ ?_
    · intro r hr
      rw [ht]
      exact (if_pos (Nat.lt_of_lt_of_le hr hprefill)).trans (hlast r hr)
    · intro r hr
      rw [ht]
      exact (if_pos (Nat.lt_of_lt_of_le hr hprefill)).trans (congrArg (· + 1) (hlast r hr))
    · intro r hr
      rw [ht, hprepared]
      exact if_pos hr
    · rw [ht]
      exact hspec.lastTokenTail
    · intro r hr
      rw [ht, ← hempty]
      exact if_pos (Nat.lt_of_lt_of_le hr hprefill)
  have hall : Recorded env cfg args desc (prefillGiven args prefillDesc prepared)
      cfg.numSpeculativeSteps (propose env cfg prefillDesc desc args s) := by
    unfold propose
    dsimp only
    rw [← hprepared, ← ht]
    by_cases hone : cfg.numSpeculativeSteps = 1
    · rw [if_pos hone, hone]
      exact hrec
    · have hmax : max cfg.numSpeculativeSteps 1 = cfg.numSpeculativeSteps := by omega
      rw [if_neg hone]
      split
      · have hfused := fusedMultiStepDecode_ok hlaw hbatch hdecode hready
        rwa [hmax] at hfused
      · have hmulti := multiStepDecode_ok hlaw hbatch hdecode hready
        rwa [hmax] at hmulti
  refine ⟨prepared, _, hspec, hfirstOk, hall, fun step hstep => ?_⟩
  have hlt : step < (propose env cfg prefillDesc desc args s).steps.length := by
    rw [hall.length]
    exact hstep
  have hx := List.getElem?_eq_getElem hlt
  exact ⟨_, hx, hall.tokens step _ hx⟩

end Propose

/-! Two requests of two and three tokens, one token of the first rejected; the decode steps
replay a graph of three requests. -/

section Sample

def sampleDraftEnv : DraftEnv Int (List Nat) where
  order := fun n => (List.range n).reverse
  computeSlotMappings := fun _ _ positions _ => positions
  runModel := fun before x => (fun r => x.inputIds r + before.length, x.inputIds)
  sampleDraft := fun rows positions _ step r => rows r + positions r + 10 * step

def sampleDraftConfig : SpeculatorConfig := ⟨3, 8, 4, true, true⟩

def sampleDraftArgs : ProposeArgs Int (List Nat) where
  inputBatch :=
    { numReqs := 2
      numTokensAfterPadding := 5
      inputIds := fun j => j
      positions := fun j => if j < 2 then j + 4 else j + 3
      idxMapping := fun r => r
      queryStartLoc := fun r => if r = 0 then 0 else if r = 1 then 2 else 5
      seqLens := fun r => if r = 0 then 6 else 8 }
  slotMappings := []
  hiddenStates := fun _ => 0
  numSampled := fun r => r
  numRejected := fun r => if r = 0 then 1 else 0
  lastSampled := fun _ => 100
  nextPrefillTokens := fun _ => 200

def sampleSpeculator : Speculator Int (List Nat) where
  inputIds := fun _ => 0
  positions := fun _ => 0
  queryStartLoc := fun _ => 0
  seqLens := fun _ => 0
  hiddenStates := fun _ => 0
  lastTokenIndices := fun _ => 0
  currentDraftStep := 0
  sampleSrcPositions := fun _ => 0
  idxMapping := fun _ => 0
  slotMapping := none
  draftTokens := fun _ _ => 0
  draftWrites := []
  steps := []

theorem sampleDraftEnv_lawful : sampleDraftEnv.Lawful := fun _ => List.reverse_perm _

theorem sampleDraftArgs_valid : ValidBatch sampleDraftConfig sampleDraftArgs where
  nonempty := Nat.two_pos
  le_max := by decide
  starts := by decide
  accepted := by decide
  positions := by
    intro r hr k hk
    have hr : r < 2 := hr
    have hcases : r = 0 ∨ r = 1 := by omega
    rcases hcases with rfl | rfl
    · have hk : k < 2 := hk
      have hcases : k = 0 ∨ k = 1 := by omega
      rcases hcases with rfl | rfl <;> rfl
    · have hk : k < 3 := hk
      have hcases : k = 0 ∨ k = 1 ∨ k = 2 := by omega
      rcases hcases with rfl | rfl | rfl <;> rfl
  seqLen_le := by decide

theorem propose_ok_twoRequests :
    ∃ prepared first, PrefillPrepared sampleDraftConfig sampleDraftArgs sampleSpeculator
        prepared ∧
      PrefillStepOk sampleDraftArgs ⟨false, 0, 5⟩ prepared first ∧
      Recorded sampleDraftEnv sampleDraftConfig sampleDraftArgs ⟨true, 3, 3⟩ first 3
        (propose sampleDraftEnv sampleDraftConfig ⟨false, 0, 5⟩ ⟨true, 3, 3⟩ sampleDraftArgs
          sampleSpeculator) := by
  have hprefill : 2 ≤ BatchDesc.rows ⟨false, 0, 5⟩ 2 := Nat.le_refl 2
  have hdecode : 2 ≤ BatchDesc.rows ⟨true, 3, 3⟩ 2 := Nat.le_succ 2
  obtain ⟨prepared, first, hprepared, hfirst, hrecorded, -⟩ := propose_ok
    sampleDraftEnv_lawful sampleDraftArgs_valid (Nat.succ_pos 2) hprefill hdecode
    sampleSpeculator
  exact ⟨prepared, first, hprepared, hfirst, hrecorded⟩

end Sample

end FlashNext.Ports.Draft
