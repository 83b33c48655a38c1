import Mathlib.Data.List.Nodup
import Mathlib.Data.List.Count
import FlashNext.Ports.DraftInputsPrefill

/-!
# Draft inputs: the decode steps

Before every decode step the buffers are ready for it: positions and lengths have moved
on by one and are clamped to the model, the ids are the last samples, and the sampling
keys have moved on without a clamp.  A step records what it is given and makes the
buffers ready for the next one.
-/

namespace FlashNext.Ports.Draft

open FlashNext.Verified.Launch

variable {H Slots : Type} {env : DraftEnv H Slots} {cfg : SpeculatorConfig}
  {args : ProposeArgs H Slots} {desc : BatchDesc} {s : Speculator H Slots}

/-! ## What a step is given -/

/-- The position of a request at a decode step. -/
def draftPosition (cfg : SpeculatorConfig) (args : ProposeArgs H Slots) (r step : Nat) : Nat :=
  if cfg.advanceDraftPositions then min (lastPosition args r + step) (cfg.maxModelLen - 1)
  else lastPosition args r

/-- The slots of the positions of the first `k` requests. -/
def slotsOf (env : DraftEnv H Slots) (desc : BatchDesc) (k : Nat)
    (idxMapping queryStartLoc positions : Nat → Nat) : Slots :=
  env.computeSlotMappings ((List.range k).map idxMapping)
    ((List.range (k + 1)).map queryStartLoc) ((List.range k).map positions) desc.numTokens

/-- The row of a run that a step takes for a request: its last token in the prefill, its
only one in a decode step. -/
def runRow (x : DraftStep H Slots) (step r : Nat) : Nat :=
  if step = 0 then x.lastTokenIndices r else r

/-- What the sampler makes of a step behind the steps `before`: the hidden rows of its run,
its keys and its requests. -/
def sampled (env : DraftEnv H Slots) (before : List (DraftStep H Slots)) (step : Nat)
    (x : DraftStep H Slots) : Nat → Int :=
  env.sampleDraft (fun r => (x.run env before).1 (runRow x step r)) x.sampleSrcPositions
    x.idxMapping step

/-- The hidden states that a step hands on. -/
def handedOn (env : DraftEnv H Slots) (before : List (DraftStep H Slots)) (step : Nat)
    (x : DraftStep H Slots) (r : Nat) : H :=
  (x.run env before).2 (runRow x step r)

/-- A decode step: every request at its position, with the draft token and the hidden state
of the step before; behind them offsets of empty queries.  A row that only the graph has
counts its steps. -/
structure DraftStepOk (env : DraftEnv H Slots) (cfg : SpeculatorConfig)
    (args : ProposeArgs H Slots) (desc : BatchDesc) (step : Nat) (tokens : Nat → Int)
    (hidden : Nat → H) (x : DraftStep H Slots) : Prop where
  currentDraftStep : x.currentDraftStep = step
  position : ∀ r < args.inputBatch.numReqs, x.positions r = draftPosition cfg args r step
  position_le : ∀ r < args.inputBatch.numReqs, x.positions r ≤ cfg.maxModelLen - 1
  seqLen : ∀ r < args.inputBatch.numReqs, x.seqLens r = x.positions r + 1
  inputId : ∀ r < args.inputBatch.numReqs, x.inputIds r = tokens r
  hiddenState : ∀ r < args.inputBatch.numReqs, x.hiddenStates r = hidden r
  numTokens : x.numTokens = desc.numTokens
  sampleKey : ∀ r < args.inputBatch.numReqs,
    x.sampleSrcPositions r = lastPosition args r + 1 + step
  idxMapping : ∀ r < args.inputBatch.numReqs, x.idxMapping r = args.inputBatch.idxMapping r
  slotMapping : ∃ k, args.inputBatch.numReqs ≤ k ∧
    x.slotMapping = some (slotsOf env desc k x.idxMapping x.queryStartLoc x.positions)
  queryStartLoc : ∀ j ≤ cfg.maxNumReqs, x.queryStartLoc j = min j args.inputBatch.numReqs
  seqLenTail : ∀ j, args.inputBatch.numReqs ≤ j → j < cfg.maxNumReqs → x.seqLens j =
    if cfg.advanceDraftPositions = true ∧ j < desc.rows args.inputBatch.numReqs then
      min (step - 1) cfg.maxModelLen
    else 0
  lastTokenTail : ∀ j, args.inputBatch.numReqs ≤ j → j < cfg.maxNumReqs →
    x.lastTokenIndices j = 0

/-- The buffers before decode step `k`. -/
structure Ready (env : DraftEnv H Slots) (cfg : SpeculatorConfig)
    (args : ProposeArgs H Slots) (desc : BatchDesc) (k : Nat) (s : Speculator H Slots) :
    Prop where
  position : ∀ r < args.inputBatch.numReqs, s.positions r = draftPosition cfg args r k
  seqLen : ∀ r < args.inputBatch.numReqs, s.seqLens r = draftPosition cfg args r k + 1
  inputId : ∀ r < args.inputBatch.numReqs, s.inputIds r = s.draftTokens r (k - 1)
  hiddenState : ∀ r < args.inputBatch.numReqs, ∀ prev, s.steps[k - 1]? = some prev →
    s.hiddenStates r = handedOn env (s.steps.take (k - 1)) (k - 1) prev r
  sampleKey : ∀ r < args.inputBatch.numReqs,
    s.sampleSrcPositions r = lastPosition args r + 1 + k
  idxMapping : ∀ r < args.inputBatch.numReqs, s.idxMapping r = args.inputBatch.idxMapping r
  queryStartLoc : ∀ j ≤ cfg.maxNumReqs, s.queryStartLoc j = min j args.inputBatch.numReqs
  seqLenTail : ∀ j, args.inputBatch.numReqs ≤ j → j < cfg.maxNumReqs → s.seqLens j =
    if cfg.advanceDraftPositions = true ∧ j < desc.rows args.inputBatch.numReqs then
      min (k - 1) cfg.maxModelLen
    else 0
  lastTokenTail : ∀ j, args.inputBatch.numReqs ≤ j → j < cfg.maxNumReqs →
    s.lastTokenIndices j = 0

/-- The slots are those of the positions. -/
def SlotsReady (env : DraftEnv H Slots) (args : ProposeArgs H Slots) (desc : BatchDesc)
    (s : Speculator H Slots) : Prop :=
  ∃ k, args.inputBatch.numReqs ≤ k ∧
    s.slotMapping = some (slotsOf env desc k s.idxMapping s.queryStartLoc s.positions)

/-- The first `k` steps have run: the column of a step holds what the sampler makes of it,
stored once. -/
structure Recorded (env : DraftEnv H Slots) (cfg : SpeculatorConfig)
    (args : ProposeArgs H Slots) (desc : BatchDesc) (first : DraftStep H Slots) (k : Nat)
    (s : Speculator H Slots) : Prop where
  length : s.steps.length = k
  first : s.steps[0]? = some first
  later : ∀ step prev x, s.steps[step]? = some prev → s.steps[step + 1]? = some x →
    DraftStepOk env cfg args desc (step + 1) (fun r => s.draftTokens r step)
      (handedOn env (s.steps.take step) step prev) x
  tokens : ∀ step x, s.steps[step]? = some x → ∀ r < args.inputBatch.numReqs,
    s.draftTokens r step = sampled env (s.steps.take step) step x r
  writes : ∀ r < args.inputBatch.numReqs, ∀ c, s.draftWrites.count (r, c) =
    if c < k then 1 else 0

/-! ## Launches over the requests -/

theorem launch_rows (hlaw : env.Lawful) {α : Type} (rows : Nat) (value buf : Nat → α) (j : Nat) :
    launch (env.order rows) (own value) buf j = if j < rows then value j else buf j := by
  rw [launch_own]
  exact if_congr hlaw.mem rfl rfl

/-- The programs of the requests, with one more that does not store here. -/
theorem launch_requests (hlaw : env.Lawful) {α : Type} (n : Nat) (value buf : Nat → α)
    (j : Nat) :
    launch (env.order (n + 1)) (fun r j => if r < n then own value r j else none) buf j =
      if j < n then value j else buf j := by
  by_cases hj : j < n
  · rw [if_pos hj]
    refine launch_of_some (hlaw.mem.mpr (Nat.lt_succ_of_lt hj)) ?_ fun r' _ v' hv' => ?_
    · rw [if_pos hj]
      exact if_pos rfl
    · unfold own at hv'
      split at hv'
      · split at hv'
        · next heq =>
            cases hv'
            rw [heq]
        · cases hv'
      · cases hv'
  · rw [if_neg hj]
    refine launch_of_none fun r _ => ?_
    by_cases hr : r < n
    · rw [if_pos hr]
      refine if_neg ?_
      rintro rfl
      exact hj hr
    · rw [if_neg hr]

/-- Every row stores once in the column of its step. -/
theorem count_rows {order : List Nat} {rows r : Nat} (horder : order.Perm (List.range rows))
    (hr : r < rows) (step c : Nat) :
    (order.map fun q => (q, step)).count (r, c) = if c = step then 1 else 0 := by
  by_cases hc : c = step
  · have hone : order.count r = 1 := by
      rw [horder.count_eq]
      exact List.count_eq_one_of_mem List.nodup_range (List.mem_range.mpr hr)
    rw [if_pos hc, hc]
    refine Eq.trans ?_ hone
    exact List.count_map_of_injective _ (fun q => (q, step)) (fun _ _ h => (Prod.mk.inj h).1) r
  · rw [if_neg hc, List.count_eq_zero]
    intro hmem
    obtain ⟨q, _, hq⟩ := List.mem_map.mp hmem
    exact hc (Prod.mk.inj hq).2.symm

/-! ## One decode step -/

section Step

variable {first : DraftStep H Slots} {k : Nat}

theorem draftPosition_le (hbatch : ValidBatch cfg args) {r : Nat}
    (hr : r < args.inputBatch.numReqs) : draftPosition cfg args r k ≤ cfg.maxModelLen - 1 := by
  have hlast := (lastPosition_lt hbatch hr).2
  unfold draftPosition
  split <;> omega

/-- Positions move on by one up to the end of the model. -/
theorem draftPosition_succ (r : Nat) (h : cfg.advanceDraftPositions = true) :
    min (draftPosition cfg args r k + 1) (cfg.maxModelLen - 1) =
      draftPosition cfg args r (k + 1) := by
  unfold draftPosition
  rw [if_pos h, if_pos h]
  omega

/-- What a decode step is given. -/
def given (desc : BatchDesc) (s : Speculator H Slots) : DraftStep H Slots :=
  s.observe s.slotMapping desc.numTokens s.sampleSrcPositions

/-- What a step records. -/
theorem observe_ok (hbatch : ValidBatch cfg args) (hready : Ready env cfg args desc k s)
    (hslots : SlotsReady env args desc s) (hstep : s.currentDraftStep = k)
    {prev : DraftStep H Slots} (hprev : s.steps[k - 1]? = some prev) :
    DraftStepOk env cfg args desc k (fun r => s.draftTokens r (k - 1))
      (handedOn env (s.steps.take (k - 1)) (k - 1) prev) (given desc s) where
  currentDraftStep := hstep
  position := hready.position
  position_le := fun r hr =>
    Nat.le_trans (Nat.le_of_eq (hready.position r hr)) (draftPosition_le hbatch hr)
  seqLen := fun r hr =>
    (hready.seqLen r hr).trans (congrArg (· + 1) (hready.position r hr).symm)
  inputId := hready.inputId
  hiddenState := fun r hr => hready.hiddenState r hr prev hprev
  numTokens := rfl
  sampleKey := hready.sampleKey
  idxMapping := hready.idxMapping
  slotMapping := hslots
  queryStartLoc := hready.queryStartLoc
  seqLenTail := hready.seqLenTail
  lastTokenTail := hready.lastTokenTail

/-- The kernel behind a step. -/
theorem updateDraftInputs_fields (cfg : SpeculatorConfig) (hlaw : env.Lawful) (rows : Nat)
    (samples : Nat → Int) (hiddenStates : Nat → H) (hstep : s.currentDraftStep = k) :
    (∀ r c, (updateDraftInputs env cfg rows samples hiddenStates s).draftTokens r c =
        if c = k ∧ r < rows then samples r else s.draftTokens r c) ∧
      (updateDraftInputs env cfg rows samples hiddenStates s).draftWrites =
        s.draftWrites ++ (env.order rows).map (fun r => (r, k)) ∧
      (k + 1 < cfg.numSpeculativeSteps → ∀ j,
        (updateDraftInputs env cfg rows samples hiddenStates s).sampleSrcPositions j =
            (if j < rows then s.sampleSrcPositions j + 1 else s.sampleSrcPositions j) ∧
          (updateDraftInputs env cfg rows samples hiddenStates s).inputIds j =
            (if j < rows then samples j else s.inputIds j) ∧
          (updateDraftInputs env cfg rows samples hiddenStates s).hiddenStates j =
            (if j < rows then hiddenStates j else s.hiddenStates j) ∧
          (updateDraftInputs env cfg rows samples hiddenStates s).positions j =
            (if cfg.advanceDraftPositions = true ∧ j < rows then
              min (s.positions j + 1) (cfg.maxModelLen - 1)
            else s.positions j) ∧
          (updateDraftInputs env cfg rows samples hiddenStates s).seqLens j =
            (if cfg.advanceDraftPositions = true ∧ j < rows then
              min (s.seqLens j + 1) cfg.maxModelLen
            else s.seqLens j)) := by
  refine ⟨fun r c => ?_, ?_, fun hmore j => ?_⟩
  · unfold updateDraftInputs
    dsimp only
    rw [hstep]
    split <;>
    · dsimp only
      by_cases hc : c = k
      · rw [if_pos hc, launch_rows hlaw]
        exact if_congr (by simp [hc]) rfl rfl
      · rw [if_neg hc, if_neg (fun h => hc h.1)]
  · unfold updateDraftInputs
    dsimp only
    rw [hstep]
    split <;> rfl
  · unfold updateDraftInputs
    dsimp only
    rw [hstep, if_neg (by omega)]
    dsimp only
    refine ⟨launch_rows hlaw rows _ _ j, launch_rows hlaw rows _ _ j,
      launch_rows hlaw rows _ _ j, ?_, ?_⟩
    · by_cases hadv : cfg.advanceDraftPositions = true
      · rw [if_pos hadv, launch_rows hlaw]
        exact if_congr (by simp [hadv]) rfl rfl
      · rw [if_neg hadv, if_neg (fun h => hadv h.1)]
    · by_cases hadv : cfg.advanceDraftPositions = true
      · rw [if_pos hadv, launch_rows hlaw]
        exact if_congr (by simp [hadv]) rfl rfl
      · rw [if_neg hadv, if_neg (fun h => hadv h.1)]

/-- What the kernel leaves alone. -/
theorem updateDraftInputs_frame (env : DraftEnv H Slots) (cfg : SpeculatorConfig)
    (s : Speculator H Slots) (rows : Nat) (samples : Nat → Int) (hiddenStates : Nat → H) :
    (updateDraftInputs env cfg rows samples hiddenStates s).queryStartLoc = s.queryStartLoc ∧
      (updateDraftInputs env cfg rows samples hiddenStates s).lastTokenIndices =
        s.lastTokenIndices ∧
      (updateDraftInputs env cfg rows samples hiddenStates s).idxMapping = s.idxMapping ∧
      (updateDraftInputs env cfg rows samples hiddenStates s).slotMapping = s.slotMapping ∧
      (updateDraftInputs env cfg rows samples hiddenStates s).steps = s.steps ∧
      (cfg.advanceDraftPositions = false →
        (updateDraftInputs env cfg rows samples hiddenStates s).positions = s.positions) := by
  unfold updateDraftInputs
  dsimp only
  split
  · exact ⟨rfl, rfl, rfl, rfl, rfl, fun _ => rfl⟩
  · refine ⟨rfl, rfl, rfl, rfl, rfl, fun hadv => ?_⟩
    exact if_neg (by simp [hadv])

/-- The state in which a step has recorded itself. -/
def observed (desc : BatchDesc) (s : Speculator H Slots) : Speculator H Slots :=
  { s with steps := s.steps ++ [given desc s] }

/-- A step records itself, then the kernel moves the buffers on. -/
theorem generateDraft_eq (env : DraftEnv H Slots) (cfg : SpeculatorConfig) (desc : BatchDesc)
    (rows : Nat) (hpos : 0 < k) (hstep : s.currentDraftStep = k) :
    generateDraft env cfg desc rows s =
      updateDraftInputs env cfg rows (sampled env s.steps k (given desc s))
        (handedOn env s.steps k (given desc s)) (observed desc s) := by
  subst hstep
  have hrow : ∀ r, runRow (given desc s) s.currentDraftStep r = r :=
    fun r => if_neg (Nat.ne_of_gt hpos)
  unfold sampled handedOn
  simp only [hrow]
  rfl

/-- A step records itself. -/
theorem generateDraft_recorded (hlaw : env.Lawful) (hbatch : ValidBatch cfg args)
    (hrows : args.inputBatch.numReqs ≤ desc.rows args.inputBatch.numReqs) (hpos : 0 < k)
    (hrec : Recorded env cfg args desc first k s) (hready : Ready env cfg args desc k s)
    (hslots : SlotsReady env args desc s) (hstep : s.currentDraftStep = k) :
    Recorded env cfg args desc first (k + 1)
      (generateDraft env cfg desc (desc.rows args.inputBatch.numReqs) s) := by
  have hmove : (observed desc s).currentDraftStep = k := hstep
  obtain ⟨htokens, hwrites, -⟩ := updateDraftInputs_fields cfg hlaw
    (desc.rows args.inputBatch.numReqs) (sampled env s.steps k (given desc s))
    (handedOn env s.steps k (given desc s)) hmove
  obtain ⟨-, -, -, -, hsteps, -⟩ := updateDraftInputs_frame env cfg (observed desc s)
    (desc.rows args.inputBatch.numReqs) (sampled env s.steps k (given desc s))
    (handedOn env s.steps k (given desc s))
  rw [← generateDraft_eq env cfg desc _ hpos hstep] at htokens hwrites hsteps
  generalize generateDraft env cfg desc (desc.rows args.inputBatch.numReqs) s = t at *
  have hlen := hrec.length
  have htsteps : t.steps = s.steps ++ [given desc s] := hsteps
  have hlast : t.steps[k]? = some (given desc s) := by
    rw [htsteps, ← hlen, List.getElem?_concat_length]
  have htake : ∀ i ≤ k, t.steps.take i = s.steps.take i := by
    intro i hi
    rw [htsteps, List.take_append_of_le_length (by omega)]
  have htaken : s.steps.take k = s.steps := List.take_of_length_le (by omega)
  have hcolumn : ∀ c < k, (fun r => t.draftTokens r c) = fun r => s.draftTokens r c := by
    intro c hc
    funext r
    exact (htokens r c).trans (if_neg fun h => absurd h.1 (by omega))
  have hold : ∀ i < k, t.steps[i]? = s.steps[i]? := by
    intro i hi
    rw [htsteps, List.getElem?_append_left (by omega)]
  have hnone : ∀ i y, t.steps[i]? = some y → i ≤ k := by
    intro i y hy
    have hlt := (List.getElem?_eq_some_iff.mp hy).1
    rw [htsteps, List.length_append, hlen] at hlt
    exact Nat.le_of_lt_succ hlt
  refine { length := ?_, first := ?_, later := ?_, tokens := ?_, writes := ?_ }
  · rw [htsteps, List.length_append, hlen]
    rfl
  · rw [hold 0 hpos]
    exact hrec.first
  · intro step prev y hprev hy
    have hle := hnone _ _ hy
    rw [hold step (by omega)] at hprev
    rw [hcolumn step (by omega), htake step (by omega)]
    by_cases hnew : step + 1 = k
    · rw [hnew, hlast] at hy
      cases hy
      have hstepk : step = k - 1 := by omega
      rw [hnew, hstepk]
      rw [hstepk] at hprev
      exact observe_ok hbatch hready hslots hstep hprev
    · rw [hold (step + 1) (by omega)] at hy
      exact hrec.later step prev y hprev hy
  · intro step y hy r hr
    have hle := hnone _ _ hy
    rw [htake step hle]
    by_cases hnew : step = k
    · rw [hnew, hlast] at hy
      cases hy
      rw [htokens, if_pos ⟨hnew, by omega⟩, hnew, htaken]
    · rw [hold step (by omega)] at hy
      rw [htokens, if_neg (fun h => hnew h.1)]
      exact hrec.tokens step y hy r hr
  · intro r hr c
    have hcount := hrec.writes r hr c
    rw [hwrites, List.count_append, count_rows (hlaw _) (by omega)]
    show s.draftWrites.count (r, c) + _ = _
    rw [hcount]
    split <;> split <;> split <;> omega

/-- A step that is not the last makes the buffers ready for the next one. -/
theorem generateDraft_ready (hlaw : env.Lawful) (hbatch : ValidBatch cfg args)
    (hrows : args.inputBatch.numReqs ≤ desc.rows args.inputBatch.numReqs) (hpos : 0 < k)
    (hrec : Recorded env cfg args desc first k s) (hready : Ready env cfg args desc k s)
    (hstep : s.currentDraftStep = k) (hmore : k + 1 < cfg.numSpeculativeSteps) :
    Ready env cfg args desc (k + 1)
      (generateDraft env cfg desc (desc.rows args.inputBatch.numReqs) s) := by
  have hobserved : (observed desc s).currentDraftStep = k := hstep
  obtain ⟨htokens, -, hmove⟩ := updateDraftInputs_fields cfg hlaw
    (desc.rows args.inputBatch.numReqs) (sampled env s.steps k (given desc s))
    (handedOn env s.steps k (given desc s)) hobserved
  obtain ⟨hstarts, hlasts, hidx, -, hsteps, -⟩ := updateDraftInputs_frame env cfg
    (observed desc s) (desc.rows args.inputBatch.numReqs)
    (sampled env s.steps k (given desc s)) (handedOn env s.steps k (given desc s))
  rw [← generateDraft_eq env cfg desc _ hpos hstep] at htokens hmove hstarts hlasts hidx hsteps
  generalize generateDraft env cfg desc (desc.rows args.inputBatch.numReqs) s = t at *
  have hmove := hmove hmore
  have hlen := hrec.length
  have htsteps : t.steps = s.steps ++ [given desc s] := hsteps
  refine
    { position := ?_
      seqLen := ?_
      inputId := ?_
      hiddenState := ?_
      sampleKey := ?_
      idxMapping := ?_
      queryStartLoc := ?_
      seqLenTail := ?_
      lastTokenTail := ?_ }
  · intro r hr
    have hposition : (observed desc s).positions r = _ := hready.position r hr
    rw [(hmove r).2.2.2.1]
    by_cases hadv : cfg.advanceDraftPositions = true
    · rw [if_pos ⟨hadv, by omega⟩, hposition, draftPosition_succ r hadv]
    · rw [if_neg (fun h => hadv h.1), hposition]
      unfold draftPosition
      rw [if_neg hadv, if_neg hadv]
  · intro r hr
    have hseq : (observed desc s).seqLens r = _ := hready.seqLen r hr
    have hmodel := (lastPosition_lt hbatch hr).2
    rw [(hmove r).2.2.2.2]
    by_cases hadv : cfg.advanceDraftPositions = true
    · rw [if_pos ⟨hadv, by omega⟩, hseq, ← draftPosition_succ r hadv]
      omega
    · rw [if_neg (fun h => hadv h.1), hseq]
      unfold draftPosition
      rw [if_neg hadv, if_neg hadv]
  · intro r hr
    rw [(hmove r).2.1, if_pos (by omega), Nat.add_sub_cancel, htokens,
      if_pos ⟨rfl, by omega⟩]
  · intro r hr prev hprev
    rw [Nat.add_sub_cancel, htsteps, ← hlen, List.getElem?_concat_length] at hprev
    cases hprev
    rw [(hmove r).2.2.1, if_pos (by omega), Nat.add_sub_cancel, htsteps, ← hlen,
      List.take_left]
  · intro r hr
    have hkey : (observed desc s).sampleSrcPositions r = _ := hready.sampleKey r hr
    rw [(hmove r).1, if_pos (by omega), hkey]
    rfl
  · rw [hidx]
    exact hready.idxMapping
  · rw [hstarts]
    exact hready.queryStartLoc
  · intro j hge hj
    have htail : (observed desc s).seqLens j = _ := hready.seqLenTail j hge hj
    rw [(hmove j).2.2.2.2, htail]
    by_cases hcounts : cfg.advanceDraftPositions = true ∧
        j < desc.rows args.inputBatch.numReqs
    · rw [if_pos hcounts, if_pos hcounts, if_pos hcounts]
      omega
    · rw [if_neg hcounts, if_neg hcounts, if_neg hcounts]
  · rw [hlasts]
    exact hready.lastTokenTail

/-- Positions that stay keep their slots. -/
theorem generateDraft_slots (rows : Nat) (hslots : SlotsReady env args desc s)
    (hadv : cfg.advanceDraftPositions = false) :
    SlotsReady env args desc (generateDraft env cfg desc rows s) := by
  have hrun : generateDraft env cfg desc rows s = updateDraftInputs env cfg rows
      (env.sampleDraft ((given desc s).run env s.steps).1 s.sampleSrcPositions s.idxMapping
        s.currentDraftStep) ((given desc s).run env s.steps).2 (observed desc s) := rfl
  obtain ⟨hstarts, -, hidx, hslot, -, hstay⟩ := updateDraftInputs_frame env cfg
    (observed desc s) rows (env.sampleDraft ((given desc s).run env s.steps).1
      s.sampleSrcPositions s.idxMapping s.currentDraftStep)
    ((given desc s).run env s.steps).2
  obtain ⟨k', hk', hslots⟩ := hslots
  refine ⟨k', hk', ?_⟩
  rw [hrun, hslot, hidx, hstarts, hstay hadv]
  exact hslots

end Step

/-! ## The loops -/

section Loops

variable {first : DraftStep H Slots}

/-- The state before decode step `k` of a loop. -/
structure LoopReady (env : DraftEnv H Slots) (cfg : SpeculatorConfig)
    (args : ProposeArgs H Slots) (desc : BatchDesc) (first : DraftStep H Slots) (k : Nat)
    (s : Speculator H Slots) : Prop where
  recorded : Recorded env cfg args desc first k s
  ready : k < cfg.numSpeculativeSteps → Ready env cfg args desc k s

theorem Recorded.setStep {k : Nat} (h : Recorded env cfg args desc first k s) (step : Nat) :
    Recorded env cfg args desc first k { s with currentDraftStep := step } :=
  { h with }

theorem Recorded.computeSlots {k n : Nat} (h : Recorded env cfg args desc first k s) :
    Recorded env cfg args desc first k (computeSlots env desc n s) :=
  { h with }

theorem Ready.setStep {k : Nat} (h : Ready env cfg args desc k s) (step : Nat) :
    Ready env cfg args desc k { s with currentDraftStep := step } :=
  { h with }

theorem Ready.computeSlots {k n : Nat} (h : Ready env cfg args desc k s) :
    Ready env cfg args desc k (computeSlots env desc n s) :=
  { h with }

theorem slotsReady_computeSlots {n : Nat} (hn : args.inputBatch.numReqs ≤ n) :
    SlotsReady env args desc (computeSlots env desc n s) := ⟨n, hn, rfl⟩

/-- A loop over the steps from the first on: every step makes the buffers ready
for the next one, and keeps what `P` says of the slots. -/
theorem foldl_steps {f : Speculator H Slots → Nat → Speculator H Slots}
    {P : Nat → Speculator H Slots → Prop}
    (hstep : ∀ k t, 0 < k → k < cfg.numSpeculativeSteps →
      LoopReady env cfg args desc first k t → P k t →
      LoopReady env cfg args desc first (k + 1) (f t k) ∧ P (k + 1) (f t k))
    (h : LoopReady env cfg args desc first 1 s) (hslots : P 1 s) :
    Recorded env cfg args desc first (max cfg.numSpeculativeSteps 1)
      ((List.range' 1 (cfg.numSpeculativeSteps - 1)).foldl f s) := by
  have hloop : ∀ m k, k + m = max cfg.numSpeculativeSteps 1 → 0 < k → ∀ t,
      LoopReady env cfg args desc first k t → P k t →
      Recorded env cfg args desc first (k + m) ((List.range' k m).foldl f t) := by
    intro m
    induction m with
    | zero => exact fun k _ _ t ht _ => ht.recorded
    | succ m ih =>
        intro k hk hpos t ht hP
        obtain ⟨hnext, hP'⟩ := hstep k t hpos (by omega) ht hP
        rw [List.range'_succ, List.foldl_cons, Nat.add_succ, ← Nat.succ_add]
        exact ih (k + 1) (by omega) (Nat.succ_pos k) _ hnext hP'
  have hrun := hloop (cfg.numSpeculativeSteps - 1) 1 (by omega) Nat.one_pos s h hslots
  have hend : 1 + (cfg.numSpeculativeSteps - 1) = max cfg.numSpeculativeSteps 1 := by omega
  rw [hend] at hrun
  exact hrun

variable (hlaw : env.Lawful) (hbatch : ValidBatch cfg args)
  (hrows : args.inputBatch.numReqs ≤ desc.rows args.inputBatch.numReqs)

include hlaw hbatch hrows

/-- The stepwise loop: the slots are computed again when the positions have moved. -/
theorem multiStepDecode_ok (h : LoopReady env cfg args desc first 1 s) :
    Recorded env cfg args desc first (max cfg.numSpeculativeSteps 1)
      (multiStepDecode env cfg desc args.inputBatch.numReqs s) := by
  apply foldl_steps (P := fun k t =>
    cfg.advanceDraftPositions = false → k ≠ 1 → SlotsReady env args desc t) _ h
    (fun _ hne => absurd rfl hne)
  intro k t hpos hlt ht hslots
  obtain ⟨u, hu⟩ : ∃ u, u =
      if cfg.advanceDraftPositions = true ∨ k = 1 then
        computeSlots env desc args.inputBatch.numReqs t
      else t := ⟨_, rfl⟩
  have hurec : Recorded env cfg args desc first k u := by
    rw [hu]
    split
    · exact ht.recorded.computeSlots
    · exact ht.recorded
  have huready : Ready env cfg args desc k u := by
    rw [hu]
    split
    · exact (ht.ready hlt).computeSlots
    · exact ht.ready hlt
  have huslots : SlotsReady env args desc u := by
    rw [hu]
    split
    · exact slotsReady_computeSlots (Nat.le_refl _)
    · next hstay =>
        refine hslots ?_ fun hone => hstay (Or.inr hone)
        simpa using fun hadv => hstay (Or.inl hadv)
  have hrec := generateDraft_recorded hlaw hbatch hrows hpos (hurec.setStep k)
    (huready.setStep k) huslots rfl
  have hready := generateDraft_ready hlaw hbatch hrows hpos (hurec.setStep k)
    (huready.setStep k) rfl
  have hmulti : multiStep env cfg desc args.inputBatch.numReqs t k =
      generateDraft env cfg desc (desc.rows args.inputBatch.numReqs)
        { u with currentDraftStep := k } := by
    rw [hu]
    rfl
  rw [hmulti]
  exact ⟨⟨hrec, hready⟩, fun hadv _ => generateDraft_slots _ huslots hadv⟩

/-- The fused loop: the slots of the next step are computed behind a step. -/
theorem fusedMultiStepDecode_ok (h : LoopReady env cfg args desc first 1 s) :
    Recorded env cfg args desc first (max cfg.numSpeculativeSteps 1)
      (fusedMultiStepDecode env cfg desc args.inputBatch.numReqs s) := by
  apply foldl_steps (P := fun k t => k < cfg.numSpeculativeSteps → SlotsReady env args desc t) _
    ⟨h.recorded.computeSlots, fun hlt => (h.ready hlt).computeSlots⟩
    (fun _ => slotsReady_computeSlots (Nat.le_refl _))
  intro k t hpos hlt ht hslots
  have hready := generateDraft_ready hlaw hbatch hrows hpos (ht.recorded.setStep k)
    ((ht.ready hlt).setStep k) rfl
  have hrec := generateDraft_recorded hlaw hbatch hrows hpos (ht.recorded.setStep k)
    ((ht.ready hlt).setStep k) (hslots hlt) rfl
  unfold fusedStep
  dsimp only
  by_cases hagain : k < cfg.numSpeculativeSteps - 1 ∧ cfg.advanceDraftPositions = true
  · rw [if_pos hagain]
    exact ⟨⟨hrec.computeSlots, fun hmore => (hready hmore).computeSlots⟩,
      fun _ => slotsReady_computeSlots hrows⟩
  · rw [if_neg hagain]
    refine ⟨⟨hrec, hready⟩, fun hmore => generateDraft_slots _ (hslots hlt) ?_⟩
    simpa using fun hadv => hagain ⟨by omega, hadv⟩

end Loops

end FlashNext.Ports.Draft
