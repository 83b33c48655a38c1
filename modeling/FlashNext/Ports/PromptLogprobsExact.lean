import FlashNext.Ports.PromptLogprobs

/-!
# The ledger of prompt log probabilities

What the runner returns is described by a ledger that knows nothing of tensors: which requests
still wait for their prompt log probabilities, and how far their prompts have been computed.
The loop of a step is compared with it request by request.
-/

namespace FlashNext.Ports.PromptLogprobs

open FlashNext.Verified.Checked
open FlashNext.Verified.OrderedDicts
open FlashNext.Verified.Varlen

variable {κ : Type} [DecidableEq κ] {H L R : Type}

/-! ## One prefill -/

/-- The rows of a whole prompt; `hidden` is what the model gives at a position of a prompt. -/
def promptRows (env : Env H L R) (hidden : List Int → Nat → H) (numPromptLogprobs : Nat)
    (prompt : List Int) : List R :=
  List.zipWith (fun i token =>
      env.gatherLogprobs (env.scores (env.computeLogits (hidden prompt i))) numPromptLogprobs token)
    (List.range (prompt.length - 1)) prompt.tail

/-! ## The ledger -/

/-- A request that waits for its prompt log probabilities; its first `reached` tokens have been
computed. -/
structure Pending (κ : Type) where
  reqId : κ
  promptTokenIds : Option (List Int)
  numPromptLogprobs : Nat
  reached : Nat

structure Ledger (κ : Type) where
  live : List κ
  pending : List (Pending κ)

/-- Where the requests of a step start. -/
def Step.starts (step : Step κ H) : List (κ × Nat) :=
  step.scheduledNewReqs.map (fun r => (r.reqId, r.numComputedTokens)) ++
    step.scheduledCachedReqs.map fun r => (r.reqId, r.numComputedTokens)

/-- The position behind the tokens that a step computes for a request. -/
def Step.reaches (step : Step κ H) (id : κ) : Option Nat := do
  let start ← get id step.starts
  let numTokens ← get id step.numScheduledTokens
  return start + numTokens

/-- The entry of a new request in the ledger. -/
def NewRequestData.pending (env : Env H L R) (r : NewRequestData κ) : Option (Pending κ) :=
  r.promptLogprobs.map fun n => ⟨r.reqId, r.promptTokenIds, env.numPromptLogprobs n, 0⟩

/-- Finished requests leave the ledger, new ones enter it. -/
def Ledger.arrive (env : Env H L R) (step : Step κ H) (ledger : Ledger κ) : Ledger κ where
  live := ledger.live.filter (· ∉ step.finishedReqIds) ++
    step.scheduledNewReqs.map NewRequestData.reqId
  pending := ledger.pending.filter (·.reqId ∉ step.finishedReqIds) ++
    step.scheduledNewReqs.filterMap (NewRequestData.pending env)

/-- The step computes the last token of the prompt. -/
def Pending.completes (step : Step κ H) (p : Pending κ) : Bool :=
  match p.promptTokenIds, step.reaches p.reqId with
  | some prompt, some position => prompt.length ≤ position
  | _, _ => false

def Pending.advance (step : Step κ H) (p : Pending κ) : Pending κ :=
  { p with reached := max p.reached ((step.reaches p.reqId).getD 0) }

/-- The entry of a request that is complete. -/
def Pending.entry (env : Env H L R) (hidden : List Int → Nat → H) (p : Pending κ) :
    κ × LogprobsTensors R :=
  (p.reqId, (promptRows env hidden p.numPromptLogprobs (p.promptTokenIds.getD [])).map some)

/-- Complete requests leave the ledger. -/
def Ledger.leave (step : Step κ H) (ledger : Ledger κ) : Ledger κ :=
  { ledger with
    pending := (ledger.pending.filter fun p => !p.completes step).map (Pending.advance step) }

/-- What is returned, step by step. -/
def expected (env : Env H L R) (hidden : List Int → Nat → H) (ledger : Ledger κ) :
    List (Step κ H) → List (List (κ × LogprobsTensors R))
  | [] => []
  | step :: steps =>
      let ledger := ledger.arrive env step
      (ledger.pending.filter (Pending.completes step)).map (Pending.entry env hidden) ::
        expected env hidden (ledger.leave step) steps

/-! ## What is promised -/

/-- What the scheduler and the model promise in a step: the requests are known, one that waits
for prompt log probabilities starts where all tokens before have been computed, and the hidden
states are those of the prompt. -/
structure Step.Ok (env : Env H L R) (hidden : List Int → Nat → H) (ledger : Ledger κ)
    (step : Step κ H) : Prop where
  fresh : ∀ r ∈ step.scheduledNewReqs, r.reqId ∈ ledger.live → r.reqId ∈ step.finishedReqIds
  prompts : ∀ r ∈ step.scheduledNewReqs, r.promptTokenIds ≠ some []
  cached : ∀ r ∈ step.scheduledCachedReqs, r.reqId ∈ ledger.live ∧ r.reqId ∉ step.finishedReqIds
  distinct : (keys step.starts).Nodup
  scheduled : ∀ id ∈ keys step.numScheduledTokens, id ∈ keys step.starts
  order : step.reqIds.Perm (keys step.numScheduledTokens)
  counted : (keys step.numScheduledTokens).Nodup
  covered : ∀ p ∈ (ledger.arrive env step).pending, p.promptTokenIds.isSome →
    ∀ start ∈ get p.reqId step.starts, start ≤ p.reached
  rows : ∃ rows : κ → List H, step.hiddenStates = step.reqIds.flatMap rows ∧
    (∀ id ∈ step.reqIds, (rows id).length = step.numTokens id) ∧
    ∀ p ∈ (ledger.arrive env step).pending, ∀ prompt ∈ p.promptTokenIds,
      ∀ start ∈ get p.reqId step.starts, ∀ j < step.numTokens p.reqId,
        start + j + 1 < prompt.length → (rows p.reqId)[j]? = some (hidden prompt (start + j))

/-- Every step of a run keeps its promises. -/
def RunOk (env : Env H L R) (hidden : List Int → Nat → H) (ledger : Ledger κ) :
    List (Step κ H) → Prop
  | [] => True
  | step :: steps => step.Ok env hidden ledger ∧
      RunOk env hidden ((ledger.arrive env step).leave step) steps

/-! ## Tensors that are partly filled -/

/-- The first rows have been copied. -/
structure Filled (full : List R) (reached : Nat) (tensors : LogprobsTensors R) : Prop where
  length : tensors.length = full.length
  rows : ∀ i < reached, tensors[i]? = (full[i]?).map some

theorem filled_empty (full : List R) : Filled full 0 (List.replicate full.length none) where
  length := List.length_replicate
  rows := fun i hi => absurd hi (Nat.not_lt_zero i)

/-- All rows have been copied. -/
theorem Filled.eq {full : List R} {reached : Nat} {tensors : LogprobsTensors R}
    (h : Filled full reached tensors) (hreached : full.length ≤ reached) :
    tensors = full.map some := by
  apply List.ext_getElem?
  intro i
  rw [List.getElem?_map]
  by_cases hi : i < reached
  · exact h.rows i hi
  · rw [List.getElem?_eq_none (by rw [h.length]; omega), List.getElem?_eq_none (by omega)]
    rfl

omit [DecidableEq κ] in
/-- A chunk that starts among the rows that have been copied. -/
theorem Filled.copy {full : List R} {reached start n : Nat} {tensors : LogprobsTensors R}
    (h : Filled full reached tensors) (hstart : start ≤ reached) (hfits : start + n ≤ full.length) :
    ∃ copied, copyRows (κ := κ) start ((full.drop start).take n) tensors = .ok copied ∧
      Filled full (max reached (start + n)) copied := by
  have hlen : ((full.drop start).take n).length = n := by
    rw [List.length_take, List.length_drop]
    omega
  have htake : (tensors.take start).length = start := by
    rw [List.length_take, h.length]
    omega
  refine ⟨tensors.take start ++ (((full.drop start).take n).map some ++ tensors.drop (start + n)),
    ?_, ?_⟩
  · rw [copyRows, hlen, require_ok (by rw [h.length]; exact hfits)]
    rfl
  · exact
      { length := by
          rw [List.length_append, List.length_append, List.length_map, htake, hlen,
            List.length_drop, h.length]
          omega
        rows := fun i hi => by
          rcases Nat.lt_or_ge i start with hbefore | hbehind
          · rw [List.getElem?_append_left (by omega), List.getElem?_take, if_pos hbefore]
            exact h.rows i (by omega)
          · rw [List.getElem?_append_right (by omega), htake]
            by_cases hchunk : i - start < n
            · rw [List.getElem?_append_left (by rw [List.length_map]; omega), List.getElem?_map,
                List.getElem?_take, if_pos hchunk, List.getElem?_drop, Nat.add_sub_cancel' hbehind]
            · rw [List.getElem?_append_right (by rw [List.length_map]; omega), List.length_map,
                hlen, List.getElem?_drop]
              have hindex : start + n + (i - start - n) = i := by omega
              rw [hindex]
              exact h.rows i (by omega) }

/-! ## One request -/

section Request

variable {env : Env H L R} {hidden : List Int → Nat → H} {ledger : Ledger κ} {step : Step κ H}

theorem length_promptRows (env : Env H L R) (hidden : List Int → Nat → H) (n : Nat)
    (prompt : List Int) : (promptRows env hidden n prompt).length = prompt.length - 1 := by
  rw [promptRows, List.length_zipWith, List.length_range, List.length_tail, Nat.min_self]

theorem getElem?_promptRows {n i : Nat} {prompt : List Int} :
    (promptRows env hidden n prompt)[i]? = (prompt[i + 1]?).map fun token =>
      env.gatherLogprobs (env.scores (env.computeLogits (hidden prompt i))) n token := by
  by_cases hi : i < prompt.length - 1
  · have hlt : i + 1 < prompt.length := by omega
    rw [promptRows, List.getElem?_zipWith, List.getElem?_range hi, List.getElem?_tail,
      List.getElem?_eq_getElem hlt]
    rfl
  · rw [List.getElem?_eq_none (by rw [length_promptRows]; omega),
      List.getElem?_eq_none (by omega)]
    rfl

/-- The hidden states of a request, cut from those of the batch. -/
theorem hiddenStates_slice {rows : κ → List H} {n : κ → Nat} {ids : List κ} {id : κ}
    (hid : id ∈ ids) (hlen : ∀ q ∈ ids, (rows q).length = n q) {j : Nat} (hj : j < n id) :
    (ids.flatMap rows)[(cuSeqlens 0 (ids.map n)).getD (ids.idxOf id) 0 + j]? = (rows id)[j]? := by
  have hidx : ids.idxOf id < ids.length := List.idxOf_lt_length_iff.mpr hid
  have hget : ids[ids.idxOf id]? = some id := List.getElem?_idxOf hid
  have hoffset : (cuSeqlens 0 (ids.map n)).getD (ids.idxOf id) 0 =
      ((ids.take (ids.idxOf id)).map fun q => (rows q).length).sum := by
    rw [List.getD_eq_getElem?_getD,
      getElem?_cuSeqlens 0 _ (by rw [List.length_map]; exact Nat.le_of_lt hidx), Option.getD_some,
      Nat.zero_add, ← List.map_take]
    exact congrArg List.sum
      (List.map_congr_left fun q hq => (hlen q (List.mem_of_mem_take hq)).symm)
  rw [hoffset]
  exact getElem?_flatMap_add hget (by rw [hlen id hid]; exact hj)

theorem Step.Ok.mem_reqIds (h : step.Ok env hidden ledger) {id : κ} {numTokens : Nat}
    (hid : get id step.numScheduledTokens = some numTokens) : id ∈ step.reqIds :=
  h.order.mem_iff.mpr (mem_keys_iff.mpr (by rw [hid]; rfl))

/-- The rows of a chunk are those of the whole prompt. -/
theorem chunkRows_eq (h : step.Ok env hidden ledger) {p : Pending κ}
    (hp : p ∈ (ledger.arrive env step).pending) {prompt : List Int}
    (hprompt : p.promptTokenIds = some prompt) {start numTokens k : Nat}
    (hstart : get p.reqId step.starts = some start)
    (hcount : get p.reqId step.numScheduledTokens = some numTokens) (hk : k ≤ numTokens)
    (hfits : start + k < prompt.length) :
    chunkRows env step p.reqId p.numPromptLogprobs prompt start k =
      .ok (((promptRows env hidden p.numPromptLogprobs prompt).drop start).take k) := by
  obtain ⟨rows, hstates, hlen, hrows⟩ := h.rows
  have hid := h.mem_reqIds hcount
  have hn : step.numTokens p.reqId = numTokens := by rw [Step.numTokens, hcount, Option.getD_some]
  rw [chunkRows, require_ok hid, ok_bind]
  refine congrArg Except.ok ?_
  apply List.ext_getElem?
  intro j
  by_cases hj : j < k
  · have hstate : step.hiddenStates[(cuSeqlens 0 (step.reqIds.map step.numTokens)).getD
        (step.reqIds.idxOf p.reqId) 0 + j]? = some (hidden prompt (start + j)) := by
      rw [hstates, hiddenStates_slice hid hlen (by omega)]
      exact hrows p hp prompt hprompt start hstart j (by omega) (by omega)
    have htoken : start + j + 1 < prompt.length := by omega
    rw [List.getElem?_zipWith, List.map_map, List.getElem?_map, List.getElem?_take, if_pos hj,
      List.getElem?_drop, hstate, List.getElem?_take, if_pos hj, List.getElem?_drop,
      List.getElem?_take, if_pos hj, List.getElem?_drop, getElem?_promptRows,
      Nat.add_right_comm start 1 j, List.getElem?_eq_getElem htoken]
    rfl
  · rw [List.getElem?_eq_none, List.getElem?_eq_none]
    · rw [List.length_take]
      omega
    · simp only [List.length_zipWith, List.length_map, List.length_take]
      omega

/-- The state of a request that waits: its tensors hold the rows of the tokens that have been
computed. -/
structure Waits (env : Env H L R) (hidden : List Int → Nat → H) (p : Pending κ)
    (state : CachedRequestState R) : Prop where
  prompt : state.promptTokenIds = p.promptTokenIds
  tensors : ∀ prompt, p.promptTokenIds = some prompt → p.reached < prompt.length ∧
    Filled (promptRows env hidden p.numPromptLogprobs prompt) p.reached
      (state.inProgressPromptLogprobsCpu.getD (List.replicate (prompt.length - 1) none))

omit [DecidableEq κ] in
theorem logprobsTensors_eq {prompt : List Int} (hprompt : 0 < prompt.length)
    (request : CachedRequestState R) :
    request.logprobsTensors (κ := κ) prompt.length = .ok
      (request.inProgressPromptLogprobsCpu.getD (List.replicate (prompt.length - 1) none)) := by
  rw [CachedRequestState.logprobsTensors]
  cases request.inProgressPromptLogprobsCpu with
  | some tensors => rfl
  | none =>
      have hnat : ((prompt.length : Int) - 1).toNat = prompt.length - 1 := by omega
      show emptyCpu _ = _
      rw [emptyCpu, require_ok (by omega), hnat]
      rfl

/-- The copy of a chunk, which may be empty. -/
theorem fillChunk_eq (h : step.Ok env hidden ledger) {p : Pending κ}
    (hp : p ∈ (ledger.arrive env step).pending) {prompt : List Int}
    (hprompt : p.promptTokenIds = some prompt) {start numTokens k : Nat}
    (hstart : get p.reqId step.starts = some start) (hcovered : start ≤ p.reached)
    (hcount : get p.reqId step.numScheduledTokens = some numTokens) (hk : k ≤ numTokens)
    (hfits : start + k < prompt.length) {tensors : LogprobsTensors R}
    (hfilled : Filled (promptRows env hidden p.numPromptLogprobs prompt) p.reached tensors) :
    ∃ copied, fillChunk env step p.reqId p.numPromptLogprobs prompt start k tensors = .ok copied ∧
      Filled (promptRows env hidden p.numPromptLogprobs prompt) (max p.reached (start + k))
        copied := by
  by_cases hzero : (k : Int) ≤ 0
  · obtain rfl : k = 0 := by omega
    refine ⟨tensors, if_pos hzero, ?_⟩
    rw [Nat.add_zero, Nat.max_eq_left hcovered]
    exact hfilled
  · have hlen : start + k ≤ (promptRows env hidden p.numPromptLogprobs prompt).length := by
      rw [length_promptRows]
      omega
    obtain ⟨copied, hcopied, hafter⟩ := hfilled.copy (κ := κ) hcovered hlen
    refine ⟨copied, ?_, hafter⟩
    rw [fillChunk, if_neg hzero, Int.toNat_natCast,
      chunkRows_eq h hp hprompt hstart hcount hk hfits, ok_bind]
    exact hcopied

theorem Step.Ok.start_of_count (h : step.Ok env hidden ledger) {id : κ} {numTokens : Nat}
    (hcount : get id step.numScheduledTokens = some numTokens) :
    ∃ start, get id step.starts = some start ∧ step.reaches id = some (start + numTokens) := by
  have hkey := h.scheduled id (mem_keys_iff.mpr (by rw [hcount]; rfl))
  obtain ⟨start, hstart⟩ := Option.isSome_iff_exists.mp (mem_keys_iff.mp hkey)
  refine ⟨start, hstart, ?_⟩
  rw [Step.reaches, hstart, hcount]
  rfl

/-- The logits of a chunk end before the last token of the prompt, and with it where the chunk
does not. -/
theorem exists_numLogits {start length : Nat} (hstart : start < length) (numTokens : Nat) :
    ∃ k, k ≤ numTokens ∧ start + k < length ∧
      (if (!decide (length ≤ start + numTokens)) = true
        then (numTokens : Int) else (length : Int) - (start + 1)) = (k : Int) ∧
      (length ≤ start + numTokens → length = start + k + 1) ∧
      (¬length ≤ start + numTokens → k = numTokens) := by
  by_cases hend : length ≤ start + numTokens
  · refine ⟨length - (start + 1), by omega, by omega, ?_, fun _ => by omega, absurd hend⟩
    rw [decide_eq_true hend, Bool.not_true, if_neg Bool.false_ne_true]
    omega
  · refine ⟨numTokens, Nat.le_refl _, by omega, ?_, fun h => absurd h hend, fun _ => rfl⟩
    rw [decide_eq_false hend, Bool.not_false, if_pos rfl]

/-- The loop body, for a request that waits. -/
theorem collect_eq (h : step.Ok env hidden ledger) {p : Pending κ}
    (hp : p ∈ (ledger.arrive env step).pending) {c : Collecting κ R}
    {state : CachedRequestState R} (hstate : c.requests p.reqId = some state)
    (hcomputed : ∀ start, get p.reqId step.starts = some start → state.numComputedTokens = start)
    (hwaits : Waits env hidden p state) :
    ∃ state', collect env step c (p.reqId, p.numPromptLogprobs) = .ok {
        requests := Function.update c.requests p.reqId (some state')
        promptLogprobsDict := c.promptLogprobsDict ++
          (if p.completes step then [p.entry env hidden] else [])
        completedPrefillReqs := c.completedPrefillReqs ++
          (if p.completes step then [p.reqId] else []) } ∧
      (p.completes step = false → Waits env hidden (p.advance step) state') := by
  have hidle : collect env step c (p.reqId, p.numPromptLogprobs) = .ok c →
      p.completes step = false → Waits env hidden (p.advance step) state →
      ∃ state', collect env step c (p.reqId, p.numPromptLogprobs) = .ok {
          requests := Function.update c.requests p.reqId (some state')
          promptLogprobsDict := c.promptLogprobsDict ++
            (if p.completes step then [p.entry env hidden] else [])
          completedPrefillReqs := c.completedPrefillReqs ++
            (if p.completes step then [p.reqId] else []) } ∧
        (p.completes step = false → Waits env hidden (p.advance step) state') := by
    intro hcollect hnot hadvance
    refine ⟨state, ?_, fun _ => hadvance⟩
    rw [hcollect, hnot, ← hstate, Function.update_eq_self, if_neg Bool.false_ne_true,
      if_neg Bool.false_ne_true, List.append_nil, List.append_nil]
  cases hcount : get p.reqId step.numScheduledTokens with
  | none =>
      have hreaches : step.reaches p.reqId = none := by
        rw [Step.reaches, hcount]
        cases get p.reqId step.starts <;> rfl
      have hadvance : p.advance step = p := by
        rw [Pending.advance, hreaches, Option.getD_none, Nat.max_zero]
      refine hidle (by simp only [collect, hcount]) ?_ (hadvance.symm ▸ hwaits)
      rw [Pending.completes, hreaches]
      cases p.promptTokenIds <;> rfl
  | some numTokens =>
      obtain ⟨start, hstart, hreaches⟩ := h.start_of_count hcount
      cases hprompt : p.promptTokenIds with
      | none =>
          refine hidle ?_ (by rw [Pending.completes, hprompt])
            ⟨hwaits.prompt, fun prompt hsome =>
              absurd (hsome.symm.trans hprompt) (Option.some_ne_none prompt)⟩
          simp only [collect, hcount, hstate, hwaits.prompt, hprompt]
      | some prompt =>
          obtain ⟨hopen, hfilled⟩ := hwaits.tensors prompt hprompt
          have hcovered := h.covered p hp (by rw [hprompt]; rfl) start hstart
          have hcompletes : p.completes step = decide (prompt.length ≤ start + numTokens) := by
            rw [Pending.completes, hprompt, hreaches]
          have hisChunk : decide ((numTokens : Int) ≤ (prompt.length : Int) - (start + 1)) =
              !decide (prompt.length ≤ start + numTokens) := by
            rw [← decide_not]
            exact decide_eq_decide.mpr (by omega)
          obtain ⟨k, hk, hfits, hlogits, hlast, hchunk⟩ :=
            exists_numLogits (Nat.lt_of_le_of_lt hcovered hopen) numTokens
          obtain ⟨copied, hcopied, hafter⟩ :=
            fillChunk_eq h hp hprompt hstart hcovered hcount hk hfits hfilled
          refine ⟨{ state with inProgressPromptLogprobsCpu := some copied }, ?_, ?_⟩
          · simp only [collect, hcount, hstate, hwaits.prompt, hprompt, hcomputed start hstart,
              logprobsTensors_eq (Nat.zero_lt_of_lt hopen), ok_bind, hisChunk, hlogits, hcopied,
              hcompletes]
            by_cases hend : prompt.length ≤ start + numTokens
            · have hentry : p.entry env hidden = (p.reqId, copied) := by
                rw [Pending.entry, hprompt, Option.getD_some, hafter.eq]
                rw [length_promptRows, hlast hend]
                omega
              rw [decide_eq_true hend, if_pos rfl, if_pos rfl, hentry]
              rfl
            · rw [decide_eq_false hend, if_neg Bool.false_ne_true, if_neg Bool.false_ne_true,
                List.append_nil, List.append_nil]
              rfl
          · intro hnot
            rw [hcompletes] at hnot
            have hend := of_decide_eq_false hnot
            obtain rfl := hchunk hend
            have hreached : (p.advance step).reached = max p.reached (start + k) := by
              rw [Pending.advance, hreaches]
              rfl
            refine ⟨hwaits.prompt, fun prompt' hsome => ?_⟩
            obtain rfl := Option.some.inj (hprompt.symm.trans hsome)
            rw [hreached]
            exact ⟨Nat.max_lt.mpr ⟨hopen, hfits⟩, hafter⟩

/-- The loop over the requests that wait. -/
theorem foldlM_collect (h : step.Ok env hidden ledger) {ps : List (Pending κ)}
    (hps : ∀ p ∈ ps, p ∈ (ledger.arrive env step).pending)
    (hnodup : (ps.map Pending.reqId).Nodup) (c : Collecting κ R)
    (hwaits : ∀ p ∈ ps, ∃ state, c.requests p.reqId = some state ∧
      (∀ start, get p.reqId step.starts = some start → state.numComputedTokens = start) ∧
      Waits env hidden p state) :
    ∃ c', (ps.map fun p => (p.reqId, p.numPromptLogprobs)).foldlM (collect env step) c = .ok c' ∧
      c'.promptLogprobsDict = c.promptLogprobsDict ++
        (ps.filter (Pending.completes step)).map (Pending.entry env hidden) ∧
      c'.completedPrefillReqs = c.completedPrefillReqs ++
        (ps.filter (Pending.completes step)).map Pending.reqId ∧
      (∀ id ∉ ps.map Pending.reqId, c'.requests id = c.requests id) ∧
      ∀ p ∈ ps, ∃ state, c'.requests p.reqId = some state ∧
        (p.completes step = false → Waits env hidden (p.advance step) state) := by
  induction ps generalizing c with
  | nil => exact ⟨c, rfl, (List.append_nil _).symm, (List.append_nil _).symm, fun _ _ => rfl, nofun⟩
  | cons p ps ih =>
      obtain ⟨hnot, hrest⟩ := List.nodup_cons.mp hnodup
      obtain ⟨state, hstate, hcomputed, hp⟩ := hwaits p List.mem_cons_self
      obtain ⟨state', hcollect, hafter⟩ :=
        collect_eq h (hps p List.mem_cons_self) hstate hcomputed hp
      have hne : ∀ q ∈ ps, q.reqId ≠ p.reqId := fun q hq heq =>
        hnot (heq ▸ List.mem_map_of_mem hq)
      let next : Collecting κ R := {
        requests := Function.update c.requests p.reqId (some state')
        promptLogprobsDict := c.promptLogprobsDict ++
          (if p.completes step then [p.entry env hidden] else [])
        completedPrefillReqs := c.completedPrefillReqs ++
          (if p.completes step then [p.reqId] else []) }
      obtain ⟨c', hrun, hdict, hcompleted, hframe, hstates⟩ :=
        ih (fun q hq => hps q (List.mem_cons_of_mem p hq)) hrest next fun q hq => by
          obtain ⟨other, hother, hrest⟩ := hwaits q (List.mem_cons_of_mem p hq)
          exact ⟨other, (Function.update_of_ne (hne q hq) _ _).trans hother, hrest⟩
      refine ⟨c', ?_, ?_, ?_, fun id hid => ?_, fun q hq => ?_⟩
      · rw [List.map_cons, List.foldlM_cons, hcollect, ok_bind]
        exact hrun
      · rw [hdict, List.append_assoc, List.filter_cons]
        congr 1
        cases p.completes step <;> rfl
      · rw [hcompleted, List.append_assoc, List.filter_cons]
        congr 1
        cases p.completes step <;> rfl
      · obtain ⟨hid, hothers⟩ := not_or.mp (mt List.mem_cons.mpr hid)
        rw [hframe id hothers]
        exact Function.update_of_ne hid _ _
      · rcases List.mem_cons.mp hq with rfl | hmem
        · refine ⟨state', ?_, hafter⟩
          rw [hframe _ hnot]
          exact Function.update_self ..
        · exact hstates q hmem

end Request

end FlashNext.Ports.PromptLogprobs
