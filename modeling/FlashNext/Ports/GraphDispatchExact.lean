import FlashNext.Ports.GraphDispatchTable

/-!
# When dispatch finds a graph

The table offers one token count per mode.  A graph that serves the shape is
found exactly when no other graph of its mode and LoRA case, with enough
tokens but of the wrong kind, has fewer tokens than all that serve it.
-/

namespace FlashNext.Ports.GraphDispatch

variable {cfg : Config} {shape : Shape}

/-! ## What dispatch promises -/

/-- The descriptors captured, in the order of the capture. -/
def Config.captured (cfg : Config) : List BatchExecutionDescriptor :=
  cfg.captureDescs .piecewise ++ cfg.captureDescs .full

/-- A descriptor serves a shape at its effective LoRA case. -/
def Serves (cfg : Config) (shape : Shape) (desc : BatchExecutionDescriptor) : Prop :=
  isCompatible desc shape (cfg.resolveEffectiveLoras shape.numActiveLoras) = true

/-- The result is a graph of a mode that serves the shape with the fewest
tokens. -/
structure Fewest (cfg : Config) (shape : Shape) (mode : Mode)
    (result : BatchExecutionDescriptor) : Prop where
  captured : result ∈ cfg.captureDescs mode
  serves : Serves cfg shape result
  least : ∀ d ∈ cfg.captureDescs mode, Serves cfg shape d → result.numTokens ≤ d.numTokens

/-- Some captured graph of a mode serves the shape. -/
def Served (cfg : Config) (shape : Shape) (mode : Mode) : Prop :=
  ∃ d ∈ cfg.captureDescs mode, Serves cfg shape d

/-- A full graph if one serves, else a piecewise one, else an eager step. -/
structure Dispatched (cfg : Config) (shape : Shape) (result : BatchExecutionDescriptor) :
    Prop where
  sound : result ∈ cfg.captured → Serves cfg shape result
  full : Served cfg shape .full → Fewest cfg shape .full result
  piecewise : ¬ Served cfg shape .full → Served cfg shape .piecewise →
    Fewest cfg shape .piecewise result
  eager : ¬ Served cfg shape .full → ¬ Served cfg shape .piecewise →
    result = eagerDesc shape (cfg.resolveEffectiveLoras shape.numActiveLoras)

/-- A graph of the same mode and LoRA case with enough tokens, but fewer than
every graph that serves the shape. -/
def Shadowed (cfg : Config) (shape : Shape) (mode : Mode) : Prop :=
  Served cfg shape mode ∧ ∃ e ∈ cfg.captureDescs mode,
    e.numActiveLoras = cfg.resolveEffectiveLoras shape.numActiveLoras ∧
      shape.numTokens ≤ e.numTokens ∧
      ∀ d ∈ cfg.captureDescs mode, Serves cfg shape d → e.numTokens < d.numTokens

instance (d : BatchExecutionDescriptor) : Decidable (Serves cfg shape d) :=
  inferInstanceAs (Decidable (_ = true))

instance (mode : Mode) : Decidable (Served cfg shape mode) :=
  inferInstanceAs (Decidable (∃ d ∈ cfg.captureDescs mode, Serves cfg shape d))

instance (mode : Mode) : Decidable (Shadowed cfg shape mode) :=
  inferInstanceAs (Decidable (Served cfg shape mode ∧ ∃ e ∈ cfg.captureDescs mode,
    e.numActiveLoras = cfg.resolveEffectiveLoras shape.numActiveLoras ∧
      shape.numTokens ≤ e.numTokens ∧
      ∀ d ∈ cfg.captureDescs mode, Serves cfg shape d → e.numTokens < d.numTokens))

theorem serves_iff {d : BatchExecutionDescriptor} :
    Serves cfg shape d ↔
      (d.uniformTokenCount = none ∨ d.uniformTokenCount = shape.uniformTokenCount) ∧
        (∀ bound, d.maxQueryLen = some bound → ∃ len ≤ bound, shape.maxQueryLen = some len) ∧
        (∀ reqs, d.numReqs = some reqs → shape.numReqs ≤ reqs) ∧
        shape.numTokens ≤ d.numTokens ∧
        d.numActiveLoras = cfg.resolveEffectiveLoras shape.numActiveLoras := by
  obtain ⟨mode, tokens, reqs, uniform, bound, loras⟩ := d
  unfold Serves isCompatible
  simp only [Bool.and_eq_true, Bool.or_eq_true, beq_iff_eq, decide_eq_true_eq, and_assoc]
  cases bound <;> cases reqs <;> cases shape.maxQueryLen <;> simp

theorem Serves.loras {d : BatchExecutionDescriptor} (h : Serves cfg shape d) :
    d.numActiveLoras = cfg.resolveEffectiveLoras shape.numActiveLoras :=
  (serves_iff.mp h).2.2.2.2

theorem Serves.tokens {d : BatchExecutionDescriptor} (h : Serves cfg shape d) :
    shape.numTokens ≤ d.numTokens :=
  (serves_iff.mp h).2.2.2.1

/-! ## One mode -/

/-- The cell of the shape. -/
def shapeCell (cfg : Config) (shape : Shape) (mode : Mode) : List BatchExecutionDescriptor :=
  cell cfg mode shape.numTokens (cfg.resolveEffectiveLoras shape.numActiveLoras)

theorem fewest_of_mem_cell {mode : Mode} {d : BatchExecutionDescriptor}
    (hmem : d ∈ shapeCell cfg shape mode) (hserves : Serves cfg shape d) :
    Fewest cfg shape mode d := by
  obtain ⟨⟨hd, -⟩, -, hleast⟩ := mem_cell.mp hmem
  exact ⟨hd, hserves, fun e he hes => hleast e he hes.loras hes.tokens⟩

/-- The cell misses exactly when the mode is shadowed or has no graph for the
shape. -/
theorem cell_misses_iff {mode : Mode} :
    (∀ d ∈ shapeCell cfg shape mode, ¬ Serves cfg shape d) ↔
      ¬ Served cfg shape mode ∨ Shadowed cfg shape mode := by
  constructor
  · intro hmiss
    by_cases hserved : Served cfg shape mode
    · right
      obtain ⟨d₀, hd₀, hserves₀⟩ := hserved
      obtain ⟨e, he⟩ := exists_mem_cell hd₀ hserves₀.loras hserves₀.tokens
      obtain ⟨⟨hmem, hloras⟩, htokens, hleast⟩ := mem_cell.mp he
      refine ⟨⟨d₀, hd₀, hserves₀⟩, e, hmem, hloras, htokens, ?_⟩
      intro d hd hserves
      apply Nat.lt_of_le_of_ne (hleast d hd hserves.loras hserves.tokens)
      -- with as few tokens the graph would be in the cell
      intro heq
      refine hmiss d (mem_cell.mpr ⟨⟨hd, hserves.loras⟩, hserves.tokens, ?_⟩) hserves
      intro e' he' hloras' htokens'
      rw [← heq]
      exact hleast e' he' hloras' htokens'
    · exact Or.inl hserved
  · rintro (hnone | ⟨-, e, he, hloras, htokens, hless⟩) d hd hserves
    · exact hnone ⟨d, (mem_cell.mp hd).1.1, hserves⟩
    · obtain ⟨⟨hdm, -⟩, -, hleast⟩ := mem_cell.mp hd
      have hle := hleast e he hloras htokens
      have hlt := hless d hdm hserves
      omega

/-- A mode's cell serves the shape, or the mode is of no use to it. -/
theorem find_cell {mode : Mode} :
    (∃ d, (shapeCell cfg shape mode).find? (fun d => isCompatible d shape
        (cfg.resolveEffectiveLoras shape.numActiveLoras)) = some d ∧
        Fewest cfg shape mode d) ∨
      ((shapeCell cfg shape mode).find? (fun d => isCompatible d shape
        (cfg.resolveEffectiveLoras shape.numActiveLoras)) = none ∧
        (¬ Served cfg shape mode ∨ Shadowed cfg shape mode)) := by
  cases hfind : (shapeCell cfg shape mode).find? fun d => isCompatible d shape
      (cfg.resolveEffectiveLoras shape.numActiveLoras) with
  | none =>
      right
      refine ⟨rfl, cell_misses_iff.mp ?_⟩
      exact List.find?_eq_none.mp hfind
  | some d =>
      left
      exact ⟨d, rfl, fewest_of_mem_cell (List.mem_of_find?_eq_some hfind)
        (show isCompatible _ _ _ = true by simpa only using List.find?_some hfind)⟩

/-- No graph is served at a LoRA case that is not captured. -/
theorem not_mem_captureDescs (hsizes : cfg.captureSizes.Nodup) (hcases : cfg.loraCases.Nodup)
    {l : Nat} (hl : l ∉ cfg.loraCases) (mode : Mode) :
    ∀ d ∈ cfg.captureDescs mode, d.numActiveLoras ≠ l := by
  intro d hd hdl
  obtain ⟨_, _, hplan⟩ := descsByMode_planned hsizes hcases
  apply hl
  rw [← hdl]
  exact hplan.lora mode d (mem_captureDescs.mp hd)

/-- What dispatch returns: the first graph of the full cell that serves the
shape, else of the piecewise cell, else an eager step. -/
theorem dispatch_eq (hsizes : cfg.captureSizes.Nodup) (hcases : cfg.loraCases.Nodup)
    (ht : 0 < shape.numTokens) :
    dispatch cfg true shape =
      (((shapeCell cfg shape .full).find? fun d => isCompatible d shape
          (cfg.resolveEffectiveLoras shape.numActiveLoras)).or
        ((shapeCell cfg shape .piecewise).find? fun d => isCompatible d shape
          (cfg.resolveEffectiveLoras shape.numActiveLoras))).getD
        (eagerDesc shape (cfg.resolveEffectiveLoras shape.numActiveLoras)) := by
  have hcell : cfg.candidates shape.numTokens
      (cfg.resolveEffectiveLoras shape.numActiveLoras) =
        shapeCell cfg shape .full ++ shapeCell cfg shape .piecewise := by
    rw [candidates_eq hcases]
    by_cases hl : cfg.resolveEffectiveLoras shape.numActiveLoras ∈ cfg.loraCases
    · rw [if_pos hl]
      rfl
    · have hempty : ∀ mode, shapeCell cfg shape mode = [] := by
        intro mode
        apply List.eq_nil_iff_forall_not_mem.mpr
        intro d hd
        obtain ⟨⟨hmem, hloras⟩, -⟩ := mem_cell.mp hd
        exact not_mem_captureDescs hsizes hcases hl mode d hmem hloras
      rw [if_neg hl, hempty, hempty, List.append_nil]
  show (if true = true ∧ 0 < shape.numTokens then _ else _) = _
  rw [if_pos ⟨rfl, ht⟩, hcell, List.find?_append]

/-! ## The plan -/

theorem captured_cgMode (hsizes : cfg.captureSizes.Nodup) (hcases : cfg.loraCases.Nodup)
    (mode : Mode) : ∀ d ∈ cfg.captureDescs mode, d.cgMode = mode := by
  obtain ⟨_, _, hplan⟩ := descsByMode_planned hsizes hcases
  exact fun d hd => hplan.mode_eq mode d (mem_captureDescs.mp hd)

/-- No two captured descriptors are equal. -/
theorem captured_nodup (hsizes : cfg.captureSizes.Nodup) (hcases : cfg.loraCases.Nodup) :
    cfg.captured.Nodup := by
  obtain ⟨_, _, hplan⟩ := descsByMode_planned hsizes hcases
  have hmode : ∀ mode, (cfg.captureDescs mode).Nodup := fun mode =>
    (List.perm_insertionSort _ _).nodup_iff.mpr (hplan.nodup mode)
  apply List.Nodup.append (hmode _) (hmode _)
  intro d hpiecewise hfull
  have h := captured_cgMode hsizes hcases _ d hpiecewise
  rw [captured_cgMode hsizes hcases _ d hfull] at h
  cases h

theorem eagerDesc_not_captured (hsizes : cfg.captureSizes.Nodup) (hcases : cfg.loraCases.Nodup)
    (loras : Nat) : eagerDesc shape loras ∉ cfg.captured := by
  intro hmem
  rcases List.mem_append.mp hmem with h | h
  · exact Mode.noConfusion (captured_cgMode hsizes hcases _ _ h)
  · exact Mode.noConfusion (captured_cgMode hsizes hcases _ _ h)

theorem Fewest.sound {mode : Mode} {d : BatchExecutionDescriptor}
    (h : Fewest cfg shape mode d) : Served cfg shape mode := ⟨d, h.captured, h.serves⟩

/-! ## Dispatch -/

/-- Dispatch keeps its promise, and no graph is captured twice, exactly when
the full graphs are not shadowed, nor the piecewise ones where they are
needed. -/
theorem dispatch_complete_iff (cfg : Config) (hsizes : cfg.captureSizes.Nodup)
    (hcases : cfg.loraCases.Nodup) (shape : Shape) (ht : 0 < shape.numTokens) :
    cfg.captured.Nodup ∧ Dispatched cfg shape (dispatch cfg true shape) ↔
      ¬ Shadowed cfg shape .full ∧
        (Served cfg shape .full ∨ ¬ Shadowed cfg shape .piecewise) := by
  rw [and_iff_right (captured_nodup hsizes hcases), dispatch_eq hsizes hcases ht]
  rcases @find_cell cfg shape .full with
    ⟨d, hfind, hfewest⟩ | ⟨hfind, hmiss⟩
  · -- the full cell serves the shape
    rw [hfind]
    have hnot : ¬ Shadowed cfg shape .full := by
      intro hshadow
      exact cell_misses_iff.mpr (Or.inr hshadow) d (List.mem_of_find?_eq_some hfind)
        hfewest.serves
    refine iff_of_true ⟨?_, ?_, ?_, ?_⟩ ⟨hnot, Or.inl hfewest.sound⟩
    · exact fun _ => hfewest.serves
    · exact fun _ => hfewest
    · exact fun hno => absurd hfewest.sound hno
    · exact fun hno => absurd hfewest.sound hno
  · rw [hfind, Option.none_or]
    rcases @find_cell cfg shape .piecewise with
      ⟨d, hfind', hfewest⟩ | ⟨hfind', hmiss'⟩
    · -- the full cell misses and the piecewise one serves
      rw [hfind']
      have hmode : ¬ Fewest cfg shape .full d := by
        intro hfull
        have h := captured_cgMode hsizes hcases _ d hfull.captured
        rw [captured_cgMode hsizes hcases _ d hfewest.captured] at h
        cases h
      have hnot : ¬ Shadowed cfg shape .piecewise := by
        intro hshadow
        exact cell_misses_iff.mpr (Or.inr hshadow) d (List.mem_of_find?_eq_some hfind')
          hfewest.serves
      constructor
      · intro h
        exact ⟨fun hshadow => hmode (h.full hshadow.1), Or.inr hnot⟩
      · rintro ⟨hfull, -⟩
        have hnone : ¬ Served cfg shape .full := hmiss.resolve_right hfull
        exact ⟨fun _ => hfewest.serves, fun h => absurd h hnone, fun _ _ => hfewest,
          fun _ h => absurd hfewest.sound h⟩
    · -- both cells miss
      rw [hfind']
      have heager := @eagerDesc_not_captured cfg shape hsizes hcases
        (cfg.resolveEffectiveLoras shape.numActiveLoras)
      constructor
      · intro h
        have hfull : ¬ Served cfg shape .full := fun hserved =>
          heager (List.mem_append_right _ (h.full hserved).captured)
        refine ⟨fun hshadow => hfull hshadow.1, Or.inr ?_⟩
        intro hshadow
        exact heager (List.mem_append_left _ (h.piecewise hfull hshadow.1).captured)
      · rintro ⟨hfull, hpiecewise⟩
        have hnone : ¬ Served cfg shape .full := hmiss.resolve_right hfull
        have hnone' : ¬ Served cfg shape .piecewise :=
          hmiss'.resolve_right (hpiecewise.resolve_left hnone)
        exact ⟨fun h => absurd h heager, fun h => absurd h hnone, fun _ h => absurd h hnone',
          fun _ _ => rfl⟩

/-- Dynamic speculation with one or two draft tokens, full decode graphs for
four and eight tokens. -/
def dynamicConfig : Config where
  captureSizes := [4, 8]
  maxCudagraphCaptureSize := 512
  maxNumReqs := 8
  cudagraphMode := .separate .full .none
  decodeQueryLen := 3
  numSpeculativeTokens := 2
  denseSchedule := some [0, 2, 1]
  numSpeculativeTokens_lt := by decide

/-- Requests of two tokens each. -/
def pairs (numReqs : Nat) : Shape where
  numReqs := numReqs
  numTokens := 2 * numReqs
  uniformTokenCount := some 2

theorem dispatch_complete_iff_dynamic :
    dynamicConfig.captured.Nodup ∧
      Dispatched dynamicConfig (pairs 2) (dispatch dynamicConfig true (pairs 2)) :=
  (dispatch_complete_iff dynamicConfig (by decide) (by decide) (pairs 2) (by decide)).mpr
    (by decide)

/-- Three requests of two tokens run eagerly, although a graph of eight tokens
serves them: the one of six tokens is for requests of three. -/
theorem shadowed_graph_missed :
    dispatch dynamicConfig true (pairs 3) = eagerDesc (pairs 3) 0 ∧
      ¬ (dynamicConfig.captured.Nodup ∧
        Dispatched dynamicConfig (pairs 3) (dispatch dynamicConfig true (pairs 3))) := by
  have heager : dispatch dynamicConfig true (pairs 3) = eagerDesc (pairs 3) 0 := by decide
  refine ⟨heager, fun h => ?_⟩
  have hserved : Served dynamicConfig (pairs 3) .full := by decide
  have hcaptured := (h.2.full hserved).captured
  rw [heager] at hcaptured
  exact absurd hcaptured (by decide)

/-! ## One kind of graph per mode -/

/-- The kinds of descriptors a mode has. -/
inductive Kind (cfg : Config) (mode : Mode) (d : BatchExecutionDescriptor) : Prop where
  | uniform {n l q : Nat} (hq : q ∈ cfg.decodeQueryLens) (hd : d = uniformDesc cfg n l q)
      (hmode : mode = cfg.cudagraphMode.decodeMode)
      (hroutine : cfg.cudagraphMode.separateRoutine = true) (hvarlen : cfg.varlenDecode = false)
  | varlen {n l : Nat} (hd : d = varlenDesc cfg n l)
      (hmode : mode = cfg.cudagraphMode.decodeMode)
      (hroutine : cfg.cudagraphMode.separateRoutine = true) (hvarlen : cfg.varlenDecode = true)
  | mixed {n l : Nat} (hd : d = mixedDesc cfg n l) (hmode : mode = cfg.cudagraphMode.mixedMode)

theorem kind_addDecode {descs : DescsByMode} (h : ∀ mode, ∀ d ∈ descs mode, Kind cfg mode d)
    (n l : Nat) : ∀ mode, ∀ d ∈ addDecode cfg descs n l mode, Kind cfg mode d := by
  have huniform : cfg.cudagraphMode.separateRoutine = true → cfg.varlenDecode = false →
      ∀ (qs : List Nat) {descs : DescsByMode}, (∀ q ∈ qs, q ∈ cfg.decodeQueryLens) →
        (∀ mode, ∀ d ∈ descs mode, Kind cfg mode d) →
        ∀ mode, ∀ d ∈ qs.foldl (addUniform cfg n l) descs mode, Kind cfg mode d := by
    intro hroutine hvarlen qs
    induction qs with
    | nil => exact fun _ h => h
    | cons q qs ih =>
        intro descs hqs h
        apply ih fun q hq => hqs q (List.mem_cons_of_mem _ hq)
        simp only [addUniform]
        split
        · exact h
        · split
          · exact h
          · intro mode d hd
            rcases DescsByMode.mem_append.mp hd with hold | ⟨hnew, hmode⟩
            · exact h mode d hold
            · exact Kind.uniform (hqs q List.mem_cons_self) hnew hmode hroutine hvarlen
  simp only [addDecode]
  split
  · next hguard =>
      simp only [Bool.and_eq_true] at hguard
      intro mode d hd
      rcases DescsByMode.mem_append.mp hd with hold | ⟨hnew, hmode⟩
      · exact h mode d hold
      · exact Kind.varlen hnew hmode hguard.1.1.1 hguard.1.2
  · split
    · next hguard =>
        simp only [Bool.and_eq_true, Bool.not_eq_true'] at hguard
        exact huniform hguard.1.1 hguard.2 _ (fun _ hq => hq) h
    · exact h

theorem kind_of_mem {mode : Mode} {d : BatchExecutionDescriptor}
    (h : d ∈ cfg.captureDescs mode) : Kind cfg mode d := by
  have hfold : ∀ (sizes : List (Nat × Nat)) {descs : DescsByMode},
      (∀ mode, ∀ d ∈ descs mode, Kind cfg mode d) →
      ∀ mode, ∀ d ∈ sizes.foldl (addSize cfg) descs mode, Kind cfg mode d := by
    intro sizes
    induction sizes with
    | nil => exact fun h => h
    | cons size sizes ih =>
        intro descs h
        apply ih
        simp only [addSize]
        split
        · exact kind_addDecode h _ _
        · intro mode d hd
          rcases DescsByMode.mem_append.mp hd with hold | ⟨hnew, hmode⟩
          · exact kind_addDecode h _ _ mode d hold
          · exact Kind.mixed hnew hmode
  have hmem := mem_captureDescs.mp h
  unfold Config.descsByMode at hmem
  split at hmem
  · cases hmem
  · exact hfold _ (fun _ _ hd => by cases hd) mode d hmem

/-- A shape as a batch has it: a token for every request, and as many as the
uniform length asks. -/
structure Batch (cfg : Config) (shape : Shape) : Prop where
  reqs_le : shape.numReqs ≤ shape.numTokens
  reqs_max : shape.numReqs ≤ cfg.maxNumReqs
  uniform : ∀ q, shape.uniformTokenCount = some q → shape.numReqs * q ≤ shape.numTokens

theorem decodeQueryLens_pos {q : Nat} (hq : q ∈ cfg.decodeQueryLens) : 0 < q := by
  have hlt := cfg.numSpeculativeTokens_lt
  unfold Config.decodeQueryLens at hq
  split at hq
  · rw [List.mem_singleton.mp hq]
    omega
  · have hmem := (List.perm_insertionSort _ _).mem_iff.mp hq
    rw [List.mem_dedup, List.mem_map] at hmem
    obtain ⟨s, -, rfl⟩ := hmem
    omega

/-- With one decode query length, and decode and mixed batches in different
modes, no batch is shadowed. -/
theorem not_shadowed_of_one_length {q : Nat} (hlens : cfg.decodeQueryLens = [q])
    (hmodes : cfg.cudagraphMode.separateRoutine = true →
      cfg.cudagraphMode.decodeMode ≠ cfg.cudagraphMode.mixedMode)
    (hbatch : Batch cfg shape) (mode : Mode) : ¬ Shadowed cfg shape mode := by
  rintro ⟨⟨d, hd, hserves⟩, e, he, hloras, htokens, hless⟩
  have hreqs : shape.numReqs ≤ min e.numTokens cfg.maxNumReqs :=
    Nat.le_min.mpr ⟨Nat.le_trans hbatch.reqs_le htokens, hbatch.reqs_max⟩
  -- the graph that shadows is of the kind that serves, so it serves as well
  have hself : Serves cfg shape e := by
    rw [serves_iff] at hserves ⊢
    obtain ⟨huniform, hbound, -, -, -⟩ := hserves
    cases kind_of_mem he with
    | mixed heq hmode =>
        subst heq
        refine ⟨Or.inl rfl, nofun, ?_, htokens, hloras⟩
        intro reqs hsome
        change (if _ then _ else _) = _ at hsome
        split at hsome
        · rw [← Option.some.inj hsome]
          exact hreqs
        · cases hsome
    | varlen heq hmode hroutine hvarlen =>
        subst heq
        cases kind_of_mem hd with
        | mixed _ hmode' => exact absurd (hmode.symm.trans hmode') (hmodes hroutine)
        | uniform _ _ _ _ hvarlen' => rw [hvarlen] at hvarlen'; cases hvarlen'
        | varlen hdeq _ _ _ =>
            subst hdeq
            refine ⟨Or.inl rfl, hbound, ?_, htokens, hloras⟩
            intro reqs hsome
            rw [← Option.some.inj hsome]
            exact hreqs
    | uniform hq heq hmode hroutine hvarlen =>
        subst heq
        cases kind_of_mem hd with
        | mixed _ hmode' => exact absurd (hmode.symm.trans hmode') (hmodes hroutine)
        | varlen _ _ _ hvarlen' => rw [hvarlen] at hvarlen'; cases hvarlen'
        | uniform hq' hdeq _ _ _ =>
            subst hdeq
            have hpos := decodeQueryLens_pos hq
            rw [hlens] at hq hq'
            rw [List.mem_singleton] at hq hq'
            subst hq hq'
            have hshape := huniform.resolve_left nofun
            refine ⟨Or.inr hshape, nofun, ?_, htokens, hloras⟩
            intro reqs hsome
            rw [← Option.some.inj hsome, Nat.le_div_iff_mul_le hpos]
            exact Nat.le_trans (hbatch.uniform _ hshape.symm) htokens
  exact Nat.lt_irrefl _ (hless e he hself)

end FlashNext.Ports.GraphDispatch
