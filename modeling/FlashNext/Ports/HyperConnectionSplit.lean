import FlashNext.Ports.HyperConnection

/-!
# Delayed hyper-connections: the pipeline split

The reference combines every block output into the streams as soon as it is there.
A stage computes the reference on its own layers, so a cut loses and repeats nothing.
-/

namespace FlashNext.Ports.HyperConnection

open FlashNext.Verified.Checked

variable {α : Type} [Add α]

/-! ## The reference -/

/-- Every module combines with the same function, and mixes after it when it fuses. -/
structure CombineLaws (combine : Tensor α → Tensor α → Tensor α → Tensor α)
    (hc : GatedResidual α) : Prop where
  combine_eq : hc.combine = combine
  combineAndMix_eq : ∀ h out inj, hc.combineAndMix h out inj = hc.mix (combine h out inj)

variable (combine : Tensor α → Tensor α → Tensor α → Tensor α)

def DecoderLayer.eagerPle (layer : DecoderLayer α) (args : ForwardArgs α) (h : Tensor α) :
    Except ForwardError (Tensor α) :=
  match layer.ple with
  | none => .ok h
  | some ple => do
      let (inputIds, queryStartLoc, ngramContext) ← args.pleInputs
      return addTensor h (ple h inputIds queryStartLoc ngramContext)

/-- One layer that combines both of its block outputs itself. -/
def eagerLayer (hcCount : Nat) (args : ForwardArgs α) (h : Tensor α)
    (entry : DecoderLayer α × Nat) : Except ForwardError (Tensor α) := do
  let (layer, layerIdx) := entry
  let h ← layer.eagerPle args h
  let (h, blockInput, injection) := layer.attnHyperConnection.mix h
  let h := combine h (layer.attn.run blockInput args.positions) injection
  let (h, blockInput, injection) := layer.mlpHyperConnection.mix h
  let h := combine h (layer.mlp blockInput) injection
  match args.deepstack layerIdx with
  | none => return h
  | some deepstackEmbed => return addTensor h (repeatStreams hcCount deepstackEmbed)

/-- The final mixer on streams with nothing pending. -/
def ModelConfig.eagerOutput (config : ModelConfig α) (h : Tensor α) :
    Except ForwardError (StageOutput α) := do
  let (multiHidden, sampleHiddenStates, _) := config.finalMixer.mix h
  let buffer ← copyMtpHidden multiHidden config.mtpHiddenBuffer
  return .sampled sampleHiddenStates buffer

/-- The whole model without delayed combines. -/
def ModelConfig.eagerForward (config : ModelConfig α) (layers : List (DecoderLayer α))
    (args : ForwardArgs α) : Except ForwardError (StageOutput α) := do
  let h ← (config.stage true true 0 layers).input args none
  let h ← (layers.zipIdx 0).foldlM (eagerLayer combine config.hcCount args) h
  config.eagerOutput h

/-! ## What is pending -/

section Pending

omit [Add α]

/-- The streams with what is pending combined into them. -/
def Streams.combined (s : Streams α) : Tensor α :=
  match s.blockOutput, s.injection with
  | some out, some inj => combine s.hiddenStates out inj
  | _, _ => s.hiddenStates

variable {combine} {hc : GatedResidual α}

/-- Nothing is pending after `materialize`, so other streams stay as they are given. -/
theorem Streams.combined_materialize
    (combine : Tensor α → Tensor α → Tensor α → Tensor α) (hc : GatedResidual α)
    (s : Streams α) (x : Tensor α) :
    Streams.combined combine { s.materialize hc with hiddenStates := x } = x := by
  obtain ⟨h, out, inj⟩ := s
  cases out with
  | none => rfl
  | some out =>
      cases inj with
      | none => rfl
      | some inj => rfl

theorem Streams.materialize_eq (laws : CombineLaws combine hc) (s : Streams α) :
    (s.materialize hc).hiddenStates = s.combined combine := by
  obtain ⟨h, out, inj⟩ := s
  cases out with
  | none => rfl
  | some out =>
      cases inj with
      | none => rfl
      | some inj =>
          show hc.combine h out inj = combine h out inj
          rw [laws.combine_eq]

theorem Streams.mix_eq (laws : CombineLaws combine hc) (s : Streams α) :
    s.mix hc = hc.mix (s.combined combine) := by
  obtain ⟨h, out, inj⟩ := s
  cases out with
  | none => rfl
  | some out =>
      cases inj with
      | none => rfl
      | some inj => exact laws.combineAndMix_eq h out inj

end Pending

/-! ## One layer -/

/-- Both modules of a layer obey the laws. -/
structure LayerLaws (layer : DecoderLayer α) : Prop where
  attn : CombineLaws combine layer.attnHyperConnection
  mlp : CombineLaws combine layer.mlpHyperConnection

variable {combine} {hcCount : Nat} {layer : DecoderLayer α} {args : ForwardArgs α}

theorem DecoderLayer.addPle_view (args : ForwardArgs α) (laws : LayerLaws combine layer)
    (s : Streams α) :
    (layer.addPle args s).map (·.combined combine) =
      layer.eagerPle args (s.combined combine) := by
  unfold DecoderLayer.addPle DecoderLayer.eagerPle
  cases layer.ple with
  | none => rfl
  | some ple =>
      have hm := Streams.materialize_eq laws.attn s
      have hx := Streams.combined_materialize combine
        layer.attnHyperConnection s
      cases args.pleInputs with
      | error e => rfl
      | ok inputs =>
          have hsum : addTensor (s.materialize layer.attnHyperConnection).hiddenStates
              (ple (s.materialize layer.attnHyperConnection).hiddenStates
                inputs.1 inputs.2.1 inputs.2.2) =
              addTensor (s.combined combine)
                (ple (s.combined combine) inputs.1 inputs.2.1 inputs.2.2) := by rw [hm]
          exact congrArg Except.ok ((hx _).trans hsum)

theorem layerStep_view (hcCount : Nat) (args : ForwardArgs α)
    (laws : LayerLaws combine layer) (layerIdx : Nat) (s : LoopState α) :
    (layerStep hcCount args s (layer, layerIdx)).map (·.streams.combined combine) =
      eagerLayer combine hcCount args (s.streams.combined combine) (layer, layerIdx) := by
  have hple := layer.addPle_view args laws s.streams
  unfold layerStep eagerLayer DecoderLayer.forward
  dsimp only
  rw [← hple]
  cases layer.addPle args s.streams with
  | error e => rfl
  | ok t =>
      have hmix := Streams.mix_eq laws.attn t
      have hmlp := laws.mlp.combineAndMix_eq
      have hcombine := laws.mlp.combine_eq
      simp only [Except.map, bind, Except.bind, hmix, hmlp, hcombine]
      cases args.deepstack layerIdx with
      | none => rfl
      | some deepstackEmbed => rfl

/-- What a turn leaves behind. -/
structure LoopOk (combine : Tensor α → Tensor α → Tensor α → Tensor α)
    (s : LoopState α) : Prop where
  settled : s.lastLayer = none → s.streams.blockOutput = none
  laws : ∀ layer, s.lastLayer = some layer → CombineLaws combine layer.mlpHyperConnection

theorem layerStep_ok (laws : LayerLaws combine layer) {layerIdx : Nat} {s s' : LoopState α}
    (h : layerStep hcCount args s (layer, layerIdx) = .ok s') :
    LoopOk combine s' ∧ (args.deepstack layerIdx = none →
      ∃ h' out inj, s'.streams = ⟨h', some out, some inj⟩) := by
  obtain ⟨⟨h', out, inj⟩, _, h⟩ := bind_eq_ok.mp h
  have hloop : ∀ streams, LoopOk combine ⟨streams, some layer⟩ := fun streams =>
    { settled := fun hnone => by cases hnone
      laws := fun l hl => by
        cases hl
        exact laws.mlp }
  cases hd : args.deepstack layerIdx with
  | none =>
      rw [hd] at h
      cases h
      exact ⟨hloop _, fun _ => ⟨h', out, inj, rfl⟩⟩
  | some deepstackEmbed =>
      rw [hd] at h
      cases h
      exact ⟨hloop _, fun hnone => by cases hnone⟩

/-! ## One stage -/

/-- A layer reads the same of both arguments. -/
structure ReadsAlike (args args' : ForwardArgs α) (entry : DecoderLayer α × Nat) : Prop where
  ple : entry.1.ple = none ∨ args.pleInputs = args'.pleInputs
  positions : args.positions = args'.positions
  deepstack : args.deepstack entry.2 = args'.deepstack entry.2

omit [Add α] in
theorem ReadsAlike.refl (args : ForwardArgs α) (entry : DecoderLayer α × Nat) :
    ReadsAlike args args entry where
  ple := .inr rfl
  positions := rfl
  deepstack := rfl

theorem eagerLayer_congr {args args' : ForwardArgs α} {entry : DecoderLayer α × Nat}
    (halike : ReadsAlike args args' entry) (h : Tensor α) :
    eagerLayer combine hcCount args h entry = eagerLayer combine hcCount args' h entry := by
  obtain ⟨layer, layerIdx⟩ := entry
  have hple : layer.eagerPle args h = layer.eagerPle args' h := by
    unfold DecoderLayer.eagerPle
    rcases halike.ple with hnone | hinputs
    · rw [hnone]
    · rw [hinputs]
  unfold eagerLayer
  dsimp only
  rw [hple, halike.positions, halike.deepstack]

/-- Layers that obey the laws and read the same of both arguments. -/
def Fits (combine : Tensor α → Tensor α → Tensor α → Tensor α) (args args' : ForwardArgs α)
    (entries : List (DecoderLayer α × Nat)) : Prop :=
  ∀ entry ∈ entries, LayerLaws combine entry.1 ∧ ReadsAlike args args' entry

section Stage

variable {args' : ForwardArgs α} {entries : List (DecoderLayer α × Nat)} {s s' : LoopState α}

theorem stageLoop_view (hcCount : Nat) (hfits : Fits combine args args' entries) (s : LoopState α) :
    (entries.foldlM (layerStep hcCount args) s).map (·.streams.combined combine) =
      entries.foldlM (eagerLayer combine hcCount args') (s.streams.combined combine) := by
  refine foldlM_view fun entry hentry s => ?_
  have hview := layerStep_view hcCount args (hfits entry hentry).1 entry.2 s
  exact hview.trans (eagerLayer_congr (hfits entry hentry).2 _)

theorem stageLoop_ok (hcCount : Nat) (hfits : Fits combine args args' entries)
    (hs : LoopOk combine s) (h : entries.foldlM (layerStep hcCount args) s = .ok s') :
    LoopOk combine s' :=
  foldlM_invariant (fun entry hentry _ _ _ ht => (layerStep_ok (hfits entry hentry).1 ht).1)
    hs h

omit [Add α] in
theorem loopOk_start (h : Tensor α) : LoopOk combine ⟨⟨h, none, none⟩, none⟩ where
  settled := fun _ => rfl
  laws := fun _ hl => by cases hl

/-- The last layer leaves its output pending when it has no deepstack embeddings. -/
theorem stageLoop_pending (hcCount : Nat) {entry : DecoderLayer α × Nat}
    (hfits : Fits combine args args' (entries ++ [entry]))
    (hdeep : args.deepstack entry.2 = none)
    (h : (entries ++ [entry]).foldlM (layerStep hcCount args) s = .ok s') :
    ∃ h' out inj, s'.streams = ⟨h', some out, some inj⟩ := by
  rw [List.foldlM_append] at h
  obtain ⟨t, _, h⟩ := bind_eq_ok.mp h
  rw [List.foldlM_cons] at h
  obtain ⟨t', ht', h⟩ := bind_eq_ok.mp h
  cases h
  have hentry := hfits entry (List.mem_append_right entries List.mem_cons_self)
  exact (layerStep_ok hentry.1 ht').2 hdeep

section Output

variable (config : ModelConfig α) (first : Bool) (start : Nat) (layers : List (DecoderLayer α))

omit [Add α] in
theorem output_of_not_last (hs : LoopOk combine s) :
    (config.stage first false start layers).output s =
      .ok (.intermediateTensors (s.streams.combined combine)) := by
  obtain ⟨⟨h, out, inj⟩, lastLayer⟩ := s
  cases lastLayer with
  | none =>
      have hout : out = none := hs.settled rfl
      subst hout
      rfl
  | some lastLayer =>
      have heq := Streams.materialize_eq (hs.laws lastLayer rfl) ⟨h, out, inj⟩
      exact congrArg (fun x => Except.ok (StageOutput.intermediateTensors x)) heq

omit [Add α] in
theorem output_of_last (laws : CombineLaws combine config.finalMixer)
    (hpending : ∃ h out inj, s.streams = ⟨h, some out, some inj⟩) :
    (config.stage first true start layers).output s =
      config.eagerOutput (s.streams.combined combine) := by
  obtain ⟨h, out, inj, hstreams⟩ := hpending
  obtain ⟨streams, lastLayer⟩ := s
  subst hstreams
  have hmix := laws.combineAndMix_eq h out inj
  show (do
    let buffer ← copyMtpHidden (config.finalMixer.combineAndMix h out inj).1
      config.mtpHiddenBuffer
    pure (StageOutput.sampled (config.finalMixer.combineAndMix h out inj).2.1 buffer)) = _
  rw [hmix]
  rfl

end Output

variable {config : ModelConfig α} {first : Bool} {start : Nat}
  {layers : List (DecoderLayer α)}

/-- What a stage makes of its last streams it makes of the reference's. -/
theorem forward_of_output {last : Bool} {x : Option (Tensor α)} {h : Tensor α}
    {reference : Tensor α → Except ForwardError (StageOutput α)}
    (hfits : Fits combine args args' (layers.zipIdx start))
    (hinput : (config.stage first last start layers).input args x = .ok h)
    (houtput : ∀ s', (layers.zipIdx start).foldlM (layerStep config.hcCount args)
      ⟨⟨h, none, none⟩, none⟩ = .ok s' →
        (config.stage first last start layers).output s' =
          reference (s'.streams.combined combine)) :
    (config.stage first last start layers).forward args x =
      (layers.zipIdx start).foldlM (eagerLayer combine config.hcCount args') h >>=
        reference := by
  have hview := stageLoop_view config.hcCount hfits ⟨⟨h, none, none⟩, none⟩
  have hstart : Streams.combined combine (⟨h, none, none⟩ : Streams α) = h := rfl
  show ((config.stage first last start layers).input args x >>= fun h =>
    (layers.zipIdx start).foldlM (layerStep config.hcCount args)
      ⟨⟨h, none, none⟩, none⟩ >>= _) = _
  rw [hinput, ok_bind]
  rw [hstart] at hview
  rw [← hview]
  cases hrun : (layers.zipIdx start).foldlM (layerStep config.hcCount args)
      ⟨⟨h, none, none⟩, none⟩ with
  | error e => rfl
  | ok s' => exact houtput s' hrun

/-- A stage before the last hands on the reference's streams. -/
theorem forward_of_not_last (config : ModelConfig α) (first : Bool) {x : Option (Tensor α)}
    {h : Tensor α}
    (hfits : Fits combine args args' (layers.zipIdx start))
    (hinput : (config.stage first false start layers).input args x = .ok h) :
    (config.stage first false start layers).forward args x =
      ((layers.zipIdx start).foldlM (eagerLayer combine config.hcCount args') h).map
        .intermediateTensors := by
  have hmap : ∀ run : Except ForwardError (Tensor α), run.map StageOutput.intermediateTensors =
      run >>= fun h => .ok (.intermediateTensors h) := by
    intro run
    cases run <;> rfl
  rw [hmap]
  apply forward_of_output hfits hinput
  intro s' hrun
  exact output_of_not_last config first start layers
    (stageLoop_ok config.hcCount hfits (loopOk_start h) hrun)

/-- The last stage samples from the reference's streams. -/
theorem forward_of_last {x : Option (Tensor α)} {h : Tensor α}
    (laws : CombineLaws combine config.finalMixer)
    (hfits : Fits combine args args' (layers.zipIdx start)) (hne : layers ≠ [])
    (hdeep : args.deepstack (start + (layers.length - 1)) = none)
    (hinput : (config.stage first true start layers).input args x = .ok h) :
    (config.stage first true start layers).forward args x =
      (layers.zipIdx start).foldlM (eagerLayer combine config.hcCount args') h >>=
        config.eagerOutput := by
  have hlast : layers.zipIdx start = layers.dropLast.zipIdx start ++
      [(layers.getLast hne, start + (layers.length - 1))] := by
    conv_lhs => rw [← List.dropLast_append_getLast hne]
    rw [List.zipIdx_append, List.length_dropLast]
    rfl
  apply forward_of_output hfits hinput
  intro s' hrun
  rw [hlast] at hfits hrun
  exact output_of_last config first start layers laws
    (stageLoop_pending config.hcCount hfits hdeep hrun)

end Stage

/-! ## All stages -/

section Stages

variable {config : ModelConfig α} {args : Nat → ForwardArgs α} {args' : ForwardArgs α}
  {deepstackNumLevel : Nat} {parts : List (List (DecoderLayer α))}

/-- The number of deepstack embeddings of the step. -/
def ForwardArgs.deepstackCount (args : ForwardArgs α) : Nat :=
  (args.deepstackInputEmbeds.getD []).length

omit [Add α] in
theorem deepstack_eq_none {args : ForwardArgs α} {i : Nat} (h : args.deepstackCount ≤ i) :
    args.deepstack i = none := List.getElem?_eq_none h

omit [Add α] in
/-- A layer behind the deepstack layers and without PLE reads the positions alone. -/
theorem readsAlike_later {args args' : ForwardArgs α} {entry : DecoderLayer α × Nat}
    (hple : entry.1.ple = none) (hpos : args.positions = args'.positions)
    (hargs : args.deepstackCount ≤ entry.2) (hargs' : args'.deepstackCount ≤ entry.2) :
    ReadsAlike args args' entry where
  ple := .inl hple
  positions := hpos
  deepstack := (deepstack_eq_none hargs).trans (deepstack_eq_none hargs').symm

omit [Add α] in
theorem fits_later {args args' : ForwardArgs α} {layers : List (DecoderLayer α)} {start : Nat}
    (laws : ∀ layer ∈ layers, LayerLaws combine layer)
    (hple : ∀ layer ∈ layers, layer.ple = none) (hpos : args.positions = args'.positions)
    (hargs : args.deepstackCount ≤ start) (hargs' : args'.deepstackCount ≤ start) :
    Fits combine args args' (layers.zipIdx start) := by
  rintro ⟨layer, i⟩ hentry
  obtain ⟨hstart, _, hlayer⟩ := List.mem_zipIdx hentry
  have hmem : layer ∈ layers := hlayer ▸ List.getElem_mem _
  exact ⟨laws layer hmem, readsAlike_later (hple layer hmem) hpos
    (Nat.le_trans hargs hstart) (Nat.le_trans hargs' hstart)⟩

omit [Add α] in
/-- What a stage before the last hands on goes to the stages after it. -/
theorem runStages_cut {forward : Nat → Qwen4ExpModel α → Option (Tensor α) →
      Except ForwardError (StageOutput α)} (config : ModelConfig α) (first : Bool)
    (start : Nat) (layers next : List (DecoderLayer α)) (rest : List (List (DecoderLayer α)))
    (k : Nat) (x : Option (Tensor α)) :
    runStages forward k (config.stagesFrom first start (layers :: next :: rest)) x =
      forward k (config.stage first false start layers) x >>= fun out =>
        match out with
        | .intermediateTensors h => runStages forward (k + 1)
            (config.stagesFrom false (start + layers.length) (next :: rest)) (some h)
        | .sampled _ _ => .error .assertion := by
  cases rest with
  | nil => rfl
  | cons _ _ => rfl

/-- The stages after the first continue the reference from what they receive. -/
theorem runStages_later (laws : CombineLaws combine config.finalMixer)
    (hlayers : ∀ part ∈ parts, ∀ layer ∈ part, LayerLaws combine layer)
    (hple : ∀ part ∈ parts, ∀ layer ∈ part, layer.ple = none)
    (hpos : ∀ k, (args k).positions = args'.positions)
    (hcount : ∀ k, (args k).deepstackCount ≤ deepstackNumLevel)
    (hcount' : args'.deepstackCount ≤ deepstackNumLevel)
    (hne : ∀ part ∈ parts, part ≠ []) (hparts : parts ≠ [])
    {start : Nat} (hstart : deepstackNumLevel ≤ start) (k : Nat) (h : Tensor α) :
    runStages (fun k model => model.forward (args k)) k
        (config.stagesFrom false start parts) (some h) =
      (parts.flatten.zipIdx start).foldlM (eagerLayer combine config.hcCount args') h >>=
        config.eagerOutput := by
  induction parts generalizing k h start with
  | nil => exact absurd rfl hparts
  | cons layers rest ih =>
      have hfits : Fits combine (args k) args' (layers.zipIdx start) :=
        fits_later (hlayers layers List.mem_cons_self) (hple layers List.mem_cons_self)
          (hpos k) (Nat.le_trans (hcount k) hstart)
          (Nat.le_trans hcount' hstart)
      cases rest with
      | nil =>
          have hdeep : (args k).deepstack (start + (layers.length - 1)) = none := by
            apply deepstack_eq_none
            have := hcount k
            omega
          rw [List.flatten_cons, List.flatten_nil, List.append_nil]
          exact forward_of_last laws hfits (hne layers List.mem_cons_self) hdeep rfl
      | cons next rest =>
          have hforward := forward_of_not_last config false (x := some h) (h := h) hfits rfl
          have hnext := ih
            (fun part hpart => hlayers part (List.mem_cons_of_mem layers hpart))
            (fun part hpart => hple part (List.mem_cons_of_mem layers hpart))
            (fun part hpart => hne part (List.mem_cons_of_mem layers hpart))
            (List.cons_ne_nil next rest)
            (Nat.le_trans hstart (Nat.le_add_right start layers.length))
          rw [List.flatten_cons, List.zipIdx_append, List.foldlM_append,
            runStages_cut, hforward]
          cases (layers.zipIdx start).foldlM
              (eagerLayer combine config.hcCount args') h with
          | error e => rfl
          | ok h' => exact hnext (k + 1) h'

end Stages

/-! ## The split model is the whole model -/

section Split

variable {config : ModelConfig α} {parts : List (List (DecoderLayer α))}
  {args : Nat → ForwardArgs α} {deepstackNumLevel : Nat}

/-- A contiguous partition with the PLE and deepstack layers on the first stage, and
arguments that agree on the positions. -/
structure SplitOk (combine : Tensor α → Tensor α → Tensor α → Tensor α)
    (config : ModelConfig α) (parts : List (List (DecoderLayer α)))
    (args : Nat → ForwardArgs α) (deepstackNumLevel : Nat) : Prop where
  finalMixer : CombineLaws combine config.finalMixer
  layers : ∀ part ∈ parts, ∀ layer ∈ part, LayerLaws combine layer
  parts_ne : parts ≠ []
  part_ne : ∀ part ∈ parts, part ≠ []
  ple : ∀ part ∈ parts.tail, ∀ layer ∈ part, layer.ple = none
  positions : ∀ k, (args k).positions = (args 0).positions
  deepstackAssert : ∀ model ∈ config.stages parts, DeepstackAssert deepstackNumLevel model
  deepstackCount : ∀ k, (args k).deepstackCount ≤ deepstackNumLevel
  deepstackCount_lt : (args 0).deepstackCount < parts.flatten.length

omit [Add α] in
/-- The same layers on one stage. -/
theorem SplitOk.whole (h : SplitOk combine config parts args deepstackNumLevel) :
    SplitOk combine config [parts.flatten] args deepstackNumLevel where
  finalMixer := h.finalMixer
  layers := fun part hpart layer hlayer => by
    rw [List.mem_singleton.mp hpart] at hlayer
    obtain ⟨part, hpart, hlayer⟩ := List.mem_flatten.mp hlayer
    exact h.layers part hpart layer hlayer
  parts_ne := List.cons_ne_nil _ _
  part_ne := fun part hpart => by
    rw [List.mem_singleton.mp hpart]
    exact List.ne_nil_of_length_pos (Nat.zero_lt_of_lt h.deepstackCount_lt)
  ple := fun part hpart => by cases hpart
  positions := h.positions
  deepstackAssert := fun model hmodel hfirst => by
    rw [List.mem_singleton.mp hmodel] at hfirst
    cases hfirst
  deepstackCount := h.deepstackCount
  deepstackCount_lt := by simpa using h.deepstackCount_lt

omit [Add α] in
/-- The second stage starts behind the deepstack layers. -/
theorem SplitOk.deepstack_le {layers next : List (DecoderLayer α)}
    {rest : List (List (DecoderLayer α))}
    (h : SplitOk combine config (layers :: next :: rest) args deepstackNumLevel) :
    deepstackNumLevel ≤ 0 + layers.length := by
  cases rest with
  | nil => exact h.deepstackAssert _ (List.mem_cons_of_mem _ List.mem_cons_self) rfl
  | cons _ _ => exact h.deepstackAssert _ (List.mem_cons_of_mem _ List.mem_cons_self) rfl

theorem forward_of_input_error {model : Qwen4ExpModel α} {args : ForwardArgs α}
    {x : Option (Tensor α)} {e : ForwardError} (h : model.input args x = .error e) :
    model.forward args x = .error e := by
  show (model.input args x >>= _) = _
  rw [h]
  rfl

theorem runStages_eq_eager (h : SplitOk combine config parts args deepstackNumLevel) :
    runStages (fun k model => model.forward (args k)) 0 (config.stages parts) none =
      config.eagerForward combine parts.flatten (args 0) := by
  cases parts with
  | nil => exact absurd rfl h.parts_ne
  | cons layers rest =>
      have hfits : Fits combine (args 0) (args 0) (layers.zipIdx 0) := by
        rintro ⟨layer, i⟩ hentry
        obtain ⟨_, _, hlayer⟩ := List.mem_zipIdx hentry
        exact ⟨h.layers layers List.mem_cons_self layer (hlayer ▸ List.getElem_mem _),
          ReadsAlike.refl _ _⟩
      show _ = ((config.stage true true 0 []).input (args 0) none >>= fun x =>
        ((layers :: rest).flatten.zipIdx 0).foldlM
          (eagerLayer combine config.hcCount (args 0)) x >>= config.eagerOutput)
      cases hinput : (config.stage true true 0 []).input (args 0) none with
      | error e =>
          have hforward : ∀ b, (config.stage true b 0 layers).forward (args 0) none =
              .error e := fun b => forward_of_input_error hinput
          cases rest with
          | nil => exact hforward true
          | cons next rest =>
              rw [ModelConfig.stages, runStages_cut, hforward]
              rfl
      | ok x =>
          rw [ok_bind]
          cases rest with
          | nil =>
              have hdeep : (args 0).deepstack (0 + (layers.length - 1)) = none := by
                apply deepstack_eq_none
                have hlt := h.deepstackCount_lt
                rw [List.flatten_cons, List.flatten_nil, List.append_nil] at hlt
                omega
              rw [List.flatten_cons, List.flatten_nil, List.append_nil]
              exact forward_of_last h.finalMixer hfits
                (h.part_ne layers List.mem_cons_self) hdeep hinput
          | cons next rest =>
              have hforward := forward_of_not_last config true (x := none) hfits hinput
              have hlater := runStages_later h.finalMixer
                (fun part hpart => h.layers part (List.mem_cons_of_mem layers hpart))
                h.ple h.positions h.deepstackCount (h.deepstackCount 0)
                (fun part hpart => h.part_ne part (List.mem_cons_of_mem layers hpart))
                (List.cons_ne_nil next rest) h.deepstack_le 1
              rw [List.flatten_cons, List.zipIdx_append, List.foldlM_append,
                ModelConfig.stages, runStages_cut, hforward]
              cases (layers.zipIdx 0).foldlM
                  (eagerLayer combine config.hcCount (args 0)) x with
              | error e => rfl
              | ok x' => exact hlater x'

/-- The pipeline returns what one stage with all layers returns, and both return what
the reference returns, which combines each block output once, where it is produced. -/
theorem pipeline_eq_unsplit (h : SplitOk combine config parts args deepstackNumLevel) :
    runStages (fun k model => model.forward (args k)) 0 (config.stages parts) none =
        (config.stage true true 0 parts.flatten).forward (args 0) none ∧
      (config.stage true true 0 parts.flatten).forward (args 0) none =
        config.eagerForward combine parts.flatten (args 0) := by
  have hsplit := runStages_eq_eager h
  have hwhole := runStages_eq_eager h.whole
  rw [List.flatten_cons, List.flatten_nil, List.append_nil] at hwhole
  exact ⟨hsplit.trans hwhole.symm, hwhole⟩

/-! A PLE layer with deepstack embeddings on the first stage, a layer on the second. -/

def sumCombine (h out inj : Tensor Int) : Tensor Int := addTensor h (addTensor out inj)

def sumResidual (k : Int) : GatedResidual Int where
  combine := sumCombine
  mix := fun h => (h, h.map (·.map (· * k)), h.map (·.map (· + k)))
  combineAndMix := fun h out inj =>
    (sumCombine h out inj, (sumCombine h out inj).map (·.map (· * k)),
      (sumCombine h out inj).map (·.map (· + k)))

theorem sumResidual_laws (k : Int) : CombineLaws sumCombine (sumResidual k) where
  combine_eq := rfl
  combineAndMix_eq := fun _ _ _ => rfl

def pleLayer : DecoderLayer Int where
  ple := some fun h inputIds _ _ => h.zipWith (fun row id => row.map (· + id)) inputIds
  attn := .linearAttention fun x => x
  mlp := fun x => x
  attnHyperConnection := sumResidual 2
  mlpHyperConnection := sumResidual 3

def plainLayer : DecoderLayer Int where
  ple := none
  attn := .fullAttention fun x _ => x
  mlp := fun x => x
  attnHyperConnection := sumResidual 5
  mlpHyperConnection := sumResidual 7

def twoStageConfig : ModelConfig Int where
  hcCount := 2
  embedTokens := fun inputIds => inputIds.map ([·])
  finalMixer := sumResidual 1
  mtpHiddenBuffer := some [[0, 0], [0, 0], [0, 0]]

def twoStageArgs (_ : Nat) : ForwardArgs Int where
  inputIds := some [4, 6]
  positions := [[0, 1]]
  inputsEmbeds := none
  queryStartLoc := some [0, 2]
  ngramContext := some [[0]]
  deepstackInputEmbeds := some [[[10], [20]]]

theorem twoStages_ok :
    SplitOk sumCombine twoStageConfig [[pleLayer], [plainLayer]] twoStageArgs 1 where
  finalMixer := sumResidual_laws 1
  layers := fun part hpart layer hlayer => by
    simp only [List.mem_cons, List.not_mem_nil, or_false] at hpart
    rcases hpart with rfl | rfl
    · rw [List.mem_singleton.mp hlayer]
      exact ⟨sumResidual_laws 2, sumResidual_laws 3⟩
    · rw [List.mem_singleton.mp hlayer]
      exact ⟨sumResidual_laws 5, sumResidual_laws 7⟩
  parts_ne := List.cons_ne_nil _ _
  part_ne := by simp
  ple := by simp [plainLayer]
  positions := fun _ => rfl
  deepstackAssert := fun model hmodel hfirst => by
    simp only [ModelConfig.stages, ModelConfig.stagesFrom, List.mem_cons,
      List.not_mem_nil, or_false] at hmodel
    rcases hmodel with rfl | rfl
    · cases hfirst
    · exact Nat.le_refl 1
  deepstackCount := fun _ => Nat.le_refl 1
  deepstackCount_lt := Nat.lt_succ_self 1

theorem pipeline_eq_unsplit_twoStages :
    runStages (fun k model => model.forward (twoStageArgs k)) 0
        (twoStageConfig.stages [[pleLayer], [plainLayer]]) none =
        (twoStageConfig.stage true true 0 [pleLayer, plainLayer]).forward
          (twoStageArgs 0) none ∧
      (twoStageConfig.stage true true 0 [pleLayer, plainLayer]).forward
          (twoStageArgs 0) none =
        twoStageConfig.eagerForward sumCombine [pleLayer, plainLayer] (twoStageArgs 0) :=
  pipeline_eq_unsplit twoStages_ok

/-! ## The call from the multimodal model -/

/-- What `conditionalForward` hands to the stage: embeddings and deepstack embeddings
reach the first rank alone. -/
def stageArgs (getDeepstackInputEmbeds : Nat → Option (List (Tensor α))) (k : Nat)
    (args : ForwardArgs α) : ForwardArgs α :=
  match k with
  | 0 => { args with deepstackInputEmbeds := args.inputsEmbeds.bind fun x =>
             getDeepstackInputEmbeds x.length }
  | _ + 1 => { args with inputsEmbeds := none, deepstackInputEmbeds := none }

variable {getDeepstackInputEmbeds : Nat → Option (List (Tensor α))}

theorem conditionalForward_later (k start : Nat) (x : Tensor α)
    (parts : List (List (DecoderLayer α))) :
    runStages (fun k model => conditionalForward getDeepstackInputEmbeds model (args k))
        (k + 1) (config.stagesFrom false start parts) (some x) =
      runStages (fun k model => model.forward (stageArgs getDeepstackInputEmbeds k (args k)))
        (k + 1) (config.stagesFrom false start parts) (some x) := by
  induction parts generalizing k start x with
  | nil => rfl
  | cons layers rest ih =>
      cases rest with
      | nil => rfl
      | cons next rest =>
          rw [runStages_cut, runStages_cut]
          refine bind_congr fun out => ?_
          cases out with
          | intermediateTensors y => exact ih (k + 1) (start + layers.length) y
          | sampled _ _ => rfl

theorem conditionalForward_first (last : Bool) (layers : List (DecoderLayer α)) :
    conditionalForward getDeepstackInputEmbeds (config.stage true last 0 layers)
        (args 0) none =
      (config.stage true last 0 layers).forward
        (stageArgs getDeepstackInputEmbeds 0 (args 0)) none := by
  unfold conditionalForward stageArgs
  cases (args 0).inputsEmbeds with
  | none => rfl
  | some x => rfl

/-- The multimodal model over the pipeline and over one stage. -/
theorem conditionalForward_split
    (h : SplitOk combine config parts
      (fun k => stageArgs getDeepstackInputEmbeds k (args k)) deepstackNumLevel) :
    runStages (fun k model => conditionalForward getDeepstackInputEmbeds model (args k)) 0
        (config.stages parts) none =
      conditionalForward getDeepstackInputEmbeds (config.stage true true 0 parts.flatten)
        (args 0) none := by
  have hsplit := runStages_eq_eager h
  have hwhole := runStages_eq_eager h.whole
  rw [List.flatten_cons, List.flatten_nil, List.append_nil, ← hsplit] at hwhole
  rw [conditionalForward_first]
  refine Eq.trans ?_ hwhole.symm
  cases parts with
  | nil => exact absurd rfl h.parts_ne
  | cons layers rest =>
      cases rest with
      | nil => exact conditionalForward_first true layers
      | cons next rest =>
          rw [ModelConfig.stages, runStages_cut, runStages_cut, conditionalForward_first]
          refine bind_congr fun out => ?_
          cases out with
          | intermediateTensors y => exact conditionalForward_later 0 _ y (next :: rest)
          | sampled _ _ => rfl

end Split

end FlashNext.Ports.HyperConnection
