import FlashNext.Ports.GraphCapture

/-!
# A replay returns what the model would

The first descriptor captured has the most tokens of all, so its buffer holds the rows of every
graph.  Capture therefore ends with a graph for each full descriptor, and from then on a batch
gets the rows of the model whether its graph is replayed or not.
-/

namespace FlashNext.Ports.GraphDispatch

open FlashNext.Verified.Checked

variable {cfg : Config}

/-! ## The tokens of the plan -/

/-- No descriptor has more tokens than the bound. -/
def Below (bound : Nat) (descs : DescsByMode) : Prop :=
  ∀ mode, ∀ d ∈ descs mode, d.numTokens ≤ bound

theorem Below.append {bound : Nat} {descs : DescsByMode} (h : Below bound descs)
    {desc : BatchExecutionDescriptor} (hdesc : desc.numTokens ≤ bound) :
    Below bound (descs.append desc) := by
  intro mode d hd
  rcases DescsByMode.mem_append.mp hd with hold | ⟨rfl, -⟩
  · exact h mode d hold
  · exact hdesc

theorem Below.addUniform {descs : DescsByMode} (h : Below cfg.maxCudagraphCaptureSize descs)
    (n l q : Nat) : Below cfg.maxCudagraphCaptureSize (addUniform cfg n l descs q) := by
  simp only [GraphDispatch.addUniform]
  split
  · exact h
  · next hguard =>
      split
      · exact h
      · exact h.append (by omega)

theorem Below.addSize {descs : DescsByMode} (h : Below cfg.maxCudagraphCaptureSize descs)
    {size : Nat × Nat} (hsize : size.1 ≤ cfg.maxCudagraphCaptureSize) :
    Below cfg.maxCudagraphCaptureSize (addSize cfg descs size) := by
  have hfold : ∀ (qs : List Nat) {descs : DescsByMode}, Below cfg.maxCudagraphCaptureSize descs →
      Below cfg.maxCudagraphCaptureSize
        (qs.foldl (GraphDispatch.addUniform cfg size.1 size.2) descs) := by
    intro qs
    induction qs with
    | nil => exact fun h => h
    | cons q qs ih => exact fun h => ih (h.addUniform size.1 size.2 q)
  have hdecode : Below cfg.maxCudagraphCaptureSize (addDecode cfg descs size.1 size.2) := by
    simp only [GraphDispatch.addDecode]
    split
    · exact h.append hsize
    · split
      · exact hfold _ h
      · exact h
  simp only [GraphDispatch.addSize]
  split
  · exact hdecode
  · exact hdecode.append hsize

theorem DescsByMode.subset_append (descs : DescsByMode) (desc : BatchExecutionDescriptor)
    (mode : Mode) : descs mode ⊆ descs.append desc mode :=
  fun _ hd => DescsByMode.mem_append.mpr (Or.inl hd)

theorem subset_addSize (descs : DescsByMode) (size : Nat × Nat) (mode : Mode) :
    descs mode ⊆ addSize cfg descs size mode := by
  have hfold : ∀ (qs : List Nat) (descs : DescsByMode),
      descs mode ⊆ qs.foldl (addUniform cfg size.1 size.2) descs mode := by
    intro qs
    induction qs with
    | nil => exact fun _ => List.Subset.refl _
    | cons q qs ih =>
        intro descs
        refine List.Subset.trans ?_ (ih _)
        simp only [addUniform]
        split
        · exact List.Subset.refl _
        · split
          · exact List.Subset.refl _
          · exact descs.subset_append _ mode
  have hdecode : descs mode ⊆ addDecode cfg descs size.1 size.2 mode := by
    simp only [addDecode]
    split
    · exact descs.subset_append _ mode
    · split
      · exact hfold _ descs
      · exact List.Subset.refl _
  simp only [addSize]
  split
  · exact hdecode
  · exact List.Subset.trans hdecode (DescsByMode.subset_append _ _ mode)

/-- Every size and LoRA case gets a graph of the mixed mode. -/
theorem mixedDesc_mem (hmixed : cfg.cudagraphMode.mixedMode ≠ .none) {n l : Nat}
    (hsize : (n, l) ∈ cfg.sizes) :
    mixedDesc cfg n l ∈ cfg.captureDescs cfg.cudagraphMode.mixedMode := by
  have hfold : ∀ (sizes : List (Nat × Nat)) (descs : DescsByMode),
      descs cfg.cudagraphMode.mixedMode ⊆
          sizes.foldl (addSize cfg) descs cfg.cudagraphMode.mixedMode ∧
        ((n, l) ∈ sizes → mixedDesc cfg n l ∈
          sizes.foldl (addSize cfg) descs cfg.cudagraphMode.mixedMode) := by
    intro sizes
    induction sizes with
    | nil => exact fun _ => ⟨List.Subset.refl _, nofun⟩
    | cons size sizes ih =>
        intro descs
        obtain ⟨hkeep, hrest⟩ := ih (addSize cfg descs size)
        refine ⟨List.Subset.trans (subset_addSize descs size _) hkeep, fun hmem => ?_⟩
        rcases List.mem_cons.mp hmem with rfl | htail
        · apply hkeep
          rw [addSize, if_neg hmixed]
          exact DescsByMode.mem_append.mpr (Or.inr ⟨rfl, rfl⟩)
        · exact hrest htail
  have hsizes : cfg.captureSizes ≠ [] := by
    rintro hnil
    rw [Config.sizes, hnil] at hsize
    cases hsize
  have hmode : cfg.cudagraphMode ≠ .single .none := by
    intro hnone
    rw [hnone] at hmixed
    exact hmixed rfl
  rw [mem_captureDescs, Config.descsByMode, if_neg (not_or.mpr ⟨hmode, hsizes⟩)]
  exact (hfold cfg.sizes _).2 hsize

/-- A configuration as it is built: sizes and cases are distinct, the largest size bounds the
decode graphs, and decode batches are piecewise only where mixed ones are. -/
structure Capturable (cfg : Config) : Prop where
  sizes : cfg.captureSizes.Nodup
  cases : cfg.loraCases.Nodup
  size_le : ∀ n ∈ cfg.captureSizes, n ≤ cfg.maxCudagraphCaptureSize
  size_mem : cfg.captureSizes ≠ [] → cfg.maxCudagraphCaptureSize ∈ cfg.captureSizes
  mode : cfg.cudagraphMode.decodeMode = .piecewise → cfg.cudagraphMode.mixedMode = .piecewise

theorem Capturable.numTokens_le (h : Capturable cfg) :
    Below cfg.maxCudagraphCaptureSize cfg.descsByMode := by
  have hfold : ∀ (sizes : List (Nat × Nat)) {descs : DescsByMode},
      (∀ size ∈ sizes, size.1 ≤ cfg.maxCudagraphCaptureSize) →
      Below cfg.maxCudagraphCaptureSize descs →
      Below cfg.maxCudagraphCaptureSize (sizes.foldl (addSize cfg) descs) := by
    intro sizes
    induction sizes with
    | nil => exact fun _ h => h
    | cons size sizes ih =>
        exact fun hle h => ih (fun s hs => hle s (List.mem_cons_of_mem _ hs))
          (h.addSize (hle size List.mem_cons_self))
  unfold Config.descsByMode
  split
  · exact fun _ _ hd => nomatch hd
  · refine hfold _ ?_ fun _ _ hd => nomatch hd
    intro size hsize
    exact h.size_le size.1 ((List.mem_insertionSort _).mp (List.pair_mem_product.mp hsize).1)

theorem captureDescs_head_le {mode : Mode} {first : BatchExecutionDescriptor}
    (hfirst : first ∈ (cfg.captureDescs mode).head?) :
    ∀ d ∈ cfg.captureDescs mode, d.numTokens ≤ first.numTokens := by
  let r : BatchExecutionDescriptor → BatchExecutionDescriptor → Prop :=
    fun a b => b.numTokens ≤ a.numTokens
  have : IsTrans BatchExecutionDescriptor r := ⟨fun _ _ _ hab hbc => Nat.le_trans hbc hab⟩
  have : Std.Total r := ⟨fun a b => Nat.le_total b.numTokens a.numTokens⟩
  have hsorted : (cfg.captureDescs mode).Pairwise r :=
    List.pairwise_insertionSort r (cfg.descsByMode mode)
  obtain ⟨rest, hdescs⟩ := List.head?_eq_some_iff.mp hfirst
  rw [hdescs] at hsorted ⊢
  intro d hd
  rcases List.mem_cons.mp hd with rfl | hrest
  · exact Nat.le_refl _
  · exact (List.pairwise_cons.mp hsorted).1 d hrest

theorem loraCases_ne_nil (cfg : Config) : cfg.loraCases ≠ [] := by
  rw [Config.loraCases]
  split
  · exact List.cons_ne_nil 0 []
  · next hne => exact hne

/-- The first descriptor captured has the most tokens. -/
theorem Capturable.head_le (h : Capturable cfg) {first : BatchExecutionDescriptor}
    (hfirst : first ∈ cfg.captured.head?) : ∀ d ∈ cfg.captured, d.numTokens ≤ first.numTokens := by
  have hbelow : ∀ d ∈ cfg.captured, d.numTokens ≤ cfg.maxCudagraphCaptureSize := by
    intro d hd
    rcases List.mem_append.mp hd with hmem | hmem
    · exact h.numTokens_le _ d (mem_captureDescs.mp hmem)
    · exact h.numTokens_le _ d (mem_captureDescs.mp hmem)
  by_cases hmode : cfg.cudagraphMode.mixedMode = .piecewise
  · intro d hd
    by_cases hsizes : cfg.captureSizes = []
    · have hnone : cfg.captured = [] := by
        simp [Config.captured, Config.captureDescs, Config.descsByMode, hsizes]
      rw [hnone] at hd
      cases hd
    -- the mixed graph of the largest size is a piecewise one
    obtain ⟨l, hl⟩ := List.exists_mem_of_ne_nil _ (loraCases_ne_nil cfg)
    have hsize : (cfg.maxCudagraphCaptureSize, l) ∈ cfg.sizes :=
      List.pair_mem_product.mpr ⟨(List.mem_insertionSort _).mpr (h.size_mem hsizes), hl⟩
    have hlargest := mixedDesc_mem (hmode ▸ Mode.noConfusion) hsize
    rw [hmode] at hlargest
    have hpiecewise : first ∈ (cfg.captureDescs .piecewise).head? := by
      rwa [Config.captured, List.head?_append_of_ne_nil _ (List.ne_nil_of_mem hlargest)] at hfirst
    exact (hbelow d hd).trans (captureDescs_head_le hpiecewise _ hlargest)
  · have hnone : cfg.captureDescs .piecewise = [] := by
      apply List.eq_nil_iff_forall_not_mem.mpr
      intro d hd
      cases kind_of_mem hd with
      | uniform _ _ hdecode => exact hmode (h.mode hdecode.symm)
      | varlen _ hdecode => exact hmode (h.mode hdecode.symm)
      | mixed _ hmixed => exact hmode hmixed.symm
    rw [Config.captured, hnone, List.nil_append] at hfirst ⊢
    exact captureDescs_head_le hfirst

/-! ## Capture -/

section Capture

variable {ι ρ : Type} {model : ι → Nat → List ρ}

theorem writeRows_of_le {buffer rows : List ρ} {n : Nat} (hrows : rows.length = n)
    (hle : n ≤ buffer.length) : writeRows buffer n rows = some (rows ++ buffer.drop n) := by
  unfold writeRows
  rw [Nat.min_eq_left hle, if_pos hrows]

/-- What capture has done for the descriptors so far. -/
structure Captured (st : Manager ρ) (done : List BatchExecutionDescriptor) : Prop where
  graphs : st.graphs = (done.filter fun d => d.cgMode ≠ .piecewise).map fun d =>
    (d, ⟨d.numTokens⟩)
  buffer : ∀ first ∈ done.head?, ∃ buffer, st.hiddenStates = some buffer ∧
    buffer.length = first.numTokens
  unallocated : done = [] → st.hiddenStates = none

/-- A pass of at most the first tokens fits into the buffer. -/
theorem Captured.forward {st : Manager ρ} {done : List BatchExecutionDescriptor}
    (h : Captured st done) (hmodel : ∀ inputs n, (model inputs n).length = n)
    {desc : BatchExecutionDescriptor}
    (hle : ∀ first ∈ (done ++ [desc]).head?, desc.numTokens ≤ first.numTokens) (inputs : ι) :
    ∃ buffer, st.forward model inputs desc.numTokens =
        .ok { st with hiddenStates := some buffer } ∧
      ∀ first ∈ (done ++ [desc]).head?, buffer.length = first.numTokens := by
  have hrows := hmodel inputs desc.numTokens
  cases done with
  | nil =>
      refine ⟨model inputs desc.numTokens ++ (model inputs desc.numTokens).drop desc.numTokens,
        ?_, ?_⟩
      · rw [Manager.forward, h.unallocated rfl, Option.getD_none,
          writeRows_of_le hrows (Nat.le_of_eq hrows.symm)]
      · intro first hfirst
        obtain rfl := Option.some.inj hfirst
        rw [List.length_append, List.length_drop, hrows, Nat.sub_self, Nat.add_zero]
  | cons first done =>
      obtain ⟨buffer, hbuffer, hlength⟩ := h.buffer first rfl
      have hfits : desc.numTokens ≤ buffer.length := hlength ▸ hle first rfl
      refine ⟨model inputs desc.numTokens ++ buffer.drop desc.numTokens, ?_, ?_⟩
      · rw [Manager.forward, hbuffer, Option.getD_some, writeRows_of_le hrows hfits]
      · intro first' hfirst'
        obtain rfl := Option.some.inj hfirst'
        rw [List.length_append, List.length_drop, hrows, ← hlength]
        omega

/-- One turn of the loop. -/
theorem Captured.captureDesc {st : Manager ρ} {done : List BatchExecutionDescriptor}
    (h : Captured st done) (hmodel : ∀ inputs n, (model inputs n).length = n)
    {desc : BatchExecutionDescriptor} (hnew : desc ∉ done)
    (hle : ∀ first ∈ (done ++ [desc]).head?, desc.numTokens ≤ first.numTokens)
    (dummy : BatchExecutionDescriptor → ι) :
    ∃ st', st.captureDesc model dummy desc = .ok st' ∧ Captured st' (done ++ [desc]) := by
  obtain ⟨buffer, hforward, hlength⟩ := h.forward hmodel hle (dummy desc)
  have hbuffer : ∀ first ∈ (done ++ [desc]).head?, ∃ b, some buffer = some b ∧
      b.length = first.numTokens := fun first hfirst => ⟨buffer, rfl, hlength first hfirst⟩
  have hsome : done ++ [desc] ≠ [] := List.append_ne_nil_of_right_ne_nil _ (List.cons_ne_nil _ _)
  by_cases hmode : desc.cgMode = .piecewise
  · refine ⟨{ st with hiddenStates := some buffer }, ?_, ?_, hbuffer, fun hnil => absurd hnil hsome⟩
    · rw [Manager.captureDesc, hforward, ok_bind, if_pos hmode]
      rfl
    · rw [List.filter_append, List.filter_cons_of_neg (by simpa using hmode), List.filter_nil,
        List.append_nil]
      exact h.graphs
  · have hkeys : desc ∉ st.graphs.map Prod.fst := by
      rw [h.graphs, List.map_map]
      intro hmem
      obtain ⟨d, hd, rfl⟩ := List.mem_map.mp hmem
      exact hnew (List.mem_filter.mp hd).1
    refine ⟨{ st with
      graphs := st.graphs ++ [(desc, ⟨desc.numTokens⟩)]
      hiddenStates := some buffer }, ?_, ?_, hbuffer, fun hnil => absurd hnil hsome⟩
    · rw [Manager.captureDesc, hforward, ok_bind, if_neg hmode]
      show (require (desc ∉ st.graphs.map Prod.fst) (GraphError.alreadyCaptured desc) >>= _) = _
      rw [require_ok hkeys]
      rfl
    · show st.graphs ++ _ = _
      rw [List.filter_append, List.filter_cons_of_pos (by simpa using hmode), List.filter_nil,
        List.map_append, h.graphs]
      rfl

/-- The loop over descriptors, of which the first has the most tokens. -/
theorem Captured.foldlM {st : Manager ρ} {done descs : List BatchExecutionDescriptor}
    (h : Captured st done) (hmodel : ∀ inputs n, (model inputs n).length = n)
    (hnodup : (done ++ descs).Nodup)
    (hle : ∀ first ∈ (done ++ descs).head?, ∀ d ∈ descs, d.numTokens ≤ first.numTokens)
    (dummy : BatchExecutionDescriptor → ι) :
    ∃ st', descs.foldlM (Manager.captureDesc model dummy) st = .ok st' ∧
      Captured st' (done ++ descs) := by
  induction descs generalizing st done with
  | nil => exact ⟨st, rfl, (List.append_nil done).symm ▸ h⟩
  | cons desc descs ih =>
      have hsplit : done ++ desc :: descs = (done ++ [desc]) ++ descs := by
        rw [List.append_assoc, List.singleton_append]
      rw [hsplit] at hnodup hle ⊢
      have hhead : ∀ first ∈ (done ++ [desc]).head?, first ∈ (done ++ [desc] ++ descs).head? :=
        fun first hfirst => List.head?_append.trans (by rw [hfirst]; rfl)
      have hnew : desc ∉ done := by
        have hleft := (List.nodup_append.mp hnodup).1
        exact fun hmem => (List.nodup_append.mp hleft).2.2 desc hmem desc
          (List.mem_singleton_self _) rfl
      obtain ⟨st₁, hstep, h₁⟩ := h.captureDesc hmodel hnew
        (fun first hfirst => hle first (hhead first hfirst) desc List.mem_cons_self) dummy
      obtain ⟨st', hrun, h'⟩ := ih h₁ hnodup fun first hfirst d hd =>
        hle first hfirst d (List.mem_cons_of_mem desc hd)
      refine ⟨st', ?_, h'⟩
      rw [List.foldlM_cons, hstep, ok_bind]
      exact hrun

/-! ## Replay -/

/-- A graph for each full descriptor, and a buffer for each of them. -/
structure Ready (cfg : Config) (st : Manager ρ) : Prop where
  captured : st.graphsCaptured = true
  graphs : st.graphs = (cfg.captureDescs .full).map fun d => (d, ⟨d.numTokens⟩)
  room : ∀ d ∈ cfg.captureDescs .full, ∃ buffer, st.hiddenStates = some buffer ∧
    d.numTokens ≤ buffer.length

/-- Capture succeeds and leaves the manager ready. -/
theorem Capturable.capture_ready (h : Capturable cfg)
    (hmodel : ∀ inputs n, (model inputs n).length = n) (dummy : BatchExecutionDescriptor → ι) :
    ∃ st, Manager.fresh.capture model cfg dummy none = .ok st ∧ Ready cfg st := by
  have hfresh : Captured (Manager.fresh : Manager ρ) [] := ⟨rfl, nofun, fun _ => rfl⟩
  have hnodup : ([] ++ cfg.captured).Nodup := captured_nodup h.sizes h.cases
  obtain ⟨st, hrun, hst⟩ :=
    hfresh.foldlM hmodel hnodup (fun first hfirst => h.head_le hfirst) dummy
  rw [List.nil_append] at hst
  refine ⟨{ st with graphsCaptured := true }, ?_, rfl, ?_, ?_⟩
  · show (cfg.captured.foldlM (Manager.captureDesc model dummy) Manager.fresh >>= _) = _
    rw [hrun]
    rfl
  · have hpiecewise :
        (cfg.captureDescs .piecewise).filter (fun d => d.cgMode ≠ .piecewise) = [] := by
      apply List.filter_eq_nil_iff.mpr
      intro d hd
      simp [captured_cgMode h.sizes h.cases _ d hd]
    have hfull : (cfg.captureDescs .full).filter (fun d => d.cgMode ≠ .piecewise) =
        cfg.captureDescs .full := by
      apply List.filter_eq_self.mpr
      intro d hd
      simp [captured_cgMode h.sizes h.cases _ d hd]
    show st.graphs = _
    rw [hst.graphs, Config.captured, List.filter_append, hpiecewise, hfull, List.nil_append]
  · intro d hd
    have hmem : d ∈ cfg.captured := List.mem_append_right _ hd
    obtain ⟨first, hfirst⟩ := Option.ne_none_iff_exists'.mp
      (mt List.head?_eq_none_iff.mp (List.ne_nil_of_mem hmem))
    obtain ⟨buffer, hbuffer, hlength⟩ := hst.buffer first hfirst
    exact ⟨buffer, hbuffer, hlength ▸ h.head_le hfirst d hmem⟩

/-- A full descriptor that is dispatched was captured; none has fewer tokens than the shape. -/
theorem dispatch_mem (hsizes : cfg.captureSizes.Nodup) (hcases : cfg.loraCases.Nodup)
    (shape : Shape) : ((dispatch cfg true shape).cgMode = .full →
        dispatch cfg true shape ∈ cfg.captureDescs .full) ∧
      shape.numTokens ≤ (dispatch cfg true shape).numTokens := by
  by_cases ht : 0 < shape.numTokens
  · rw [dispatch_eq hsizes hcases ht]
    rcases @find_cell cfg shape .full with ⟨d, hfind, hfewest⟩ | ⟨hfind, -⟩
    · rw [hfind]
      exact ⟨fun _ => hfewest.captured, hfewest.serves.tokens⟩
    · rw [hfind, Option.none_or]
      rcases @find_cell cfg shape .piecewise with ⟨d, hfind', hfewest⟩ | ⟨hfind', -⟩
      · rw [hfind']
        refine ⟨fun hfull => ?_, hfewest.serves.tokens⟩
        have hmode : d.cgMode = .piecewise := captured_cgMode hsizes hcases _ d hfewest.captured
        exact Mode.noConfusion (hmode.symm.trans hfull)
      · rw [hfind']
        exact ⟨Mode.noConfusion, Nat.le_refl _⟩
  · have heager : dispatch cfg true shape =
        eagerDesc shape (cfg.resolveEffectiveLoras shape.numActiveLoras) :=
      if_neg fun hand => ht hand.2
    rw [heager]
    exact ⟨Mode.noConfusion, Nat.le_refl _⟩

theorem lookup_graphs {descs : List BatchExecutionDescriptor} {desc : BatchExecutionDescriptor}
    (hdesc : desc ∈ descs) :
    (descs.map fun d => (d, CUDAGraph.mk d.numTokens)).lookup desc = some ⟨desc.numTokens⟩ := by
  induction descs with
  | nil => cases hdesc
  | cons d descs ih =>
      rw [List.map_cons, List.lookup_cons]
      by_cases heq : desc = d
      · subst heq
        rw [beq_self_eq_true]
      · rw [beq_false_of_ne heq]
        exact ih ((List.mem_cons.mp hdesc).resolve_left heq)

/-- A batch gets the rows of the model, and the manager stays ready. -/
theorem Ready.runModel {st : Manager ρ} (h : Ready cfg st) (hsizes : cfg.captureSizes.Nodup)
    (hcases : cfg.loraCases.Nodup) (hmodel : ∀ inputs n, (model inputs n).length = n)
    (inputs : ι) (shape : Shape) :
    ∃ st', st.runModel model cfg inputs shape =
        .ok (model inputs (dispatch cfg true shape).numTokens, st') ∧ Ready cfg st' := by
  rw [Manager.runModel, h.captured]
  by_cases hfull : (dispatch cfg true shape).cgMode = .full
  · have hmem := (dispatch_mem hsizes hcases shape).1 hfull
    have hlookup : st.graphs.lookup (dispatch cfg true shape) =
        some ⟨(dispatch cfg true shape).numTokens⟩ := by
      rw [h.graphs]
      exact lookup_graphs hmem
    obtain ⟨buffer, hbuffer, hle⟩ := h.room _ hmem
    have hrows := hmodel inputs (dispatch cfg true shape).numTokens
    let replayed := model inputs (dispatch cfg true shape).numTokens ++
      buffer.drop (dispatch cfg true shape).numTokens
    have hwrite : writeRows buffer (dispatch cfg true shape).numTokens
        (model inputs (dispatch cfg true shape).numTokens) = some replayed :=
      writeRows_of_le hrows hle
    refine ⟨{ st with hiddenStates := some replayed }, ?_, h.captured, h.graphs, ?_⟩
    · simp only [if_pos hfull]
      rw [Manager.runFullgraph, require_ok hfull, ok_bind, hlookup, hbuffer]
      simp only [hwrite, Option.getD_some]
      rw [List.take_left' hrows]
      rfl
    · intro d hd
      obtain ⟨buffer', hbuffer', hle'⟩ := h.room d hd
      refine ⟨replayed, rfl, ?_⟩
      obtain rfl := Option.some.inj (hbuffer.symm.trans hbuffer')
      rw [List.length_append, List.length_drop, hrows]
      omega
  · exact ⟨st, if_neg hfull, h⟩

theorem Ready.runBatches {st : Manager ρ} (h : Ready cfg st) (hsizes : cfg.captureSizes.Nodup)
    (hcases : cfg.loraCases.Nodup) (hmodel : ∀ inputs n, (model inputs n).length = n)
    (batches : List (ι × Shape)) :
    st.runBatches model cfg batches =
      .ok (batches.map fun b => model b.1 (dispatch cfg true b.2).numTokens) := by
  induction batches generalizing st with
  | nil => rfl
  | cons batch batches ih =>
      obtain ⟨st', hstep, hready⟩ := h.runModel hsizes hcases hmodel batch.1 batch.2
      rw [Manager.runBatches, hstep, ok_bind]
      show (st'.runBatches model cfg batches >>= _) = _
      rw [ih hready]
      rfl

/-- Capture gives a graph for each full descriptor, and after it every run of batches gets the
rows that the model computes for the padded tokens. -/
theorem capture_replay (cfg : Config) (h : Capturable cfg)
    (hmodel : ∀ inputs n, (model inputs n).length = n) (dummy : BatchExecutionDescriptor → ι) :
    ∃ st, Manager.fresh.capture model cfg dummy none = .ok st ∧
      st.graphs.map Prod.fst = cfg.captureDescs .full ∧
      ∀ batches, st.runBatches model cfg batches =
          .ok (batches.map fun b => model b.1 (dispatch cfg true b.2).numTokens) ∧
        ∀ b ∈ batches, b.2.numTokens ≤ (dispatch cfg true b.2).numTokens := by
  obtain ⟨st, hcapture, hready⟩ := h.capture_ready hmodel dummy
  refine ⟨st, hcapture, ?_, fun batches => ⟨hready.runBatches h.sizes h.cases hmodel batches,
    fun b _ => (dispatch_mem h.sizes h.cases b.2).2⟩⟩
  rw [hready.graphs, List.map_map]
  exact List.map_id _

end Capture

/-- Full decode graphs for one draft, piecewise graphs for mixed batches. -/
def decodeAndMixed : Config where
  captureSizes := [4, 8]
  maxCudagraphCaptureSize := 8
  maxNumReqs := 4
  cudagraphMode := .separate .full .piecewise
  decodeQueryLen := 2
  numSpeculativeTokens := 1
  numSpeculativeTokens_lt := by decide

theorem capture_replay_decodeAndMixed :
    ∃ st, Manager.fresh.capture (fun (seed n : Nat) => List.replicate n seed) decodeAndMixed
        (fun _ => 0) none = .ok st ∧
      st.graphs.map Prod.fst = decodeAndMixed.captureDescs .full ∧
      ∀ batches, st.runBatches (fun (seed n : Nat) => List.replicate n seed) decodeAndMixed
          batches = .ok (batches.map fun b => List.replicate
            (dispatch decodeAndMixed true b.2).numTokens b.1) ∧
        ∀ b ∈ batches, b.2.numTokens ≤ (dispatch decodeAndMixed true b.2).numTokens :=
  capture_replay decodeAndMixed ⟨by decide, by decide, by decide, by decide, by decide⟩
    (fun _ _ => List.length_replicate) fun _ => 0

end FlashNext.Ports.GraphDispatch
