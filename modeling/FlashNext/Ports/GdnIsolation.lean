import FlashNext.Ports.GdnForward

/-!
# Gated delta net: requests do not see each other

Both forwards leave in the buffers what every request computes on its own,
with the gates of `usedRoutes`.  These are the request's own gates unless the
batch has speculative requests and decodes but no prefills.
-/

namespace FlashNext.Ports.GdnRouting

open FlashNext.Verified.Scatter
open FlashNext.Verified.Varlen

variable {Qkv A B ConvState SsmState Out : Type}
  {K : Kernels Qkv A B ConvState SsmState Out} {x : Rows Qkv A B}
  {c : Buffers ConvState SsmState Out} {m : GDNAttentionMetadata} {b : Batch}

/-! ## Merging the outputs -/

private theorem usedRoutes_ok (h : Describes m b) :
    RoutesOk m b (usedRoutes m b) := by
  have hspec : RoutesOk m b (ownRoutes b.spec) :=
    ownRoutes_ok h (fun r hr => mem_requests_of_spec hr) h.spec_slots_nodup
  have hnonSpec := nonSpecRoutes_ok h
  refine { mem := ?_, gates_length := ?_, gates_lt := ?_, slots := ?_ }
  · intro p hp
    exact (List.mem_append.mp hp).elim (hspec.mem p) (hnonSpec.mem p)
  · intro p hp
    exact (List.mem_append.mp hp).elim (hspec.gates_length p)
      (hnonSpec.gates_length p)
  · intro p hp
    exact (List.mem_append.mp hp).elim (hspec.gates_lt p) (hnonSpec.gates_lt p)
  · have hslots := h.wellFormed.slots
    rwa [← usedRoutes_fst (m := m), List.flatMap_map] at hslots

private theorem usedRoutes_tokens (h : Describes m b) :
    ((usedRoutes m b).flatMap fun p => p.1.tokens).Nodup := by
  have htokens := h.tokens_nodup
  rwa [← usedRoutes_fst (m := m), List.flatMap_map] at htokens

private theorem length_outputs (hK : K.Exact) (h : Describes m b)
    (hx : Covers x m.numActualTokens) :
    ∀ p ∈ usedRoutes m b, (deltaRun K x c p.1 p.2).1.length = p.1.tokens.length := by
  intro p hp
  rw [deltaRun_eq, hK.recurrent_rows, List.length_map,
    length_routeRows hK h hx (usedRoutes_ok h) hp]

/-- A buffer that is overwritten for all tokens of the batch. -/
private theorem stored_slice {vals : Request × List Nat → List Out}
    (h : Describes m b) (uninit : Nat → Out) {merged coreAttnOut : Nat → Out}
    (hstored : Stored (fun p : Request × List Nat => p.1.tokens) vals
      (usedRoutes m b) uninit merged) :
    Stored (fun p : Request × List Nat => p.1.tokens) vals (usedRoutes m b)
      coreAttnOut
      (fun t => if t < m.numActualTokens then merged t else coreAttnOut t) where
  own := by
    intro p hp
    rw [← hstored.own p hp]
    refine List.map_congr_left fun t ht => ?_
    exact if_pos (h.token_lt ((usedRoutes_ok h).mem p hp) t ht)
  rest := by
    intro t ht
    apply if_neg
    intro hlt
    have hmem := (h.wellFormed.partition.mem_iff).mpr (List.mem_range.mpr hlt)
    rw [← usedRoutes_fst (m := m), List.flatMap_map] at hmem
    obtain ⟨p, hp, htp⟩ := List.mem_flatMap.mp hmem
    exact ht p hp htp

theorem mergeOutputs_ok (hK : K.Exact) (h : Describes m b)
    (hx : Covers x m.numActualTokens) (uninit : Nat → Out)
    {spec nonSpec : Option (List Out)}
    (hspec : m.specSequenceMasks = true → spec =
      some ((ownRoutes b.spec).flatMap fun p => (deltaRun K x c p.1 p.2).1))
    (hspecNone : m.specSequenceMasks = false → spec = none)
    (hnonSpec : b.nonSpec ≠ [] → nonSpec =
      some ((nonSpecRoutes m b).flatMap fun p => (deltaRun K x c p.1 p.2).1))
    (hnonSpecNone : b.nonSpec = [] → nonSpec = none) :
    ∃ res, mergeOutputs m uninit spec nonSpec c.coreAttnOut = some res ∧
      Stored (fun p : Request × List Nat => p.1.tokens)
        (fun p => (deltaRun K x c p.1 p.2).1) (usedRoutes m b) c.coreAttnOut
        res := by
  have hlen := length_outputs (c := c) hK h hx
  have hnodup := usedRoutes_tokens h
  have hnonSpecTokens : b.nonSpec.flatMap Request.tokens =
      (nonSpecRoutes m b).flatMap fun p => p.1.tokens := by
    rw [← nonSpecRoutes_fst (m := m), List.flatMap_map]
  cases hmasks : m.specSequenceMasks with
  | false =>
      have hspecNil : ownRoutes b.spec = [] := by
        rw [h.spec_nil hmasks]
        rfl
      have hne : b.nonSpec ≠ [] := by
        intro hnil
        apply h.wellFormed.nonempty
        rw [Batch.requests, h.spec_nil hmasks, hnil]
        rfl
      have hused : usedRoutes m b = nonSpecRoutes m b := by
        rw [usedRoutes, hspecNil, List.nil_append]
      rw [hspecNone hmasks, hnonSpec hne]
      refine ⟨_, rfl, ?_⟩
      rw [← h.nonSpec_order hmasks, hnonSpecTokens]
      rw [hused] at hlen hnodup ⊢
      exact stored_put hnodup hlen c.coreAttnOut
  | true =>
      by_cases hnil : b.nonSpec = []
      · have hroutes : nonSpecRoutes m b = [] := by
          have hfst := nonSpecRoutes_fst (m := m) (b := b)
          rw [hnil] at hfst
          exact List.map_eq_nil_iff.mp hfst
        have hused : usedRoutes m b = ownRoutes b.spec := by
          rw [usedRoutes, hroutes, List.append_nil]
        rw [hspec hmasks, hnonSpecNone hnil]
        refine ⟨_, rfl, ?_⟩
        have htokens : List.range m.numActualTokens =
            (ownRoutes b.spec).flatMap fun p => p.1.tokens := by
          rw [flatMap_ownRoutes, ← h.spec_order hnil]
        rw [htokens]
        rw [hused] at hlen hnodup ⊢
        exact stored_put hnodup hlen c.coreAttnOut
      · have hspecTokens : m.specTokenIndx =
            (ownRoutes b.spec).flatMap fun p => p.1.tokens := by
          rw [flatMap_ownRoutes, h.specTokenIndx hmasks hnil]
        rw [hspec hmasks, hnonSpec hnil]
        refine ⟨_, rfl, ?_⟩
        apply stored_slice h uninit
        rw [hspecTokens, h.nonSpecTokenIndx hmasks hnil, hnonSpecTokens]
        rw [usedRoutes, List.flatMap_append] at hnodup
        apply Stored.append
        · exact stored_put hnodup.of_append_left
            (fun p hp => hlen p (List.mem_append_left _ hp)) uninit
        · exact stored_put hnodup.of_append_right
            (fun p hp => hlen p (List.mem_append_right _ hp)) _
        · intro p hp q hq t ht ht'
          exact List.disjoint_of_nodup_append hnodup
            (List.mem_flatMap.mpr ⟨p, hp, ht⟩)
            (List.mem_flatMap.mpr ⟨q, hq, ht'⟩)

/-! ## The two forwards -/

private theorem Routed.unique {routes : Routes}
    {res res' : Buffers ConvState SsmState Out} (h : Routed K x c routes res)
    (h' : Routed K x c routes res') : res = res' := by
  cases res
  cases res'
  rw [Buffers.mk.injEq]
  exact ⟨h.convStates.unique h'.convStates, h.ssmStates.unique h'.ssmStates,
    h.outputs.unique h'.outputs⟩

private theorem stored_conv {ps : Routes} {rs : List Request}
    (hfst : ps.map Prod.fst = rs) {st st' : Nat → ConvState}
    (hstored : Stored (fun r : Request => [r.convSlot])
      (fun r => (convRun K x c r).2) rs st st') :
    Stored (fun p : Request × List Nat => [p.1.convSlot])
      (fun p => (convRun K x c p.1).2) ps st st' := by
  have hmem : ∀ p ∈ ps, p.1 ∈ rs := by
    intro p hp
    rw [← hfst]
    exact List.mem_map_of_mem hp
  apply hstored.exchange
  · exact fun p hp => ⟨p.1, hmem p hp, rfl, rfl⟩
  · intro r hr
    rw [← hfst] at hr
    obtain ⟨p, hp, rfl⟩ := List.mem_map.mp hr
    exact ⟨p, hp, rfl⟩

/-- `_forward_core` behind the packed fast path. -/
theorem forwardCoreMixed_routed (hK : K.Exact) (h : Describes m b)
    (hx : Covers x m.numActualTokens) (uninit : Nat → Out) :
    ∃ res, forwardCoreMixed K m uninit x c = some res ∧
      Routed K x c (usedRoutes m b) res := by
  obtain ⟨tokens, htokens, hsplit⟩ := splitTokens_ok h hx
  obtain ⟨hspecConv, hspecStates⟩ := convSpec_ok (c := c) hK h hx hsplit
  have hconv : ∀ r ∈ b.nonSpec,
      (convSpec K m tokens.1 c.convState).2 r.convSlot =
        c.convState r.convSlot := by
    intro r hr
    refine hspecStates.rest r.convSlot fun r' hr' hmem => ?_
    exact h.convSlots_disjoint hr' hr (List.mem_singleton.mp hmem).symm
  obtain ⟨nonSpec, hnonSpec, hnonSpecConv, hnonSpecStates⟩ :=
    convNonSpec_ok hK h hx hsplit hconv
  obtain ⟨hspecOut, hspecNone, hspecSsm⟩ :=
    recurrentSpec_ok (c := c) hK h hx hsplit hspecConv
  generalize houtSpec :
    recurrentSpec K m tokens.1 (convSpec K m tokens.1 c.convState).1 c.ssmState =
      outSpec at hspecOut hspecNone hspecSsm
  have hssm : ∀ r ∈ b.nonSpec, ∀ i ∈ r.slots, outSpec.2 i = c.ssmState i := by
    intro r hr i hi
    refine hspecSsm.rest i fun p hp hmem => ?_
    obtain ⟨r', hr', rfl⟩ := List.mem_map.mp hp
    exact h.slots_disjoint hr' hr hmem hi
  obtain ⟨outNonSpec, houtNonSpec, hnonSpecOut, hnonSpecNone, hnonSpecSsm⟩ :=
    recurrentNonSpec_ok hK h hx hnonSpecConv hssm
  obtain ⟨coreAttnOut, hmerge, houtputs⟩ := mergeOutputs_ok hK h hx uninit
    hspecOut hspecNone hnonSpecOut hnonSpecNone
  refine ⟨⟨nonSpec.2, outNonSpec.2, coreAttnOut⟩, ?_, ?_⟩
  · simp only [forwardCoreMixed, htokens, hnonSpec, houtSpec, houtNonSpec,
      hmerge, Option.bind_eq_bind, Option.bind_some]
  · refine { outputs := houtputs, convStates := ?_, ssmStates := ?_ }
    · have hrequests : Stored (fun r : Request => [r.convSlot])
          (fun r => (convRun K x c r).2) b.requests c.convState nonSpec.2 := by
        apply hspecStates.append hnonSpecStates
        intro r hr r' hr' i hi hi'
        rw [List.mem_singleton.mp hi] at hi'
        exact h.convSlots_disjoint hr hr' (List.mem_singleton.mp hi')
      exact stored_conv usedRoutes_fst hrequests
    · apply hspecSsm.append hnonSpecSsm
      intro p hp q hq i hi
      obtain ⟨r, hr, rfl⟩ := List.mem_map.mp hp
      have hq' : q.1 ∈ b.nonSpec := by
        rw [← nonSpecRoutes_fst (m := m)]
        exact List.mem_map_of_mem hq
      exact h.slots_disjoint hr hq' hi

/-- The packed fast path. -/
theorem forwardCoreDecodeNonSpec_routed (hK : K.Exact) (h : Describes m b)
    (hx : Covers x m.numActualTokens) (hmasks : m.specSequenceMasks = false)
    (hprefills : m.numPrefills = 0) (hdecodes : 0 < m.numDecodes) :
    Routed K x c (usedRoutes m b) (forwardCoreDecodeNonSpec K m x c) := by
  have hnil : b.nonSpec ≠ [] := by
    intro hempty
    have hzero := (h.nonSpec_nil_iff.mp hempty).2
    omega
  have hnonSpec := h.nonSpec_eq_decodes (by omega)
  have horder := h.nonSpec_order hmasks
  have hused : usedRoutes m b = ownRoutes b.nonSpec := by
    rw [usedRoutes, h.spec_nil hmasks, nonSpecRoutes,
      if_neg fun hcond => Bool.false_ne_true (hmasks.symm.trans hcond.1)]
    rfl
  have hps : RoutesOk m b (ownRoutes b.nonSpec) := hused ▸ usedRoutes_ok h
  have htake : (x.take m.numActualTokens).mixedQkv =
      (rowsOf x b.nonSpec).mixedQkv := take_requests hx.mixedQkv horder
  have hown : ∀ r ∈ b.nonSpec,
      c.convState r.convSlot = c.convState r.convSlot := fun _ _ => rfl
  obtain ⟨hconv, hconvStates⟩ := conv_decodes hK h hx (by omega) hnil hown
  have hrows : pairRows (b.nonSpec.flatMap fun r => (convRun K x c r).1)
      (x.take m.numActualTokens).a (x.take m.numActualTokens).b =
        (ownRoutes b.nonSpec).flatMap (routeRows K x c) := by
    rw [← pairRows_routes hK h hx hps]
    simp only [flatMap_ownRoutes, Rows.take, take_requests hx.a horder,
      take_requests hx.b horder]
  have hone : ∀ p ∈ ownRoutes b.nonSpec, (routeRows K x c p).length = 1 := by
    intro p hp
    rw [length_routeRows hK h hx hps hp]
    obtain ⟨r, hr, rfl⟩ := List.mem_map.mp hp
    exact h.wellFormed.decode_token r (hnonSpec ▸ hr)
  have hrun : ∀ p ∈ ownRoutes b.nonSpec,
      K.fusedRecurrentPackedDecode (p.1.slots.map c.ssmState)
        (routeRows K x c p) = deltaRun K x c p.1 p.2 := by
    intro p hp
    obtain ⟨row, hrow⟩ := List.length_eq_one_iff.mp (hone p hp)
    obtain ⟨r, hr, rfl⟩ := List.mem_map.mp hp
    rw [deltaRun_eq, hrow, hK.packed_eq, h.wellFormed.nonSpec_accepted r hr,
      initialStates, if_pos (h.wellFormed.decode_state r (hnonSpec ▸ hr))]
    rfl
  have hindices : (m.nonSpecStateIndicesTensor.take m.numActualTokens).map
      (fun i => ((), [i])) =
        (ownRoutes b.nonSpec).map fun p => ((), p.1.slots) := by
    have hle := h.decodes_le
    rw [← hnonSpec] at hle
    rw [h.nonSpecStateIndices hnil,
      List.take_of_length_le (by rw [List.length_map]; exact hle), ownRoutes,
      List.map_map, List.map_map]
    apply List.map_congr_left
    intro r hr
    exact congrArg (Prod.mk ()) (h.wellFormed.nonSpec_slot r hr).symm
  obtain ⟨hout, hssm⟩ := varlen_map
    (f := fun () sts xs => K.fusedRecurrentPackedDecode sts xs) hrun
    (fun p _ => deltaRun_states hK p) hps.slots
  rw [← hindices, ← map_flatMap_singleton _ _ hone, ← hrows] at hout hssm
  have hlen := length_outputs (c := c) hK h hx
  have hnodup := usedRoutes_tokens h
  rw [hused] at hlen hnodup ⊢
  rw [forwardCoreDecodeNonSpec, htake]
  refine { outputs := ?_, convStates := ?_, ssmStates := ?_ }
  · have htokens : List.range m.numActualTokens =
        (ownRoutes b.nonSpec).flatMap fun p => p.1.tokens := by
      rw [flatMap_ownRoutes, ← horder]
    simp only [hconv, hout]
    rw [htokens]
    exact stored_put hnodup hlen c.coreAttnOut
  · exact stored_conv (ownRoutes_fst b.nonSpec) hconvStates
  · simp only [hconv]
    exact hssm

/-- `_forward_core`, on either path. -/
theorem forwardCore_routed (hK : K.Exact) (h : Describes m b)
    (hx : Covers x m.numActualTokens) (enablePackedRecurrentDecode : Bool)
    (uninit : Nat → Out) :
    ∃ res, forwardCore K m enablePackedRecurrentDecode uninit x c = some res ∧
      Routed K x c (usedRoutes m b) res := by
  rw [forwardCore]
  split
  · next hcond =>
      obtain ⟨-, hmasks, hprefills, hdecodes⟩ := hcond
      exact ⟨_, rfl, forwardCoreDecodeNonSpec_routed hK h hx
        (Bool.eq_false_iff.mpr hmasks) hprefills hdecodes⟩
  · exact forwardCoreMixed_routed hK h hx uninit

/-- The forward that takes the packed path computes what the other computes. -/
theorem forwardCore_packed (hK : K.Exact) (h : Describes m b)
    (hx : Covers x m.numActualTokens) (uninit uninit' : Nat → Out) :
    forwardCore K m true uninit x c = forwardCore K m false uninit' x c := by
  obtain ⟨res, hres, hrouted⟩ := forwardCore_routed (c := c) hK h hx true uninit
  obtain ⟨res', hres', hrouted'⟩ :=
    forwardCore_routed (c := c) hK h hx false uninit'
  rw [hres, hres', hrouted.unique hrouted']

/-! ## The requests on their own -/

/-- With any exact kernels, on either path, every request gets what it
computes from its own rows and states. -/
def Isolated (m : GDNAttentionMetadata) (b : Batch) (x : Rows Qkv A B)
    (c : Buffers ConvState SsmState Out) : Prop :=
  ∀ K : Kernels Qkv A B ConvState SsmState Out, K.Exact →
    ∀ (enablePackedRecurrentDecode : Bool) (uninit : Nat → Out),
      ∃ res, forwardCore K m enablePackedRecurrentDecode uninit x c = some res ∧
        Routed K x c (ownRoutes b.requests) res

/-- Decodes next to speculative requests, without prefills, find their gates
in the first rows. -/
def GatesAligned (m : GDNAttentionMetadata) (x : Rows Qkv A B) : Prop :=
  m.specSequenceMasks = true → m.numPrefills = 0 →
    ∀ i t, i < m.numDecodes → m.nonSpecTokenIndx[i]? = some t →
      x.a[i]? = x.a[t]? ∧ x.b[i]? = x.b[t]?

/-- The gates of the `i`-th decode, as used and as its own. -/
private theorem countedRoutes_gates (h : Describes m b)
    (hmasks : m.specSequenceMasks = true) (hprefills : m.numPrefills = 0)
    {i : Nat} {p : Request × List Nat}
    (hp : (countedRoutes b.nonSpec)[i]? = some p) :
    ∃ t, i < m.numDecodes ∧ m.nonSpecTokenIndx[i]? = some t ∧
      p.1 ∈ b.nonSpec ∧ p.1.tokens = [t] ∧ p.2 = [i] := by
  have hnonSpec := h.nonSpec_eq_decodes (by omega)
  obtain ⟨hi, -⟩ := List.getElem?_eq_some_iff.mp hp
  rw [← List.length_map Prod.fst, countedRoutes_fst] at hi
  rw [countedRoutes_get hi] at hp
  have hpair : (b.nonSpec[i], [i]) = p := Option.some.inj hp
  have hmem : b.nonSpec[i] ∈ b.nonSpec := List.getElem_mem hi
  have hone : ∀ r ∈ b.nonSpec, r.tokens.length = 1 := fun r hr =>
    h.wellFormed.decode_token r (hnonSpec ▸ hr)
  obtain ⟨t, ht⟩ := List.length_eq_one_iff.mp (hone _ hmem)
  have htoken := congrArg (·[i]?) (map_flatMap_singleton _ _ hone)
  simp only [List.getElem?_map, List.getElem?_eq_getElem hi, Option.map_some,
    ht] at htoken
  rw [← h.nonSpecTokenIndx hmasks (List.ne_nil_of_mem hmem)] at htoken
  obtain ⟨t', ht', hsingle⟩ := Option.map_eq_some_iff.mp htoken
  rw [List.singleton_injective hsingle] at ht'
  rw [← hpair]
  refine ⟨t, ?_, ht', hmem, ht, rfl⟩
  rw [h.numDecodes, ← hnonSpec]
  exact hi

/-- With aligned gates every request is run with its own. -/
private theorem deltaRun_aligned (h : Describes m b) (haligned : GatesAligned m x)
    {p : Request × List Nat} (hp : p ∈ usedRoutes m b) :
    deltaRun K x c p.1 p.2 = deltaRun K x c p.1 p.1.tokens := by
  have hown : ∀ {rs : List Request}, p ∈ ownRoutes rs → p.2 = p.1.tokens := by
    intro rs hmem
    obtain ⟨r, -, rfl⟩ := List.mem_map.mp hmem
    rfl
  rcases List.mem_append.mp hp with hspec | hnonSpec
  · rw [hown hspec]
  · rw [nonSpecRoutes] at hnonSpec
    split at hnonSpec
    · next hcond =>
        obtain ⟨i, hget⟩ := List.getElem?_of_mem hnonSpec
        obtain ⟨t, hi, ht, -, htokens, hgates⟩ :=
          countedRoutes_gates h hcond.1 hcond.2 hget
        obtain ⟨ha, hb⟩ := haligned hcond.1 hcond.2 i t hi ht
        have howna : own x.a p.2 = own x.a p.1.tokens := by
          rw [hgates, htokens]
          simp only [own, List.filterMap_cons, ha]
        have hownb : own x.b p.2 = own x.b p.1.tokens := by
          rw [hgates, htokens]
          simp only [own, List.filterMap_cons, hb]
        rw [deltaRun, deltaRun, howna, hownb]
    · rw [hown hnonSpec]

private theorem isolated_of_gatesAligned (h : Describes m b)
    (hx : Covers x m.numActualTokens) (haligned : GatesAligned m x) :
    Isolated m b x c := by
  intro K hK enablePackedRecurrentDecode uninit
  obtain ⟨res, hres, hrouted⟩ :=
    forwardCore_routed (c := c) hK h hx enablePackedRecurrentDecode uninit
  refine ⟨res, hres, ?_⟩
  have hrequests : ∀ q ∈ ownRoutes b.requests, ∃ p ∈ usedRoutes m b,
      p.1 = q.1 ∧ deltaRun K x c p.1 p.2 = deltaRun K x c q.1 q.2 := by
    intro q hq
    obtain ⟨r, hr, rfl⟩ := List.mem_map.mp hq
    rw [← usedRoutes_fst (m := m)] at hr
    obtain ⟨p, hp, rfl⟩ := List.mem_map.mp hr
    exact ⟨p, hp, rfl, deltaRun_aligned h haligned hp⟩
  have hcover : ∀ p ∈ usedRoutes m b, ∃ q ∈ ownRoutes b.requests,
      q.1 = p.1 := by
    intro p hp
    have hmem := (usedRoutes_ok h).mem p hp
    exact ⟨(p.1, p.1.tokens), List.mem_map_of_mem hmem, rfl⟩
  refine { outputs := ?_, convStates := ?_, ssmStates := ?_ }
  · apply hrouted.outputs.exchange
    · intro q hq
      obtain ⟨p, hp, hfst, hrun⟩ := hrequests q hq
      exact ⟨p, hp, congrArg Request.tokens hfst, congrArg Prod.fst hrun⟩
    · intro p hp
      obtain ⟨q, hq, hfst⟩ := hcover p hp
      exact ⟨q, hq, congrArg Request.tokens hfst⟩
  · apply hrouted.convStates.exchange
    · intro q hq
      obtain ⟨p, hp, hfst, -⟩ := hrequests q hq
      exact ⟨p, hp, by rw [hfst], by rw [hfst]⟩
    · intro p hp
      obtain ⟨q, hq, hfst⟩ := hcover p hp
      exact ⟨q, hq, by rw [hfst]⟩
  · apply hrouted.ssmStates.exchange
    · intro q hq
      obtain ⟨p, hp, hfst, hrun⟩ := hrequests q hq
      exact ⟨p, hp, congrArg Request.slots hfst, congrArg Prod.snd hrun⟩
    · intro p hp
      obtain ⟨q, hq, hfst⟩ := hcover p hp
      exact ⟨q, hq, congrArg Request.slots hfst⟩

/-- Two requests with the same rows and states. -/
structure SameInputs (x x' : Rows Qkv A B) (c c' : Buffers ConvState SsmState Out)
    (r r' : Request) : Prop where
  accepted : r.accepted = r'.accepted
  hasInitialState : r.hasInitialState = r'.hasInitialState
  mixedQkv : own x.mixedQkv r.tokens = own x'.mixedQkv r'.tokens
  a : own x.a r.tokens = own x'.a r'.tokens
  b : own x.b r.tokens = own x'.b r'.tokens
  convState : c.convState r.convSlot = c'.convState r'.convSlot
  ssmState : r.slots.map c.ssmState = r'.slots.map c'.ssmState

private theorem SameInputs.convRun_eq {x' : Rows Qkv A B}
    {c' : Buffers ConvState SsmState Out} {r r' : Request}
    (hsame : SameInputs x x' c c' r r') :
    convRun K x c r = convRun K x' c' r' := by
  simp only [convRun, hsame.mixedQkv, hsame.hasInitialState, hsame.convState,
    hsame.accepted]

/-- A request gets the same outputs and states in any two batches. -/
theorem Isolated.same {m' : GDNAttentionMetadata} {b' : Batch}
    {x' : Rows Qkv A B} {c' : Buffers ConvState SsmState Out}
    (h : Isolated m b x c) (h' : Isolated m' b' x' c') (hK : K.Exact)
    (packed packed' : Bool) (uninit uninit' : Nat → Out) {r r' : Request}
    (hr : r ∈ b.requests) (hr' : r' ∈ b'.requests)
    (hsame : SameInputs x x' c c' r r') :
    ∃ res res', forwardCore K m packed uninit x c = some res ∧
      forwardCore K m' packed' uninit' x' c' = some res' ∧
      r.tokens.map res.coreAttnOut = r'.tokens.map res'.coreAttnOut ∧
      res.convState r.convSlot = res'.convState r'.convSlot ∧
      r.slots.map res.ssmState = r'.slots.map res'.ssmState := by
  obtain ⟨res, hres, hrouted⟩ := h K hK packed uninit
  obtain ⟨res', hres', hrouted'⟩ := h' K hK packed' uninit'
  have hmem : (r, r.tokens) ∈ ownRoutes b.requests := List.mem_map_of_mem hr
  have hmem' : (r', r'.tokens) ∈ ownRoutes b'.requests :=
    List.mem_map_of_mem hr'
  have hconv : convRun K x c r = convRun K x' c' r' := hsame.convRun_eq
  have hdelta : deltaRun K x c r r.tokens = deltaRun K x' c' r' r'.tokens := by
    rw [deltaRun, deltaRun, hconv, hsame.accepted, hsame.hasInitialState,
      hsame.a, hsame.b, hsame.ssmState]
  refine ⟨res, res', hres, hres', ?_, ?_, ?_⟩
  · exact (hrouted.outputs.own _ hmem).trans
      ((congrArg Prod.fst hdelta).trans (hrouted'.outputs.own _ hmem').symm)
  · have hstates : [res.convState r.convSlot] = [res'.convState r'.convSlot] :=
      (hrouted.convStates.own _ hmem).trans
        ((congrArg Prod.snd hconv).trans (hrouted'.convStates.own _ hmem').symm)
    exact List.singleton_injective hstates
  · exact (hrouted.ssmStates.own _ hmem).trans
      ((congrArg Prod.snd hdelta).trans (hrouted'.ssmStates.own _ hmem').symm)

/-! ## Kernels that show the gates -/

/-- Kernels whose outputs tell the gates of the row and nothing else. -/
def probeKernels (out : A → B → Out) (zeroConv : ConvState)
    (zeroSsm : SsmState) : Kernels Qkv A B ConvState SsmState Out where
  Conved := Unit
  Heads := Unit
  Prepared := A × B
  zeroConv := zeroConv
  zeroSsm := zeroSsm
  causalConv1dFn := fun sts xs => (xs.map fun _ => (), sts)
  causalConv1dUpdate := fun _ sts xs => (xs.map fun _ => (), sts)
  rearrangeMixedQkv := fun _ => ()
  fusedPostConvPrep := fun _ a b => (a, b)
  chunkGatedDeltaRule := fun sts rows => (rows.map fun row => out row.1 row.2, sts)
  fusedSigmoidGatingDeltaRuleUpdate := fun _ sts rows =>
    (rows.map fun row => out row.2.1 row.2.2, sts)
  fusedRecurrentPackedDecode := fun sts rows =>
    (rows.map fun row => out row.2.1 row.2.2, sts)

theorem probeKernels_exact (out : A → B → Out) (zeroConv : ConvState)
    (zeroSsm : SsmState) :
    (probeKernels out zeroConv zeroSsm :
      Kernels Qkv A B ConvState SsmState Out).Exact where
  convFn_rows := fun _ _ => List.length_map _
  convFn_states := fun _ _ => rfl
  convUpdate_rows := fun _ _ _ => List.length_map _
  convUpdate_states := fun _ _ _ => rfl
  recurrent_rows := fun _ _ _ => List.length_map _
  recurrent_states := fun _ _ _ => rfl
  convUpdate_eq := fun _ _ => rfl
  chunk_eq := by
    intro sts xs
    have hrows : ∀ rows : List (Unit × A × B),
        (rows.map fun row => (row.2.1, row.2.2)).map
            (fun row => out row.1 row.2) =
          (rows.map fun row => ((), row.2.1, row.2.2)).map
            fun row => out row.2.1 row.2.2 := by
      intro rows
      rw [List.map_map, List.map_map]
      rfl
    exact congrArg (·, sts) (hrows xs)
  packed_eq := fun _ _ => rfl

/-- What a probe shows of a one-token request. -/
private theorem probe_output (out : A → B → Out) (zeroConv : ConvState)
    (zeroSsm : SsmState) {r : Request} (haccepted : r.accepted = none)
    {row : Qkv} (hrow : own x.mixedQkv r.tokens = [row]) {i : Nat} {ga : A}
    {gb : B} (ha : x.a[i]? = some ga) (hb : x.b[i]? = some gb) :
    (deltaRun (probeKernels out zeroConv zeroSsm) x c r [i]).1 = [out ga gb] := by
  have howna : own x.a [i] = [ga] := by
    simp only [own, List.filterMap_cons, ha, List.filterMap_nil]
  have hownb : own x.b [i] = [gb] := by
    simp only [own, List.filterMap_cons, hb, List.filterMap_nil]
  have hconv : (convRun (probeKernels out zeroConv zeroSsm) x c r).1 = [()] := by
    rw [convRun, haccepted, hrow]
    rfl
  rw [deltaRun, howna, hownb, hconv]
  rfl

private theorem gatesAligned_of_isolated [Nontrivial Out] (h : Describes m b)
    (hx : Covers x m.numActualTokens) (hisolated : Isolated m b x c) :
    GatesAligned m x := by
  classical
  intro hmasks hprefills i t hi ht
  have hdecodes := h.nonSpec_eq_decodes (by omega)
  have hlen : i < b.nonSpec.length := by
    rw [hdecodes, ← h.numDecodes]
    exact hi
  obtain ⟨t', -, ht', hmem, htokens, -⟩ :=
    countedRoutes_gates h hmasks hprefills (countedRoutes_get hlen)
  rw [ht] at ht'
  cases ht'
  have hrequest := mem_requests_of_nonSpec hmem
  have htlt : t < m.numActualTokens := by
    refine h.token_lt hrequest t ?_
    rw [htokens]
    exact List.mem_singleton_self t
  have hilt : i < m.numActualTokens := by
    have hle := h.decodes_le
    rw [← h.numDecodes] at hle
    omega
  have hget : ∀ {α : Type} {xs : List α} {k : Nat}, k < m.numActualTokens →
      m.numActualTokens ≤ xs.length → ∃ y, xs[k]? = some y :=
    fun hk hle => ⟨_, List.getElem?_eq_getElem (Nat.lt_of_lt_of_le hk hle)⟩
  obtain ⟨row, hrow⟩ := hget htlt hx.mixedQkv
  obtain ⟨used, hused⟩ := hget hilt hx.a
  obtain ⟨used', hused'⟩ := hget hilt hx.b
  obtain ⟨proper, hproper⟩ := hget htlt hx.a
  obtain ⟨proper', hproper'⟩ := hget htlt hx.b
  obtain ⟨good, bad, hne⟩ := exists_pair_ne Out
  -- The output is `good` just when the gates are the token's own.
  let out : A → B → Out := fun a b =>
    if a = proper ∧ b = proper' then good else bad
  let K : Kernels Qkv A B ConvState SsmState Out :=
    probeKernels out (c.convState 0) (c.ssmState 0)
  have hK : K.Exact := probeKernels_exact out _ _
  obtain ⟨res, hres, hown⟩ := hisolated K hK false c.coreAttnOut
  obtain ⟨res', hres', hrouted⟩ :=
    forwardCore_routed (c := c) hK h hx false c.coreAttnOut
  rw [hres] at hres'
  cases hres'
  have hmemUsed : (b.nonSpec[i], [i]) ∈ usedRoutes m b := by
    apply List.mem_append_right
    rw [nonSpecRoutes, if_pos ⟨hmasks, hprefills⟩]
    exact List.mem_of_getElem? (countedRoutes_get hlen)
  have hmemOwn : (b.nonSpec[i], [t]) ∈ ownRoutes b.requests := by
    rw [← htokens]
    exact List.mem_map_of_mem hrequest
  have haccepted := h.wellFormed.nonSpec_accepted _ hmem
  have hrows : own x.mixedQkv b.nonSpec[i].tokens = [row] := by
    rw [htokens]
    simp only [own, List.filterMap_cons, hrow, List.filterMap_nil]
  have houtputs : (deltaRun K x c b.nonSpec[i] [i]).1 =
      (deltaRun K x c b.nonSpec[i] [t]).1 :=
    (hrouted.outputs.own _ hmemUsed).symm.trans (hown.outputs.own _ hmemOwn)
  rw [probe_output out _ _ haccepted hrows hused hused',
    probe_output out _ _ haccepted hrows hproper hproper'] at houtputs
  have hgood : out used used' = good :=
    (List.singleton_injective houtputs).trans (if_pos ⟨rfl, rfl⟩)
  have hgates : used = proper ∧ used' = proper' := by
    by_contra hbad
    exact hne ((if_neg hbad).symm.trans hgood).symm
  rw [hused, hused', hproper, hproper', hgates.1, hgates.2]
  exact ⟨rfl, rfl⟩

/-- Requests in one batch do not see each other exactly when the gates are
aligned. -/
theorem isolated_iff_gatesAligned [Nontrivial Out] (h : Describes m b)
    (hx : Covers x m.numActualTokens) :
    Isolated m b x c ↔ GatesAligned m x := by
  constructor
  · exact gatesAligned_of_isolated h hx
  · exact isolated_of_gatesAligned h hx

/-! ### A speculative request and a decode -/

/-- Tokens 0 and 1 are speculative, token 2 is a decode. -/
def mixedBatch : Batch where
  spec := [⟨[0, 1], [0, 1], some 1, true⟩]
  decodes := [⟨[2], [2], none, true⟩]
  prefills := []

def mixedMetadata : GDNAttentionMetadata where
  numPrefills := 0
  numDecodes := 1
  numDecodeTokens := 1
  numSpecDecodes := 1
  numActualTokens := 3
  hasInitialState := []
  specQueryStartLoc := [0, 2]
  nonSpecQueryStartLoc := [0, 1]
  specSequenceMasks := true
  specTokenIndx := [0, 1]
  nonSpecTokenIndx := [2]
  specStateIndicesTensor := [[0, 1]]
  nonSpecStateIndicesTensor := [2]
  numAcceptedTokens := [1]
  prefillStateIndices := none
  prefillHasInitialState := none
  prefillQueryStartLoc := []

def mixedRows (a : List Nat) : Rows Nat Nat Nat := ⟨[0, 1, 2], a, [20, 20, 20]⟩

def mixedBuffers : Buffers Nat Nat Nat := ⟨fun _ => 0, fun _ => 0, fun _ => 0⟩

theorem mixedMetadata_describes : Describes mixedMetadata mixedBatch where
  wellFormed := by
    refine
      { nonempty := List.cons_ne_nil _ _, partition := by decide
        slots := by decide, spec_slots := ?_, spec_accepted := by decide
        spec_state := by decide, nonSpec_slot := by decide
        nonSpec_accepted := by decide, decode_token := by decide
        decode_state := by decide }
    decide
  numPrefills := rfl
  numDecodes := rfl
  numDecodeTokens := rfl
  numSpecDecodes := rfl
  masks := fun _ => rfl
  specTokenIndx := fun _ _ => rfl
  nonSpecTokenIndx := fun _ _ => rfl
  spec_order := fun hnil => absurd hnil (List.cons_ne_nil _ _)
  nonSpec_order := fun hmasks => absurd hmasks.symm Bool.false_ne_true
  specQueryStartLoc := fun _ => rfl
  specStateIndices := fun _ => rfl
  numAcceptedTokens := fun _ => rfl
  nonSpecQueryStartLoc := fun _ => rfl
  nonSpecStateIndices := fun _ => rfl
  hasInitialState := fun hne => absurd rfl hne
  prefillStateIndices := fun hne => absurd rfl hne
  prefillHasInitialState := fun hne => absurd rfl hne
  prefillQueryStartLoc := fun hne => absurd rfl hne

theorem isolated_iff_gatesAligned_mixed :
    Isolated mixedMetadata mixedBatch (mixedRows [12, 11, 12]) mixedBuffers := by
  have hcovers : Covers (mixedRows [12, 11, 12]) 3 :=
    ⟨Nat.le_refl 3, Nat.le_refl 3, Nat.le_refl 3⟩
  apply (isolated_iff_gatesAligned mixedMetadata_describes hcovers).mpr
  intro _ _ i t hi ht
  have hzero : i = 0 := by
    have : i < 1 := hi
    omega
  subst hzero
  cases ht
  exact ⟨rfl, rfl⟩

/-- The decode is given the gates of token 0. -/
theorem mixed_not_isolated :
    Describes mixedMetadata mixedBatch ∧ Covers (mixedRows [10, 11, 12]) 3 ∧
      ¬ Isolated mixedMetadata mixedBatch (mixedRows [10, 11, 12])
        mixedBuffers := by
  refine ⟨mixedMetadata_describes,
    ⟨Nat.le_refl 3, Nat.le_refl 3, Nat.le_refl 3⟩, ?_⟩
  intro hisolated
  obtain ⟨res, hres, hrouted⟩ := hisolated (probeKernels (fun a _ => a) 0 0)
    (probeKernels_exact _ 0 0) false fun _ => 0
  cases hres
  have hmem : (⟨⟨[2], [2], none, true⟩, [2]⟩ : Request × List Nat) ∈
      ownRoutes mixedBatch.requests := List.mem_cons_of_mem _ List.mem_cons_self
  have houtput := hrouted.outputs.own _ hmem
  revert houtput
  decide

end FlashNext.Ports.GdnRouting
