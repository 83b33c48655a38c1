import FlashNext.Ports.GdnBatch
import Mathlib.Data.List.Nodup

/-!
# Gated delta net: the stages of `_forward_core`

One lemma for each stage: on the packed rows of a batch it computes, request
by request, what `convRun` and `deltaRun` say.
-/

namespace FlashNext.Ports.GdnRouting

open FlashNext.Verified.Scatter
open FlashNext.Verified.Varlen

variable {Qkv A B ConvState SsmState Out : Type}
  {K : Kernels Qkv A B ConvState SsmState Out} {x : Rows Qkv A B}
  {c : Buffers ConvState SsmState Out} {m : GDNAttentionMetadata} {b : Batch}

/-! ## Rows of some requests -/

theorem select_requests {α : Type} {xs : List α} {n : Nat}
    {rs : List Request} (hlen : n ≤ xs.length)
    (hlt : ∀ r ∈ rs, ∀ i ∈ r.tokens, i < n) :
    indexSelect (xs.take n) (rs.flatMap Request.tokens) =
      some (rs.flatMap fun r => own xs r.tokens) := by
  have hall : ∀ i ∈ rs.flatMap Request.tokens, i < n := by
    intro i hi
    obtain ⟨r, hr, hir⟩ := List.mem_flatMap.mp hi
    exact hlt r hr i hir
  have hbound : ∀ i ∈ rs.flatMap Request.tokens, i < (xs.take n).length := by
    intro i hi
    rw [List.length_take]
    have := hall i hi
    omega
  rw [indexSelect_eq_own hbound, own_take hall, own_flatMap]

theorem take_requests {α : Type} {xs : List α} {n : Nat}
    {rs : List Request} (hlen : n ≤ xs.length)
    (horder : rs.flatMap Request.tokens = List.range n) :
    xs.take n = rs.flatMap fun r => own xs r.tokens := by
  rw [← own_flatMap, horder, own_range hlen]

/-- The packed rows of some requests. -/
def rowsOf (x : Rows Qkv A B) (rs : List Request) : Rows Qkv A B where
  mixedQkv := rs.flatMap fun r => own x.mixedQkv r.tokens
  a := rs.flatMap fun r => own x.a r.tokens
  b := rs.flatMap fun r => own x.b r.tokens

/-! ## Splitting the tokens -/

/-- The tokens are split into the rows of the two kinds of requests. -/
structure SplitOk (m : GDNAttentionMetadata) (b : Batch) (x : Rows Qkv A B)
    (tokens : Option (Rows Qkv A B) × Option (List Qkv)) : Prop where
  spec_some : m.specSequenceMasks = true → tokens.1 = some (rowsOf x b.spec)
  spec_none : m.specSequenceMasks = false → tokens.1 = none
  nonSpec : b.nonSpec ≠ [] → tokens.2 = some (rowsOf x b.nonSpec).mixedQkv

theorem Describes.nonSpec_nil_iff (h : Describes m b) :
    b.nonSpec = [] ↔ m.numPrefills = 0 ∧ m.numDecodes = 0 := by
  rw [h.numPrefills, h.numDecodes, List.length_eq_zero_iff,
    List.length_eq_zero_iff, Batch.nonSpec, List.append_eq_nil_iff]
  exact and_comm

theorem splitTokens_ok (h : Describes m b) (hx : Covers x m.numActualTokens) :
    ∃ tokens, splitTokens m (x.take m.numActualTokens) = some tokens ∧
      SplitOk m b x tokens := by
  have hlt := fun r (hr : r ∈ b.spec) => h.token_lt (mem_requests_of_spec hr)
  have hlt' := fun r (hr : r ∈ b.nonSpec) =>
    h.token_lt (mem_requests_of_nonSpec hr)
  cases hmasks : m.specSequenceMasks with
  | false =>
      refine ⟨(none, some (x.mixedQkv.take m.numActualTokens)), ?_, ?_⟩
      · simp [splitTokens, hmasks, Rows.take]
      · refine { spec_some := ?_, spec_none := fun _ => rfl, nonSpec := ?_ }
        · rw [hmasks]
          exact fun hfalse => by cases hfalse
        · intro _
          exact congrArg some (take_requests hx.mixedQkv (h.nonSpec_order hmasks))
  | true =>
      by_cases hnil : b.nonSpec = []
      · have horder := h.spec_order hnil
        refine ⟨(some (x.take m.numActualTokens), none), ?_, ?_⟩
        · simp [splitTokens, hmasks, h.nonSpec_nil_iff.mp hnil]
        · refine
            { spec_some := fun _ => ?_, spec_none := ?_
              nonSpec := fun hne => absurd hnil hne }
          · rw [Rows.take, take_requests hx.mixedQkv horder,
              take_requests hx.a horder, take_requests hx.b horder]
            rfl
          · rw [hmasks]
            exact fun htrue => by cases htrue
      · have hpresent : ¬ (m.numPrefills = 0 ∧ m.numDecodes = 0) :=
          fun hzero => hnil (h.nonSpec_nil_iff.mpr hzero)
        refine ⟨(some (rowsOf x b.spec), some (rowsOf x b.nonSpec).mixedQkv),
          ?_, ?_⟩
        · rw [splitTokens, if_pos hmasks, if_neg hpresent,
            h.specTokenIndx hmasks hnil, h.nonSpecTokenIndx hmasks hnil]
          simp only [Rows.take, select_requests hx.mixedQkv hlt,
            select_requests hx.a hlt, select_requests hx.b hlt,
            select_requests hx.mixedQkv hlt']
          rfl
        · refine
            { spec_some := fun _ => rfl, spec_none := ?_
              nonSpec := fun _ => rfl }
          rw [hmasks]
          exact fun htrue => by cases htrue

/-! ## Slots -/

private theorem convSlot_mem {r : Request} (hr : r.slots ≠ []) :
    r.convSlot ∈ r.slots := by
  rw [Request.convSlot]
  cases hslots : r.slots with
  | nil => exact absurd hslots hr
  | cons i slots => exact List.mem_cons_self

private theorem Describes.slots_ne (h : Describes m b) {r : Request}
    (hr : r ∈ b.requests) : r.slots ≠ [] := by
  rcases List.mem_append.mp hr with hspec | hnonSpec
  · exact h.wellFormed.spec_slots r hspec
  · rw [h.wellFormed.nonSpec_slot r hnonSpec]
    exact List.cons_ne_nil _ _

private theorem nodup_convSlots {rs : List Request}
    (hslots : (rs.flatMap Request.slots).Nodup)
    (hne : ∀ r ∈ rs, r.slots ≠ []) :
    (rs.flatMap fun r => [r.convSlot]).Nodup := by
  rw [List.nodup_flatMap] at hslots ⊢
  refine ⟨fun r _ => List.nodup_singleton _, ?_⟩
  refine hslots.2.imp_of_mem fun {r r'} hr hr' hdisjoint i hi hi' => ?_
  rw [List.mem_singleton.mp hi] at hi'
  have heq := List.mem_singleton.mp hi'
  refine hdisjoint (convSlot_mem (hne r hr)) ?_
  rw [heq]
  exact convSlot_mem (hne r' hr')

theorem Describes.spec_slots_nodup (h : Describes m b) :
    (b.spec.flatMap Request.slots).Nodup := by
  have hslots := h.wellFormed.slots
  rw [Batch.requests, List.flatMap_append] at hslots
  exact hslots.of_append_left

theorem Describes.nonSpec_slots_nodup (h : Describes m b) :
    (b.nonSpec.flatMap Request.slots).Nodup := by
  have hslots := h.wellFormed.slots
  rw [Batch.requests, List.flatMap_append] at hslots
  exact hslots.of_append_right

theorem Describes.slots_disjoint (h : Describes m b) {r r' : Request}
    (hr : r ∈ b.spec) (hr' : r' ∈ b.nonSpec) {i : Nat} (hi : i ∈ r.slots) :
    i ∉ r'.slots := by
  intro hi'
  have hslots := h.wellFormed.slots
  rw [Batch.requests, List.flatMap_append] at hslots
  exact List.disjoint_of_nodup_append hslots
    (List.mem_flatMap.mpr ⟨r, hr, hi⟩) (List.mem_flatMap.mpr ⟨r', hr', hi'⟩)

theorem Describes.convSlots_disjoint (h : Describes m b) {r r' : Request}
    (hr : r ∈ b.spec) (hr' : r' ∈ b.nonSpec) : r.convSlot ≠ r'.convSlot := by
  intro heq
  have hmem := convSlot_mem (h.slots_ne (mem_requests_of_spec hr))
  have hmem' := convSlot_mem (h.slots_ne (mem_requests_of_nonSpec hr'))
  exact h.slots_disjoint hr hr' hmem (heq ▸ hmem')

/-! ## Convolution -/

theorem length_initialStates {σ : Type} (zero : σ) (has : Bool) (sts : List σ) :
    (initialStates zero has sts).length = sts.length := by
  rw [initialStates]
  split
  · rfl
  · exact List.length_map _

private theorem convRun_states (hK : K.Exact) (r : Request) :
    (convRun K x c r).2.length = [r.convSlot].length := by
  have hsts := length_initialStates K.zeroConv r.hasInitialState
    [c.convState r.convSlot]
  rw [convRun]
  cases r.accepted with
  | none => exact (hK.convFn_states _ _).trans hsts
  | some n => exact (hK.convUpdate_states _ _ _).trans hsts

private theorem length_own_mixedQkv (h : Describes m b)
    (hx : Covers x m.numActualTokens) {r : Request} (hr : r ∈ b.requests) :
    (own x.mixedQkv r.tokens).length = r.tokens.length :=
  length_own fun i hi => Nat.lt_of_lt_of_le (h.token_lt hr i hi) hx.mixedQkv

/-- The convolution of the speculative requests. -/
private theorem conv_spec_requests (hK : K.Exact) (h : Describes m b)
    (hx : Covers x m.numActualTokens) (hmasks : m.specSequenceMasks = true) :
    (convSpec K m (some (rowsOf x b.spec)) c.convState).1 =
        some (b.spec.flatMap fun r => (convRun K x c r).1) ∧
      Stored (fun r : Request => [r.convSlot]) (fun r => (convRun K x c r).2)
        b.spec c.convState
        (convSpec K m (some (rowsOf x b.spec)) c.convState).2 := by
  have hrun : ∀ r ∈ b.spec,
      K.causalConv1dUpdate (some (r.accepted.getD 0))
        ([r.convSlot].map c.convState) (own x.mixedQkv r.tokens) =
          convRun K x c r := by
    intro r hr
    obtain ⟨n, hn⟩ := Option.isSome_iff_exists.mp
      (h.wellFormed.spec_accepted r hr)
    rw [convRun, hn, initialStates, if_pos (h.wellFormed.spec_state r hr)]
    rfl
  have hnums : m.numAcceptedTokens =
      b.spec.map fun r => r.accepted.getD 0 := by
    have hmap := congrArg (List.map fun o : Option Nat => o.getD 0)
      (h.numAcceptedTokens hmasks)
    simpa [Function.comp_def] using hmap
  have hindices : ((m.specStateIndicesTensor.map (·.headD 0)).take
      m.numSpecDecodes).map (fun i => [i]) =
        b.spec.map fun r => [r.convSlot] := by
    rw [h.specStateIndices hmasks, h.numSpecDecodes, List.map_map,
      List.take_of_length_le (by rw [List.length_map]), List.map_map]
    rfl
  have hsegments : segments m.specQueryStartLoc (rowsOf x b.spec).mixedQkv =
      b.spec.map fun r => own x.mixedQkv r.tokens := by
    rw [h.specQueryStartLoc hmasks]
    exact segments_flatMap _ _ _ fun r hr =>
      length_own_mixedQkv h hx (mem_requests_of_spec hr)
  obtain ⟨hout, hstored⟩ := varlen_map
    (f := fun acc sts xs => K.causalConv1dUpdate (some acc) sts xs) hrun
    (fun r _ => convRun_states hK r)
    (nodup_convSlots h.spec_slots_nodup h.wellFormed.spec_slots)
  simp only [convSpec, hindices, hnums, hsegments, List.zip_map']
  exact ⟨congrArg some hout, hstored⟩

/-- 1.1 as a whole. -/
theorem convSpec_ok (hK : K.Exact) (h : Describes m b)
    (hx : Covers x m.numActualTokens)
    {tokens : Option (Rows Qkv A B) × Option (List Qkv)}
    (htokens : SplitOk m b x tokens) :
    (m.specSequenceMasks = true →
        (convSpec K m tokens.1 c.convState).1 =
          some (b.spec.flatMap fun r => (convRun K x c r).1)) ∧
      Stored (fun r : Request => [r.convSlot]) (fun r => (convRun K x c r).2)
        b.spec c.convState (convSpec K m tokens.1 c.convState).2 := by
  cases hmasks : m.specSequenceMasks with
  | false =>
      rw [htokens.spec_none hmasks, h.spec_nil hmasks]
      exact ⟨fun hfalse => absurd hfalse Bool.false_ne_true, stored_nil _⟩
  | true =>
      obtain ⟨hout, hstored⟩ := conv_spec_requests hK h hx hmasks
      rw [htokens.spec_some hmasks]
      exact ⟨fun _ => hout, hstored⟩

theorem length_flatMap_one {α : Type} {rs : List Request}
    {rows : Request → List α} (hone : ∀ r ∈ rs, (rows r).length = 1) :
    (rs.flatMap rows).length = rs.length := by
  induction rs with
  | nil => rfl
  | cons r rs ih =>
      have hr := hone r List.mem_cons_self
      have hrest := ih fun q hq => hone q (List.mem_cons_of_mem _ hq)
      rw [List.flatMap_cons, List.length_append, hr, hrest, List.length_cons,
        Nat.add_comm]

/-- Every decode has a token. -/
theorem Describes.decodes_le (h : Describes m b) :
    b.decodes.length ≤ m.numActualTokens := by
  have htotal := h.wellFormed.partition.length_eq
  have hone := length_flatMap_one h.wellFormed.decode_token
  rw [List.length_range, Batch.requests, Batch.nonSpec, List.flatMap_append,
    List.flatMap_append, List.length_append, List.length_append, hone] at htotal
  omega

theorem Describes.prefills_nil (h : Describes m b)
    (hprefills : ¬ 0 < m.numPrefills) : b.prefills = [] := by
  rw [h.numPrefills] at hprefills
  exact List.eq_nil_of_length_eq_zero (by omega)

theorem Describes.nonSpec_eq_decodes (h : Describes m b)
    (hprefills : ¬ 0 < m.numPrefills) : b.nonSpec = b.decodes := by
  rw [Batch.nonSpec, h.prefills_nil hprefills, List.append_nil]

private theorem Describes.nonSpec_ne (h : Describes m b) :
    ∀ r ∈ b.nonSpec, r.slots ≠ [] :=
  fun _ hr => h.slots_ne (mem_requests_of_nonSpec hr)

/-- The update kernel on the one-token decodes of a batch without prefills. -/
theorem conv_decodes (hK : K.Exact) (h : Describes m b)
    (hx : Covers x m.numActualTokens) (hprefills : ¬ 0 < m.numPrefills)
    (hne : b.nonSpec ≠ []) {convState : Nat → ConvState}
    (hconv : ∀ r ∈ b.nonSpec, convState r.convSlot = c.convState r.convSlot) :
    let out := varlen (fun acc sts xs => K.causalConv1dUpdate acc sts xs)
      ((m.nonSpecStateIndicesTensor.take m.numActualTokens).map
        fun i => (none, [i]))
      ((rowsOf x b.nonSpec).mixedQkv.map fun x => [x]) convState
    out.1 = b.nonSpec.flatMap (fun r => (convRun K x c r).1) ∧
      Stored (fun r : Request => [r.convSlot]) (fun r => (convRun K x c r).2)
        b.nonSpec convState out.2 := by
  have hdecodes := h.nonSpec_eq_decodes hprefills
  have hone : ∀ r ∈ b.nonSpec, (own x.mixedQkv r.tokens).length = 1 := by
    intro r hr
    rw [length_own_mixedQkv h hx (mem_requests_of_nonSpec hr)]
    exact h.wellFormed.decode_token r (hdecodes ▸ hr)
  have hrun : ∀ r ∈ b.nonSpec,
      K.causalConv1dUpdate none ([r.convSlot].map convState)
        (own x.mixedQkv r.tokens) = convRun K x c r := by
    intro r hr
    obtain ⟨row, hrow⟩ := List.length_eq_one_iff.mp (hone r hr)
    rw [convRun, h.wellFormed.nonSpec_accepted r hr, initialStates,
      if_pos (h.wellFormed.decode_state r (hdecodes ▸ hr)), hrow,
      hK.convUpdate_eq, List.map_cons, List.map_nil, hconv r hr]
  have hindices : (m.nonSpecStateIndicesTensor.take m.numActualTokens).map
      (fun i => ((none : Option Nat), [i])) =
        b.nonSpec.map fun r => (none, [r.convSlot]) := by
    have hlen : b.nonSpec.length ≤ m.numActualTokens := by
      rw [hdecodes]
      exact h.decodes_le
    rw [h.nonSpecStateIndices hne,
      List.take_of_length_le (by rw [List.length_map]; exact hlen),
      List.map_map]
    rfl
  have hrows : (rowsOf x b.nonSpec).mixedQkv.map (fun x => [x]) =
      b.nonSpec.map fun r => own x.mixedQkv r.tokens :=
    map_flatMap_singleton _ _ hone
  intro out
  have hout : out = varlen (fun acc sts xs => K.causalConv1dUpdate acc sts xs)
      (b.nonSpec.map fun r => (none, [r.convSlot]))
      (b.nonSpec.map fun r => own x.mixedQkv r.tokens) convState := by
    rw [← hindices, ← hrows]
  rw [hout]
  exact varlen_map hrun (fun r _ => convRun_states hK r)
    (nodup_convSlots h.nonSpec_slots_nodup h.nonSpec_ne)

/-- The convolution of the other requests. -/
theorem convNonSpec_ok (hK : K.Exact) (h : Describes m b)
    (hx : Covers x m.numActualTokens)
    {tokens : Option (Rows Qkv A B) × Option (List Qkv)}
    (htokens : SplitOk m b x tokens) {convState : Nat → ConvState}
    (hconv : ∀ r ∈ b.nonSpec, convState r.convSlot = c.convState r.convSlot) :
    ∃ out, convNonSpec K m tokens.2 convState = some out ∧
      (b.nonSpec ≠ [] →
        out.1 = some (b.nonSpec.flatMap fun r => (convRun K x c r).1)) ∧
      Stored (fun r : Request => [r.convSlot]) (fun r => (convRun K x c r).2)
        b.nonSpec convState out.2 := by
  by_cases hnil : b.nonSpec = []
  · obtain ⟨hprefills, hdecodes⟩ := h.nonSpec_nil_iff.mp hnil
    refine ⟨(none, convState), ?_, fun hne => absurd hnil hne, ?_⟩
    · simp [convNonSpec, hprefills, hdecodes]
    · rw [hnil]
      exact stored_nil _
  · rw [htokens.nonSpec hnil]
    by_cases hprefills : 0 < m.numPrefills
    · have hne : b.prefills ≠ [] := by
        rw [h.numPrefills] at hprefills
        exact List.ne_nil_of_length_pos hprefills
      have hrun : ∀ r ∈ b.nonSpec,
          K.causalConv1dFn (initialStates K.zeroConv r.hasInitialState
            ([r.convSlot].map convState)) (own x.mixedQkv r.tokens) =
              convRun K x c r := by
        intro r hr
        rw [convRun, h.wellFormed.nonSpec_accepted r hr, List.map_cons,
          List.map_nil, hconv r hr]
      have hsegments :
          segments m.nonSpecQueryStartLoc (rowsOf x b.nonSpec).mixedQkv =
            b.nonSpec.map fun r => own x.mixedQkv r.tokens := by
        rw [h.nonSpecQueryStartLoc hnil]
        exact segments_flatMap _ _ _ fun r hr =>
          length_own_mixedQkv h hx (mem_requests_of_nonSpec hr)
      have hreqs : m.hasInitialState.zip
          (m.nonSpecStateIndicesTensor.map fun i => [i]) =
            b.nonSpec.map fun r => (r.hasInitialState, [r.convSlot]) := by
        rw [h.hasInitialState hne, h.nonSpecStateIndices hnil, List.map_map,
          List.zip_map']
        rfl
      obtain ⟨hout, hstored⟩ := varlen_map
        (f := fun has sts xs =>
          K.causalConv1dFn (initialStates K.zeroConv has sts) xs)
        hrun (fun r _ => convRun_states hK r)
        (nodup_convSlots h.nonSpec_slots_nodup h.nonSpec_ne)
      rw [← hreqs, ← hsegments] at hout hstored
      refine ⟨(some _, _), ?_, fun _ => congrArg some hout, hstored⟩
      rw [convNonSpec, if_pos hprefills]
      rfl
    · have hdecodes : 0 < m.numDecodes := by
        apply Nat.pos_of_ne_zero
        exact fun hzero => hnil (h.nonSpec_nil_iff.mpr ⟨by omega, hzero⟩)
      obtain ⟨hout, hstored⟩ := conv_decodes hK h hx hprefills hnil hconv
      refine ⟨(some _, _), ?_, fun _ => congrArg some hout, hstored⟩
      rw [convNonSpec, if_neg hprefills, if_pos hdecodes]
      rfl

end FlashNext.Ports.GdnRouting
