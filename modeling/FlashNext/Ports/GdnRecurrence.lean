import FlashNext.Ports.GdnStages

/-!
# Gated delta net: the recurrence stages

The recurrent kernel and the chunk kernel, on the packed rows of some requests,
compute `deltaRun` of every request.  The gates are packed on their own: every
request comes with the positions its gates were taken from.
-/

namespace FlashNext.Ports.GdnRouting

open FlashNext.Verified.Scatter
open FlashNext.Verified.Varlen

variable {Qkv A B ConvState SsmState Out : Type}
  {K : Kernels Qkv A B ConvState SsmState Out} {x : Rows Qkv A B}
  {c : Buffers ConvState SsmState Out} {m : GDNAttentionMetadata} {b : Batch}

/-! ## Pairing packed rows -/

private theorem pairRows_flatMap {α τ : Type} (ps : List τ) (f : τ → List α)
    (g : τ → List A) (g' : τ → List B)
    (hrows : ∀ p ∈ ps, (f p).length = (g p).length)
    (hgates : ∀ p ∈ ps, (g p).length = (g' p).length) :
    pairRows (ps.flatMap f) (ps.flatMap g) (ps.flatMap g') =
      ps.flatMap fun p => pairRows (f p) (g p) (g' p) := by
  rw [pairRows, zip_flatMap ps g g' hgates]
  apply zip_flatMap ps f
  intro p hp
  rw [List.length_zip, hrows p hp, hgates p hp, Nat.min_self]

/-- Gate rows behind the last row are not read. -/
private theorem pairRows_append {α : Type} {rows : List α} {a aMore : List A}
    {b bMore : List B} (ha : rows.length = a.length)
    (hb : a.length = b.length) :
    pairRows rows (a ++ aMore) (b ++ bMore) = pairRows rows a b := by
  have hzip : rows.length = (a.zip b).length := by
    rw [List.length_zip, ← hb, Nat.min_self, ha]
  have happend : (rows ++ []).zip (a.zip b ++ aMore.zip bMore) =
      rows.zip (a.zip b) ++ [].zip (aMore.zip bMore) := List.zip_append hzip
  rw [pairRows, pairRows, List.zip_append hb]
  rwa [List.append_nil, List.zip_nil_left, List.append_nil] at happend

/-! ## Requests with their gates -/

/-- Every request comes with one gate position for each of its tokens. -/
structure RoutesOk (m : GDNAttentionMetadata) (b : Batch) (ps : Routes) :
    Prop where
  mem : ∀ p ∈ ps, p.1 ∈ b.requests
  gates_length : ∀ p ∈ ps, p.2.length = p.1.tokens.length
  gates_lt : ∀ p ∈ ps, ∀ i ∈ p.2, i < m.numActualTokens
  slots : (ps.flatMap fun p => p.1.slots).Nodup

theorem ownRoutes_ok (h : Describes m b) {rs : List Request}
    (hmem : ∀ r ∈ rs, r ∈ b.requests)
    (hslots : (rs.flatMap Request.slots).Nodup) :
    RoutesOk m b (ownRoutes rs) where
  mem := by
    intro p hp
    obtain ⟨r, hr, rfl⟩ := List.mem_map.mp hp
    exact hmem r hr
  gates_length := by
    intro p hp
    obtain ⟨r, hr, rfl⟩ := List.mem_map.mp hp
    rfl
  gates_lt := by
    intro p hp
    obtain ⟨r, hr, rfl⟩ := List.mem_map.mp hp
    exact h.token_lt (hmem r hr)
  slots := by
    rw [ownRoutes, List.flatMap_map]
    exact hslots

/-- The rows of one request with their gates. -/
def routeRows (K : Kernels Qkv A B ConvState SsmState Out) (x : Rows Qkv A B)
    (c : Buffers ConvState SsmState Out) (p : Request × List Nat) :
    List (K.Conved × A × B) :=
  pairRows (convRun K x c p.1).1 (own x.a p.2) (own x.b p.2)

theorem deltaRun_eq (p : Request × List Nat) :
    deltaRun K x c p.1 p.2 =
      K.fusedSigmoidGatingDeltaRuleUpdate p.1.accepted
        (initialStates K.zeroSsm p.1.hasInitialState (p.1.slots.map c.ssmState))
        ((routeRows K x c p).map K.recurrentRow) := rfl

private theorem length_convRun (hK : K.Exact) (r : Request) :
    (convRun K x c r).1.length = (own x.mixedQkv r.tokens).length := by
  rw [convRun]
  cases r.accepted with
  | none => exact hK.convFn_rows _ _
  | some n => exact hK.convUpdate_rows _ _ _

theorem deltaRun_states (hK : K.Exact) (p : Request × List Nat) :
    (deltaRun K x c p.1 p.2).2.length = p.1.slots.length := by
  rw [deltaRun_eq, hK.recurrent_states, length_initialStates, List.length_map]

section Packed

variable (hK : K.Exact) (h : Describes m b) (hx : Covers x m.numActualTokens)
  {ps : Routes} (hps : RoutesOk m b ps)

include hK h hx hps

theorem length_route {p : Request × List Nat} (hp : p ∈ ps) :
    (convRun K x c p.1).1.length = p.1.tokens.length ∧
      (own x.a p.2).length = p.1.tokens.length ∧
      (own x.b p.2).length = p.1.tokens.length := by
  have hgates := hps.gates_length p hp
  have hlt := hps.gates_lt p hp
  refine ⟨?_, ?_, ?_⟩
  · rw [length_convRun hK]
    exact length_own fun i hi =>
      Nat.lt_of_lt_of_le (h.token_lt (hps.mem p hp) i hi) hx.mixedQkv
  · rw [length_own fun i hi => Nat.lt_of_lt_of_le (hlt i hi) hx.a, hgates]
  · rw [length_own fun i hi => Nat.lt_of_lt_of_le (hlt i hi) hx.b, hgates]

theorem length_routeRows {p : Request × List Nat} (hp : p ∈ ps) :
    (routeRows K x c p).length = p.1.tokens.length := by
  obtain ⟨hconv, ha, hb⟩ := length_route (c := c) hK h hx hps hp
  rw [routeRows, pairRows, List.length_zip, List.length_zip, hconv, ha, hb,
    Nat.min_self, Nat.min_self]

theorem pairRows_routes :
    pairRows (ps.flatMap fun p => (convRun K x c p.1).1)
      (ps.flatMap fun p => own x.a p.2) (ps.flatMap fun p => own x.b p.2) =
        ps.flatMap (routeRows K x c) := by
  refine pairRows_flatMap ps _ _ _ (fun p hp => ?_) (fun p hp => ?_)
  · obtain ⟨hconv, ha, -⟩ := length_route (c := c) hK h hx hps hp
    rw [hconv, ha]
  · obtain ⟨-, ha, hb⟩ := length_route (c := c) hK h hx hps hp
    rw [ha, hb]

/-- The packed rows, as some kernel reads them, cut apart again. -/
private theorem segments_routes {β : Type} (read : K.Conved × A × B → β) :
    segments (cuSeqlens 0 (ps.map fun p => p.1.tokens.length))
      ((ps.flatMap (routeRows K x c)).map read) =
        ps.map fun p => (routeRows K x c p).map read := by
  rw [List.map_flatMap]
  apply segments_flatMap
  intro p hp
  rw [List.length_map, length_routeRows hK h hx hps hp]

/-- The recurrent kernel on requests that have a state. -/
theorem recurrentUpdate_ok
    (hstate : ∀ p ∈ ps, p.1.hasInitialState = true) {ssmState : Nat → SsmState}
    (hssm : ∀ p ∈ ps, ∀ i ∈ p.1.slots, ssmState i = c.ssmState i) :
    let out := recurrentUpdate K (ps.map fun p => (p.1.accepted, p.1.slots))
      (cuSeqlens 0 (ps.map fun p => p.1.tokens.length))
      (ps.flatMap fun p => (convRun K x c p.1).1)
      (ps.flatMap fun p => own x.a p.2) (ps.flatMap fun p => own x.b p.2)
      ssmState
    out.1 = ps.flatMap (fun p => (deltaRun K x c p.1 p.2).1) ∧
      Stored (fun p : Request × List Nat => p.1.slots)
        (fun p => (deltaRun K x c p.1 p.2).2) ps ssmState out.2 := by
  have hrun : ∀ p ∈ ps,
      K.fusedSigmoidGatingDeltaRuleUpdate p.1.accepted
        (p.1.slots.map ssmState) ((routeRows K x c p).map K.recurrentRow) =
          deltaRun K x c p.1 p.2 := by
    intro p hp
    have hslots : p.1.slots.map ssmState = p.1.slots.map c.ssmState :=
      List.map_congr_left fun i hi => hssm p hp i hi
    rw [deltaRun_eq, initialStates, if_pos (hstate p hp), hslots]
  have hrows := pairRows_routes (c := c) hK h hx hps
  have hsegments := segments_routes (c := c) hK h hx hps K.recurrentRow
  intro out
  have hout : out =
      varlen (fun acc sts xs => K.fusedSigmoidGatingDeltaRuleUpdate acc sts xs)
        (ps.map fun p => (p.1.accepted, p.1.slots))
        (ps.map fun p => (routeRows K x c p).map K.recurrentRow) ssmState := by
    rw [← hsegments, ← hrows]
    rfl
  rw [hout]
  exact varlen_map hrun (fun p _ => deltaRun_states hK p) hps.slots

/-- The chunk kernel on requests that are not speculative. -/
theorem chunk_ok (hnonSpec : ∀ p ∈ ps, p.1 ∈ b.nonSpec)
    {ssmState : Nat → SsmState}
    (hssm : ∀ p ∈ ps, ∀ i ∈ p.1.slots, ssmState i = c.ssmState i) :
    let out := varlen
      (fun has sts xs =>
        K.chunkGatedDeltaRule (initialStates K.zeroSsm has sts) xs)
      (ps.map fun p => (p.1.hasInitialState, [p.1.convSlot]))
      (segments (cuSeqlens 0 (ps.map fun p => p.1.tokens.length))
        ((pairRows (ps.flatMap fun p => (convRun K x c p.1).1)
          (ps.flatMap fun p => own x.a p.2)
          (ps.flatMap fun p => own x.b p.2)).map K.chunkRow)) ssmState
    out.1 = ps.flatMap (fun p => (deltaRun K x c p.1 p.2).1) ∧
      Stored (fun p : Request × List Nat => p.1.slots)
        (fun p => (deltaRun K x c p.1 p.2).2) ps ssmState out.2 := by
  have hslot : ∀ p ∈ ps, [p.1.convSlot] = p.1.slots := fun p hp =>
    (h.wellFormed.nonSpec_slot p.1 (hnonSpec p hp)).symm
  have hrun : ∀ p ∈ ps,
      K.chunkGatedDeltaRule
        (initialStates K.zeroSsm p.1.hasInitialState (p.1.slots.map ssmState))
        ((routeRows K x c p).map K.chunkRow) = deltaRun K x c p.1 p.2 := by
    intro p hp
    have hslots : p.1.slots.map ssmState = p.1.slots.map c.ssmState :=
      List.map_congr_left fun i hi => hssm p hp i hi
    rw [hK.chunk_eq, hslots, deltaRun_eq,
      h.wellFormed.nonSpec_accepted p.1 (hnonSpec p hp)]
  have hreqs : (ps.map fun p => (p.1.hasInitialState, [p.1.convSlot])) =
      ps.map fun p => (p.1.hasInitialState, p.1.slots) := by
    apply List.map_congr_left
    intro p hp
    rw [hslot p hp]
  rw [hreqs, pairRows_routes hK h hx hps, segments_routes hK h hx hps]
  exact varlen_map hrun (fun p _ => deltaRun_states hK p) hps.slots

/-- What the recurrent kernel is given beyond these requests is not read. -/
theorem recurrentUpdate_append (more : List (Option Nat × List Nat))
    (aMore : List A) (bMore : List B) (ssmState : Nat → SsmState) :
    recurrentUpdate K ((ps.map fun p => (p.1.accepted, p.1.slots)) ++ more)
        (cuSeqlens 0 (ps.map fun p => p.1.tokens.length))
        (ps.flatMap fun p => (convRun K x c p.1).1)
        ((ps.flatMap fun p => own x.a p.2) ++ aMore)
        ((ps.flatMap fun p => own x.b p.2) ++ bMore) ssmState =
      recurrentUpdate K (ps.map fun p => (p.1.accepted, p.1.slots))
        (cuSeqlens 0 (ps.map fun p => p.1.tokens.length))
        (ps.flatMap fun p => (convRun K x c p.1).1)
        (ps.flatMap fun p => own x.a p.2) (ps.flatMap fun p => own x.b p.2)
        ssmState := by
  have hlens : ∀ p ∈ ps, (convRun K x c p.1).1.length = (own x.a p.2).length ∧
      (own x.a p.2).length = (own x.b p.2).length := by
    intro p hp
    obtain ⟨hconv, ha, hb⟩ := length_route (c := c) hK h hx hps hp
    exact ⟨hconv.trans ha.symm, ha.trans hb.symm⟩
  have hrows : (ps.flatMap fun p => (convRun K x c p.1).1).length =
      (ps.flatMap fun p => own x.a p.2).length := by
    rw [List.length_flatMap, List.length_flatMap]
    exact congrArg List.sum (List.map_congr_left fun p hp => (hlens p hp).1)
  have hgates : (ps.flatMap fun p => own x.a p.2).length =
      (ps.flatMap fun p => own x.b p.2).length := by
    rw [List.length_flatMap, List.length_flatMap]
    exact congrArg List.sum (List.map_congr_left fun p hp => (hlens p hp).2)
  rw [recurrentUpdate, recurrentUpdate, pairRows_append hrows hgates,
    pairRows_routes hK h hx hps, segments_routes hK h hx hps]
  apply varlen_append
  rw [List.length_map, List.length_map]

end Packed

/-! ## 2.1: the multi-query part -/

theorem flatMap_ownRoutes {β : Type} (rs : List Request)
    (f : Request × List Nat → List β) :
    (ownRoutes rs).flatMap f = rs.flatMap fun r => f (r, r.tokens) := by
  rw [ownRoutes, List.flatMap_map]

/-- 2.1 as a whole. -/
theorem recurrentSpec_ok (hK : K.Exact) (h : Describes m b)
    (hx : Covers x m.numActualTokens)
    {tokens : Option (Rows Qkv A B) × Option (List Qkv)}
    (htokens : SplitOk m b x tokens) {conved : Option (List K.Conved)}
    (hconved : m.specSequenceMasks = true →
      conved = some (b.spec.flatMap fun r => (convRun K x c r).1)) :
    let out := recurrentSpec K m tokens.1 conved c.ssmState
    (m.specSequenceMasks = true → out.1 =
        some ((ownRoutes b.spec).flatMap fun p => (deltaRun K x c p.1 p.2).1)) ∧
      (m.specSequenceMasks = false → out.1 = none) ∧
      Stored (fun p : Request × List Nat => p.1.slots)
        (fun p => (deltaRun K x c p.1 p.2).2) (ownRoutes b.spec) c.ssmState
        out.2 := by
  cases hmasks : m.specSequenceMasks with
  | false =>
      rw [htokens.spec_none hmasks, h.spec_nil hmasks]
      exact ⟨fun hfalse => absurd hfalse Bool.false_ne_true, fun _ => rfl,
        stored_nil _⟩
  | true =>
      have hps : RoutesOk m b (ownRoutes b.spec) :=
        ownRoutes_ok h (fun r hr => mem_requests_of_spec hr) h.spec_slots_nodup
      have hstate : ∀ p ∈ ownRoutes b.spec, p.1.hasInitialState = true := by
        intro p hp
        obtain ⟨r, hr, rfl⟩ := List.mem_map.mp hp
        exact h.wellFormed.spec_state r hr
      have hreqs : (m.numAcceptedTokens.map some).zip m.specStateIndicesTensor =
          (ownRoutes b.spec).map fun p => (p.1.accepted, p.1.slots) := by
        rw [h.numAcceptedTokens hmasks, h.specStateIndices hmasks, List.zip_map',
          ownRoutes, List.map_map]
        rfl
      have hcu : m.specQueryStartLoc.take (m.numSpecDecodes + 1) =
          cuSeqlens 0 ((ownRoutes b.spec).map fun p => p.1.tokens.length) := by
        have htake := take_cuSeqlens 0 (rowCounts b.spec) []
        rw [List.append_nil, rowCounts, List.length_map] at htake
        rw [h.specQueryStartLoc hmasks, h.numSpecDecodes, rowCounts, htake,
          ownRoutes, List.map_map]
        rfl
      have hssm : ∀ p ∈ ownRoutes b.spec, ∀ i ∈ p.1.slots,
          c.ssmState i = c.ssmState i := fun _ _ _ _ => rfl
      obtain ⟨hout, hstored⟩ := recurrentUpdate_ok hK h hx hps hstate hssm
      rw [← hreqs, ← hcu] at hout hstored
      rw [htokens.spec_some hmasks, hconved hmasks]
      simp only [flatMap_ownRoutes] at hout hstored ⊢
      exact ⟨fun _ => congrArg some hout,
        fun htrue => absurd htrue.symm Bool.false_ne_true, hstored⟩

end FlashNext.Ports.GdnRouting
