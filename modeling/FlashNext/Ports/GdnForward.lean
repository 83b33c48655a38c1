import FlashNext.Ports.GdnRecurrence

/-!
# Gated delta net: the whole forward

What `_forward_core` computes on every batch: each request is run on its own
rows and states, with the gates of `usedRoutes`.
-/

namespace FlashNext.Ports.GdnRouting

open FlashNext.Verified.Scatter
open FlashNext.Verified.Varlen

variable {Qkv A B ConvState SsmState Out : Type}
  {K : Kernels Qkv A B ConvState SsmState Out} {x : Rows Qkv A B}
  {c : Buffers ConvState SsmState Out} {m : GDNAttentionMetadata} {b : Batch}

/-! ## Which gates are read -/

/-- The requests, the `i`-th one with the gates of token `i`. -/
def countedRoutes (rs : List Request) : Routes :=
  rs.zip ((List.range rs.length).map fun i => [i])

/-- Next to speculative requests, decodes without prefills read the gates of
the batch, not those gathered for them. -/
def nonSpecRoutes (m : GDNAttentionMetadata) (b : Batch) : Routes :=
  if m.specSequenceMasks = true ∧ m.numPrefills = 0 then
    countedRoutes b.nonSpec
  else ownRoutes b.nonSpec

def usedRoutes (m : GDNAttentionMetadata) (b : Batch) : Routes :=
  ownRoutes b.spec ++ nonSpecRoutes m b

theorem ownRoutes_fst (rs : List Request) : (ownRoutes rs).map Prod.fst = rs := by
  rw [ownRoutes, List.map_map]
  exact List.map_id rs

theorem countedRoutes_fst (rs : List Request) :
    (countedRoutes rs).map Prod.fst = rs := by
  apply List.map_fst_zip
  rw [List.length_map, List.length_range]

theorem countedRoutes_snd (rs : List Request) :
    (countedRoutes rs).map Prod.snd =
      (List.range rs.length).map fun i => [i] := by
  apply List.map_snd_zip
  rw [List.length_map, List.length_range]

theorem countedRoutes_get {rs : List Request} {i : Nat} (hi : i < rs.length) :
    (countedRoutes rs)[i]? = some (rs[i], [i]) := by
  rw [countedRoutes, List.getElem?_zip_eq_some, List.getElem?_map,
    List.getElem?_range hi]
  exact ⟨List.getElem?_eq_getElem hi, rfl⟩

theorem nonSpecRoutes_fst : (nonSpecRoutes m b).map Prod.fst = b.nonSpec := by
  rw [nonSpecRoutes]
  split
  · exact countedRoutes_fst b.nonSpec
  · exact ownRoutes_fst b.nonSpec

theorem usedRoutes_fst : (usedRoutes m b).map Prod.fst = b.requests := by
  rw [usedRoutes, List.map_append, ownRoutes_fst, nonSpecRoutes_fst]
  rfl

/-- The gates of the first tokens, packed. -/
theorem own_countedRoutes {α : Type} {xs : List α} {rs : List Request}
    (hlen : rs.length ≤ xs.length) :
    ((countedRoutes rs).flatMap fun p => own xs p.2) = xs.take rs.length := by
  have hsnd : ((countedRoutes rs).flatMap fun p => own xs p.2) =
      ((countedRoutes rs).map Prod.snd).flatMap (own xs) := by
    rw [List.flatMap_map]
  rw [hsnd, countedRoutes_snd, List.flatMap_map, ← own_flatMap,
    List.flatMap_singleton', own_range hlen]

theorem countedRoutes_ok (h : Describes m b) (hprefills : m.numPrefills = 0) :
    RoutesOk m b (countedRoutes b.nonSpec) := by
  have hdecodes := h.nonSpec_eq_decodes (by omega)
  have hle := h.decodes_le
  refine { mem := ?_, gates_length := ?_, gates_lt := ?_, slots := ?_ }
  · intro p hp
    exact mem_requests_of_nonSpec (List.of_mem_zip hp).1
  · intro p hp
    obtain ⟨hr, hgates⟩ := List.of_mem_zip hp
    obtain ⟨i, -, hi⟩ := List.mem_map.mp hgates
    rw [h.wellFormed.decode_token p.1 (hdecodes ▸ hr), ← hi]
    rfl
  · intro p hp i hi
    obtain ⟨k, hk, hgates⟩ := List.mem_map.mp (List.of_mem_zip hp).2
    rw [← hgates] at hi
    have hlt := List.mem_range.mp hk
    rw [hdecodes] at hlt
    rw [List.mem_singleton.mp hi]
    omega
  · have hslots := h.nonSpec_slots_nodup
    rwa [← countedRoutes_fst b.nonSpec, List.flatMap_map] at hslots

theorem nonSpecRoutes_ok (h : Describes m b) : RoutesOk m b (nonSpecRoutes m b) := by
  rw [nonSpecRoutes]
  split
  · next hcond => exact countedRoutes_ok h hcond.2
  · exact ownRoutes_ok h (fun r hr => mem_requests_of_nonSpec hr)
      h.nonSpec_slots_nodup

/-! ## 2.2 and 2.3: the other requests -/

section NonSpec

variable (hK : K.Exact) (h : Describes m b) (hx : Covers x m.numActualTokens)
  {ssmState : Nat → SsmState}

include hK h hx

/-- The one-token decodes, in front of whatever else is in the batch. -/
private theorem recurrentDecode_ok (hne : b.nonSpec ≠ []) {ps : Routes}
    (hps : RoutesOk m b ps) (hfst : ps.map Prod.fst = b.decodes)
    (hssm : ∀ r ∈ b.decodes, ∀ i ∈ r.slots, ssmState i = c.ssmState i)
    (aMore : List A) (bMore : List B) :
    let out := recurrentDecode K m (b.decodes.flatMap fun r => (convRun K x c r).1)
      ((ps.flatMap fun p => own x.a p.2) ++ aMore)
      ((ps.flatMap fun p => own x.b p.2) ++ bMore) ssmState
    out.1 = ps.flatMap (fun p => (deltaRun K x c p.1 p.2).1) ∧
      Stored (fun p : Request × List Nat => p.1.slots)
        (fun p => (deltaRun K x c p.1 p.2).2) ps ssmState out.2 := by
  have hdecode : ∀ p ∈ ps, p.1 ∈ b.decodes := by
    intro p hp
    rw [← hfst]
    exact List.mem_map_of_mem hp
  have hnonSpec : ∀ p ∈ ps, p.1 ∈ b.nonSpec := fun p hp =>
    List.mem_append_left _ (hdecode p hp)
  have hreqs : m.nonSpecStateIndicesTensor.map (fun i => ((none : Option Nat), [i])) =
      (ps.map fun p => (p.1.accepted, p.1.slots)) ++
        b.prefills.map fun r => (none, [r.convSlot]) := by
    have hhead : b.decodes.map (fun r => ((none : Option Nat), [r.convSlot])) =
        ps.map fun p => (p.1.accepted, p.1.slots) := by
      rw [← hfst, List.map_map]
      apply List.map_congr_left
      intro p hp
      rw [h.wellFormed.nonSpec_accepted p.1 (hnonSpec p hp),
        h.wellFormed.nonSpec_slot p.1 (hnonSpec p hp)]
      rfl
    rw [h.nonSpecStateIndices hne, Batch.nonSpec, List.map_append,
      List.map_append, List.map_map, List.map_map, ← hhead]
    rfl
  have hcu : m.nonSpecQueryStartLoc.take (m.numDecodes + 1) =
      cuSeqlens 0 (ps.map fun p => p.1.tokens.length) := by
    have hcounts : rowCounts b.decodes = ps.map fun p => p.1.tokens.length := by
      rw [rowCounts, ← hfst, List.map_map]
      rfl
    have htake := take_cuSeqlens 0 (rowCounts b.decodes) (rowCounts b.prefills)
    rw [hcounts, List.length_map] at htake
    have hlen : ps.length = b.decodes.length := by
      rw [← hfst, List.length_map]
    rw [h.nonSpecQueryStartLoc hne, h.numDecodes, Batch.nonSpec, rowCounts,
      List.map_append, ← hlen, ← htake, ← hcounts]
    rfl
  have hconved : b.decodes.flatMap (fun r => (convRun K x c r).1) =
      ps.flatMap fun p => (convRun K x c p.1).1 := by
    rw [← hfst, List.flatMap_map]
  intro out
  have hout : out = recurrentUpdate K
      (ps.map fun p => (p.1.accepted, p.1.slots))
      (cuSeqlens 0 (ps.map fun p => p.1.tokens.length))
      (ps.flatMap fun p => (convRun K x c p.1).1)
      (ps.flatMap fun p => own x.a p.2) (ps.flatMap fun p => own x.b p.2)
      ssmState := by
    rw [← recurrentUpdate_append hK h hx hps _ aMore bMore, ← hreqs, ← hcu,
      ← hconved]
    rfl
  rw [hout]
  apply recurrentUpdate_ok hK h hx hps
  · exact fun p hp => h.wellFormed.decode_state p.1 (hdecode p hp)
  · exact fun p hp => hssm p.1 (hdecode p hp)

/-- The chunk kernel on the requests it is given. -/
private theorem chunkPrefill_ok (hne : b.prefills ≠ []) {rs : List Request}
    (hrs : rs = chunkRequests m b) (hmem : ∀ r ∈ rs, r ∈ b.nonSpec)
    (hslots : (rs.flatMap Request.slots).Nodup)
    (hssm : ∀ r ∈ rs, ∀ i ∈ r.slots, ssmState i = c.ssmState i) :
    ∃ out, chunkPrefill K m (rs.flatMap fun r => (convRun K x c r).1)
        (rs.flatMap fun r => own x.a r.tokens)
        (rs.flatMap fun r => own x.b r.tokens) ssmState = some out ∧
      out.1 = (ownRoutes rs).flatMap (fun p => (deltaRun K x c p.1 p.2).1) ∧
      Stored (fun p : Request × List Nat => p.1.slots)
        (fun p => (deltaRun K x c p.1 p.2).2) (ownRoutes rs) ssmState out.2 := by
  have hps : RoutesOk m b (ownRoutes rs) :=
    ownRoutes_ok h (fun r hr => mem_requests_of_nonSpec (hmem r hr)) hslots
  have hnonSpec : ∀ p ∈ ownRoutes rs, p.1 ∈ b.nonSpec := by
    intro p hp
    obtain ⟨r, hr, rfl⟩ := List.mem_map.mp hp
    exact hmem r hr
  have hstates : ∀ p ∈ ownRoutes rs, ∀ i ∈ p.1.slots,
      ssmState i = c.ssmState i := by
    intro p hp
    obtain ⟨r, hr, rfl⟩ := List.mem_map.mp hp
    exact hssm r hr
  have hchunk := chunk_ok hK h hx hps hnonSpec hstates
  have hreqs : (rs.map Request.hasInitialState).zip
      ((rs.map Request.convSlot).map fun i => [i]) =
        (ownRoutes rs).map fun p => (p.1.hasInitialState, [p.1.convSlot]) := by
    rw [ownRoutes, List.map_map, List.map_map, List.zip_map']
    rfl
  have hcu : cuSeqlens 0 (rowCounts rs) =
      cuSeqlens 0 ((ownRoutes rs).map fun p => p.1.tokens.length) := by
    rw [ownRoutes, List.map_map]
    rfl
  rw [← hreqs, ← hcu] at hchunk
  simp only [flatMap_ownRoutes] at hchunk ⊢
  refine ⟨_, ?_, hchunk⟩
  rw [chunkPrefill, h.prefillStateIndices hne, h.prefillHasInitialState hne,
    h.prefillQueryStartLoc hne, ← hrs]
  rfl

omit hK in
/-- The gathered gates of the prefill path. -/
private theorem gatesNonSpec_ok (hne : b.nonSpec ≠ []) :
    gatesNonSpec m (x.take m.numActualTokens) =
      some (b.nonSpec.flatMap fun r => own x.a r.tokens,
        b.nonSpec.flatMap fun r => own x.b r.tokens) := by
  rw [gatesNonSpec]
  cases hmasks : m.specSequenceMasks with
  | false =>
      have horder := h.nonSpec_order hmasks
      rw [← take_requests hx.a horder, ← take_requests hx.b horder]
      rfl
  | true =>
      have hlt := fun r (hr : r ∈ b.nonSpec) =>
        h.token_lt (mem_requests_of_nonSpec hr)
      simp only [Rows.take, h.nonSpecTokenIndx hmasks hne,
        select_requests hx.a hlt, select_requests hx.b hlt]
      rfl

omit hK hx in
/-- The rows of the decodes end at `num_decode_tokens`. -/
private theorem nonSpec_rows {α : Type} (rows : Request → List α)
    (hone : ∀ r ∈ b.decodes, (rows r).length = 1) :
    (b.nonSpec.flatMap rows).take m.numDecodeTokens = b.decodes.flatMap rows ∧
      (b.nonSpec.flatMap rows).drop m.numDecodeTokens = b.prefills.flatMap rows := by
  have hlen : (b.decodes.flatMap rows).length = m.numDecodeTokens := by
    rw [h.numDecodeTokens]
    exact length_flatMap_one hone
  rw [Batch.nonSpec, List.flatMap_append]
  exact ⟨List.take_left' hlen, List.drop_left' hlen⟩

/-- Decodes are peeled off the prefills. -/
private theorem recurrentSplit_ok (hmasks : m.specSequenceMasks = false)
    (hprefills : 0 < m.numPrefills) (hdecodes : 0 < m.numDecodes)
    (hssm : ∀ r ∈ b.nonSpec, ∀ i ∈ r.slots, ssmState i = c.ssmState i) :
    ∃ out : List Out × (Nat → SsmState),
      recurrentNonSpec K m (x.take m.numActualTokens)
        (some (b.nonSpec.flatMap fun r => (convRun K x c r).1)) ssmState =
          some (some out.1, out.2) ∧
      out.1 = (ownRoutes b.nonSpec).flatMap
        (fun p => (deltaRun K x c p.1 p.2).1) ∧
      Stored (fun p : Request × List Nat => p.1.slots)
        (fun p => (deltaRun K x c p.1 p.2).2) (ownRoutes b.nonSpec) ssmState
        out.2 := by
  have hne : b.prefills ≠ [] := by
    rw [h.numPrefills] at hprefills
    exact List.ne_nil_of_length_pos hprefills
  have hnonSpec : b.nonSpec ≠ [] := fun hnil =>
    hne (List.append_eq_nil_iff.mp hnil).2
  have hsplit : splitNonSpec m = true := by
    simp [splitNonSpec, hmasks, hprefills, hdecodes]
  have hslots := h.nonSpec_slots_nodup
  rw [Batch.nonSpec, List.flatMap_append] at hslots
  have hdisjoint : ∀ r ∈ b.decodes, ∀ r' ∈ b.prefills, ∀ i ∈ r.slots,
      i ∉ r'.slots := by
    intro r hr r' hr' i hi hi'
    exact List.disjoint_of_nodup_append hslots
      (List.mem_flatMap.mpr ⟨r, hr, hi⟩) (List.mem_flatMap.mpr ⟨r', hr', hi'⟩)
  have hps : RoutesOk m b (ownRoutes b.decodes) :=
    ownRoutes_ok h
      (fun r hr => mem_requests_of_nonSpec (List.mem_append_left _ hr))
      hslots.of_append_left
  have hones : ∀ r ∈ b.decodes, (convRun K x c r).1.length = 1 ∧
      (own x.a r.tokens).length = 1 ∧ (own x.b r.tokens).length = 1 := by
    intro r hr
    have hroute := length_route (c := c) hK h hx hps
      (List.mem_map_of_mem (f := fun r => (r, r.tokens)) hr)
    rwa [h.wellFormed.decode_token r hr] at hroute
  obtain ⟨hconv, hconvRest⟩ := nonSpec_rows h _ fun r hr => (hones r hr).1
  obtain ⟨ha, haRest⟩ := nonSpec_rows h _ fun r hr => (hones r hr).2.1
  obtain ⟨hb, hbRest⟩ := nonSpec_rows h _ fun r hr => (hones r hr).2.2
  have horder := h.nonSpec_order hmasks
  have hdecode := recurrentDecode_ok hK h hx hnonSpec hps
    (ownRoutes_fst b.decodes)
    (fun r hr => hssm r (List.mem_append_left _ hr)) [] []
  simp only [List.append_nil, flatMap_ownRoutes] at hdecode
  generalize hdecodeEq : recurrentDecode K m _ _ _ ssmState = decode at hdecode
  obtain ⟨hout, hstored⟩ := hdecode
  have hprefillSsm : ∀ r ∈ b.prefills, ∀ i ∈ r.slots,
      decode.2 i = c.ssmState i := by
    intro r hr i hi
    refine (hstored.rest i ?_).trans (hssm r (List.mem_append_right _ hr) i hi)
    intro p hp
    obtain ⟨r', hr', rfl⟩ := List.mem_map.mp hp
    exact fun hi' => hdisjoint r' hr' r hr i hi' hi
  obtain ⟨prefill, hprefill, hout', hstored'⟩ := chunkPrefill_ok hK h hx hne
    (by rw [chunkRequests, if_pos hsplit])
    (fun r hr => List.mem_append_right _ hr) hslots.of_append_right hprefillSsm
  have hroutes : ownRoutes b.nonSpec =
      ownRoutes b.decodes ++ ownRoutes b.prefills := List.map_append
  refine ⟨(decode.1 ++ prefill.1, prefill.2), ?_, ?_, ?_⟩
  · rw [recurrentNonSpec, if_pos hprefills, gatesNonSpec_ok h hx hnonSpec]
    simp only [if_pos hsplit, Option.bind_eq_bind, Option.bind_some, Rows.take,
      take_requests hx.a horder, take_requests hx.b horder, hconv, hconvRest,
      ha, haRest, hb, hbRest, hdecodeEq, hprefill]
  · rw [hroutes, List.flatMap_append, flatMap_ownRoutes, hout, hout']
  · rw [hroutes]
    apply hstored.append hstored'
    intro p hp q hq
    obtain ⟨r, hr, rfl⟩ := List.mem_map.mp hp
    obtain ⟨r', hr', rfl⟩ := List.mem_map.mp hq
    exact hdisjoint r hr r' hr'

omit hK hx in
/-- The gates that decodes without prefills read come first. -/
private theorem gates_prefix {α : Type} {xs : List α}
    (hprefills : ¬ 0 < m.numPrefills)
    (hlen : m.numActualTokens ≤ xs.length) :
    ∃ more, xs.take m.numActualTokens =
      ((nonSpecRoutes m b).flatMap fun p => own xs p.2) ++ more := by
  have hzero : m.numPrefills = 0 := by omega
  rw [nonSpecRoutes]
  cases hmasks : m.specSequenceMasks with
  | false =>
      rw [if_neg fun hcond => Bool.false_ne_true hcond.1, flatMap_ownRoutes]
      refine ⟨[], ?_⟩
      rw [List.append_nil]
      exact take_requests hlen (h.nonSpec_order hmasks)
  | true =>
      have hle := h.decodes_le
      rw [← h.nonSpec_eq_decodes hprefills] at hle
      rw [if_pos ⟨rfl, hzero⟩, own_countedRoutes (by omega)]
      refine ⟨(xs.take m.numActualTokens).drop b.nonSpec.length, ?_⟩
      have hsplit := List.take_append_drop b.nonSpec.length
        (xs.take m.numActualTokens)
      rw [List.take_take, Nat.min_eq_left hle] at hsplit
      exact hsplit.symm

/-- 2.2 and 2.3 as a whole. -/
theorem recurrentNonSpec_ok {conved : Option (List K.Conved)}
    (hconved : b.nonSpec ≠ [] →
      conved = some (b.nonSpec.flatMap fun r => (convRun K x c r).1))
    (hssm : ∀ r ∈ b.nonSpec, ∀ i ∈ r.slots, ssmState i = c.ssmState i) :
    ∃ out, recurrentNonSpec K m (x.take m.numActualTokens) conved ssmState =
        some out ∧
      (b.nonSpec ≠ [] → out.1 =
        some ((nonSpecRoutes m b).flatMap fun p => (deltaRun K x c p.1 p.2).1)) ∧
      (b.nonSpec = [] → out.1 = none) ∧
      Stored (fun p : Request × List Nat => p.1.slots)
        (fun p => (deltaRun K x c p.1 p.2).2) (nonSpecRoutes m b) ssmState
        out.2 := by
  by_cases hnil : b.nonSpec = []
  · obtain ⟨hprefills, hdecodes⟩ := h.nonSpec_nil_iff.mp hnil
    have hroutes : nonSpecRoutes m b = [] := by
      have hfst := nonSpecRoutes_fst (m := m) (b := b)
      rw [hnil] at hfst
      exact List.map_eq_nil_iff.mp hfst
    refine ⟨(none, ssmState), ?_, fun hne => absurd hnil hne, fun _ => rfl, ?_⟩
    · simp [recurrentNonSpec, hprefills, hdecodes]
    · rw [hroutes]
      exact stored_nil _
  · rw [hconved hnil]
    by_cases hprefills : 0 < m.numPrefills
    · have hroutes : nonSpecRoutes m b = ownRoutes b.nonSpec :=
        if_neg fun hcond => by omega
      rw [hroutes]
      by_cases hsplit : splitNonSpec m = true
      · have hparts := hsplit
        simp only [splitNonSpec, Bool.and_eq_true, Bool.not_eq_true',
          decide_eq_true_eq] at hparts
        obtain ⟨out, hout, houts, hstored⟩ := recurrentSplit_ok hK h hx
          hparts.1.1 hprefills hparts.2 hssm
        exact ⟨(some out.1, out.2), hout, fun _ => congrArg some houts,
          fun hempty => absurd hempty hnil, hstored⟩
      · have hne : b.prefills ≠ [] := by
          rw [h.numPrefills] at hprefills
          exact List.ne_nil_of_length_pos hprefills
        obtain ⟨out, hout, houts, hstored⟩ := chunkPrefill_ok hK h hx hne
          (by rw [chunkRequests, if_neg hsplit]) (fun r hr => hr)
          h.nonSpec_slots_nodup hssm
        refine ⟨(some out.1, out.2), ?_, fun _ => congrArg some houts,
          fun hempty => absurd hempty hnil, hstored⟩
        rw [recurrentNonSpec, if_pos hprefills, gatesNonSpec_ok h hx hnil]
        simp only [if_neg hsplit, Option.bind_eq_bind, Option.bind_some, hout]
    · have hdecodes : 0 < m.numDecodes := by
        apply Nat.pos_of_ne_zero
        exact fun hzero => hnil (h.nonSpec_nil_iff.mpr ⟨by omega, hzero⟩)
      have hnonSpec := h.nonSpec_eq_decodes hprefills
      obtain ⟨aMore, ha⟩ := gates_prefix h hprefills hx.a
      obtain ⟨bMore, hb⟩ := gates_prefix h hprefills hx.b
      have hfst : (nonSpecRoutes m b).map Prod.fst = b.decodes :=
        nonSpecRoutes_fst.trans hnonSpec
      obtain ⟨hout, hstored⟩ := recurrentDecode_ok hK h hx hnil
        (nonSpecRoutes_ok h) hfst (fun r hr => hssm r (hnonSpec ▸ hr))
        aMore bMore
      rw [← ha, ← hb, ← hnonSpec] at hout hstored
      refine ⟨(some _, _), ?_, fun _ => congrArg some hout,
        fun hempty => absurd hempty hnil, hstored⟩
      rw [recurrentNonSpec, if_neg hprefills, if_pos hdecodes]
      rfl

end NonSpec

end FlashNext.Ports.GdnRouting
