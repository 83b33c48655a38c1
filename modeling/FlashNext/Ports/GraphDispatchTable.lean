import FlashNext.Ports.GraphDispatch
import Mathlib.Data.Finset.Max

/-!
# What the candidate table holds

A cell holds the descriptors of its LoRA case with the fewest tokens that
reach the cell, the full graphs first.  No descriptor is planned twice.
-/

namespace FlashNext.Ports.GraphDispatch

open FlashNext.Verified.RangeTable

variable {cfg : Config}

/-! ## LoRA cases -/

theorem dropWhile_dropWhile {α : Type*} {p q : α → Bool} (h : ∀ a, q a = true → p a = true)
    (l : List α) : (l.dropWhile q).dropWhile p = l.dropWhile p := by
  induction l with
  | nil => rfl
  | cons a l ih =>
      by_cases hq : q a = true
      · rw [List.dropWhile_cons_of_pos hq, List.dropWhile_cons_of_pos (h a hq), ih]
      · rw [List.dropWhile_cons_of_neg hq]

/-- The head of what remains is the least case that suffices. -/
theorem headD_dropWhile {cases : List Nat} (hasc : cases.Pairwise (· ≤ ·)) {n c : Nat}
    (hc : c ∈ cases) (hn : n ≤ c) :
    (cases.dropWhile (· < n)).headD 0 ∈ cases ∧ n ≤ (cases.dropWhile (· < n)).headD 0 ∧
      (cases.dropWhile (· < n)).headD 0 ≤ c := by
  induction cases with
  | nil => cases hc
  | cons a cases ih =>
      obtain ⟨hhead, htail⟩ := List.pairwise_cons.mp hasc
      by_cases ha : a < n
      · have hmem : c ∈ cases := by
          rcases List.mem_cons.mp hc with rfl | hmem
          · omega
          · exact hmem
        rw [List.dropWhile_cons_of_pos (by simpa using ha)]
        obtain ⟨hin, hge, hle⟩ := ih htail hmem
        exact ⟨List.mem_cons_of_mem a hin, hge, hle⟩
      · rw [List.dropWhile_cons_of_neg (by simpa using ha)]
        refine ⟨List.mem_cons_self, Nat.le_of_not_lt ha, ?_⟩
        rcases List.mem_cons.mp hc with rfl | hmem
        · exact Nat.le_refl _
        · exact hhead c hmem

/-- The loop leaves the cases that suffice for the last count, and maps every
count to the first of those that suffice for it. -/
theorem foldl_mapLora (cases : List Nat) (k : Nat) :
    (List.range' 1 k).foldl mapLora (cases, []) =
      (cases.dropWhile (· < k),
        (List.range' 1 k).map fun n => (n, (cases.dropWhile (· < n)).headD 0)) := by
  induction k with
  | zero =>
      have hnone : cases.dropWhile (fun c => decide (c < 0)) = cases := by
        cases cases with
        | nil => rfl
        | cons c cases => exact List.dropWhile_cons_of_neg (by simp)
      rw [hnone]
      rfl
  | succ k ih =>
      have hdrop := dropWhile_dropWhile (p := fun c => decide (c < 1 + k))
        (q := fun c => decide (c < k)) (fun c hc => by simp at hc ⊢; omega) cases
      rw [List.range'_1_concat, List.foldl_append, ih, List.map_append, Nat.add_comm k 1]
      show (_, _) = _
      simp only [hdrop]
      rfl

theorem lookup_map_pair (f : Nat → Nat) (ns : List Nat) (n : Nat) :
    (ns.map fun m => (m, f m)).lookup n = if n ∈ ns then some (f n) else none := by
  induction ns with
  | nil => rfl
  | cons m ns ih =>
      rw [List.map_cons, List.lookup_cons, ih]
      by_cases hm : n = m
      · rw [hm, beq_self_eq_true, if_pos List.mem_cons_self]
      · have hiff : n ∈ m :: ns ↔ n ∈ ns := by
          rw [List.mem_cons]
          exact or_iff_right hm
        rw [beq_eq_false_iff_ne.mpr hm]
        simp only [hiff]

theorem mem_capturedWithLora {c : Nat} :
    c ∈ cfg.capturedWithLora ↔ c ∈ cfg.loraCases ∧ 0 < c := by
  rw [Config.capturedWithLora, (List.perm_insertionSort _ _).mem_iff, List.mem_filter,
    decide_eq_true_iff]

theorem capturedWithLora_ascending : cfg.capturedWithLora.Pairwise (· ≤ ·) :=
  List.pairwise_insertionSort _ _

theorem le_maxLoraCase {c : Nat} (hc : c ∈ cfg.capturedWithLora) : c ≤ cfg.maxLoraCase := by
  have hne := List.ne_nil_of_mem hc
  rw [Config.maxLoraCase, List.getLastD_eq_getLast?, List.getLast?_eq_some_getLast hne,
    Option.getD_some]
  have hsplit := List.dropLast_concat_getLast hne
  rw [← hsplit] at hc
  rcases List.mem_append.mp hc with hinit | hlast
  · have hasc := @capturedWithLora_ascending cfg
    rw [← hsplit] at hasc
    exact (List.pairwise_append.mp hasc).2.2 c hinit _ List.mem_cons_self
  · exact Nat.le_of_eq (List.mem_singleton.mp hlast)

theorem maxLoraCase_mem (hne : cfg.capturedWithLora ≠ []) :
    cfg.maxLoraCase ∈ cfg.capturedWithLora := by
  rw [Config.maxLoraCase, List.getLastD_eq_getLast?, List.getLast?_eq_some_getLast hne]
  exact List.getLast_mem hne

/-- An active count is served by the least captured case that suffices, or by
the greatest when none does. -/
theorem resolveEffectiveLoras_spec {n c : Nat} (hn : 0 < n) (hc : c ∈ cfg.loraCases)
    (hpos : 0 < c) :
    cfg.resolveEffectiveLoras n ∈ cfg.loraCases ∧
      (n ≤ c → n ≤ cfg.resolveEffectiveLoras n ∧ cfg.resolveEffectiveLoras n ≤ c) ∧
      (cfg.resolveEffectiveLoras n < n → c ≤ cfg.resolveEffectiveLoras n) := by
  have hmem : c ∈ cfg.capturedWithLora := mem_capturedWithLora.mpr ⟨hc, hpos⟩
  have hne := List.ne_nil_of_mem hmem
  have hlast := maxLoraCase_mem hne
  have hmap : cfg.loraDispatchMap = (List.range' 1 cfg.maxLoraCase).map fun n =>
      (n, (cfg.capturedWithLora.dropWhile (· < n)).headD 0) := by
    rw [Config.loraDispatchMap, foldl_mapLora]
  have hlastpos : 0 < cfg.maxLoraCase := (mem_capturedWithLora.mp hlast).2
  have hnonempty : cfg.loraDispatchMap ≠ [] := by
    rw [hmap]
    intro hnil
    have hlen := congrArg List.length hnil
    rw [List.length_map, List.length_range'] at hlen
    exact absurd hlen (Nat.ne_of_gt hlastpos)
  have hresolve : cfg.resolveEffectiveLoras n =
      if n ≤ cfg.maxLoraCase then (cfg.capturedWithLora.dropWhile (· < n)).headD 0
      else cfg.maxLoraCase := by
    have hguard : ¬ (n = 0 ∨ cfg.loraDispatchMap = []) := by
      rintro (h | h)
      · omega
      · exact hnonempty h
    rw [Config.resolveEffectiveLoras, if_neg hguard, hmap, lookup_map_pair]
    by_cases hle : n ≤ cfg.maxLoraCase
    · rw [if_pos (List.mem_range'_1.mpr (by omega)), if_pos hle]
      rfl
    · rw [if_neg (fun h => hle (by have := List.mem_range'_1.mp h; omega)), if_neg hle]
      rfl
  by_cases hle : n ≤ cfg.maxLoraCase
  · rw [hresolve, if_pos hle]
    obtain ⟨hin, hge, -⟩ := headD_dropWhile capturedWithLora_ascending hlast hle
    refine ⟨(mem_capturedWithLora.mp hin).1, fun hnc => ⟨hge, ?_⟩, fun hlt => ?_⟩
    · exact (headD_dropWhile capturedWithLora_ascending hmem hnc).2.2
    · omega
  · have hmax := le_maxLoraCase hmem
    rw [hresolve, if_neg hle]
    exact ⟨(mem_capturedWithLora.mp hlast).1, fun hnc => by omega, fun _ => hmax⟩

/-! ## The cells -/

/-- The descriptors of one LoRA case that a mode puts into a cell. -/
def cell (cfg : Config) (mode : Mode) (i loras : Nat) : List BatchExecutionDescriptor :=
  reaching (groupby BatchExecutionDescriptor.numTokens
    ((cfg.captureDescs mode).reverse.filter fun d => d.numActiveLoras == loras)) i

theorem captureDescs_ascending (mode : Mode) (loras : Nat) :
    ((cfg.captureDescs mode).reverse.filter fun d => d.numActiveLoras == loras).Pairwise
      fun a b => a.numTokens ≤ b.numTokens := by
  let r : BatchExecutionDescriptor → BatchExecutionDescriptor → Prop :=
    fun a b => b.numTokens ≤ a.numTokens
  have : IsTrans BatchExecutionDescriptor r := ⟨fun _ _ _ hab hbc => Nat.le_trans hbc hab⟩
  have : Std.Total r := ⟨fun a b => Nat.le_total b.numTokens a.numTokens⟩
  apply List.Pairwise.filter
  rw [List.pairwise_reverse]
  exact List.pairwise_insertionSort r (cfg.descsByMode mode)

theorem mem_cell {mode : Mode} {i loras : Nat} {d : BatchExecutionDescriptor} :
    d ∈ cell cfg mode i loras ↔
      (d ∈ cfg.captureDescs mode ∧ d.numActiveLoras = loras) ∧ i ≤ d.numTokens ∧
        ∀ e ∈ cfg.captureDescs mode, e.numActiveLoras = loras → i ≤ e.numTokens →
          d.numTokens ≤ e.numTokens := by
  have hmem : ∀ e, e ∈ (cfg.captureDescs mode).reverse.filter
      (fun d => d.numActiveLoras == loras) ↔
        e ∈ cfg.captureDescs mode ∧ e.numActiveLoras = loras := by
    intro e
    rw [List.mem_filter, List.mem_reverse, beq_iff_eq]
  rw [cell, mem_reaching (grouped_groupby (captureDescs_ascending mode loras)), hmem]
  simp only [hmem, and_imp]

/-- A cell is not empty when a descriptor reaches it. -/
theorem exists_mem_cell {mode : Mode} {i loras : Nat} {d : BatchExecutionDescriptor}
    (hd : d ∈ cfg.captureDescs mode) (hloras : d.numActiveLoras = loras)
    (hi : i ≤ d.numTokens) : ∃ e, e ∈ cell cfg mode i loras := by
  let reach := (cfg.captureDescs mode).toFinset.filter fun e =>
    e.numActiveLoras = loras ∧ i ≤ e.numTokens
  have hne : reach.Nonempty :=
    ⟨d, Finset.mem_filter.mpr ⟨List.mem_toFinset.mpr hd, hloras, hi⟩⟩
  obtain ⟨e, he, hleast⟩ := reach.exists_min_image BatchExecutionDescriptor.numTokens hne
  obtain ⟨hmem, heloras, hei⟩ := Finset.mem_filter.mp he
  refine ⟨e, mem_cell.mpr ⟨⟨List.mem_toFinset.mp hmem, heloras⟩, hei, ?_⟩⟩
  intro e' he' hloras' hi'
  exact hleast e' (Finset.mem_filter.mpr ⟨List.mem_toFinset.mpr he', hloras', hi'⟩)

/-- One mode appends its descriptors to the cells of its LoRA cases. -/
theorem foldl_addCandidates {mode : Mode} {cases : List Nat} (hnodup : cases.Nodup)
    (cells : Candidates) (i l : Nat) :
    cases.foldl (addCandidates (cfg.captureDescs mode).reverse) cells i l =
      cells i l ++ if l ∈ cases then cell cfg mode i l else [] := by
  induction cases generalizing cells with
  | nil =>
      rw [if_neg List.not_mem_nil, List.append_nil]
      rfl
  | cons c cases ih =>
      obtain ⟨hc, hrest⟩ := List.nodup_cons.mp hnodup
      have hgroups := grouped_groupby (@captureDescs_ascending cfg mode c)
      rw [List.foldl_cons, ih hrest]
      by_cases hl : l = c
      · have hfill : addCandidates (cfg.captureDescs mode).reverse cells c i l =
            cells i l ++ cell cfg mode i l := by
          show (if l = c then _ else _) = _
          rw [if_pos hl, fillGroups_eq hgroups.ascending (fun _ _ => Nat.zero_le _),
            if_pos (Nat.zero_le i), hl]
          rfl
        rw [hfill, if_neg (hl ▸ hc), List.append_nil, if_pos (hl ▸ List.mem_cons_self)]
      · have hkeep : addCandidates (cfg.captureDescs mode).reverse cells c i l = cells i l :=
          if_neg hl
        have hiff : l ∈ c :: cases ↔ l ∈ cases := by
          rw [List.mem_cons]
          exact or_iff_right hl
        simp only [hkeep, hiff]

/-- A cell of the table: full graphs first. -/
theorem candidates_eq (hcases : cfg.loraCases.Nodup) (i l : Nat) :
    cfg.candidates i l =
      if l ∈ cfg.loraCases then cell cfg .full i l ++ cell cfg .piecewise i l else [] := by
  simp only [Config.candidates, addMode, List.foldl_cons, List.foldl_nil]
  rw [foldl_addCandidates hcases, foldl_addCandidates hcases]
  by_cases hl : l ∈ cfg.loraCases
  · rw [if_pos hl, if_pos hl, if_pos hl, List.nil_append]
  · rw [if_neg hl, if_neg hl, if_neg hl, List.append_nil, List.append_nil]

/-! ## The plan -/

/-- What holds of the descriptors planned so far: those without a uniform
length come from the sizes seen. -/
structure Planned (cfg : Config) (descs : DescsByMode) (mixed varlen : List (Nat × Nat)) :
    Prop where
  mode_eq : ∀ mode, ∀ d ∈ descs mode, d.cgMode = mode
  nodup : ∀ mode, (descs mode).Nodup
  lora : ∀ mode, ∀ d ∈ descs mode, d.numActiveLoras ∈ cfg.loraCases
  mixed_seen : ∀ mode, ∀ d ∈ descs mode, d.uniformTokenCount = none → d.maxQueryLen = none →
    (d.numTokens, d.numActiveLoras) ∈ mixed
  varlen_seen : ∀ mode, ∀ d ∈ descs mode, d.maxQueryLen ≠ none →
    (d.numTokens, d.numActiveLoras) ∈ varlen

variable {descs : DescsByMode} {mixed varlen : List (Nat × Nat)}

theorem DescsByMode.mem_append {desc d : BatchExecutionDescriptor} {mode : Mode} :
    d ∈ descs.append desc mode ↔ d ∈ descs mode ∨ (d = desc ∧ mode = desc.cgMode) := by
  by_cases hmode : mode = desc.cgMode
  · rw [DescsByMode.append, if_pos hmode, List.mem_append, List.mem_singleton]
    simp [hmode]
  · rw [DescsByMode.append, if_neg hmode]
    simp [hmode]

/-- A new descriptor is added to the plan. -/
theorem Planned.append {desc : BatchExecutionDescriptor} {mixed' varlen' : List (Nat × Nat)}
    (h : Planned cfg descs mixed varlen) (hnew : desc ∉ descs desc.cgMode)
    (hlora : desc.numActiveLoras ∈ cfg.loraCases) (hmixed : mixed ⊆ mixed')
    (hvarlen : varlen ⊆ varlen')
    (hbare : desc.uniformTokenCount = none → desc.maxQueryLen = none →
      (desc.numTokens, desc.numActiveLoras) ∈ mixed')
    (hbound : desc.maxQueryLen ≠ none → (desc.numTokens, desc.numActiveLoras) ∈ varlen') :
    Planned cfg (descs.append desc) mixed' varlen' where
  mode_eq := by
    intro mode d hd
    rcases DescsByMode.mem_append.mp hd with hold | ⟨rfl, hmode⟩
    · exact h.mode_eq mode d hold
    · exact hmode.symm
  nodup := by
    intro mode
    by_cases hmode : mode = desc.cgMode
    · rw [DescsByMode.append, if_pos hmode, ← List.concat_eq_append]
      exact List.Nodup.concat (hmode ▸ hnew) (h.nodup mode)
    · rw [DescsByMode.append, if_neg hmode]
      exact h.nodup mode
  lora := by
    intro mode d hd
    rcases DescsByMode.mem_append.mp hd with hold | ⟨rfl, -⟩
    · exact h.lora mode d hold
    · exact hlora
  mixed_seen := by
    intro mode d hd huniform hlen
    rcases DescsByMode.mem_append.mp hd with hold | ⟨rfl, -⟩
    · exact hmixed (h.mixed_seen mode d hold huniform hlen)
    · exact hbare huniform hlen
  varlen_seen := by
    intro mode d hd hlen
    rcases DescsByMode.mem_append.mp hd with hold | ⟨rfl, -⟩
    · exact hvarlen (h.varlen_seen mode d hold hlen)
    · exact hbound hlen

theorem Planned.mono {mixed' varlen' : List (Nat × Nat)} (h : Planned cfg descs mixed varlen)
    (hmixed : mixed ⊆ mixed') (hvarlen : varlen ⊆ varlen') :
    Planned cfg descs mixed' varlen' where
  mode_eq := h.mode_eq
  nodup := h.nodup
  lora := h.lora
  mixed_seen := fun mode d hd hu hl => hmixed (h.mixed_seen mode d hd hu hl)
  varlen_seen := fun mode d hd hl => hvarlen (h.varlen_seen mode d hd hl)

theorem Planned.addUniform {n l : Nat} (h : Planned cfg descs mixed varlen)
    (hl : l ∈ cfg.loraCases) (q : Nat) :
    Planned cfg (addUniform cfg n l descs q) mixed varlen := by
  simp only [GraphDispatch.addUniform]
  split
  · exact h
  · split
    · exact h
    · next hnew =>
        exact h.append hnew hl (List.Subset.refl _) (List.Subset.refl _) nofun
          (fun hlen => absurd rfl hlen)

theorem Planned.addDecode {n l : Nat} (h : Planned cfg descs mixed varlen)
    (hl : l ∈ cfg.loraCases) (hnew : (n, l) ∉ varlen) :
    Planned cfg (addDecode cfg descs n l) mixed ((n, l) :: varlen) := by
  simp only [GraphDispatch.addDecode]
  split
  · refine h.append ?_ hl (List.Subset.refl _) (List.subset_cons_self _ _) nofun ?_
    · intro hmem
      exact hnew (h.varlen_seen _ _ hmem nofun)
    · exact fun _ => List.mem_cons_self
  · split
    · have hfold : ∀ (qs : List Nat) {descs}, Planned cfg descs mixed varlen →
          Planned cfg (qs.foldl (GraphDispatch.addUniform cfg n l) descs) mixed varlen := by
        intro qs
        induction qs with
        | nil => exact fun h => h
        | cons q qs ih => exact fun h => ih (h.addUniform hl q)
      exact (hfold _ h).mono (List.Subset.refl _) (List.subset_cons_self _ _)
    · exact h.mono (List.Subset.refl _) (List.subset_cons_self _ _)

theorem Planned.addSize {size : Nat × Nat} (h : Planned cfg descs mixed varlen)
    (hl : size.2 ∈ cfg.loraCases) (hmixed : size ∉ mixed) (hvarlen : size ∉ varlen) :
    Planned cfg (addSize cfg descs size) (size :: mixed) (size :: varlen) := by
  have hdecode := h.addDecode hl hvarlen
  simp only [GraphDispatch.addSize]
  split
  · exact hdecode.mono (List.subset_cons_self _ _) (List.Subset.refl _)
  · refine hdecode.append ?_ hl (List.subset_cons_self _ _) (List.Subset.refl _) ?_ ?_
    · intro hmem
      exact hmixed (hdecode.mixed_seen _ _ hmem rfl rfl)
    · exact fun _ _ => List.mem_cons_self
    · exact fun hlen => absurd rfl hlen

theorem Planned.foldl {sizes : List (Nat × Nat)} (h : Planned cfg descs mixed varlen)
    (hl : ∀ size ∈ sizes, size.2 ∈ cfg.loraCases) (hnodup : sizes.Nodup)
    (hmixed : ∀ size ∈ sizes, size ∉ mixed) (hvarlen : ∀ size ∈ sizes, size ∉ varlen) :
    ∃ mixed' varlen', Planned cfg (sizes.foldl (GraphDispatch.addSize cfg) descs)
      mixed' varlen' := by
  induction sizes generalizing descs mixed varlen with
  | nil => exact ⟨mixed, varlen, h⟩
  | cons size sizes ih =>
      obtain ⟨hsize, hrest⟩ := List.nodup_cons.mp hnodup
      have hfresh : ∀ {seen : List (Nat × Nat)}, (∀ s ∈ size :: sizes, s ∉ seen) →
          ∀ s ∈ sizes, s ∉ size :: seen := by
        intro seen hseen s hs hmem
        rcases List.mem_cons.mp hmem with rfl | hold
        · exact hsize hs
        · exact hseen s (List.mem_cons_of_mem _ hs) hold
      exact ih (h.addSize (hl _ List.mem_cons_self) (hmixed _ List.mem_cons_self)
          (hvarlen _ List.mem_cons_self))
        (fun s hs => hl s (List.mem_cons_of_mem _ hs)) hrest (hfresh hmixed) (hfresh hvarlen)

theorem descsByMode_planned (hsizes : cfg.captureSizes.Nodup) (hcases : cfg.loraCases.Nodup) :
    ∃ mixed varlen, Planned cfg cfg.descsByMode mixed varlen := by
  have hempty : Planned cfg (fun _ => []) [] [] :=
    ⟨fun _ => nofun, fun _ => List.nodup_nil, fun _ => nofun, fun _ => nofun, fun _ => nofun⟩
  unfold Config.descsByMode
  split
  · exact ⟨[], [], hempty⟩
  · refine hempty.foldl ?_ ?_ (fun _ _ => List.not_mem_nil) (fun _ _ => List.not_mem_nil)
    · intro size hsize
      exact (List.pair_mem_product.mp hsize).2
    · exact List.Nodup.product
        ((List.perm_insertionSort _ _).nodup_iff.mpr hsizes) hcases

theorem mem_captureDescs {mode : Mode} {d : BatchExecutionDescriptor} :
    d ∈ cfg.captureDescs mode ↔ d ∈ cfg.descsByMode mode :=
  (List.perm_insertionSort _ _).mem_iff

end FlashNext.Ports.GraphDispatch
