import FlashNext.Ports.AsyncInputIds
import Mathlib.Algebra.Order.BigOperators.Group.List
import Mathlib.Algebra.Order.Group.Nat
import Mathlib.Data.List.Perm.Subperm

/-!
# The scattered ids are the right ones

Whatever stood in the GPU buffer, behind the step every request finds its ids: on the path that
copies nothing, on the path that copies one slice, and on the path that scatters.
-/

namespace FlashNext.Ports.AsyncInputIds

open FlashNext.Verified.Scatter
open FlashNext.Verified.Varlen

variable {prev : Previous} {batch : List BatchReq}

/-- What the scheduler promises: a request has a token, and where it goes on from the previous
step also its sampled token and its drafts; these lie on the GPU. -/
structure StepOk (prev : Previous) (batch : List BatchReq) : Prop where
  gathered : ∀ r ∈ batch, r.cpuIds.length = r.numScheduledTokens
  scheduled : ∀ r ∈ batch, 0 < r.numScheduledTokens
  sampled : ∀ r ∈ batch, r.prevPosition ≠ none →
    prev.prevSampledTokenIds ≠ none ∧ r.draftLen < r.numScheduledTokens
  drafted : ∀ r ∈ batch, r.prevPosition ≠ none → 0 < r.draftLen → ∃ drafts,
    prev.draftTokenIds = some drafts ∧ drafts.width = prev.prevNumSpecTokens ∧
      r.draftLen ≤ drafts.width

theorem StepOk.length_ids (h : StepOk prev batch) {r : BatchReq} (hr : r ∈ batch) :
    (r.ids prev).length = r.numScheduledTokens := by
  have hlen := h.gathered r hr
  cases hprev : r.prevPosition with
  | none => rw [BatchReq.ids, hprev, hlen]
  | some p =>
      obtain ⟨hsome, hlt⟩ := h.sampled r hr (by rw [hprev]; exact Option.some_ne_none p)
      obtain ⟨sampled, hsampled⟩ := Option.ne_none_iff_exists'.mp hsome
      rw [BatchReq.ids, hprev, hsampled]
      simp only [List.length_append, List.length_take, List.length_map, List.length_range,
        Option.map_some, Option.toList_some, List.length_singleton, hlen]
      omega

/-! ## Where the requests lie -/

theorem mem_withCu {start : Nat} {e : Nat × BatchReq} (he : e ∈ withCu start batch) :
    ∃ before behind, batch = before ++ e.2 :: behind ∧
      e.1 = start + (before.map BatchReq.numScheduledTokens).sum + e.2.numScheduledTokens := by
  induction batch generalizing start with
  | nil => cases he
  | cons r batch ih =>
      rcases List.mem_cons.mp he with rfl | hrest
      · exact ⟨[], batch, rfl, rfl⟩
      · obtain ⟨before, behind, hsplit, hcu⟩ := ih hrest
        refine ⟨r :: before, behind, by rw [hsplit]; rfl, ?_⟩
        rw [hcu, List.map_cons, List.sum_cons, Nat.add_assoc start]

theorem snd_mem_of_mem_withCu {start : Nat} {e : Nat × BatchReq} (he : e ∈ withCu start batch) :
    e.2 ∈ batch := by
  obtain ⟨before, behind, hsplit, -⟩ := mem_withCu he
  rw [hsplit]
  exact List.mem_append_right _ List.mem_cons_self

theorem map_snd_withCu (start : Nat) (batch : List BatchReq) :
    (withCu start batch).map Prod.snd = batch := by
  induction batch generalizing start with
  | nil => rfl
  | cons r batch ih => exact congrArg (r :: ·) (ih _)

/-- Every position belongs to a request. -/
theorem exists_mem_withCu {start i : Nat} (hstart : start ≤ i)
    (hi : i < start + (batch.map BatchReq.numScheduledTokens).sum) :
    ∃ e ∈ withCu start batch, e.1 ≤ i + e.2.numScheduledTokens ∧ i < e.1 := by
  induction batch generalizing start with
  | nil => exact absurd hi (by simpa using hstart)
  | cons r batch ih =>
      by_cases hr : i < start + r.numScheduledTokens
      · exact ⟨_, List.mem_cons_self, Nat.add_le_add_right hstart _, hr⟩
      · rw [List.map_cons, List.sum_cons, ← Nat.add_assoc] at hi
        obtain ⟨e, he, hle, hlt⟩ := ih (Nat.le_of_not_lt hr) hi
        exact ⟨e, List.mem_cons_of_mem _ he, hle, hlt⟩

/-- The requests lie one behind the other. -/
theorem withCu_pairwise (start : Nat) (batch : List BatchReq) :
    (withCu start batch).Pairwise fun a b => a.1 + b.2.numScheduledTokens ≤ b.1 := by
  induction batch generalizing start with
  | nil => exact List.Pairwise.nil
  | cons r batch ih =>
      refine List.pairwise_cons.mpr ⟨?_, ih _⟩
      intro e he
      obtain ⟨before, -, -, hcu⟩ := mem_withCu he
      rw [hcu]
      omega

/-- What is packed request by request is read at the place of the request. -/
theorem getElem?_flatMap_withCu {f : BatchReq → List Int}
    (hlen : ∀ r ∈ batch, (f r).length = r.numScheduledTokens) {e : Nat × BatchReq}
    (he : e ∈ withCu 0 batch) {i o : Nat} (hi : i + e.2.numScheduledTokens = e.1 + o)
    (ho : o < e.2.numScheduledTokens) : (batch.flatMap f)[i]? = (f e.2)[o]? := by
  obtain ⟨before, behind, hsplit, hcu⟩ := mem_withCu he
  have hbefore : (before.map fun r => (f r).length) = before.map BatchReq.numScheduledTokens :=
    List.map_congr_left fun r hr => hlen r (hsplit ▸ List.mem_append_left _ hr)
  have he2 : (f e.2).length = e.2.numScheduledTokens :=
    hlen _ (hsplit ▸ List.mem_append_right _ List.mem_cons_self)
  have hpos : i = ((batch.take before.length).map fun r => (f r).length).sum + o := by
    rw [hsplit, List.take_left, hbefore]
    omega
  have hget : batch[before.length]? = some e.2 := by
    rw [hsplit, List.getElem?_append_right (Nat.le_refl _), Nat.sub_self]
    rfl
  rw [hpos]
  exact getElem?_flatMap_add hget (he2 ▸ ho)

/-! ## The scan -/

/-- The requests that go on, with their entries of `cu_num_tokens` and their previous rows. -/
def common (entries : List (Nat × BatchReq)) : List ((Nat × BatchReq) × Nat) :=
  entries.filterMap fun e => e.2.prevPosition.map fun p => (e, p)

theorem mem_common {entries : List (Nat × BatchReq)} {c : (Nat × BatchReq) × Nat} :
    c ∈ common entries ↔ c.1 ∈ entries ∧ c.1.2.prevPosition = some c.2 := by
  obtain ⟨e, p⟩ := c
  simp only [common, List.mem_filterMap, Option.map_eq_some_iff, Prod.mk.injEq]
  constructor
  · rintro ⟨e', he', p', hp', rfl, rfl⟩
    exact ⟨he', hp'⟩
  · rintro ⟨he, hp⟩
    exact ⟨e, he, p, hp, rfl, rfl⟩

theorem foldl_step (w : Nat) (entries : List (Nat × BatchReq)) (scan : Scan) :
    entries.foldl (Scan.step w) scan =
      { sampleFlattenedIndices := scan.sampleFlattenedIndices ++
          (common entries).map fun c => c.1.1 - 1 - c.1.2.draftLen
        specFlattenedIndices := scan.specFlattenedIndices ++ (common entries).flatMap fun c =>
          List.range' (c.1.1 - 1 - c.1.2.draftLen + 1) c.1.2.draftLen
        prevDraftTokenIndices := scan.prevDraftTokenIndices ++ (common entries).flatMap fun c =>
          List.range' (c.2 * w) c.1.2.draftLen
        prevIndices := scan.prevIndices ++ (common entries).map Prod.snd
        commonIndicesMatch := scan.commonIndicesMatch &&
          (common entries).all fun c => c.2 == c.1.1 - 1
        maxFlattenedIndex := (common entries).foldl
          (fun m c => max m ((c.1.1 - 1 : Nat) : Int)) scan.maxFlattenedIndex
        totalNumSpecTokens := scan.totalNumSpecTokens +
          ((common entries).map fun c => c.1.2.draftLen).sum } := by
  induction entries generalizing scan with
  | nil => simp [common]
  | cons e entries ih =>
      rw [List.foldl_cons, ih]
      cases hprev : e.2.prevPosition with
      | none =>
          have hcommon : common (e :: entries) = common entries := by
            rw [common, List.filterMap_cons_none (by rw [hprev]; rfl)]
            rfl
          rw [hcommon, Scan.step, hprev]
      | some p =>
          have hcommon : common (e :: entries) = (e, p) :: common entries := by
            rw [common, List.filterMap_cons_some (by rw [hprev]; rfl)]
            rfl
          rw [hcommon, Scan.step, hprev]
          simp [Bool.and_assoc, Nat.add_assoc]

/-! ## What is written -/

/-- The id that belongs to a position. -/
def want (prev : Previous) (batch : List BatchReq) (i : Nat) : Int :=
  ((batch.flatMap (BatchReq.ids prev))[i]?).getD 0

theorem StepOk.want_eq (h : StepOk prev batch) {e : Nat × BatchReq} (he : e ∈ withCu 0 batch)
    {i o : Nat} (hi : i + e.2.numScheduledTokens = e.1 + o) (ho : o < e.2.numScheduledTokens) :
    want prev batch i = ((e.2.ids prev)[o]?).getD 0 := by
  rw [want, getElem?_flatMap_withCu (fun r hr => h.length_ids hr) he hi ho]

/-- A position whose id the CPU knows. -/
theorem StepOk.want_cpu (h : StepOk prev batch) {e : Nat × BatchReq} (he : e ∈ withCu 0 batch)
    {i o : Nat} (hi : i + e.2.numScheduledTokens = e.1 + o) (ho : o < e.2.numScheduledTokens)
    (hcpu : e.2.prevPosition = none ∨ o < e.2.numScheduledTokens - 1 - e.2.draftLen)
    (gpu : Nat → Int) : copyToGpu (batch.flatMap BatchReq.cpuIds) gpu i = want prev batch i := by
  have hlen := h.gathered e.2 (snd_mem_of_mem_withCu he)
  have hids : (e.2.ids prev)[o]? = e.2.cpuIds[o]? := by
    cases hprev : e.2.prevPosition with
    | none => rw [BatchReq.ids, hprev]
    | some p =>
        have hlt : o < e.2.numScheduledTokens - 1 - e.2.draftLen :=
          hcpu.resolve_left (by rw [hprev]; exact Option.some_ne_none p)
        rw [BatchReq.ids, hprev]
        simp only
        rw [List.getElem?_append_left (by rw [List.length_take]; omega),
          List.getElem?_take_of_lt hlt]
  have hsome : ∃ id, e.2.cpuIds[o]? = some id :=
    ⟨_, List.getElem?_eq_getElem (hlen.symm ▸ ho)⟩
  obtain ⟨id, hid⟩ := hsome
  rw [h.want_eq he hi ho, hids, copyToGpu, getElem?_flatMap_withCu h.gathered he hi ho, hid]
  rfl

/-- The sampled token of a request that goes on, and its drafts behind it. -/
theorem StepOk.want_gpu (h : StepOk prev batch) {c : (Nat × BatchReq) × Nat}
    (hc : c ∈ common (withCu 0 batch)) {sampled : Nat → Int}
    (hsampled : prev.prevSampledTokenIds = some sampled) :
    want prev batch (c.1.1 - 1 - c.1.2.draftLen) = sampled c.2 ∧
      ∀ k < c.1.2.draftLen, ∀ drafts, prev.draftTokenIds = some drafts →
        want prev batch (c.1.1 - 1 - c.1.2.draftLen + 1 + k) = drafts.row c.2 k := by
  obtain ⟨he, hprev⟩ := mem_common.mp hc
  have hr := snd_mem_of_mem_withCu he
  have hlen := h.gathered c.1.2 hr
  have hlt := (h.sampled c.1.2 hr (by rw [hprev]; exact Option.some_ne_none c.2)).2
  obtain ⟨before, -, -, hcu⟩ := mem_withCu he
  have htake : (c.1.2.cpuIds.take (c.1.2.numScheduledTokens - 1 - c.1.2.draftLen)).length =
      c.1.2.numScheduledTokens - 1 - c.1.2.draftLen := by
    rw [List.length_take]
    omega
  have hids : ∀ k, (c.1.2.ids prev)[c.1.2.numScheduledTokens - 1 - c.1.2.draftLen + k]? =
      (sampled c.2 :: (List.range c.1.2.draftLen).map fun k =>
        (prev.draftTokenIds.map (·.row c.2 k)).getD 0)[k]? := by
    intro k
    rw [BatchReq.ids, hprev, hsampled]
    simp only
    rw [List.getElem?_append_right (by omega), htake, Nat.add_sub_cancel_left]
    rfl
  refine ⟨?_, fun k hk drafts hdrafts => ?_⟩
  · rw [h.want_eq he (o := c.1.2.numScheduledTokens - 1 - c.1.2.draftLen + 0) (by omega)
      (by omega), hids 0]
    rfl
  · rw [h.want_eq he (o := c.1.2.numScheduledTokens - 1 - c.1.2.draftLen + (k + 1)) (by omega)
      (by omega), hids (k + 1), List.getElem?_cons_succ, List.getElem?_map,
      List.getElem?_range hk, hdrafts]
    rfl

theorem DraftTokenIds.flatten_eq (drafts : DraftTokenIds) (p : Nat) {k : Nat}
    (hk : k < drafts.width) : drafts.flatten (p * drafts.width + k) = drafts.row p k := by
  rw [DraftTokenIds.flatten, Nat.mul_comm p, Nat.mul_add_div (Nat.zero_lt_of_lt hk),
    Nat.div_eq_of_lt hk, Nat.add_zero, Nat.mul_add_mod, Nat.mod_eq_of_lt hk]

/-- The scattered samples are the wanted ids. -/
theorem StepOk.sampled_eq (h : StepOk prev batch) {sampled : Nat → Int}
    (hsampled : prev.prevSampledTokenIds = some sampled) :
    ((common (withCu 0 batch)).map Prod.snd).map sampled =
      ((common (withCu 0 batch)).map fun c => c.1.1 - 1 - c.1.2.draftLen).map
        (want prev batch) := by
  rw [List.map_map, List.map_map]
  exact List.map_congr_left fun c hc => (h.want_gpu hc hsampled).1.symm

/-- The scattered drafts are the wanted ids. -/
theorem StepOk.drafted_eq (h : StepOk prev batch) {sampled : Nat → Int}
    (hsampled : prev.prevSampledTokenIds = some sampled) {drafts : DraftTokenIds}
    (hdrafts : prev.draftTokenIds = some drafts) :
    ((common (withCu 0 batch)).flatMap fun c =>
        List.range' (c.2 * prev.prevNumSpecTokens) c.1.2.draftLen).map drafts.flatten =
      ((common (withCu 0 batch)).flatMap fun c =>
        List.range' (c.1.1 - 1 - c.1.2.draftLen + 1) c.1.2.draftLen).map (want prev batch) := by
  rw [List.map_flatMap, List.map_flatMap]
  apply List.flatMap_congr
  intro c hc
  obtain ⟨he, hprev⟩ := mem_common.mp hc
  rw [List.range'_eq_map_range, List.range'_eq_map_range, List.map_map, List.map_map]
  apply List.map_congr_left
  intro k hk
  have hlt := List.mem_range.mp hk
  obtain ⟨drafts', hdrafts', hwidth, hle⟩ := h.drafted c.1.2 (snd_mem_of_mem_withCu he)
    (by rw [hprev]; exact Option.some_ne_none c.2) (Nat.zero_lt_of_lt hlt)
  obtain rfl := Option.some.inj (hdrafts.symm.trans hdrafts')
  show drafts.flatten (c.2 * prev.prevNumSpecTokens + k) = want prev batch _
  rw [(h.want_gpu hc hsampled).2 k hlt drafts hdrafts, ← hwidth,
    drafts.flatten_eq c.2 (Nat.lt_of_lt_of_le hlt hle)]

/-! ## When the CPU ids are copied -/

/-- The tokens of a request that are taken from the GPU. -/
def fromGpu (e : Nat × BatchReq) : Nat :=
  if e.2.prevPosition = none then 0 else e.2.draftLen + 1

theorem sum_fromGpu (entries : List (Nat × BatchReq)) :
    (common entries).length + ((common entries).map fun c => c.1.2.draftLen).sum =
      (entries.map fromGpu).sum := by
  induction entries with
  | nil => rfl
  | cons e entries ih =>
      rw [List.map_cons, List.sum_cons, ← ih]
      cases hprev : e.2.prevPosition with
      | none =>
          rw [common, List.filterMap_cons_none (by rw [hprev]; rfl), fromGpu, if_pos hprev,
            Nat.zero_add]
          rfl
      | some p =>
          rw [common, List.filterMap_cons_some (by rw [hprev]; rfl), fromGpu,
            if_neg (by rw [hprev]; exact Option.some_ne_none p), List.length_cons,
            List.map_cons, List.sum_cons]
          show (common entries).length + 1 + (e.2.draftLen +
            ((common entries).map fun c => c.1.2.draftLen).sum) = _
          omega

theorem StepOk.fromGpu_le (h : StepOk prev batch) :
    ∀ e ∈ withCu 0 batch, fromGpu e ≤ e.2.numScheduledTokens := by
  intro e he
  have hr := snd_mem_of_mem_withCu he
  by_cases hprev : e.2.prevPosition = none
  · rw [fromGpu, if_pos hprev]
    exact Nat.zero_le _
  · rw [fromGpu, if_neg hprev]
    exact (h.sampled e.2 hr hprev).2

theorem sum_scheduled (batch : List BatchReq) :
    ((withCu 0 batch).map fun e => e.2.numScheduledTokens).sum =
      (batch.map BatchReq.numScheduledTokens).sum := by
  have hsnd : (withCu 0 batch).map (fun e => e.2.numScheduledTokens) =
      ((withCu 0 batch).map Prod.snd).map BatchReq.numScheduledTokens := by
    rw [List.map_map]
    rfl
  rw [hsnd, map_snd_withCu]

/-- Without a copy of the CPU ids every token is taken from the GPU. -/
theorem StepOk.all_fromGpu (h : StepOk prev batch)
    (hcopy : ¬ (common (withCu 0 batch)).length < (batch.map BatchReq.numScheduledTokens).sum -
      ((common (withCu 0 batch)).map fun c => c.1.2.draftLen).sum) :
    ∀ e ∈ withCu 0 batch, fromGpu e = e.2.numScheduledTokens := by
  intro e he
  by_contra hne
  have hlt : ((withCu 0 batch).map fromGpu).sum <
      ((withCu 0 batch).map fun e => e.2.numScheduledTokens).sum :=
    List.sum_lt_sum _ _ h.fromGpu_le ⟨e, he, Nat.lt_of_le_of_ne (h.fromGpu_le e he) hne⟩
  rw [← sum_fromGpu, sum_scheduled] at hlt
  omega

/-- Behind the copy, if there is one, a position holds its id, or its id is on the GPU. -/
theorem StepOk.copied (h : StepOk prev batch) {i : Nat}
    (hi : i < (batch.map BatchReq.numScheduledTokens).sum) (gpu : Nat → Int) :
    ∃ e ∈ withCu 0 batch, e.1 ≤ i + e.2.numScheduledTokens ∧ i < e.1 ∧
      ((e.2.prevPosition ≠ none ∧ e.1 - 1 - e.2.draftLen ≤ i) ∨
        (if (common (withCu 0 batch)).length < (batch.map BatchReq.numScheduledTokens).sum -
            ((common (withCu 0 batch)).map fun c => c.1.2.draftLen).sum then
          copyToGpu (batch.flatMap BatchReq.cpuIds) gpu else gpu) i = want prev batch i) := by
  obtain ⟨e, he, hle, hlt⟩ := exists_mem_withCu (Nat.zero_le i) (by rwa [Nat.zero_add])
  refine ⟨e, he, hle, hlt, ?_⟩
  have hr := snd_mem_of_mem_withCu he
  by_cases hgpu : e.2.prevPosition ≠ none ∧ e.1 - 1 - e.2.draftLen ≤ i
  · exact Or.inl hgpu
  right
  have hcpu : e.2.prevPosition = none ∨
      i + e.2.numScheduledTokens - e.1 < e.2.numScheduledTokens - 1 - e.2.draftLen := by
    by_cases hprev : e.2.prevPosition = none
    · exact Or.inl hprev
    · have hgap := not_and.mp hgpu hprev
      exact Or.inr (by omega)
  rw [if_pos]
  · exact h.want_cpu he (o := i + e.2.numScheduledTokens - e.1) (by omega) (by omega) hcpu gpu
  · by_contra hcopy
    have hall := h.all_fromGpu hcopy e he
    have hpos := h.scheduled e.2 hr
    rw [fromGpu] at hall
    split at hall
    · omega
    · next hprev =>
        have hgap := hcpu.resolve_left hprev
        omega

/-! ## The path that copies one slice -/

/-- The last token of an earlier request comes before the tokens of a later one. -/
theorem le_of_cu_lt {a b : Nat × BatchReq} (ha : a ∈ withCu 0 batch) (hb : b ∈ withCu 0 batch)
    (hlt : a.1 < b.1) : a.1 + b.2.numScheduledTokens ≤ b.1 := by
  have hpair := withCu_pairwise 0 batch
  generalize withCu 0 batch = entries at ha hb hpair
  induction entries with
  | nil => cases ha
  | cons e entries ih =>
      obtain ⟨hhead, htail⟩ := List.pairwise_cons.mp hpair
      rcases List.mem_cons.mp ha with rfl | ha'
      · rcases List.mem_cons.mp hb with rfl | hb'
        · exact absurd hlt (Nat.lt_irrefl _)
        · exact hhead b hb'
      · rcases List.mem_cons.mp hb with rfl | hb'
        · have hle := hhead a ha'
          omega
        · exact ih ha' hb' htail

theorem le_foldl_max {α : Type} (f : α → Nat) (l : List α) (m : Int) :
    m ≤ l.foldl (fun m a => max m ((f a : Nat) : Int)) m ∧
      ∀ a ∈ l, ((f a : Nat) : Int) ≤ l.foldl (fun m a => max m ((f a : Nat) : Int)) m := by
  induction l generalizing m with
  | nil => exact ⟨Int.le_refl m, nofun⟩
  | cons b l ih =>
      obtain ⟨hle, hall⟩ := ih (max m (f b))
      refine ⟨Int.le_trans (Int.le_max_left ..) hle, ?_⟩
      intro a ha
      rcases List.mem_cons.mp ha with rfl | hrest
      · exact Int.le_trans (Int.le_max_right ..) hle
      · exact hall a hrest

/-- As many last positions as there are requests, all below their number: each is taken. -/
theorem StepOk.exists_last (h : StepOk prev batch)
    (hmax : ∀ c ∈ common (withCu 0 batch), c.1.1 - 1 < (common (withCu 0 batch)).length)
    {i : Nat} (hi : i < (common (withCu 0 batch)).length) :
    ∃ c ∈ common (withCu 0 batch), c.1.1 - 1 = i := by
  have hpos : ∀ e ∈ withCu 0 batch, 0 < e.1 := by
    intro e he
    obtain ⟨before, -, -, hcu⟩ := mem_withCu he
    have hr := h.scheduled e.2 (snd_mem_of_mem_withCu he)
    omega
  have hnodup : ((common (withCu 0 batch)).map fun c => c.1.1 - 1).Nodup := by
    apply List.pairwise_map.mpr
    apply List.Pairwise.filterMap (R := fun a b : Nat × BatchReq => a.1 < b.1 ∧ 0 < a.1)
    · rintro a b ⟨hlt, hapos⟩ c hc c' hc'
      obtain ⟨p, -, rfl⟩ := Option.map_eq_some_iff.mp hc
      obtain ⟨p', -, rfl⟩ := Option.map_eq_some_iff.mp hc'
      show a.1 - 1 ≠ b.1 - 1
      omega
    · refine (withCu_pairwise 0 batch).imp_of_mem ?_
      intro a b ha hb hle
      have hb' := h.scheduled b.2 (snd_mem_of_mem_withCu hb)
      exact ⟨by omega, hpos a ha⟩
  have hsub : ((common (withCu 0 batch)).map fun c => c.1.1 - 1) ⊆
      List.range (common (withCu 0 batch)).length := by
    intro j hj
    obtain ⟨c, hc, rfl⟩ := List.mem_map.mp hj
    exact List.mem_range.mpr (hmax c hc)
  have hperm := (List.subperm_of_subset hnodup hsub).perm_of_length_le
    (by rw [List.length_range, List.length_map])
  exact List.mem_map.mp (hperm.mem_iff.mpr (List.mem_range.mpr hi))

/-- The slice of samples holds the ids of the first positions. -/
theorem StepOk.slice_eq (h : StepOk prev batch) {sampled : Nat → Int}
    (hsampled : prev.prevSampledTokenIds = some sampled)
    (hmatch : ∀ c ∈ common (withCu 0 batch), c.2 = c.1.1 - 1)
    (hmax : ∀ c ∈ common (withCu 0 batch), c.1.1 - 1 < (common (withCu 0 batch)).length)
    {i : Nat} (hi : i < (common (withCu 0 batch)).length) : sampled i = want prev batch i := by
  obtain ⟨c, hc, hlast⟩ := h.exists_last hmax hi
  obtain ⟨he, hprev⟩ := mem_common.mp hc
  have hr := snd_mem_of_mem_withCu he
  have hlt := (h.sampled c.1.2 hr (by rw [hprev]; exact Option.some_ne_none c.2)).2
  obtain ⟨before, -, -, hcu⟩ := mem_withCu he
  -- the position before belongs to an earlier request, so this one has a single token
  have hone : c.1.2.numScheduledTokens = 1 := by
    have hpos := h.scheduled c.1.2 hr
    by_cases hzero : i = 0
    · omega
    · obtain ⟨c', hc', hlast'⟩ := h.exists_last hmax (Nat.lt_of_le_of_lt (Nat.sub_le i 1) hi)
      have hle := le_of_cu_lt (mem_common.mp hc').1 he (by omega)
      obtain ⟨before', -, -, hcu'⟩ := mem_withCu (mem_common.mp hc').1
      have hpos' := h.scheduled c'.1.2 (snd_mem_of_mem_withCu (mem_common.mp hc').1)
      omega
  have hdraft : c.1.2.draftLen = 0 := by omega
  have hwant := (h.want_gpu hc hsampled).1
  rw [hdraft, Nat.sub_zero, hlast, hmatch c hc, hlast] at hwant
  exact hwant.symm

/-! ## The step -/

/-- Behind the slice or the scatter a position holds its id if it did before, or if its id is
on the GPU. -/
theorem StepOk.scattered (h : StepOk prev batch) {e : Nat × BatchReq}
    (he : e ∈ withCu 0 batch) {i : Nat} (hlt : i < e.1) {gpu : Nat → Int}
    (hgpu : (e.2.prevPosition ≠ none ∧ e.1 - 1 - e.2.draftLen ≤ i) ∨ gpu i = want prev batch i) :
    let sampleIndices := (common (withCu 0 batch)).map fun c => c.1.1 - 1 - c.1.2.draftLen
    let specIndices := (common (withCu 0 batch)).flatMap fun c =>
      List.range' (c.1.1 - 1 - c.1.2.draftLen + 1) c.1.2.draftLen
    let base := put sampleIndices (sampleIndices.map (want prev batch)) gpu
    base i = want prev batch i ∨
      (0 < e.2.draftLen ∧ e.2.prevPosition ≠ none ∧ i ∈ specIndices) := by
  intro sampleIndices specIndices base
  by_cases hmem : i ∈ sampleIndices
  · exact Or.inl ((put_map ..).trans (if_pos hmem))
  rcases hgpu with ⟨hprev, hge⟩ | heq
  · right
    obtain ⟨p, hp⟩ := Option.ne_none_iff_exists'.mp hprev
    have hc : (e, p) ∈ common (withCu 0 batch) := mem_common.mpr ⟨he, hp⟩
    have hne : i ≠ e.1 - 1 - e.2.draftLen := fun hi => hmem (hi ▸ List.mem_map_of_mem hc)
    refine ⟨by omega, hprev, List.mem_flatMap.mpr ⟨_, hc, ?_⟩⟩
    have hd := (h.sampled e.2 (snd_mem_of_mem_withCu he) hprev).2
    rw [List.mem_range'_1]
    show e.1 - 1 - e.2.draftLen + 1 ≤ i ∧ i < e.1 - 1 - e.2.draftLen + 1 + e.2.draftLen
    omega
  · exact Or.inl (((put_map ..).trans (if_neg hmem)).trans heq)

theorem StepOk.map_want (h : StepOk prev batch) :
    (List.range (batch.map BatchReq.numScheduledTokens).sum).map (want prev batch) =
      batch.flatMap (BatchReq.ids prev) := by
  have hlength : (batch.flatMap (BatchReq.ids prev)).length =
      (batch.map BatchReq.numScheduledTokens).sum := by
    rw [List.length_flatMap]
    exact congrArg List.sum (List.map_congr_left fun r hr => h.length_ids hr)
  rw [← hlength]
  exact List.ext_getElem (by rw [List.length_map, List.length_range]) fun i hi hi' => by
    rw [List.getElem_map, List.getElem_range, want, List.getElem?_eq_getElem hi',
      Option.getD_some]

/-- Every position of the buffer holds its id. -/
theorem StepOk.prepareInputIds_apply (h : StepOk prev batch) {i : Nat}
    (hi : i < (batch.map BatchReq.numScheduledTokens).sum) (gpu : Nat → Int) :
    prepareInputIds prev batch gpu i = want prev batch i := by
  obtain ⟨e, he, hle, hlt, hgpu⟩ := h.copied hi gpu
  cases hsampled : prev.prevSampledTokenIds with
  | none =>
      -- no request goes on, so the CPU knows every id
      have hprev : e.2.prevPosition = none := by
        by_contra hne
        exact (h.sampled e.2 (snd_mem_of_mem_withCu he) hne).1 hsampled
      rw [prepareInputIds, hsampled]
      exact h.want_cpu he (o := i + e.2.numScheduledTokens - e.1) (by omega) (by omega)
        (Or.inl hprev) gpu
  | some sampled =>
      rw [prepareInputIds, hsampled]
      simp only [foldl_step, List.nil_append, Nat.zero_add, List.length_map]
      generalize (if (common (withCu 0 batch)).length <
          (batch.map BatchReq.numScheduledTokens).sum -
            ((common (withCu 0 batch)).map fun c => c.1.2.draftLen).sum then
        copyToGpu (batch.flatMap BatchReq.cpuIds) gpu else gpu) = copied at hgpu ⊢
      split
      · next hnone =>
          -- nothing is taken from the GPU
          have hprev : e.2.prevPosition = none := by
            cases hprev : e.2.prevPosition with
            | none => rfl
            | some p =>
                have hc : (e, p) ∈ common (withCu 0 batch) := mem_common.mpr ⟨he, hprev⟩
                rw [List.length_eq_zero_iff.mp hnone] at hc
                cases hc
          exact hgpu.resolve_left fun hand => hand.1 hprev
      · split
        · next hfast =>
            simp only [Bool.true_and, List.all_eq_true, beq_iff_eq] at hfast
            have hmax : ∀ c ∈ common (withCu 0 batch),
                c.1.1 - 1 < (common (withCu 0 batch)).length := by
              intro c hc
              have hc' := (le_foldl_max (fun c : (Nat × BatchReq) × Nat => c.1.1 - 1)
                (common (withCu 0 batch)) (-1)).2 c hc
              have hlast := hfast.2
              omega
            show (if i < (common (withCu 0 batch)).length then sampled i else copied i) = _
            split
            · next hslice => exact h.slice_eq hsampled hfast.1 hmax hslice
            · next hrest =>
                apply hgpu.resolve_left
                rintro ⟨hprev, -⟩
                obtain ⟨p, hp⟩ := Option.ne_none_iff_exists'.mp hprev
                have hc : (e, p) ∈ common (withCu 0 batch) := mem_common.mpr ⟨he, hp⟩
                have hlast : e.1 - 1 < (common (withCu 0 batch)).length := hmax (e, p) hc
                exact hrest (by omega)
        · rw [h.sampled_eq hsampled]
          have hbase := h.scattered he hlt hgpu
          cases hdrafts : prev.draftTokenIds with
          | none =>
              apply hbase.resolve_right
              rintro ⟨hpos, hprev, -⟩
              obtain ⟨drafts, hsome, -⟩ :=
                h.drafted e.2 (snd_mem_of_mem_withCu he) hprev hpos
              rw [hdrafts] at hsome
              cases hsome
          | some drafts =>
              simp only
              split
              · next hspec =>
                  apply hbase.resolve_right
                  rintro ⟨-, -, hmem⟩
                  rw [hspec] at hmem
                  cases hmem
              · rw [h.drafted_eq hsampled hdrafts, put_map]
                split
                · rfl
                · next hnot => exact hbase.resolve_right fun hand => hnot hand.2.2

/-- The buffer holds the ids of every request, whatever it held before. -/
theorem prepareInputIds_eq (prev : Previous) (batch : List BatchReq) (h : StepOk prev batch)
    (gpu : Nat → Int) :
    (List.range (batch.map BatchReq.numScheduledTokens).sum).map (prepareInputIds prev batch gpu) =
      batch.flatMap (BatchReq.ids prev) := by
  rw [← h.map_want]
  exact List.map_congr_left fun i hi => h.prepareInputIds_apply (List.mem_range.mp hi) gpu

/-- Two requests go on, one with a draft, around a new one. -/
def mixedBatch : List BatchReq :=
  [⟨some 1, 2, 1, [5, -1]⟩, ⟨none, 3, 0, [7, 8, 9]⟩, ⟨some 0, 1, 0, [-1]⟩]

def mixedPrevious : Previous where
  prevSampledTokenIds := some fun i => 100 + i
  draftTokenIds := some ⟨2, fun p k => 200 + 10 * p + k⟩
  prevNumSpecTokens := 2

theorem prepareInputIds_eq_mixed :
    (List.range 6).map (prepareInputIds mixedPrevious mixedBatch fun _ => -7) =
      [101, 210, 7, 8, 9, 100] :=
  prepareInputIds_eq mixedPrevious mixedBatch
    { gathered := by decide
      scheduled := by decide
      sampled := fun r hr _ => ⟨Option.some_ne_none _,
        (by decide : ∀ r ∈ mixedBatch, r.draftLen < r.numScheduledTokens) r hr⟩
      drafted := fun r hr _ _ => ⟨_, rfl, rfl,
        (by decide : ∀ r ∈ mixedBatch, r.draftLen ≤ 2) r hr⟩ } _

end FlashNext.Ports.AsyncInputIds
