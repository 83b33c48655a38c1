import Mathlib.Algebra.BigOperators.Group.List.Basic
import Mathlib.Algebra.Order.BigOperators.Group.List
import Mathlib.Algebra.Order.Field.Basic
import Mathlib.Algebra.Module.Basic
import Mathlib.Algebra.Module.Pi
import Mathlib.Order.WithBot
import Mathlib.Tactic.Ring
import Mathlib.Tactic.FieldSimp

/-!
# Online softmax

The softmax-weighted mean of scored values, computed tile by tile.  A running maximum
scales the weights seen so far; the mean does not depend on it.  Partial means over parts
of the columns are merged by the logarithms of their total weights.

The exponential is abstract: positive, with sums turned into products, and inverted by
its logarithm.  Values lie in any module.
-/

namespace FlashNext.Verified.OnlineSoftmax

/-- An exponential and its logarithm. -/
structure Exp2 (F : Type*) [Field F] [LinearOrder F] where
  exp2 : F → F
  log2 : F → F
  exp2_pos : ∀ a, 0 < exp2 a
  exp2_add : ∀ a b, exp2 (a + b) = exp2 a * exp2 b
  exp2_log2 : ∀ x, 0 < x → exp2 (log2 x) = x

variable {F V : Type*} [Field F] [LinearOrder F]

section Model

variable [AddCommMonoid V] [Module F V]

/-- The sum of the weights of scored values. -/
def totalWeight (E : Exp2 F) (cols : List (F × V)) : F := (cols.map fun c => E.exp2 c.1).sum

/-- The weighted sum of scored values. -/
def totalValue (E : Exp2 F) (cols : List (F × V)) : V :=
  (cols.map fun c => E.exp2 c.1 • c.2).sum

/-- The softmax-weighted mean; zero when there is nothing to weigh. -/
def mean (E : Exp2 F) (cols : List (F × V)) : V :=
  (totalWeight E cols)⁻¹ • totalValue E cols

/-! ## Tiles -/

structure State (F V : Type*) where
  max : F
  normalizer : F
  acc : V

def State.start (sentinel : F) : State F V := ⟨sentinel, 0, 0⟩

/-- A masked column scores the sentinel. -/
def columnScore (sentinel : F) : Option (F × V) → F
  | some c => c.1
  | none => sentinel

/-- A masked column has no weight. -/
def columnWeight (E : Exp2 F) (m : F) : Option (F × V) → F
  | some c => E.exp2 (c.1 - m)
  | none => 0

def columnValue : Option (F × V) → V
  | some c => c.2
  | none => 0

/-- Absorb a tile of masked columns. -/
def State.absorb (E : Exp2 F) (sentinel : F) (s : State F V) (tile : List (Option (F × V))) :
    State F V :=
  let nextMax := (tile.map (columnScore sentinel)).foldl Max.max s.max
  let alpha := E.exp2 (s.max - nextMax)
  { max := nextMax
    normalizer := s.normalizer * alpha + (tile.map (columnWeight E nextMax)).sum
    acc := alpha • s.acc +
      (tile.map fun c => columnWeight E nextMax c • columnValue c).sum }

/-- The mean of what was absorbed; `clamp` guards the division. -/
def State.output (clamp : F) (s : State F V) : V :=
  if 0 < s.normalizer then (Max.max s.normalizer clamp)⁻¹ • s.acc else 0

/-- The logarithm of the total weight of what was absorbed. -/
def State.lse (E : Exp2 F) (clamp : F) (s : State F V) : WithBot F :=
  if 0 < s.normalizer then ((s.max + E.log2 (Max.max s.normalizer clamp) : F) : WithBot F)
  else ⊥

/-! ## Merging -/

/-- The weight of a part against the greatest logarithm. -/
def mergeWeight (E : Exp2 F) : WithBot F → WithBot F → F
  | some m, some l => E.exp2 (l - m)
  | _, _ => 0

/-- Merge partial means by the logarithms of their weights. -/
def merge (E : Exp2 F) (parts : List (WithBot F × V)) : V :=
  let lseMax := (parts.map Prod.fst).foldl Max.max ⊥
  let denominator := (parts.map fun p => mergeWeight E lseMax p.1).sum
  if 0 < denominator then
    denominator⁻¹ • (parts.map fun p => mergeWeight E lseMax p.1 • p.2).sum
  else 0

end Model

/-! ## The exponential -/

section Exponential

variable (E : Exp2 F)

theorem Exp2.exp2_zero : E.exp2 0 = 1 := by
  have hne := (E.exp2_pos 0).ne'
  have hsq := E.exp2_add 0 0
  rw [add_zero] at hsq
  exact mul_left_cancel₀ hne (hsq.symm.trans (mul_one _).symm)

theorem Exp2.exp2_sub (a b : F) : E.exp2 (a - b) = E.exp2 (-b) * E.exp2 a := by
  rw [← E.exp2_add]
  congr 1
  ring

theorem Exp2.exp2_neg_mul (a : F) : E.exp2 (-a) * E.exp2 a = 1 := by
  rw [← E.exp2_add, neg_add_cancel, E.exp2_zero]

/-- A change of the reference. -/
theorem Exp2.exp2_rescale (m m' : F) : E.exp2 (-m) * E.exp2 (m - m') = E.exp2 (-m') := by
  rw [← E.exp2_add]
  congr 1
  ring

end Exponential

/-! ## Total weights -/

section Weights

variable {E : Exp2 F} {cols cols' : List (F × V)}

@[simp] theorem totalWeight_nil : totalWeight E ([] : List (F × V)) = 0 := rfl

@[simp] theorem totalWeight_append :
    totalWeight E (cols ++ cols') = totalWeight E cols + totalWeight E cols' := by
  simp [totalWeight]

/-- The weights of a tile against a reference. -/
theorem sum_columnWeight (m : F) (tile : List (Option (F × V))) :
    (tile.map (columnWeight E m)).sum = E.exp2 (-m) * totalWeight E (tile.filterMap id) := by
  induction tile with
  | nil => simp
  | cons c tile ih =>
      cases c with
      | none => simpa [columnWeight] using ih
      | some c =>
          rw [List.map_cons, List.sum_cons, ih]
          show E.exp2 (c.1 - m) + _ = E.exp2 (-m) * (E.exp2 c.1 + totalWeight E _)
          rw [E.exp2_sub, mul_add]

variable [IsStrictOrderedRing F]

theorem totalWeight_nonneg : 0 ≤ totalWeight E cols := by
  refine List.sum_nonneg fun x hx => ?_
  obtain ⟨c, _, rfl⟩ := List.mem_map.mp hx
  exact (E.exp2_pos c.1).le

theorem exp2_le_totalWeight {c : F × V} (hc : c ∈ cols) :
    E.exp2 c.1 ≤ totalWeight E cols := by
  induction cols with
  | nil => cases hc
  | cons d cols ih =>
      show E.exp2 c.1 ≤ E.exp2 d.1 + totalWeight E cols
      rcases List.mem_cons.mp hc with rfl | hrest
      · exact le_add_of_nonneg_right totalWeight_nonneg
      · exact (ih hrest).trans (le_add_of_nonneg_left (E.exp2_pos d.1).le)

theorem totalWeight_pos (hne : cols ≠ []) : 0 < totalWeight E cols := by
  obtain ⟨c, hc⟩ := List.exists_mem_of_ne_nil cols hne
  exact (E.exp2_pos c.1).trans_le (exp2_le_totalWeight hc)

end Weights

/-! ## Total values -/

section Values

variable [AddCommMonoid V] [Module F V] {E : Exp2 F} {cols cols' : List (F × V)}

@[simp] theorem totalValue_nil : totalValue E ([] : List (F × V)) = 0 := rfl

@[simp] theorem totalValue_append :
    totalValue E (cols ++ cols') = totalValue E cols + totalValue E cols' := by
  simp [totalValue]

@[simp] theorem mean_nil : mean E ([] : List (F × V)) = 0 := by simp [mean]

@[simp] theorem mean_singleton (c : F × V) : mean E [c] = c.2 := by
  rw [mean, totalWeight, totalValue, List.map_singleton, List.map_singleton,
    List.sum_singleton, List.sum_singleton, inv_smul_smul₀ (E.exp2_pos c.1).ne']

/-- The order of the columns does not matter. -/
theorem mean_perm (h : cols.Perm cols') : mean E cols = mean E cols' := by
  have hweight : totalWeight E cols = totalWeight E cols' := (h.map _).sum_eq
  have hvalue : totalValue E cols = totalValue E cols' := (h.map _).sum_eq
  rw [mean, mean, hweight, hvalue]

omit [AddCommMonoid V] [Module F V] in
/-- The mean of functions, at a point. -/
theorem mean_apply {ι : Type*} (cols : List (F × (ι → F))) (i : ι) :
    mean E cols i = mean E (cols.map fun c => (c.1, c.2 i)) := by
  have hweight : totalWeight E (cols.map fun c => (c.1, c.2 i)) = totalWeight E cols := by
    simp [totalWeight, Function.comp_def]
  have hvalue : totalValue E (cols.map fun c => (c.1, c.2 i)) = totalValue E cols i := by
    induction cols with
    | nil => rfl
    | cons c cols ih =>
        have ih := ih (by simp [totalWeight, Function.comp_def])
        show E.exp2 c.1 • c.2 i + totalValue E (cols.map fun c => (c.1, c.2 i)) =
          E.exp2 c.1 • c.2 i + totalValue E cols i
        rw [ih]
  rw [mean, mean, hweight, hvalue]
  rfl

theorem sum_columnValue (m : F) (tile : List (Option (F × V))) :
    (tile.map fun c => columnWeight E m c • columnValue c).sum =
      E.exp2 (-m) • totalValue E (tile.filterMap id) := by
  induction tile with
  | nil => simp
  | cons c tile ih =>
      cases c with
      | none => simpa [columnWeight, columnValue] using ih
      | some c =>
          rw [List.map_cons, List.sum_cons, ih]
          show E.exp2 (c.1 - m) • c.2 + _ =
            E.exp2 (-m) • (E.exp2 c.1 • c.2 + totalValue E _)
          rw [E.exp2_sub, smul_add, mul_smul]

end Values

/-! ## The running state -/

section Running

variable [AddCommMonoid V] [Module F V] {E : Exp2 F} {sentinel clamp : F}
  {cols : List (F × V)} {s : State F V}

/-- The state after the columns `cols`. -/
structure Holds (E : Exp2 F) (sentinel : F) (cols : List (F × V)) (s : State F V) :
    Prop where
  normalizer : s.normalizer = E.exp2 (-s.max) * totalWeight E cols
  acc : s.acc = E.exp2 (-s.max) • totalValue E cols
  attained : s.max = sentinel ∨ ∃ c ∈ cols, c.1 = s.max
  le_max : ∀ c ∈ cols, c.1 ≤ s.max

theorem holds_start : Holds E sentinel [] (State.start sentinel : State F V) where
  normalizer := by simp [State.start]
  acc := by simp [State.start]
  attained := Or.inl rfl
  le_max := fun c hc => by cases hc

omit [Field F] in
theorem le_foldl_max (scores : List F) (m : F) :
    m ≤ scores.foldl Max.max m ∧ ∀ x ∈ scores, x ≤ scores.foldl Max.max m := by
  induction scores generalizing m with
  | nil => exact ⟨le_refl m, fun x hx => by cases hx⟩
  | cons y scores ih =>
      obtain ⟨hm, hall⟩ := ih (Max.max m y)
      refine ⟨(le_max_left m y).trans hm, fun x hx => ?_⟩
      rcases List.mem_cons.mp hx with rfl | hrest
      · exact (le_max_right m x).trans hm
      · exact hall x hrest

omit [Field F] in
theorem foldl_max_mem (scores : List F) (m : F) :
    scores.foldl Max.max m = m ∨ scores.foldl Max.max m ∈ scores := by
  induction scores generalizing m with
  | nil => exact Or.inl rfl
  | cons y scores ih =>
      rcases ih (Max.max m y) with heq | hmem
      · rcases max_choice m y with hm | hy
        · exact Or.inl (heq.trans hm)
        · right
          rw [List.foldl_cons, heq, hy]
          exact List.mem_cons_self
      · exact Or.inr (List.mem_cons_of_mem y hmem)

/-- A tile is absorbed whatever the new maximum is. -/
theorem Holds.absorb (h : Holds E sentinel cols s) (tile : List (Option (F × V))) :
    Holds E sentinel (cols ++ tile.filterMap id) (s.absorb E sentinel tile) := by
  obtain ⟨m, hm⟩ : ∃ m, m = (tile.map (columnScore sentinel)).foldl Max.max s.max := ⟨_, rfl⟩
  have hle := le_foldl_max (tile.map (columnScore sentinel)) s.max
  have hmem := foldl_max_mem (tile.map (columnScore sentinel)) s.max
  have hs : s.absorb E sentinel tile =
      ⟨m, s.normalizer * E.exp2 (s.max - m) + (tile.map (columnWeight E m)).sum,
        E.exp2 (s.max - m) • s.acc +
          (tile.map fun c => columnWeight E m c • columnValue c).sum⟩ := by
    rw [hm]
    rfl
  rw [← hm] at hle hmem
  rw [hs]
  refine { normalizer := ?_, acc := ?_, attained := ?_, le_max := ?_ }
  · dsimp only
    rw [sum_columnWeight, h.normalizer, totalWeight_append, mul_add, mul_right_comm,
      E.exp2_rescale]
  · dsimp only
    rw [sum_columnValue, h.acc, totalValue_append, smul_add, ← mul_smul,
      mul_comm (E.exp2 (s.max - m)), E.exp2_rescale]
  · dsimp only
    rcases hmem with heq | hin
    · rcases h.attained with hsent | ⟨c, hc, hcm⟩
      · exact Or.inl (heq.trans hsent)
      · exact Or.inr ⟨c, List.mem_append_left _ hc, hcm.trans heq.symm⟩
    · obtain ⟨c, hc, hcm⟩ := List.mem_map.mp hin
      cases c with
      | none => exact Or.inl hcm.symm
      | some c =>
          exact Or.inr ⟨c, List.mem_append_right _ (List.mem_filterMap.mpr ⟨_, hc, rfl⟩), hcm⟩
  · intro c hc
    rcases List.mem_append.mp hc with hold | hnew
    · exact (h.le_max c hold).trans hle.1
    · obtain ⟨o, ho, hoc⟩ := List.mem_filterMap.mp hnew
      have ho' : o = some c := hoc
      exact hle.2 c.1 (List.mem_map.mpr ⟨o, ho, by rw [ho']; rfl⟩)

/-- A run over tiles. -/
theorem Holds.run (h : Holds E sentinel cols s) (tiles : List (List (Option (F × V)))) :
    Holds E sentinel (cols ++ tiles.flatMap (List.filterMap id))
      (tiles.foldl (State.absorb E sentinel) s) := by
  induction tiles generalizing cols s with
  | nil => simpa using h
  | cons tile tiles ih =>
      have hnext := ih (h.absorb tile)
      rw [List.append_assoc] at hnext
      exact hnext

theorem Holds.normalizer_nil (h : Holds E sentinel [] s) : s.normalizer = 0 := by
  rw [h.normalizer, totalWeight_nil, mul_zero]

variable [IsStrictOrderedRing F]

/-- Scores above the sentinel: the maximum is one of them, so it weighs one. -/
theorem Holds.one_le (h : Holds E sentinel cols s) (habove : ∀ c ∈ cols, sentinel < c.1)
    (hne : cols ≠ []) : 1 ≤ s.normalizer := by
  obtain ⟨d, hd⟩ := List.exists_mem_of_ne_nil cols hne
  have hmax : ∃ c ∈ cols, c.1 = s.max := by
    refine h.attained.resolve_left fun hsent => ?_
    exact absurd (hsent ▸ h.le_max d hd) (not_le.mpr (habove d hd))
  obtain ⟨c, hc, hcm⟩ := hmax
  have hle := exp2_le_totalWeight (E := E) hc
  rw [hcm] at hle
  calc (1 : F) = E.exp2 (-s.max) * E.exp2 s.max := (E.exp2_neg_mul _).symm
    _ ≤ E.exp2 (-s.max) * totalWeight E cols :=
      mul_le_mul_of_nonneg_left hle (E.exp2_pos _).le
    _ = s.normalizer := h.normalizer.symm

theorem Holds.max_clamp (h : Holds E sentinel cols s) (habove : ∀ c ∈ cols, sentinel < c.1)
    (hclamp : clamp ≤ 1) (hne : cols ≠ []) : Max.max s.normalizer clamp = s.normalizer :=
  max_eq_left (hclamp.trans (h.one_le habove hne))

/-- The output is the mean of the absorbed columns. -/
theorem Holds.output_eq (h : Holds E sentinel cols s) (habove : ∀ c ∈ cols, sentinel < c.1)
    (hclamp : clamp ≤ 1) : s.output clamp = mean E cols := by
  unfold State.output
  by_cases hne : cols = []
  · subst hne
    rw [h.normalizer_nil, if_neg (lt_irrefl 0), mean_nil]
  · have hone := h.one_le habove hne
    have hm := E.exp2_pos (-s.max)
    rw [if_pos (zero_lt_one.trans_le hone), h.max_clamp habove hclamp hne, h.normalizer,
      h.acc, mean, ← mul_smul, mul_inv, mul_right_comm, inv_mul_cancel₀ hm.ne', one_mul]

/-- What a part hands to the merge. -/
structure IsPart (E : Exp2 F) (cols : List (F × V)) (part : WithBot F × V) : Prop where
  nil : cols = [] → part.1 = ⊥
  weight : cols ≠ [] → ∃ a : F, part.1 = a ∧ E.exp2 a = totalWeight E cols
  value : part.2 = mean E cols

theorem Holds.isPart (h : Holds E sentinel cols s) (habove : ∀ c ∈ cols, sentinel < c.1)
    (hclamp : clamp ≤ 1) : IsPart E cols (s.lse E clamp, s.output clamp) where
  nil := by
    rintro rfl
    exact if_neg (by rw [h.normalizer_nil]; exact lt_irrefl 0)
  weight := fun hne => by
    have hpos := zero_lt_one.trans_le (h.one_le habove hne)
    refine ⟨s.max + E.log2 s.normalizer, ?_, ?_⟩
    · show State.lse E clamp s = _
      rw [State.lse, if_pos hpos, h.max_clamp habove hclamp hne]
    · rw [E.exp2_add, E.exp2_log2 _ hpos, h.normalizer, ← mul_assoc,
        mul_comm (E.exp2 s.max), E.exp2_neg_mul, one_mul]
  value := h.output_eq habove hclamp

end Running

/-! ## The merge -/

section Merge

variable [AddCommMonoid V] [Module F V] [IsStrictOrderedRing F] {E : Exp2 F}
  {colss : List (List (F × V))} {parts : List (WithBot F × V)}

omit [IsStrictOrderedRing F] in
/-- A part weighs its columns, against any reference. -/
theorem IsPart.mergeWeight_eq {cols : List (F × V)} {part : WithBot F × V}
    (h : IsPart E cols part) (m : F) :
    mergeWeight E (m : WithBot F) part.1 = E.exp2 (-m) * totalWeight E cols := by
  by_cases hne : cols = []
  · rw [h.nil hne, hne, totalWeight_nil, mul_zero]
    rfl
  · obtain ⟨a, ha, hweight⟩ := h.weight hne
    rw [ha, ← hweight, ← E.exp2_sub]
    rfl

theorem IsPart.mergeValue_eq {cols : List (F × V)} {part : WithBot F × V}
    (h : IsPart E cols part) (m : F) :
    mergeWeight E (m : WithBot F) part.1 • part.2 = E.exp2 (-m) • totalValue E cols := by
  rw [h.mergeWeight_eq, h.value]
  by_cases hne : cols = []
  · rw [hne, mean_nil, smul_zero, totalValue_nil, smul_zero]
  · have hpos := totalWeight_pos (E := E) hne
    rw [mean, ← mul_smul, mul_assoc, mul_inv_cancel₀ hpos.ne', mul_one]

omit [IsStrictOrderedRing F] in
theorem sum_mergeWeight (h : List.Forall₂ (IsPart E) colss parts) (m : F) :
    (parts.map fun p => mergeWeight E (m : WithBot F) p.1).sum =
      E.exp2 (-m) * totalWeight E colss.flatten := by
  induction h with
  | nil => simp
  | @cons cols part colss parts hpart _ ih =>
      rw [List.map_cons, List.sum_cons, ih, hpart.mergeWeight_eq, List.flatten_cons,
        totalWeight_append, mul_add]

theorem sum_mergeValue (h : List.Forall₂ (IsPart E) colss parts) (m : F) :
    (parts.map fun p => mergeWeight E (m : WithBot F) p.1 • p.2).sum =
      E.exp2 (-m) • totalValue E colss.flatten := by
  induction h with
  | nil => simp
  | @cons cols part colss parts hpart _ ih =>
      rw [List.map_cons, List.sum_cons, ih, hpart.mergeValue_eq, List.flatten_cons,
        totalValue_append, smul_add]

omit [IsStrictOrderedRing F] in
/-- When the greatest logarithm is minus infinity, no part has a column. -/
theorem flatten_eq_nil (h : List.Forall₂ (IsPart E) colss parts)
    (hbot : ∀ p ∈ parts, p.1 = ⊥) : colss.flatten = [] := by
  induction h with
  | nil => rfl
  | @cons cols part colss parts hpart _ ih =>
      have hnil : cols = [] := by
        by_contra hne
        obtain ⟨a, ha, _⟩ := hpart.weight hne
        rw [hbot part List.mem_cons_self] at ha
        cases ha
      rw [List.flatten_cons, hnil, ih fun p hp => hbot p (List.mem_cons_of_mem part hp)]
      rfl

/-- The merged value is the mean of all columns. -/
theorem merge_eq_mean (h : List.Forall₂ (IsPart E) colss parts) :
    merge E parts = mean E colss.flatten := by
  have hle := le_foldl_max (parts.map Prod.fst) (⊥ : WithBot F)
  unfold merge
  dsimp only
  cases hmax : (parts.map Prod.fst).foldl Max.max (⊥ : WithBot F) with
  | bot =>
      rw [hmax] at hle
      have hbot : ∀ p ∈ parts, p.1 = ⊥ := fun p hp =>
        le_bot_iff.mp (hle.2 p.1 (List.mem_map_of_mem hp))
      have hzero : (parts.map fun p => mergeWeight E (⊥ : WithBot F) p.1).sum = 0 := by
        refine List.sum_eq_zero fun x hx => ?_
        obtain ⟨p, _, rfl⟩ := List.mem_map.mp hx
        rfl
      rw [hzero, if_neg (lt_irrefl 0), flatten_eq_nil h hbot, mean_nil]
  | coe m =>
      have hm := E.exp2_pos (-m)
      rw [sum_mergeWeight h, sum_mergeValue h]
      by_cases hne : colss.flatten = []
      · rw [hne, totalWeight_nil, mul_zero, if_neg (lt_irrefl 0), mean_nil]
      · have hpos := totalWeight_pos (E := E) hne
        rw [if_pos (mul_pos hm hpos), mean, ← mul_smul, mul_inv, mul_right_comm,
          inv_mul_cancel₀ hm.ne', one_mul]

end Merge

end FlashNext.Verified.OnlineSoftmax
