import Mathlib.Data.List.Basic

/-!
# Scattering rows into an indexed state

`scatter idx f rows st` runs through `rows` and applies `f row` to the entry
of `st` that the row names.  A row whose index is negative names no entry.
-/

namespace FlashNext.Verified.Scatter

variable {ρ σ : Type*} {idx : ρ → Int} {f : ρ → σ → σ}

/-- Apply every row to the entry it names, in order. -/
def scatter (idx : ρ → Int) (f : ρ → σ → σ) (rows : List ρ) (st : Nat → σ) :
    Nat → σ :=
  rows.foldl (fun st row i => if idx row = i then f row (st i) else st i) st

/-- No two rows name the same entry. -/
def Distinct (idx : ρ → Int) (rows : List ρ) : Prop :=
  rows.Pairwise fun a b => idx a = idx b → idx a < 0

theorem Distinct.tail {row : ρ} {rows : List ρ}
    (h : Distinct idx (row :: rows)) : Distinct idx rows :=
  (List.pairwise_cons.mp h).2

theorem distinct_of_nodup {rows : List ρ} (h : (rows.map idx).Nodup) :
    Distinct idx rows := by
  have hpair : rows.Pairwise fun a b => idx a ≠ idx b := List.pairwise_map.mp h
  exact hpair.imp fun hne heq => absurd heq hne

@[simp] theorem scatter_nil (st : Nat → σ) : scatter idx f [] st = st := rfl

@[simp] theorem scatter_cons (row : ρ) (rows : List ρ) (st : Nat → σ) :
    scatter idx f (row :: rows) st =
      scatter idx f rows
        (fun i => if idx row = i then f row (st i) else st i) := rfl

/-- An entry that no row names is left alone. -/
theorem scatter_of_ne {rows : List ρ} {i : Nat}
    (h : ∀ row ∈ rows, idx row ≠ i) (st : Nat → σ) :
    scatter idx f rows st i = st i := by
  induction rows generalizing st with
  | nil => rfl
  | cons row rows ih =>
      have hrow : idx row ≠ i := h row List.mem_cons_self
      rw [scatter_cons, ih fun r hr => h r (List.mem_cons_of_mem _ hr),
        if_neg hrow]

/-- An entry that one row names is what this row makes of it. -/
theorem scatter_of_mem {rows : List ρ} {row : ρ} {i : Nat}
    (hdistinct : Distinct idx rows) (hmem : row ∈ rows) (hidx : idx row = i)
    (st : Nat → σ) : scatter idx f rows st i = f row (st i) := by
  induction rows generalizing st with
  | nil => cases hmem
  | cons head rows ih =>
      have hhead := (List.pairwise_cons.mp hdistinct).1
      rw [scatter_cons]
      rcases List.mem_cons.mp hmem with rfl | htail
      · have hrest : ∀ r ∈ rows, idx r ≠ i := by
          intro r hr heq
          have := hhead r hr (hidx.trans heq.symm)
          omega
        rw [scatter_of_ne hrest, if_pos hidx]
      · have hne : idx head ≠ i := by
          intro heq
          have := hhead row htail (heq.trans hidx.symm)
          omega
        rw [ih hdistinct.tail htail, if_neg hne]

/-! ## Writing a list of values -/

/-- `st[idx] = vals`. -/
def put (idx : List Nat) (vals : List σ) (st : Nat → σ) : Nat → σ :=
  scatter (fun w : Nat × σ => (w.1 : Int)) (fun w _ => w.2) (idx.zip vals) st

theorem put_of_not_mem {idx : List Nat} {vals : List σ} {i : Nat}
    (h : i ∉ idx) (st : Nat → σ) : put idx vals st i = st i := by
  refine scatter_of_ne (fun w hw heq => ?_) st
  have hmem : w.1 ∈ idx := (List.of_mem_zip hw).1
  rw [Int.ofNat.inj heq] at hmem
  exact h hmem

/-- Reading back what was written. -/
theorem map_put {idx : List Nat} {vals : List σ} (hnodup : idx.Nodup)
    (hlen : vals.length = idx.length) (st : Nat → σ) :
    idx.map (put idx vals st) = vals := by
  induction idx generalizing vals st with
  | nil => rw [List.map_nil, List.eq_nil_of_length_eq_zero hlen]
  | cons i idx ih =>
      cases vals with
      | nil => simp at hlen
      | cons v vals =>
          have hcons : put (i :: idx) (v :: vals) st =
              put idx vals (fun j => if (i : Int) = j then v else st j) := rfl
          have hi : i ∉ idx := (List.nodup_cons.mp hnodup).1
          have hrest := ih (List.nodup_cons.mp hnodup).2 (Nat.succ.inj hlen)
            (fun j => if (i : Int) = j then v else st j)
          rw [hcons, List.map_cons, hrest, put_of_not_mem hi, if_pos rfl]

/-- Writing a value that depends on the entry only. -/
theorem put_map (idx : List Nat) (f : Nat → σ) (st : Nat → σ) (i : Nat) :
    put idx (idx.map f) st i = if i ∈ idx then f i else st i := by
  induction idx generalizing st with
  | nil => rfl
  | cons j idx ih =>
      have hcons : put (j :: idx) ((j :: idx).map f) st =
          put idx (idx.map f) (fun k => if (j : Int) = k then f j else st k) := rfl
      rw [hcons, ih]
      by_cases hmem : i ∈ idx
      · rw [if_pos hmem, if_pos (List.mem_cons_of_mem j hmem)]
      · rw [if_neg hmem]
        by_cases hij : j = i
        · rw [hij, if_pos rfl, if_pos List.mem_cons_self]
        · have hne : ¬ ((j : Int) = i) := fun h => hij (Int.ofNat.inj h)
          have hnot : i ∉ j :: idx := by
            intro h
            rcases List.mem_cons.mp h with rfl | h
            · exact hij rfl
            · exact hmem h
          rw [if_neg hne, if_neg hnot]

/-- Several such writes. -/
theorem foldl_put_map {as : List (List Nat × List σ)} {f : Nat → σ}
    (h : ∀ a ∈ as, a.2 = a.1.map f) {st : Nat → σ} {i : Nat}
    (hi : i ∈ as.flatMap Prod.fst ∨ st i = f i) :
    as.foldl (fun st a => put a.1 a.2 st) st i = f i := by
  induction as generalizing st with
  | nil => exact hi.resolve_left List.not_mem_nil
  | cons a as ih =>
      apply ih fun b hb => h b (List.mem_cons_of_mem a hb)
      show i ∈ as.flatMap Prod.fst ∨ put a.1 a.2 st i = f i
      rw [h a List.mem_cons_self, put_map]
      by_cases hmem : i ∈ a.1
      · exact Or.inr (if_pos hmem)
      · rw [if_neg hmem]
        rcases hi with hflat | hst
        · rcases List.mem_append.mp (List.flatMap_cons ▸ hflat) with h1 | h2
          · exact absurd h1 hmem
          · exact Or.inl h2
        · exact Or.inr hst

/-- The values written for several owners: every owner finds its own, and
nothing else has changed. -/
structure Stored {τ : Type*} (slots : τ → List Nat) (vals : τ → List σ)
    (ps : List τ) (st st' : Nat → σ) : Prop where
  own : ∀ p ∈ ps, (slots p).map st' = vals p
  rest : ∀ i, (∀ p ∈ ps, i ∉ slots p) → st' i = st i

variable {τ : Type*} {slots : τ → List Nat} {vals : τ → List σ}
  {ps qs : List τ} {st st' st'' : Nat → σ}

theorem stored_nil (st : Nat → σ) : Stored slots vals [] st st where
  own := fun p hp => by cases hp
  rest := fun _ _ => rfl

theorem Stored.congr {vals' : τ → List σ} (h : Stored slots vals ps st st')
    (hvals : ∀ p ∈ ps, vals p = vals' p) : Stored slots vals' ps st st' where
  own := fun p hp => (h.own p hp).trans (hvals p hp)
  rest := h.rest

/-- Owners may be exchanged for others with the same slots and values. -/
theorem Stored.exchange {υ : Type*} {slots' : υ → List Nat}
    {vals' : υ → List σ} {us : List υ} (h : Stored slots vals ps st st')
    (hown : ∀ u ∈ us, ∃ p ∈ ps, slots p = slots' u ∧ vals p = vals' u)
    (hrest : ∀ p ∈ ps, ∃ u ∈ us, slots' u = slots p) :
    Stored slots' vals' us st st' where
  own := by
    intro u hu
    obtain ⟨p, hp, hslots, hvals⟩ := hown u hu
    rw [← hslots, ← hvals]
    exact h.own p hp
  rest := by
    intro i hi
    apply h.rest
    intro p hp
    obtain ⟨u, hu, hslots⟩ := hrest p hp
    rw [← hslots]
    exact hi u hu

/-- The owners' values determine the result. -/
theorem Stored.unique (h : Stored slots vals ps st st')
    (h' : Stored slots vals ps st st'') : st' = st'' := by
  funext i
  by_cases howned : ∃ p ∈ ps, i ∈ slots p
  · obtain ⟨p, hp, hi⟩ := howned
    have hmap : (slots p).map st' = (slots p).map st'' :=
      (h.own p hp).trans (h'.own p hp).symm
    exact List.map_inj_left.mp hmap i hi
  · have hnone : ∀ p ∈ ps, i ∉ slots p := fun p hp hi => howned ⟨p, hp, hi⟩
    rw [h.rest i hnone, h'.rest i hnone]

private theorem own_of_flatMap
    (hlen : ∀ p ∈ ps, (vals p).length = (slots p).length)
    (h : (ps.flatMap slots).map st' = ps.flatMap vals) :
    ∀ p ∈ ps, (slots p).map st' = vals p := by
  induction ps with
  | nil => exact fun p hp => by cases hp
  | cons q ps ih =>
      rw [List.flatMap_cons, List.flatMap_cons, List.map_append] at h
      have hq : ((slots q).map st').length = (vals q).length := by
        rw [List.length_map, hlen q List.mem_cons_self]
      obtain ⟨hhead, htail⟩ := List.append_inj h hq
      intro p hp
      rcases List.mem_cons.mp hp with rfl | hmem
      · exact hhead
      · exact ih (fun r hr => hlen r (List.mem_cons_of_mem _ hr)) htail p hmem

/-- One write of all values, owner after owner. -/
theorem stored_put (hnodup : (ps.flatMap slots).Nodup)
    (hlen : ∀ p ∈ ps, (vals p).length = (slots p).length) (st : Nat → σ) :
    Stored slots vals ps st (put (ps.flatMap slots) (ps.flatMap vals) st) where
  own := by
    have htotal : (ps.flatMap vals).length = (ps.flatMap slots).length := by
      rw [List.length_flatMap, List.length_flatMap]
      exact congrArg List.sum (List.map_congr_left hlen)
    exact own_of_flatMap hlen (map_put hnodup htotal st)
  rest := by
    intro i hi
    refine put_of_not_mem ?_ st
    intro hmem
    obtain ⟨p, hp, hip⟩ := List.mem_flatMap.mp hmem
    exact hi p hp hip

/-- Two groups of owners with different slots, one after the other. -/
theorem Stored.append (h : Stored slots vals ps st st')
    (h' : Stored slots vals qs st' st'')
    (hdisjoint : ∀ p ∈ ps, ∀ q ∈ qs, ∀ i ∈ slots p, i ∉ slots q) :
    Stored slots vals (ps ++ qs) st st'' where
  own := by
    intro p hp
    rcases List.mem_append.mp hp with hleft | hright
    · rw [← h.own p hleft]
      refine List.map_congr_left fun i hi => ?_
      exact h'.rest i fun q hq => hdisjoint p hleft q hq i hi
    · exact h'.own p hright
  rest := by
    intro i hi
    rw [h'.rest i fun q hq => hi q (List.mem_append_right _ hq),
      h.rest i fun p hp => hi p (List.mem_append_left _ hp)]

end FlashNext.Verified.Scatter
