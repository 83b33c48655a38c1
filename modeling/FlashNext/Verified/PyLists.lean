import FlashNext.Verified.Checked

/-!
# Lists under Python's indexing

A negative index counts from the end.  The bounds of a slice are moved into
the list before anything is read, so a slice never fails but for a step of
zero.  A dictionary is a list of entries with distinct keys.
-/

namespace FlashNext.Verified.PyLists

open FlashNext.Verified.Checked

/-- What indexing raises. -/
inductive IndexError where
  | outOfRange
  deriving DecidableEq, Repr

variable {α : Type*}

/-- `xs[i]`. -/
def getItem (xs : List α) (i : Int) : Except IndexError α :=
  match (if i < 0 then i + xs.length else i) with
  | .ofNat n => (xs[n]?).elim (.error .outOfRange) .ok
  | .negSucc _ => .error .outOfRange

theorem getItem_natCast {xs : List α} {n : Nat} (h : n < xs.length) :
    getItem xs n = .ok (xs[n]) := by
  have hpos : ¬ ((n : Int) < 0) := by omega
  unfold getItem
  rw [if_neg hpos]
  show (xs[n]?).elim _ _ = _
  rw [List.getElem?_eq_getElem h]
  rfl

/-- An index before the list or behind it. -/
theorem getItem_outOfRange {xs : List α} {i : Int}
    (h : i < -(xs.length : Int) ∨ (xs.length : Int) ≤ i) :
    getItem xs i = .error .outOfRange := by
  unfold getItem
  cases hsplit : (if i < 0 then i + xs.length else i) with
  | ofNat n =>
      rw [Int.ofNat_eq_natCast] at hsplit
      have hlen : xs.length ≤ n := by
        split at hsplit <;> omega
      show (xs[n]?).elim _ _ = _
      rw [List.getElem?_eq_none hlen]
      rfl
  | negSucc n => rfl

/-- A negative index counts from the end. -/
theorem getItem_neg {xs : List α} {n : Nat} (hn : n < xs.length) :
    getItem xs (-((n : Int) + 1)) = getItem xs ((xs.length - 1 - n : Nat) : Int) := by
  have hneg : -((n : Int) + 1) < 0 := by omega
  have hpos : ¬ (((xs.length - 1 - n : Nat) : Int) < 0) := by omega
  have hsum : -((n : Int) + 1) + xs.length = ((xs.length - 1 - n : Nat) : Int) := by omega
  unfold getItem
  rw [if_neg hpos, if_pos hneg, hsum]

/-! ## Slices -/

/-- `start:stop:step`; a missing part is `None`. -/
structure Slice where
  start : Option Int
  stop : Option Int
  step : Option Int
  deriving DecidableEq, Repr

/-- Move a bound between `lower` and `upper`; a negative one counts from the
end. -/
def clip (lower upper length bound : Int) : Int :=
  if bound < 0 then max (bound + length) lower else min bound upper

/-- `slice.indices(length)`; `none` for a step of zero. -/
def Slice.indices (sl : Slice) (length : Nat) : Option (Int × Int × Int) :=
  let step := sl.step.getD 1
  if step = 0 then none
  else if 0 < step then
    some ((sl.start.map (clip 0 length length)).getD 0,
      (sl.stop.map (clip 0 length length)).getD length, step)
  else
    some ((sl.start.map (clip (-1) (length - 1) length)).getD (length - 1),
      (sl.stop.map (clip (-1) (length - 1) length)).getD (-1), step)

/-- The number of entries of `range(start, stop, step)`. -/
def rangeLength (start stop step : Int) : Nat :=
  if 0 < step then ((stop - start + step - 1) / step).toNat
  else ((start - stop - step - 1) / (-step)).toNat

/-- `range(start, stop, step)`. -/
def range (start stop step : Int) : List Int :=
  (List.range (rangeLength start stop step)).map fun (k : Nat) => start + k * step

theorem range_natCast (n : Nat) : range 0 n 1 = (List.range n).map fun (k : Nat) => (k : Int) := by
  have hlen : rangeLength 0 n 1 = n := by
    rw [rangeLength, if_pos (by decide), Int.ediv_one]
    omega
  rw [range, hlen]
  apply List.map_congr_left
  intro k _
  omega

/-- Reading a list from its first to its last index. -/
theorem mapM_getItem {β : Type} (xs : List β) :
    (range 0 xs.length 1).mapM (getItem xs) = .ok xs := by
  cases xs with
  | nil =>
      rw [range_natCast]
      rfl
  | cons x xs =>
      have hread : ∀ i ∈ range 0 (x :: xs).length 1,
          getItem (x :: xs) i = .ok ((x :: xs).getD i.toNat x) := by
        intro i hi
        rw [range_natCast] at hi
        obtain ⟨k, hk, rfl⟩ := List.mem_map.mp hi
        rw [List.mem_range] at hk
        rw [getItem_natCast hk, Int.toNat_natCast, List.getD_eq_getElem?_getD,
          List.getElem?_eq_getElem hk]
        rfl
      rw [mapM_ok hread, range_natCast, List.map_map]
      congr 1
      apply List.ext_getElem
      · rw [List.length_map, List.length_range]
      · intro k _ hk
        rw [List.getElem_map, List.getElem_range]
        show (x :: xs).getD (k : Int).toNat x = _
        rw [Int.toNat_natCast, List.getD_eq_getElem?_getD, List.getElem?_eq_getElem hk]
        rfl

/-- What slicing raises. -/
inductive SliceError where
  | zeroStep
  | index (e : IndexError)
  deriving DecidableEq, Repr

/-- `xs[sl]`. -/
def getSlice (xs : List α) (sl : Slice) : Except SliceError (List α) :=
  match sl.indices xs.length with
  | none => .error .zeroStep
  | some (start, stop, step) => ((range start stop step).mapM (getItem xs)).mapError .index

theorem mem_range_of_pos {start stop step i : Int} (hstep : 0 < step)
    (h : i ∈ range start stop step) : start ≤ i ∧ i < stop := by
  obtain ⟨k, hk, rfl⟩ := List.mem_map.mp h
  rw [List.mem_range, rangeLength, if_pos hstep] at hk
  have hle : (k : Int) + 1 ≤ (stop - start + step - 1) / step := by omega
  have hmul := (Int.le_ediv_iff_mul_le hstep).mp hle
  rw [Int.add_mul, Int.one_mul] at hmul
  have hnonneg : 0 ≤ (k : Int) * step := Int.mul_nonneg (Int.natCast_nonneg k) (Int.le_of_lt hstep)
  omega

theorem mem_range_of_neg {start stop step i : Int} (hstep : step < 0)
    (h : i ∈ range start stop step) : stop < i ∧ i ≤ start := by
  obtain ⟨k, hk, rfl⟩ := List.mem_map.mp h
  have hpos : ¬ 0 < step := by omega
  rw [List.mem_range, rangeLength, if_neg hpos] at hk
  have hle : (k : Int) + 1 ≤ (start - stop - step - 1) / (-step) := by omega
  have hmul := (Int.le_ediv_iff_mul_le (by omega : 0 < -step)).mp hle
  rw [Int.add_mul, Int.one_mul, Int.mul_neg] at hmul
  have hnonneg : 0 ≤ (k : Int) * -step :=
    Int.mul_nonneg (Int.natCast_nonneg k) (by omega)
  rw [Int.mul_neg] at hnonneg
  omega

theorem clip_bounds {lower upper length : Int} (hlower : lower ≤ 0) (hle : lower ≤ upper)
    (hupper : length - 1 ≤ upper) (bound : Int) :
    lower ≤ clip lower upper length bound ∧ clip lower upper length bound ≤ upper := by
  unfold clip
  split <;> omega

/-- A bound that is given is clipped; the default is in range already. -/
theorem clip_getD_bounds {lower upper length default : Int} (hlower : lower ≤ 0)
    (hle : lower ≤ upper) (hupper : length - 1 ≤ upper)
    (hdefault : lower ≤ default ∧ default ≤ upper) (bound : Option Int) :
    lower ≤ (bound.map (clip lower upper length)).getD default ∧
      (bound.map (clip lower upper length)).getD default ≤ upper := by
  cases bound with
  | none => exact hdefault
  | some b => exact clip_bounds hlower hle hupper b

/-- A slice reads inside the list. -/
theorem Slice.mem_range_indices {sl : Slice} {length : Nat} {start stop step i : Int}
    (hindices : sl.indices length = some (start, stop, step)) (h : i ∈ range start stop step) :
    0 ≤ i ∧ i < length := by
  unfold Slice.indices at hindices
  simp only at hindices
  by_cases hzero : sl.step.getD 1 = 0
  · rw [if_pos hzero] at hindices
    cases hindices
  · rw [if_neg hzero] at hindices
    by_cases hpos : 0 < sl.step.getD 1
    · rw [if_pos hpos] at hindices
      cases hindices
      obtain ⟨hlow, hhigh⟩ := mem_range_of_pos hpos h
      have hn := Int.natCast_nonneg length
      have hle : (length : Int) - 1 ≤ length := by omega
      have hstart := (clip_getD_bounds (Int.le_refl 0) hn hle ⟨Int.le_refl 0, hn⟩ sl.start).1
      have hstop := (clip_getD_bounds (Int.le_refl 0) hn hle ⟨hn, Int.le_refl _⟩ sl.stop).2
      exact ⟨Int.le_trans hstart hlow, Int.lt_of_lt_of_le hhigh hstop⟩
    · rw [if_neg hpos] at hindices
      cases hindices
      obtain ⟨hlow, hhigh⟩ := mem_range_of_neg (by omega) h
      have hn : (-1 : Int) ≤ length - 1 := by omega
      have hneg : (-1 : Int) ≤ 0 := by omega
      have hstart := (clip_getD_bounds hneg hn (Int.le_refl _) ⟨hn, Int.le_refl _⟩ sl.start).2
      have hstop := (clip_getD_bounds hneg hn (Int.le_refl _) ⟨Int.le_refl _, hn⟩ sl.stop).1
      omega

/-! ## Dictionaries -/

section Dictionaries

variable {κ : Type*} [DecidableEq κ]

/-- A key that stands once is looked up where it stands. -/
theorem lookup_of_mem {entries : List (κ × α)} (hnodup : (entries.map Prod.fst).Nodup)
    {entry : κ × α} (hentry : entry ∈ entries) : entries.lookup entry.1 = some entry.2 := by
  induction entries with
  | nil => cases hentry
  | cons first entries ih =>
      obtain ⟨hfirst, hrest⟩ := List.nodup_cons.mp hnodup
      rw [List.lookup_cons]
      rcases List.mem_cons.mp hentry with rfl | hmem
      · rw [beq_self_eq_true]
      · have hne : entry.1 ≠ first.1 := fun heq => hfirst (heq ▸ List.mem_map_of_mem hmem)
        rw [beq_false_of_ne hne]
        exact ih hrest hmem

/-- An entry is found by its key. -/
theorem find?_of_mem {entries : List α} {key : α → κ} (hnodup : (entries.map key).Nodup)
    {entry : α} (hentry : entry ∈ entries) :
    entries.find? (fun e => key e = key entry) = some entry := by
  induction entries with
  | nil => cases hentry
  | cons first entries ih =>
      obtain ⟨hfirst, hrest⟩ := List.nodup_cons.mp hnodup
      rcases List.mem_cons.mp hentry with rfl | hmem
      · exact List.find?_cons_of_pos (decide_eq_true rfl)
      · have hne : key first ≠ key entry :=
          fun heq => hfirst (List.mem_map.mpr ⟨entry, hmem, heq.symm⟩)
        rw [List.find?_cons_of_neg (by simpa using hne)]
        exact ih hrest hmem

/-- Writing where a key stands. -/
theorem set_of_mem {entries : List α} {key : α → κ} (hnodup : (entries.map key).Nodup)
    {entry : α} (hentry : entry ∈ entries) :
    ∃ i, entries.findIdx? (fun e => key e = key entry) = some i ∧ entries[i]? = some entry ∧
      ∀ {β : Type*} (f : α → β) (v : β), (entries.map f).set i v =
        entries.map fun e => if key e = key entry then v else f e := by
  induction entries with
  | nil => cases hentry
  | cons first entries ih =>
      obtain ⟨hfirst, hrest⟩ := List.nodup_cons.mp hnodup
      by_cases heq : key first = key entry
      · have hsame : first = entry := by
          rcases List.mem_cons.mp hentry with rfl | hmem
          · rfl
          · exact absurd (List.mem_map.mpr ⟨entry, hmem, heq.symm⟩) hfirst
        subst hsame
        refine ⟨0, by rw [List.findIdx?_cons, decide_eq_true rfl, if_pos rfl], rfl, ?_⟩
        intro β f v
        rw [List.map_cons, List.map_cons, List.set_cons_zero, if_pos rfl]
        congr 1
        apply List.map_congr_left
        intro e he
        rw [if_neg fun hkey => hfirst (List.mem_map.mpr ⟨e, he, hkey⟩)]
      · have hmem : entry ∈ entries :=
          (List.mem_cons.mp hentry).resolve_left fun h => heq (congrArg key h.symm)
        obtain ⟨i, hfind, hget, hset⟩ := ih hrest hmem
        refine ⟨i + 1, ?_, hget, ?_⟩
        · rw [List.findIdx?_cons, decide_eq_false heq, hfind]
          rfl
        · intro β f v
          rw [List.map_cons, List.map_cons, List.set_cons_succ, hset, if_neg heq]
end Dictionaries

end FlashNext.Verified.PyLists
