import Mathlib.Data.List.Basic
import Mathlib.Data.List.Nodup

/-!
# Dictionaries in insertion order

A dictionary is a list of entries with distinct keys.  A value is looked up,
stored, or taken with a default and changed in place.
-/

namespace FlashNext.Verified.OrderedDicts

variable {κ α β : Type*} [DecidableEq κ]

def keys (d : List (κ × α)) : List κ := d.map Prod.fst

/-- `d.get(k)` -/
def get (k : κ) : List (κ × α) → Option α
  | [] => none
  | (k', v) :: d => if k' = k then some v else get k d

/-- `d.setdefault(k, default)`, with `f` applied to what is there. -/
def alter (k : κ) (default : α) (f : α → α) : List (κ × α) → List (κ × α)
  | [] => [(k, f default)]
  | (k', v) :: d => if k' = k then (k', f v) :: d else (k', v) :: alter k default f d

/-- `d[k] = v` -/
def put (k : κ) (v : α) (d : List (κ × α)) : List (κ × α) := alter k v (fun _ => v) d

variable {k k' : κ} {v default : α} {f : α → α} {d : List (κ × α)}

theorem get_alter_self : get k (alter k default f d) = some (f ((get k d).getD default)) := by
  induction d with
  | nil => exact if_pos rfl
  | cons entry d ih =>
      obtain ⟨k', v⟩ := entry
      by_cases hk : k' = k
      · simp [alter, get, hk]
      · simp [alter, get, hk, ih]

theorem get_alter_of_ne (h : k' ≠ k) : get k' (alter k default f d) = get k' d := by
  induction d with
  | nil => exact if_neg h.symm
  | cons entry d ih =>
      obtain ⟨l, v⟩ := entry
      by_cases hk : l = k
      · have hl : l ≠ k' := fun hl => h (hl.symm.trans hk)
        simp [alter, get, hk, h.symm]
      · simp [alter, get, hk, ih]

theorem mem_keys_iff : k ∈ keys d ↔ (get k d).isSome := by
  induction d with
  | nil => simp [keys, get]
  | cons entry d ih =>
      obtain ⟨l, v⟩ := entry
      by_cases hl : l = k
      · simp [keys, get, hl]
      · have hrest : k ∈ keys ((l, v) :: d) ↔ k ∈ keys d := by
          simp [keys, Ne.symm hl]
        rw [hrest, ih, get, if_neg hl]

theorem mem_keys_alter : k' ∈ keys (alter k default f d) ↔ k' = k ∨ k' ∈ keys d := by
  by_cases hk : k' = k
  · subst hk
    rw [mem_keys_iff, get_alter_self]
    exact ⟨fun _ => Or.inl rfl, fun _ => rfl⟩
  · rw [mem_keys_iff, get_alter_of_ne hk, ← mem_keys_iff]
    exact ⟨Or.inr, fun h => h.resolve_left hk⟩

/-- Keys stay distinct. -/
theorem nodup_alter (h : (keys d).Nodup) : (keys (alter k default f d)).Nodup := by
  induction d with
  | nil => exact List.nodup_singleton k
  | cons entry d ih =>
      obtain ⟨l, v⟩ := entry
      obtain ⟨hnot, hrest⟩ := List.nodup_cons.mp h
      by_cases hl : l = k
      · rw [alter, if_pos hl]
        exact h
      · rw [alter, if_neg hl]
        apply List.nodup_cons.mpr
        refine ⟨?_, ih hrest⟩
        intro hmem
        rcases mem_keys_alter.mp hmem with hk | hmem
        · exact hl hk
        · exact hnot hmem

/-- A new key is stored behind the others. -/
theorem put_of_notMem (h : k ∉ keys d) : put k v d = d ++ [(k, v)] := by
  induction d with
  | nil => rfl
  | cons entry d ih =>
      obtain ⟨l, w⟩ := entry
      obtain ⟨hl, hrest⟩ := not_or.mp (mt List.mem_cons.mpr h)
      rw [put, alter, if_neg (Ne.symm hl)]
      exact congrArg ((l, w) :: ·) (ih hrest)

theorem get_of_mem (h : (keys d).Nodup) (hmem : (k, v) ∈ d) : get k d = some v := by
  induction d with
  | nil => exact absurd hmem List.not_mem_nil
  | cons entry d ih =>
      obtain ⟨l, w⟩ := entry
      obtain ⟨hnot, hrest⟩ := List.nodup_cons.mp h
      rcases List.mem_cons.mp hmem with heq | hmem
      · cases heq
        exact if_pos rfl
      · have hl : l ≠ k := by
          rintro rfl
          exact hnot (List.mem_map.mpr ⟨(l, v), hmem, rfl⟩)
        rw [get, if_neg hl, ih hrest hmem]

theorem mem_of_get (h : get k d = some v) : (k, v) ∈ d := by
  induction d with
  | nil => cases h
  | cons entry d ih =>
      obtain ⟨l, w⟩ := entry
      by_cases hl : l = k
      · rw [get, if_pos hl] at h
        cases h
        rw [hl]
        exact List.mem_cons_self
      · rw [get, if_neg hl] at h
        exact List.mem_cons_of_mem _ (ih h)

omit [DecidableEq κ] in
theorem keys_map (g : κ → α → β) (d : List (κ × α)) :
    keys (d.map fun e => (e.1, g e.1 e.2)) = keys d := by
  rw [keys, List.map_map]
  rfl

theorem get_map (g : κ → α → β) (d : List (κ × α)) :
    get k (d.map fun e => (e.1, g e.1 e.2)) = (get k d).map (g k) := by
  induction d with
  | nil => rfl
  | cons entry d ih =>
      obtain ⟨l, v⟩ := entry
      by_cases hl : l = k
      · simp [get, hl]
      · simp [get, hl, ih]

/-! ## Lists under keys -/

/-- `d.setdefault(k, []).append(v)` for each item. -/
def appendAll (items : List (κ × α)) (d : List (κ × List α)) : List (κ × List α) :=
  items.foldl (fun d e => alter e.1 [] (fun vs => vs ++ [e.2]) d) d

variable {items : List (κ × α)} {lists : List (κ × List α)}

/-- The list under a key. -/
def listAt (k : κ) (d : List (κ × List α)) : List α := (get k d).getD []

theorem listAt_appendAll :
    listAt k (appendAll items lists) =
      listAt k lists ++ (items.filter fun e => e.1 = k).map Prod.snd := by
  induction items generalizing lists with
  | nil => exact (List.append_nil _).symm
  | cons e items ih =>
      show listAt k (appendAll items (alter e.1 [] (fun vs => vs ++ [e.2]) lists)) = _
      rw [ih]
      by_cases hk : e.1 = k
      · subst hk
        have hhead : listAt e.1 (alter e.1 [] (fun vs => vs ++ [e.2]) lists) =
            listAt e.1 lists ++ [e.2] := by
          unfold listAt
          rw [get_alter_self]
          rfl
        rw [hhead, List.filter_cons_of_pos (by simp), List.map_cons, List.append_assoc,
          List.singleton_append]
      · have hhead : listAt k (alter e.1 [] (fun vs => vs ++ [e.2]) lists) = listAt k lists := by
          unfold listAt
          rw [get_alter_of_ne (Ne.symm hk)]
        rw [hhead, List.filter_cons_of_neg (by simp [hk])]

theorem mem_keys_appendAll :
    k ∈ keys (appendAll items lists) ↔ k ∈ keys lists ∨ ∃ e ∈ items, e.1 = k := by
  induction items generalizing lists with
  | nil => simp [appendAll]
  | cons e items ih =>
      show k ∈ keys (appendAll items (alter e.1 [] _ lists)) ↔ _
      rw [ih, mem_keys_alter, List.exists_mem_cons_iff, eq_comm, or_comm (a := e.1 = k), or_assoc]

theorem nodup_appendAll (h : (keys lists).Nodup) : (keys (appendAll items lists)).Nodup := by
  induction items generalizing lists with
  | nil => exact h
  | cons e items ih => exact ih (nodup_alter h)

theorem get_of_mem_keys (h : k ∈ keys lists) : get k lists = some (listAt k lists) := by
  have hsome := mem_keys_iff.mp h
  obtain ⟨vs, hvs⟩ := Option.isSome_iff_exists.mp hsome
  rw [listAt, hvs]
  rfl

/-- The values of one key of a dictionary. -/
theorem filter_key (h : (keys d).Nodup) :
    (d.filter fun e => e.1 = k).map Prod.snd = (get k d).toList := by
  induction d with
  | nil => rfl
  | cons e d ih =>
      obtain ⟨l, v⟩ := e
      obtain ⟨hnot, hrest⟩ := List.nodup_cons.mp h
      by_cases hl : l = k
      · subst hl
        have hnone : get l d = none := by
          by_contra hsome
          exact hnot (mem_keys_iff.mpr (Option.ne_none_iff_isSome.mp hsome))
        rw [List.filter_cons_of_pos (by simp), List.map_cons, ih hrest, hnone, get, if_pos rfl]
        rfl
      · rw [List.filter_cons_of_neg (by simp [hl]), ih hrest, get, if_neg hl]

end FlashNext.Verified.OrderedDicts
