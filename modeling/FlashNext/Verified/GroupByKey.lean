import Mathlib.Data.List.Basic
import Mathlib.Data.List.Perm.Basic

/-!
# Grouping by key

A loop files values under their keys.  Keys keep the order in which they first
appear, and the values of a key keep theirs.
-/

namespace FlashNext.Verified.GroupByKey

variable {κ α : Type}

/-- The values with their keys. -/
def ungroup (groups : List (κ × List α)) : List (κ × α) :=
  groups.flatMap fun group => group.2.map fun v => (group.1, v)

@[simp]
theorem ungroup_cons (k : κ) (vs : List α) (groups : List (κ × List α)) :
    ungroup ((k, vs) :: groups) = vs.map (fun v => (k, v)) ++ ungroup groups :=
  List.flatMap_cons

theorem ungroup_map_snd (groups : List (κ × List α)) :
    (ungroup groups).map Prod.snd = (groups.map Prod.snd).flatten := by
  induction groups with
  | nil => rfl
  | cons group groups ih =>
      rw [ungroup_cons, List.map_append, ih, List.map_map]
      show group.2.map id ++ _ = _
      rw [List.map_id]
      rfl

variable [DecidableEq κ]

/-- Files a value behind those of its key. -/
def file (k : κ) (v : α) : List (κ × List α) → List (κ × List α)
  | [] => [(k, [v])]
  | (k', vs) :: groups =>
      if k' = k then (k', vs ++ [v]) :: groups else (k', vs) :: file k v groups

def groupPairs (items : List (κ × α)) : List (κ × List α) :=
  items.foldl (fun groups item => file item.1 item.2 groups) []

theorem ungroup_file (k : κ) (v : α) (groups : List (κ × List α)) :
    (ungroup (file k v groups)).Perm (ungroup groups ++ [(k, v)]) := by
  induction groups with
  | nil => exact List.Perm.refl _
  | cons group groups ih =>
      obtain ⟨k', vs⟩ := group
      unfold file
      by_cases hk : k' = k
      · rw [if_pos hk, ungroup_cons, ungroup_cons, List.map_append, hk,
          List.append_assoc, List.append_assoc]
        apply List.Perm.append_left
        exact List.perm_append_comm
      · rw [if_neg hk, ungroup_cons, ungroup_cons, List.append_assoc]
        exact ih.append_left _

theorem file_ne_nil {k : κ} {v : α} {groups : List (κ × List α)}
    (h : ∀ group ∈ groups, group.2 ≠ []) : ∀ group ∈ file k v groups, group.2 ≠ [] := by
  induction groups with
  | nil =>
      intro group hgroup
      rw [List.mem_singleton.mp hgroup]
      exact List.cons_ne_nil v []
  | cons first groups ih =>
      have hrest := ih fun g hg => h g (List.mem_cons_of_mem first hg)
      intro group hgroup
      unfold file at hgroup
      split at hgroup
      · rcases List.mem_cons.mp hgroup with rfl | hmem
        · exact List.append_ne_nil_of_right_ne_nil _ (List.cons_ne_nil v [])
        · exact h group (List.mem_cons_of_mem first hmem)
      · rcases List.mem_cons.mp hgroup with rfl | hmem
        · exact h _ List.mem_cons_self
        · exact hrest group hmem

/-- Every key has a value. -/
theorem groupPairs_ne_nil (items : List (κ × α)) :
    ∀ group ∈ groupPairs items, group.2 ≠ [] := by
  have hloop : ∀ (rest : List (κ × α)) (groups : List (κ × List α)),
      (∀ group ∈ groups, group.2 ≠ []) →
        ∀ group ∈ rest.foldl (fun groups item => file item.1 item.2 groups) groups,
          group.2 ≠ [] := by
    intro rest
    induction rest with
    | nil => exact fun groups h => h
    | cons item rest ih => exact fun groups h => ih _ (file_ne_nil h)
  exact hloop items [] fun group hgroup => (List.not_mem_nil hgroup).elim

/-- Nothing is lost and nothing is filed twice. -/
theorem ungroup_groupPairs (items : List (κ × α)) :
    (ungroup (groupPairs items)).Perm items := by
  have hloop : ∀ (rest : List (κ × α)) (groups : List (κ × List α)),
      (ungroup (rest.foldl (fun groups item => file item.1 item.2 groups)
        groups)).Perm (ungroup groups ++ rest) := by
    intro rest
    induction rest with
    | nil =>
        intro groups
        rw [List.foldl_nil, List.append_nil]
    | cons item rest ih =>
        intro groups
        rw [List.foldl_cons, List.append_cons]
        exact (ih _).trans ((ungroup_file item.1 item.2 groups).append_right rest)
  exact hloop items []

end FlashNext.Verified.GroupByKey
