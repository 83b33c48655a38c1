import Mathlib.Data.List.Basic

/-!
# Tables filled by ranges

Items are ordered by a key.  Neighbours with one key form a group, and each
group fills the cells from behind the previous key up to its own.  A cell then
holds the items with the least key that reaches it.
-/

namespace FlashNext.Verified.RangeTable

variable {α : Type*} (key : α → Nat)

/-! ## Groups of neighbours -/

/-- Put one more item in front. -/
def pushItem (a : α) : List (Nat × List α) → List (Nat × List α)
  | [] => [(key a, [a])]
  | (n, group) :: rest =>
      if key a = n then (n, a :: group) :: rest else (key a, [a]) :: (n, group) :: rest

/-- `groupby(items, key)`. -/
def groupby : List α → List (Nat × List α)
  | [] => []
  | a :: items => pushItem key a (groupby items)

/-- Groups in strictly ascending order, each with the items of its key. -/
structure Grouped (items : List α) (groups : List (Nat × List α)) : Prop where
  ascending : groups.Pairwise fun g h => g.1 < h.1
  mem : ∀ x, x ∈ items ↔ ∃ g ∈ groups, x ∈ g.2
  key_eq : ∀ g ∈ groups, ∀ x ∈ g.2, key x = g.1
  nonempty : ∀ g ∈ groups, g.2 ≠ []

variable {key} {items : List α} {groups : List (Nat × List α)}

theorem Grouped.push {a : α} (h : Grouped key items groups)
    (hle : ∀ x ∈ items, key a ≤ key x) : Grouped key (a :: items) (pushItem key a groups) := by
  match groups, h with
  | [], h =>
      have hnone : ∀ x, x ∉ items := by
        intro x hx
        obtain ⟨g, hg, -⟩ := (h.mem x).mp hx
        cases hg
      exact ⟨List.pairwise_singleton _ _, by simp [pushItem, hnone], by simp [pushItem],
        by simp [pushItem]⟩
  | (n, group) :: rest, h =>
      obtain ⟨hhead, htail⟩ := List.pairwise_cons.mp h.ascending
      by_cases heq : key a = n
      · have hpush : pushItem key a ((n, group) :: rest) = (n, a :: group) :: rest := if_pos heq
        rw [hpush]
        refine ⟨List.pairwise_cons.mpr ⟨hhead, htail⟩, ?_, ?_, ?_⟩
        · intro x
          rw [List.mem_cons, h.mem]
          simp only [List.mem_cons, or_and_right, exists_or, exists_eq_left, or_assoc]
        · intro g hg x hx
          rcases List.mem_cons.mp hg with rfl | hrest
          · rcases List.mem_cons.mp hx with rfl | hgroup
            · exact heq
            · exact h.key_eq _ List.mem_cons_self x hgroup
          · exact h.key_eq g (List.mem_cons_of_mem _ hrest) x hx
        · intro g hg
          rcases List.mem_cons.mp hg with rfl | hrest
          · exact List.cons_ne_nil _ _
          · exact h.nonempty g (List.mem_cons_of_mem _ hrest)
      · have hpush : pushItem key a ((n, group) :: rest) =
            (key a, [a]) :: (n, group) :: rest := if_neg heq
        -- the head group has an item, whose key is no smaller
        obtain ⟨y, ys, hy⟩ := List.exists_cons_of_ne_nil (h.nonempty _ List.mem_cons_self)
        have hymem : y ∈ (n, group).2 := by
          rw [hy]
          exact List.mem_cons_self
        have hn : key y = n := h.key_eq _ List.mem_cons_self y hymem
        have hlt : key a < n := by
          have := hle y ((h.mem y).mpr ⟨_, List.mem_cons_self, hymem⟩)
          omega
        rw [hpush]
        refine ⟨List.pairwise_cons.mpr ⟨?_, h.ascending⟩, ?_, ?_, ?_⟩
        · intro g hg
          rcases List.mem_cons.mp hg with rfl | hrest
          · exact hlt
          · exact Nat.lt_trans hlt (hhead g hrest)
        · intro x
          rw [List.mem_cons, h.mem]
          simp only [List.mem_cons, or_and_right, exists_or, exists_eq_left, List.not_mem_nil,
            or_false]
        · intro g hg x hx
          rcases List.mem_cons.mp hg with rfl | hrest
          · rw [List.mem_singleton.mp hx]
          · exact h.key_eq g hrest x hx
        · intro g hg
          rcases List.mem_cons.mp hg with rfl | hrest
          · exact List.cons_ne_nil _ _
          · exact h.nonempty g hrest

theorem grouped_groupby (h : items.Pairwise fun a b => key a ≤ key b) :
    Grouped key items (groupby key items) := by
  induction items with
  | nil => exact ⟨List.Pairwise.nil, by simp [groupby], nofun, nofun⟩
  | cons a items ih =>
      obtain ⟨hle, hrest⟩ := List.pairwise_cons.mp h
      exact (ih hrest).push hle

/-! ## Filling -/

/-- Append each group to the cells from `start` up to its key; the next group
starts behind it. -/
def fillGroups (start : Nat) : List (Nat × List α) → (Nat → List α) → Nat → List α
  | [], cells => cells
  | (n, group) :: rest, cells =>
      fillGroups (n + 1) rest fun i => if start ≤ i ∧ i ≤ n then cells i ++ group else cells i

/-- The first group that reaches a cell. -/
def reaching (groups : List (Nat × List α)) (i : Nat) : List α :=
  (groups.find? fun g => i ≤ g.1).elim [] Prod.snd

/-- A cell gains the first group that reaches it. -/
theorem fillGroups_eq {start : Nat} (hasc : groups.Pairwise fun g h => g.1 < h.1)
    (hstart : ∀ g ∈ groups, start ≤ g.1) (cells : Nat → List α) (i : Nat) :
    fillGroups start groups cells i =
      cells i ++ if start ≤ i then reaching groups i else [] := by
  induction groups generalizing start cells with
  | nil =>
      show cells i = cells i ++ if start ≤ i then [] else []
      rw [ite_self, List.append_nil]
  | cons g rest ih =>
      obtain ⟨n, group⟩ := g
      obtain ⟨hhead, htail⟩ := List.pairwise_cons.mp hasc
      have hn : start ≤ n := hstart _ List.mem_cons_self
      rw [fillGroups, ih htail fun g hg => hhead g hg]
      by_cases hreach : i ≤ n
      · have hfirst : reaching ((n, group) :: rest) i = group := by
          rw [reaching, List.find?_cons_of_pos (by simpa using hreach)]
          rfl
        rw [hfirst, if_neg (by omega : ¬ n + 1 ≤ i), List.append_nil]
        by_cases hi : start ≤ i
        · rw [if_pos ⟨hi, hreach⟩, if_pos hi]
        · rw [if_neg (fun h => hi h.1), if_neg hi, List.append_nil]
      · have hlater : reaching ((n, group) :: rest) i = reaching rest i := by
          rw [reaching, List.find?_cons_of_neg (by simpa using hreach)]
          rfl
        rw [hlater, if_neg (fun h => hreach h.2), if_pos (by omega : n + 1 ≤ i),
          if_pos (by omega : start ≤ i)]

/-- A cell holds the items with the least key that reaches it. -/
theorem mem_reaching (h : Grouped key items groups) {i : Nat} {x : α} :
    x ∈ reaching groups i ↔
      x ∈ items ∧ i ≤ key x ∧ ∀ y ∈ items, i ≤ key y → key x ≤ key y := by
  cases hfind : groups.find? fun g => i ≤ g.1 with
  | none =>
      have hnone := List.find?_eq_none.mp hfind
      rw [reaching, hfind]
      refine iff_of_false List.not_mem_nil ?_
      rintro ⟨hx, hi, -⟩
      obtain ⟨g, hg, hxg⟩ := (h.mem x).mp hx
      rw [h.key_eq g hg x hxg] at hi
      exact hnone g hg (decide_eq_true hi)
  | some g =>
      obtain ⟨hreach, before, after, rfl, hbefore⟩ := List.find?_eq_some_iff_append.mp hfind
      have hg : g ∈ before ++ g :: after := List.mem_append_right _ List.mem_cons_self
      have hafter := (List.pairwise_cons.mp (List.pairwise_append.mp h.ascending).2.1).1
      have hgi : i ≤ g.1 := of_decide_eq_true hreach
      -- the groups that reach the cell are `g` and those behind it
      have hcases : ∀ g' ∈ before ++ g :: after, i ≤ g'.1 → g' = g ∨ g.1 < g'.1 := by
        intro g' hg' hi
        rcases List.mem_append.mp hg' with hb | hrest
        · have := hbefore g' hb
          simp only [hi, decide_true, Bool.not_true, Bool.false_eq_true] at this
        · rcases List.mem_cons.mp hrest with rfl | ha
          · exact Or.inl rfl
          · exact Or.inr (hafter g' ha)
      rw [reaching, hfind]
      show x ∈ g.2 ↔ _
      constructor
      · intro hx
        rw [h.key_eq g hg x hx]
        refine ⟨(h.mem x).mpr ⟨g, hg, hx⟩, hgi, ?_⟩
        intro y hy hi
        obtain ⟨g', hg', hyg⟩ := (h.mem y).mp hy
        rw [h.key_eq g' hg' y hyg] at hi ⊢
        rcases hcases g' hg' hi with rfl | hlt
        · exact Nat.le_refl _
        · exact Nat.le_of_lt hlt
      · rintro ⟨hx, hi, hleast⟩
        obtain ⟨g', hg', hxg⟩ := (h.mem x).mp hx
        obtain ⟨y, ys, hy⟩ := List.exists_cons_of_ne_nil (h.nonempty g hg)
        have hyg : y ∈ g.2 := by
          rw [hy]
          exact List.mem_cons_self
        have hkey := hleast y ((h.mem y).mpr ⟨g, hg, hyg⟩) (by rwa [h.key_eq g hg y hyg])
        rw [h.key_eq g hg y hyg, h.key_eq g' hg' x hxg] at hkey
        rw [h.key_eq g' hg' x hxg] at hi
        rcases hcases g' hg' hi with rfl | hlt
        · exact hxg
        · exact absurd hkey (Nat.not_le.mpr hlt)

end FlashNext.Verified.RangeTable
