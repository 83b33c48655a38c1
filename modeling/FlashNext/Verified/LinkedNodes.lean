import Mathlib.Data.List.Chain
import Mathlib.Data.List.Nodup
import Mathlib.Logic.Function.Basic

/-!
# Doubly linked sequences

Every node may hold a link to a next and to a previous node.  `Spells` says
that the links spell a sequence and that there are no others.  The nodes
between two neighbours may be bypassed, and nodes without links may be spliced
in between two neighbours; the sequence that is spelled then is the expected
one.

* `Spells.bypass` — nodes are taken out and lose their links;
* `Spells.splice` — nodes are linked in one after another;
* `Spells.next_iff_prev` — the two directions are inverse to each other.
-/

namespace FlashNext.Verified.LinkedNodes

variable {N : Type*}

/-- The links of all nodes. -/
@[ext]
structure Links (N : Type*) where
  next : N → Option N
  prev : N → Option N

/-- No node is linked. -/
def unlinked : Links N where
  next := fun _ => none
  prev := fun _ => none

/-- Two nodes are neighbours, in this order. -/
def Links.Joins (l : Links N) (x y : N) : Prop := l.next x = some y ∧ l.prev y = some x

/-- The links spell the sequence, and there are no others. -/
structure Spells (l : Links N) (ns : List N) : Prop where
  nodup : ns.Nodup
  chain : ns.IsChain l.Joins
  next_eq_none : ∀ x ∉ ns.dropLast, l.next x = none
  prev_eq_none : ∀ y ∉ ns.tail, l.prev y = none

variable {l l' : Links N} {ns as bs cs : List N} {x y p n : N}

/-! ## Reading -/

/-- Links outside the sequence do not matter. -/
theorem chain_congr (h : ns.IsChain l.Joins) (hnext : ∀ x ∈ ns.dropLast, l'.next x = l.next x)
    (hprev : ∀ y ∈ ns.tail, l'.prev y = l.prev y) : ns.IsChain l'.Joins := by
  induction ns with
  | nil => exact .nil
  | cons x ns ih =>
      cases ns with
      | nil => exact .singleton x
      | cons y ns =>
          rw [List.isChain_cons_cons] at h ⊢
          have hx := hnext x List.mem_cons_self
          have hy := hprev y List.mem_cons_self
          refine ⟨⟨hx.trans h.1.1, hy.trans h.1.2⟩, ih h.2 ?_ ?_⟩
          · exact fun z hz => hnext z (List.mem_cons_of_mem x hz)
          · exact fun z hz => hprev z (List.mem_cons_of_mem y hz)

theorem exists_joins_of_mem_dropLast (h : ns.IsChain l.Joins) (hx : x ∈ ns.dropLast) :
    ∃ y, l.Joins x y := by
  induction ns with
  | nil => cases hx
  | cons z ns ih =>
      cases ns with
      | nil => cases hx
      | cons y ns =>
          rw [List.isChain_cons_cons] at h
          rcases List.mem_cons.mp hx with rfl | hrest
          · exact ⟨y, h.1⟩
          · exact ih h.2 hrest

theorem exists_joins_of_mem_tail (h : ns.IsChain l.Joins) (hy : y ∈ ns.tail) :
    ∃ x, l.Joins x y := by
  induction ns with
  | nil => cases hy
  | cons x ns ih =>
      cases ns with
      | nil => cases hy
      | cons z ns =>
          rw [List.isChain_cons_cons] at h
          rcases List.mem_cons.mp hy with rfl | hrest
          · exact ⟨x, h.1⟩
          · exact ih h.2 hrest

/-- The links to the next nodes and those to the previous ones are inverse. -/
theorem Spells.next_iff_prev (h : Spells l ns) : l.next x = some y ↔ l.prev y = some x := by
  constructor
  · intro hnext
    by_cases hx : x ∈ ns.dropLast
    · obtain ⟨z, hz⟩ := exists_joins_of_mem_dropLast h.chain hx
      have heq : z = y := Option.some.inj (hz.1.symm.trans hnext)
      exact heq ▸ hz.2
    · rw [h.next_eq_none x hx] at hnext
      cases hnext
  · intro hprev
    by_cases hy : y ∈ ns.tail
    · obtain ⟨z, hz⟩ := exists_joins_of_mem_tail h.chain hy
      have heq : z = x := Option.some.inj (hz.2.symm.trans hprev)
      exact heq ▸ hz.1
    · rw [h.prev_eq_none y hy] at hprev
      cases hprev

/-- A node outside the sequence has no links. -/
theorem Spells.outside (h : Spells l ns) (hx : x ∉ ns) : l.next x = none ∧ l.prev x = none :=
  ⟨h.next_eq_none x fun hmem => hx (List.dropLast_subset ns hmem),
    h.prev_eq_none x fun hmem => hx (List.mem_of_mem_tail hmem)⟩

/-- Neighbours in the sequence. -/
theorem Spells.joins_first (h : Spells l (p :: n :: cs)) : l.Joins p n :=
  (List.isChain_cons_cons.mp h.chain).1

theorem Spells.joins (h : Spells l (as ++ p :: n :: cs)) : l.Joins p n :=
  (List.isChain_append_cons_cons.mp h.chain).2.1

/-- All but the last node, and all but the first, around two nodes. -/
theorem mem_dropLast_around : x ∈ (as ++ p :: (bs ++ n :: cs)).dropLast ↔
    x ∈ as ∨ x = p ∨ x ∈ bs ∨ x ∈ (n :: cs).dropLast := by
  have hne : bs ++ n :: cs ≠ [] := List.append_ne_nil_of_right_ne_nil bs (List.cons_ne_nil n cs)
  rw [List.dropLast_append_of_ne_nil (List.cons_ne_nil p _), List.dropLast_cons_of_ne_nil hne,
    List.dropLast_append_of_ne_nil (List.cons_ne_nil n cs), List.mem_append, List.mem_cons,
    List.mem_append]

theorem mem_tail_around : x ∈ (as ++ p :: (bs ++ n :: cs)).tail ↔
    x ∈ (as ++ [p]).tail ∨ x ∈ bs ∨ x = n ∨ x ∈ cs := by
  have hsplit : as ++ p :: (bs ++ n :: cs) = (as ++ [p]) ++ (bs ++ n :: cs) :=
    (List.append_cons as p _)
  have hne : as ++ [p] ≠ [] := List.append_ne_nil_of_right_ne_nil as (List.cons_ne_nil p [])
  rw [hsplit, List.tail_append_of_ne_nil hne, List.mem_append, List.mem_append, List.mem_cons]

/-! ## Writing -/

section Write

variable [DecidableEq N]

def Links.setNext (l : Links N) (x : N) (y : Option N) : Links N :=
  { l with next := Function.update l.next x y }

def Links.setPrev (l : Links N) (x : N) (y : Option N) : Links N :=
  { l with prev := Function.update l.prev x y }

@[simp] theorem next_setNext (l : Links N) (x : N) (y : Option N) :
    (l.setNext x y).next = Function.update l.next x y := rfl

@[simp] theorem prev_setNext (l : Links N) (x : N) (y : Option N) :
    (l.setNext x y).prev = l.prev := rfl

@[simp] theorem next_setPrev (l : Links N) (x : N) (y : Option N) :
    (l.setPrev x y).next = l.next := rfl

@[simp] theorem prev_setPrev (l : Links N) (x : N) (y : Option N) :
    (l.setPrev x y).prev = Function.update l.prev x y := rfl

/-- Make two nodes neighbours. -/
def Links.join (l : Links N) (p n : N) : Links N := (l.setNext p (some n)).setPrev n (some p)

/-- Take both links from a node. -/
def Links.clear (l : Links N) (x : N) : Links N := (l.setPrev x none).setNext x none

/-- Link nodes in one after another; the last node comes with the result. -/
def Links.weave (l : Links N) (p : N) (bs : List N) : N × Links N :=
  bs.foldl (fun s b => (b, (s.2.setPrev b (some s.1)).setNext s.1 (some b))) (p, l)

@[simp] theorem weave_cons (l : Links N) (p b : N) (bs : List N) :
    l.weave p (b :: bs) = (l.join p b).weave b bs := rfl

/-- Joining the ends of two chains. -/
theorem chain_join (hleft : (as ++ [p]).IsChain l.Joins) (hright : (n :: cs).IsChain l.Joins)
    (hnodup : (as ++ p :: n :: cs).Nodup) :
    (as ++ p :: n :: cs).IsChain (l.join p n).Joins := by
  have hdisjoint := List.disjoint_of_nodup_append hnodup
  have hrest := (List.nodup_append.mp hnodup).2.1
  have hp : p ∉ n :: cs := (List.nodup_cons.mp hrest).1
  have hn : n ∉ cs := (List.nodup_cons.mp (List.nodup_cons.mp hrest).2).1
  rw [List.isChain_append_cons_cons]
  refine ⟨chain_congr hleft ?_ ?_, ⟨?_, ?_⟩, chain_congr hright ?_ ?_⟩
  · intro x hx
    rw [List.dropLast_concat] at hx
    have hne : x ≠ p := fun heq => hdisjoint hx (heq ▸ List.mem_cons_self)
    exact Function.update_of_ne hne _ _
  · intro y hy
    have hmem := List.mem_of_mem_tail hy
    have hne : y ≠ n := by
      rintro rfl
      rcases List.mem_append.mp hmem with has | hlast
      · exact hdisjoint has (List.mem_cons_of_mem p List.mem_cons_self)
      · exact hp (List.mem_singleton.mp hlast ▸ List.mem_cons_self)
    exact Function.update_of_ne hne _ _
  · exact Function.update_self ..
  · exact Function.update_self ..
  · intro x hx
    have hne : x ≠ p := fun heq => hp (heq ▸ List.dropLast_subset _ hx)
    exact Function.update_of_ne hne _ _
  · intro y hy
    have hne : y ≠ n := fun heq => hn (heq ▸ hy)
    exact Function.update_of_ne hne _ _

/-- Nodes without links do not lose any. -/
theorem chain_clear (h : ns.IsChain l.Joins) (hx : x ∉ ns) : ns.IsChain (l.clear x).Joins := by
  apply chain_congr h
  · intro y hy
    have hne : y ≠ x := fun heq => hx (heq ▸ List.dropLast_subset ns hy)
    exact Function.update_of_ne hne _ _
  · intro y hy
    have hne : y ≠ x := fun heq => hx (heq ▸ List.mem_of_mem_tail hy)
    exact Function.update_of_ne hne _ _

/-! ## Taking out -/

/-- Clear nodes one after another. -/
def Links.clearAll (l : Links N) (bs : List N) : Links N := bs.foldl Links.clear l

theorem clearAll_next (l : Links N) (bs : List N) (x : N) :
    (l.clearAll bs).next x = if x ∈ bs then none else l.next x := by
  induction bs generalizing l with
  | nil => simp [Links.clearAll]
  | cons b bs ih =>
      show ((l.clear b).clearAll bs).next x = _
      rw [ih]
      by_cases hb : x = b
      · simp [Links.clear, hb]
      · simp [Links.clear, hb]

theorem clearAll_prev (l : Links N) (bs : List N) (x : N) :
    (l.clearAll bs).prev x = if x ∈ bs then none else l.prev x := by
  induction bs generalizing l with
  | nil => simp [Links.clearAll]
  | cons b bs ih =>
      show ((l.clear b).clearAll bs).prev x = _
      rw [ih]
      by_cases hb : x = b
      · simp [Links.clear, hb]
      · simp [Links.clear, hb]

theorem chain_clearAll (h : ns.IsChain l.Joins) (hdisjoint : ns.Disjoint bs) :
    ns.IsChain (l.clearAll bs).Joins := by
  induction bs generalizing l with
  | nil => exact h
  | cons b bs ih =>
      rw [List.disjoint_cons_right] at hdisjoint
      exact ih (chain_clear h hdisjoint.1) hdisjoint.2

/-- Neighbours joined before or after a node is cleared. -/
theorem clear_join (hp : x ≠ p) (hn : x ≠ n) : (l.join p n).clear x = (l.clear x).join p n := by
  ext1
  · exact Function.update_comm hp.symm _ _ _
  · exact Function.update_comm hn.symm _ _ _

/-- The nodes between two others are taken out. -/
theorem Spells.bypass (h : Spells l (as ++ p :: (bs ++ n :: cs))) :
    Spells ((l.clearAll bs).join p n) (as ++ p :: n :: cs) := by
  have hsub : (as ++ p :: n :: cs).Sublist (as ++ p :: (bs ++ n :: cs)) :=
    List.Sublist.append_left (List.Sublist.cons_cons p (List.sublist_append_right bs _)) as
  have hnodup := h.nodup.sublist hsub
  obtain ⟨hleft, hmid⟩ := List.isChain_split.mp h.chain
  have hright : (n :: cs).IsChain l.Joins := (List.isChain_append.mp hmid.tail).2.1
  have hdisjoint : (as ++ [p]).Disjoint (bs ++ n :: cs) := by
    apply List.disjoint_of_nodup_append
    rw [← List.append_cons]
    exact h.nodup
  have hmid : (n :: cs).Disjoint bs := by
    have hdrop : (bs ++ n :: cs).Nodup :=
      h.nodup.sublist ((List.sublist_cons_self p _).trans (List.sublist_append_right as _))
    exact fun _ hcs hbs => List.disjoint_of_nodup_append hdrop hbs hcs
  constructor
  · exact hnodup
  · apply chain_join (chain_clearAll hleft _) (chain_clearAll hright hmid) hnodup
    exact fun x hx hb => hdisjoint hx (List.mem_append_left _ hb)
  · intro x hx
    rw [← List.nil_append (n :: cs), mem_dropLast_around] at hx
    have hp : x ≠ p := fun heq => hx (.inr (.inl heq))
    have hdrop : (l.clearAll bs).next x = none := by
      rw [clearAll_next]
      by_cases hb : x ∈ bs
      · exact if_pos hb
      · rw [if_neg hb]
        apply h.next_eq_none
        rw [mem_dropLast_around]
        tauto
    exact (Function.update_of_ne hp _ _).trans hdrop
  · intro y hy
    rw [← List.nil_append (n :: cs), mem_tail_around] at hy
    have hn : y ≠ n := fun heq => hy (.inr (.inr (.inl heq)))
    have hdrop : (l.clearAll bs).prev y = none := by
      rw [clearAll_prev]
      by_cases hb : y ∈ bs
      · exact if_pos hb
      · rw [if_neg hb]
        apply h.prev_eq_none
        rw [mem_tail_around]
        tauto
    exact (Function.update_of_ne hn _ _).trans hdrop

/-- One node is taken out: its neighbours are joined, then it is cleared. -/
theorem Spells.bypass_one (h : Spells l (as ++ p :: x :: n :: cs)) :
    l.prev x = some p ∧ l.next x = some n ∧ Spells ((l.join p n).clear x) (as ++ p :: n :: cs) := by
  have hnodup := (List.nodup_append.mp h.nodup).2.1
  have hp : x ≠ p := fun heq => (List.nodup_cons.mp hnodup).1 (heq ▸ List.mem_cons_self)
  have hn : x ≠ n := fun heq =>
    (List.nodup_cons.mp (List.nodup_cons.mp hnodup).2).1 (heq ▸ List.mem_cons_self)
  have hnext : Spells l ((as ++ [p]) ++ x :: n :: cs) := by
    rw [← List.append_cons]
    exact h
  refine ⟨h.joins.2, hnext.joins.1, ?_⟩
  have hone : Spells l (as ++ p :: ([x] ++ n :: cs)) := h
  rw [clear_join hp hn]
  exact hone.bypass

/-! ## Putting in -/

theorem weave_next_of_notMem (hx : x ∉ p :: bs) : (l.weave p bs).2.next x = l.next x := by
  induction bs generalizing l p with
  | nil => rfl
  | cons b bs ih =>
      rw [List.mem_cons, not_or] at hx
      rw [weave_cons, ih hx.2]
      exact Function.update_of_ne hx.1 _ _

theorem weave_prev_of_notMem (hx : x ∉ bs) : (l.weave p bs).2.prev x = l.prev x := by
  induction bs generalizing l p with
  | nil => rfl
  | cons b bs ih =>
      rw [List.mem_cons, not_or] at hx
      rw [weave_cons, ih hx.2]
      exact Function.update_of_ne hx.1 _ _

/-- The last node linked in. -/
theorem weave_fst (l : Links N) (p : N) (bs : List N) :
    ∃ ds, p :: bs = ds ++ [(l.weave p bs).1] := by
  induction bs generalizing l p with
  | nil => exact ⟨[], rfl⟩
  | cons b bs ih =>
      obtain ⟨ds, hds⟩ := ih (l.join p b) b
      exact ⟨p :: ds, congrArg (List.cons p) hds⟩

/-- Linked in one after another, the nodes continue the chain. -/
theorem chain_weave (h : (as ++ [p]).IsChain l.Joins) (hnodup : (as ++ p :: bs).Nodup) :
    (as ++ p :: bs).IsChain (l.weave p bs).2.Joins := by
  induction bs generalizing l p as with
  | nil => exact h
  | cons b bs ih =>
      rw [List.append_cons] at hnodup ⊢
      have hshort : (as ++ p :: [b]).Nodup := by
        rw [List.append_cons]
        exact hnodup.sublist (List.Sublist.append_left (List.sublist_append_left [b] bs) _)
      have hjoin := chain_join h (.singleton b) hshort
      rw [List.append_cons] at hjoin
      exact ih hjoin hnodup

/-- Nodes without links are put in between two neighbours. -/
theorem Spells.splice (h : Spells l (as ++ p :: n :: cs))
    (hnodup : (as ++ p :: (bs ++ n :: cs)).Nodup) :
    Spells ((l.weave p bs).2.join (l.weave p bs).1 n) (as ++ p :: (bs ++ n :: cs)) := by
  obtain ⟨hleft, -, hright⟩ := List.isChain_append_cons_cons.mp h.chain
  obtain ⟨ds, hds⟩ := weave_fst l p bs
  have hsplit : as ++ p :: (bs ++ n :: cs) = (as ++ ds) ++ (l.weave p bs).1 :: n :: cs := by
    rw [← List.cons_append, hds, List.append_assoc, List.append_assoc]
    rfl
  have hwoven : ((as ++ ds) ++ [(l.weave p bs).1]).IsChain (l.weave p bs).2.Joins := by
    rw [List.append_assoc, ← hds]
    apply chain_weave hleft
    exact hnodup.sublist (List.Sublist.append_left
      (List.Sublist.cons_cons p (List.sublist_append_left bs _)) as)
  have hlast : (l.weave p bs).1 ∈ p :: bs := by
    rw [hds]
    exact List.mem_append_right ds List.mem_cons_self
  have hmid : (p :: bs).Disjoint (n :: cs) := by
    apply List.disjoint_of_nodup_append
    exact hnodup.sublist (List.sublist_append_right as _)
  have hright' : (n :: cs).IsChain (l.weave p bs).2.Joins := by
    apply chain_congr hright
    · exact fun x hx => weave_next_of_notMem fun hmem => hmid hmem (List.dropLast_subset _ hx)
    · intro y hy
      apply weave_prev_of_notMem
      exact fun hmem => hmid (List.mem_cons_of_mem p hmem) (List.mem_cons_of_mem n hy)
  constructor
  · exact hnodup
  · rw [hsplit] at hnodup ⊢
    exact chain_join hwoven hright' hnodup
  · intro x hx
    rw [mem_dropLast_around] at hx
    have hout : x ∉ p :: bs := by
      rw [List.mem_cons]
      tauto
    have hne : x ≠ (l.weave p bs).1 := fun heq => hout (heq ▸ hlast)
    refine (Function.update_of_ne hne _ _).trans ((weave_next_of_notMem hout).trans ?_)
    apply h.next_eq_none
    rw [← List.nil_append (n :: cs), mem_dropLast_around]
    have hnil := List.not_mem_nil (a := x)
    tauto
  · intro y hy
    rw [mem_tail_around] at hy
    have hout : y ∉ bs := fun hmem => hy (.inr (.inl hmem))
    have hne : y ≠ n := fun heq => hy (.inr (.inr (.inl heq)))
    refine (Function.update_of_ne hne _ _).trans ((weave_prev_of_notMem hout).trans ?_)
    apply h.prev_eq_none
    rw [← List.nil_append (n :: cs), mem_tail_around]
    have hnil := List.not_mem_nil (a := y)
    tauto

end Write

end FlashNext.Verified.LinkedNodes
