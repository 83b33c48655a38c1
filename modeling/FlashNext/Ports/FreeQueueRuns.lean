import FlashNext.Ports.FreeQueueRefinement

/-!
# Runs of the queue of free blocks

A new queue spells the blocks it was built from.  From there any operations,
also failing ones, keep the links a faithful picture of the sequence that the
operations define on lists.
-/

namespace FlashNext.Ports.FreeQueue

open FlashNext.Verified.LinkedNodes

variable {β : Type} [DecidableEq β] {s : Queue β} {q : List β}

/-! ## Construction -/

/-- The links of the first blocks are set. -/
structure Prefixed (blocks : List β) (k : Nat) (l : Links (Node β)) : Prop where
  next : ∀ (j : Nat) (hj : j < blocks.length),
    l.next (.block blocks[j]) = if j < k then blocks[j + 1]?.map .block else none
  prev : ∀ (j : Nat) (hj : j < blocks.length),
    l.prev (.block blocks[j]) = if j < k ∧ 0 < j then blocks[j - 1]?.map .block else none
  outside : ∀ x ∉ blocks.map .block, l.next x = none ∧ l.prev x = none

/-- One turn sets the links of one block. -/
theorem initLink_next {blocks : List β} {k : Nat} {l : Links (Node β)} (hk : k < blocks.length)
    (h : Prefixed blocks k l) (x : Node β) : (initLink blocks l k).next x =
      if x = .block blocks[k] then blocks[k + 1]?.map .block else l.next x := by
  have hother : ((if 0 < k then l.setPrev (.block blocks[k]) (blocks[k - 1]?.map .block)
      else l) : Links (Node β)).next = l.next := by
    split <;> rfl
  simp only [initLink, List.getElem?_eq_getElem hk]
  by_cases hlast : k + 1 < blocks.length
  · rw [if_pos hlast, next_setNext, hother, Function.update_apply]
  · rw [if_neg hlast, hother]
    by_cases hx : x = .block blocks[k]
    · rw [if_pos hx, hx, h.next k hk, if_neg (Nat.lt_irrefl k), List.getElem?_eq_none (by omega)]
      rfl
    · rw [if_neg hx]

theorem initLink_prev {blocks : List β} {k : Nat} {l : Links (Node β)} (hk : k < blocks.length)
    (x : Node β) : (initLink blocks l k).prev x =
      if x = .block blocks[k] ∧ 0 < k then blocks[k - 1]?.map .block else l.prev x := by
  simp only [initLink, List.getElem?_eq_getElem hk]
  have hother : ∀ (l' : Links (Node β)) (c : Prop) [Decidable c] (y : Option (Node β)),
      ((if c then l'.setNext (.block blocks[k]) y else l') : Links (Node β)).prev = l'.prev := by
    intro l' c _ y
    split <;> rfl
  rw [hother]
  by_cases hfirst : 0 < k
  · rw [if_pos hfirst, prev_setPrev, Function.update_apply]
    simp only [hfirst, and_true]
  · rw [if_neg hfirst, if_neg fun hboth => hfirst hboth.2]

theorem prefixed_initLink {blocks : List β} {k : Nat} {l : Links (Node β)}
    (hnodup : blocks.Nodup) (hk : k < blocks.length) (h : Prefixed blocks k l) :
    Prefixed blocks (k + 1) (initLink blocks l k) := by
  have hsame : ∀ (j : Nat) (hj : j < blocks.length),
      (.block blocks[j] : Node β) = .block blocks[k] ↔ j = k := by
    intro j hj
    rw [block_injective.eq_iff, hnodup.getElem_inj_iff]
  constructor
  · intro j hj
    rw [initLink_next hk h, h.next j hj]
    by_cases hjk : j = k
    · subst hjk
      rw [if_pos rfl, if_pos (Nat.lt_succ_self j)]
    · have hlt : j < k + 1 ↔ j < k := by omega
      rw [if_neg (mt (hsame j hj).mp hjk)]
      simp only [hlt]
  · intro j hj
    rw [initLink_prev hk, h.prev j hj]
    by_cases hjk : j = k
    · subst hjk
      simp
    · have hlt : j < k + 1 ↔ j < k := by omega
      rw [if_neg fun hboth => hjk ((hsame j hj).mp hboth.1)]
      simp only [hlt]
  · intro x hx
    have hne : x ≠ .block blocks[k] := fun heq =>
      hx (heq ▸ List.mem_map_of_mem (List.getElem_mem hk))
    rw [initLink_next hk h, initLink_prev hk, if_neg hne, if_neg fun hboth => hne hboth.1]
    exact h.outside x hx

/-- The loop sets the links of all blocks. -/
theorem prefixed_foldl {blocks : List β} (hnodup : blocks.Nodup) {k : Nat}
    (hk : k ≤ blocks.length) :
    Prefixed blocks k ((List.range k).foldl (initLink blocks) unlinked) := by
  induction k with
  | zero => exact ⟨fun _ _ => rfl, fun _ _ => rfl, fun _ _ => ⟨rfl, rfl⟩⟩
  | succ k ih =>
      rw [List.range_succ, List.foldl_append]
      exact prefixed_initLink hnodup hk (ih (Nat.le_of_lt hk))

/-- The blocks are linked in order. -/
theorem chain_foldl {blocks : List β} (hnodup : blocks.Nodup) :
    (blocks.map .block).IsChain
      ((List.range blocks.length).foldl (initLink blocks) unlinked).Joins := by
  have h := prefixed_foldl hnodup (Nat.le_refl blocks.length)
  rw [List.isChain_iff_getElem]
  intro i hi
  rw [List.length_map] at hi
  simp only [List.getElem_map]
  constructor
  · rw [h.next i (by omega), if_pos (by omega), List.getElem?_eq_getElem hi]
    rfl
  · rw [h.prev (i + 1) hi, if_pos ⟨hi, Nat.succ_pos i⟩, Nat.add_sub_cancel,
      List.getElem?_eq_getElem (by omega)]
    rfl

/-- The links of `init`, of some blocks. -/
theorem init_links {blocks rest front : List β} {first last : β} (hfirst : blocks = first :: rest)
    (hlast : blocks = front ++ [last]) :
    (init blocks).links =
      (((List.range blocks.length).foldl (initLink blocks) unlinked).join .head
        (.block first)).join (.block last) .tail := by
  have hhead : blocks.head? = some first := by rw [hfirst, List.head?_cons]
  have htail : blocks.getLast? = some last := by rw [hlast, List.getLast?_concat]
  simp only [init, hhead, htail]
  rfl

/-- Linked blocks between the fake head and the fake tail. -/
theorem chain_ends {blocks rest front : List β} {first last : β} {l : Links (Node β)}
    (hnodup : (nodes blocks).Nodup) (hfirst : blocks = first :: rest)
    (hlast : blocks = front ++ [last])
    (hchain : (blocks.map .block).IsChain l.Joins) :
    (nodes blocks).IsChain ((l.join .head (.block first)).join (.block last) .tail).Joins := by
  have hsplit : nodes blocks = (.head :: front.map .block) ++ .block last :: .tail :: [] := by
    rw [nodes, hlast, List.map_append, List.append_assoc]
    rfl
  have hshort : ([] ++ Node.head :: .block first :: rest.map .block).Nodup := by
    have hsub := List.sublist_append_left (.head :: blocks.map (Node.block : β → Node β)) [.tail]
    rw [hfirst] at hsub hnodup
    exact hnodup.sublist hsub
  rw [hfirst] at hchain
  have hhead : ([] ++ [Node.head]).IsChain l.Joins := .singleton _
  have hjoin := chain_join hhead hchain hshort
  rw [hsplit] at hnodup ⊢
  apply chain_join _ (.singleton Node.tail) hnodup
  have hfront : (Node.head :: front.map .block) ++ [.block last] =
      [] ++ .head :: .block first :: rest.map .block := by
    have hmap := congrArg (List.map (Node.block : β → Node β)) (hlast.symm.trans hfirst)
    rw [List.map_append] at hmap
    exact congrArg (List.cons Node.head) hmap
  rw [hfront]
  exact hjoin

theorem init_represents {blocks : List β} (hnodup : blocks.Nodup) :
    Represents (init blocks) blocks := by
  refine ⟨?_, rfl⟩
  have hnodes := nodes_nodup.mpr hnodup
  have houtside := (prefixed_foldl hnodup (Nat.le_refl blocks.length)).outside
  have hchain := chain_foldl hnodup
  cases hempty : blocks with
  | nil =>
      have hjoin : (init ([] : List β)).links = unlinked.join .head .tail := rfl
      rw [hjoin]
      rw [hempty] at hnodes
      constructor
      · exact hnodes
      · have hhead : ([] ++ [Node.head]).IsChain (unlinked : Links (Node β)).Joins := .singleton _
        exact chain_join hhead (.singleton _) hnodes
      · intro x hx
        exact Function.update_of_ne (fun heq => hx (mem_nodes_dropLast.mpr (.inl heq))) _ _
      · intro y hy
        exact Function.update_of_ne (fun heq => hy (mem_nodes_tail.mpr (.inr heq))) _ _
  | cons first rest =>
      obtain ⟨front, last, hlast⟩ : ∃ front last, blocks = front ++ [last] := by
        rcases List.eq_nil_or_concat blocks with hnil | ⟨front, last, h⟩
        · rw [hempty] at hnil
          cases hnil
        · exact ⟨front, last, h.trans (List.concat_eq_append ..)⟩
      have hfirst : .block first ∈ blocks.map (Node.block : β → Node β) :=
        List.mem_map_of_mem (hempty ▸ List.mem_cons_self)
      have hlast' : .block last ∈ blocks.map (Node.block : β → Node β) :=
        List.mem_map_of_mem (hlast ▸ List.mem_append_right front List.mem_cons_self)
      rw [← hempty, init_links hempty hlast]
      constructor
      · exact hnodes
      · exact chain_ends hnodes hempty hlast hchain
      · intro x hx
        rw [mem_nodes_dropLast, not_or] at hx
        have hne : x ≠ .block last := fun heq => hx.2 (heq ▸ hlast')
        refine (Function.update_of_ne hne _ _).trans ?_
        exact (Function.update_of_ne hx.1 _ _).trans (houtside x hx.2).1
      · intro y hy
        rw [mem_nodes_tail, not_or] at hy
        have hne : y ≠ .block first := fun heq => hy.1 (heq ▸ hfirst)
        refine (Function.update_of_ne hy.2 _ _).trans ?_
        exact (Function.update_of_ne hne _ _).trans (houtside y hy.1).2

/-! ## Reading -/

omit [DecidableEq β] in
theorem walk_eq {l : Links (Node β)} {body ret : List (Node β)} {x last : Node β} {fuel : Nat}
    (h : (body ++ [last]).IsChain l.Joins) (hend : l.next last = none)
    (hx : (body ++ [last]).head? = some x) (hfuel : body.length < fuel) :
    walk l fuel x ret = some (ret ++ body) := by
  induction body generalizing x ret fuel with
  | nil =>
      cases hx
      obtain ⟨fuel, rfl⟩ := Nat.exists_eq_add_one_of_ne_zero (Nat.ne_of_gt hfuel)
      rw [walk, hend, List.append_nil]
  | cons y body ih =>
      cases hx
      obtain ⟨fuel, rfl⟩ := Nat.exists_eq_add_one_of_ne_zero (Nat.ne_zero_of_lt hfuel)
      obtain ⟨z, zs, hz⟩ := List.exists_cons_of_ne_nil
        (List.append_ne_nil_of_right_ne_nil body (List.cons_ne_nil last []))
      have hrest : (body ++ [last]).IsChain l.Joins := h.tail
      rw [List.cons_append, hz, List.isChain_cons_cons] at h
      rw [walk, h.1.1]
      show walk l fuel z (ret ++ [y]) = _
      rw [ih hrest (by rw [hz]; rfl) (Nat.lt_of_succ_lt_succ hfuel), List.append_assoc]
      rfl

omit [DecidableEq β] in
/-- Enough turns list the queue. -/
theorem getAllFreeBlocks_eq (h : Represents s q) {fuel : Nat} (hfuel : q.length < fuel) :
    getAllFreeBlocks fuel s = some (.ok (q.map .block)) := by
  obtain ⟨n, cs, hfirst⟩ := exists_first q
  have hspells : Spells s.links ([] ++ .head :: n :: cs) := by
    rw [← hfirst]
    exact h.spells
  have hend : s.links.next .tail = none := by
    apply h.spells.next_eq_none
    rw [mem_nodes_dropLast]
    simp
  have hlen : (q.map (Node.block : β → Node β)).length < fuel := by
    rw [List.length_map]
    exact hfuel
  have hwalk : walk s.links fuel n [] = some ([] ++ q.map .block) :=
    walk_eq h.spells.chain.tail hend (by rw [hfirst]; rfl) hlen
  unfold getAllFreeBlocks
  rw [hspells.joins.1]
  show (walk s.links fuel n []).map Except.ok = _
  rw [hwalk]
  rfl

/-! ## Runs -/

def specRun (q : List β) : List (Op β) → List (Except QueueError (List β)) × List β
  | [] => ([], q)
  | op :: ops =>
      let (result, q) := spec op q
      let (results, q) := specRun q ops
      (result :: results, q)

def Legal (q : List β) : List (Op β) → Prop
  | [] => True
  | op :: ops => LegalOp op q ∧ Legal (spec op q).2 ops

/-- Any operations one after another. -/
theorem run_spec {ops : List (Op β)} (h : Represents s q) (hlegal : Legal q ops) :
    (run s ops).1 = (specRun q ops).1.map (Except.map (List.map .block)) ∧
      Represents (run s ops).2 (specRun q ops).2 := by
  induction ops generalizing s q with
  | nil => exact ⟨rfl, h⟩
  | cons op ops ih =>
      have hstep := step_refines h hlegal.1
      obtain ⟨hresults, hend⟩ := ih hstep.represents hlegal.2
      refine ⟨?_, hend⟩
      show (step op s).1 :: (run (step op s).2 ops).1 = _
      rw [hstep.result, hresults]
      rfl

/-- What the links say about a sequence. -/
structure Faithful (s : Queue β) (q : List β) : Prop where
  nodup : q.Nodup
  /-- From the fake head to the fake tail. -/
  forward : (nodes q).IsChain fun x y => s.links.next x = some y
  backward : ∀ x y, s.links.prev y = some x ↔ s.links.next x = some y
  outside : ∀ b ∉ q, s.links.next (.block b) = none ∧ s.links.prev (.block b) = none
  count : s.numFreeBlocks = q.length
  listed : ∀ fuel > q.length, getAllFreeBlocks fuel s = some (.ok (q.map .block))
  failure : ∀ op e, (spec op q).1 = .error e → step op s = (.error e, s)

theorem Represents.faithful (h : Represents s q) : Faithful s q where
  nodup := nodes_nodup.mp h.spells.nodup
  forward := h.spells.chain.imp fun _ _ hjoins => hjoins.1
  backward := fun _ _ => h.spells.next_iff_prev.symm
  outside := by
    intro b hb
    apply h.spells.outside
    intro hmem
    rcases List.mem_cons.mp hmem with hhead | hrest
    · cases hhead
    · rcases List.mem_append.mp hrest with hblock | htail
      · exact hb ((List.mem_map_of_injective block_injective).mp hblock)
      · cases List.mem_singleton.mp htail
  count := h.count
  listed := fun _ hfuel => getAllFreeBlocks_eq h hfuel
  failure := fun _ _ hfail => step_error h hfail

/-- After any operations on a new queue the results are those on lists, and
the links a faithful picture of the list that is left. -/
theorem queue_faithful (blocks : List β) (ops : List (Op β)) (hnodup : blocks.Nodup)
    (hlegal : Legal blocks ops) :
    (run (init blocks) ops).1 = (specRun blocks ops).1.map (Except.map (List.map .block)) ∧
      Faithful (run (init blocks) ops).2 (specRun blocks ops).2 := by
  obtain ⟨hresults, hrep⟩ := run_spec (init_represents hnodup) hlegal
  exact ⟨hresults, hrep.faithful⟩

/-- Operations of every kind, two of which fail. -/
def mixedOps : List (Op Nat) :=
  [.popleft, .popleftN 2, .remove (.block 0), .append 0, .prependN [1, 2], .remove (.block 3),
    .popleftN 9, .appendN [3], .popleftN 3]

theorem queue_faithful_mixed :
    (run (init [0, 1, 2, 3, 4]) mixedOps).1 =
        (specRun [0, 1, 2, 3, 4] mixedOps).1.map (Except.map (List.map .block)) ∧
      Faithful (run (init [0, 1, 2, 3, 4]) mixedOps).2 (specRun [0, 1, 2, 3, 4] mixedOps).2 :=
  queue_faithful [0, 1, 2, 3, 4] mixedOps (by decide)
    (by simp [mixedOps, Legal, LegalOp, spec])

end FlashNext.Ports.FreeQueue
