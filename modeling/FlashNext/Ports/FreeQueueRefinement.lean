import FlashNext.Ports.FreeQueue

/-!
# The queue of free blocks is a sequence

The links spell the sequence of free blocks between the fake head and the fake
tail, and every other block is without links.  Each operation keeps this and
does to the sequence what its name says; a failing one writes nothing.
-/

namespace FlashNext.Ports.FreeQueue

open FlashNext.Verified.LinkedNodes

variable {β : Type} [DecidableEq β]

/-! ## The sequence -/

/-- What an operation is for. -/
def spec : Op β → List β → Except QueueError (List β) × List β
  | .popleft, [] => (.error .valueError, [])
  | .popleft, b :: q => (.ok [b], q)
  | .popleftN n, q =>
      if n ≤ q.length then (.ok (q.take n), q.drop n) else (.error .assertionError, q)
  | .remove (.block b), q => if b ∈ q then (.ok [], q.erase b) else (.error .runtimeError, q)
  | .remove _, q => (.error .runtimeError, q)
  | .append b, q => (.ok [], q ++ [b])
  | .appendN blocks, q => (.ok [], q ++ blocks)
  | .prependN blocks, q => (.ok [], blocks ++ q)

/-- Inserted blocks are distinct and not queued. -/
def LegalOp : Op β → List β → Prop
  | .append b, q => b ∉ q
  | .appendN blocks, q | .prependN blocks, q => blocks.Nodup ∧ ∀ b ∈ blocks, b ∉ q
  | _, _ => True

/-! ## Representation -/

section Nodes

variable {β : Type} {q : List β}

theorem block_injective : Function.Injective (Node.block : β → Node β) := by
  intro a b h
  cases h
  rfl

/-- The nodes of the linked list. -/
def nodes (q : List β) : List (Node β) := .head :: (q.map .block ++ [.tail])

theorem nodes_nodup : (nodes q).Nodup ↔ q.Nodup := by
  simp [nodes, List.nodup_append, List.nodup_map_iff block_injective]

/-- Before the fake tail, and behind the fake head. -/
theorem mem_nodes_dropLast {x : Node β} :
    x ∈ (nodes q).dropLast ↔ x = .head ∨ x ∈ q.map .block := by
  rw [nodes, ← List.cons_append, List.dropLast_concat, List.mem_cons]

theorem mem_nodes_tail {x : Node β} : x ∈ (nodes q).tail ↔ x ∈ q.map .block ∨ x = .tail := by
  rw [nodes, List.tail_cons, List.mem_append, List.mem_singleton]

/-- The nodes behind a block or the fake head begin with one. -/
theorem exists_first (q : List β) : ∃ n cs, q.map .block ++ [.tail] = (n : Node β) :: cs :=
  List.exists_cons_of_ne_nil (List.append_ne_nil_of_right_ne_nil _ (List.cons_ne_nil _ _))

/-- The nodes before a block or the fake tail end with one. -/
theorem exists_last (q : List β) : ∃ as p, .head :: q.map .block = as ++ [(p : Node β)] := by
  rcases List.eq_nil_or_concat (.head :: q.map .block : List (Node β)) with hnil | ⟨as, p, h⟩
  · cases hnil
  · exact ⟨as, p, h.trans (List.concat_eq_append ..)⟩

/-- The links spell the queue between the fake head and the fake tail, and the
counter is its length. -/
structure Represents (s : Queue β) (q : List β) : Prop where
  spells : Spells s.links (nodes q)
  count : s.numFreeBlocks = q.length

theorem nodes_append (q blocks : List β) :
    nodes (q ++ blocks) = .head :: q.map .block ++ (blocks.map .block ++ [.tail]) := by
  rw [nodes, List.map_append, List.append_assoc, List.cons_append]

/-- Blocks that are distinct and not queued make a longer sequence. -/
theorem nodup_append {s : Queue β} {blocks : List β} (h : Represents s q) (hblocks : blocks.Nodup)
    (hnew : ∀ b ∈ blocks, b ∉ q) : (q ++ blocks).Nodup :=
  List.nodup_append.mpr ⟨nodes_nodup.mp h.spells.nodup, hblocks,
    fun _ ha b hb heq => hnew b hb (heq ▸ ha)⟩

end Nodes

variable {s : Queue β} {q : List β} {b : β}

/-! ## Taking out -/

theorem popleft_nil (h : Represents s ([] : List β)) : popleft s = (.error .valueError, s) := by
  have hnext : s.links.next .head = some .tail := (Spells.joins_first h.spells).1
  have hcount : s.numFreeBlocks = 0 := h.count
  unfold popleft
  rw [hnext]
  exact if_pos hcount

theorem popleft_cons (h : Represents s (b :: q)) :
    ∃ s', popleft s = (.ok [.block b], s') ∧ Represents s' q := by
  obtain ⟨n, cs, hfirst⟩ := exists_first q
  have hspells : Spells s.links ([] ++ .head :: .block b :: n :: cs) := by
    rw [← hfirst]
    exact h.spells
  obtain ⟨-, hblock, hbypass⟩ := hspells.bypass_one
  have hhead : s.links.next .head = some (.block b) := hspells.joins.1
  refine ⟨⟨(s.links.join .head n).clear (.block b), s.numFreeBlocks - 1⟩, ?_, ?_, ?_⟩
  · simp only [popleft, hhead, hblock]
    rfl
  · rw [nodes, hfirst]
    exact hbypass
  · have hcount := h.count
    rw [List.length_cons] at hcount
    show s.numFreeBlocks - 1 = q.length
    omega

/-- The loop takes nodes off one after another. -/
theorem popLoop_eq {bs cs ret : List (Node β)} {n : Node β}
    (h : (bs ++ n :: cs).IsChain s.links.Joins) (hnodup : (bs ++ n :: cs).Nodup) :
    popLoop bs.length (bs ++ n :: cs).head? ret s =
      (.ok (some n, ret ++ bs), { s with links := s.links.clearAll bs }) := by
  induction bs generalizing s ret with
  | nil => rw [List.append_nil]; rfl
  | cons b bs ih =>
      obtain ⟨hb, hrest⟩ := List.nodup_cons.mp hnodup
      have hnext : s.links.next b = (bs ++ n :: cs).head? := by
        obtain ⟨m, ms, hm⟩ := List.exists_cons_of_ne_nil
          (List.append_ne_nil_of_right_ne_nil bs (List.cons_ne_nil n cs))
        rw [List.cons_append, hm, List.isChain_cons_cons] at h
        rw [hm]
        exact h.1.1
      have hchain : (bs ++ n :: cs).IsChain (s.links.clear b).Joins := chain_clear h.tail hb
      have hloop := @ih { s with links := s.links.clear b } (ret ++ [b]) hchain hrest
      rw [List.append_assoc] at hloop
      show popLoop bs.length (s.links.next b) (ret ++ [b]) { s with links := s.links.clear b } = _
      rw [hnext, hloop]
      rfl

theorem popleftN_ok {n : Nat} (h : Represents s q) (hn : n ≤ q.length) :
    ∃ s', popleftN n s = (.ok ((q.take n).map .block), s') ∧ Represents s' (q.drop n) := by
  unfold popleftN
  by_cases hzero : n = 0
  · rw [if_pos hzero, hzero]
    exact ⟨s, rfl, h⟩
  · have hcount := h.count
    obtain ⟨m, cs, hfirst⟩ := exists_first (q.drop n)
    have hnodes : nodes q = [] ++ .head :: ((q.take n).map .block ++ m :: cs) := by
      rw [← hfirst, ← List.append_assoc, ← List.map_append, List.take_append_drop]
      rfl
    have hspells := h.spells
    rw [hnodes] at hspells
    have hhead : s.links.next .head = ((q.take n).map Node.block ++ m :: cs).head? := by
      obtain ⟨k, ks, hk⟩ := List.exists_cons_of_ne_nil
        (List.append_ne_nil_of_right_ne_nil ((q.take n).map Node.block) (List.cons_ne_nil m cs))
      rw [hk] at hspells ⊢
      exact (Spells.joins_first hspells).1
    have hlen : ((q.take n).map (Node.block : β → Node β)).length = n := by
      rw [List.length_map, List.length_take, Nat.min_eq_left hn]
    have hloop := @popLoop_eq β _ { s with numFreeBlocks := s.numFreeBlocks - n } _ _ [] _
      hspells.chain.tail (List.nodup_cons.mp hspells.nodup).2
    rw [hlen] at hloop
    refine ⟨⟨(s.links.clearAll ((q.take n).map .block)).join .head m, s.numFreeBlocks - n⟩,
      ?_, ?_, ?_⟩
    · rw [if_neg hzero, if_pos (by rw [hcount]; exact_mod_cast hn), hhead, hloop]
      rfl
    · rw [nodes, hfirst]
      exact hspells.bypass
    · show s.numFreeBlocks - n = ((q.drop n).length : Int)
      rw [List.length_drop, hcount]
      omega

theorem popleftN_error {n : Nat} (h : Represents s q) (hn : ¬ n ≤ q.length) :
    popleftN n s = (.error .assertionError, s) := by
  have hcount := h.count
  have hzero : n ≠ 0 := by omega
  have hless : ¬ s.numFreeBlocks ≥ n := by omega
  rw [popleftN, if_neg hzero, if_neg hless]

theorem remove_ok (h : Represents s q) (hb : b ∈ q) :
    ∃ s', remove (.block b) s = (.ok [], s') ∧ Represents s' (q.erase b) := by
  obtain ⟨as, cs, rfl⟩ := List.append_of_mem hb
  obtain ⟨as', p, hlast⟩ := exists_last as
  obtain ⟨n, cs', hfirst⟩ := exists_first cs
  have hnodes : nodes (as ++ b :: cs) = as' ++ p :: .block b :: n :: cs' := by
    rw [nodes, List.map_append, List.append_assoc, ← List.cons_append, hlast, List.map_cons,
      List.cons_append, hfirst, List.append_assoc]
    rfl
  have hspells := h.spells
  rw [hnodes] at hspells
  obtain ⟨hprev, hnext, hbypass⟩ := hspells.bypass_one
  have herase : (as ++ b :: cs).erase b = as ++ cs := by
    have hnodup := nodes_nodup.mp h.spells.nodup
    have hnotin : b ∉ as := fun hmem =>
      List.disjoint_of_nodup_append hnodup hmem List.mem_cons_self
    rw [List.erase_append_right _ hnotin, List.erase_cons_head]
  refine ⟨⟨(s.links.join p n).clear (.block b), s.numFreeBlocks - 1⟩, ?_, ?_, ?_⟩
  · unfold remove
    rw [hprev, hnext]
    rfl
  · rw [herase, nodes, List.map_append, List.append_assoc, ← List.cons_append, hlast, hfirst,
      List.append_assoc]
    exact hbypass
  · have hcount := h.count
    rw [herase]
    rw [List.length_append, List.length_cons] at hcount
    show s.numFreeBlocks - 1 = ((as ++ cs).length : Int)
    rw [List.length_append]
    omega

/-- A node without one of its links is not removed. -/
theorem remove_error {x : Node β} (h : Represents s q) (hx : ∀ b ∈ q, x ≠ .block b) :
    remove x s = (.error .runtimeError, s) := by
  have hopen : s.links.prev x = none ∨ s.links.next x = none := by
    cases x with
    | head =>
        left
        apply h.spells.prev_eq_none
        simp [nodes]
    | tail =>
        right
        apply h.spells.next_eq_none
        rw [nodes, ← List.cons_append, List.dropLast_concat]
        simp
    | block b =>
        left
        have hout : .block b ∉ nodes q := by
          simp only [nodes, List.mem_cons, List.mem_append, List.mem_map]
          rintro (hhead | ⟨c, hc, heq⟩ | htail | hnil)
          · cases hhead
          · exact hx c hc heq.symm
          · cases htail
          · cases hnil
        exact (h.spells.outside hout).2
  unfold remove
  rcases hopen with hprev | hnext
  · rw [hprev]
  · rw [hnext]
    cases s.links.prev x <;> rfl

/-! ## Putting in -/

theorem foldl_linkStep (blocks : List β) (p : Node β) (l : Links (Node β)) :
    blocks.foldl linkStep (p, l) = l.weave p (blocks.map .block) := by
  rw [Links.weave, List.foldl_map]
  rfl

/-- Blocks linked in before the fake tail. -/
theorem represents_append {blocks : List β} (h : Represents s q) (hblocks : blocks.Nodup)
    (hnew : ∀ b ∈ blocks, b ∉ q) :
    ∃ p, s.links.prev .tail = some p ∧
      Represents
        ⟨(s.links.weave p (blocks.map .block)).2.join (s.links.weave p (blocks.map .block)).1
          .tail, s.numFreeBlocks + blocks.length⟩ (q ++ blocks) := by
  obtain ⟨as, p, hlast⟩ := exists_last q
  have hspells : Spells s.links (as ++ p :: [.tail]) := by
    rw [List.append_cons, ← hlast]
    exact h.spells
  have hnodes : nodes (q ++ blocks) = as ++ p :: (blocks.map .block ++ [.tail]) := by
    rw [nodes_append, hlast, List.append_assoc]
    rfl
  have hnodup := nodes_nodup.mpr (nodup_append h hblocks hnew)
  refine ⟨p, hspells.joins.2, ?_, ?_⟩
  · rw [hnodes] at hnodup ⊢
    exact hspells.splice hnodup
  · show s.numFreeBlocks + blocks.length = ((q ++ blocks).length : Int)
    rw [h.count, List.length_append]
    omega

theorem append_ok (h : Represents s q) (hb : b ∉ q) :
    ∃ s', append b s = (.ok [], s') ∧ Represents s' (q ++ [b]) := by
  obtain ⟨p, hprev, hrep⟩ := represents_append h (List.nodup_singleton b) (by simpa using hb)
  refine ⟨_, ?_, hrep⟩
  unfold append
  rw [hprev]
  rfl

theorem appendN_ok {blocks : List β} (h : Represents s q) (hblocks : blocks.Nodup)
    (hnew : ∀ b ∈ blocks, b ∉ q) :
    ∃ s', appendN blocks s = (.ok [], s') ∧ Represents s' (q ++ blocks) := by
  unfold appendN
  by_cases hempty : blocks.length = 0
  · rw [if_pos hempty, List.eq_nil_of_length_eq_zero hempty, List.append_nil]
    exact ⟨s, rfl, h⟩
  · obtain ⟨p, hprev, hrep⟩ := represents_append h hblocks hnew
    refine ⟨_, ?_, hrep⟩
    rw [if_neg hempty, hprev]
    simp only [foldl_linkStep]
    rfl

theorem prependN_ok {blocks : List β} (h : Represents s q) (hblocks : blocks.Nodup)
    (hnew : ∀ b ∈ blocks, b ∉ q) :
    ∃ s', prependN blocks s = (.ok [], s') ∧ Represents s' (blocks ++ q) := by
  unfold prependN
  by_cases hempty : blocks.length = 0
  · rw [if_pos hempty, List.eq_nil_of_length_eq_zero hempty, List.nil_append]
    exact ⟨s, rfl, h⟩
  · obtain ⟨n, cs, hfirst⟩ := exists_first q
    have hspells : Spells s.links ([] ++ .head :: n :: cs) := by
      rw [← hfirst]
      exact h.spells
    have hnodes : nodes (blocks ++ q) = [] ++ .head :: (blocks.map .block ++ n :: cs) := by
      rw [nodes, List.map_append, List.append_assoc, hfirst]
      rfl
    have hnodup := nodes_nodup.mpr
      (List.perm_append_comm.nodup (nodup_append h hblocks hnew))
    have hnext := hspells.joins.1
    refine ⟨⟨(s.links.weave .head (blocks.map .block)).2.join
      (s.links.weave .head (blocks.map .block)).1 n, s.numFreeBlocks + blocks.length⟩,
      ?_, ?_, ?_⟩
    · rw [if_neg hempty, hnext]
      simp only [foldl_linkStep]
      rfl
    · rw [hnodes] at hnodup ⊢
      exact hspells.splice hnodup
    · show s.numFreeBlocks + blocks.length = ((blocks ++ q).length : Int)
      rw [h.count, List.length_append]
      omega

/-! ## Operations -/

/-- An operation does to the queue what it is for, and nothing when it fails. -/
structure Refines (op : Op β) (s : Queue β) (q : List β) : Prop where
  result : (step op s).1 = (spec op q).1.map (List.map .block)
  represents : Represents (step op s).2 (spec op q).2
  failure : ∀ e, (spec op q).1 = .error e → step op s = (.error e, s)

theorem Refines.of_ok {op : Op β} {ret q' : List β}
    (hspec : spec op q = (.ok ret, q'))
    (hrun : ∃ s', step op s = (.ok (ret.map .block), s') ∧ Represents s' q') :
    Refines op s q := by
  obtain ⟨s', hstep, hrep⟩ := hrun
  constructor
  · rw [hstep, hspec]
    rfl
  · rw [hstep, hspec]
    exact hrep
  · intro e herror
    rw [hspec] at herror
    cases herror

theorem Refines.of_error {op : Op β} {e : QueueError} (h : Represents s q)
    (hspec : spec op q = (.error e, q)) (hrun : step op s = (.error e, s)) :
    Refines op s q := by
  constructor
  · rw [hrun, hspec]
    rfl
  · rw [hrun, hspec]
    exact h
  · intro e' herror
    rw [hspec] at herror
    cases herror
    exact hrun

/-- Every operation, on a queue that represents a sequence. -/
theorem step_refines {op : Op β} (h : Represents s q) (hop : LegalOp op q) : Refines op s q := by
  cases op with
  | popleft =>
      cases q with
      | nil => exact .of_error h rfl (popleft_nil h)
      | cons b q => exact .of_ok rfl (popleft_cons h)
  | popleftN n =>
      by_cases hn : n ≤ q.length
      · exact .of_ok (if_pos hn) (popleftN_ok h hn)
      · exact .of_error h (if_neg hn) (popleftN_error h hn)
  | remove x =>
      cases x with
      | head => exact .of_error h rfl (remove_error h fun _ _ => nofun)
      | tail => exact .of_error h rfl (remove_error h fun _ _ => nofun)
      | block b =>
          by_cases hb : b ∈ q
          · exact .of_ok (if_pos hb) (remove_ok h hb)
          · have hne : ∀ c ∈ q, Node.block b ≠ .block c :=
              fun c hc heq => hb (block_injective heq ▸ hc)
            exact .of_error h (if_neg hb) (remove_error h hne)
  | append b => exact .of_ok rfl (append_ok h hop)
  | appendN blocks => exact .of_ok rfl (appendN_ok h hop.1 hop.2)
  | prependN blocks => exact .of_ok rfl (prependN_ok h hop.1 hop.2)

/-- Whether an operation fails does not depend on what is inserted. -/
theorem step_error {op : Op β} {e : QueueError} (h : Represents s q)
    (hfail : (spec op q).1 = .error e) : step op s = (.error e, s) := by
  have hop : LegalOp op q := by
    cases op with
    | append b => cases hfail
    | appendN blocks => cases hfail
    | prependN blocks => cases hfail
    | popleft => trivial
    | popleftN n => trivial
    | remove x => trivial
  exact (step_refines h hop).failure e hfail

end FlashNext.Ports.FreeQueue
