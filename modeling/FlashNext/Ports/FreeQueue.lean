import FlashNext.Verified.LinkedNodes

/-!
# The queue of free blocks

The free blocks form a doubly linked list whose links are fields of the blocks
themselves, between a fake head and a fake tail.  An operation that raises
leaves behind what it wrote before.
-/

namespace FlashNext.Ports.FreeQueue

open FlashNext.Verified.LinkedNodes

/-- A block object: `fake_free_list_head`, `fake_free_list_tail`, or one of the
pool. -/
inductive Node (β : Type) where
  | head
  | tail
  | block (b : β)
  deriving DecidableEq, Repr

inductive QueueError where
  | valueError
  | runtimeError
  | assertionError
  deriving DecidableEq, Repr

variable {β : Type} [DecidableEq β]

/-- `next_free_block` and `prev_free_block` of all blocks, and
`num_free_blocks`. -/
structure Queue (β : Type) where
  links : Links (Node β)
  numFreeBlocks : Int

/-- The result of an operation and the queue it leaves behind. -/
abbrev Outcome (β : Type) := Except QueueError (List (Node β)) × Queue β

/-! ## Construction -/

/-- One turn of the loop over consecutive blocks. -/
def initLink (blocks : List β) (l : Links (Node β)) (i : Nat) : Links (Node β) :=
  match blocks[i]? with
  | none => l
  | some b =>
      let l := if 0 < i then l.setPrev (.block b) (blocks[i - 1]?.map .block) else l
      if i + 1 < blocks.length then l.setNext (.block b) (blocks[i + 1]?.map .block) else l

/-- `FreeKVCacheBlockQueue(blocks)`, of new blocks. -/
def init (blocks : List β) : Queue β :=
  let l := (List.range blocks.length).foldl (initLink blocks) unlinked
  let l := match blocks.head?, blocks.getLast? with
    | some first, some last =>
        (((l.setNext .head (some (.block first))).setPrev (.block first) (some .head)).setPrev
          .tail (some (.block last))).setNext (.block last) (some .tail)
    | _, _ => (l.setNext .head (some .tail)).setPrev .tail (some .head)
  { links := l, numFreeBlocks := blocks.length }

/-! ## Taking out -/

def popleft (s : Queue β) : Outcome β :=
  match s.links.next .head with
  | none | some .tail =>
      if s.numFreeBlocks = 0 then (.error .valueError, s) else (.error .assertionError, s)
  | some first =>
      match s.links.next first with
      | none => (.error .runtimeError, s)
      | some second =>
          let l := (s.links.setNext .head (some second)).setPrev second (some .head)
          let l := (l.setPrev first none).setNext first none
          (.ok [first], { links := l, numFreeBlocks := s.numFreeBlocks - 1 })

/-- The loop of `popleft_n`: `curr_block` and `ret`. -/
def popLoop : Nat → Option (Node β) → List (Node β) → Queue β →
    Except QueueError (Option (Node β) × List (Node β)) × Queue β
  | 0, curr, ret, s => (.ok (curr, ret), s)
  | _ + 1, none, _, s => (.error .assertionError, s)
  | n + 1, some last, ret, s =>
      popLoop n (s.links.next last) (ret ++ [last])
        { s with links := (s.links.setPrev last none).setNext last none }

def popleftN (n : Nat) (s : Queue β) : Outcome β :=
  if n = 0 then (.ok [], s)
  else if s.numFreeBlocks ≥ n then
    match popLoop n (s.links.next .head) [] { s with numFreeBlocks := s.numFreeBlocks - n } with
    | (.error e, s) => (.error e, s)
    | (.ok (none, ret), s) => (.ok ret, s)
    | (.ok (some curr, ret), s) =>
        (.ok ret, { s with links := (s.links.setNext .head (some curr)).setPrev curr (some .head) })
  else (.error .assertionError, s)

def remove (x : Node β) (s : Queue β) : Outcome β :=
  match s.links.prev x, s.links.next x with
  | some p, some n =>
      let l := (s.links.setNext p (some n)).setPrev n (some p)
      let l := (l.setPrev x none).setNext x none
      (.ok [], { links := l, numFreeBlocks := s.numFreeBlocks - 1 })
  | _, _ => (.error .runtimeError, s)

/-! ## Putting in -/

def append (b : β) (s : Queue β) : Outcome β :=
  match s.links.prev .tail with
  | none => (.error .runtimeError, s)
  | some last =>
      let l := (s.links.setNext last (some (.block b))).setPrev (.block b) (some last)
      let l := (l.setNext (.block b) (some .tail)).setPrev .tail (some (.block b))
      (.ok [], { links := l, numFreeBlocks := s.numFreeBlocks + 1 })

/-- One turn of the loops of `prepend_n` and `append_n`. -/
def linkStep (st : Node β × Links (Node β)) (b : β) : Node β × Links (Node β) :=
  (.block b, (st.2.setPrev (.block b) (some st.1)).setNext st.1 (some (.block b)))

def prependN (blocks : List β) (s : Queue β) : Outcome β :=
  if blocks.length = 0 then (.ok [], s)
  else
    match s.links.next .head with
    | none => (.error .assertionError, s)
    | some first =>
        let (prev, l) := blocks.foldl linkStep (.head, s.links)
        let l := (l.setNext prev (some first)).setPrev first (some prev)
        (.ok [], { links := l, numFreeBlocks := s.numFreeBlocks + blocks.length })

def appendN (blocks : List β) (s : Queue β) : Outcome β :=
  if blocks.length = 0 then (.ok [], s)
  else
    match s.links.prev .tail with
    | none => (.error .assertionError, s)
    | some last =>
        let (last, l) := blocks.foldl linkStep (last, s.links)
        let l := (l.setNext last (some .tail)).setPrev .tail (some last)
        (.ok [], { links := l, numFreeBlocks := s.numFreeBlocks + blocks.length })

/-! ## Reading -/

/-- The loop of `get_all_free_blocks`, for a number of turns; `none` when it
has not come to its end. -/
def walk (l : Links (Node β)) : Nat → Node β → List (Node β) → Option (List (Node β))
  | 0, _, _ => none
  | fuel + 1, curr, ret =>
      match l.next curr with
      | none => some ret
      | some next => walk l fuel next (ret ++ [curr])

/-- `get_all_free_blocks`. -/
def getAllFreeBlocks (fuel : Nat) (s : Queue β) : Option (Except QueueError (List (Node β))) :=
  match s.links.next .head with
  | none => some (.error .runtimeError)
  | some first => (walk s.links fuel first []).map .ok

/-! ## Runs -/

/-- The calls of a run; `remove` is passed any block object. -/
inductive Op (β : Type) where
  | popleft
  | popleftN (n : Nat)
  | remove (x : Node β)
  | append (b : β)
  | appendN (blocks : List β)
  | prependN (blocks : List β)

def step : Op β → Queue β → Outcome β
  | .popleft => popleft
  | .popleftN n => popleftN n
  | .remove x => remove x
  | .append b => append b
  | .appendN blocks => appendN blocks
  | .prependN blocks => prependN blocks

/-- Operations one after another, also after a failure: the results, and the
queue at the end. -/
def run (s : Queue β) : List (Op β) → List (Except QueueError (List (Node β))) × Queue β
  | [] => ([], s)
  | op :: ops =>
      let (result, s) := step op s
      let (results, s) := run s ops
      (result :: results, s)

end FlashNext.Ports.FreeQueue
