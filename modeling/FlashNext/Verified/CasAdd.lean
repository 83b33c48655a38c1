import Mathlib.Algebra.BigOperators.Group.List.Basic
import Mathlib.Logic.Relation

/-!
# Adding by compare-and-swap

Threads add to words of `w` lanes in a common memory.  A thread loads the
word, adds to what it saw and swaps the sum in if the word is still the same;
otherwise it retries with the word it found.  Whatever the interleaving, the
memory ends with every addition made once.
-/

namespace FlashNext.Verified.CasAdd

variable {R : Type*} {w : Nat}

/-- An addition to the word at an address; `lanes` is read below `w`. -/
structure Update (R : Type*) (w : Nat) where
  addr : Nat
  lanes : Nat → R

/-- A thread in its loop, with the word it saw last. -/
structure Pending (R : Type*) (w : Nat) where
  update : Update R w
  old : Option (Nat → R)

/-- A thread that has not loaded yet. -/
def Update.start (u : Update R w) : Pending R w := ⟨u, none⟩

/-- `*addr`. -/
def readWord (mem : Nat → R) (addr : Nat) : Nat → R := fun lane => mem (addr + lane)

/-- `*addr = word`. -/
def writeWord (w : Nat) (mem : Nat → R) (addr : Nat) (word : Nat → R) : Nat → R := fun i =>
  if addr ≤ i ∧ i < addr + w then word (i - addr) else mem i

def SameWord (w : Nat) (word word' : Nat → R) : Prop := ∀ lane < w, word lane = word' lane

section Steps

variable [AddCommMonoid R]

/-- What an addition makes of one address. -/
def Update.delta (u : Update R w) (i : Nat) : R :=
  if u.addr ≤ i ∧ i < u.addr + w then u.lanes (i - u.addr) else 0

/-- One access of one thread. -/
inductive Step : (Nat → R) × List (Pending R w) → (Nat → R) × List (Pending R w) → Prop where
  | load {mem : Nat → R} {pre post : List (Pending R w)} {p : Pending R w}
      (h : p.old = none) :
      Step (mem, pre ++ p :: post)
        (mem, pre ++ { p with old := some (readWord mem p.update.addr) } :: post)
  | swap {mem : Nat → R} {pre post : List (Pending R w)} {p : Pending R w} {old : Nat → R}
      (h : p.old = some old) (hsame : SameWord w (readWord mem p.update.addr) old) :
      Step (mem, pre ++ p :: post)
        (writeWord w mem p.update.addr fun lane => old lane + p.update.lanes lane, pre ++ post)
  | retry {mem : Nat → R} {pre post : List (Pending R w)} {p : Pending R w} {old : Nat → R}
      (h : p.old = some old) (hother : ¬ SameWord w (readWord mem p.update.addr) old) :
      Step (mem, pre ++ p :: post)
        (mem, pre ++ { p with old := some (readWord mem p.update.addr) } :: post)

/-- All threads get through. -/
def Completes (updates : List (Update R w)) (mem mem' : Nat → R) : Prop :=
  Relation.ReflTransGen Step (mem, updates.map Update.start) (mem', [])

theorem writeWord_of_same {mem : Nat → R} {u : Update R w} {old : Nat → R}
    (hsame : SameWord w (readWord mem u.addr) old) (i : Nat) :
    writeWord w mem u.addr (fun lane => old lane + u.lanes lane) i = mem i + u.delta i := by
  unfold writeWord Update.delta
  split
  · next hin =>
      have hlane : mem i = old (i - u.addr) := by
        rw [← hsame (i - u.addr) (by omega), readWord, Nat.add_sub_cancel' hin.1]
      rw [hlane]
  · rw [add_zero]

/-- What is in memory and what is still to be added. -/
def total (s : (Nat → R) × List (Pending R w)) (i : Nat) : R :=
  s.1 i + (s.2.map fun p => p.update.delta i).sum

theorem Step.total_eq {s s' : (Nat → R) × List (Pending R w)} (h : Step s s') (i : Nat) :
    total s' i = total s i := by
  cases h with
  | load _ => simp only [total, List.map_append, List.map_cons]
  | swap h hsame =>
      simp only [total, List.map_append, List.map_cons, List.sum_append, List.sum_cons]
      rw [writeWord_of_same hsame, add_assoc]
      exact congrArg _ (add_left_comm _ _ _)
  | retry _ _ => simp only [total, List.map_append, List.map_cons]

/-- Every addition is made once, in whatever order. -/
theorem Completes.eq {updates : List (Update R w)} {mem mem' : Nat → R}
    (h : Completes updates mem mem') (i : Nat) :
    mem' i = mem i + (updates.map fun u => u.delta i).sum := by
  have hrun : ∀ s, Relation.ReflTransGen Step (mem, updates.map Update.start) s →
      total s i = total (mem, updates.map Update.start) i := by
    intro s hs
    induction hs with
    | refl => rfl
    | tail _ hstep ih => rw [hstep.total_eq, ih]
  have htotal := hrun _ h
  simp only [total, List.map_nil, List.sum_nil, add_zero, List.map_map] at htotal
  exact htotal

/-- The threads can always get through. -/
theorem exists_completes (updates : List (Update R w)) (mem : Nat → R) :
    ∃ mem', Completes updates mem mem' := by
  induction updates generalizing mem with
  | nil => exact ⟨mem, Relation.ReflTransGen.refl⟩
  | cons u updates ih =>
      obtain ⟨mem', hrest⟩ := ih
        (writeWord w mem u.addr fun lane => readWord mem u.addr lane + u.lanes lane)
      refine ⟨mem', ?_⟩
      have hload : Step (mem, u.start :: updates.map Update.start)
          (mem, ⟨u, some (readWord mem u.addr)⟩ :: updates.map Update.start) :=
        @Step.load R w _ mem [] (updates.map Update.start) u.start rfl
      have hswap : Step (mem, ⟨u, some (readWord mem u.addr)⟩ :: updates.map Update.start)
          (writeWord w mem u.addr fun lane => readWord mem u.addr lane + u.lanes lane,
            updates.map Update.start) :=
        @Step.swap R w _ mem [] (updates.map Update.start) ⟨u, some (readWord mem u.addr)⟩ _
          rfl fun _ _ => rfl
      exact (hrest.head hswap).head hload

end Steps

end FlashNext.Verified.CasAdd
