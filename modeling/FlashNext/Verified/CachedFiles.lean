import Mathlib.Data.List.Basic

/-!
# Files behind a cache

Writes through a memory map reach the cache of a file; a flush makes them
durable.  A machine that stops keeps of the bytes that were not flushed what
it happens to have written back.
-/

namespace FlashNext.Verified.CachedFiles

/-- A file; what is at or past `size` is not part of it. -/
structure CachedFile (α : Type*) where
  size : Nat
  cache : Nat → α
  durable : Nat → α

/-- How a flush ends; a failed one has written back some positions. -/
inductive FlushResult where
  | ok
  | failed (written : Nat → Bool)

namespace CachedFile

variable {α : Type*} [Zero α]

def empty : CachedFile α := ⟨0, fun _ => 0, fun _ => 0⟩

/-- Cut the file, or extend it with zeros. -/
def truncate (f : CachedFile α) (n : Nat) : CachedFile α where
  size := n
  cache := fun i => if i < f.size then f.cache i else 0
  durable := fun i => if i < f.size then f.durable i else 0

/-- Write the positions from `start` to `start + n`. -/
def write (f : CachedFile α) (start n : Nat) (content : Nat → α) : CachedFile α :=
  { f with cache := fun i => if start ≤ i ∧ i < start + n then content i else f.cache i }

def flush (f : CachedFile α) : FlushResult → CachedFile α
  | .ok => { f with durable := f.cache }
  | .failed written =>
      { f with durable := fun i => if written i then f.cache i else f.durable i }

/-- The machine stops. -/
def lose (f : CachedFile α) (lost : Nat → Bool) : CachedFile α :=
  { f with cache := fun i => if lost i then f.durable i else f.cache i }

/-- The file holds the first `n` entries of `content`, durably. -/
structure Holds (f : CachedFile α) (n : Nat) (content : Nat → α) : Prop where
  size : f.size = n
  cache : ∀ i < n, f.cache i = content i
  durable : ∀ i < n, f.durable i = content i

variable {f : CachedFile α} {n : Nat} {content : Nat → α}

omit [Zero α] in
/-- What is durable survives. -/
theorem Holds.lose (h : f.Holds n content) (lost : Nat → Bool) :
    (f.lose lost).Holds n content where
  size := h.size
  cache := by
    intro i hi
    show (if lost i then f.durable i else f.cache i) = content i
    split
    · exact h.durable i hi
    · exact h.cache i hi
  durable := h.durable

omit [Zero α] in
/-- Writes of parts of one content, in any order, leave it wherever one of them
wrote. -/
theorem foldl_write {β : Type*} (start : β → Nat) (n : Nat) (content : Nat → α) (parts : List β)
    (f : CachedFile α) {i : Nat}
    (h : f.cache i = content i ∨ ∃ p ∈ parts, start p ≤ i ∧ i < start p + n) :
    (parts.foldl (fun f p => f.write (start p) n content) f).cache i = content i := by
  induction parts generalizing f with
  | nil =>
      rcases h with hdone | ⟨p, hp, -⟩
      · exact hdone
      · exact absurd hp List.not_mem_nil
  | cons p parts ih =>
      rw [List.foldl_cons]
      apply ih
      by_cases hin : start p ≤ i ∧ i < start p + n
      · exact Or.inl (if_pos hin)
      · rcases h with hdone | ⟨q, hq, hrange⟩
        · exact Or.inl ((if_neg hin).trans hdone)
        · rcases List.mem_cons.mp hq with rfl | hq
          · exact absurd hrange hin
          · exact Or.inr ⟨q, hq, hrange⟩

omit [Zero α] in
theorem foldl_write_size {β : Type*} (start : β → Nat) (n : Nat) (content : Nat → α)
    (parts : List β) (f : CachedFile α) :
    (parts.foldl (fun f p => f.write (start p) n content) f).size = f.size := by
  induction parts generalizing f with
  | nil => rfl
  | cons p parts ih => exact ih _

omit [Zero α] in
/-- A flush that succeeds makes the content durable. -/
theorem flush_holds (hsize : f.size = n) (hcache : ∀ i < n, f.cache i = content i) :
    (f.flush .ok).Holds n content :=
  ⟨hsize, hcache, hcache⟩

end CachedFile

end FlashNext.Verified.CachedFiles
