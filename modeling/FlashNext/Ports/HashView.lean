import FlashNext.Verified.PyLists

/-!
# Block hashes at a larger block size

A view of the block hashes in which every target block is represented by the
last of its hashes.  The view is no list: it computes an index into the raw
hashes on each access.
-/

namespace FlashNext.Ports.HashView

open FlashNext.Verified.PyLists

variable {α : Type}

inductive HashError where
  | assertionError
  | zeroDivision
  deriving DecidableEq, Repr

/-- `BlockHashListWithBlockSize`; the scale is positive, as block sizes are. -/
structure View (α : Type) where
  blockHashes : List α
  scaleFactor : Nat
  deriving DecidableEq, Repr

/-- The constructor. -/
def View.new (blockHashes : List α) (hashBlockSize targetBlockSize : Nat) :
    Except HashError (View α) :=
  if hashBlockSize = 0 then .error .zeroDivision
  else if targetBlockSize % hashBlockSize = 0 then
    .ok { blockHashes := blockHashes, scaleFactor := targetBlockSize / hashBlockSize }
  else .error .assertionError

/-- `__len__`. -/
def View.len (v : View α) : Nat := v.blockHashes.length / v.scaleFactor

/-- `_get_value_at`, and `__getitem__` of an integer. -/
def View.getValueAt (v : View α) (idx : Int) : Except IndexError α :=
  getItem v.blockHashes ((idx + 1) * v.scaleFactor - 1)

/-- `__getitem__` of a slice. -/
def View.getSlice (v : View α) (sl : Slice) : Except SliceError (List α) :=
  match sl.indices v.len with
  | none => .error .zeroStep
  | some (start, stop, step) => ((range start stop step).mapM v.getValueAt).mapError .index

/-- `list(view)`: what `__iter__` yields. -/
def View.toList (v : View α) : Except IndexError (List α) :=
  (range 0 v.len 1).mapM v.getValueAt

/-- `BlockHashList`. -/
inductive BlockHashList (α : Type) where
  | raw (blockHashes : List α)
  | view (v : View α)

/-- `resolve_block_hashes`. -/
def resolveBlockHashes (blockHashes : BlockHashList α) (hashBlockSize blockSize : Nat)
    (supportsFineGrainedHashLookup : Bool) (alignmentTokens : Option Nat) :
    Except HashError (BlockHashList α) :=
  if blockSize = hashBlockSize then .ok blockHashes
  else
    match blockHashes with
    | .view v =>
        if hashBlockSize = 0 then .error .zeroDivision
        else if v.scaleFactor = blockSize / hashBlockSize then .ok (.view v)
        else .error .assertionError
    | .raw hashes =>
        match alignmentTokens with
        | some alignment =>
            if supportsFineGrainedHashLookup ∧ alignment < blockSize then
              if alignment = 0 then .error .zeroDivision
              else if blockSize % alignment = 0 then .ok (.raw hashes)
              else (View.new hashes hashBlockSize blockSize).map .view
            else (View.new hashes hashBlockSize blockSize).map .view
        | none => (View.new hashes hashBlockSize blockSize).map .view

/-! ## The list that is meant -/

theorem View.index_lt (v : View α) (i : Fin v.len) :
    (i + 1) * v.scaleFactor - 1 < v.blockHashes.length := by
  have hmul : (i + 1) * v.scaleFactor ≤ v.len * v.scaleFactor :=
    Nat.mul_le_mul_right v.scaleFactor i.isLt
  have hdiv : v.len * v.scaleFactor ≤ v.blockHashes.length := Nat.div_mul_le_self _ _
  have hscale : 0 < v.scaleFactor := by
    rcases Nat.eq_zero_or_pos v.scaleFactor with hzero | hpos
    · have hlt : (i : Nat) < v.blockHashes.length / v.scaleFactor := i.isLt
      rw [hzero, Nat.div_zero] at hlt
      omega
    · exact hpos
  have hpos : 0 < (i + 1) * v.scaleFactor := Nat.mul_pos (Nat.succ_pos _) hscale
  omega

/-- `[raw[(i + 1) * s - 1] for i in range(len(raw) // s)]`. -/
def View.listed (v : View α) : List α :=
  List.ofFn fun i : Fin v.len => v.blockHashes.get ⟨(i + 1) * v.scaleFactor - 1, v.index_lt i⟩

/-- The view cannot be told from the list. -/
structure View.Agrees (v : View α) : Prop where
  len : v.len = v.listed.length
  iter : v.toList = .ok v.listed
  slices : ∀ sl, v.getSlice sl = FlashNext.Verified.PyLists.getSlice v.listed sl
  items : ∀ idx, v.getValueAt idx = getItem v.listed idx

end FlashNext.Ports.HashView
