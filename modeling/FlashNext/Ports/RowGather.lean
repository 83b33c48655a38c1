import FlashNext.Verified.PyLists
import FlashNext.Verified.Runs
import FlashNext.Verified.Scatter
import FlashNext.Verified.Strided

/-!
# Gathering rows of the quantised n-gram table

The sidecar table holds two 4-bit values a byte, low nibble first, and a scale
for each group of columns, split into shards of equally many rows.  A small
batch is read row by row; a large one is sorted by shard, read run by run and
scattered back.
-/

namespace FlashNext.Ports.RowGather

open FlashNext.Verified.PyLists
open FlashNext.Verified.Runs (runs)
open FlashNext.Verified.Scatter (put)
open FlashNext.Verified.Strided

/-- `_PleQuantTable.ROWS_PER_SHARD`. -/
def ROWS_PER_SHARD : Nat := 2500012

/-- The tensors of one shard, `weight_i4` and `weight_scale`, by row;
`sCols` is `weight_scale.shape[1]`. -/
structure Shard (H : Type) where
  q : Nat → List UInt8
  s : Nat → List H
  sCols : Nat

/-- `_PleQuantTable` in the int4 layout.  Only a table of at least one GiB is
attached, so there is a shard and a column. -/
structure QuantTable (H : Type) where
  shards : List (Shard H)
  width : Nat
  groups : Nat
  shards_ne : shards ≠ []
  width_pos : 0 < width
  width_dvd : 2 * groups ∣ width
  sCols_eq : ∀ sh ∈ shards, sh.sCols = groups
  q_length : ∀ sh ∈ shards, ∀ l < ROWS_PER_SHARD, (sh.q l).length = width / 2
  s_length : ∀ sh ∈ shards, ∀ l < ROWS_PER_SHARD, (sh.s l).length = groups

/-- Row `l` of a tensor of one shard. -/
def rowAt {β : Type} (rows : Nat → β) (l : Int) : Except IndexError β :=
  if 0 ≤ l ∧ l < ROWS_PER_SHARD then .ok (rows l.toNat) else .error .outOfRange

/-! ## The nibbles and the scales of one row

The float32 arithmetic is that of the type `F`, and `f32` widens a scale. -/

section Rows

variable {H F : Type} [NatCast F] [Sub F] [Mul F] (f32 : H → F)

/-- `packed & 0xF`. -/
def lo (b : UInt8) : Nat := (b &&& 0xF).toNat

/-- `packed >> 4`. -/
def hi (b : UInt8) : Nat := (b >>> 4).toNat

/-- A row of `gather_rows_small`: `nib[0::2] = lo`, `nib[1::2] = hi`,
`(nib - 8.0) * np.repeat(scales, width // g_per_row)`. -/
def smallRow (width gPerRow : Nat) (empty : List F) (packed : List UInt8)
    (scales : List H) : List F :=
  let low := packed.map fun b => (lo b : F)
  let high := packed.map fun b => (hi b : F)
  let nib := assignStrided 1 high (assignStrided 0 low empty)
  List.zipWith (fun n s => (n - ((8 : Nat) : F)) * s) nib
    (repeatEach (width / gPerRow) (scales.map f32))

/-- A row of `_dequant`: `stack((lo, hi), dim=-1).view`,
`(nib - 8) * scale.repeat_interleave(g)`. -/
def dequantRow (g : Nat) (packed : List UInt8) (scale : List H) : List F :=
  let nib := stackPairs lo hi packed
  List.zipWith (fun (n : Nat) s => ((n : F) - ((8 : Nat) : F)) * s) nib
    (repeatEach g (scale.map f32))

/-! ## The gather of a small batch -/

/-- The loop body of `gather_rows_small`: what it puts into `packed[k]` and
`scales[k]`. -/
def readRow (t : QuantTable H) (i : Int) : Except IndexError (List UInt8 × List H) := do
  let s := i / ROWS_PER_SHARD
  let l := i - s * ROWS_PER_SHARD
  let shard ← getItem t.shards s
  let packed ← rowAt shard.q l
  let scales ← rowAt shard.s l
  pure (packed, scales)

/-- `gather_rows_small`: the rows written to `out`; `empty` is what `np.empty`
finds in `nib`. -/
def gatherRowsSmall (t : QuantTable H) (empty : Nat → Nat → F) (ids : List Int) :
    Except IndexError (List (List F)) := do
  let first ← getItem t.shards 0
  let read ← ids.mapM (readRow t)
  pure (read.mapIdx fun k row =>
    smallRow f32 t.width first.sCols ((List.range t.width).map (empty k)) row.1 row.2)

/-! ## The gather of a large batch -/

/-- `_dequant`. -/
def dequant (t : QuantTable H) (s : Int) (sel : List Int) :
    Except IndexError (List (List F)) := do
  let shard ← getItem t.shards s
  let packed ← sel.mapM (rowAt shard.q)
  let scale ← sel.mapM (rowAt shard.s)
  pure (List.zipWith (dequantRow f32 (t.width / shard.sCols)) packed scale)

variable {O : Type} (cast : F → O)

/-- The loop of `gather_into`: one assignment `out[order[pos:pos + c]] = rows`
for each run. -/
def gatherRuns (t : QuantTable H) (order : List Nat) (lSorted : List Int) :
    Nat → List (Int × Nat) → Except IndexError (List (List Nat × List (List O)))
  | _, [] => pure []
  | pos, (s, c) :: rest => do
      let rows ← dequant f32 t s ((lSorted.drop pos).take c)
      let later ← gatherRuns t order lSorted (pos + c) rest
      pure (((order.drop pos).take c, rows.map (List.map cast)) :: later)

/-- The assignments `gather_into` makes, in order. -/
def gatherAssignments (argsort : List Int → List Nat) (t : QuantTable H)
    (ids : List Int) : Except IndexError (List (List Nat × List (List O))) :=
  let shard := ids.map fun i => i / (ROWS_PER_SHARD : Int)
  let localRow := List.zipWith (fun i s => i - s * (ROWS_PER_SHARD : Int)) ids shard
  let order := argsort shard
  let sSorted := order.map fun k => shard.getD k 0
  let lSorted := order.map fun k => localRow.getD k 0
  gatherRuns f32 cast t order lSorted 0 (runs sSorted)

/-- `gather_into`: the rows of `out` afterwards. -/
def gatherInto (argsort : List Int → List Nat) (t : QuantTable H) (ids : List Int)
    (out : Nat → List O) : Except IndexError (Nat → List O) := do
  let assignments ← gatherAssignments f32 cast argsort t ids
  pure (assignments.foldl (fun st a => put a.1 a.2 st) out)

end Rows

/-- What `torch.argsort` promises: the positions, ordered by key; equal keys
may come in any order. -/
structure IsArgsort (argsort : List Int → List Nat) : Prop where
  perm : ∀ keys, (argsort keys).Perm (List.range keys.length)
  sorted : ∀ keys, ((argsort keys).map fun k => keys.getD k 0).Pairwise (· ≤ ·)

end FlashNext.Ports.RowGather
