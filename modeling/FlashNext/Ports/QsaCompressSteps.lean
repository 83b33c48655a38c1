import FlashNext.Verified.StepRuns
import FlashNext.Verified.Varlen
import FlashNext.Verified.RingWindow
import FlashNext.Ports.QsaCompress
import Mathlib.Algebra.GroupWithZero.Nat

/-!
# Steps of group compression

A batch brings the next rows of some requests, one request behind the other.  The step
pools the completed groups, then stores the last rows of each request in the request's
ring; after sampling the last few rows of a request may be rejected, and its next rows
start behind the ones that are left.

Each request holds one block of the ring cache while it is live.  The blocks are handed
out by the KV cache manager, and what a block held before is left in it.
-/

namespace FlashNext.Ports.Qsa

open FlashNext.Verified.StepRuns
open FlashNext.Verified.Varlen

variable {F : Type} [Field F]

/-! ## Batches -/

/-- A token: its raw key and its stored position. -/
structure RawToken (F : Type) where
  key : Nat → F
  position : Nat → Int

/-- The rows of one request in a step, and how many of the last ones are rejected. -/
structure RequestRows (F : Type) where
  request : Nat
  rows : List (RawToken F)
  rejected : Nat

/-- A step: its requests, rows of no request behind them, and the slots of the compressed
cache. -/
structure CompressBatch (F : Type) where
  parts : List (RequestRows F)
  padding : List (RawToken F)
  groupSlot : Nat → Nat → Nat

structure CompressConfig where
  compressRatio : Nat
  maxRejected : Nat
  packed : Bool

/-- The ring cache with its packed positions, the live requests with their blocks and
committed tokens, and what was last computed for a group. -/
structure CompressWorld (F : Type) where
  keys : RowCache F
  positions : RowCache Int
  live : List (Nat × Nat)
  committed : Nat → List (RawToken F)
  pooled : Nat → Nat → Option ((Nat → F) × (Nat → Int))

def CompressWorld.blockOf (w : CompressWorld F) (request : Nat) : Nat :=
  (w.live.lookup request).getD 0

/-- What the metadata of a step says about a row. -/
structure BatchRow (F : Type) where
  token : RawToken F
  request : Int
  position : Int
  compressedSlot : Int
  ringSlot : Int

/-- Row `o` of a request: the slot of its group when it ends one, and a slot of the ring
when it is among the last rows. -/
def partRow (cfg : CompressConfig) (w : CompressWorld F) (groupSlot : Nat → Nat → Nat)
    (i : Nat) (p : RequestRows F) (o : Nat) (token : RawToken F) : BatchRow F :=
  let size := w.keys.size
  let position := (w.committed p.request).length + o
  { token
    request := i
    position := position
    compressedSlot :=
      if (position + 1) % cfg.compressRatio = 0 then
        groupSlot p.request (position / cfg.compressRatio)
      else -1
    ringSlot :=
      if p.rows.length ≤ o + size then
        ((w.blockOf p.request * size + position % size : Nat) : Int)
      else -1 }

def paddingRow (token : RawToken F) : BatchRow F := ⟨token, -1, 0, -1, -1⟩

/-- The rows of a step. -/
def batchRows (cfg : CompressConfig) (w : CompressWorld F) (b : CompressBatch F) :
    List (BatchRow F) :=
  (b.parts.zipIdx.flatMap fun q => q.1.rows.mapIdx (partRow cfg w b.groupSlot q.2 q.1)) ++
    b.padding.map paddingRow

/-- The tensors of a step. -/
def rawKeys (width : Nat) (rows : List (BatchRow F)) : RawRows F :=
  ⟨rows.length, width, fun row d => (rows[row]?.map fun r => r.token.key d).getD 0⟩

def rawPositions (rows : List (BatchRow F)) : RawRows Int :=
  ⟨rows.length, 3, fun row d => (rows[row]?.map fun r => r.token.position d).getD 0⟩

def compressArgs (cfg : CompressConfig) (w : CompressWorld F) (b : CompressBatch F) :
    CompressArgs F :=
  let rows := batchRows cfg w b
  { rawKeys := rawKeys w.keys.width rows
    rawPositions := rawPositions rows
    compressorStateCache := w.keys
    compressorStateBlockTable :=
      ⟨b.parts.length, 1, fun i _ => (b.parts[i]?.map fun p => w.blockOf p.request).getD 0⟩
    tokenToReq := rows.map (·.request)
    queryStartLoc := (cuSeqlens 0 (b.parts.map (·.rows.length))).map Int.ofNat
    logicalPositions := rows.map (·.position)
    compressedSlots := rows.map (·.compressedSlot)
    compressRatio := cfg.compressRatio
    ropeCache := if cfg.packed then some w.positions else none }

/-! ## Steps -/

/-- The row of a step that ends a group of a request. -/
def groupRow (cfg : CompressConfig) (w : CompressWorld F) (b : CompressBatch F)
    (request group : Nat) : Option Nat :=
  (b.parts.zipIdx.find? fun q => q.1.request = request).bind fun q =>
    let past := (w.committed request).length
    let last := (group + 1) * cfg.compressRatio - 1
    if past ≤ last ∧ last < past + q.1.rows.length then
      some (((b.parts.take q.2).map (·.rows.length)).sum + (last - past))
    else none

/-- The tokens of a request that are left after a step. -/
def committedRows (b : CompressBatch F) (request : Nat) : List (RawToken F) :=
  ((b.parts.find? fun p => p.request = request).map fun p =>
    p.rows.take (p.rows.length - p.rejected)).getD []

/-- What the scheduler puts into a batch: live requests, each once. -/
def Schedulable (cfg : CompressConfig) (w : CompressWorld F) (b : CompressBatch F) : Prop :=
  0 < b.parts.length ∧ (b.parts.map (·.request)).Nodup ∧
    ∀ p ∈ b.parts, p.request ∈ w.live.map Prod.fst ∧ p.rejected ≤ p.rows.length ∧
      p.rejected ≤ cfg.maxRejected

instance (cfg : CompressConfig) (w : CompressWorld F) (b : CompressBatch F) :
    Decidable (Schedulable cfg w b) :=
  inferInstanceAs (Decidable (_ ∧ _))

/-- Pool the completed groups, then store the rows in the ring. -/
def compressStep (cfg : CompressConfig) (w : CompressWorld F) (b : CompressBatch F) :
    Except QsaError (CompressWorld F) := do
  let rows := batchRows cfg w b
  let (pooled, firstPositions) ← qsaCompressGroupsWithRatio (compressArgs cfg w b)
  let keys ← qsaStoreCacheRows w.keys (rows.map (·.ringSlot)) (rawKeys w.keys.width rows)
  let positions ← qsaStoreCacheRows w.positions (rows.map (·.ringSlot)) (rawPositions rows)
  return {
    keys
    positions
    live := w.live
    committed := fun request => w.committed request ++ committedRows b request
    pooled := fun request group =>
      match groupRow cfg w b request group with
      | some row => some (pooled.data row, firstPositions.data row)
      | none => w.pooled request group }

inductive CompressAction (F : Type) where
  | start (request block : Nat)
  | finish (request : Nat)
  | batch (b : CompressBatch F)

/-- One action. -/
def stepCompress (cfg : CompressConfig) (w : CompressWorld F) :
    CompressAction F → Option (CompressWorld F)
  | .start request block =>
      if request ∉ w.live.map Prod.fst ∧ block ∉ w.live.map Prod.snd ∧
          block < w.keys.numBlocks then
        some { w with
          live := (request, block) :: w.live
          committed := fun r => if r = request then [] else w.committed r
          pooled := fun r group => if r = request then none else w.pooled r group }
      else none
  | .finish request => some { w with live := w.live.filter fun q => q.1 ≠ request }
  | .batch b =>
      if Schedulable cfg w b then (compressStep cfg w b).toOption else none

end FlashNext.Ports.Qsa
