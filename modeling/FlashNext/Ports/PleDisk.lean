import FlashNext.Verified.CachedFiles
import FlashNext.Verified.StepRuns
import Mathlib.Data.UInt

/-!
# The PLE table on disk

The first boot writes the table through a memory map of a `.bin` file and
marks it in a `.done.json` file; later boots map the file when the marker
names their shape and dtype.  A boot is a list of file operations, of which a
stop leaves a prefix.
-/

namespace FlashNext.Ports.PleDisk

open FlashNext.Verified.CachedFiles

/-! ## Tables and their files -/

/-- The dtypes that `_disk_backed_tensor` maps. -/
inductive Dtype where
  | bfloat16
  | float16
  | float32
  | float8E4m3fn
  deriving DecidableEq

def Dtype.itemsize : Dtype → Nat
  | .bfloat16 => 2
  | .float16 => 2
  | .float32 => 4
  | .float8E4m3fn => 1

/-- `str(dtype)` -/
def Dtype.str : Dtype → String
  | .bfloat16 => "torch.bfloat16"
  | .float16 => "torch.float16"
  | .float32 => "torch.float32"
  | .float8E4m3fn => "torch.float8_e4m3fn"

/-- The largest parameter of the layer. -/
structure TableSpec where
  rows : Nat
  width : Nat
  dtype : Dtype
  deriving DecidableEq

namespace TableSpec

variable (spec : TableSpec)

def shape : List Nat := [spec.rows, spec.width]

def rowBytes : Nat := spec.width * spec.dtype.itemsize

def nbytes : Nat := spec.rows * spec.rowBytes

end TableSpec

/-- The marker: what was opened for writing and not closed yet does not parse. -/
inductive DoneFile where
  | torn
  | whole (shape : List Nat) (dtype : String)

/-- `json.load` of the marker. -/
def jsonLoad : DoneFile → Except String (List Nat × String)
  | .torn => .error "json.decoder.JSONDecodeError"
  | .whole shape dtype => .ok (shape, dtype)

structure Disk where
  bin : Option (CachedFile UInt8)
  done : Option DoneFile

/-! ## The operations of a boot -/

inductive FileOp where
  | removeDone
  | openBin
  | truncateBin (n : Nat)
  | writeRow (row : Nat)
  | flushBin (result : FlushResult)
  | openDone
  | closeDone

/-- The bytes of each table, row by row. -/
abbrev Tables := TableSpec → Nat → UInt8

variable (table : Tables)

def FileOp.exec (spec : TableSpec) : FileOp → Disk → Disk
  | .removeDone, disk => { disk with done := none }
  | .openBin, disk => { disk with bin := some (disk.bin.getD CachedFile.empty) }
  | .truncateBin n, disk => { disk with bin := disk.bin.map fun f => f.truncate n }
  | .writeRow row, disk =>
      { disk with
        bin := disk.bin.map fun f => f.write (row * spec.rowBytes) spec.rowBytes (table spec) }
  | .flushBin result, disk => { disk with bin := disk.bin.map fun f => f.flush result }
  | .openDone, disk => { disk with done := some .torn }
  | .closeDone, disk => { disk with done := some (.whole spec.shape spec.dtype.str) }

def execAll (spec : TableSpec) (ops : List FileOp) (disk : Disk) : Disk :=
  ops.foldl (fun disk op => op.exec table spec disk) disk

/-- The first half of `_ple_disk_attach`: `none` for a small parameter, else
whether the file is complete. -/
def pleDiskAttach (disk : Disk) (spec : TableSpec) : Except String (Option Bool) :=
  if spec.nbytes < 2 ^ 30 then .ok none
  else
    match disk.done, disk.bin with
    | some done, some bin =>
        if bin.size = spec.nbytes then
          match jsonLoad done with
          | .error e => .error e
          | .ok marker =>
              .ok (some (decide (marker.1 = spec.shape ∧ marker.2 = spec.dtype.str)))
        else .ok (some false)
    | _, _ => .ok (some false)

/-- One boot: the order in which `load_weights` writes the rows, how its flush
ends, and how many operations it gets through. -/
structure Boot where
  spec : TableSpec
  rowOrder : List Nat
  flush : FlushResult
  stopAfter : Nat
  lost : Nat → Bool

namespace Boot

variable (b : Boot)

/-- The rest of `_ple_disk_attach` for a table that is not complete. -/
def attachOps : List FileOp := [.removeDone, .openBin, .truncateBin b.spec.nbytes]

def loadOps : List FileOp := b.rowOrder.map .writeRow

/-- `_ple_disk_finalize` -/
def finalizeOps : List FileOp := [.flushBin b.flush, .openDone, .closeDone]

def ops : List FileOp := b.attachOps ++ b.loadOps ++ b.finalizeOps

/-- `load_weights` writes every row. -/
def WritesAll : Prop := ∀ row < b.spec.rows, row ∈ b.rowOrder

/-- The number of operations before the marker is opened. -/
def markerAt : Nat := b.rowOrder.length + 4

/-- The boot got through all its operations, with a flush that succeeded. -/
def Finished : Prop := b.flush = .ok ∧ b.ops.length ≤ b.stopAfter

end Boot

def Disk.lose (disk : Disk) (lost : Nat → Bool) : Disk :=
  { disk with bin := disk.bin.map fun f => f.lose lost }

/-- The files after a boot. -/
def bootDisk (disk : Disk) (b : Boot) : Disk :=
  let disk :=
    match pleDiskAttach disk b.spec with
    | .ok (some false) => execAll table b.spec (b.ops.take b.stopAfter) disk
    | _ => disk
  disk.lose b.lost

/-- The state of a directory that no boot has used. -/
def Disk.fresh : Disk := ⟨none, none⟩

end FlashNext.Ports.PleDisk
