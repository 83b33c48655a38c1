import FlashNext.Verified.Checked
import FlashNext.Verified.OrderedDicts

/-!
# Registration with the PLE offload worker

The worker takes one message from each GPU worker, in the order in which they
arrive, and checks that together they cover the grid of ranks before it serves
anything.  Buffers and semaphores are handles of type `B`.
-/

namespace FlashNext.Ports.PleRegistration

open FlashNext.Verified.Checked FlashNext.Verified.OrderedDicts

variable {B : Type}

/-- `PleOffloadRegistration`.  The connector builds the dictionaries of
buffers and of flags from the same layers. -/
structure Registration (B : Type) where
  workerId : Int
  tpRank : Int
  dpRank : Int
  gpuOutputBuffers : List (String × B)
  semFlagTensors : List (String × B)
  inputIdsBuf : B
  queryStartLocBuf : B
  ngramContextBuf : Option B
  doneSeqBuf : Option B
  outBufs : Option (List (String × B))
  names_nodup : (keys gpuOutputBuffers).Nodup
  flag_names : keys semFlagTensors = keys gpuOutputBuffers

/-- What the socket delivers. -/
inductive Message (B : Type) where
  | registration (r : Registration B)
  | other (typeName : String)

/-- `PleOffloadOutputTarget` -/
structure OutputTarget (B : Type) where
  tpRank : Int
  gpuOutputBuffer : B
  sem : B
  doneSeqBuf : Option B
  outBuf : Option B

/-- `PleOffloadInputBuffers` -/
structure InputBuffers (B : Type) where
  inputIdsBuf : B
  queryStartLocBuf : B
  ngramContextBuf : Option B

structure PinnedShape where
  maxTokens : Nat
  embeddingDim : Nat

/-- `PleOffloadRunner`, with the parts of its configuration that are read. -/
structure Runner (B : Type) where
  dpSize : Nat
  tpSize : Nat
  maxTokens : Nat
  embeddingDim : Nat
  layerNames : List String
  workerTargets : List (Int × List (String × List (OutputTarget B)))
  inputBufs : List (Int × InputBuffers B)
  pinnedBufs : List (Int × List (String × PinnedShape))

/-- Equality of the sets of two lists. -/
def SameSet {α : Type*} (xs ys : List α) : Prop := (∀ x ∈ xs, x ∈ ys) ∧ ∀ y ∈ ys, y ∈ xs

instance {α : Type*} [DecidableEq α] (xs ys : List α) : Decidable (SameSet xs ys) :=
  inferInstanceAs (Decidable (_ ∧ _))

/-- `range(n)` -/
def ranks (n : Nat) : List Int := (List.range n).map Int.ofNat

/-- A set of ranks in a message; small numbers come in ascending order. -/
def pySet (xs : List Int) : String :=
  match xs.eraseDups.mergeSort fun a b => decide (a ≤ b) with
  | [] => "set()"
  | sorted => "\x7b" ++ ", ".intercalate (sorted.map toString) ++ "\x7d"

/-- A name in a message; a layer has no quote in its name. -/
def pyName (name : String) : String := "\x27" ++ name ++ "\x27"

/-- `sorted(names)` in a message. -/
def pySorted (names : List String) : String :=
  "[" ++ ", ".intercalate ((names.mergeSort fun a b => decide (a ≤ b)).map pyName) ++ "]"

/-! ## The messages -/

/-- One `recv`. -/
def receive (recv : Nat → Message B) (numWorkers index : Nat) :
    Except String (Registration B) :=
  match recv index with
  | .registration r => .ok r
  | .other typeName =>
      let position := index + 1
      .error (s!"Expected PleOffloadRegistration during setup, got " ++
        s!"{typeName} ({position}/{numWorkers})")

def registrationsByDp (registrations : List (Registration B)) :
    List (Int × List (Registration B)) :=
  registrations.foldl (fun d r => alter r.dpRank [] (fun rs => rs ++ [r]) d) []

/-- The TP ranks of one DP rank. -/
def checkTpRanks (tpSize : Nat) (group : Int × List (Registration B)) : Except String Unit :=
  let dpRank := group.1
  let tpRanks := group.2.map fun r => r.tpRank
  let expected := pySet (ranks tpSize)
  let got := pySet tpRanks
  require (SameSet tpRanks (ranks tpSize))
    s!"DP rank {dpRank} expected TP ranks {expected}, got {got}"

/-! ## The targets -/

/-- `PleOffloadOutputTarget(...)` for one layer of a registration. -/
def outputTarget (r : Registration B) (layer : String) (gpuBuffer : B) :
    Except String (OutputTarget B) :=
  match get layer r.semFlagTensors with
  | none => .error ("KeyError: " ++ pyName layer)
  | some sem => .ok
      { tpRank := r.tpRank
        gpuOutputBuffer := gpuBuffer
        sem := sem
        doneSeqBuf := r.doneSeqBuf
        outBuf := get layer (r.outBufs.getD []) }

/-- The loop over the layers of one registration. -/
def addTargets (r : Registration B) (targets : List (String × List (OutputTarget B))) :
    Except String (List (String × List (OutputTarget B))) :=
  r.gpuOutputBuffers.foldlM (fun targets entry => do
    let target ← outputTarget r entry.1 entry.2
    pure (alter entry.1 [] (fun ts => ts ++ [target]) targets)) targets

def checkLayers (layerNames : List String) (r : Registration B) : Except String Unit :=
  let registered := pySorted (keys r.gpuOutputBuffers)
  let cpu := pySorted layerNames
  require (SameSet (keys r.gpuOutputBuffers) layerNames)
    s!"Registered PLE layers do not match CPU layers: registered={registered}, cpu={cpu}"

def addRegistration (runner : Runner B) (r : Registration B) : Except String (Runner B) := do
  checkLayers runner.layerNames r
  let targets ← addTargets r ((get r.dpRank runner.workerTargets).getD [])
  let inputBufs :=
    if r.tpRank = 0 then
      put r.dpRank ⟨r.inputIdsBuf, r.queryStartLocBuf, r.ngramContextBuf⟩ runner.inputBufs
    else runner.inputBufs
  pure { runner with
    workerTargets := put r.dpRank targets runner.workerTargets
    inputBufs := inputBufs }

/-! ## The last checks -/

/-- `targets.sort(key=lambda target: target.tp_rank)` -/
def sortTargets (targets : List (OutputTarget B)) : List (OutputTarget B) :=
  targets.mergeSort fun a b => decide (a.tpRank ≤ b.tpRank)

def finishLayer (tpSize : Nat) (dpRank : Int) (entry : String × List (OutputTarget B)) :
    Except String (String × List (OutputTarget B)) := do
  let layerName := entry.1
  let count := entry.2.length
  require (count = tpSize)
    (s!"PLE layer {layerName} for DP rank {dpRank} received " ++
      s!"{count} targets, expected {tpSize}")
  pure (entry.1, sortTargets entry.2)

def finishDp (tpSize : Nat) (entry : Int × List (String × List (OutputTarget B))) :
    Except String (Int × List (String × List (OutputTarget B))) := do
  let layers ← entry.2.mapM (finishLayer tpSize entry.1)
  pure (entry.1, layers)

/-- `accept_registrations`; `recv` is what arrives, in its order. -/
def acceptRegistrations (runner : Runner B) (recv : Nat → Message B) (numWorkers : Nat) :
    Except String (Runner B) := do
  let registrations ← (List.range numWorkers).mapM (receive recv numWorkers)
  let dpSize := runner.dpSize
  let tpSize := runner.tpSize
  let expected := dpSize * tpSize
  require (numWorkers = expected)
    (s!"Expected {expected} registrations for DP={dpSize}, " ++ s!"TP={tpSize}, got {numWorkers}")
  let byDp := registrationsByDp registrations
  let expectedRanks := pySet (ranks dpSize)
  let gotRanks := pySet (keys byDp)
  require (SameSet (keys byDp) (ranks dpSize))
    s!"Expected DP ranks {expectedRanks}, got {gotRanks}"
  forM byDp (checkTpRanks tpSize)
  let filled ← registrations.foldlM addRegistration runner
  let gotInputs := pySet (keys filled.inputBufs)
  require (SameSet (keys filled.inputBufs) (ranks dpSize))
    ("TP rank zero did not register PLE input buffers for every DP " ++
      s!"rank: expected={expectedRanks}, got={gotInputs}")
  let targets ← filled.workerTargets.mapM (finishDp tpSize)
  pure { filled with
    workerTargets := targets
    pinnedBufs := targets.map fun dp =>
      (dp.1, dp.2.map fun layer => (layer.1, ⟨runner.maxTokens, runner.embeddingDim⟩)) }

end FlashNext.Ports.PleRegistration
