import FlashNext.Verified.StepRuns
import Mathlib.Data.List.Basic

/-!
# The PLE offload hand-off

One pipeline rank (TP rank zero of one DP rank) and the CPU offload worker
exchange a batch per forward through shared memory:

* the model thread runs `prepare_forward`: it launches the request, waits
  until `done_seq >= launch_seq`, enqueues the host-to-device copy of the
  result on the model stream and then enqueues the forward;
* with CUDA inputs (`_launch_inline`) the model thread itself stages the
  inputs through the D2H stream and rings the doorbell; with CPU inputs
  (`_launch`) a request thread drains a queue of one entry, copies the CPU
  mirrors and rings;
* the GPU executes the model stream and the D2H stream in order, whenever it
  likes;
* the offload worker sees a new doorbell number, reads the three staged
  inputs one after another, writes `out_buf` row by row and bumps `done_seq`.

Every party takes one step at a time, in any interleaving.  Memory is
sequentially consistent, which is what the source relies on when it orders
its doorbell stores (x86 TSO, one writer per slot).  One layer with its own
`out_buf` is modelled, and the TP group has one rank.

Fields marked *ghost* are not in the source; they only record what happened,
so that the properties of `PleHandoffSafety` can be stated.
-/

namespace FlashNext.Ports.PleHandoff

/-! ## Buffers -/

/-- Overwrite the first `k` entries of a buffer. -/
def overwrite {α : Type} (k : Nat) (new old : Nat → α) : Nat → α :=
  fun i => if i < k then new i else old i

/-- The slice `buf[:k]`. -/
def slice {α : Type} (k : Nat) (buf : Nat → α) : List α :=
  (List.range k).map buf

/-- The three fixed input buffers of a lookup. -/
structure Inputs (Ctx : Type) where
  inputIds : Nat → Int
  queryStartLoc : Nat → Int
  ngramContext : Nat → Ctx

/-! The three slice copies of `_copy_cuda_inputs` and `_copy_cpu_inputs`. -/

def Inputs.copyInputIds {Ctx : Type} (dst : Inputs Ctx) (numTokens : Nat)
    (src : Inputs Ctx) : Inputs Ctx :=
  { dst with inputIds := overwrite numTokens src.inputIds dst.inputIds }

def Inputs.copyQueryStartLoc {Ctx : Type} (dst : Inputs Ctx) (numReqs : Nat)
    (src : Inputs Ctx) : Inputs Ctx :=
  { dst with
    queryStartLoc :=
      overwrite (numReqs + 1) src.queryStartLoc dst.queryStartLoc }

def Inputs.copyNgramContext {Ctx : Type} (dst : Inputs Ctx) (numReqs : Nat)
    (src : Inputs Ctx) : Inputs Ctx :=
  { dst with ngramContext := overwrite numReqs src.ngramContext dst.ngramContext }

/-- What one `prepare_forward` call is about. -/
structure Batch (Ctx : Type) where
  inputs : Inputs Ctx
  numReqs : Nat
  numTokens : Nat

/-- The slices that a lookup reads. -/
structure Slices (Ctx : Type) where
  inputIds : List Int
  queryStartLoc : List Int
  ngramContext : List Ctx

/-- `inline = _DOORBELL and self._uses_cuda_inputs` selects between the two
launch paths; both ring the shared doorbell page. -/
inductive InputMode
  | cudaInline
  | cpuRequestThread
deriving DecidableEq

/-- What does not change during a run. -/
structure Config (Ctx Row : Type) where
  mode : InputMode
  /-- `_clamp_input_ids`: set under speculative decoding. -/
  clampInputIds : Bool
  /-- The rows that `_handle_one` computes from the slices it reads. -/
  lookup : Slices Ctx → Nat → Row
  zeroRow : Row

variable {Ctx Row : Type}

/-- What `clamp_min_(0)` makes of one token id, when it is called. -/
def Config.normalise (cfg : Config Ctx Row) (t : Int) : Int :=
  if cfg.clampInputIds then max 0 t else t

/-- The slices a lookup of batch `b` should read. -/
def Batch.slices (b : Batch Ctx) (cfg : Config Ctx Row) : Slices Ctx where
  inputIds := (slice b.numTokens b.inputs.inputIds).map cfg.normalise
  queryStartLoc := slice (b.numReqs + 1) b.inputs.queryStartLoc
  ngramContext := slice b.numReqs b.inputs.ngramContext

/-- The rows that belong to batch `b`. -/
def Batch.rows (b : Batch Ctx) (cfg : Config Ctx Row) : Nat → Row :=
  cfg.lookup (b.slices cfg)

/-! ## The two GPU streams -/

/-- Items of the model stream, in the order they are enqueued. -/
inductive StreamItem (Ctx : Type)
  /-- `prepare_inputs` writing the address-stable input buffers. -/
  | produceInputs (x : Inputs Ctx)
  /-- `input_ready.record` of launch `n`. -/
  | recordReady (n : Nat)
  /-- `_gpu_output_buffer[:num_tokens].copy_(out_buf[:num_tokens])`. -/
  | copyOut (n numTokens : Nat)
  /-- `_gpu_output_buffer[:num_tokens].zero_()` of a dummy forward. -/
  | zeroOut (numTokens : Nat)
  | forward (n : Nat)
  | dummyForward (numTokens : Nat)

/-- Items of the background D2H stream (`_copy_cuda_inputs`). -/
inductive D2hItem
  | waitReady (n : Nat)
  | copyInputIds (numTokens : Nat)
  | copyQueryStartLoc (numReqs : Nat)
  | copyNgramContext (numReqs : Nat)
  | recordDone (n : Nat)

/-! ## Program counters -/

/-- The three stores of a doorbell ring, in program order. -/
inductive RingPc
  | numTokens
  | numReqs
  | seq
deriving DecidableEq

inductive ModelPc (Ctx : Type)
  | idle
  /-- The runner has produced the inputs; `prepare_forward` comes next. -/
  | prepared (b : Batch Ctx)
  /-- `_launch_inline` polls the D2H event. -/
  | polling (b : Batch Ctx)
  | ringing (b : Batch Ctx) (k : RingPc)
  /-- `_wait_lookup_done`. -/
  | waiting (b : Batch Ctx)
  | found (b : Batch Ctx)
  | copied (b : Batch Ctx)
  | dummied (numTokens : Nat)

/-- An entry of `_request_queue`. -/
structure Request where
  seq : Nat
  numTokens : Nat
  numReqs : Nat
deriving DecidableEq

/-- `_process_request` of the CPU path: `_copy_cpu_inputs`, then the ring. -/
inductive RequestPc
  | idle
  | inputIds (r : Request)
  | queryStartLoc (r : Request)
  | ngramContext (r : Request)
  | ringing (r : Request) (k : RingPc)

/-- `busy_loop` and `_handle_one` of the offload worker. -/
inductive WorkerPc (Ctx : Type)
  | idle
  | saw (numTokens numReqs : Nat)
  | readIds (ids : List Int) (numTokens numReqs : Nat)
  | readQsl (ids qsl : List Int) (numTokens numReqs : Nat)
  /-- Rows below `i` are written. -/
  | writing (x : Slices Ctx) (numTokens i : Nat)

/-! ## The state -/

/-- The shared done page: slot 0 and the doorbell slots 4 to 6. -/
structure Page where
  doneSeq : Nat
  dbSeq : Nat
  dbNtok : Nat
  dbNreq : Nat

/-- A request as the worker read it (ghost). -/
structure Served (Ctx : Type) where
  seq : Nat
  slices : Slices Ctx
  numTokens : Nat

/-- A host-to-device copy as the GPU executed it (ghost). -/
structure Copied (Row : Type) where
  launch : Nat
  numTokens : Nat
  rows : Nat → Row

/-- A forward as the GPU executed it (ghost). -/
inductive Consumed (Row : Type)
  | real (n : Nat) (rows : Nat → Row)
  | dummy (numTokens : Nat) (rows : Nat → Row)

structure State (Ctx Row : Type) where
  pc : ModelPc Ctx
  launchSeq : Nat
  /-- The runner's input buffers: on the GPU in CUDA mode, CPU mirrors else. -/
  source : Inputs Ctx
  stream : List (StreamItem Ctx)
  d2h : List D2hItem
  /-- Highest launch whose input-ready event has completed. -/
  inputReady : Nat
  /-- Highest launch whose D2H event has completed. -/
  d2hDone : Nat
  /-- The shared input buffers. -/
  inputBuf : Inputs Ctx
  page : Page
  outBuf : Nat → Row
  queue : Option Request
  rpc : RequestPc
  dbSeen : Nat
  /-- `_done_seq[dp_rank]`. -/
  workerDone : Nat
  wpc : WorkerPc Ctx
  gpuOut : Nat → Row
  /-- Ghost: the batch of launch `n` is entry `n - 1`. -/
  launched : List (Batch Ctx)
  /-- Ghost: the requests the worker has read. -/
  served : List (Served Ctx)
  /-- Ghost: the executed host-to-device copies and what they copied. -/
  copies : List (Copied Row)
  /-- Ghost: the executed forwards and the rows they consumed. -/
  consumed : List (Consumed Row)

/-- Everything at rest after registration; buffers hold anything. -/
def init (x : Inputs Ctx) (rows : Nat → Row) : State Ctx Row where
  pc := .idle
  launchSeq := 0
  source := x
  stream := []
  d2h := []
  inputReady := 0
  d2hDone := 0
  inputBuf := x
  page := ⟨0, 0, 0, 0⟩
  outBuf := rows
  queue := none
  rpc := .idle
  dbSeen := 0
  workerDone := 0
  wpc := .idle
  gpuOut := rows
  launched := []
  served := []
  copies := []
  consumed := []

/-- One store of a doorbell ring. -/
def Page.ring (p : Page) (r : Request) : RingPc → Page
  | .numTokens => { p with dbNtok := r.numTokens }
  | .numReqs => { p with dbNreq := r.numReqs }
  | .seq => { p with dbSeq := r.seq }

/-! ## The model thread -/

/-- The runner finalises the inputs of a real forward: on the model stream
with CUDA inputs, directly in the CPU mirrors otherwise. -/
def prepareInputs (cfg : Config Ctx Row) (b : Batch Ctx)
    (s : State Ctx Row) : Option (State Ctx Row) :=
  match s.pc with
  | .idle =>
      match cfg.mode with
      | .cudaInline => some { s with
          pc := .prepared b
          stream := s.stream ++ [.produceInputs b.inputs] }
      | .cpuRequestThread => some { s with
          pc := .prepared b
          source := b.inputs }
  | _ => none

/-- `_launch_inline` up to the poll, respectively `_launch` with its blocking
`put` on a queue of one entry. -/
def launch (cfg : Config Ctx Row) (s : State Ctx Row) :
    Option (State Ctx Row) :=
  match s.pc with
  | .prepared b =>
      match cfg.mode with
      | .cudaInline => some { s with
          pc := .polling b
          launchSeq := s.launchSeq + 1
          launched := s.launched ++ [b]
          stream := s.stream ++ [.recordReady (s.launchSeq + 1)]
          d2h := s.d2h ++ [.waitReady (s.launchSeq + 1),
            .copyInputIds b.numTokens, .copyQueryStartLoc b.numReqs,
            .copyNgramContext b.numReqs, .recordDone (s.launchSeq + 1)] }
      | .cpuRequestThread =>
          match s.queue with
          | none => some { s with
              pc := .waiting b
              launchSeq := s.launchSeq + 1
              launched := s.launched ++ [b]
              queue := some ⟨s.launchSeq + 1, b.numTokens, b.numReqs⟩ }
          | some _ => none
  | _ => none

/-- `ev.query()` answers true. -/
def pollD2h (s : State Ctx Row) : Option (State Ctx Row) :=
  match s.pc with
  | .polling b =>
      if s.launchSeq ≤ s.d2hDone then some { s with pc := .ringing b .numTokens }
      else none
  | _ => none

/-- The model thread's doorbell stores at the end of `_launch_inline`. -/
def ringInline (s : State Ctx Row) : Option (State Ctx Row) :=
  match s.pc with
  | .ringing b k =>
      some { s with
        page := s.page.ring ⟨s.launchSeq, b.numTokens, b.numReqs⟩ k
        pc := match k with
          | .numTokens => .ringing b .numReqs
          | .numReqs => .ringing b .seq
          | .seq => .waiting b }
  | _ => none

/-- `_wait_lookup_done` returns. -/
def waitLookupDone (s : State Ctx Row) :
    Option (State Ctx Row) :=
  match s.pc with
  | .waiting b =>
      if s.launchSeq ≤ s.page.doneSeq then some { s with pc := .found b } else none
  | _ => none

/-- The non-blocking copy of the result into the device buffer. -/
def enqueueCopy (s : State Ctx Row) : Option (State Ctx Row) :=
  match s.pc with
  | .found b => some { s with
      pc := .copied b
      stream := s.stream ++ [.copyOut s.launchSeq b.numTokens] }
  | _ => none

/-- `signal_dummy_outputs`, after the runner filled dummy inputs. -/
def signalDummyOutputs (cfg : Config Ctx Row)
    (x : Inputs Ctx) (numTokens : Nat) (s : State Ctx Row) :
    Option (State Ctx Row) :=
  match s.pc with
  | .idle =>
      match cfg.mode with
      | .cudaInline => some { s with
          pc := .dummied numTokens
          stream := s.stream ++ [.produceInputs x, .zeroOut numTokens] }
      | .cpuRequestThread => some { s with
          pc := .dummied numTokens
          source := x
          stream := s.stream ++ [.zeroOut numTokens] }
  | _ => none

/-- The runner enqueues the forward that follows `prepare_forward`. -/
def enqueueForward (s : State Ctx Row) :
    Option (State Ctx Row) :=
  match s.pc with
  | .copied _ => some { s with
      pc := .idle
      stream := s.stream ++ [.forward s.launchSeq] }
  | .dummied numTokens => some { s with
      pc := .idle
      stream := s.stream ++ [.dummyForward numTokens] }
  | _ => none

/-! ## The GPU -/

/-- Effect of one model-stream item. -/
def StreamItem.exec (zeroRow : Row) (s : State Ctx Row) :
    StreamItem Ctx → State Ctx Row
  | .produceInputs x => { s with source := x }
  | .recordReady n => { s with inputReady := n }
  | .copyOut n k => { s with
      gpuOut := overwrite k s.outBuf s.gpuOut
      copies := s.copies ++ [⟨n, k, s.outBuf⟩] }
  | .zeroOut k => { s with gpuOut := overwrite k (fun _ => zeroRow) s.gpuOut }
  | .forward n => { s with consumed := s.consumed ++ [.real n s.gpuOut] }
  | .dummyForward k => { s with consumed := s.consumed ++ [.dummy k s.gpuOut] }

/-- The GPU executes the oldest item of the model stream. -/
def execStream (cfg : Config Ctx Row) (s : State Ctx Row) :
    Option (State Ctx Row) :=
  match s.stream with
  | [] => none
  | item :: rest => some (item.exec cfg.zeroRow { s with stream := rest })

/-- The GPU executes the oldest item of the D2H stream, which may be held by
the input-ready event. -/
def execD2h (s : State Ctx Row) : Option (State Ctx Row) :=
  match s.d2h with
  | [] => none
  | .waitReady n :: rest =>
      if n ≤ s.inputReady then some { s with d2h := rest } else none
  | .copyInputIds k :: rest => some { s with
      d2h := rest
      inputBuf := s.inputBuf.copyInputIds k s.source }
  | .copyQueryStartLoc k :: rest => some { s with
      d2h := rest
      inputBuf := s.inputBuf.copyQueryStartLoc k s.source }
  | .copyNgramContext k :: rest => some { s with
      d2h := rest
      inputBuf := s.inputBuf.copyNgramContext k s.source }
  | .recordDone n :: rest => some { s with d2h := rest, d2hDone := n }

/-! ## The request thread -/

/-- The next instruction of `_request_loop` / `_process_request`. -/
def requestThread (s : State Ctx Row) :
    Option (State Ctx Row) :=
  match s.rpc with
  | .idle =>
      match s.queue with
      | none => none
      | some r => some { s with queue := none, rpc := .inputIds r }
  | .inputIds r => some { s with
      rpc := .queryStartLoc r
      inputBuf := s.inputBuf.copyInputIds r.numTokens s.source }
  | .queryStartLoc r => some { s with
      rpc := .ngramContext r
      inputBuf := s.inputBuf.copyQueryStartLoc r.numReqs s.source }
  | .ngramContext r => some { s with
      rpc := .ringing r .numTokens
      inputBuf := s.inputBuf.copyNgramContext r.numReqs s.source }
  | .ringing r k => some { s with
      page := s.page.ring r k
      rpc := match k with
        | .numTokens => .ringing r .numReqs
        | .numReqs => .ringing r .seq
        | .seq => .idle }

/-! ## The offload worker -/

/-- `busy_loop` notices a doorbell number above the last one it served. -/
def see (s : State Ctx Row) : Option (State Ctx Row) :=
  match s.wpc with
  | .idle =>
      if s.dbSeen < s.page.dbSeq then some { s with
        dbSeen := s.page.dbSeq
        wpc := .saw s.page.dbNtok s.page.dbNreq }
      else none
  | _ => none

/-- `_handle_one` normalises the token ids in place, then its lookup reads the
three buffers. -/
def readInputs (cfg : Config Ctx Row) (s : State Ctx Row) :
    Option (State Ctx Row) :=
  match s.wpc with
  | .saw numTokens numReqs =>
      let ids := overwrite numTokens
        (fun i => cfg.normalise (s.inputBuf.inputIds i)) s.inputBuf.inputIds
      some { s with
        inputBuf := { s.inputBuf with inputIds := ids }
        wpc := .readIds (slice numTokens ids) numTokens numReqs }
  | .readIds ids numTokens numReqs => some { s with
      wpc := .readQsl ids (slice (numReqs + 1) s.inputBuf.queryStartLoc)
        numTokens numReqs }
  | .readQsl ids qsl numTokens numReqs =>
      let x : Slices Ctx := ⟨ids, qsl, slice numReqs s.inputBuf.ngramContext⟩
      some { s with
        wpc := .writing x numTokens 0
        served := s.served ++ [⟨s.dbSeen, x, numTokens⟩] }
  | _ => none

/-- `_handle_one` writes the next row straight into the shared result buffer. -/
def writeOutBuf (cfg : Config Ctx Row) (s : State Ctx Row) :
    Option (State Ctx Row) :=
  match s.wpc with
  | .writing x numTokens i =>
      if i < numTokens then some { s with
        outBuf := fun j => if j = i then cfg.lookup x i else s.outBuf j
        wpc := .writing x numTokens (i + 1) }
      else none
  | _ => none

/-- The completion store at the end of `_handle_one`. -/
def publish (s : State Ctx Row) : Option (State Ctx Row) :=
  match s.wpc with
  | .writing _ numTokens i =>
      if i < numTokens then none
      else some { s with
        workerDone := s.workerDone + 1
        page := { s.page with doneSeq := s.workerDone + 1 }
        wpc := .idle }
  | _ => none

/-! ## The step relation -/

inductive Action (Ctx : Type)
  | prepareInputs (b : Batch Ctx)
  | launch
  | pollD2h
  | ringInline
  | waitLookupDone
  | enqueueCopy
  | signalDummyOutputs (x : Inputs Ctx) (numTokens : Nat)
  | enqueueForward
  | execStream
  | execD2h
  | requestThread
  | see
  | readInputs
  | writeOutBuf
  | publish

/-- One step of one party. -/
def step (cfg : Config Ctx Row) (s : State Ctx Row) :
    Action Ctx → Option (State Ctx Row)
  | .prepareInputs b => prepareInputs cfg b s
  | .launch => launch cfg s
  | .pollD2h => pollD2h s
  | .ringInline => ringInline s
  | .waitLookupDone => waitLookupDone s
  | .enqueueCopy => enqueueCopy s
  | .signalDummyOutputs x k => signalDummyOutputs cfg x k s
  | .enqueueForward => enqueueForward s
  | .execStream => execStream cfg s
  | .execD2h => execD2h s
  | .requestThread => requestThread s
  | .see => see s
  | .readInputs => readInputs cfg s
  | .writeOutBuf => writeOutBuf cfg s
  | .publish => publish s

/-! ## What the hand-off promises -/

/-- Launch `n` (counted from one) was about batch `b`. -/
def IsLaunch (launched : List (Batch Ctx)) (n : Nat) (b : Batch Ctx) : Prop :=
  0 < n ∧ launched[n - 1]? = some b

/-- A buffer holds the rows of launch `n`. -/
def HasRows (cfg : Config Ctx Row) (launched : List (Batch Ctx)) (n : Nat)
    (rows : Nat → Row) : Prop :=
  ∃ b, IsLaunch launched n b ∧ ∀ i < b.numTokens, rows i = b.rows cfg i

/-- A buffer was zeroed for a dummy forward of `k` tokens. -/
def HasZeros (cfg : Config Ctx Row) (k : Nat) (rows : Nat → Row) : Prop :=
  ∀ i < k, rows i = cfg.zeroRow

/-- Nothing that has happened so far mixed two launches. -/
structure Safe (cfg : Config Ctx Row) (s : State Ctx Row) : Prop where
  /-- Every request was read from completely staged inputs of its launch. -/
  served : ∀ r ∈ s.served, ∃ b, IsLaunch s.launched r.seq b ∧
    r.slices = b.slices cfg ∧ r.numTokens = b.numTokens
  /-- Every executed copy moved the rows of its own launch. -/
  copies : ∀ c ∈ s.copies, ∃ b, IsLaunch s.launched c.launch b ∧
    c.numTokens = b.numTokens ∧ ∀ i < b.numTokens, c.rows i = b.rows cfg i
  /-- Every forward consumed the rows of its own launch. -/
  real : ∀ n rows, Consumed.real n rows ∈ s.consumed →
    HasRows cfg s.launched n rows
  dummy : ∀ k rows, Consumed.dummy k rows ∈ s.consumed → HasZeros cfg k rows

end FlashNext.Ports.PleHandoff
