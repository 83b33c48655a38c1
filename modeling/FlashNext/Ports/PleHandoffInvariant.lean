import FlashNext.Ports.PleHandoff

/-!
# The invariant of the PLE offload hand-off

`Stage` says, for every position of the model thread, where the other parties
can be and what the shared buffers hold.  `StreamOk` walks the model stream
and checks every queued forward against the copy that precedes it.  `Inv`
joins the two with the history recorded so far.

The only step that can break `Inv` is the worker's write into `out_buf`: a
copy of an *earlier* launch may still be queued on the model stream.
`Calm` is the condition under which it does not.
-/

namespace FlashNext.Ports.PleHandoff

variable {Ctx Row : Type} {cfg : Config Ctx Row} {s t : State Ctx Row}

/-! ## Slices of buffers -/

@[simp] theorem slice_overwrite {α : Type} (k : Nat) (new old : Nat → α) :
    slice k (overwrite k new old) = slice k new := by
  unfold slice overwrite
  apply List.map_congr_left
  intro i hi
  simp [List.mem_range.1 hi]

theorem slice_comp {α : Type} (k : Nat) (f : α → α) (buf : Nat → α) :
    slice k (fun i => f (buf i)) = (slice k buf).map f := by
  simp [slice, List.map_map, Function.comp_def]

theorem overwrite_of_lt {α : Type} {k i : Nat} (h : i < k) (new old : Nat → α) :
    overwrite k new old i = new i := by
  simp [overwrite, h]

/-! ## Staged inputs -/

/-- The shared input buffers hold the three slices of batch `b`. -/
structure Staged (b : Batch Ctx) (buf : Inputs Ctx) : Prop where
  ids : slice b.numTokens buf.inputIds = slice b.numTokens b.inputs.inputIds
  qsl : slice (b.numReqs + 1) buf.queryStartLoc =
    slice (b.numReqs + 1) b.inputs.queryStartLoc
  ctx : slice b.numReqs buf.ngramContext = slice b.numReqs b.inputs.ngramContext

/-- What the runner's buffers will hold once the stream has drained. -/
def finalSource (x : Inputs Ctx) : List (StreamItem Ctx) → Inputs Ctx
  | [] => x
  | .produceInputs y :: rest => finalSource y rest
  | .recordReady _ :: rest => finalSource x rest
  | .copyOut _ _ :: rest => finalSource x rest
  | .zeroOut _ :: rest => finalSource x rest
  | .forward _ :: rest => finalSource x rest
  | .dummyForward _ :: rest => finalSource x rest

@[simp] theorem finalSource_nil (x : Inputs Ctx) : finalSource x [] = x := rfl

theorem finalSource_append (x : Inputs Ctx) (l₁ l₂ : List (StreamItem Ctx)) :
    finalSource x (l₁ ++ l₂) = finalSource (finalSource x l₁) l₂ := by
  induction l₁ generalizing x with
  | nil => rfl
  | cons item l ih => cases item <;> exact ih _

/-- With CPU inputs nothing on the stream touches the mirrors. -/
theorem finalSource_of_cpu (x : Inputs Ctx) (l : List (StreamItem Ctx))
    (h : ∀ y, StreamItem.produceInputs y ∉ l) : finalSource x l = x := by
  induction l generalizing x with
  | nil => rfl
  | cons item l ih =>
      have hl : ∀ y, StreamItem.produceInputs y ∉ l :=
        fun y hy => h y (List.mem_cons_of_mem _ hy)
      cases item with
      | produceInputs y => exact absurd (List.mem_cons_self ..) (h y)
      | _ => exact ih x hl

/-- Executing an item does not change where the source will end up. -/
theorem finalSource_exec (z : Row) (item : StreamItem Ctx)
    (rest : List (StreamItem Ctx)) (s : State Ctx Row) :
    finalSource (item.exec z s).source rest =
      finalSource s.source (item :: rest) := by
  cases item <;> rfl

/-! ## Frame lemmas of the model stream -/

section Frame

variable (z : Row) (item : StreamItem Ctx) (s : State Ctx Row)

@[simp] theorem exec_pc : (item.exec z s).pc = s.pc := by cases item <;> rfl
@[simp] theorem exec_launchSeq : (item.exec z s).launchSeq = s.launchSeq := by
  cases item <;> rfl
@[simp] theorem exec_stream : (item.exec z s).stream = s.stream := by
  cases item <;> rfl
@[simp] theorem exec_d2h : (item.exec z s).d2h = s.d2h := by cases item <;> rfl
@[simp] theorem exec_d2hDone : (item.exec z s).d2hDone = s.d2hDone := by
  cases item <;> rfl
@[simp] theorem exec_inputBuf : (item.exec z s).inputBuf = s.inputBuf := by
  cases item <;> rfl
@[simp] theorem exec_page : (item.exec z s).page = s.page := by cases item <;> rfl
@[simp] theorem exec_outBuf : (item.exec z s).outBuf = s.outBuf := by
  cases item <;> rfl
@[simp] theorem exec_queue : (item.exec z s).queue = s.queue := by
  cases item <;> rfl
@[simp] theorem exec_rpc : (item.exec z s).rpc = s.rpc := by cases item <;> rfl
@[simp] theorem exec_dbSeen : (item.exec z s).dbSeen = s.dbSeen := by
  cases item <;> rfl
@[simp] theorem exec_workerDone : (item.exec z s).workerDone = s.workerDone := by
  cases item <;> rfl
@[simp] theorem exec_wpc : (item.exec z s).wpc = s.wpc := by cases item <;> rfl
@[simp] theorem exec_launched : (item.exec z s).launched = s.launched := by
  cases item <;> rfl
@[simp] theorem exec_served : (item.exec z s).served = s.served := by
  cases item <;> rfl

end Frame

/-! ## Stages of one hand-off -/

/-- The four sequence numbers: last ring, last ring seen, last completion. -/
structure Counters (s : State Ctx Row) (rung seen done : Nat) : Prop where
  dbSeq : s.page.dbSeq = rung
  dbSeen : s.dbSeen = seen
  workerDone : s.workerDone = done
  doneSeq : s.page.doneSeq = done

/-- `m` requests have been served and none is on its way. -/
structure Quiet (s : State Ctx Row) (m : Nat) : Prop where
  counters : Counters s m m m
  queue : s.queue = none
  rpc : s.rpc = .idle
  wpc : s.wpc = .idle

/-- The doorbell fields already written when the next store is `k`. -/
def RingFields (p : Page) (b : Batch Ctx) : RingPc → Prop
  | .numTokens => True
  | .numReqs => p.dbNtok = b.numTokens
  | .seq => p.dbNtok = b.numTokens ∧ p.dbNreq = b.numReqs

/-- The D2H stream while `_launch_inline` polls. -/
inductive D2hStage (s : State Ctx Row) (b : Batch Ctx) : Prop
  | held (hd : s.d2h = [.waitReady s.launchSeq, .copyInputIds b.numTokens,
        .copyQueryStartLoc b.numReqs, .copyNgramContext b.numReqs,
        .recordDone s.launchSeq])
      (hlt : s.d2hDone < s.launchSeq)
      (hsrc : finalSource s.source s.stream = b.inputs)
      (hstream : s.stream = [] ∨ ∃ pre,
        s.stream = pre ++ [.recordReady s.launchSeq] ∧
          (∀ n, StreamItem.recordReady n ∉ pre) ∧ s.inputReady < s.launchSeq)
  | copyIds (hd : s.d2h = [.copyInputIds b.numTokens,
        .copyQueryStartLoc b.numReqs, .copyNgramContext b.numReqs,
        .recordDone s.launchSeq])
      (hlt : s.d2hDone < s.launchSeq) (hsrc : s.source = b.inputs)
      (hstream : s.stream = [])
  | copyQsl (hd : s.d2h = [.copyQueryStartLoc b.numReqs,
        .copyNgramContext b.numReqs, .recordDone s.launchSeq])
      (hlt : s.d2hDone < s.launchSeq) (hsrc : s.source = b.inputs)
      (hstream : s.stream = [])
      (ids : slice b.numTokens s.inputBuf.inputIds =
        slice b.numTokens b.inputs.inputIds)
  | copyCtx (hd : s.d2h = [.copyNgramContext b.numReqs,
        .recordDone s.launchSeq])
      (hlt : s.d2hDone < s.launchSeq) (hsrc : s.source = b.inputs)
      (hstream : s.stream = [])
      (ids : slice b.numTokens s.inputBuf.inputIds =
        slice b.numTokens b.inputs.inputIds)
      (qsl : slice (b.numReqs + 1) s.inputBuf.queryStartLoc =
        slice (b.numReqs + 1) b.inputs.queryStartLoc)
  | record (hd : s.d2h = [.recordDone s.launchSeq])
      (hlt : s.d2hDone < s.launchSeq) (hstream : s.stream = [])
      (staged : Staged b s.inputBuf)
  | finished (hd : s.d2h = []) (hstream : s.stream = [])
      (staged : Staged b s.inputBuf)

/-- The request thread while it processes launch `n` of batch `b`. -/
inductive StagingStage (s : State Ctx Row) (b : Batch Ctx) : Prop
  | ids (hr : s.rpc = .inputIds ⟨s.launchSeq, b.numTokens, b.numReqs⟩)
  | qsl (hr : s.rpc = .queryStartLoc ⟨s.launchSeq, b.numTokens, b.numReqs⟩)
      (ids : slice b.numTokens s.inputBuf.inputIds =
        slice b.numTokens b.inputs.inputIds)
  | ctx (hr : s.rpc = .ngramContext ⟨s.launchSeq, b.numTokens, b.numReqs⟩)
      (ids : slice b.numTokens s.inputBuf.inputIds =
        slice b.numTokens b.inputs.inputIds)
      (qsl : slice (b.numReqs + 1) s.inputBuf.queryStartLoc =
        slice (b.numReqs + 1) b.inputs.queryStartLoc)
  | ring (k : RingPc)
      (hr : s.rpc = .ringing ⟨s.launchSeq, b.numTokens, b.numReqs⟩ k)
      (staged : Staged b s.inputBuf) (fields : RingFields s.page b k)

/-- The offload worker while it serves batch `b`. -/
inductive WorkingStage (cfg : Config Ctx Row) (s : State Ctx Row)
    (b : Batch Ctx) : Prop
  | saw (hw : s.wpc = .saw b.numTokens b.numReqs) (staged : Staged b s.inputBuf)
  | readIds
      (hw : s.wpc = .readIds (b.slices cfg).inputIds b.numTokens b.numReqs)
      (qsl : slice (b.numReqs + 1) s.inputBuf.queryStartLoc =
        slice (b.numReqs + 1) b.inputs.queryStartLoc)
      (ctx : slice b.numReqs s.inputBuf.ngramContext =
        slice b.numReqs b.inputs.ngramContext)
  | readQsl
      (hw : s.wpc = .readQsl (b.slices cfg).inputIds
        (b.slices cfg).queryStartLoc b.numTokens b.numReqs)
      (ctx : slice b.numReqs s.inputBuf.ngramContext =
        slice b.numReqs b.inputs.ngramContext)
  | writing (i : Nat) (hw : s.wpc = .writing (b.slices cfg) b.numTokens i)
      (rows : ∀ j < i, s.outBuf j = b.rows cfg j)

/-- Where the request is while the model thread waits for `done_seq`. -/
inductive Handoff (cfg : Config Ctx Row) (s : State Ctx Row) (b : Batch Ctx) :
    Prop
  | queued (hmode : cfg.mode = .cpuRequestThread) (hsrc : s.source = b.inputs)
      (counters : Counters s (s.launchSeq - 1) (s.launchSeq - 1) (s.launchSeq - 1))
      (hq : s.queue = some ⟨s.launchSeq, b.numTokens, b.numReqs⟩)
      (hr : s.rpc = .idle) (hw : s.wpc = .idle)
  | staging (hmode : cfg.mode = .cpuRequestThread) (hsrc : s.source = b.inputs)
      (counters : Counters s (s.launchSeq - 1) (s.launchSeq - 1) (s.launchSeq - 1))
      (hq : s.queue = none) (hr : StagingStage s b) (hw : s.wpc = .idle)
  | rung (counters : Counters s s.launchSeq (s.launchSeq - 1) (s.launchSeq - 1))
      (hq : s.queue = none) (hr : s.rpc = .idle) (hw : s.wpc = .idle)
      (staged : Staged b s.inputBuf) (fields : RingFields s.page b .seq)
  | working (counters : Counters s s.launchSeq s.launchSeq (s.launchSeq - 1))
      (hq : s.queue = none) (hr : s.rpc = .idle) (hw : WorkingStage cfg s b)
  | done (quiet : Quiet s s.launchSeq)
      (rows : ∀ j < b.numTokens, s.outBuf j = b.rows cfg j)

/-- What holds at each position of the model thread. -/
inductive Stage (cfg : Config Ctx Row) (s : State Ctx Row) : Prop
  | idle (hpc : s.pc = .idle) (quiet : Quiet s s.launchSeq) (hd : s.d2h = [])
  | prepared (b : Batch Ctx) (hpc : s.pc = .prepared b)
      (quiet : Quiet s s.launchSeq) (hd : s.d2h = [])
      (hsrc : finalSource s.source s.stream = b.inputs)
  | dummied (k : Nat) (hpc : s.pc = .dummied k) (quiet : Quiet s s.launchSeq)
      (hd : s.d2h = [])
  | polling (b : Batch Ctx) (hpc : s.pc = .polling b)
      (hmode : cfg.mode = .cudaInline)
      (hb : IsLaunch s.launched s.launchSeq b)
      (quiet : Quiet s (s.launchSeq - 1)) (d2h : D2hStage s b)
  | ringing (b : Batch Ctx) (k : RingPc) (hpc : s.pc = .ringing b k)
      (hb : IsLaunch s.launched s.launchSeq b)
      (quiet : Quiet s (s.launchSeq - 1)) (hd : s.d2h = [])
      (hstream : s.stream = [])
      (staged : Staged b s.inputBuf) (fields : RingFields s.page b k)
  | waiting (b : Batch Ctx) (hpc : s.pc = .waiting b)
      (hb : IsLaunch s.launched s.launchSeq b) (hd : s.d2h = [])
      (hstream : cfg.mode = .cudaInline → s.stream = [])
      (handoff : Handoff cfg s b)
  | found (b : Batch Ctx) (hpc : s.pc = .found b)
      (hb : IsLaunch s.launched s.launchSeq b)
      (quiet : Quiet s s.launchSeq) (hd : s.d2h = [])
      (rows : ∀ j < b.numTokens, s.outBuf j = b.rows cfg j)
  | copied (b : Batch Ctx) (hpc : s.pc = .copied b)
      (hb : IsLaunch s.launched s.launchSeq b)
      (quiet : Quiet s s.launchSeq) (hd : s.d2h = [])

/-! ## The model stream -/

/-- What `_gpu_output_buffer` holds when the GPU reaches a stream position. -/
inductive Tag
  | any
  | rows (n : Nat)
  | zeros (k : Nat)

def Tag.after (tag : Tag) : StreamItem Ctx → Tag
  | .copyOut n _ => .rows n
  | .zeroOut k => .zeros k
  | _ => tag

/-- A queued item uses the buffer as the tag allows. -/
def Tag.Allows (launched : List (Batch Ctx)) (tag : Tag) :
    StreamItem Ctx → Prop
  | .forward n => tag = .rows n
  | .dummyForward k => tag = .zeros k
  | .copyOut n k => ∃ b, IsLaunch launched n b ∧ k = b.numTokens
  | _ => True

def Tag.Holds (cfg : Config Ctx Row) (launched : List (Batch Ctx))
    (gpuOut : Nat → Row) : Tag → Prop
  | .any => True
  | .rows n => HasRows cfg launched n gpuOut
  | .zeros k => HasZeros cfg k gpuOut

/-- Every queued forward is preceded by its own copy, or zeroing. -/
def StreamOk (launched : List (Batch Ctx)) : Tag → List (StreamItem Ctx) → Prop
  | _, [] => True
  | tag, item :: rest =>
      tag.Allows launched item ∧ StreamOk launched (tag.after item) rest

/-- The tag at the end of the stream. -/
def Tag.final (tag : Tag) (l : List (StreamItem Ctx)) : Tag :=
  l.foldl Tag.after tag

/-- The tag that the model thread is about to rely on. -/
def TagDue (s : State Ctx Row) (tag : Tag) : Prop :=
  match s.pc with
  | .copied _ => tag = .rows s.launchSeq
  | .dummied k => tag = .zeros k
  | _ => True

/-- The invariant of the hand-off. -/
structure Inv (cfg : Config Ctx Row) (s : State Ctx Row) : Prop where
  safe : Safe cfg s
  length : s.launched.length = s.launchSeq
  stage : Stage cfg s
  readyLe : s.inputReady ≤ s.launchSeq
  d2hLe : s.d2hDone ≤ s.launchSeq
  ready : ∀ n, StreamItem.recordReady n ∈ s.stream →
    n = s.launchSeq ∧ ∃ b, s.pc = .polling b
  cpuStream : cfg.mode = .cpuRequestThread →
    ∀ x, StreamItem.produceInputs x ∉ s.stream
  pending : ∀ n k, StreamItem.copyOut n k ∈ s.stream →
    HasRows cfg s.launched n s.outBuf
  stream : ∃ tag : Tag, tag.Holds cfg s.launched s.gpuOut ∧
    StreamOk s.launched tag s.stream ∧ TagDue s (tag.final s.stream)

/-! ## The condition on a step -/

/-- A queued copy out of the shared result buffer. -/
def StreamItem.isCopyOut : StreamItem Ctx → Bool
  | .copyOut _ _ => true
  | _ => false

/-- With CPU inputs, the worker writes `out_buf` only when no copy out of it
is still queued on the model stream. -/
def Calm (cfg : Config Ctx Row) (s : State Ctx Row) : Action Ctx → Prop
  | .writeOutBuf => cfg.mode = .cpuRequestThread →
      ∀ item ∈ s.stream, item.isCopyOut = false
  | _ => True

instance : (a : Action Ctx) → Decidable (Calm cfg s a)
  | .writeOutBuf => inferInstanceAs (Decidable (cfg.mode = .cpuRequestThread →
      ∀ item ∈ s.stream, item.isCopyOut = false))
  | .prepareInputs _ | .launch | .pollD2h | .ringInline | .waitLookupDone
  | .enqueueCopy | .signalDummyOutputs _ _ | .enqueueForward | .execStream
  | .execD2h | .requestThread | .see | .readInputs | .publish => isTrue trivial

end FlashNext.Ports.PleHandoff
