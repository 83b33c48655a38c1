import FlashNext.Ports.PleHandoffInvariant

/-!
# Every step of the PLE offload hand-off preserves the invariant

One lemma per action.  The actions of the model thread, the D2H stream, the
request thread and the worker are each first located in `Stage` by an
inversion lemma; the histories and the model stream are carried by
`Inv.frame` wherever the action leaves them alone.
-/

namespace FlashNext.Ports.PleHandoff

variable {Ctx Row : Type} {cfg : Config Ctx Row} {s t : State Ctx Row}

/-! ## Launches are only added -/

section Append

variable {launched : List (Batch Ctx)} {n : Nat} {b : Batch Ctx}

theorem IsLaunch.append (h : IsLaunch launched n b) (c : Batch Ctx) :
    IsLaunch (launched ++ [c]) n b := by
  obtain ⟨hpos, hget⟩ := h
  obtain ⟨hlt, -⟩ := List.getElem?_eq_some_iff.1 hget
  exact ⟨hpos, by rw [List.getElem?_append_left hlt, hget]⟩

theorem isLaunch_last (launched : List (Batch Ctx)) (c : Batch Ctx) :
    IsLaunch (launched ++ [c]) (launched.length + 1) c :=
  ⟨Nat.succ_pos _, by simp⟩

theorem HasRows.append {rows : Nat → Row} (h : HasRows cfg launched n rows)
    (c : Batch Ctx) : HasRows cfg (launched ++ [c]) n rows := by
  obtain ⟨b, hb, hrows⟩ := h
  exact ⟨b, hb.append c, hrows⟩

theorem Tag.Holds.append {gpuOut : Nat → Row} {tag : Tag}
    (h : tag.Holds cfg launched gpuOut) (c : Batch Ctx) :
    tag.Holds cfg (launched ++ [c]) gpuOut := by
  cases tag with
  | any => trivial
  | rows n => exact HasRows.append h c
  | zeros k => exact h

theorem StreamOk.append_launched {tag : Tag} {l : List (StreamItem Ctx)}
    (h : StreamOk launched tag l) (c : Batch Ctx) :
    StreamOk (launched ++ [c]) tag l := by
  induction l generalizing tag with
  | nil => trivial
  | cons item l ih =>
      obtain ⟨hitem, hrest⟩ := h
      refine ⟨?_, ih hrest⟩
      cases item with
      | copyOut n k =>
          obtain ⟨b, hb, hk⟩ := hitem
          exact ⟨b, hb.append c, hk⟩
      | _ => exact hitem

end Append

theorem Safe.launch {c : Batch Ctx} (h : Safe cfg s)
    (hlaunched : t.launched = s.launched ++ [c]) (hserved : t.served = s.served)
    (hcopies : t.copies = s.copies) (hconsumed : t.consumed = s.consumed) :
    Safe cfg t := by
  constructor
  · intro r hr
    obtain ⟨b, hb, hr'⟩ := h.served r (hserved ▸ hr)
    exact ⟨b, hlaunched ▸ hb.append c, hr'⟩
  · intro r hr
    obtain ⟨b, hb, hr'⟩ := h.copies r (hcopies ▸ hr)
    exact ⟨b, hlaunched ▸ hb.append c, hr'⟩
  · intro n rows hr
    exact hlaunched ▸ (h.real n rows (hconsumed ▸ hr)).append c
  · intro k rows hr
    exact h.dummy k rows (hconsumed ▸ hr)

/-! ## The model stream -/

theorem Tag.final_append (tag : Tag) (l₁ l₂ : List (StreamItem Ctx)) :
    tag.final (l₁ ++ l₂) = (tag.final l₁).final l₂ :=
  List.foldl_append ..

@[simp] theorem Tag.final_nil (tag : Tag) :
    tag.final ([] : List (StreamItem Ctx)) = tag := rfl

@[simp] theorem Tag.final_cons (tag : Tag) (item : StreamItem Ctx)
    (l : List (StreamItem Ctx)) :
    tag.final (item :: l) = (tag.after item).final l := rfl

theorem StreamOk.append {launched : List (Batch Ctx)} {tag : Tag}
    {l₁ l₂ : List (StreamItem Ctx)} (h₁ : StreamOk launched tag l₁)
    (h₂ : StreamOk launched (tag.final l₁) l₂) :
    StreamOk launched tag (l₁ ++ l₂) := by
  induction l₁ generalizing tag with
  | nil => exact h₂
  | cons item l ih => exact ⟨h₁.1, ih h₁.2 h₂⟩

/-! ## Where a step can happen -/

theorem Stage.at_idle (h : Stage cfg s) (hpc : s.pc = .idle) :
    Quiet s s.launchSeq ∧ s.d2h = [] := by
  cases h with
  | idle _ quiet hd => exact ⟨quiet, hd⟩
  | _ => simp_all

theorem Stage.at_prepared {b : Batch Ctx} (h : Stage cfg s)
    (hpc : s.pc = .prepared b) :
    Quiet s s.launchSeq ∧ s.d2h = [] ∧
      finalSource s.source s.stream = b.inputs := by
  cases h with
  | prepared b' hpc' quiet hd hsrc =>
      obtain rfl : b = b' := by simpa [hpc] using hpc'
      exact ⟨quiet, hd, hsrc⟩
  | _ => simp_all

theorem Stage.at_polling {b : Batch Ctx} (h : Stage cfg s)
    (hpc : s.pc = .polling b) :
    cfg.mode = .cudaInline ∧ IsLaunch s.launched s.launchSeq b ∧
      Quiet s (s.launchSeq - 1) ∧ D2hStage s b := by
  cases h with
  | polling b' hpc' hmode hb quiet d2h =>
      obtain rfl : b = b' := by simpa [hpc] using hpc'
      exact ⟨hmode, hb, quiet, d2h⟩
  | _ => simp_all

theorem Stage.at_ringing {b : Batch Ctx} {k : RingPc} (h : Stage cfg s)
    (hpc : s.pc = .ringing b k) :
    IsLaunch s.launched s.launchSeq b ∧ Quiet s (s.launchSeq - 1) ∧
      s.d2h = [] ∧ s.stream = [] ∧ Staged b s.inputBuf ∧
      RingFields s.page b k := by
  cases h with
  | ringing b' k' hpc' hb quiet hd hstream staged fields =>
      obtain ⟨rfl, rfl⟩ : b = b' ∧ k = k' := by simpa [hpc] using hpc'
      exact ⟨hb, quiet, hd, hstream, staged, fields⟩
  | _ => simp_all

theorem Stage.at_waiting {b : Batch Ctx} (h : Stage cfg s)
    (hpc : s.pc = .waiting b) :
    IsLaunch s.launched s.launchSeq b ∧ s.d2h = [] ∧
      (cfg.mode = .cudaInline → s.stream = []) ∧ Handoff cfg s b := by
  cases h with
  | waiting b' hpc' hb hd hstream handoff =>
      obtain rfl : b = b' := by simpa [hpc] using hpc'
      exact ⟨hb, hd, hstream, handoff⟩
  | _ => simp_all

theorem Stage.at_found {b : Batch Ctx} (h : Stage cfg s)
    (hpc : s.pc = .found b) :
    IsLaunch s.launched s.launchSeq b ∧ Quiet s s.launchSeq ∧ s.d2h = [] ∧
      ∀ j < b.numTokens, s.outBuf j = b.rows cfg j := by
  cases h with
  | found b' hpc' hb quiet hd rows =>
      obtain rfl : b = b' := by simpa [hpc] using hpc'
      exact ⟨hb, quiet, hd, rows⟩
  | _ => simp_all

theorem Stage.at_copied {b : Batch Ctx} (h : Stage cfg s)
    (hpc : s.pc = .copied b) : Quiet s s.launchSeq ∧ s.d2h = [] := by
  cases h with
  | copied b' hpc' hb quiet hd => exact ⟨quiet, hd⟩
  | _ => simp_all

theorem Stage.at_dummied {k : Nat} (h : Stage cfg s)
    (hpc : s.pc = .dummied k) : Quiet s s.launchSeq ∧ s.d2h = [] := by
  cases h with
  | dummied k' hpc' quiet hd => exact ⟨quiet, hd⟩
  | _ => simp_all

/-- The D2H stream only runs while the model thread polls. -/
theorem Stage.of_d2h (h : Stage cfg s) (hd : s.d2h ≠ []) :
    ∃ b, s.pc = .polling b ∧ cfg.mode = .cudaInline ∧
      IsLaunch s.launched s.launchSeq b ∧ Quiet s (s.launchSeq - 1) ∧
      D2hStage s b := by
  cases h with
  | polling b hpc hmode hb quiet d2h => exact ⟨b, hpc, hmode, hb, quiet, d2h⟩
  | idle _ _ hd' | prepared _ _ _ hd' | dummied _ _ _ hd'
  | ringing _ _ _ _ _ hd' | waiting _ _ _ hd' | found _ _ _ _ hd'
  | copied _ _ _ _ hd' => exact absurd hd' hd

/-- While anything but the model thread and the streams is busy, the model
thread waits for the completion number. -/
theorem Stage.of_busy (h : Stage cfg s)
    (hbusy : ∀ m, ¬ Quiet s m) :
    ∃ b, s.pc = .waiting b ∧ IsLaunch s.launched s.launchSeq b ∧ s.d2h = [] ∧
      (cfg.mode = .cudaInline → s.stream = []) ∧ Handoff cfg s b := by
  cases h with
  | waiting b hpc hb hd hstream handoff =>
      exact ⟨b, hpc, hb, hd, hstream, handoff⟩
  | idle _ quiet | prepared _ _ quiet | dummied _ _ quiet
  | polling _ _ _ _ quiet | ringing _ _ _ _ quiet | found _ _ _ quiet
  | copied _ _ _ quiet => exact absurd quiet (hbusy _)

/-! ## Carrying the rest of the invariant -/

/-- `t` records the same history as `s`. -/
structure SameHistory (s t : State Ctx Row) : Prop where
  launchSeq : t.launchSeq = s.launchSeq
  launched : t.launched = s.launched
  served : t.served = s.served
  copies : t.copies = s.copies
  consumed : t.consumed = s.consumed

/-- The GPU has seen in `t` what it has seen in `s`. -/
structure SameGpu (s t : State Ctx Row) : Prop where
  gpuOut : t.gpuOut = s.gpuOut
  inputReady : t.inputReady = s.inputReady
  outBuf : t.outBuf = s.outBuf

theorem Safe.congr (h : Safe cfg s) (hr : SameHistory s t) : Safe cfg t where
  served := by rw [hr.served, hr.launched]; exact h.served
  copies := by rw [hr.copies, hr.launched]; exact h.copies
  real := by rw [hr.consumed, hr.launched]; exact h.real
  dummy := by rw [hr.consumed]; exact h.dummy

theorem TagDue.of_pc {tag : Tag} (h : TagDue s tag) (hpc : t.pc = s.pc)
    (hseq : t.launchSeq = s.launchSeq) : TagDue t tag := by
  unfold TagDue at h ⊢
  rw [hpc, hseq]
  exact h

/-- A step that leaves the streams and the model thread where they are only
has to re-establish the stage. -/
theorem Inv.frame (hI : Inv cfg s) (hr : SameHistory s t) (hg : SameGpu s t)
    (hstream : t.stream = s.stream) (hpc : t.pc = s.pc)
    (hd2h : t.d2hDone ≤ t.launchSeq) (hstage : Stage cfg t) : Inv cfg t where
  safe := hI.safe.congr hr
  length := by rw [hr.launched, hr.launchSeq, hI.length]
  stage := hstage
  readyLe := by rw [hg.inputReady, hr.launchSeq]; exact hI.readyLe
  d2hLe := hd2h
  ready := by rw [hstream, hr.launchSeq, hpc]; exact hI.ready
  cpuStream := by rw [hstream]; exact hI.cpuStream
  pending := by rw [hstream, hr.launched, hg.outBuf]; exact hI.pending
  stream := by
    obtain ⟨tag, hholds, hok, hdue⟩ := hI.stream
    rw [hr.launched, hg.gpuOut, hstream]
    exact ⟨tag, hholds, hok, hdue.of_pc hpc hr.launchSeq⟩

/-- A step of the model thread that enqueues the items `l` (possibly none) on
the model stream. -/
theorem Inv.enqueue {l : List (StreamItem Ctx)} (hI : Inv cfg s)
    (hr : SameHistory s t) (hg : SameGpu s t) (hstream : t.stream = s.stream ++ l)
    (hd2h : t.d2hDone = s.d2hDone)
    (hready : ∀ n, StreamItem.recordReady n ∉ s.stream ++ l)
    (hcpu : cfg.mode = .cpuRequestThread → ∀ x, StreamItem.produceInputs x ∉ l)
    (hpending : ∀ n k, StreamItem.copyOut n k ∈ l →
      HasRows cfg s.launched n s.outBuf)
    (hok : ∀ tag, TagDue s tag →
      StreamOk s.launched tag l ∧ TagDue t (tag.final l))
    (hstage : Stage cfg t) : Inv cfg t where
  safe := hI.safe.congr hr
  length := by rw [hr.launched, hr.launchSeq, hI.length]
  stage := hstage
  readyLe := by rw [hg.inputReady, hr.launchSeq]; exact hI.readyLe
  d2hLe := by rw [hd2h, hr.launchSeq]; exact hI.d2hLe
  ready := by
    intro n hn
    rw [hstream] at hn
    exact absurd hn (hready n)
  cpuStream := by
    intro hmode x hx
    rw [hstream, List.mem_append] at hx
    rcases hx with hx | hx
    · exact hI.cpuStream hmode x hx
    · exact hcpu hmode x hx
  pending := by
    intro n k hn
    rw [hstream, List.mem_append] at hn
    rw [hr.launched, hg.outBuf]
    rcases hn with hn | hn
    · exact hI.pending n k hn
    · exact hpending n k hn
  stream := by
    obtain ⟨tag, hholds, hall, hdue⟩ := hI.stream
    obtain ⟨hok', hdue'⟩ := hok _ hdue
    rw [hr.launched, hg.gpuOut, hstream]
    refine ⟨tag, hholds, hall.append hok', ?_⟩
    rw [Tag.final_append]
    exact hdue'

/-- Outside the poll no input-ready event is pending. -/
theorem Inv.not_ready (hI : Inv cfg s) (hpc : ∀ b, s.pc ≠ .polling b) (n : Nat) :
    StreamItem.recordReady n ∉ s.stream := by
  intro hn
  obtain ⟨-, b, hb⟩ := hI.ready n hn
  exact hpc b hb

theorem Quiet.congr {m : Nat} (h : Quiet s m) (hpage : t.page = s.page)
    (hseen : t.dbSeen = s.dbSeen) (hdone : t.workerDone = s.workerDone)
    (hqueue : t.queue = s.queue) (hrpc : t.rpc = s.rpc) (hwpc : t.wpc = s.wpc) :
    Quiet t m where
  counters :=
    { dbSeq := by rw [hpage, h.counters.dbSeq]
      dbSeen := by rw [hseen, h.counters.dbSeen]
      workerDone := by rw [hdone, h.counters.workerDone]
      doneSeq := by rw [hpage, h.counters.doneSeq] }
  queue := by rw [hqueue, h.queue]
  rpc := by rw [hrpc, h.rpc]
  wpc := by rw [hwpc, h.wpc]

/-! ## The model thread -/

theorem prepareInputs_inv {b : Batch Ctx} (hI : Inv cfg s)
    (h : prepareInputs cfg b s = some t) : Inv cfg t := by
  unfold prepareInputs at h
  split at h
  case h_2 => cases h
  case h_1 hpc =>
    obtain ⟨quiet, hd⟩ := hI.stage.at_idle hpc
    have hready := hI.not_ready (by simp [hpc])
    have hquiet {t : State Ctx Row} := quiet.congr (t := t)
    split at h
    case h_1 hmode =>
      cases h
      refine hI.enqueue (l := [.produceInputs b.inputs]) ⟨rfl, rfl, rfl, rfl, rfl⟩
        ⟨rfl, rfl, rfl⟩ rfl rfl (by simpa using hready) (by simp [hmode]) (by simp)
        (fun tag _ => ⟨⟨trivial, trivial⟩, trivial⟩) ?_
      exact .prepared b rfl (hquiet rfl rfl rfl rfl rfl rfl) hd
        (by simp [finalSource_append, finalSource])
    case h_2 hmode =>
      cases h
      refine hI.enqueue (l := []) ⟨rfl, rfl, rfl, rfl, rfl⟩ ⟨rfl, rfl, rfl⟩
        (by simp) rfl (by simpa using hready) (by simp) (by simp)
        (fun tag _ => ⟨trivial, trivial⟩) ?_
      exact .prepared b rfl (hquiet rfl rfl rfl rfl rfl rfl) hd
        (finalSource_of_cpu _ _ (hI.cpuStream hmode))

theorem launch_inv (hI : Inv cfg s) (h : launch cfg s = some t) : Inv cfg t := by
  unfold launch at h
  split at h
  case h_2 => cases h
  case h_1 b hpc =>
    obtain ⟨quiet, hd, hsrc⟩ := hI.stage.at_prepared hpc
    have hready := hI.not_ready (by simp [hpc])
    have hlast : IsLaunch (s.launched ++ [b]) (s.launchSeq + 1) b :=
      hI.length ▸ isLaunch_last s.launched b
    obtain ⟨tag, hholds, hok, -⟩ := hI.stream
    have hreadyLe := hI.readyLe
    have hd2hLe := hI.d2hLe
    split at h
    case h_1 hmode =>
      cases h
      refine { safe := hI.safe.launch (c := b) rfl rfl rfl rfl
               length := by simp [hI.length]
               stage := .polling b rfl hmode hlast ?quiet (.held ?_ ?_ ?_ ?_)
               readyLe := by show s.inputReady ≤ s.launchSeq + 1; omega
               d2hLe := by show s.d2hDone ≤ s.launchSeq + 1; omega
               ready := ?_
               cpuStream := by simp [hmode]
               pending := ?_
               stream := ⟨tag, hholds.append b, ?_, trivial⟩ }
      case quiet => exact quiet.congr rfl rfl rfl rfl rfl rfl
      · simp [hd]
      · show s.d2hDone < s.launchSeq + 1
        omega
      · simpa [finalSource_append, finalSource] using hsrc
      · refine Or.inr ⟨s.stream, rfl, hready, ?_⟩
        show s.inputReady < s.launchSeq + 1
        omega
      · intro n hn
        simp only [List.mem_append, List.mem_singleton,
          StreamItem.recordReady.injEq] at hn
        exact ⟨hn.resolve_left (hready n), b, rfl⟩
      · intro n k hn
        simp only [List.mem_append, List.mem_singleton, reduceCtorEq,
          or_false] at hn
        exact (hI.pending n k hn).append b
      · exact (hok.append_launched b).append ⟨trivial, trivial⟩
    case h_2 hmode =>
      split at h
      case h_2 => cases h
      case h_1 hq =>
        cases h
        refine { safe := hI.safe.launch (c := b) rfl rfl rfl rfl
                 length := by simp [hI.length]
                 stage := .waiting b rfl hlast hd (by simp [hmode])
                   (.queued hmode ?_ ?_ rfl quiet.rpc quiet.wpc)
                 readyLe := by show s.inputReady ≤ s.launchSeq + 1; omega
                 d2hLe := by show s.d2hDone ≤ s.launchSeq + 1; omega
                 ready := fun n hn => absurd hn (hready n)
                 cpuStream := hI.cpuStream
                 pending := fun n k hn => (hI.pending n k hn).append b
                 stream := ⟨tag, hholds.append b, hok.append_launched b, trivial⟩ }
        · rw [← hsrc, finalSource_of_cpu _ _ (hI.cpuStream hmode)]
        · exact ⟨quiet.counters.dbSeq, quiet.counters.dbSeen,
            quiet.counters.workerDone, quiet.counters.doneSeq⟩

theorem pollD2h_inv (hI : Inv cfg s) (h : pollD2h s = some t) : Inv cfg t := by
  unfold pollD2h at h
  split at h
  case h_2 => cases h
  case h_1 b hpc =>
    obtain ⟨hmode, hb, quiet, d2h⟩ := hI.stage.at_polling hpc
    split at h
    case isFalse => cases h
    case isTrue hdone =>
      cases h
      -- every stage but the last still owes the D2H event
      obtain ⟨hd, hstream, staged⟩ :
          s.d2h = [] ∧ s.stream = [] ∧ Staged b s.inputBuf := by
        cases d2h with
        | finished hd hstream staged => exact ⟨hd, hstream, staged⟩
        | held _ hlt | copyIds _ hlt | copyQsl _ hlt | copyCtx _ hlt
        | record _ hlt => omega
      refine hI.enqueue (l := []) ⟨rfl, rfl, rfl, rfl, rfl⟩ ⟨rfl, rfl, rfl⟩
        (by simp) rfl (by simp [hstream]) (by simp) (by simp)
        (fun tag _ => ⟨trivial, trivial⟩) ?_
      exact .ringing b .numTokens rfl hb (quiet.congr rfl rfl rfl rfl rfl rfl)
        hd hstream staged trivial

theorem ringInline_inv (hI : Inv cfg s) (h : ringInline s = some t) :
    Inv cfg t := by
  unfold ringInline at h
  split at h
  case h_2 => cases h
  case h_1 b k hpc =>
    obtain ⟨hb, quiet, hd, hstream, staged, fields⟩ := hI.stage.at_ringing hpc
    have hcounters := quiet.counters
    cases h
    refine hI.enqueue (l := []) ⟨rfl, rfl, rfl, rfl, rfl⟩ ⟨rfl, rfl, rfl⟩
      (by simp) rfl (by simp [hstream]) (by simp) (by simp)
      (fun tag _ => ⟨trivial, by cases k <;> trivial⟩) ?_
    cases k with
    | numTokens =>
        refine .ringing b .numReqs rfl hb ?_ hd hstream staged rfl
        exact ⟨⟨hcounters.dbSeq, hcounters.dbSeen, hcounters.workerDone,
          hcounters.doneSeq⟩, quiet.queue, quiet.rpc, quiet.wpc⟩
    | numReqs =>
        refine .ringing b .seq rfl hb ?_ hd hstream staged ⟨fields, rfl⟩
        exact ⟨⟨hcounters.dbSeq, hcounters.dbSeen, hcounters.workerDone,
          hcounters.doneSeq⟩, quiet.queue, quiet.rpc, quiet.wpc⟩
    | seq =>
        refine .waiting b rfl hb hd (fun _ => hstream) ?_
        exact .rung ⟨rfl, hcounters.dbSeen, hcounters.workerDone,
          hcounters.doneSeq⟩ quiet.queue quiet.rpc quiet.wpc staged fields

theorem waitLookupDone_inv (hI : Inv cfg s) (h : waitLookupDone s = some t) :
    Inv cfg t := by
  unfold waitLookupDone at h
  split at h
  case h_2 => cases h
  case h_1 b hpc =>
    obtain ⟨hb, hd, hstream, handoff⟩ := hI.stage.at_waiting hpc
    have hready := hI.not_ready (by simp [hpc])
    have hpos := hb.1
    split at h
    case isFalse => cases h
    case isTrue hdone =>
      cases h
      -- before completion the done page still shows the previous launch
      obtain ⟨quiet, rows⟩ : Quiet s s.launchSeq ∧
          ∀ j < b.numTokens, s.outBuf j = b.rows cfg j := by
        cases handoff with
        | done quiet rows => exact ⟨quiet, rows⟩
        | queued _ _ counters | staging _ _ counters | rung counters
        | working counters =>
            have hprev := counters.doneSeq
            omega
      refine hI.enqueue (l := []) ⟨rfl, rfl, rfl, rfl, rfl⟩ ⟨rfl, rfl, rfl⟩
        (by simp) rfl (by simpa using hready) (by simp) (by simp)
        (fun tag _ => ⟨trivial, trivial⟩) ?_
      exact .found b rfl hb (quiet.congr rfl rfl rfl rfl rfl rfl) hd rows

theorem enqueueCopy_inv (hI : Inv cfg s) (h : enqueueCopy s = some t) :
    Inv cfg t := by
  unfold enqueueCopy at h
  split at h
  case h_2 => cases h
  case h_1 b hpc =>
    obtain ⟨hb, quiet, hd, rows⟩ := hI.stage.at_found hpc
    have hready := hI.not_ready (by simp [hpc])
    cases h
    refine hI.enqueue (l := [.copyOut s.launchSeq b.numTokens])
      ⟨rfl, rfl, rfl, rfl, rfl⟩ ⟨rfl, rfl, rfl⟩ rfl rfl (by simpa using hready)
      (by simp) ?_ (fun tag _ => ⟨⟨⟨b, hb, rfl⟩, trivial⟩, rfl⟩) ?_
    · intro n k hn
      obtain ⟨rfl, -⟩ : n = s.launchSeq ∧ k = b.numTokens := by simpa using hn
      exact ⟨b, hb, rows⟩
    · exact .copied b rfl hb (quiet.congr rfl rfl rfl rfl rfl rfl) hd

theorem signalDummyOutputs_inv {x : Inputs Ctx} {k : Nat} (hI : Inv cfg s)
    (h : signalDummyOutputs cfg x k s = some t) : Inv cfg t := by
  unfold signalDummyOutputs at h
  split at h
  case h_2 => cases h
  case h_1 hpc =>
    obtain ⟨quiet, hd⟩ := hI.stage.at_idle hpc
    have hready := hI.not_ready (by simp [hpc])
    have hquiet {t : State Ctx Row} := quiet.congr (t := t)
    split at h
    case h_1 hmode =>
      cases h
      exact hI.enqueue (l := [.produceInputs x, .zeroOut k])
        ⟨rfl, rfl, rfl, rfl, rfl⟩ ⟨rfl, rfl, rfl⟩ rfl rfl (by simpa using hready)
        (by simp [hmode]) (by simp)
        (fun tag _ => ⟨⟨trivial, trivial, trivial⟩, rfl⟩)
        (.dummied k rfl (hquiet rfl rfl rfl rfl rfl rfl) hd)
    case h_2 hmode =>
      cases h
      exact hI.enqueue (l := [.zeroOut k])
        ⟨rfl, rfl, rfl, rfl, rfl⟩ ⟨rfl, rfl, rfl⟩ rfl rfl (by simpa using hready)
        (by simp) (by simp) (fun tag _ => ⟨⟨trivial, trivial⟩, rfl⟩)
        (.dummied k rfl (hquiet rfl rfl rfl rfl rfl rfl) hd)

theorem enqueueForward_inv (hI : Inv cfg s) (h : enqueueForward s = some t) :
    Inv cfg t := by
  unfold enqueueForward at h
  split at h
  case h_3 => cases h
  case h_1 b hpc =>
    obtain ⟨quiet, hd⟩ := hI.stage.at_copied hpc
    have hready := hI.not_ready (by simp [hpc])
    cases h
    refine hI.enqueue (l := [.forward s.launchSeq])
      ⟨rfl, rfl, rfl, rfl, rfl⟩ ⟨rfl, rfl, rfl⟩ rfl rfl (by simpa using hready)
      (by simp) (by simp) (fun tag hdue => ⟨⟨?_, trivial⟩, trivial⟩)
      (.idle rfl (quiet.congr rfl rfl rfl rfl rfl rfl) hd)
    show tag = .rows s.launchSeq
    simpa [TagDue, hpc] using hdue
  case h_2 k hpc =>
    obtain ⟨quiet, hd⟩ := hI.stage.at_dummied hpc
    have hready := hI.not_ready (by simp [hpc])
    cases h
    refine hI.enqueue (l := [.dummyForward k])
      ⟨rfl, rfl, rfl, rfl, rfl⟩ ⟨rfl, rfl, rfl⟩ rfl rfl (by simpa using hready)
      (by simp) (by simp) (fun tag hdue => ⟨⟨?_, trivial⟩, trivial⟩)
      (.idle rfl (quiet.congr rfl rfl rfl rfl rfl rfl) hd)
    show tag = .zeros k
    simpa [TagDue, hpc] using hdue

/-! ## The GPU -/

/-- Popping a queued item keeps the D2H stream where it is. -/
theorem d2hStage_exec {item : StreamItem Ctx} {rest : List (StreamItem Ctx)}
    {b : Batch Ctx} (z : Row) (hstream : s.stream = item :: rest)
    (h : D2hStage s b) :
    D2hStage (item.exec z { s with stream := rest }) b := by
  cases h with
  | copyIds _ _ _ hnil | copyQsl _ _ _ hnil | copyCtx _ _ _ hnil
  | record _ _ hnil | finished _ hnil => simp [hnil] at hstream
  | held hd hlt hsrc hor =>
      refine .held (by simpa using hd) (by simpa using hlt) ?_ ?_
      · rw [exec_stream, finalSource_exec, ← hstream]
        exact hsrc
      · rcases hor with hnil | ⟨pre, hpre, hnot, hready⟩
        · simp [hnil] at hstream
        · rw [hstream] at hpre
          cases pre with
          | nil => exact Or.inl (by simpa using (List.cons.inj hpre).2)
          | cons x pre =>
              obtain ⟨rfl, rfl⟩ := List.cons.inj hpre
              refine Or.inr ⟨pre, by simp, fun n hn => hnot n (by simp [hn]), ?_⟩
              cases item with
              | recordReady n => exact absurd (List.mem_cons_self ..) (hnot n)
              | produceInputs x | copyOut n k | zeroOut k | forward n
              | dummyForward k => exact hready

/-- With CPU inputs a queued item never touches the mirrors. -/
theorem source_exec_of_cpu {item : StreamItem Ctx}
    {rest : List (StreamItem Ctx)} (z : Row) (hstream : s.stream = item :: rest)
    (hcpu : ∀ x, StreamItem.produceInputs x ∉ s.stream) :
    (item.exec z { s with stream := rest }).source = s.source := by
  cases item with
  | produceInputs x => exact absurd (by simp [hstream]) (hcpu x)
  | recordReady n | copyOut n k | zeroOut k | forward n | dummyForward k => rfl

theorem Quiet.exec {m : Nat} (h : Quiet s m) (z : Row) (item : StreamItem Ctx)
    (rest : List (StreamItem Ctx)) :
    Quiet (item.exec z { s with stream := rest }) m :=
  h.congr (by simp) (by simp) (by simp) (by simp) (by simp) (by simp)

theorem Counters.exec {i j k : Nat} (h : Counters s i j k) (z : Row)
    (item : StreamItem Ctx) (rest : List (StreamItem Ctx)) :
    Counters (item.exec z { s with stream := rest }) i j k :=
  ⟨by simpa using h.dbSeq, by simpa using h.dbSeen, by simpa using h.workerDone,
    by simpa using h.doneSeq⟩

theorem handoff_exec {item : StreamItem Ctx} {rest : List (StreamItem Ctx)}
    {b : Batch Ctx} (z : Row) (hstream : s.stream = item :: rest)
    (hcpu : cfg.mode = .cpuRequestThread →
      ∀ x, StreamItem.produceInputs x ∉ s.stream)
    (h : Handoff cfg s b) :
    Handoff cfg (item.exec z { s with stream := rest }) b := by
  cases h with
  | queued hmode hsrc counters hq hr hw =>
      refine .queued hmode ?_ (by simpa using counters.exec z item rest)
        (by simpa using hq) (by simpa using hr) (by simpa using hw)
      rw [source_exec_of_cpu z hstream (hcpu hmode), hsrc]
  | staging hmode hsrc counters hq hr hw =>
      refine .staging hmode ?_ (by simpa using counters.exec z item rest)
        (by simpa using hq) ?_ (by simpa using hw)
      · rw [source_exec_of_cpu z hstream (hcpu hmode), hsrc]
      · cases hr with
        | ids hr => exact .ids (by simpa using hr)
        | qsl hr ids => exact .qsl (by simpa using hr) (by simpa using ids)
        | ctx hr ids qsl =>
            exact .ctx (by simpa using hr) (by simpa using ids)
              (by simpa using qsl)
        | ring k hr staged fields =>
            exact .ring k (by simpa using hr) (by simpa using staged)
              (by simpa using fields)
  | rung counters hq hr hw staged fields =>
      exact .rung (by simpa using counters.exec z item rest) (by simpa using hq)
        (by simpa using hr) (by simpa using hw) (by simpa using staged)
        (by simpa using fields)
  | working counters hq hr hw =>
      refine .working (by simpa using counters.exec z item rest)
        (by simpa using hq) (by simpa using hr) ?_
      cases hw with
      | saw hw staged => exact .saw (by simpa using hw) (by simpa using staged)
      | readIds hw qsl ctx =>
          exact .readIds (by simpa using hw) (by simpa using qsl)
            (by simpa using ctx)
      | readQsl hw ctx => exact .readQsl (by simpa using hw) (by simpa using ctx)
      | writing i hw rows =>
          exact .writing i (by simpa using hw) (by simpa using rows)
  | done quiet rows =>
      exact .done (by simpa using quiet.exec z item rest) (by simpa using rows)

/-- Popping a queued item keeps the stage. -/
theorem stage_exec {item : StreamItem Ctx} {rest : List (StreamItem Ctx)}
    (z : Row) (hstream : s.stream = item :: rest) (hI : Inv cfg s) :
    Stage cfg (item.exec z { s with stream := rest }) := by
  have hquiet {m : Nat} (h : Quiet s m) := h.exec z item rest
  cases hI.stage with
  | idle hpc quiet hd =>
      exact .idle (by simpa using hpc) (by simpa using hquiet quiet)
        (by simpa using hd)
  | prepared b hpc quiet hd hsrc =>
      refine .prepared b (by simpa using hpc) (by simpa using hquiet quiet)
        (by simpa using hd) ?_
      rw [exec_stream, finalSource_exec, ← hstream]
      exact hsrc
  | dummied k hpc quiet hd =>
      exact .dummied k (by simpa using hpc) (by simpa using hquiet quiet)
        (by simpa using hd)
  | polling b hpc hmode hb quiet d2h =>
      exact .polling b (by simpa using hpc) hmode (by simpa using hb)
        (by simpa using hquiet quiet) (d2hStage_exec z hstream d2h)
  | ringing b k hpc hb quiet hd hnil => simp [hnil] at hstream
  | waiting b hpc hb hd hnil handoff =>
      refine .waiting b (by simpa using hpc) (by simpa using hb)
        (by simpa using hd) (fun hmode => ?_)
        (handoff_exec z hstream hI.cpuStream handoff)
      simp [hnil hmode] at hstream
  | found b hpc hb quiet hd rows =>
      exact .found b (by simpa using hpc) (by simpa using hb)
        (by simpa using hquiet quiet) (by simpa using hd) (by simpa using rows)
  | copied b hpc hb quiet hd =>
      exact .copied b (by simpa using hpc) (by simpa using hb)
        (by simpa using hquiet quiet) (by simpa using hd)

theorem safe_exec {item : StreamItem Ctx} {rest : List (StreamItem Ctx)}
    (hstream : s.stream = item :: rest) (hI : Inv cfg s) :
    Safe cfg (item.exec cfg.zeroRow { s with stream := rest }) := by
  obtain ⟨tag, hholds, hok, -⟩ := hI.stream
  rw [hstream] at hok
  have hallowed := hok.1
  have hsafe := hI.safe
  cases item with
  | produceInputs x | recordReady n | zeroOut k =>
      exact hsafe.congr ⟨rfl, rfl, rfl, rfl, rfl⟩
  | copyOut n k =>
      refine ⟨hsafe.served, ?_, hsafe.real, hsafe.dummy⟩
      intro c hc
      rcases List.mem_append.1 hc with hc | hc
      · exact hsafe.copies c hc
      · obtain rfl := List.mem_singleton.1 hc
        obtain ⟨b, hb, hrows⟩ := hI.pending n k (by simp [hstream])
        obtain ⟨b', hb', rfl⟩ := hallowed
        obtain rfl : b' = b := by
          simpa using hb'.2.symm.trans hb.2
        exact ⟨b', hb, rfl, hrows⟩
  | forward n =>
      refine ⟨hsafe.served, hsafe.copies, ?_, ?_⟩
      · intro m rows hm
        rcases List.mem_append.1 hm with hm | hm
        · exact hsafe.real m rows hm
        · obtain ⟨rfl, rfl⟩ : m = n ∧ rows = s.gpuOut := by simpa using hm
          have htag : tag = .rows m := hallowed
          rw [htag] at hholds
          exact hholds
      · intro k rows hk
        exact hsafe.dummy k rows (by simpa [StreamItem.exec] using hk)
  | dummyForward k =>
      refine ⟨hsafe.served, hsafe.copies, ?_, ?_⟩
      · intro m rows hm
        exact hsafe.real m rows (by simpa [StreamItem.exec] using hm)
      · intro m rows hm
        rcases List.mem_append.1 hm with hm | hm
        · exact hsafe.dummy m rows hm
        · obtain ⟨rfl, rfl⟩ : m = k ∧ rows = s.gpuOut := by simpa using hm
          have htag : tag = .zeros m := hallowed
          rw [htag] at hholds
          exact hholds

/-- The buffer agrees with the tag after the item as it did before. -/
theorem holds_exec {item : StreamItem Ctx} {rest : List (StreamItem Ctx)}
    {tag : Tag} (hstream : s.stream = item :: rest) (hI : Inv cfg s)
    (hallowed : tag.Allows s.launched item)
    (hholds : tag.Holds cfg s.launched s.gpuOut) :
    (tag.after item).Holds cfg s.launched
      (item.exec cfg.zeroRow { s with stream := rest }).gpuOut := by
  cases item with
  | copyOut n k =>
      obtain ⟨b, hb, hrows⟩ := hI.pending n k (by simp [hstream])
      obtain ⟨b', hb', rfl⟩ := hallowed
      obtain rfl : b' = b := by simpa using hb'.2.symm.trans hb.2
      refine ⟨b', hb, fun i hi => ?_⟩
      rw [← hrows i hi]
      exact overwrite_of_lt hi ..
  | zeroOut k =>
      exact fun i hi => overwrite_of_lt hi (fun _ => cfg.zeroRow) s.gpuOut
  | produceInputs x | recordReady n | forward n | dummyForward k => exact hholds

theorem execStream_inv (hI : Inv cfg s) (h : execStream cfg s = some t) :
    Inv cfg t := by
  unfold execStream at h
  split at h
  case h_1 => cases h
  case h_2 item rest hstream =>
    cases h
    obtain ⟨tag, hholds, hok, hdue⟩ := hI.stream
    rw [hstream] at hok hdue
    have hmem : ∀ x ∈ rest, x ∈ s.stream := by
      intro x hx
      rw [hstream]
      exact List.mem_cons_of_mem _ hx
    refine { safe := safe_exec hstream hI
             length := by simpa using hI.length
             stage := stage_exec _ hstream hI
             readyLe := ?_
             d2hLe := by simpa using hI.d2hLe
             ready := ?_
             cpuStream := ?_
             pending := ?_
             stream := ⟨tag.after item, ?_, ?_, ?_⟩ }
    · have hle := hI.readyLe
      cases item with
      | recordReady n => 
          exact Nat.le_of_eq (hI.ready n (by simp [hstream])).1
      | produceInputs x | copyOut n k | zeroOut k | forward n
      | dummyForward k => exact hle
    · intro n hn
      rw [exec_stream] at hn
      rw [exec_launchSeq, exec_pc]
      exact hI.ready n (hmem _ hn)
    · intro hmode x hx
      rw [exec_stream] at hx
      exact hI.cpuStream hmode x (hmem _ hx)
    · intro n k hn
      rw [exec_stream] at hn
      rw [exec_launched, exec_outBuf]
      exact hI.pending n k (hmem _ hn)
    · rw [exec_launched]
      exact holds_exec (s := s) hstream hI hok.1 hholds
    · rw [exec_launched, exec_stream]
      exact hok.2
    · rw [exec_stream]
      exact hdue.of_pc (exec_pc ..) (exec_launchSeq ..)

theorem execD2h_inv (hI : Inv cfg s) (h : execD2h s = some t) : Inv cfg t := by
  have hne : s.d2h ≠ [] := by
    intro hnil
    simp [execD2h, hnil] at h
  obtain ⟨b, hpc, hmode, hb, quiet, d2h⟩ := hI.stage.of_d2h hne
  have hquiet {t : State Ctx Row} := quiet.congr (t := t)
  have hle := hI.d2hLe
  cases d2h with
  | held hd hlt hsrc hor =>
      simp only [execD2h, hd] at h
      split at h
      case isFalse => cases h
      case isTrue hready =>
        cases h
        -- the event has completed, so the model stream has drained
        have hnil : s.stream = [] := by
          rcases hor with hnil | ⟨pre, -, -, hpre⟩
          · exact hnil
          · omega
        refine hI.frame ⟨rfl, rfl, rfl, rfl, rfl⟩ ⟨rfl, rfl, rfl⟩ rfl rfl hle ?_
        refine .polling b hpc hmode hb (hquiet rfl rfl rfl rfl rfl rfl)
          (.copyIds rfl hlt ?_ hnil)
        simpa [hnil] using hsrc
  | copyIds hd hlt hsrc hnil =>
      simp only [execD2h, hd] at h
      cases h
      refine hI.frame ⟨rfl, rfl, rfl, rfl, rfl⟩ ⟨rfl, rfl, rfl⟩ rfl rfl hle ?_
      refine .polling b hpc hmode hb (hquiet rfl rfl rfl rfl rfl rfl)
        (.copyQsl rfl hlt hsrc hnil ?_)
      simp [Inputs.copyInputIds, hsrc]
  | copyQsl hd hlt hsrc hnil ids =>
      simp only [execD2h, hd] at h
      cases h
      refine hI.frame ⟨rfl, rfl, rfl, rfl, rfl⟩ ⟨rfl, rfl, rfl⟩ rfl rfl hle ?_
      refine .polling b hpc hmode hb (hquiet rfl rfl rfl rfl rfl rfl)
        (.copyCtx rfl hlt hsrc hnil ids ?_)
      simp [Inputs.copyQueryStartLoc, hsrc]
  | copyCtx hd hlt hsrc hnil ids qsl =>
      simp only [execD2h, hd] at h
      cases h
      refine hI.frame ⟨rfl, rfl, rfl, rfl, rfl⟩ ⟨rfl, rfl, rfl⟩ rfl rfl hle ?_
      refine .polling b hpc hmode hb (hquiet rfl rfl rfl rfl rfl rfl)
        (.record rfl hlt hnil ⟨ids, qsl, ?_⟩)
      simp [Inputs.copyNgramContext, hsrc]
  | record hd hlt hnil staged =>
      simp only [execD2h, hd] at h
      cases h
      refine hI.frame ⟨rfl, rfl, rfl, rfl, rfl⟩ ⟨rfl, rfl, rfl⟩ rfl rfl
        (Nat.le_refl _) ?_
      exact .polling b hpc hmode hb (hquiet rfl rfl rfl rfl rfl rfl)
        (.finished rfl hnil staged)
  | finished hd => exact absurd hd hne

/-! ## The request thread -/

theorem requestThread_inv (hI : Inv cfg s) (h : requestThread s = some t) :
    Inv cfg t := by
  have hbusy : ∀ m, ¬ Quiet s m := by
    intro m hm
    simp [requestThread, hm.rpc, hm.queue] at h
  obtain ⟨b, hpc, hb, hd, hstream, handoff⟩ := hI.stage.of_busy hbusy
  have hle := hI.d2hLe
  cases handoff with
  | done quiet => exact absurd quiet (hbusy _)
  | rung counters hq hr => simp [requestThread, hr, hq] at h
  | working counters hq hr => simp [requestThread, hr, hq] at h
  | queued hmode hsrc counters hq hr hw =>
      simp only [requestThread, hr, hq] at h
      cases h
      refine hI.frame ⟨rfl, rfl, rfl, rfl, rfl⟩ ⟨rfl, rfl, rfl⟩ rfl rfl hle ?_
      refine .waiting b hpc hb hd hstream (.staging hmode hsrc ?_ rfl (.ids rfl) hw)
      exact ⟨counters.dbSeq, counters.dbSeen, counters.workerDone,
        counters.doneSeq⟩
  | staging hmode hsrc counters hq hr hw =>
      have hcounters : ∀ u : State Ctx Row, u.launchSeq = s.launchSeq →
          u.page.dbSeq = s.page.dbSeq → u.dbSeen = s.dbSeen →
          u.workerDone = s.workerDone → u.page.doneSeq = s.page.doneSeq →
          Counters u (u.launchSeq - 1) (u.launchSeq - 1) (u.launchSeq - 1) := by
        intro u h₁ h₂ h₃ h₄ h₅
        rw [h₁]
        exact ⟨h₂ ▸ counters.dbSeq, h₃ ▸ counters.dbSeen,
          h₄ ▸ counters.workerDone, h₅ ▸ counters.doneSeq⟩
      cases hr with
      | ids hr =>
          simp only [requestThread, hr] at h
          cases h
          refine hI.frame ⟨rfl, rfl, rfl, rfl, rfl⟩ ⟨rfl, rfl, rfl⟩ rfl rfl hle ?_
          refine .waiting b hpc hb hd hstream (.staging hmode hsrc
            (hcounters _ rfl rfl rfl rfl rfl) hq (.qsl rfl ?_) hw)
          simp [Inputs.copyInputIds, hsrc]
      | qsl hr ids =>
          simp only [requestThread, hr] at h
          cases h
          refine hI.frame ⟨rfl, rfl, rfl, rfl, rfl⟩ ⟨rfl, rfl, rfl⟩ rfl rfl hle ?_
          refine .waiting b hpc hb hd hstream (.staging hmode hsrc
            (hcounters _ rfl rfl rfl rfl rfl) hq (.ctx rfl ids ?_) hw)
          simp [Inputs.copyQueryStartLoc, hsrc]
      | ctx hr ids qsl =>
          simp only [requestThread, hr] at h
          cases h
          refine hI.frame ⟨rfl, rfl, rfl, rfl, rfl⟩ ⟨rfl, rfl, rfl⟩ rfl rfl hle ?_
          refine .waiting b hpc hb hd hstream (.staging hmode hsrc
            (hcounters _ rfl rfl rfl rfl rfl) hq
            (.ring .numTokens rfl ⟨ids, qsl, ?_⟩ trivial) hw)
          simp [Inputs.copyNgramContext, hsrc]
      | ring k hr staged fields =>
          simp only [requestThread, hr] at h
          cases h
          refine hI.frame ⟨rfl, rfl, rfl, rfl, rfl⟩ ⟨rfl, rfl, rfl⟩ rfl rfl hle ?_
          refine .waiting b hpc hb hd hstream ?_
          cases k with
          | numTokens =>
              exact .staging hmode hsrc (hcounters _ rfl rfl rfl rfl rfl) hq
                (.ring .numReqs rfl staged rfl) hw
          | numReqs =>
              exact .staging hmode hsrc (hcounters _ rfl rfl rfl rfl rfl) hq
                (.ring .seq rfl staged ⟨fields, rfl⟩) hw
          | seq =>
              exact .rung ⟨rfl, counters.dbSeen, counters.workerDone,
                counters.doneSeq⟩ hq rfl hw staged fields

/-! ## The offload worker -/

theorem see_inv (hI : Inv cfg s) (h : see s = some t) : Inv cfg t := by
  unfold see at h
  split at h
  case h_2 => cases h
  case h_1 hw =>
    split at h
    case isFalse => cases h
    case isTrue hlt =>
      cases h
      have hbusy : ∀ m, ¬ Quiet s m := by
        intro m hm
        have h₁ := hm.counters.dbSeen
        have h₂ := hm.counters.dbSeq
        omega
      obtain ⟨b, hpc, hb, hd, hstream, handoff⟩ := hI.stage.of_busy hbusy
      refine hI.frame ⟨rfl, rfl, rfl, rfl, rfl⟩ ⟨rfl, rfl, rfl⟩ rfl rfl
        hI.d2hLe (.waiting b hpc hb hd hstream ?_)
      cases handoff with
      | done quiet => exact absurd quiet (hbusy _)
      | queued _ _ counters | staging _ _ counters | working counters =>
          have h₁ := counters.dbSeen
          have h₂ := counters.dbSeq
          omega
      | rung counters hq hr _ staged fields =>
          refine .working ?_ hq hr (.saw ?_ staged)
          · exact ⟨counters.dbSeq, counters.dbSeq, counters.workerDone,
              counters.doneSeq⟩
          · rw [fields.1, fields.2]

/-- A busy worker serves the launch the model thread waits for. -/
theorem Stage.of_working (h : Stage cfg s) (hw : s.wpc ≠ .idle) :
    ∃ b, s.pc = .waiting b ∧ IsLaunch s.launched s.launchSeq b ∧ s.d2h = [] ∧
      (cfg.mode = .cudaInline → s.stream = []) ∧
      Counters s s.launchSeq s.launchSeq (s.launchSeq - 1) ∧ s.queue = none ∧
      s.rpc = .idle ∧ WorkingStage cfg s b := by
  obtain ⟨b, hpc, hb, hd, hstream, handoff⟩ :=
    h.of_busy (fun m hm => hw hm.wpc)
  cases handoff with
  | working counters hq hr working =>
      exact ⟨b, hpc, hb, hd, hstream, counters, hq, hr, working⟩
  | done quiet => exact absurd quiet.wpc hw
  | queued _ _ _ _ _ hw' | staging _ _ _ _ _ hw' | rung _ _ _ hw' =>
      exact absurd hw' hw

theorem readInputs_inv (hI : Inv cfg s) (h : readInputs cfg s = some t) :
    Inv cfg t := by
  have hw : s.wpc ≠ .idle := by
    intro hw
    simp [readInputs, hw] at h
  obtain ⟨b, hpc, hb, hd, hstream, counters, hq, hr, working⟩ :=
    hI.stage.of_working hw
  have hcounters : ∀ u : State Ctx Row, u.launchSeq = s.launchSeq →
      u.page = s.page → u.dbSeen = s.dbSeen → u.workerDone = s.workerDone →
      Counters u u.launchSeq u.launchSeq (u.launchSeq - 1) := by
    intro u h₁ h₂ h₃ h₄
    rw [h₁]
    exact ⟨h₂ ▸ counters.dbSeq, h₃ ▸ counters.dbSeen,
      h₄ ▸ counters.workerDone, h₂ ▸ counters.doneSeq⟩
  have hle := hI.d2hLe
  cases working with
  | writing i hw => simp [readInputs, hw] at h
  | saw hw staged =>
      simp only [readInputs, hw] at h
      cases h
      refine hI.frame ⟨rfl, rfl, rfl, rfl, rfl⟩ ⟨rfl, rfl, rfl⟩ rfl rfl hle ?_
      refine .waiting b hpc hb hd hstream (.working
        (hcounters _ rfl rfl rfl rfl) hq hr (.readIds ?_ staged.qsl staged.ctx))
      simp [Batch.slices, slice_comp, staged.ids]
  | readIds hw qsl ctx =>
      simp only [readInputs, hw] at h
      cases h
      refine hI.frame ⟨rfl, rfl, rfl, rfl, rfl⟩ ⟨rfl, rfl, rfl⟩ rfl rfl hle ?_
      refine .waiting b hpc hb hd hstream (.working
        (hcounters _ rfl rfl rfl rfl) hq hr (.readQsl ?_ ctx))
      simp [Batch.slices, qsl]
  | readQsl hw ctx =>
      simp only [readInputs, hw] at h
      cases h
      have hslices : (⟨(b.slices cfg).inputIds, (b.slices cfg).queryStartLoc,
          slice b.numReqs s.inputBuf.ngramContext⟩ : Slices Ctx) =
          b.slices cfg := by
        simp [Batch.slices, ctx]
      refine { safe := ⟨?_, hI.safe.copies, hI.safe.real, hI.safe.dummy⟩
               length := hI.length
               stage := .waiting b hpc hb hd hstream (.working
                 (hcounters _ rfl rfl rfl rfl) hq hr
                 (.writing 0 (by simp [hslices]) (by simp)))
               readyLe := hI.readyLe, d2hLe := hle, ready := hI.ready
               cpuStream := hI.cpuStream, pending := hI.pending
               stream := hI.stream }
      intro r hmem
      rcases List.mem_append.1 hmem with hmem | hmem
      · exact hI.safe.served r hmem
      · obtain rfl := List.mem_singleton.1 hmem
        exact ⟨b, counters.dbSeen ▸ hb, hslices, rfl⟩

theorem writeOutBuf_inv (hI : Inv cfg s) (hcalm : Calm cfg s .writeOutBuf)
    (h : writeOutBuf cfg s = some t) : Inv cfg t := by
  have hw : s.wpc ≠ .idle := by
    intro hw
    simp [writeOutBuf, hw] at h
  obtain ⟨b, hpc, hb, hd, hstream, counters, hq, hr, working⟩ :=
    hI.stage.of_working hw
  have hnone : ∀ n k, StreamItem.copyOut n k ∉ s.stream := by
    intro n k hn
    cases hmode : cfg.mode with
    | cudaInline => simp [hstream hmode] at hn
    | cpuRequestThread => exact absurd (hcalm hmode _ hn) (by simp [StreamItem.isCopyOut])
  cases working with
  | saw hw | readIds hw | readQsl hw => simp [writeOutBuf, hw] at h
  | writing i hw rows =>
      simp only [writeOutBuf, hw] at h
      split at h
      case isFalse => cases h
      case isTrue hlt =>
        cases h
        refine { safe := hI.safe.congr ⟨rfl, rfl, rfl, rfl, rfl⟩
                 length := hI.length
                 stage := .waiting b hpc hb hd hstream (.working ?_ hq hr
                   (.writing (i + 1) rfl ?_))
                 readyLe := hI.readyLe, d2hLe := hI.d2hLe, ready := hI.ready
                 cpuStream := hI.cpuStream
                 pending := fun n k hn => absurd hn (hnone n k)
                 stream := hI.stream }
        · exact ⟨counters.dbSeq, counters.dbSeen, counters.workerDone,
            counters.doneSeq⟩
        · intro j hj
          by_cases hji : j = i
          · simp [hji, Batch.rows]
          · simp only [hji, if_false]
            exact rows j (by omega)

theorem publish_inv (hI : Inv cfg s) (h : publish s = some t) : Inv cfg t := by
  have hw : s.wpc ≠ .idle := by
    intro hw
    simp [publish, hw] at h
  obtain ⟨b, hpc, hb, hd, hstream, counters, hq, hr, working⟩ :=
    hI.stage.of_working hw
  cases working with
  | saw hw | readIds hw | readQsl hw => simp [publish, hw] at h
  | writing i hw rows =>
      simp only [publish, hw] at h
      split at h
      case isTrue => cases h
      case isFalse hge =>
        cases h
        have hpos := hb.1
        have hdone : s.workerDone + 1 = s.launchSeq := by
          rw [counters.workerDone]
          omega
        refine hI.frame ⟨rfl, rfl, rfl, rfl, rfl⟩ ⟨rfl, rfl, rfl⟩ rfl rfl
          hI.d2hLe (.waiting b hpc hb hd hstream (.done ?_ ?_))
        · exact ⟨⟨counters.dbSeq, counters.dbSeen, hdone, hdone⟩, hq, hr, rfl⟩
        · intro j hj
          exact rows j (by omega)

/-! ## One step, any party -/

theorem step_inv {a : Action Ctx} (hI : Inv cfg s) (hcalm : Calm cfg s a)
    (h : step cfg s a = some t) : Inv cfg t := by
  cases a with
  | prepareInputs b => exact prepareInputs_inv hI h
  | launch => exact launch_inv hI h
  | pollD2h => exact pollD2h_inv hI h
  | ringInline => exact ringInline_inv hI h
  | waitLookupDone => exact waitLookupDone_inv hI h
  | enqueueCopy => exact enqueueCopy_inv hI h
  | signalDummyOutputs x k => exact signalDummyOutputs_inv hI h
  | enqueueForward => exact enqueueForward_inv hI h
  | execStream => exact execStream_inv hI h
  | execD2h => exact execD2h_inv hI h
  | requestThread => exact requestThread_inv hI h
  | see => exact see_inv hI h
  | readInputs => exact readInputs_inv hI h
  | writeOutBuf => exact writeOutBuf_inv hI hcalm h
  | publish => exact publish_inv hI h

theorem init_inv (cfg : Config Ctx Row) (x : Inputs Ctx) (rows : Nat → Row) :
    Inv cfg (init x rows) where
  safe := ⟨by simp [init], by simp [init], by simp [init], by simp [init]⟩
  length := rfl
  stage := .idle rfl ⟨⟨rfl, rfl, rfl, rfl⟩, rfl, rfl, rfl⟩ rfl
  readyLe := Nat.le_refl _
  d2hLe := Nat.le_refl _
  ready := by simp [init]
  cpuStream := by simp [init]
  pending := by simp [init]
  stream := ⟨.any, trivial, trivial, trivial⟩

end FlashNext.Ports.PleHandoff
