import FlashNext.Ports.PleDisk

/-!
# Crash safety of the PLE table on disk

A marker is never found beside a data file that it does not describe, as long
as no boot opens the marker after a failed flush or stops while it is open.
Both happen: a failed flush is ignored, and an open marker does not parse.
-/

namespace FlashNext.Ports.PleDisk

open FlashNext.Verified.CachedFiles FlashNext.Verified.StepRuns

variable {table : Tables}

/-! ## What a boot leaves -/

theorem execAll_append (spec : TableSpec) (ops ops' : List FileOp) (disk : Disk) :
    execAll table spec (ops ++ ops') disk = execAll table spec ops' (execAll table spec ops disk) :=
  List.foldl_append

/-- Only the last two operations of a boot set the marker. -/
theorem execAll_done (spec : TableSpec) {ops : List FileOp}
    (hops : ∀ op ∈ ops, op ≠ .openDone ∧ op ≠ .closeDone) {disk : Disk}
    (hdone : disk.done = none) : (execAll table spec ops disk).done = none := by
  induction ops generalizing disk with
  | nil => exact hdone
  | cons op ops ih =>
      have hrest := fun op' hop' => hops op' (List.mem_cons_of_mem op hop')
      have hop := hops op List.mem_cons_self
      apply ih hrest
      cases op with
      | removeDone => rfl
      | openBin => exact hdone
      | truncateBin n => exact hdone
      | writeRow row => exact hdone
      | flushBin result => exact hdone
      | openDone => exact absurd rfl hop.1
      | closeDone => exact absurd rfl hop.2

/-- The rows, written in any order. -/
theorem execAll_rows (spec : TableSpec) (rows : List Nat) (disk : Disk) :
    execAll table spec (rows.map .writeRow) disk =
      { disk with
        bin := disk.bin.map fun f =>
          rows.foldl
            (fun f row => f.write (row * spec.rowBytes) spec.rowBytes (table spec)) f } := by
  induction rows generalizing disk with
  | nil =>
      show disk = { disk with bin := disk.bin.map fun f => f }
      rw [Option.map_id']
  | cons row rows ih =>
      show execAll table spec (rows.map .writeRow) (FileOp.exec table spec (.writeRow row) disk) = _
      rw [ih]
      show Disk.mk (Option.map _ (Option.map _ disk.bin)) disk.done = _
      rw [Option.map_map]
      rfl

theorem Boot.length_ops (b : Boot) : b.ops.length = b.markerAt + 2 := by
  simp [Boot.ops, Boot.attachOps, Boot.loadOps, Boot.finalizeOps, Boot.markerAt]

/-- A boot that is stopped before the marker leaves none, if it did anything. -/
theorem stopped_done (b : Boot) (disk : Disk) (hpos : 0 < b.stopAfter)
    (hstop : b.stopAfter ≤ b.markerAt) :
    (execAll table b.spec (b.ops.take b.stopAfter) disk).done = none := by
  obtain ⟨k, hk⟩ : ∃ k, b.stopAfter = k + 1 := ⟨b.stopAfter - 1, by omega⟩
  have hsplit : b.ops = (.removeDone :: ([.openBin, .truncateBin b.spec.nbytes] ++ b.loadOps ++
      [.flushBin b.flush])) ++ [.openDone, .closeDone] := by
    simp [Boot.ops, Boot.attachOps, Boot.finalizeOps]
  have hlength : k + 1 ≤ (FileOp.removeDone :: ([.openBin, .truncateBin b.spec.nbytes] ++
      b.loadOps ++ [.flushBin b.flush])).length := by
    simp [Boot.loadOps, Boot.markerAt] at hstop ⊢
    omega
  rw [hk, hsplit, List.take_append_of_le_length hlength, List.take_succ_cons]
  show (execAll table b.spec _ (FileOp.exec table b.spec .removeDone disk)).done = none
  apply execAll_done b.spec _ rfl
  intro op hop
  have hmem := List.mem_of_mem_take hop
  simp only [Boot.loadOps, List.mem_append, List.mem_cons, List.mem_map, List.not_mem_nil,
    or_false] at hmem
  rcases hmem with (hopen | hrow) | hflush
  · rcases hopen with rfl | rfl <;> exact ⟨FileOp.noConfusion, FileOp.noConfusion⟩
  · obtain ⟨row, -, rfl⟩ := hrow
    exact ⟨FileOp.noConfusion, FileOp.noConfusion⟩
  · subst hflush
    exact ⟨FileOp.noConfusion, FileOp.noConfusion⟩

/-- A boot that is not stopped leaves the table and its marker. -/
theorem finished_disk (b : Boot) (hall : b.WritesAll) (hflush : b.flush = .ok) (disk : Disk) :
    ∃ bin, execAll table b.spec b.ops disk =
        ⟨some bin, some (.whole b.spec.shape b.spec.dtype.str)⟩ ∧
      bin.Holds b.spec.nbytes (table b.spec) := by
  let start : CachedFile UInt8 := (disk.bin.getD CachedFile.empty).truncate b.spec.nbytes
  let rows := b.rowOrder.foldl
    (fun f row => f.write (row * b.spec.rowBytes) b.spec.rowBytes (table b.spec)) start
  refine ⟨rows.flush .ok, ?_, ?_⟩
  · have hattach : execAll table b.spec b.attachOps disk = ⟨some start, none⟩ := rfl
    rw [Boot.ops, execAll_append, execAll_append, hattach, Boot.loadOps, execAll_rows,
      Boot.finalizeOps, hflush]
    rfl
  · apply CachedFile.flush_holds
    · exact CachedFile.foldl_write_size _ _ _ _ start
    · intro i hi
      apply CachedFile.foldl_write
      have hbytes : 0 < b.spec.rowBytes := Nat.pos_of_mul_pos_left (Nat.zero_lt_of_lt hi)
      have hrow : i / b.spec.rowBytes < b.spec.rows := (Nat.div_lt_iff_lt_mul hbytes).mpr hi
      have hlow := Nat.div_mul_le_self i b.spec.rowBytes
      have hhigh := Nat.lt_div_mul_add hbytes (a := i)
      exact Or.inr ⟨i / b.spec.rowBytes, hall _ hrow, hlow, hhigh⟩

/-! ## The invariant -/

/-- A marker is whole, and describes what an earlier boot wrote and flushed. -/
structure Sound (table : Tables) (boots : List Boot) (disk : Disk) : Prop where
  notTorn : disk.done ≠ some .torn
  held : ∀ shape dtype, disk.done = some (.whole shape dtype) →
    ∃ b ∈ boots, shape = b.spec.shape ∧ dtype = b.spec.dtype.str ∧ b.Finished ∧
      ∃ bin, disk.bin = some bin ∧ bin.Holds b.spec.nbytes (table b.spec)

/-- A boot that rewrites the table opens the marker only after a flush that
succeeded, and is not stopped before it has closed it. -/
def Careful (disk : Disk) (b : Boot) : Prop :=
  pleDiskAttach disk b.spec = .ok (some false) →
    b.stopAfter ≤ b.markerAt ∨ b.flush = .ok ∧ b.stopAfter ≠ b.markerAt + 1

theorem Sound.lose {boots : List Boot} {disk : Disk} (h : Sound table boots disk)
    (lost : Nat → Bool) : Sound table boots (disk.lose lost) where
  notTorn := h.notTorn
  held := by
    intro shape dtype hdone
    obtain ⟨b, hb, hshape, hdtype, hfinished, bin, hbin, hholds⟩ := h.held shape dtype hdone
    refine ⟨b, hb, hshape, hdtype, hfinished, bin.lose lost, ?_, hholds.lose lost⟩
    show disk.bin.map _ = some (bin.lose lost)
    rw [hbin]
    rfl

theorem Sound.mono {boots : List Boot} {disk : Disk} (h : Sound table boots disk) (b : Boot) :
    Sound table (boots ++ [b]) disk where
  notTorn := h.notTorn
  held := by
    intro shape dtype hdone
    obtain ⟨b', hb', hrest⟩ := h.held shape dtype hdone
    exact ⟨b', List.mem_append_left [b] hb', hrest⟩

/-- Every careful boot keeps the invariant, wherever it is stopped. -/
theorem Sound.boot {boots : List Boot} {disk : Disk} (h : Sound table boots disk) {b : Boot}
    (hall : b.WritesAll) (hcareful : Careful disk b) :
    Sound table (boots ++ [b]) (bootDisk table disk b) := by
  unfold bootDisk
  apply Sound.lose
  split
  · next hattach =>
      have hnone : ∀ disk' : Disk, disk'.done = none → Sound table (boots ++ [b]) disk' := by
        intro disk' hdone
        constructor
        · rw [hdone]
          exact nofun
        · intro shape dtype hwhole
          rw [hdone] at hwhole
          cases hwhole
      by_cases hzero : b.stopAfter = 0
      · rw [hzero]
        exact h.mono b
      · rcases hcareful hattach with hstop | ⟨hflush, hother⟩
        · exact hnone _ (stopped_done b disk (Nat.pos_of_ne_zero hzero) hstop)
        · by_cases hstop : b.stopAfter ≤ b.markerAt
          · exact hnone _ (stopped_done b disk (Nat.pos_of_ne_zero hzero) hstop)
          · have hlength : b.ops.length ≤ b.stopAfter := by
              rw [b.length_ops]
              omega
            obtain ⟨bin, hdisk, hholds⟩ := @finished_disk table b hall hflush disk
            rw [List.take_of_length_le hlength, hdisk]
            constructor
            · intro htorn
              cases htorn
            · intro shape dtype hdone
              cases hdone
              exact ⟨b, List.mem_append_right boots (List.mem_singleton_self b), rfl, rfl,
                ⟨hflush, hlength⟩, bin, rfl, hholds⟩
  · exact h.mono b

/-! ## Runs of boots -/

def bootStep (table : Tables) (disk : Disk) (b : Boot) : Option Disk := some (bootDisk table disk b)

/-- What the files of a table promise to the next boot. -/
structure CrashSafe (table : Tables) (boots : List Boot) (disk : Disk) : Prop where
  trusted : ∀ spec, pleDiskAttach disk spec = .ok (some true) →
    (∃ b ∈ boots, b.spec = spec ∧ b.Finished) ∧
      ∃ bin, disk.bin = some bin ∧ bin.Holds spec.nbytes (table spec)
  starts : ∀ spec, ∃ r, pleDiskAttach disk spec = .ok r
  rewrites : ∀ b : Boot, b.WritesAll → pleDiskAttach disk b.spec = .ok (some false) →
    b.Finished → pleDiskAttach (bootDisk table disk b) b.spec = .ok (some true)

theorem Dtype.str_injective : ∀ d d' : Dtype, d.str = d'.str → d = d' := by
  intro d d'
  cases d <;> cases d' <;> decide

/-- The marker of a table names the table. -/
theorem spec_of_marker {spec spec' : TableSpec} (hshape : spec.shape = spec'.shape)
    (hdtype : spec.dtype.str = spec'.dtype.str) : spec = spec' := by
  obtain ⟨rows, width, dtype⟩ := spec
  obtain ⟨rows', width', dtype'⟩ := spec'
  have hd := Dtype.str_injective dtype dtype' hdtype
  have hlist : [rows, width] = [rows', width'] := hshape
  simp only [List.cons.injEq, and_true] at hlist
  rw [hlist.1, hlist.2, hd]

theorem run_sound {ok : Disk → Boot → Prop}
    (hok : ∀ disk b, ok disk b → b.WritesAll ∧ Careful disk b) {boots : List Boot}
    {start disk : Disk} (hrun : Run (bootStep table) ok start boots disk) {before : List Boot}
    (h : Sound table before start) : Sound table (before ++ boots) disk := by
  induction hrun generalizing before with
  | nil s => rwa [List.append_nil]
  | @cons s t u b boots hstep hboot _ ih =>
      obtain ⟨hall, hcareful⟩ := hok s b hstep
      have hnext : bootDisk table s b = t := Option.some.inj hboot
      have hsound := h.boot hall hcareful
      rw [hnext] at hsound
      have hrest := ih hsound
      rwa [List.append_assoc] at hrest

theorem Sound.crashSafe {boots : List Boot} {disk : Disk} (h : Sound table boots disk) :
    CrashSafe table boots disk where
  trusted := by
    intro spec hattach
    unfold pleDiskAttach at hattach
    split at hattach
    · cases hattach
    split at hattach
    · next done bin hdone hbin =>
        split at hattach
        · cases done with
          | torn => exact absurd hdone h.notTorn
          | whole shape dtype =>
              obtain ⟨b, hb, hshape, hdtype, hfinished, bin', hbin', hholds⟩ :=
                h.held shape dtype hdone
              have hmarker : shape = spec.shape ∧ dtype = spec.dtype.str := by
                simpa [jsonLoad] using hattach
              have hspec : b.spec = spec :=
                spec_of_marker (hshape.symm.trans hmarker.1) (hdtype.symm.trans hmarker.2)
              rw [hspec] at hholds
              exact ⟨⟨b, hb, hspec, hfinished⟩, bin', hbin', hholds⟩
        · cases hattach
    · cases hattach
  starts := by
    intro spec
    unfold pleDiskAttach
    split
    · exact ⟨_, rfl⟩
    split
    · next done bin hdone hbin =>
        split
        · cases done with
          | torn => exact absurd hdone h.notTorn
          | whole shape dtype => exact ⟨_, rfl⟩
        · exact ⟨_, rfl⟩
    · exact ⟨_, rfl⟩
  rewrites := by
    intro b hall hattach hfinished
    have hlarge : ¬ b.spec.nbytes < 2 ^ 30 := by
      intro hsmall
      rw [pleDiskAttach, if_pos hsmall] at hattach
      cases hattach
    obtain ⟨bin, hdisk, hholds⟩ := @finished_disk table b hall hfinished.1 disk
    unfold bootDisk
    rw [hattach]
    dsimp only
    rw [List.take_of_length_le hfinished.2, hdisk, pleDiskAttach, if_neg hlarge]
    show (if bin.size = b.spec.nbytes then _ else _) = _
    rw [if_pos hholds.size]
    simp [jsonLoad]

/-- After careful boots, whatever the shapes and wherever they stop, a table
that is trusted is the one meant, and no boot fails. -/
theorem crashSafe_of_careful {boots : List Boot} {disk : Disk}
    (hrun : Run (bootStep table) (fun disk b => b.WritesAll ∧ Careful disk b) .fresh boots disk) :
    CrashSafe table boots disk := by
  have hfresh : Sound table [] .fresh := ⟨nofun, nofun⟩
  exact (run_sound (fun _ _ h => h) hrun hfresh).crashSafe

/-! ## Boots of a table of one GiB -/

def gibTable : TableSpec := ⟨2, 2 ^ 28, .bfloat16⟩

def gibBoot (flush : FlushResult) (stopAfter : Nat) : Boot :=
  ⟨gibTable, [0, 1], flush, stopAfter, fun _ => true⟩

def onesTable : Tables := fun _ _ => 1

theorem gibBoot_writesAll (flush : FlushResult) (stopAfter : Nat) :
    (gibBoot flush stopAfter).WritesAll := by
  show ∀ row < 2, row ∈ [0, 1]
  decide

/-- A boot that stops between its rows, one that finishes, and one that uses
what it left. -/
theorem crashSafe_of_careful_three_boots :
    CrashSafe onesTable [gibBoot .ok 4, gibBoot .ok 8, gibBoot .ok 8]
      (bootDisk onesTable (bootDisk onesTable (bootDisk onesTable .fresh (gibBoot .ok 4))
        (gibBoot .ok 8)) (gibBoot .ok 8)) := by
  have hcareful : ∀ disk, Careful disk (gibBoot .ok 8) :=
    fun _ _ => Or.inr ⟨rfl, by decide⟩
  apply crashSafe_of_careful
  refine Run.cons ⟨gibBoot_writesAll _ _, fun _ => Or.inl (by decide)⟩ rfl ?_
  refine Run.cons ⟨gibBoot_writesAll _ _, hcareful _⟩ rfl ?_
  exact Run.cons ⟨gibBoot_writesAll _ _, hcareful _⟩ rfl (Run.nil _)

/-- A boot that stops with the marker open makes the next one fail; one whose
flush fails marks what it did not write. -/
theorem interrupted_boots_unsafe :
    ¬ CrashSafe onesTable [gibBoot .ok 7] (bootDisk onesTable .fresh (gibBoot .ok 7)) ∧
    ¬ CrashSafe onesTable [gibBoot (.failed fun _ => false) 8]
      (bootDisk onesTable .fresh (gibBoot (.failed fun _ => false) 8)) := by
  constructor
  · intro h
    obtain ⟨r, hr⟩ := h.starts gibTable
    have herror : pleDiskAttach (bootDisk onesTable .fresh (gibBoot .ok 7)) gibTable =
        .error "json.decoder.JSONDecodeError" := rfl
    rw [herror] at hr
    cases hr
  · intro h
    obtain ⟨-, bin, hbin, hholds⟩ := h.trusted gibTable rfl
    have hzero : bin.cache 0 = 0 := by
      cases hbin
      rfl
    have hone : bin.cache 0 = 1 := hholds.cache 0 (by decide)
    rw [hzero] at hone
    exact absurd hone (by decide)

end FlashNext.Ports.PleDisk
