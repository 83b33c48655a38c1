import FlashNext.Ports.PpRelay
import Mathlib.Data.List.Forall2

/-!
# Matching the collectives of the pipeline relay

Broadcasts on the sibling group are matched by order.  The last rank issues
them from two places of `sample_tokens`: `broadcast` before drafting and
`broadcast_draft` after it.  Every other rank posts its side of all of them
in one place, `receive`.  This module runs the two programs over the same
sequence of `execute_model` and `sample_tokens` calls and shows that they
issue the same collectives, and that the block a receiver reads is the one
that was meant.
-/

namespace FlashNext.Ports.PpRelay

open FlashNext.Verified.RowMajor

/-! ## Tensors -/

inductive Dtype
  | int32
  | int64
deriving DecidableEq

/-- A two-dimensional tensor; `numel` counts what a broadcast moves. -/
structure Tensor where
  dtype : Dtype
  numCols : Nat
  block : Block Int numCols

def Tensor.numRows (t : Tensor) : Nat := t.block.rows.length

/-- `t.contiguous()`, the entries in the order they are sent. -/
def Tensor.flat (t : Tensor) : List Int := t.block.flat

/-- A one-dimensional tensor of per-request counts. -/
structure Counts where
  dtype : Dtype
  entries : List Int

structure SamplerOutput where
  sampledTokenIds : Tensor
  numSampled : Counts
  numRejected : Counts

/-! ## Collectives -/

inductive Kind
  | sampled
  | combined
  | draft
deriving DecidableEq

/-- What two matched sides of a broadcast have to agree on. -/
structure Collective where
  step : Nat
  kind : Kind
  dtype : Dtype
  numel : Nat
deriving DecidableEq

/-- Ghost: what the sender means by a broadcast. -/
inductive Message
  | sampled (sampledTokenIds : Tensor)
  | combined (numSampled numRejected : List Int)
  | draft (draftTokens : Tensor)

def Message.kind : Message → Kind
  | .sampled _ => .sampled
  | .combined _ _ => .combined
  | .draft _ => .draft

/-- The block the receiver of a message should read: the sampler's own
columns followed by `-1` up to `maxSampleLen`, the two rows of counts, or the
drafts. -/
def Message.expected (maxSampleLen : Nat) : Message → List (List Int)
  | .sampled t => t.block.rows.map (catPadRow maxSampleLen)
  | .combined numSampled numRejected => [numSampled, numRejected]
  | .draft t => t.block.rows

/-- A broadcast of the last rank. -/
structure Sent where
  step : Nat
  dtype : Dtype
  payload : List Int
  message : Message

def Sent.collective (c : Sent) : Collective :=
  ⟨c.step, c.message.kind, c.dtype, c.payload.length⟩

/-- A broadcast another rank posts: the buffer it receives into. -/
structure Posted where
  step : Nat
  kind : Kind
  dtype : Dtype
  numRows : Nat
  numCols : Nat

def Posted.collective (p : Posted) : Collective :=
  ⟨p.step, p.kind, p.dtype, p.numRows * p.numCols⟩

/-- The receive buffer after it was matched with `c`. -/
def Posted.read (p : Posted) (c : Sent) : List (List Int) :=
  ofFlat p.numCols p.numRows c.payload

/-! ## The last rank -/

/-- The first padding: `new_full` when the width is not the maximum, under
`assert width < self.max_sample_len`. -/
def padNewFull (maxSampleLen : Nat) (t : Tensor) : Option Tensor :=
  if t.numCols = maxSampleLen then some t
  else if hlt : t.numCols < maxSampleLen then
    some
      { dtype := t.dtype
        numCols := maxSampleLen
        block := t.block.mapRows (newFullRow maxSampleLen) (by
          intro row hrow
          rw [newFullRow_eq_catPadRow, length_catPadRow (by omega)]) }
  else none

/-- The second padding: `torch.cat` with placeholders. -/
def padCat (maxSampleLen : Nat) (t : Tensor) : Tensor :=
  if hlt : t.numCols < maxSampleLen then
    { dtype := t.dtype
      numCols := maxSampleLen
      block := t.block.mapRows (catPadRow maxSampleLen) (by
        intro row hrow
        exact length_catPadRow (by omega)) }
  else t

/-- `torch.stack((num_sampled, num_rejected), dim=0)` raises unless the two
have one shape. -/
def stack (a b : Counts) : Option (List Int) :=
  if a.entries.length = b.entries.length ∧ a.dtype = b.dtype then
    some (a.entries ++ b.entries)
  else none

/-- `PPHandler.broadcast`; `none` where an assertion fails. -/
def broadcast (cfg : Config) (step : Nat) (out : SamplerOutput)
    (b : InputBatch) : Option (List Sent) :=
  match computeNeedSampledMask b with
  | none => some []
  | some _ => do
      let padded ← padNewFull cfg.maxSampleLen out.sampledTokenIds
      if padded.dtype = .int64 then
        let padded := padCat cfg.maxSampleLen padded
        if padded.numCols = cfg.maxSampleLen then
          let combined ← stack out.numSampled out.numRejected
          some
            [⟨step, padded.dtype, padded.flat, .sampled out.sampledTokenIds⟩,
              ⟨step, out.numSampled.dtype, combined,
                .combined out.numSampled.entries out.numRejected.entries⟩]
        else none
      else none

/-- What `propose` returns of the speculator's `draft_tokens` buffer. -/
def propose (cfg : Config) (draftTokens : Tensor) (numReqs : Nat) : Tensor :=
  if cfg.numSpeculativeSteps = 1 then
    { dtype := draftTokens.dtype
      numCols := min 1 draftTokens.numCols
      block := (draftTokens.block.takeRows numReqs).mapRows (List.take 1) (by
        intro row hrow
        rw [List.length_take, hrow]) }
  else { draftTokens with block := draftTokens.block.takeRows numReqs }

/-- `PPHandler.broadcast_draft`. -/
def broadcastDraft (cfg : Config) (step : Nat) (draftTokens : Tensor)
    (b : InputBatch) : List Sent :=
  if cfg.relayDraftTokens then
    match computeNeedSampledMask b with
    | none => []
    | some _ => [⟨step, .int64, draftTokens.flat, .draft draftTokens⟩]
  else []

/-- What the sampler and the drafter make of a batch. -/
structure Outputs where
  sample : InputBatch → SamplerOutput
  /-- The speculator's `draft_tokens` buffer once this step has drafted. -/
  draftTokens : InputBatch → Tensor

/-- The broadcasts of `sample_tokens` on the last rank. -/
def sampleTokensLast (cfg : Config) (step : Nat) (b : InputBatch)
    (o : Outputs) : Option (List Sent) := do
  let sent ← broadcast cfg step (o.sample b) b
  if cfg.hasSpeculator true then
    let draftTokens := propose cfg (o.draftTokens b) b.length
    some (sent ++ broadcastDraft cfg step draftTokens b)
  else some sent

/-! ## The other ranks -/

/-- `PPHandler.receive`. -/
def receive (cfg : Config) (step : Nat) (b : InputBatch) : List Posted :=
  match computeNeedSampledMask b with
  | none => []
  | some _ =>
      [⟨step, .sampled, .int64, b.length, cfg.maxSampleLen⟩,
        ⟨step, .combined, .int32, 2, b.length⟩] ++
      (if cfg.relayDraftTokens then
        [⟨step, .draft, .int64, b.length, cfg.maxSampleLen - 1⟩]
      else [])

/-! ## The calls of one rank -/

/-- The calls a rank's worker gets.  `none` is a step without scheduled
tokens, which returns before `execute_model_state` is set. -/
inductive Call
  | executeModel (batch : Option InputBatch)
  | sampleTokens (outputs : Outputs)

/-- A rank, with the collectives it has issued so far. -/
structure Rank (γ : Type) where
  executeModelState : Option InputBatch
  /-- Ghost: the number of `execute_model` calls. -/
  step : Nat
  issued : List γ

variable {γ : Type}

def Rank.start : Rank γ := ⟨none, 0, []⟩

/-- One call; `sample` is what `sample_tokens` issues for a batch. -/
def Rank.call (sample : Nat → InputBatch → Outputs → Option (List γ))
    (r : Rank γ) : Call → Option (Rank γ)
  | .executeModel none => some { r with step := r.step + 1 }
  | .executeModel (some b) =>
      some { r with executeModelState := some b, step := r.step + 1 }
  | .sampleTokens o =>
      match r.executeModelState with
      | none => some r
      | some b => do
          let issued ← sample r.step b o
          some { r with executeModelState := none, issued := r.issued ++ issued }

def Rank.run (sample : Nat → InputBatch → Outputs → Option (List γ)) :
    Rank γ → List Call → Option (Rank γ)
  | r, [] => some r
  | r, c :: cs => do
      let r ← r.call sample c
      r.run sample cs

/-- The last rank over a sequence of calls. -/
def lastRank (cfg : Config) (calls : List Call) : Option (Rank Sent) :=
  Rank.start.run (sampleTokensLast cfg) calls

/-- A rank that is not the last over a sequence of calls. -/
def otherRank (cfg : Config) (calls : List Call) : Option (Rank Posted) :=
  Rank.start.run (fun step b _ => some (receive cfg step b)) calls

/-! ## What the calls have in common -/

/-- Two rows agree on the arrays the mask is computed from. -/
def SameArrays (r r' : BatchRow) : Prop :=
  r.numComputedTokens = r'.numComputedTokens ∧
    r.numScheduledTokens = r'.numScheduledTokens ∧
    r.prefillLen = r'.prefillLen ∧ r.maxSeqLen = r'.maxSeqLen

/-- The same call on two ranks; only the last one samples. -/
inductive SameCall : Call → Call → Prop
  | idle : SameCall (.executeModel none) (.executeModel none)
  | batch {b b' : InputBatch} : List.Forall₂ SameArrays b b' →
      SameCall (.executeModel (some b)) (.executeModel (some b'))
  | sample (o o' : Outputs) : SameCall (.sampleTokens o) (.sampleTokens o')

/-- The shapes and types of what the sampler and the drafter return. -/
structure Outputs.Fits (cfg : Config) (o : Outputs) : Prop where
  width_pos : ∀ b, 1 ≤ (o.sample b).sampledTokenIds.numCols
  width_le : ∀ b, (o.sample b).sampledTokenIds.numCols ≤ cfg.maxSampleLen
  rows : ∀ b, (o.sample b).sampledTokenIds.numRows = b.length
  tokens : ∀ b, (o.sample b).sampledTokenIds.dtype = .int64
  numSampled : ∀ b, (o.sample b).numSampled.entries.length = b.length
  numRejected : ∀ b, (o.sample b).numRejected.entries.length = b.length
  sampledCounts : ∀ b, (o.sample b).numSampled.dtype = .int32
  rejectedCounts : ∀ b, (o.sample b).numRejected.dtype = .int32
  drafts : ∀ b, (o.draftTokens b).numRows = cfg.maxNumReqs
  draftWidth : ∀ b, (o.draftTokens b).numCols = cfg.numSpeculativeSteps

/-- A call the scheduler and the sampler can produce. -/
def Call.Fits (cfg : Config) : Call → Prop
  | .executeModel none => True
  | .executeModel (some b) => b.length ≤ cfg.maxNumReqs
  | .sampleTokens o => o.Fits cfg

/-- The two sides of one broadcast fit, and the receiver reads what was
meant. -/
structure Matches (cfg : Config) (c : Sent) (p : Posted) : Prop where
  collective : c.collective = p.collective
  contents : p.read c = c.message.expected cfg.maxSampleLen

/-! ## The two ends agree on the gate -/

variable {cfg : Config}

private theorem needSampled_congr {r r' : BatchRow} (h : SameArrays r r') :
    r.needSampled = r'.needSampled := by
  obtain ⟨hcomputed, hscheduled, hprefill, hmax⟩ := h
  rw [BatchRow.needSampled, BatchRow.needSampled, BatchRow.producesSample,
    BatchRow.producesSample, BatchRow.notFinishing, BatchRow.notFinishing,
    hcomputed, hscheduled, hprefill, hmax]

theorem computeNeedSampledMask_congr {b b' : InputBatch}
    (h : List.Forall₂ SameArrays b b') :
    computeNeedSampledMask b = computeNeedSampledMask b' := by
  have hmask : b.map BatchRow.needSampled = b'.map BatchRow.needSampled := by
    induction h with
    | nil => rfl
    | cons hrow _ ih =>
        rw [List.map_cons, List.map_cons, needSampled_congr hrow, ih]
  rw [computeNeedSampledMask, computeNeedSampledMask, hmask]

/-! ## Padding -/

theorem Tensor.length_flat (t : Tensor) :
    t.flat.length = t.numRows * t.numCols :=
  t.block.length_flat

theorem Tensor.ofFlat_flat (t : Tensor) :
    ofFlat t.numCols t.numRows t.flat = t.block.rows :=
  FlashNext.Verified.RowMajor.ofFlat_flat t.block

private theorem catPadRow_of_length {maxSampleLen : Nat} {row : List Int}
    (h : row.length = maxSampleLen) : catPadRow maxSampleLen row = row := by
  rw [catPadRow, h, Nat.sub_self, List.replicate_zero, List.append_nil]

private theorem map_catPadRow_of_width (t : Tensor) :
    t.block.rows.map (catPadRow t.numCols) = t.block.rows := by
  calc t.block.rows.map (catPadRow t.numCols)
      = t.block.rows.map id := by
        refine List.map_congr_left fun row hrow => ?_
        exact catPadRow_of_length (t.block.width row hrow)
    _ = t.block.rows := List.map_id _

/-- Whatever the sampler's width, the first padding leaves a block of the
width the receivers post. -/
theorem padNewFull_spec {maxSampleLen : Nat} {t : Tensor}
    (h : t.numCols ≤ maxSampleLen) :
    ∃ padded, padNewFull maxSampleLen t = some padded ∧
      padded.dtype = t.dtype ∧ padded.numCols = maxSampleLen ∧
      padded.block.rows = t.block.rows.map (catPadRow maxSampleLen) := by
  by_cases heq : t.numCols = maxSampleLen
  · refine ⟨t, by rw [padNewFull, if_pos heq], rfl, heq, ?_⟩
    rw [← heq, map_catPadRow_of_width]
  · have hlt : t.numCols < maxSampleLen := by omega
    rw [padNewFull, if_neg heq, dif_pos hlt]
    refine ⟨_, rfl, rfl, rfl, ?_⟩
    rw [Block.rows_mapRows]
    exact List.map_congr_left fun row _ => newFullRow_eq_catPadRow _ row

/-- The second padding finds nothing left to do. -/
theorem padCat_of_width {maxSampleLen : Nat} {t : Tensor}
    (h : t.numCols = maxSampleLen) : padCat maxSampleLen t = t := by
  rw [padCat, dif_neg (by omega)]

/-! ## One step -/

private theorem read_combined (step : Nat) {ns nr : List Int} {n : Nat}
    (hns : ns.length = n) (hnr : nr.length = n) :
    (Posted.mk step .combined .int32 2 n).read
      ⟨step, .int32, ns ++ nr, .combined ns nr⟩ = [ns, nr] := by
  show [(ns ++ nr).take n, ((ns ++ nr).drop n).take n] = [ns, nr]
  rw [List.take_left' hns, List.drop_left' hns,
    List.take_of_length_le (Nat.le_of_eq hnr)]

/-- `broadcast` passes its assertions, and its two broadcasts meet the first
two of `receive`. -/
theorem broadcast_matches {o : Outputs} (hfit : o.Fits cfg) (step : Nat)
    {b : InputBatch} {mask : List Bool}
    (hmask : computeNeedSampledMask b = some mask) :
    ∃ sampled combined,
      broadcast cfg step (o.sample b) b = some [sampled, combined] ∧
      Matches cfg sampled
        ⟨step, .sampled, .int64, b.length, cfg.maxSampleLen⟩ ∧
      Matches cfg combined ⟨step, .combined, .int32, 2, b.length⟩ := by
  obtain ⟨padded, hpad, hdtype, hcols, hrows⟩ :=
    padNewFull_spec (hfit.width_le b)
  have hint : padded.dtype = .int64 := hdtype.trans (hfit.tokens b)
  have hcount : padded.numRows = b.length := by
    rw [Tensor.numRows, hrows, List.length_map]
    exact hfit.rows b
  have hns := hfit.numSampled b
  have hnr := hfit.numRejected b
  have hstack : stack (o.sample b).numSampled (o.sample b).numRejected =
      some ((o.sample b).numSampled.entries ++
        (o.sample b).numRejected.entries) := by
    rw [stack, if_pos ⟨hns.trans hnr.symm,
      (hfit.sampledCounts b).trans (hfit.rejectedCounts b).symm⟩]
  refine ⟨⟨step, .int64, padded.flat, .sampled (o.sample b).sampledTokenIds⟩,
    ⟨step, .int32, (o.sample b).numSampled.entries ++
        (o.sample b).numRejected.entries,
      .combined (o.sample b).numSampled.entries
        (o.sample b).numRejected.entries⟩, ?_, ⟨?_, ?_⟩, ⟨?_, ?_⟩⟩
  · simp only [broadcast, hmask, hpad, Option.bind_eq_bind, Option.bind_some,
      hint, if_true, padCat_of_width hcols, hcols, hstack,
      hfit.sampledCounts b]
  · show Collective.mk step .sampled .int64 padded.flat.length = _
    rw [padded.length_flat, hcount, hcols]
    rfl
  · show ofFlat cfg.maxSampleLen b.length padded.flat = _
    rw [← hcols, ← hcount, padded.ofFlat_flat, hrows, hcols]
    rfl
  · show Collective.mk step .combined .int32 _ = _
    rw [List.length_append, hns, hnr]
    show _ = Collective.mk step .combined .int32 (2 * b.length)
    rw [Nat.two_mul]
  · exact read_combined step hns hnr

/-- What `propose` returns has one row per request and one column per
speculative step. -/
theorem propose_spec {o : Outputs} (hfit : o.Fits cfg) {b : InputBatch}
    (hb : b.length ≤ cfg.maxNumReqs) :
    (propose cfg (o.draftTokens b) b.length).numRows = b.length ∧
      (propose cfg (o.draftTokens b) b.length).numCols =
        cfg.numSpeculativeSteps := by
  have hrows : (o.draftTokens b).block.rows.length = cfg.maxNumReqs :=
    hfit.drafts b
  have hcols := hfit.draftWidth b
  rw [propose]
  split
  case isTrue hone =>
    constructor
    · rw [Tensor.numRows, Block.rows_mapRows, List.length_map,
        Block.rows_takeRows, List.length_take]
      omega
    · show min 1 (o.draftTokens b).numCols = _
      omega
  case isFalse =>
    constructor
    · rw [Tensor.numRows, Block.rows_takeRows, List.length_take]
      omega
    · exact hcols

/-- `broadcast_draft` meets the third broadcast of `receive`. -/
theorem broadcastDraft_matches {o : Outputs} (hfit : o.Fits cfg) (step : Nat)
    {b : InputBatch} (hb : b.length ≤ cfg.maxNumReqs) {mask : List Bool}
    (hmask : computeNeedSampledMask b = some mask)
    (hrelay : cfg.relayDraftTokens = true) :
    ∃ draft,
      broadcastDraft cfg step (propose cfg (o.draftTokens b) b.length) b =
        [draft] ∧
      Matches cfg draft
        ⟨step, .draft, .int64, b.length, cfg.maxSampleLen - 1⟩ := by
  obtain ⟨hrows, hcols⟩ := propose_spec hfit hb
  generalize propose cfg (o.draftTokens b) b.length = drafts at hrows hcols ⊢
  refine ⟨⟨step, .int64, drafts.flat, .draft drafts⟩, ?_, ⟨?_, ?_⟩⟩
  · simp only [broadcastDraft, hrelay, if_true, hmask]
  · show Collective.mk step .draft .int64 drafts.flat.length = _
    rw [drafts.length_flat, hrows, hcols]
    rfl
  · show ofFlat cfg.numSpeculativeSteps b.length drafts.flat = _
    rw [← hcols, ← hrows, drafts.ofFlat_flat]
    rfl

/-- The two call sites of the last rank together meet the one of the
others. -/
theorem sampleTokensLast_matches {o : Outputs} (hfit : o.Fits cfg)
    (step : Nat) {b b' : InputBatch} (hb : b.length ≤ cfg.maxNumReqs)
    (hsame : List.Forall₂ SameArrays b b') :
    ∃ sent, sampleTokensLast cfg step b o = some sent ∧
      List.Forall₂ (Matches cfg) sent (receive cfg step b') := by
  have hlen : b'.length = b.length := hsame.length_eq.symm
  rw [receive, ← computeNeedSampledMask_congr hsame, hlen]
  cases hmask : computeNeedSampledMask b with
  | none =>
      refine ⟨[], ?_, .nil⟩
      simp [sampleTokensLast, broadcast, broadcastDraft, hmask]
  | some mask =>
      obtain ⟨sampled, combined, hsent, hsampled, hcombined⟩ :=
        broadcast_matches hfit step hmask
      by_cases hrelay : cfg.relayDraftTokens = true
      · have hspeculator : cfg.hasSpeculator true = true := by
          rw [Config.hasSpeculator, Bool.and_true]
          exact hrelay
        obtain ⟨draft, hdrafts, hdraft⟩ :=
          broadcastDraft_matches hfit step hb hmask hrelay
        refine ⟨[sampled, combined, draft], ?_, ?_⟩
        · simp only [sampleTokensLast, hsent, Option.bind_eq_bind,
            Option.bind_some, hspeculator, if_true, hdrafts,
            List.cons_append, List.nil_append]
        · show List.Forall₂ _ _ (_ :: _ :: ite _ _ _)
          rw [if_pos hrelay]
          exact .cons hsampled (.cons hcombined (.cons hdraft .nil))
      · have hspeculator : ¬ cfg.hasSpeculator true = true := by
          rw [Config.hasSpeculator, Bool.and_true]
          exact hrelay
        refine ⟨[sampled, combined], ?_, ?_⟩
        · simp only [sampleTokensLast, hsent, Option.bind_eq_bind,
            Option.bind_some, if_neg hspeculator]
        · show List.Forall₂ _ _ (_ :: _ :: ite _ _ _)
          rw [if_neg hrelay]
          exact .cons hsampled (.cons hcombined .nil)

/-! ## Whole runs -/

/-- The batches the two ranks have executed but not sampled. -/
def SamePending (cfg : Config) : Option InputBatch → Option InputBatch → Prop
  | none, none => True
  | some b, some b' =>
      List.Forall₂ SameArrays b b' ∧ b.length ≤ cfg.maxNumReqs
  | none, some _ => False
  | some _, none => False

/-- The two ranks between two calls. -/
structure Paired (cfg : Config) (l : Rank Sent) (o : Rank Posted) : Prop where
  step : l.step = o.step
  pending : SamePending cfg l.executeModelState o.executeModelState
  issued : List.Forall₂ (Matches cfg) l.issued o.issued

/-- One call on both ranks: the last one passes all its assertions. -/
theorem call_paired {l : Rank Sent} {o : Rank Posted} (h : Paired cfg l o)
    {c c' : Call} (hsame : SameCall c c') (hfit : c.Fits cfg) :
    ∃ l' o', l.call (sampleTokensLast cfg) c = some l' ∧
      o.call (fun step b _ => some (receive cfg step b)) c' = some o' ∧
      Paired cfg l' o' := by
  cases hsame with
  | idle =>
      have hstep := congrArg (· + 1) h.step
      exact ⟨_, _, rfl, rfl, ⟨hstep, h.pending, h.issued⟩⟩
  | batch harrays =>
      have hstep := congrArg (· + 1) h.step
      exact ⟨_, _, rfl, rfl, ⟨hstep, ⟨harrays, hfit⟩, h.issued⟩⟩
  | sample out out' =>
      have hpending := h.pending
      cases hl : l.executeModelState with
      | none =>
          cases ho : o.executeModelState with
          | some b' => rw [hl, ho] at hpending; exact hpending.elim
          | none =>
              refine ⟨l, o, ?_, ?_, h⟩
              · simp only [Rank.call, hl]
              · simp only [Rank.call, ho]
      | some b =>
          cases ho : o.executeModelState with
          | none => rw [hl, ho] at hpending; exact hpending.elim
          | some b' =>
              rw [hl, ho] at hpending
              obtain ⟨harrays, hb⟩ := hpending
              obtain ⟨sent, hsent, hmatch⟩ :=
                sampleTokensLast_matches hfit l.step hb harrays
              rw [h.step] at hmatch
              refine ⟨{ l with
                  executeModelState := none, issued := l.issued ++ sent },
                { o with
                  executeModelState := none
                  issued := o.issued ++ receive cfg o.step b' }, ?_, ?_, ?_⟩
              · simp only [Rank.call, hl, hsent, Option.bind_eq_bind,
                  Option.bind_some]
              · simp only [Rank.call, ho, Option.bind_eq_bind,
                  Option.bind_some]
              · exact ⟨h.step, trivial, List.rel_append h.issued hmatch⟩

theorem run_paired {calls calls' : List Call}
    (hsame : List.Forall₂ SameCall calls calls')
    (hfit : ∀ c ∈ calls, c.Fits cfg) :
    ∀ {l : Rank Sent} {o : Rank Posted}, Paired cfg l o →
      ∃ l' o', l.run (sampleTokensLast cfg) calls = some l' ∧
        o.run (fun step b _ => some (receive cfg step b)) calls' = some o' ∧
        Paired cfg l' o' := by
  induction hsame with
  | nil => exact fun h => ⟨_, _, rfl, rfl, h⟩
  | cons hcall _ ih =>
      intro l o h
      obtain ⟨l₁, o₁, hl₁, ho₁, h₁⟩ :=
        call_paired h hcall (hfit _ List.mem_cons_self)
      obtain ⟨l', o', hl', ho', h'⟩ :=
        ih (fun c hc => hfit c (List.mem_cons_of_mem _ hc)) h₁
      refine ⟨l', o', ?_, ?_, h'⟩
      · rw [Rank.run, hl₁]
        exact hl'
      · rw [Rank.run, ho₁]
        exact ho'

theorem start_paired : Paired cfg Rank.start Rank.start where
  step := rfl
  pending := trivial
  issued := .nil

/-- Over any sequence of calls no assertion of the last rank fails, the two
ranks issue the same collectives in the same order, and every receive buffer
holds what the matched broadcast meant. -/
theorem collectives_match (cfg : Config) (calls calls' : List Call)
    (hsame : List.Forall₂ SameCall calls calls')
    (hfit : ∀ c ∈ calls, c.Fits cfg) :
    ∃ l o, lastRank cfg calls = some l ∧ otherRank cfg calls' = some o ∧
      l.issued.map Sent.collective = o.issued.map Posted.collective ∧
      List.Forall₂ (fun c p => p.read c = c.message.expected cfg.maxSampleLen)
        l.issued o.issued := by
  have hstart : Paired cfg Rank.start Rank.start := start_paired
  obtain ⟨l, o, hl, ho, h⟩ := run_paired hsame hfit hstart
  have hcollectives : List.Forall₂ (fun c p => c.collective = p.collective)
      l.issued o.issued :=
    h.issued.imp fun _ _ hmatch => hmatch.collective
  refine ⟨l, o, hl, ho, ?_, h.issued.imp fun _ _ hmatch => hmatch.contents⟩
  rw [← List.forall₂_eq_eq_eq, List.forall₂_map_left_iff,
    List.forall₂_map_right_iff]
  exact hcollectives

/-! ### A prefill, an idle step and a decode with one draft -/

def oneDraft : Config := ⟨1, true, 4⟩

/-- The sampler emits `width` tokens for every request, the drafter one. -/
def fixedOutputs (width : Nat) : Outputs where
  sample b :=
    { sampledTokenIds :=
        ⟨.int64, width, ⟨List.replicate b.length (List.replicate width 7), by
          intro row hrow
          rw [List.eq_of_mem_replicate hrow, List.length_replicate]⟩⟩
      numSampled := ⟨.int32, List.replicate b.length width⟩
      numRejected := ⟨.int32, List.replicate b.length 0⟩ }
  draftTokens _ :=
    ⟨.int64, 1, ⟨List.replicate 4 [5], by
      intro row hrow
      rw [List.eq_of_mem_replicate hrow, List.length_singleton]⟩⟩

theorem fixedOutputs_fits {width : Nat} (hpos : 1 ≤ width) (hle : width ≤ 2) :
    (fixedOutputs width).Fits oneDraft where
  width_pos _ := hpos
  width_le _ := hle
  rows _ := List.length_replicate
  tokens _ := rfl
  numSampled _ := List.length_replicate
  numRejected _ := List.length_replicate
  sampledCounts _ := rfl
  rejectedCounts _ := rfl
  drafts _ := rfl
  draftWidth _ := rfl

def prefillBatch (idx : Nat) : InputBatch := [⟨idx, 0, 3, 3, 9⟩]

def decodeBatch (idx : Nat) : InputBatch := [⟨idx, 3, 2, 3, 9⟩]

/-- The calls of a rank that keeps the request at index `idx`. -/
def threeSteps (idx : Nat) : List Call :=
  [.executeModel (some (prefillBatch idx)), .sampleTokens (fixedOutputs 1),
    .executeModel none, .executeModel (some (decodeBatch idx)),
    .sampleTokens (fixedOutputs 2)]

theorem collectives_match_three_steps :
    ∃ l o, lastRank oneDraft (threeSteps 0) = some l ∧
      otherRank oneDraft (threeSteps 2) = some o ∧
      l.issued.map Sent.collective = o.issued.map Posted.collective ∧
      List.Forall₂ (fun c p => p.read c = c.message.expected oneDraft.maxSampleLen)
        l.issued o.issued := by
  refine collectives_match oneDraft (threeSteps 0) (threeSteps 2) ?_ ?_
  · have hprefill : List.Forall₂ SameArrays (prefillBatch 0) (prefillBatch 2) :=
      .cons ⟨rfl, rfl, rfl, rfl⟩ .nil
    have hdecode : List.Forall₂ SameArrays (decodeBatch 0) (decodeBatch 2) :=
      .cons ⟨rfl, rfl, rfl, rfl⟩ .nil
    exact .cons (.batch hprefill) (.cons (.sample _ _)
      (.cons .idle (.cons (.batch hdecode) (.cons (.sample _ _) .nil))))
  · intro c hc
    have hone := fixedOutputs_fits (show 1 ≤ 1 by decide) (by decide)
    have htwo := fixedOutputs_fits (show 1 ≤ 2 by decide) (by decide)
    have hbatch : 1 ≤ oneDraft.maxNumReqs := by decide
    simp only [threeSteps, List.mem_cons, List.not_mem_nil, or_false] at hc
    obtain rfl | rfl | rfl | rfl | rfl := hc
    · exact hbatch
    · exact hone
    · trivial
    · exact hbatch
    · exact htwo

/-- The collectives of these three steps, as the last rank sends them. -/
example :
    (lastRank oneDraft (threeSteps 0)).map
        (fun l => l.issued.map fun c => (c.step, c.message.kind, c.payload)) =
      some
        [(1, .sampled, [7, -1]), (1, .combined, [1, 0]), (1, .draft, [5]),
          (3, .sampled, [7, 7]), (3, .combined, [2, 0]), (3, .draft, [5])] := by
  decide

end FlashNext.Ports.PpRelay
