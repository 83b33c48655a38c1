import FlashNext.Verified.RowMajor

/-!
# What the pipeline ranks tell each other about sampled tokens

`compute_need_sampled_mask` decides on every rank, from per-request arrays
that all ranks hold, whether a step's sampler output is relayed at all and
which rows of it matter.  `PPHandler.broadcast` widens the sampler output to
the fixed width that the receivers post.  Both are used by the matching of
the collectives (`PpRelayCollectives`) and by the agreement of the states
(`PpRelayAgreement`).
-/

namespace FlashNext.Ports.PpRelay

open FlashNext.Verified.RowMajor

/-! ## Configuration -/

structure Config where
  numSpeculativeSteps : Nat
  /-- `speculative_config is not None`. -/
  speculativeConfig : Bool
  maxNumReqs : Nat

/-- `PPHandler.max_sample_len`. -/
def Config.maxSampleLen (cfg : Config) : Nat := cfg.numSpeculativeSteps + 1

/-- `relay_draft_tokens`, derived from the configuration on every rank. -/
def Config.relayDraftTokens (cfg : Config) : Bool := cfg.speculativeConfig

/-- `self.speculator is not None`: only the last rank has one. -/
def Config.hasSpeculator (cfg : Config) (isLastRank : Bool) : Bool :=
  cfg.speculativeConfig && isLastRank

/-! ## The batch -/

/-- One row of an `InputBatch`: the entries of its per-request arrays.
`max_seq_len_np` is always populated under pipeline parallelism. -/
structure BatchRow where
  /-- `idx_mapping_np`: the request's index in this rank's `req_states`. -/
  idx : Nat
  numComputedTokens : Nat
  numScheduledTokens : Nat
  prefillLen : Nat
  maxSeqLen : Nat
deriving DecidableEq

abbrev InputBatch := List BatchRow

/-- The row is not a non-final prefill chunk. -/
def BatchRow.producesSample (r : BatchRow) : Bool :=
  r.prefillLen ≤ r.numComputedTokens + r.numScheduledTokens

/-- The row is not known to be finished after this step. -/
def BatchRow.notFinishing (r : BatchRow) : Bool :=
  max r.numComputedTokens r.prefillLen + 1 < r.maxSeqLen

def BatchRow.needSampled (r : BatchRow) : Bool :=
  r.producesSample && r.notFinishing

/-- `None` if no sampled outputs are needed in the requests' next step. -/
def computeNeedSampledMask (b : InputBatch) : Option (List Bool) :=
  let needSampledMask := b.map BatchRow.needSampled
  if needSampledMask.any id then some needSampledMask else none

theorem computeNeedSampledMask_eq_none {b : InputBatch}
    (h : computeNeedSampledMask b = none) : ∀ r ∈ b, r.needSampled = false := by
  intro r hr
  simp only [computeNeedSampledMask, List.any_map, ite_eq_right_iff,
    reduceCtorEq, imp_false, List.any_eq_true, not_exists, not_and] at h
  simpa using h r hr

/-! ## Padding a row of sampled tokens -/

/-- `padded = new_full(.., -1)` followed by `padded[:, :width] = row`. -/
def newFullRow (maxSampleLen : Nat) (row : List Int) : List Int :=
  row ++ (List.replicate maxSampleLen (-1)).drop row.length

/-- `torch.cat` of the row with a row of placeholders. -/
def catPadRow (maxSampleLen : Nat) (row : List Int) : List Int :=
  row ++ List.replicate (maxSampleLen - row.length) (-1)

theorem newFullRow_eq_catPadRow (maxSampleLen : Nat) (row : List Int) :
    newFullRow maxSampleLen row = catPadRow maxSampleLen row := by
  rw [newFullRow, catPadRow, List.drop_replicate]

theorem length_catPadRow {maxSampleLen : Nat} {row : List Int}
    (h : row.length ≤ maxSampleLen) :
    (catPadRow maxSampleLen row).length = maxSampleLen := by
  rw [catPadRow, List.length_append, List.length_replicate]
  omega

/-- The padding is invisible to a reader of the first `n` tokens, as long as
the row itself has that many. -/
theorem take_catPadRow {maxSampleLen n : Nat} {row : List Int}
    (h : n ≤ row.length) : (catPadRow maxSampleLen row).take n = row.take n := by
  rw [catPadRow, List.take_append_of_le_length h]

theorem getElem?_catPadRow {maxSampleLen i : Nat} {row : List Int}
    (h : i < row.length) : (catPadRow maxSampleLen row)[i]? = row[i]? := by
  rw [catPadRow, List.getElem?_append_left h]

end FlashNext.Ports.PpRelay
