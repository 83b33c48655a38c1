import FlashNext.Ports.PaddedDrafts
import Mathlib.Data.List.Nodup

/-!
# Both batches of the drafter have one form

With or without padding, the drafter runs over the first rows of every request and samples from
the last row that was accepted; the batches differ only in how many rows a request has.
-/

namespace FlashNext.Ports.PaddedDrafts

open FlashNext.Verified.Ragged
open FlashNext.Verified.Varlen

variable {H V O M : Type} {env : Drafter H V O M}

/-! ## What is promised -/

/-- What the kernels of the drafter do, request by request. -/
structure Drafter.Lawful (env : Drafter H V O M) : Prop where
  nextToken : ∀ ids discard backup, env.prepareNextTokenPadded ids discard backup =
    if discard then (backup, 0)
    else ((env.parseOutput ids).getLast?.getD backup, (env.parseOutput ids).length)
  inputs : ∀ cuNumDraftTokens counts queryStartLoc r,
    env.prepareInputsPadded cuNumDraftTokens counts queryStartLoc r =
      let numDraftTokens := cuNumDraftTokens.getD r 0 -
        (if r = 0 then 0 else cuNumDraftTokens.getD (r - 1) 0)
      let numRejected := if 0 < numDraftTokens then numDraftTokens + 1 - counts.getD r 0 else 0
      (queryStartLoc.getD (r + 1) 0 - 1 - numRejected, numRejected)
  step : ∀ position blockTable, position + 1 < env.maxModelLen →
    env.stepUpdate position blockTable (position + 1) =
      (position + 1, position + 2, some (env.slot blockTable (position + 1)))
  limit : env.effectiveDrafterMaxModelLen ≤ env.maxModelLen

/-- The tokens of a request that were rejected. -/
def numRejected (env : Drafter H V O M) (useSpecDecode : Bool) (r : DraftRequest H M) : Nat :=
  if 0 < r.numDraftTokens then
    r.numDraftTokens + 1 - (validSampledTokenIds env useSpecDecode r).length
  else 0

/-- The rows of a request up to the last accepted one. -/
def numAccepted (env : Drafter H V O M) (useSpecDecode : Bool) (r : DraftRequest H M) : Nat :=
  r.numScheduledTokens - numRejected env useSpecDecode r

/-- The slots that a round may write for a request. -/
def ownedSlots (env : Drafter H V O M) (r : DraftRequest H M) : List Nat :=
  (List.range (r.numScheduledTokens + env.numSpeculativeTokens)).map fun j =>
    env.slot r.blockTable (r.numComputedTokens + j)

/-- What the target's step promises: it has checked the drafts against the tokens, the rejection
sampler gives at least one token where there are drafts, and what the requests write lies apart,
also from what they read. -/
structure Round.Ok (env : Drafter H V O M) (round : Round H M) : Prop where
  fits : ∀ r ∈ round.batch, r.numDraftTokens < r.numScheduledTokens
  sampled : ∀ r ∈ round.batch, 0 < r.numDraftTokens →
    validSampledTokenIds env round.useSpecDecode r ≠ []
  plain : round.useSpecDecode = false → ∀ r ∈ round.batch, r.numDraftTokens = 0 ∧
    env.parseOutput r.sampledTokenIds = r.sampledTokenIds
  owned : (round.batch.flatMap (ownedSlots env)).Nodup
  context : ∀ r ∈ round.batch, ∀ p < r.numComputedTokens,
    env.slot r.blockTable p ∉ round.batch.flatMap (ownedSlots env)

variable {round : Round H M}

/-- At least one row of a request is accepted. -/
theorem Round.Ok.numRejected_lt (h : round.Ok env) {r : DraftRequest H M} (hr : r ∈ round.batch) :
    numRejected env round.useSpecDecode r < r.numScheduledTokens := by
  have hfits := h.fits r hr
  unfold numRejected
  split
  · next hpos =>
      have hlen := List.length_pos_iff.mpr (h.sampled r hr hpos)
      omega
  · omega

theorem Round.Ok.numAccepted_pos (h : round.Ok env) {r : DraftRequest H M}
    (hr : r ∈ round.batch) : 0 < numAccepted env round.useSpecDecode r :=
  Nat.sub_pos_of_lt (h.numRejected_lt hr)

theorem numAccepted_le (env : Drafter H V O M) (useSpecDecode : Bool) (r : DraftRequest H M) :
    numAccepted env useSpecDecode r ≤ r.numScheduledTokens := Nat.sub_le _ _

/-- Without drafts nothing is rejected. -/
theorem Round.Ok.numAccepted_plain (h : round.Ok env) (hplain : round.useSpecDecode = false)
    {r : DraftRequest H M} (hr : r ∈ round.batch) :
    numAccepted env round.useSpecDecode r = r.numScheduledTokens := by
  have hzero := (h.plain hplain r hr).1
  rw [numAccepted, numRejected, hzero, if_neg (Nat.lt_irrefl 0), Nat.sub_zero]

/-! ## The batch cut to `n` rows -/

/-- The attention metadata of the first `n r` rows of each request. -/
def cutMetadata (env : Drafter H V O M) (n : DraftRequest H M → Nat)
    (batch : List (DraftRequest H M)) : CommonAttentionMetadata where
  queryStartLoc := cuSeqlens 0 (batch.map n)
  seqLens := batch.map fun r => r.numComputedTokens + n r
  blockTable := batch.map DraftRequest.blockTable
  slotMapping := batch.flatMap fun r => (r.slots env).take (n r)

theorem DraftRequest.length_rows (r : DraftRequest H M) :
    r.rows.length = r.numScheduledTokens := List.length_mapIdx

theorem DraftRequest.length_slots (r : DraftRequest H M) :
    (r.slots env).length = r.numScheduledTokens := List.length_mapIdx

theorem commonAttnMetadata_eq (batch : List (DraftRequest H M)) :
    commonAttnMetadata env batch = cutMetadata env DraftRequest.numScheduledTokens batch := by
  have hslots : batch.flatMap (DraftRequest.slots env) =
      batch.flatMap fun r => (r.slots env).take r.numScheduledTokens :=
    List.flatMap_congr fun r _ => (List.take_of_length_le (Nat.le_of_eq r.length_slots)).symm
  rw [commonAttnMetadata, cutMetadata, hslots]

theorem flatMap_rows (batch : List (DraftRequest H M)) :
    batch.flatMap DraftRequest.rows =
      batch.flatMap fun r => r.rows.take r.numScheduledTokens :=
  List.flatMap_congr fun r _ => (List.take_of_length_le (Nat.le_of_eq r.length_rows)).symm

/-- The sequence lengths behind the rejection. -/
theorem Round.Ok.seqLens_sub (h : round.Ok env) :
    List.zipWith (· - ·) (commonAttnMetadata env round.batch).seqLens
        (round.batch.map (numRejected env round.useSpecDecode)) =
      round.batch.map fun r => r.numComputedTokens + numAccepted env round.useSpecDecode r := by
  rw [commonAttnMetadata, List.zipWith_map, List.zipWith_self]
  exact List.map_congr_left fun r hr => Nat.add_sub_assoc (Nat.le_of_lt (h.numRejected_lt hr)) _

/-- The compacted batch. -/
theorem Round.Ok.prepareInputs_eq (h : round.Ok env) :
    ∃ tokenIndices, prepareInputs (commonAttnMetadata env round.batch)
        (round.batch.map (validSampledTokenIds env round.useSpecDecode))
        (round.batch.map DraftRequest.numDraftTokens) =
          some (cutMetadata env (numAccepted env round.useSpecDecode) round.batch,
            tokenIndices) ∧
      gather (round.batch.flatMap DraftRequest.rows) tokenIndices = some
        (round.batch.flatMap fun r => r.rows.take (numAccepted env round.useSpecDecode r)) := by
  have hrejected : List.zipWith
      (fun (n : Nat) (ids : List Int) => if 0 < n then n + 1 - ids.length else 0)
      (round.batch.map DraftRequest.numDraftTokens)
      (round.batch.map (validSampledTokenIds env round.useSpecDecode)) =
        round.batch.map (numRejected env round.useSpecDecode) := by
    rw [List.zipWith_map, List.zipWith_self]
    rfl
  have hlens : List.zipWith (· - ·) (commonAttnMetadata env round.batch).queryStartLoc.tail
      (commonAttnMetadata env round.batch).queryStartLoc =
        round.batch.map DraftRequest.numScheduledTokens := cuSeqlens_tail_sub 0 _
  have htokens : List.zipWith (· - ·) (round.batch.map DraftRequest.numScheduledTokens)
      (round.batch.map (numRejected env round.useSpecDecode)) =
        round.batch.map (numAccepted env round.useSpecDecode) := by
    rw [List.zipWith_map, List.zipWith_self]
    rfl
  let tokenIndices := (List.zipWith List.range'
    (bases DraftRequest.numScheduledTokens (fun _ => 0) round.batch)
    (round.batch.map (numAccepted env round.useSpecDecode))).flatten
  have hindices : List.zipWith (· + ·)
      (repeatBy (commonAttnMetadata env round.batch).queryStartLoc.dropLast
        (round.batch.map (numAccepted env round.useSpecDecode)))
      ((round.batch.map (numAccepted env round.useSpecDecode)).flatMap List.range) =
        tokenIndices := by
    rw [commonAttnMetadata, dropLast_cuSeqlens, ← bases_zero]
    exact repeatBy_add _ _ (by rw [length_bases, List.length_map])
  have hrows : ∀ {α : Type} (rows : DraftRequest H M → List α),
      (∀ r, (rows r).length = r.numScheduledTokens) →
        gather (round.batch.flatMap rows) tokenIndices = some
          (round.batch.flatMap fun r => (rows r).take (numAccepted env round.useSpecDecode r)) := by
    intro α rows hlen
    have hread := gather_bases round.batch rows [] DraftRequest.numScheduledTokens (fun _ => 0)
      (numAccepted env round.useSpecDecode)
      (fun r _ => hlen r) fun r _ => by
        rw [Nat.zero_add]
        exact numAccepted_le env _ r
    rw [List.append_nil] at hread
    exact hread
  refine ⟨tokenIndices, ?_, hrows _ DraftRequest.length_rows⟩
  unfold prepareInputs
  simp only [hrejected, hlens, htokens, cons_cumsum, getLast?_cuSeqlens, Nat.zero_add,
    dropLast_cuSeqlens, Option.bind_eq_bind, Option.bind_some, arange_sub, hindices,
    h.seqLens_sub]
  show (gather (round.batch.flatMap (DraftRequest.slots env)) tokenIndices).bind _ = _
  rw [hrows _ DraftRequest.length_slots, Option.bind_some]
  rfl

/-! ## The padded batch -/

/-- The padded kernel counts the valid tokens. -/
theorem nextTokenIdPadded_count (hlawful : env.Lawful) (r : DraftRequest H M) :
    (nextTokenIdPadded env r).2 = (validSampledTokenIds env true r).length := by
  rw [nextTokenIdPadded, hlawful.nextToken, validSampledTokenIds]
  cases r.discard <;> rfl

/-- Where the padded kernel samples. -/
theorem prepareInputsPadded_eq (hlawful : env.Lawful) {batch : List (DraftRequest H M)} {i : Nat}
    {r : DraftRequest H M} (hi : batch[i]? = some r)
    (hlt : numRejected env true r < r.numScheduledTokens) :
    env.prepareInputsPadded (cumsum (batch.map DraftRequest.numDraftTokens))
        (batch.map fun r => (nextTokenIdPadded env r).2)
        (commonAttnMetadata env batch).queryStartLoc i =
      (((batch.take i).map DraftRequest.numScheduledTokens).sum + (numAccepted env true r - 1),
        numRejected env true r) := by
  have hlen : i < batch.length := (List.getElem?_eq_some_iff.mp hi).1
  have hdrafts : (cumsum (batch.map DraftRequest.numDraftTokens)).getD i 0 -
      (if i = 0 then 0 else (cumsum (batch.map DraftRequest.numDraftTokens)).getD (i - 1) 0) =
        r.numDraftTokens := by
    rw [List.getD_eq_getElem?_getD, getElem?_cumsum _ (by rw [List.length_map]; exact hlen),
      Option.getD_some, sum_take_succ hi]
    cases i with
    | zero =>
        rw [if_pos rfl, List.take_zero]
        exact Nat.zero_add _
    | succ i =>
        rw [if_neg (Nat.succ_ne_zero i), Nat.add_sub_cancel, List.getD_eq_getElem?_getD,
          getElem?_cumsum _ (by rw [List.length_map]; omega), Option.getD_some, List.map_take,
          Nat.add_sub_cancel_left]
  have hcount : (batch.map fun r => (nextTokenIdPadded env r).2).getD i 0 =
      (validSampledTokenIds env true r).length := by
    rw [List.getD_eq_getElem?_getD, List.getElem?_map, hi, Option.map_some, Option.getD_some,
      nextTokenIdPadded_count hlawful]
  have hstart : (commonAttnMetadata env batch).queryStartLoc.getD (i + 1) 0 =
      ((batch.take i).map DraftRequest.numScheduledTokens).sum + r.numScheduledTokens := by
    rw [commonAttnMetadata, List.getD_eq_getElem?_getD,
      getElem?_cuSeqlens 0 _ (by rw [List.length_map]; exact hlen), Option.getD_some,
      Nat.zero_add, sum_take_succ hi]
  rw [hlawful.inputs]
  simp only [hdrafts, hcount, hstart]
  show (_ - 1 - numRejected env true r, numRejected env true r) = _
  rw [numAccepted]
  congr 1
  omega

theorem Round.Ok.preparedPadded (h : round.Ok env) (hlawful : env.Lawful)
    (hspec : round.useSpecDecode = true) :
    (List.range round.batch.length).map (env.prepareInputsPadded
        (cumsum (round.batch.map DraftRequest.numDraftTokens))
        (round.batch.map fun r => (nextTokenIdPadded env r).2)
        (commonAttnMetadata env round.batch).queryStartLoc) =
      (bases DraftRequest.numScheduledTokens
        (fun r => numAccepted env round.useSpecDecode r - 1) round.batch).zip
        (round.batch.map (numRejected env round.useSpecDecode)) := by
  apply List.ext_getElem?
  intro i
  by_cases hi : i < round.batch.length
  · have hget : round.batch[i]? = some round.batch[i] := List.getElem?_eq_getElem hi
    have hlt := h.numRejected_lt (List.getElem_mem hi)
    rw [hspec] at hlt ⊢
    rw [List.getElem?_map, List.getElem?_range hi, Option.map_some,
      prepareInputsPadded_eq hlawful hget hlt]
    exact (List.getElem?_zip_eq_some.mpr ⟨getElem?_bases hget, by
      rw [List.getElem?_map, hget, Option.map_some]⟩).symm
  · rw [List.getElem?_eq_none (by rw [List.length_map, List.length_range]; omega),
      List.getElem?_eq_none]
    rw [List.length_zip, length_bases, List.length_map, Nat.min_self]
    omega

/-! ## The common form -/

/-- The next token that a path puts behind a request. -/
def nextToken (env : Drafter H V O M) (disablePaddedDrafterBatch useSpecDecode : Bool)
    (r : DraftRequest H M) : Int :=
  if disablePaddedDrafterBatch then nextTokenIdCpu env useSpecDecode r
  else (nextTokenIdPadded env r).1

/-- A batch of the first `n r` rows of each request: the last accepted row is sampled, and the
sequence lengths end there. -/
structure CutTo (env : Drafter H V O M) (round : Round H M) (n : DraftRequest H M → Nat)
    (tokenIndices rejected : Option (List Nat)) : Prop where
  accepted : ∀ r ∈ round.batch, numAccepted env round.useSpecDecode r ≤ n r
  fits : ∀ r, n r ≤ r.numScheduledTokens
  sampleAt : tokenIndices.getD
      ((cutMetadata env n round.batch).queryStartLoc.tail.map (· - 1)) =
    bases n (fun r => numAccepted env round.useSpecDecode r - 1) round.batch
  seqLens : (rejected.map (List.zipWith (· - ·) (cutMetadata env n round.batch).seqLens)).getD
      (cutMetadata env n round.batch).seqLens =
    round.batch.map fun r => r.numComputedTokens + numAccepted env round.useSpecDecode r

/-- Where every row is accepted, or the others are cut away. -/
theorem cutTo_accepted {n : DraftRequest H M → Nat} (hfits : ∀ r, n r ≤ r.numScheduledTokens)
    (h : round.Ok env)
    (hn : ∀ r ∈ round.batch, n r = numAccepted env round.useSpecDecode r) :
    CutTo env round n none none where
  accepted := fun r hr => Nat.le_of_eq (hn r hr).symm
  fits := hfits
  sampleAt := by
    have hpos : ∀ r ∈ round.batch, 0 < n r := fun r hr => by
      rw [hn r hr]
      exact h.numAccepted_pos hr
    rw [Option.getD_none]
    refine (cumsum_sub_one hpos).trans ?_
    have hlast : (round.batch.map fun r => n r - 1) =
        round.batch.map fun r => numAccepted env round.useSpecDecode r - 1 :=
      List.map_congr_left fun r hr => by rw [hn r hr]
    rw [bases, bases, List.map_congr_left hn, hlast]
  seqLens := List.map_congr_left fun r hr => by rw [hn r hr]

theorem Round.Ok.proposeDraftTokenIds_eq (h : round.Ok env) (hlawful : env.Lawful)
    (disablePaddedDrafterBatch : Bool) :
    ∃ n tokenIndices rejected, CutTo env round n tokenIndices rejected ∧ ∀ stale cache,
      proposeDraftTokenIds env disablePaddedDrafterBatch round.useSpecDecode round.batch stale
          cache =
        propose env (round.batch.flatMap fun r => r.rows.take (n r))
          (round.batch.map (nextToken env disablePaddedDrafterBatch round.useSpecDecode))
          (round.batch.map DraftRequest.samplingMetadata) tokenIndices
          (cutMetadata env n round.batch) rejected stale cache := by
  cases hspec : round.useSpecDecode with
  | false =>
      refine ⟨DraftRequest.numScheduledTokens, none, none,
        cutTo_accepted (fun r => Nat.le_refl _) h fun r hr =>
          (h.numAccepted_plain hspec hr).symm, fun stale cache => ?_⟩
      unfold proposeDraftTokenIds
      simp only [commonAttnMetadata_eq, flatMap_rows, if_true]
      cases disablePaddedDrafterBatch <;> rfl
  | true =>
      cases disablePaddedDrafterBatch with
      | true =>
          obtain ⟨tokenIndices, hprepared, hrows⟩ := h.prepareInputs_eq
          rw [hspec] at hprepared hrows
          refine ⟨numAccepted env true, none, none,
            cutTo_accepted (numAccepted_le env true) h fun r _ => by rw [hspec],
            fun stale cache => ?_⟩
          unfold proposeDraftTokenIds
          simp only [hprepared, hrows, Option.bind_eq_bind, Option.bind_some, if_true,
            Bool.true_eq_false, if_false]
          rfl
      | false =>
          have hprepared := h.preparedPadded hlawful hspec
          rw [hspec, commonAttnMetadata_eq] at hprepared
          have hzip : (bases DraftRequest.numScheduledTokens
              (fun r => numAccepted env true r - 1) round.batch).length =
                (round.batch.map (numRejected env true)).length := by
            rw [length_bases, List.length_map]
          refine ⟨DraftRequest.numScheduledTokens,
            some (bases DraftRequest.numScheduledTokens (fun r => numAccepted env true r - 1)
              round.batch),
            some (round.batch.map (numRejected env true)), ?_, fun stale cache => ?_⟩
          · exact
              { accepted := fun r _ => numAccepted_le env _ r
                fits := fun r => Nat.le_refl _
                sampleAt := by rw [Option.getD_some, hspec]
                seqLens := by
                  rw [Option.map_some, Option.getD_some, ← commonAttnMetadata_eq, ← hspec]
                  exact h.seqLens_sub }
          · unfold proposeDraftTokenIds
            simp only [commonAttnMetadata_eq, flatMap_rows, Bool.true_eq_false, if_false,
              Bool.false_eq_true, hprepared, List.map_fst_zip (Nat.le_of_eq hzip),
              List.map_snd_zip (Nat.le_of_eq hzip.symm)]
            rfl

end FlashNext.Ports.PaddedDrafts
