import FlashNext.Ports.PaddedDraftsSteps

/-!
# A proposal, request by request

What the drafter proposes for a request follows from the request and the cache behind the first
pass, whichever batch that pass ran on.
-/

namespace FlashNext.Ports.PaddedDrafts

open FlashNext.Verified.Ragged
open FlashNext.Verified.Varlen

variable {H V O M : Type} {env : Drafter H V O M} {round : Round H M}

/-! ## The passes -/

/-- What the passes have left, as functions of the request. -/
structure Passes (H V M : Type) where
  ids : DraftRequest H M → Int
  hidden : DraftRequest H M → H
  columns : List (DraftRequest H M → Int)
  cache : Nat → V

/-- A later pass. -/
def Passes.step (env : Drafter H V O M) (round : Round H M) (t : Nat) (s : Passes H V M) :
    Passes H V M :=
  let ids := fun r => env.sampleDraft (t + 1) r.samplingMetadata
    (draftOutput env round t s.ids s.hidden s.cache r).1
  { ids := ids
    hidden := fun r => (draftOutput env round t s.ids s.hidden s.cache r).2
    columns := s.columns ++ [ids]
    cache := draftCache env round t s.ids s.hidden s.cache }

/-- What the cache holds behind the first pass: the accepted rows have left their entries, and
the slots of nobody are as they were. -/
structure FirstEntries (env : Drafter H V O M) (round : Round H M)
    (next : DraftRequest H M → Int) (cache stored : Nat → V) : Prop where
  frame : ∀ s ∉ round.batch.flatMap (ownedSlots env), stored s = cache s
  accepted : ∀ r ∈ round.batch, ∀ (j : Nat) (row : Row H),
    (acceptedRows env round.useSpecDecode next r)[j]? = some row →
      stored (env.slot r.blockTable (r.numComputedTokens + j)) = env.keyValue row

/-- Columns of drafts, read row by row. -/
theorem stackColumns_map (batch : List (DraftRequest H M))
    (columns : List (DraftRequest H M → Int)) :
    stackColumns batch.length (columns.map fun column => batch.map column) =
      batch.map fun r => columns.map fun column => column r := by
  apply List.ext_getElem?
  intro i
  by_cases hi : i < batch.length
  · rw [stackColumns, List.getElem?_map, List.getElem?_range hi, List.getElem?_map,
      List.getElem?_eq_getElem hi, Option.map_some, Option.map_some, List.filterMap_map]
    congr 1
    rw [← List.filterMap_eq_map]
    refine List.filterMap_congr fun column _ => ?_
    show (batch.map column)[i]? = _
    rw [List.getElem?_map, List.getElem?_eq_getElem hi]
    rfl
  · rw [List.getElem?_eq_none (by rw [stackColumns, List.length_map, List.length_range]; omega),
      List.getElem?_eq_none (by rw [List.length_map]; omega)]

section Passes

variable [Inhabited H]

/-- What the model gives for the last accepted row of a request. -/
def firstOutput (env : Drafter H V O M) (round : Round H M) (next : DraftRequest H M → Int)
    (stored : Nat → V) (r : DraftRequest H M) : O × H :=
  env.attend (lastRow env round.useSpecDecode next r) (context env stored r.blockTable
    (r.numComputedTokens + (numAccepted env round.useSpecDecode r - 1) + 1))

/-- The passes, `t` steps behind the first one. -/
def passes (env : Drafter H V O M) (round : Round H M) (next : DraftRequest H M → Int)
    (stored : Nat → V) : Nat → Passes H V M
  | 0 =>
      let ids := fun r => env.sampleDraft 0 r.samplingMetadata
        (firstOutput env round next stored r).1
      ⟨ids, fun r => (firstOutput env round next stored r).2, [ids], stored⟩
  | t + 1 => (passes env round next stored t).step env round t

/-- The drafts of a request. -/
def draftsOf (env : Drafter H V O M) (round : Round H M) (next : DraftRequest H M → Int)
    (stored : Nat → V) (r : DraftRequest H M) : List Int :=
  if env.numSpeculativeTokens = 0 then []
  else (passes env round next stored (env.numSpeculativeTokens - 1)).columns.map fun column =>
    column r

theorem foldl_draftStep (hlawful : env.Lawful) (h : round.Ok env)
    {next : DraftRequest H M → Int} {stored : Nat → V} {s : Drafting H V}
    (hs : Represents env round 0 (passes env round next stored 0).ids
      (passes env round next stored 0).hidden (passes env round next stored 0).columns s)
    (hcache : s.cache = stored) {t : Nat}
    (hroom : ∀ r ∈ round.batch,
      r.numComputedTokens + numAccepted env round.useSpecDecode r + t ≤ env.maxModelLen) :
    let drafted := (List.range t).foldl (draftStep env (round.batch.map DraftRequest.blockTable)
      (round.batch.map DraftRequest.samplingMetadata)) s
    Represents env round t (passes env round next stored t).ids
        (passes env round next stored t).hidden (passes env round next stored t).columns drafted ∧
      drafted.cache = (passes env round next stored t).cache := by
  induction t with
  | zero => exact ⟨hs, hcache⟩
  | succ t ih =>
      obtain ⟨hrep, hcache⟩ := ih fun r hr => Nat.le_of_succ_le (hroom r hr)
      intro drafted
      have hstep := draftStep_represents hlawful h (fun r hr => hroom r hr) hrep t
      rw [hcache] at hstep
      have hfold : drafted = draftStep env (round.batch.map DraftRequest.blockTable)
          (round.batch.map DraftRequest.samplingMetadata)
          ((List.range t).foldl (draftStep env (round.batch.map DraftRequest.blockTable)
            (round.batch.map DraftRequest.samplingMetadata)) s) t := by
        show (List.range (t + 1)).foldl _ s = _
        rw [List.range_succ, List.foldl_append]
        rfl
      rw [hfold]
      exact hstep

/-- What is proposed. -/
theorem propose_eq (hlawful : env.Lawful) (h : round.Ok env) {n : DraftRequest H M → Nat}
    {tokenIndices rejected : Option (List Nat)} (hcut : CutTo env round n tokenIndices rejected)
    (hroom : ∀ r ∈ round.batch, r.numComputedTokens + numAccepted env round.useSpecDecode r +
      env.numSpeculativeTokens ≤ env.maxModelLen)
    (next : DraftRequest H M → Int) (stale : Nat → Int) (cache : Nat → V) :
    ∃ stored, FirstEntries env round next cache stored ∧
      propose env (round.batch.flatMap fun r => r.rows.take (n r)) (round.batch.map next)
          (round.batch.map DraftRequest.samplingMetadata) tokenIndices
          (cutMetadata env n round.batch) rejected stale cache =
        some (round.batch.map (draftsOf env round next stored),
          (passes env round next stored (env.numSpeculativeTokens - 1)).cache) := by
  obtain ⟨pieces, hfst, hsnd, hpieces⟩ :=
    exists_pieces hcut.fits h hcut.accepted next stale
  have hmem : ∀ q ∈ pieces, q.1 ∈ round.batch := fun q hq => hfst ▸ List.mem_map_of_mem hq
  let stored := store env (cutMetadata env n round.batch).slotMapping (pieces.flatMap Prod.snd)
    cache
  have hforward : forward env (cutMetadata env n round.batch) (pieces.flatMap Prod.snd) cache =
      (pieces.flatMap fun q => q.2.mapIdx fun j row => env.attend row
        (context env stored q.1.blockTable (q.1.numComputedTokens + j + 1)), stored) := by
    have hpass := forward_pieces env (n := n) (fun q hq => (hpieces q hq).1) cache
    rw [hfst] at hpass
    exact hpass
  have hpos : ∀ q ∈ pieces, 0 < numAccepted env round.useSpecDecode q.1 :=
    fun q hq => h.numAccepted_pos (hmem q hq)
  have hacc : ∀ q ∈ pieces, numAccepted env round.useSpecDecode q.1 ≤ n q.1 :=
    fun q hq => hcut.accepted q.1 (hmem q hq)
  have houtputs : gather (pieces.flatMap fun q => q.2.mapIdx fun j row => env.attend row
      (context env stored q.1.blockTable (q.1.numComputedTokens + j + 1)))
        (bases n (fun r => numAccepted env round.useSpecDecode r - 1) round.batch) =
          some (round.batch.map (firstOutput env round next stored)) := by
    have hread := gather_last hpos hacc hpieces fun r j row =>
      env.attend row (context env stored r.blockTable (r.numComputedTokens + j + 1))
    rw [hfst] at hread
    exact hread
  have hrows : gather (pieces.flatMap Prod.snd)
      (bases n (fun r => numAccepted env round.useSpecDecode r - 1) round.batch) =
        some (round.batch.map (lastRow env round.useSpecDecode next)) := by
    have hread := gather_last hpos hacc hpieces fun _ _ row => row
    have hident : (pieces.flatMap fun q => q.2.mapIdx fun _ row => row) =
        pieces.flatMap Prod.snd := List.flatMap_congr fun q _ => List.mapIdx_eq_iff.mpr (by simp)
    rw [hident, hfst] at hread
    exact hread
  have hids : List.zipWith (env.sampleDraft 0) (round.batch.map DraftRequest.samplingMetadata)
      ((round.batch.map (firstOutput env round next stored)).map Prod.fst) =
        round.batch.map (passes env round next stored 0).ids := by
    rw [List.map_map, List.zipWith_map, List.zipWith_self]
    rfl
  have hhidden : (round.batch.map (firstOutput env round next stored)).map Prod.snd =
      round.batch.map (passes env round next stored 0).hidden := by
    rw [List.map_map]
    rfl
  have hpositions : (round.batch.map (lastRow env round.useSpecDecode next)).map Row.position =
      round.batch.map fun r =>
        r.numComputedTokens + (numAccepted env round.useSpecDecode r - 1) := by
    rw [List.map_map]
    rfl
  refine ⟨stored,
    { frame := fun s hs => stored_frame hcut.fits hs _ cache
      accepted := fun r hr j row hrow =>
        stored_accepted hcut.fits h hcut.accepted hfst hpieces hr hrow cache }, ?_⟩
  unfold propose
  simp only [hcut.sampleAt, ← hsnd, hforward, houtputs, hrows, hids, hhidden, hpositions,
    hcut.seqLens, Option.bind_eq_bind, Option.bind_some]
  by_cases hnone : env.numSpeculativeTokens = 0
  · have hdrafts : draftsOf env round next stored = fun _ => [] := funext fun r => if_pos hnone
    rw [if_pos hnone, hdrafts, hnone, List.map_const']
    show some (List.replicate (round.batch.map _).length _, _) = _
    rw [List.length_map]
    rfl
  · have hdrafts : draftsOf env round next stored = fun r =>
        (passes env round next stored (env.numSpeculativeTokens - 1)).columns.map fun column =>
          column r := funext fun r => if_neg hnone
    rw [if_neg hnone, hdrafts]
    by_cases hone : env.numSpeculativeTokens = 1
    · rw [if_pos hone, hone, List.map_map]
      rfl
    · rw [if_neg hone]
      let start : Drafting H V := {
        draftTokenIds := round.batch.map (passes env round next stored 0).ids
        positions := round.batch.map fun r =>
          r.numComputedTokens + (numAccepted env round.useSpecDecode r - 1)
        hiddenStates := round.batch.map (passes env round next stored 0).hidden
        seqLens := round.batch.map fun r =>
          r.numComputedTokens + numAccepted env round.useSpecDecode r
        cache := stored
        draftTokenIdsList := [round.batch.map (passes env round next stored 0).ids] }
      have hstart : Represents env round 0 (passes env round next stored 0).ids
          (passes env round next stored 0).hidden (passes env round next stored 0).columns start :=
        ⟨rfl, rfl, rfl, rfl, rfl⟩
      have hloop := foldl_draftStep hlawful h hstart rfl (t := env.numSpeculativeTokens - 1)
        fun r hr => Nat.le_trans (Nat.add_le_add_left (Nat.sub_le _ _) _) (hroom r hr)
      have hcolumns := hloop.1.columns
      show some (stackColumns (round.batch.map _).length _, _) = _
      rw [List.length_map]
      show some (stackColumns round.batch.length ((List.range (env.numSpeculativeTokens - 1)).foldl
        (draftStep env _ _) start).draftTokenIdsList, ((List.range _).foldl
          (draftStep env _ _) start).cache) = _
      rw [← stackColumns_map, ← hcolumns, ← hloop.2]
      rfl

end Passes

end FlashNext.Ports.PaddedDrafts
