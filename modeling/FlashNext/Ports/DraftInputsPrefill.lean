import FlashNext.Ports.DraftInputs

/-!
# Draft inputs: the prefill

Every request finds the target's ids shifted by one in its own range, with its next token
at its last accepted index.  The padding behind the requests is written once.
-/

namespace FlashNext.Ports.Draft

open FlashNext.Verified.Launch

variable {H Slots : Type} {env : DraftEnv H Slots} {cfg : SpeculatorConfig}
  {args : ProposeArgs H Slots} {s : Speculator H Slots}

/-! ## Batches -/

/-- The programs of a launch run in some order, each once. -/
def DraftEnv.Lawful (env : DraftEnv H Slots) : Prop :=
  ∀ n, (env.order n).Perm (List.range n)

/-- Every request keeps a token after the rejections; its positions are consecutive, end
at the sequence length and fit the model. -/
structure ValidBatch (cfg : SpeculatorConfig) (args : ProposeArgs H Slots) : Prop where
  nonempty : 0 < args.inputBatch.numReqs
  le_max : args.inputBatch.numReqs ≤ cfg.maxNumReqs
  starts : ∀ r < args.inputBatch.numReqs,
    args.inputBatch.queryStartLoc r ≤ args.inputBatch.queryStartLoc (r + 1)
  accepted : ∀ r < args.inputBatch.numReqs, args.numRejected r <
    args.inputBatch.queryStartLoc (r + 1) - args.inputBatch.queryStartLoc r
  positions : ∀ r < args.inputBatch.numReqs, ∀ k,
    k < args.inputBatch.queryStartLoc (r + 1) - args.inputBatch.queryStartLoc r →
      args.inputBatch.positions (args.inputBatch.queryStartLoc r + k) +
        (args.inputBatch.queryStartLoc (r + 1) - args.inputBatch.queryStartLoc r) =
          args.inputBatch.seqLens r + k
  seqLen_le : ∀ r < args.inputBatch.numReqs, args.inputBatch.seqLens r ≤ cfg.maxModelLen

/-- The rows of a request that the draft prefill takes. -/
def InQuery (args : ProposeArgs H Slots) (r j : Nat) : Prop :=
  args.inputBatch.queryStartLoc r ≤ j ∧
    j < args.inputBatch.queryStartLoc r + queryLen args r

/-- The position of the last accepted token. -/
def lastPosition (args : ProposeArgs H Slots) (r : Nat) : Nat :=
  args.inputBatch.seqLens r - args.numRejected r - 1

theorem DraftEnv.Lawful.mem (h : env.Lawful) {n r : Nat} : r ∈ env.order n ↔ r < n :=
  (h n).mem_iff.trans List.mem_range

section Batch

variable (hbatch : ValidBatch cfg args)

include hbatch

theorem queryLen_pos {r : Nat} (hr : r < args.inputBatch.numReqs) : 0 < queryLen args r := by
  have hlt := hbatch.accepted r hr
  unfold queryLen
  omega

theorem starts_le {r r' : Nat} (hlt : r < r') (hr' : r' ≤ args.inputBatch.numReqs) :
    args.inputBatch.queryStartLoc (r + 1) ≤ args.inputBatch.queryStartLoc r' := by
  induction r' with
  | zero => exact absurd hlt (Nat.not_lt_zero r)
  | succ r' ih =>
      rcases Nat.lt_or_eq_of_le (Nat.le_of_lt_succ hlt) with hless | rfl
      · exact Nat.le_trans (ih hless (Nat.le_of_succ_le hr')) (hbatch.starts r' hr')
      · exact Nat.le_refl _

/-- No two requests share a row. -/
theorem inQuery_unique {r r' j : Nat} (hr : r < args.inputBatch.numReqs)
    (hr' : r' < args.inputBatch.numReqs) (h : InQuery args r j) (h' : InQuery args r' j) :
    r' = r := by
  have hrange : ∀ q < args.inputBatch.numReqs, InQuery args q j →
      j < args.inputBatch.queryStartLoc (q + 1) := by
    rintro q hq ⟨hge, hlt⟩
    have hstart := hbatch.starts q hq
    unfold queryLen at hlt
    omega
  by_contra hne
  rcases Nat.lt_or_gt_of_ne hne with hless | hmore
  · have hle := starts_le hbatch hless (Nat.le_of_lt hr)
    have hend := hrange r' hr' h'
    exact absurd h.1 (by omega)
  · have hle := starts_le hbatch hmore (Nat.le_of_lt hr')
    have hend := hrange r hr h
    exact absurd h'.1 (by omega)

theorem lastTokenIndex_inQuery {r : Nat} (hr : r < args.inputBatch.numReqs) :
    InQuery args r (lastTokenIndex args r) := by
  have hpos := queryLen_pos hbatch hr
  unfold InQuery lastTokenIndex
  omega

/-- A program stores in its own range only. -/
theorem inQuery_of_prefillIds {r j : Nat} {v : Int} (hr : r < args.inputBatch.numReqs)
    (h : prefillIds args r j = some v) : InQuery args r j := by
  unfold prefillIds at h
  dsimp only at h
  split at h
  · next hlast => exact hlast ▸ lastTokenIndex_inQuery hbatch hr
  · split at h
    · next hrange => exact ⟨hrange.1, by omega⟩
    · cases h

omit hbatch in
theorem inQuery_of_prefillPositions {r j v : Nat} (h : prefillPositions args r j = some v) :
    InQuery args r j := by
  unfold prefillPositions at h
  dsimp only at h
  split at h
  · next hrange => exact hrange
  · cases h

/-- The position of the last accepted row. -/
theorem position_last {r : Nat} (hr : r < args.inputBatch.numReqs) :
    args.inputBatch.positions (lastTokenIndex args r) = lastPosition args r := by
  have hlt := hbatch.accepted r hr
  obtain ⟨len, hlen⟩ : ∃ len, len = args.inputBatch.queryStartLoc (r + 1) -
    args.inputBatch.queryStartLoc r := ⟨_, rfl⟩
  rw [← hlen] at hlt
  have hposition := hbatch.positions r hr (len - args.numRejected r - 1) (by omega)
  have hindex : lastTokenIndex args r =
      args.inputBatch.queryStartLoc r + (len - args.numRejected r - 1) := by
    unfold lastTokenIndex queryLen
    omega
  rw [hindex]
  unfold lastPosition
  rw [← hlen] at hposition
  omega

theorem lastPosition_lt {r : Nat} (hr : r < args.inputBatch.numReqs) :
    lastPosition args r + 1 = args.inputBatch.seqLens r - args.numRejected r ∧
      lastPosition args r < cfg.maxModelLen := by
  have hlt := hbatch.accepted r hr
  have hle := hbatch.seqLen_le r hr
  have hfirst := hbatch.positions r hr 0 (by omega)
  unfold lastPosition
  omega

end Batch

/-! ## The preparation -/

/-- What the preparation of the prefill leaves. -/
structure PrefillPrepared (cfg : SpeculatorConfig) (args : ProposeArgs H Slots)
    (s t : Speculator H Slots) : Prop where
  shifted : ∀ r < args.inputBatch.numReqs, ∀ k, k + 1 < queryLen args r →
    t.inputIds (args.inputBatch.queryStartLoc r + k) =
      args.inputBatch.inputIds (args.inputBatch.queryStartLoc r + k + 1)
  next : ∀ r < args.inputBatch.numReqs,
    t.lastTokenIndices r = args.inputBatch.queryStartLoc r + queryLen args r - 1 ∧
      t.inputIds (args.inputBatch.queryStartLoc r + queryLen args r - 1) = nextToken args r
  positions : ∀ r < args.inputBatch.numReqs, ∀ k < queryLen args r,
    t.positions (args.inputBatch.queryStartLoc r + k) =
      args.inputBatch.positions (args.inputBatch.queryStartLoc r + k)
  untouched : ∀ j, (∀ r < args.inputBatch.numReqs, ¬ InQuery args r j) →
    t.inputIds j = s.inputIds j ∧ t.positions j = s.positions j
  queryStartLoc : ∀ j ≤ cfg.maxNumReqs, t.queryStartLoc j =
    args.inputBatch.queryStartLoc (min j args.inputBatch.numReqs)
  seqLens : ∀ j < cfg.maxNumReqs, t.seqLens j =
    if j < args.inputBatch.numReqs then args.inputBatch.seqLens j else 0
  lastTokenTail : ∀ j, args.inputBatch.numReqs ≤ j → j < cfg.maxNumReqs →
    t.lastTokenIndices j = 0
  currentDraftStep : t.currentDraftStep = 0

theorem launch_padded (hlaw : env.Lawful) {n : Nat} (hn : 0 < n) (stop pad : Nat)
    (value buf : Nat → Nat) (j : Nat) :
    launch (env.order n) (padded n stop value pad) buf j =
      if j < n then value j else if j < stop then pad else buf j := by
  by_cases hj : j < n
  · rw [if_pos hj]
    refine launch_of_some (hlaw.mem.mpr hj) (if_pos rfl) fun r' _ v' hv' => ?_
    unfold padded at hv'
    split at hv'
    · next heq =>
        cases hv'
        rw [heq]
    · split at hv'
      · next hpad => omega
      · cases hv'
  · rw [if_neg hj]
    by_cases hstop : j < stop
    · rw [if_pos hstop]
      refine launch_of_some (hlaw.mem.mpr (Nat.sub_lt hn Nat.one_pos)) ?_ fun r' hr' v' hv' => ?_
      · unfold padded
        rw [if_neg (by omega)]
        exact if_pos ⟨rfl, Nat.not_lt.mp hj, hstop⟩
      · have hlt := hlaw.mem.mp hr'
        unfold padded at hv'
        rw [if_neg (by omega)] at hv'
        split at hv'
        · cases hv'
          rfl
        · cases hv'
    · rw [if_neg hstop]
      refine launch_of_none fun r hr => ?_
      have hlt := hlaw.mem.mp hr
      unfold padded
      rw [if_neg (by omega), if_neg (fun h => hstop h.2.2)]

theorem preparePrefillInputs_spec (hlaw : env.Lawful) (hbatch : ValidBatch cfg args)
    (s : Speculator H Slots) :
    PrefillPrepared cfg args s (preparePrefillInputs env cfg args s) := by
  have hpadded := launch_padded hlaw hbatch.nonempty
  -- Whoever stores at a row of request `r` is program `r`.
  have hids : ∀ r < args.inputBatch.numReqs, ∀ j v, InQuery args r j →
      prefillIds args r j = some v →
      (preparePrefillInputs env cfg args s).inputIds j = v := by
    intro r hr j v hj hv
    refine launch_of_some (hlaw.mem.mpr hr) hv fun r' hr' v' hv' => ?_
    have hr' := hlaw.mem.mp hr'
    have hsame := inQuery_unique hbatch hr hr' hj (inQuery_of_prefillIds hbatch hr' hv')
    rw [hsame, hv] at hv'
    exact (Option.some.inj hv').symm
  refine
    { shifted := ?_
      next := ?_
      positions := ?_
      untouched := ?_
      queryStartLoc := ?_
      seqLens := ?_
      lastTokenTail := ?_
      currentDraftStep := if_pos hbatch.nonempty }
  · intro r hr k hk
    refine hids r hr _ _ ⟨Nat.le_add_right _ _, by omega⟩ ?_
    unfold prefillIds lastTokenIndex
    dsimp only
    rw [if_neg (by omega), if_pos ⟨Nat.le_add_right _ _, by omega⟩]
  · intro r hr
    refine ⟨(hpadded _ _ _ _ r).trans (if_pos hr), ?_⟩
    exact hids r hr _ _ (lastTokenIndex_inQuery hbatch hr) (if_pos rfl)
  · intro r hr k hk
    have hrange : InQuery args r (args.inputBatch.queryStartLoc r + k) :=
      ⟨Nat.le_add_right _ _, by omega⟩
    refine launch_of_some (hlaw.mem.mpr hr) (if_pos hrange) fun r' hr' v' hv' => ?_
    have hsame := inQuery_unique hbatch hr (hlaw.mem.mp hr') hrange
      (inQuery_of_prefillPositions hv')
    rw [hsame] at hv'
    exact (Option.some.inj ((if_pos hrange).symm.trans hv')).symm
  · intro j hnone
    constructor
    · refine launch_of_none fun r hr => ?_
      have hr := hlaw.mem.mp hr
      cases hw : prefillIds args r j with
      | none => rfl
      | some v => exact absurd (inQuery_of_prefillIds hbatch hr hw) (hnone r hr)
    · refine launch_of_none fun r hr => ?_
      cases hw : prefillPositions args r j with
      | none => rfl
      | some v => exact absurd (inQuery_of_prefillPositions hw) (hnone r (hlaw.mem.mp hr))
  · intro j hj
    refine (hpadded _ _ _ _ j).trans ?_
    by_cases hlt : j < args.inputBatch.numReqs
    · rw [if_pos hlt, Nat.min_eq_left (Nat.le_of_lt hlt)]
    · rw [if_neg hlt, if_pos (Nat.lt_succ_of_le hj), Nat.min_eq_right (Nat.not_lt.mp hlt)]
  · intro j hj
    refine (hpadded _ _ _ _ j).trans ?_
    rw [if_pos hj]
  · intro j hge hj
    refine (hpadded _ _ _ _ j).trans ?_
    rw [if_neg (Nat.not_lt.mpr hge), if_pos hj]

end FlashNext.Ports.Draft
