import FlashNext.Ports.PleRegistration
import Mathlib.Data.List.Perm.Subperm
import Mathlib.Data.List.ProdSigma

/-!
# Registration is accepted exactly when it is complete

The checks say that every cell of the grid is among the registered ranks.
There are as many registrations as cells, so each cell registers once.
-/

namespace FlashNext.Ports.PleRegistration

open FlashNext.Verified.Checked FlashNext.Verified.OrderedDicts

variable {B : Type}

/-! ## The grid -/

/-- The ranks of the DP x TP grid. -/
def grid (dpSize tpSize : Nat) : List (Int × Int) := ranks dpSize ×ˢ ranks tpSize

theorem ranks_nodup (n : Nat) : (ranks n).Nodup :=
  List.nodup_range.map fun _ _ h => Int.ofNat.inj h

theorem length_ranks (n : Nat) : (ranks n).length = n := by
  rw [ranks, List.length_map, List.length_range]

theorem mem_grid {dpSize tpSize : Nat} {cell : Int × Int} :
    cell ∈ grid dpSize tpSize ↔ cell.1 ∈ ranks dpSize ∧ cell.2 ∈ ranks tpSize :=
  List.mem_product

def cellOf (r : Registration B) : Int × Int := (r.dpRank, r.tpRank)

/-- One registration for each cell, naming the layers of the worker. -/
structure Complete (runner : Runner B) (registrations : List (Registration B)) : Prop where
  cells : (registrations.map cellOf).Perm (grid runner.dpSize runner.tpSize)
  layers : ∀ r ∈ registrations, SameSet (keys r.gpuOutputBuffers) runner.layerNames

/-- A grid that is covered by as many cells as it has is covered once. -/
theorem perm_of_covers {dpSize tpSize : Nat} {cells : List (Int × Int)}
    (hlength : cells.length = dpSize * tpSize)
    (hcovers : ∀ cell ∈ grid dpSize tpSize, cell ∈ cells) :
    cells.Perm (grid dpSize tpSize) := by
  have hnodup : (grid dpSize tpSize).Nodup := (ranks_nodup dpSize).product (ranks_nodup tpSize)
  have hgrid : (grid dpSize tpSize).length = dpSize * tpSize := by
    rw [grid, List.length_product, length_ranks, length_ranks]
  have hsub := List.subperm_of_subset hnodup hcovers
  exact (hsub.perm_of_length_le (Nat.le_of_eq (hlength.trans hgrid.symm))).symm

/-! ## The messages -/

theorem receiveAll_eq_ok {recv : Nat → Message B} {numWorkers : Nat} {indices : List Nat}
    {registrations : List (Registration B)} :
    indices.mapM (receive recv numWorkers) = .ok registrations ↔
      indices.map recv = registrations.map Message.registration := by
  induction indices generalizing registrations with
  | nil =>
      cases registrations with
      | nil => exact iff_of_true rfl rfl
      | cons r rest =>
          constructor
          · intro h
            cases h
          · intro h
            cases h
  | cons index indices ih =>
      rw [List.mapM_cons, bind_eq_ok, List.map_cons]
      constructor
      · rintro ⟨r, hr, h⟩
        obtain ⟨rest, hrest, h⟩ := bind_eq_ok.mp h
        cases h
        rw [List.map_cons, ih.mp hrest]
        unfold receive at hr
        split at hr
        · next r' hmessage =>
            cases hr
            rw [hmessage]
        · cases hr
      · intro h
        cases registrations with
        | nil => cases h
        | cons r rest =>
            rw [List.map_cons, List.cons.injEq] at h
            refine ⟨r, ?_, bind_eq_ok.mpr ⟨rest, ih.mpr h.2, rfl⟩⟩
            unfold receive
            rw [h.1]

/-! ## The ranks of each DP rank -/

theorem registrationsByDp_eq (registrations : List (Registration B)) :
    registrationsByDp registrations =
      appendAll (registrations.map fun r => (r.dpRank, r)) [] := by
  rw [appendAll, List.foldl_map]
  rfl

theorem mem_keys_registrationsByDp {registrations : List (Registration B)} {dp : Int} :
    dp ∈ keys (registrationsByDp registrations) ↔ ∃ r ∈ registrations, r.dpRank = dp := by
  rw [registrationsByDp_eq, mem_keys_appendAll]
  simp [keys]

/-- The registrations of a DP rank, in the order of their arrival. -/
def ofDp (registrations : List (Registration B)) (dp : Int) : List (Registration B) :=
  registrations.filter fun r => r.dpRank = dp

theorem get_registrationsByDp {registrations : List (Registration B)} {dp : Int}
    (h : dp ∈ keys (registrationsByDp registrations)) :
    get dp (registrationsByDp registrations) = some (ofDp registrations dp) := by
  rw [get_of_mem_keys h, registrationsByDp_eq, listAt_appendAll, List.filter_map, List.map_map]
  show some ([] ++ List.map id _) = _
  rw [List.map_id, List.nil_append]
  rfl

theorem nodup_registrationsByDp (registrations : List (Registration B)) :
    (keys (registrationsByDp registrations)).Nodup := by
  rw [registrationsByDp_eq]
  exact nodup_appendAll List.nodup_nil

/-- The checks of the ranks. -/
structure RanksOk (runner : Runner B) (registrations : List (Registration B)) : Prop where
  count : registrations.length = runner.dpSize * runner.tpSize
  dpRanks : SameSet (keys (registrationsByDp registrations)) (ranks runner.dpSize)
  tpRanks : ∀ group ∈ registrationsByDp registrations,
    SameSet (group.2.map fun r => r.tpRank) (ranks runner.tpSize)

/-- The checks of the ranks leave one registration for each cell. -/
theorem ranksOk_iff {runner : Runner B} (htp : 0 < runner.tpSize)
    {registrations : List (Registration B)} :
    RanksOk runner registrations ↔
      (registrations.map cellOf).Perm (grid runner.dpSize runner.tpSize) := by
  constructor
  · intro h
    apply perm_of_covers
    · rw [List.length_map, h.count]
    · rintro ⟨dp, tp⟩ hcell
      obtain ⟨hdp, htp⟩ := mem_grid.mp hcell
      have hkey := h.dpRanks.2 dp hdp
      have hgroup := mem_of_get (get_registrationsByDp hkey)
      obtain ⟨r, hr, htpRank⟩ := List.mem_map.mp ((h.tpRanks _ hgroup).2 tp htp)
      obtain ⟨hr, hdpRank⟩ := List.mem_filter.mp hr
      have hdpRank := of_decide_eq_true hdpRank
      exact List.mem_map.mpr ⟨r, hr, by rw [cellOf, hdpRank, htpRank]⟩
  · intro h
    have hmem : ∀ r ∈ registrations,
        r.dpRank ∈ ranks runner.dpSize ∧ r.tpRank ∈ ranks runner.tpSize :=
      fun r hr => mem_grid.mp (h.subset (List.mem_map.mpr ⟨r, hr, rfl⟩))
    have hcell : ∀ dp ∈ ranks runner.dpSize, ∀ tp ∈ ranks runner.tpSize,
        ∃ r ∈ registrations, r.dpRank = dp ∧ r.tpRank = tp := by
      intro dp hdp tp htp
      have hin : (dp, tp) ∈ grid runner.dpSize runner.tpSize := mem_grid.mpr ⟨hdp, htp⟩
      obtain ⟨r, hr, heq⟩ := List.mem_map.mp (h.symm.subset hin)
      have hpair := Prod.mk.inj heq
      exact ⟨r, hr, hpair.1, hpair.2⟩
    constructor
    · have hlength := h.length_eq
      rw [List.length_map, grid, List.length_product, length_ranks, length_ranks] at hlength
      exact hlength
    · constructor
      · intro dp hdp
        obtain ⟨r, hr, rfl⟩ := mem_keys_registrationsByDp.mp hdp
        exact (hmem r hr).1
      · intro dp hdp
        have hzero : (0 : Int) ∈ ranks runner.tpSize :=
          List.mem_map.mpr ⟨0, List.mem_range.mpr htp, rfl⟩
        obtain ⟨r, hr, hdpRank, -⟩ := hcell dp hdp 0 hzero
        exact mem_keys_registrationsByDp.mpr ⟨r, hr, hdpRank⟩
    · rintro ⟨dp, group⟩ hgroup
      have hget := get_of_mem (nodup_registrationsByDp registrations) hgroup
      have hkey : dp ∈ keys (registrationsByDp registrations) :=
        List.mem_map.mpr ⟨_, hgroup, rfl⟩
      have hofDp : group = ofDp registrations dp :=
        Option.some.inj (hget.symm.trans (get_registrationsByDp hkey))
      obtain ⟨r₀, hr₀, hdp₀⟩ := mem_keys_registrationsByDp.mp hkey
      have hdp : dp ∈ ranks runner.dpSize := hdp₀ ▸ (hmem r₀ hr₀).1
      subst hofDp
      constructor
      · intro tp htp
        obtain ⟨r, hr, rfl⟩ := List.mem_map.mp htp
        exact (hmem r (List.mem_filter.mp hr).1).2
      · intro tp htp
        obtain ⟨r, hr, hdpRank, htpRank⟩ := hcell dp hdp tp htp
        exact List.mem_map.mpr ⟨r, List.mem_filter.mpr ⟨hr, decide_eq_true hdpRank⟩, htpRank⟩

/-! ## One registration -/

/-- The target that a registration sends for one layer. -/
def sentTarget (r : Registration B) (layer : String) (gpuBuffer : B) : OutputTarget B where
  tpRank := r.tpRank
  gpuOutputBuffer := gpuBuffer
  sem := (get layer r.semFlagTensors).getD gpuBuffer
  doneSeqBuf := r.doneSeqBuf
  outBuf := get layer (r.outBufs.getD [])

theorem outputTarget_eq {r : Registration B} {layer : String} {gpuBuffer : B}
    (h : (layer, gpuBuffer) ∈ r.gpuOutputBuffers) :
    outputTarget r layer gpuBuffer = .ok (sentTarget r layer gpuBuffer) := by
  have hkey : layer ∈ keys r.semFlagTensors := by
    rw [r.flag_names]
    exact List.mem_map.mpr ⟨_, h, rfl⟩
  obtain ⟨sem, hsem⟩ := Option.isSome_iff_exists.mp (mem_keys_iff.mp hkey)
  rw [outputTarget, sentTarget, hsem]
  rfl

def sentItems (r : Registration B) : List (String × OutputTarget B) :=
  r.gpuOutputBuffers.map fun e => (e.1, sentTarget r e.1 e.2)

theorem addTargets_eq (r : Registration B) (targets : List (String × List (OutputTarget B))) :
    addTargets r targets = .ok (appendAll (sentItems r) targets) := by
  rw [addTargets, foldlM_ok (g := fun targets e =>
    alter e.1 [] (fun ts => ts ++ [sentTarget r e.1 e.2]) targets)]
  · rw [appendAll, sentItems, List.foldl_map]
  · intro e he targets
    rw [outputTarget_eq he]
    rfl

def inputsOf (r : Registration B) : InputBuffers B :=
  ⟨r.inputIdsBuf, r.queryStartLocBuf, r.ngramContextBuf⟩

/-- The runner with the targets and inputs of a registration. -/
def added (runner : Runner B) (r : Registration B) : Runner B :=
  { runner with
    workerTargets := put r.dpRank
      (appendAll (sentItems r) ((get r.dpRank runner.workerTargets).getD [])) runner.workerTargets
    inputBufs :=
      if r.tpRank = 0 then put r.dpRank (inputsOf r) runner.inputBufs else runner.inputBufs }

theorem addRegistration_eq_ok {runner runner' : Runner B} {r : Registration B} :
    addRegistration runner r = .ok runner' ↔
      SameSet (keys r.gpuOutputBuffers) runner.layerNames ∧ runner' = added runner r := by
  unfold addRegistration checkLayers
  rw [addTargets_eq]
  constructor
  · intro h
    obtain ⟨⟨⟩, hlayers, h⟩ := bind_eq_ok.mp h
    cases h
    exact ⟨require_eq_ok.mp hlayers, rfl⟩
  · rintro ⟨hlayers, rfl⟩
    exact bind_eq_ok.mpr ⟨⟨⟩, require_ok hlayers, rfl⟩

theorem addAll_eq_ok {registrations : List (Registration B)} {runner runner' : Runner B} :
    registrations.foldlM addRegistration runner = .ok runner' ↔
      (∀ r ∈ registrations, SameSet (keys r.gpuOutputBuffers) runner.layerNames) ∧
        runner' = registrations.foldl added runner := by
  induction registrations generalizing runner with
  | nil =>
      constructor
      · intro h
        cases h
        exact ⟨fun r hr => absurd hr List.not_mem_nil, rfl⟩
      · rintro ⟨-, rfl⟩
        rfl
  | cons r rest ih =>
      rw [List.foldlM_cons, bind_eq_ok, List.forall_mem_cons, List.foldl_cons]
      constructor
      · rintro ⟨next, hnext, h⟩
        obtain ⟨hlayers, rfl⟩ := addRegistration_eq_ok.mp hnext
        obtain ⟨hrest, hfinal⟩ := ih.mp h
        exact ⟨⟨hlayers, hrest⟩, hfinal⟩
      · rintro ⟨⟨hlayers, hrest⟩, hfinal⟩
        exact ⟨_, addRegistration_eq_ok.mpr ⟨hlayers, rfl⟩, ih.mpr ⟨hrest, hfinal⟩⟩

/-! ## The targets of all registrations -/

def layersAt (runner : Runner B) (dp : Int) : List (String × List (OutputTarget B)) :=
  (get dp runner.workerTargets).getD []

def sentAt (r : Registration B) (layer : String) : List (OutputTarget B) :=
  ((get layer r.gpuOutputBuffers).map (sentTarget r layer)).toList

theorem layersAt_added (runner : Runner B) (r : Registration B) (dp : Int) :
    layersAt (added runner r) dp =
      if r.dpRank = dp then appendAll (sentItems r) (layersAt runner dp)
      else layersAt runner dp := by
  unfold layersAt added put
  dsimp only
  by_cases hdp : r.dpRank = dp
  · rw [if_pos hdp, hdp, get_alter_self]
    rfl
  · rw [if_neg hdp, get_alter_of_ne (Ne.symm hdp)]

theorem layersAt_of_not_mem {runner : Runner B} {dp : Int}
    (h : dp ∉ keys runner.workerTargets) : layersAt runner dp = [] := by
  have hnone : get dp runner.workerTargets = none := by
    by_contra hsome
    exact h (mem_keys_iff.mpr (Option.ne_none_iff_isSome.mp hsome))
  rw [layersAt, hnone]
  rfl

theorem listAt_sentItems (r : Registration B) (layer : String)
    (targets : List (String × List (OutputTarget B))) :
    listAt layer (appendAll (sentItems r) targets) = listAt layer targets ++ sentAt r layer := by
  have hnodup : (keys (sentItems r)).Nodup := by
    rw [sentItems, keys_map]
    exact r.names_nodup
  rw [listAt_appendAll, filter_key hnodup, sentItems, get_map]
  rfl

/-- The registrations of a DP rank, layer by layer, in the order of arrival. -/
theorem listAt_layersAt (registrations : List (Registration B)) (runner : Runner B) (dp : Int)
    (layer : String) :
    listAt layer (layersAt (registrations.foldl added runner) dp) =
      listAt layer (layersAt runner dp) ++
        (ofDp registrations dp).flatMap fun r => sentAt r layer := by
  induction registrations generalizing runner with
  | nil => exact (List.append_nil _).symm
  | cons r rest ih =>
      rw [List.foldl_cons, ih, layersAt_added]
      by_cases hdp : r.dpRank = dp
      · have hcons : ofDp (r :: rest) dp = r :: ofDp rest dp :=
          List.filter_cons_of_pos (decide_eq_true hdp)
        rw [if_pos hdp, listAt_sentItems, hcons, List.flatMap_cons, List.append_assoc]
      · have hcons : ofDp (r :: rest) dp = ofDp rest dp :=
          List.filter_cons_of_neg (by simpa using hdp)
        rw [if_neg hdp, hcons]

/-- The keys of the targets and the input buffers. -/
structure Filled (runner : Runner B) (registrations : List (Registration B)) : Prop where
  dpRanks : ∀ dp, dp ∈ keys runner.workerTargets ↔ ∃ r ∈ registrations, r.dpRank = dp
  nodup : (keys runner.workerTargets).Nodup
  layers : ∀ dp ∈ keys runner.workerTargets,
    (keys (layersAt runner dp)).Nodup ∧ SameSet (keys (layersAt runner dp)) runner.layerNames
  inputRanks : ∀ dp, dp ∈ keys runner.inputBufs ↔
    ∃ r ∈ registrations, r.dpRank = dp ∧ r.tpRank = 0
  inputs : ∀ dp bufs, get dp runner.inputBufs = some bufs →
    ∃ r ∈ registrations, r.dpRank = dp ∧ r.tpRank = 0 ∧ bufs = inputsOf r

theorem keys_sentItems (r : Registration B) (targets : List (String × List (OutputTarget B)))
    (layer : String) :
    layer ∈ keys (appendAll (sentItems r) targets) ↔
      layer ∈ keys targets ∨ layer ∈ keys r.gpuOutputBuffers := by
  rw [mem_keys_appendAll]
  have hkeys : (∃ e ∈ sentItems r, e.1 = layer) ↔ layer ∈ keys r.gpuOutputBuffers := by
    rw [← keys_map (fun layer buf => sentTarget r layer buf) r.gpuOutputBuffers]
    exact List.mem_map.symm
  rw [hkeys]

/-- A rank that has not registered has no layers yet. -/
theorem Filled.layersAt {runner : Runner B} {registrations : List (Registration B)}
    (h : Filled runner registrations) (dp : Int) :
    (keys (layersAt runner dp)).Nodup ∧
      ∀ layer ∈ keys (layersAt runner dp), layer ∈ runner.layerNames := by
  by_cases hin : dp ∈ keys runner.workerTargets
  · exact ⟨(h.layers dp hin).1, (h.layers dp hin).2.1⟩
  · rw [layersAt_of_not_mem hin]
    exact ⟨List.nodup_nil, fun _ hlayer => absurd hlayer List.not_mem_nil⟩

theorem Filled.added {runner : Runner B} {registrations : List (Registration B)}
    (h : Filled runner registrations) {r : Registration B}
    (hr : SameSet (keys r.gpuOutputBuffers) runner.layerNames) :
    Filled (added runner r) (registrations ++ [r]) where
  dpRanks := by
    intro dp
    show dp ∈ keys (put _ _ _) ↔ _
    rw [put, mem_keys_alter, h.dpRanks]
    simp only [List.mem_append, List.mem_singleton]
    constructor
    · rintro (rfl | ⟨r', hr', hdp⟩)
      · exact ⟨r, Or.inr rfl, rfl⟩
      · exact ⟨r', Or.inl hr', hdp⟩
    · rintro ⟨r', hr' | rfl, hdp⟩
      · exact Or.inr ⟨r', hr', hdp⟩
      · exact Or.inl hdp.symm
  nodup := nodup_alter h.nodup
  layers := by
    intro dp hdp
    rw [layersAt_added]
    by_cases hother : r.dpRank = dp
    · rw [if_pos hother]
      obtain ⟨hnodup, hold⟩ := h.layersAt dp
      refine ⟨nodup_appendAll hnodup, ?_, ?_⟩
      · intro layer hlayer
        rcases (keys_sentItems r _ layer).mp hlayer with hlayer | hlayer
        · exact hold layer hlayer
        · exact hr.1 layer hlayer
      · intro layer hlayer
        exact (keys_sentItems r _ layer).mpr (Or.inr (hr.2 layer hlayer))
    · rw [if_neg hother]
      have hin : dp ∈ keys runner.workerTargets :=
        (mem_keys_alter.mp hdp).resolve_left fun heq => hother heq.symm
      exact h.layers dp hin
  inputRanks := by
    intro dp
    have hsplit : (∃ r' ∈ registrations ++ [r], r'.dpRank = dp ∧ r'.tpRank = 0) ↔
        (∃ r' ∈ registrations, r'.dpRank = dp ∧ r'.tpRank = 0) ∨ r.dpRank = dp ∧ r.tpRank = 0 := by
      simp only [List.mem_append, List.mem_singleton, or_and_right, exists_or, exists_eq_left]
    rw [hsplit, ← h.inputRanks]
    show dp ∈ keys (if r.tpRank = 0 then put _ _ _ else _) ↔ _
    by_cases hzero : r.tpRank = 0
    · rw [if_pos hzero, put, mem_keys_alter]
      constructor
      · rintro (rfl | hin)
        · exact Or.inr ⟨rfl, hzero⟩
        · exact Or.inl hin
      · rintro (hin | ⟨rfl, -⟩)
        · exact Or.inr hin
        · exact Or.inl rfl
    · rw [if_neg hzero]
      exact ⟨Or.inl, fun hin => hin.resolve_right fun hr => hzero hr.2⟩
  inputs := by
    intro dp bufs hget
    have hold : get dp runner.inputBufs = some bufs →
        ∃ r' ∈ registrations ++ [r], r'.dpRank = dp ∧ r'.tpRank = 0 ∧ bufs = inputsOf r' := by
      intro hin
      obtain ⟨r', hr', hrest⟩ := h.inputs dp bufs hin
      exact ⟨r', List.mem_append_left [r] hr', hrest⟩
    have hnew : get dp (if r.tpRank = 0 then put r.dpRank (inputsOf r) runner.inputBufs
        else runner.inputBufs) = some bufs := hget
    by_cases hzero : r.tpRank = 0
    · rw [if_pos hzero, put] at hnew
      by_cases hdp : dp = r.dpRank
      · subst hdp
        rw [get_alter_self] at hnew
        exact ⟨r, List.mem_append_right _ (List.mem_singleton_self r), rfl, hzero,
          (Option.some.inj hnew).symm⟩
      · rw [get_alter_of_ne hdp] at hnew
        exact hold hnew
    · rw [if_neg hzero] at hnew
      exact hold hnew

/-- Nothing has registered yet. -/
def Runner.Fresh (runner : Runner B) : Prop :=
  runner.workerTargets = [] ∧ runner.inputBufs = []

theorem Runner.Fresh.filled {runner : Runner B} (h : runner.Fresh) : Filled runner [] where
  dpRanks := by
    intro dp
    simp [h.1, keys]
  nodup := by
    rw [h.1]
    exact List.nodup_nil
  layers := by
    intro dp hdp
    rw [h.1] at hdp
    exact absurd hdp List.not_mem_nil
  inputRanks := by
    intro dp
    simp [h.2, keys]
  inputs := by
    intro dp bufs hget
    rw [h.2] at hget
    cases hget

theorem filled_foldl {registrations done : List (Registration B)} {runner : Runner B}
    (h : Filled runner done)
    (hlayers : ∀ r ∈ registrations, SameSet (keys r.gpuOutputBuffers) runner.layerNames) :
    Filled (registrations.foldl added runner) (done ++ registrations) := by
  induction registrations generalizing runner done with
  | nil => rwa [List.append_nil]
  | cons r rest ih =>
      have hr := hlayers r List.mem_cons_self
      have hrest := ih (h.added hr) fun r' hr' => hlayers r' (List.mem_cons_of_mem r hr')
      rwa [List.append_assoc] at hrest

/-! ## The last checks -/

theorem finishLayer_eq_ok {tpSize : Nat} {dpRank : Int}
    {entry entry' : String × List (OutputTarget B)} :
    finishLayer tpSize dpRank entry = .ok entry' ↔
      entry.2.length = tpSize ∧ entry' = (entry.1, sortTargets entry.2) := by
  unfold finishLayer
  constructor
  · intro h
    obtain ⟨⟨⟩, hcount, h⟩ := bind_eq_ok.mp h
    cases h
    exact ⟨require_eq_ok.mp hcount, rfl⟩
  · rintro ⟨hcount, rfl⟩
    exact bind_eq_ok.mpr ⟨⟨⟩, require_ok hcount, rfl⟩

/-- The targets of a DP rank, sorted. -/
def sortedLayers (layers : List (String × List (OutputTarget B))) :
    List (String × List (OutputTarget B)) :=
  layers.map fun e => (e.1, sortTargets e.2)

theorem finishDp_eq {tpSize : Nat} {entry entry' : Int × List (String × List (OutputTarget B))}
    (h : finishDp tpSize entry = .ok entry') : entry' = (entry.1, sortedLayers entry.2) := by
  obtain ⟨layers, hlayers, h⟩ := bind_eq_ok.mp h
  cases h
  rw [mapM_eq_map (fun _ _ hok => (finishLayer_eq_ok.mp hok).2) hlayers]
  rfl

theorem finishDp_ok {tpSize : Nat} {entry : Int × List (String × List (OutputTarget B))}
    (h : ∀ e ∈ entry.2, e.2.length = tpSize) :
    finishDp tpSize entry = .ok (entry.1, sortedLayers entry.2) := by
  have hlayers : entry.2.mapM (finishLayer tpSize entry.1) = .ok (sortedLayers entry.2) :=
    mapM_ok fun e he => finishLayer_eq_ok.mpr ⟨h e he, rfl⟩
  exact bind_eq_ok.mpr ⟨_, hlayers, rfl⟩

/-- Targets of all ranks, sorted, are those of rank zero, one and so on. -/
theorem sortTargets_ranks {targets : List (OutputTarget B)} {tpSize : Nat}
    (h : (targets.map fun t => t.tpRank).Perm (ranks tpSize)) :
    (sortTargets targets).map (fun t => t.tpRank) = ranks tpSize := by
  have hperm : ((sortTargets targets).map fun t => t.tpRank).Perm (ranks tpSize) :=
    ((List.mergeSort_perm targets _).map _).trans h
  have hsorted : ((sortTargets targets).map fun t => t.tpRank).Pairwise (· ≤ ·) := by
    have hpairwise := @List.pairwise_mergeSort (OutputTarget B)
      (fun a b => decide (a.tpRank ≤ b.tpRank))
      (fun a b c hab hbc => decide_eq_true
        (Int.le_trans (of_decide_eq_true hab) (of_decide_eq_true hbc)))
      (fun a b => by simpa using Int.le_total a.tpRank b.tpRank) targets
    rw [List.pairwise_map]
    exact hpairwise.imp fun hab => of_decide_eq_true hab
  have hranks : (ranks tpSize).Pairwise (· ≤ ·) := by
    rw [ranks, List.pairwise_map]
    exact List.pairwise_le_range.imp fun hab => Int.ofNat_le.mpr hab
  exact hperm.eq_of_pairwise (fun a b _ _ => Int.le_antisymm) hsorted hranks

/-! ## Complete registrations -/

section Completed

variable {runner : Runner B} {registrations : List (Registration B)}

/-- Each TP rank of a DP rank registers once. -/
theorem Complete.tpRanks (h : Complete runner registrations) {dp : Int}
    (hdp : dp ∈ ranks runner.dpSize) :
    ((ofDp registrations dp).map fun r => r.tpRank).Perm (ranks runner.tpSize) := by
  have hcells : (registrations.map cellOf).Nodup :=
    h.cells.nodup_iff.mpr ((ranks_nodup _).product (ranks_nodup _))
  have hpairs : (ofDp registrations dp).map cellOf =
      ((ofDp registrations dp).map fun r => r.tpRank).map fun tp => (dp, tp) := by
    rw [List.map_map]
    apply List.map_congr_left
    intro r hr
    have hdpRank := of_decide_eq_true (List.mem_filter.mp hr).2
    rw [cellOf, hdpRank]
    rfl
  have hsub : ((ofDp registrations dp).map cellOf).Sublist (registrations.map cellOf) :=
    List.filter_sublist.map _
  have hnodup := hcells.sublist hsub
  rw [hpairs] at hnodup
  apply (List.perm_ext_iff_of_nodup hnodup.of_map (ranks_nodup _)).mpr
  intro tp
  constructor
  · intro htp
    obtain ⟨r, hr, rfl⟩ := List.mem_map.mp htp
    have hin : cellOf r ∈ grid runner.dpSize runner.tpSize :=
      h.cells.subset (List.mem_map.mpr ⟨r, (List.mem_filter.mp hr).1, rfl⟩)
    exact (mem_grid.mp hin).2
  · intro htp
    have hin : (dp, tp) ∈ grid runner.dpSize runner.tpSize := mem_grid.mpr ⟨hdp, htp⟩
    obtain ⟨r, hr, heq⟩ := List.mem_map.mp (h.cells.symm.subset hin)
    have hpair := Prod.mk.inj heq
    exact List.mem_map.mpr ⟨r, List.mem_filter.mpr ⟨hr, decide_eq_true hpair.1⟩, hpair.2⟩

/-- The targets of a layer are those that the ranks sent, in their order. -/
theorem sentAt_ranks (rs : List (Registration B)) {layer : String}
    (h : ∀ r ∈ rs, layer ∈ keys r.gpuOutputBuffers) :
    (rs.flatMap fun r => sentAt r layer).map (fun t => t.tpRank) = rs.map fun r => r.tpRank := by
  induction rs with
  | nil => rfl
  | cons r rs ih =>
      have hsome := mem_keys_iff.mp (h r List.mem_cons_self)
      obtain ⟨buf, hbuf⟩ := Option.isSome_iff_exists.mp hsome
      have hone : sentAt r layer = [sentTarget r layer buf] := by
        rw [sentAt, hbuf]
        rfl
      rw [List.flatMap_cons, List.map_append, ih fun r' hr' => h r' (List.mem_cons_of_mem r hr'),
        hone]
      rfl

/-- The runner after all registrations. -/
structure Served (runner : Runner B) (registrations : List (Registration B)) (final : Runner B) :
    Prop where
  dpRanks : ∀ dp, dp ∈ keys final.workerTargets ↔ dp ∈ ranks runner.dpSize
  layers : ∀ dp layers, get dp final.workerTargets = some layers →
    SameSet (keys layers) runner.layerNames
  targets : ∀ dp ∈ ranks runner.dpSize, ∀ layer ∈ runner.layerNames, ∃ layers targets,
    get dp final.workerTargets = some layers ∧ get layer layers = some targets ∧
      targets.map (fun t => t.tpRank) = ranks runner.tpSize ∧
      ∀ t ∈ targets, ∃ r ∈ registrations, r.dpRank = dp ∧ r.tpRank = t.tpRank ∧
        ∃ buf, get layer r.gpuOutputBuffers = some buf ∧ outputTarget r layer buf = .ok t
  inputs : ∀ dp ∈ ranks runner.dpSize, ∃ r ∈ registrations, r.dpRank = dp ∧ r.tpRank = 0 ∧
    get dp final.inputBufs = some ⟨r.inputIdsBuf, r.queryStartLocBuf, r.ngramContextBuf⟩

/-- What the code has checked and stored when it returns. -/
theorem acceptRegistrations_eq_ok {recv : Nat → Message B} {numWorkers : Nat}
    {final : Runner B} (h : acceptRegistrations runner recv numWorkers = .ok final) :
    ∃ registrations, (List.range numWorkers).map recv = registrations.map .registration ∧
      RanksOk runner registrations ∧
      (∀ r ∈ registrations, SameSet (keys r.gpuOutputBuffers) runner.layerNames) ∧
      final.inputBufs = (registrations.foldl added runner).inputBufs ∧
      final.workerTargets = (registrations.foldl added runner).workerTargets.map
        fun e => (e.1, sortedLayers e.2) := by
  unfold acceptRegistrations at h
  obtain ⟨registrations, hreceive, h⟩ := bind_eq_ok.mp h
  obtain ⟨⟨⟩, hcount, h⟩ := bind_eq_ok.mp h
  obtain ⟨⟨⟩, hdp, h⟩ := bind_eq_ok.mp h
  obtain ⟨⟨⟩, htp, h⟩ := bind_eq_ok.mp h
  obtain ⟨filled, hfilled, h⟩ := bind_eq_ok.mp h
  obtain ⟨⟨⟩, _, h⟩ := bind_eq_ok.mp h
  obtain ⟨targets, htargets, h⟩ := bind_eq_ok.mp h
  cases h
  have hmessages := receiveAll_eq_ok.mp hreceive
  obtain ⟨hlayers, rfl⟩ := addAll_eq_ok.mp hfilled
  have hlength := congrArg List.length hmessages
  rw [List.length_map, List.length_map, List.length_range] at hlength
  refine ⟨registrations, hmessages, ⟨?_, require_eq_ok.mp hdp, ?_⟩, hlayers, rfl, ?_⟩
  · rw [← hlength]
    exact require_eq_ok.mp hcount
  · intro group hgroup
    exact require_eq_ok.mp (forM_check_iff.mp htp group hgroup)
  · exact mapM_eq_map (fun _ _ hok => finishDp_eq hok) htargets

/-- The lists that the loop leaves for a DP rank. -/
theorem Runner.Fresh.sent (hfresh : runner.Fresh) (registrations : List (Registration B))
    (dp : Int) (layer : String) :
    listAt layer (layersAt (registrations.foldl added runner) dp) =
      (ofDp registrations dp).flatMap fun r => sentAt r layer := by
  have hempty : layersAt runner dp = [] := by
    rw [layersAt, hfresh.1]
    rfl
  rw [listAt_layersAt, hempty]
  rfl

theorem Complete.filled (h : Complete runner registrations) (hfresh : runner.Fresh) :
    Filled (registrations.foldl added runner) registrations := by
  have hfilled := filled_foldl hfresh.filled h.layers
  rwa [List.nil_append] at hfilled

theorem layerNames_foldl (registrations : List (Registration B)) (runner : Runner B) :
    (registrations.foldl added runner).layerNames = runner.layerNames := by
  induction registrations generalizing runner with
  | nil => rfl
  | cons r rest ih => exact ih (added runner r)

/-- The targets of a layer, before they are sorted. -/
theorem Complete.ranksAt (h : Complete runner registrations) (hfresh : runner.Fresh)
    {dp : Int} (hdp : dp ∈ ranks runner.dpSize) {layer : String}
    (hlayer : layer ∈ runner.layerNames) :
    ((listAt layer (layersAt (registrations.foldl added runner) dp)).map
      fun t => t.tpRank).Perm (ranks runner.tpSize) := by
  rw [hfresh.sent, sentAt_ranks]
  · exact h.tpRanks hdp
  · intro r hr
    exact (h.layers r (List.mem_filter.mp hr).1).2 layer hlayer

theorem Complete.mem_dpRanks (h : Complete runner registrations) (htp : 0 < runner.tpSize)
    {dp : Int} : (∃ r ∈ registrations, r.dpRank = dp) ↔ dp ∈ ranks runner.dpSize := by
  have hranks := (ranksOk_iff htp).mpr h.cells
  rw [← mem_keys_registrationsByDp]
  exact ⟨fun hin => hranks.dpRanks.1 dp hin, fun hin => hranks.dpRanks.2 dp hin⟩

theorem Complete.zeroRank (h : Complete runner registrations) (htp : 0 < runner.tpSize)
    {dp : Int} (hdp : dp ∈ ranks runner.dpSize) :
    ∃ r ∈ registrations, r.dpRank = dp ∧ r.tpRank = 0 := by
  have hzero : (0 : Int) ∈ ranks runner.tpSize :=
    List.mem_map.mpr ⟨0, List.mem_range.mpr htp, rfl⟩
  have hin : (dp, (0 : Int)) ∈ grid runner.dpSize runner.tpSize := mem_grid.mpr ⟨hdp, hzero⟩
  obtain ⟨r, hr, heq⟩ := List.mem_map.mp (h.cells.symm.subset hin)
  have hpair := Prod.mk.inj heq
  exact ⟨r, hr, hpair.1, hpair.2⟩

/-- Complete registrations are accepted. -/
theorem Complete.accepted (h : Complete runner registrations) (hfresh : runner.Fresh)
    (htp : 0 < runner.tpSize) {recv : Nat → Message B} {numWorkers : Nat}
    (hrecv : (List.range numWorkers).map recv = registrations.map .registration) :
    ∃ final, acceptRegistrations runner recv numWorkers = .ok final := by
  have hranks := (ranksOk_iff htp).mpr h.cells
  have hfilled := h.filled hfresh
  have hlength := congrArg List.length hrecv
  rw [List.length_map, List.length_map, List.length_range] at hlength
  have hinputs : SameSet (keys (registrations.foldl added runner).inputBufs)
      (ranks runner.dpSize) := by
    constructor
    · intro dp hdp
      obtain ⟨r, hr, hrank, -⟩ := (hfilled.inputRanks dp).mp hdp
      exact (h.mem_dpRanks htp).mp ⟨r, hr, hrank⟩
    · intro dp hdp
      exact (hfilled.inputRanks dp).mpr (h.zeroRank htp hdp)
  have hcounts : ∀ entry ∈ (registrations.foldl added runner).workerTargets,
      ∀ e ∈ entry.2, e.2.length = runner.tpSize := by
    rintro ⟨dp, layers⟩ hentry ⟨layer, targets⟩ he
    have hkey : dp ∈ keys (registrations.foldl added runner).workerTargets :=
      List.mem_map.mpr ⟨_, hentry, rfl⟩
    have hlayersAt : layersAt (registrations.foldl added runner) dp = layers := by
      rw [layersAt, get_of_mem hfilled.nodup hentry]
      rfl
    obtain ⟨hnodup, hnames⟩ := hfilled.layers dp hkey
    rw [hlayersAt] at hnodup hnames
    have hlayer : layer ∈ runner.layerNames := by
      rw [← layerNames_foldl registrations runner]
      exact hnames.1 layer (List.mem_map.mpr ⟨_, he, rfl⟩)
    have hdp := (h.mem_dpRanks htp).mp ((hfilled.dpRanks dp).mp hkey)
    have hperm := (h.ranksAt hfresh hdp hlayer).length_eq
    have hlist : listAt layer layers = targets := by
      rw [listAt, get_of_mem hnodup he]
      rfl
    rw [hlayersAt, hlist, List.length_map, length_ranks] at hperm
    exact hperm
  unfold acceptRegistrations
  apply exists_bind_ok (receiveAll_eq_ok.mpr hrecv)
  apply exists_bind_ok (require_ok (hlength.trans hranks.count))
  apply exists_bind_ok (require_ok hranks.dpRanks)
  apply exists_bind_ok (forM_check_iff.mpr fun g hg => require_ok (hranks.tpRanks g hg))
  apply exists_bind_ok (addAll_eq_ok.mpr ⟨h.layers, rfl⟩)
  apply exists_bind_ok (require_ok hinputs)
  exact exists_bind_ok (mapM_ok fun e he => finishDp_ok (hcounts e he)) ⟨_, rfl⟩

/-- The targets and inputs that a returned runner holds. -/
theorem Complete.served (h : Complete runner registrations) (hfresh : runner.Fresh)
    (htp : 0 < runner.tpSize) {final : Runner B}
    (hinputs : final.inputBufs = (registrations.foldl added runner).inputBufs)
    (htargets : final.workerTargets = (registrations.foldl added runner).workerTargets.map
      fun e => (e.1, sortedLayers e.2)) : Served runner registrations final := by
  have hfilled := h.filled hfresh
  have hget : ∀ dp, get dp final.workerTargets =
      (get dp (registrations.foldl added runner).workerTargets).map sortedLayers := by
    intro dp
    rw [htargets, get_map fun _ layers => sortedLayers layers]
  have hkeys : ∀ dp, dp ∈ keys final.workerTargets ↔ dp ∈ ranks runner.dpSize := by
    intro dp
    rw [htargets, keys_map fun _ layers => sortedLayers layers, hfilled.dpRanks,
      h.mem_dpRanks htp]
  have hlayersAt : ∀ dp ∈ ranks runner.dpSize,
      get dp final.workerTargets =
        some (sortedLayers (layersAt (registrations.foldl added runner) dp)) := by
    intro dp hdp
    have hin := (hfilled.dpRanks dp).mpr ((h.mem_dpRanks htp).mpr hdp)
    obtain ⟨layers, hlayers⟩ := Option.isSome_iff_exists.mp (mem_keys_iff.mp hin)
    rw [hget, layersAt, hlayers]
    rfl
  have hnames : ∀ dp ∈ ranks runner.dpSize,
      SameSet (keys (layersAt (registrations.foldl added runner) dp)) runner.layerNames := by
    intro dp hdp
    have hin := (hfilled.dpRanks dp).mpr ((h.mem_dpRanks htp).mpr hdp)
    rw [← layerNames_foldl registrations runner]
    exact (hfilled.layers dp hin).2
  constructor
  · exact hkeys
  · intro dp layers hlayers
    have hdp := (hkeys dp).mp (mem_keys_iff.mpr (by rw [hlayers]; rfl))
    have heq := Option.some.inj (hlayers.symm.trans (hlayersAt dp hdp))
    rw [heq, sortedLayers, keys_map fun _ targets => sortTargets targets]
    exact hnames dp hdp
  · intro dp hdp layer hlayer
    have hkey : layer ∈ keys (layersAt (registrations.foldl added runner) dp) :=
      (hnames dp hdp).2 layer hlayer
    refine ⟨_, sortTargets (listAt layer (layersAt (registrations.foldl added runner) dp)),
      hlayersAt dp hdp, ?_, sortTargets_ranks (h.ranksAt hfresh hdp hlayer), ?_⟩
    · rw [sortedLayers, get_map fun _ targets => sortTargets targets, get_of_mem_keys hkey]
      rfl
    · intro t ht
      rw [sortTargets, List.mem_mergeSort, hfresh.sent, List.mem_flatMap] at ht
      obtain ⟨r, hr, ht⟩ := ht
      obtain ⟨hr, hrank⟩ := List.mem_filter.mp hr
      rw [sentAt, Option.mem_toList, Option.map_eq_some_iff] at ht
      obtain ⟨buf, hbuf, rfl⟩ := ht
      exact ⟨r, hr, of_decide_eq_true hrank, rfl, buf, hbuf, outputTarget_eq (mem_of_get hbuf)⟩
  · intro dp hdp
    have hin := (hfilled.inputRanks dp).mpr (h.zeroRank htp hdp)
    obtain ⟨bufs, hbufs⟩ := Option.isSome_iff_exists.mp (mem_keys_iff.mp hin)
    obtain ⟨r, hr, hrank, hzero, rfl⟩ := hfilled.inputs dp bufs hbufs
    exact ⟨r, hr, hrank, hzero, by rw [hinputs, hbufs]; rfl⟩

/-- Registration returns exactly for one registration of each cell of the
grid, all naming the layers of the worker; then every target is in place. -/
theorem acceptRegistrations_iff (hfresh : runner.Fresh) (htp : 0 < runner.tpSize)
    (recv : Nat → Message B) (numWorkers : Nat) :
    ((∃ final, acceptRegistrations runner recv numWorkers = .ok final) ↔
      ∃ registrations, (List.range numWorkers).map recv = registrations.map .registration ∧
        Complete runner registrations) ∧
    ∀ final, acceptRegistrations runner recv numWorkers = .ok final →
      ∃ registrations, (List.range numWorkers).map recv = registrations.map .registration ∧
        Served runner registrations final := by
  have hof : ∀ final, acceptRegistrations runner recv numWorkers = .ok final →
      ∃ registrations, (List.range numWorkers).map recv = registrations.map .registration ∧
        Complete runner registrations ∧ Served runner registrations final := by
    intro final hfinal
    obtain ⟨registrations, hrecv, hranks, hlayers, hinputs, htargets⟩ :=
      acceptRegistrations_eq_ok hfinal
    have hcomplete : Complete runner registrations := ⟨(ranksOk_iff htp).mp hranks, hlayers⟩
    exact ⟨registrations, hrecv, hcomplete, hcomplete.served hfresh htp hinputs htargets⟩
  refine ⟨⟨?_, ?_⟩, ?_⟩
  · rintro ⟨final, hfinal⟩
    obtain ⟨registrations, hrecv, hcomplete, -⟩ := hof final hfinal
    exact ⟨registrations, hrecv, hcomplete⟩
  · rintro ⟨registrations, hrecv, hcomplete⟩
    exact hcomplete.accepted hfresh htp hrecv
  · intro final hfinal
    obtain ⟨registrations, hrecv, -, hserved⟩ := hof final hfinal
    exact ⟨registrations, hrecv, hserved⟩

end Completed

/-! ## Two ranks, in the wrong order -/

def sampleRegistration (tpRank : Int) : Registration Nat where
  workerId := tpRank
  tpRank := tpRank
  dpRank := 0
  gpuOutputBuffers := [("ple", tpRank.toNat)]
  semFlagTensors := [("ple", tpRank.toNat + 10)]
  inputIdsBuf := tpRank.toNat + 20
  queryStartLocBuf := tpRank.toNat + 30
  ngramContextBuf := none
  doneSeqBuf := none
  outBufs := none
  names_nodup := List.nodup_singleton "ple"
  flag_names := rfl

def sampleRunner : Runner Nat where
  dpSize := 1
  tpSize := 2
  maxTokens := 16
  embeddingDim := 8
  layerNames := ["ple"]
  workerTargets := []
  inputBufs := []
  pinnedBufs := []

theorem acceptRegistrations_iff_twoRanks : ∃ final,
    acceptRegistrations sampleRunner
      (fun i => .registration (sampleRegistration (1 - (i : Int)))) 2 = .ok final := by
  have hsample := @acceptRegistrations_iff Nat sampleRunner ⟨rfl, rfl⟩ (by decide)
    (fun i => .registration (sampleRegistration (1 - (i : Int)))) 2
  exact hsample.1.mpr ⟨[sampleRegistration 1, sampleRegistration 0], rfl,
    ⟨by decide, by decide⟩⟩

end FlashNext.Ports.PleRegistration
