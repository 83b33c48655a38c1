import FlashNext.Ports.CsaLinear
import FlashNext.Verified.StepRuns
import Mathlib.Data.List.Dedup
import Mathlib.Data.List.Perm.Basic

/-!
# KV-cache planning for CSA-linear models: accepted models

What is known of a model that `_get_kv_cache_groups_csa_linear` accepts.
-/

namespace FlashNext.Ports.KvCache

open FlashNext.Verified.Checked
open FlashNext.Verified.RoundRobin
open FlashNext.Verified.StepRuns

variable {env : Env} {cfg : VllmConfig} {kvCacheSpec : SpecDict}

/-! ## Roles -/

/-- Every cache owner has one role. -/
structure CSALinearRoles.Of (roles : CSALinearRoles) (kvCacheSpec : SpecDict) :
    Prop where
  mainKv : roles.mainKv = kvCacheSpec.filter fun p => isMainKv p.2
  compressed : roles.compressed = kvCacheSpec.filter fun p => isCompressed p.2
  compressorState :
    roles.compressorState = kvCacheSpec.filter fun p => isCompressorState p.2
  mamba : roles.mamba = kvCacheSpec.filter fun p => isMamba p.2
  supported : ∀ p ∈ kvCacheSpec, isSupported p.2 = true
  nonempty : roles.mainKv ≠ []

theorem classifyCsaLinearSpecs_roles {roles : CSALinearRoles}
    (h : classifyCsaLinearSpecs kvCacheSpec = .ok (some roles)) :
    roles.Of kvCacheSpec := by
  unfold classifyCsaLinearSpecs at h
  split at h
  · cases h
  · obtain ⟨_, hsupported, h⟩ := bind_eq_ok.mp h
    obtain ⟨_, hroles, h⟩ := bind_eq_ok.mp h
    cases h
    refine
      { mainKv := rfl, compressed := rfl, compressorState := rfl, mamba := rfl
        supported := ?_, nonempty := (require_eq_ok.mp hroles).1 }
    intro p hp
    have hnone := List.filter_eq_nil_iff.mp (require_eq_ok.mp hsupported) p hp
    rwa [Bool.not_eq_true', Bool.not_eq_false] at hnone

private theorem count_filter_eq {α : Type} [BEq α] [LawfulBEq α] (q : α → Bool)
    (xs : List α) (a : α) :
    (xs.filter q).count a = if q a then xs.count a else 0 := by
  split
  · next hq => exact List.count_filter hq
  · next hq =>
      apply List.count_eq_zero.mpr
      intro hmem
      exact hq (List.mem_filter.mp hmem).2

/-- The roles cover the model. -/
theorem CSALinearRoles.Of.perm {roles : CSALinearRoles}
    (h : roles.Of kvCacheSpec) :
    (roles.mainKv ++ roles.compressed ++ roles.compressorState ++
      roles.mamba).Perm kvCacheSpec := by
  rw [h.mainKv, h.compressed, h.compressorState, h.mamba, List.perm_iff_count]
  intro p
  rw [List.count_append, List.count_append, List.count_append, count_filter_eq,
    count_filter_eq, count_filter_eq, count_filter_eq]
  by_cases hp : p ∈ kvCacheSpec
  · have hsupported := h.supported p hp
    simp only [isSupported, isMainKv, isCompressed, isCompressorState, isMamba,
      Bool.or_eq_true, Bool.and_eq_true, decide_eq_true_eq] at hsupported ⊢
    rcases hsupported with ((htype | htype) | htype) | htype
    · simp [htype]
    · simp [htype.1, htype.2]
    · simp [htype]
    · simp [htype]
  · have hzero : kvCacheSpec.count p = 0 := List.count_eq_zero.mpr hp
    simp only [hzero, ite_self]

/-! ## The three caches of a layer -/

/-- A dict from layers to the cache owners of one role. -/
structure LayerDict.Of (d : LayerDict) (env : Env) (specs : SpecDict) : Prop where
  owners : d.map Prod.snd = specs
  layer : ∀ p ∈ d, env.extractLayerIndex p.2.1 = some p.1
  nodup : d.indices.Nodup

private theorem byLayerIndexFrom_of {role : String} {done specs : SpecDict}
    {indexed d : LayerDict} (hdone : indexed.Of env done)
    (h : byLayerIndexFrom env role indexed specs = .ok d) :
    d.Of env (done ++ specs) := by
  induction specs generalizing indexed done with
  | nil =>
      cases h
      rwa [List.append_nil]
  | cons p specs ih =>
      obtain ⟨name, spec⟩ := p
      rw [byLayerIndexFrom] at h
      split at h
      · cases h
      · next layerIndex hindex =>
          split at h
          · cases h
          · next hnew =>
              have hfresh : layerIndex ∉ indexed.indices := by
                intro hmem
                obtain ⟨q, hq, rfl⟩ := List.mem_map.mp hmem
                exact absurd (List.lookup_eq_none_iff.mp hnew q hq) (by simp)
              have hnext : LayerDict.Of (indexed ++ [(layerIndex, name, spec)])
                  env (done ++ [(name, spec)]) := by
                refine { owners := ?_, layer := ?_, nodup := ?_ }
                · rw [List.map_append, hdone.owners]
                  rfl
                · intro q hq
                  rcases List.mem_append.mp hq with hold | hlast
                  · exact hdone.layer q hold
                  · rw [List.mem_singleton.mp hlast]
                    exact hindex
                · rw [LayerDict.indices, List.map_append]
                  apply List.Nodup.append hdone.nodup (List.nodup_singleton _)
                  intro i hi hlast
                  rw [List.mem_singleton.mp hlast] at hi
                  exact hfresh hi
              have hrest := ih hnext h
              rwa [List.append_assoc] at hrest

theorem byLayerIndex_of {role : String} {specs : SpecDict} {d : LayerDict}
    (h : byLayerIndex env role specs = .ok d) : d.Of env specs := by
  have hempty : LayerDict.Of [] env [] :=
    { owners := rfl, layer := fun p hp => (List.not_mem_nil hp).elim
      nodup := List.nodup_nil }
  exact byLayerIndexFrom_of hempty h

theorem mem_of_lookup {κ ν : Type} [BEq κ] [LawfulBEq κ] {d : List (κ × ν)}
    {k : κ} {v : ν} (h : d.lookup k = some v) : (k, v) ∈ d := by
  induction d with
  | nil => cases h
  | cons p d ih =>
      obtain ⟨k', v'⟩ := p
      rw [List.lookup_cons] at h
      split at h
      · next hk =>
          rw [eq_of_beq hk]
          cases h
          exact List.mem_cons_self
      · exact List.mem_cons_of_mem _ (ih h)

theorem lookup_of_mem {κ ν : Type} [BEq κ] [LawfulBEq κ] {d : List (κ × ν)}
    (hnodup : (d.map Prod.fst).Nodup) {k : κ} {v : ν} (h : (k, v) ∈ d) :
    d.lookup k = some v := by
  induction d with
  | nil => cases h
  | cons p d ih =>
      rw [List.map_cons, List.nodup_cons] at hnodup
      rw [List.lookup_cons]
      rcases List.mem_cons.mp h with rfl | hrest
      · rw [beq_self_eq_true]
      · have hne : (k == p.1) = false := by
          apply beq_false_of_ne
          intro heq
          exact hnodup.1 (heq ▸ List.mem_map_of_mem hrest)
        rw [hne]
        exact ih hnodup.2 hrest

private theorem LayerDict.get_eq_ok {d : LayerDict} {i : Nat}
    {owner : String × KVCacheSpec} (h : d.get i = .ok owner) :
    d.lookup i = some owner := by
  unfold LayerDict.get at h
  split at h
  · next hlookup =>
      cases h
      exact hlookup
  · cases h

private theorem LayerDict.Of.filterMap {d : LayerDict} {specs : SpecDict}
    (h : d.Of env specs) : d.indices.filterMap (fun i => d.lookup i) = specs := by
  have hall : ∀ e : LayerDict, (∀ p ∈ e, d.lookup p.1 = some p.2) →
      e.indices.filterMap (fun i => d.lookup i) = e.map Prod.snd := by
    intro e he
    induction e with
    | nil => rfl
    | cons p e ih =>
        have hrest := ih fun q hq => he q (List.mem_cons_of_mem p hq)
        rw [LayerDict.indices, List.map_cons, List.filterMap_cons,
          he p List.mem_cons_self, List.map_cons]
        exact congrArg (p.2 :: ·) hrest
  rw [hall d fun p hp => lookup_of_mem h.nodup hp, h.owners]

private theorem perm_of_sameIndices {xs ys : List Nat} (hxs : xs.Nodup)
    (hys : ys.Nodup) (h : sameIndices xs ys = true) : xs.Perm ys := by
  simp only [sameIndices, Bool.and_eq_true, List.all_eq_true,
    decide_eq_true_eq] at h
  exact (List.perm_ext_iff_of_nodup hxs hys).mpr fun i => ⟨h.1 i, h.2 i⟩

/-- The tuples hold every CSA cache owner once, layer by layer. -/
structure TuplesOf (tuples : List CSALinearCacheTuple) (env : Env)
    (roles : CSALinearRoles) : Prop where
  mainKv : (tuples.map CSALinearCacheTuple.mainKv).Perm roles.mainKv
  compressed : (tuples.map CSALinearCacheTuple.compressed).Perm roles.compressed
  compressorState :
    (tuples.map CSALinearCacheTuple.compressorState).Perm roles.compressorState
  layer : ∀ cache ∈ tuples,
    env.extractLayerIndex cache.mainKv.1 = some cache.layerIndex ∧
      env.extractLayerIndex cache.compressed.1 = some cache.layerIndex ∧
      env.extractLayerIndex cache.compressorState.1 = some cache.layerIndex

theorem TuplesOf.mainKv_ne_nil {tuples : List CSALinearCacheTuple}
    {roles : CSALinearRoles} (h : TuplesOf tuples env roles) (hroles : roles.Of kvCacheSpec) :
    (tuples.map fun cache => cache.mainKv.1) ≠ [] := by
  intro hnil
  rw [List.map_eq_nil_iff.mp hnil] at h
  exact hroles.nonempty h.mainKv.nil_eq.symm

theorem getCsaLinearCacheTuples_of {roles : CSALinearRoles}
    {tuples : List CSALinearCacheTuple}
    (h : getCsaLinearCacheTuples env roles = .ok tuples) :
    TuplesOf tuples env roles := by
  unfold getCsaLinearCacheTuples at h
  obtain ⟨mainKvByLayer, hmain, h⟩ := bind_eq_ok.mp h
  obtain ⟨compressedByLayer, hcomp, h⟩ := bind_eq_ok.mp h
  obtain ⟨compressorStateByLayer, hstate, h⟩ := bind_eq_ok.mp h
  obtain ⟨_, hsame, h⟩ := bind_eq_ok.mp h
  obtain ⟨hsameComp, hsameState⟩ := require_eq_ok.mp hsame
  have hmainOf := byLayerIndex_of hmain
  have hcompOf := byLayerIndex_of hcomp
  have hstateOf := byLayerIndex_of hstate
  have hsorted := List.perm_insertionSort (· ≤ ·) mainKvByLayer.indices
  have hsteps : List.Forall₂ (fun i cache =>
      cache.layerIndex = i ∧
        mainKvByLayer.lookup i = some cache.mainKv ∧
        compressedByLayer.lookup i = some cache.compressed ∧
        compressorStateByLayer.lookup i = some cache.compressorState)
      (mainKvByLayer.indices.insertionSort (· ≤ ·)) tuples := by
    refine (forall₂_of_mapM h).imp fun i cache hcache => ?_
    obtain ⟨mainKv, hm, hcache⟩ := bind_eq_ok.mp hcache
    obtain ⟨compressed, hc, hcache⟩ := bind_eq_ok.mp hcache
    obtain ⟨compressorState, hs, hcache⟩ := bind_eq_ok.mp hcache
    cases hcache
    exact ⟨rfl, LayerDict.get_eq_ok hm, LayerDict.get_eq_ok hc,
      LayerDict.get_eq_ok hs⟩
  have hcompPerm := perm_of_sameIndices hcompOf.nodup hmainOf.nodup hsameComp
  have hstatePerm := perm_of_sameIndices hstateOf.nodup hmainOf.nodup hsameState
  refine { mainKv := ?_, compressed := ?_, compressorState := ?_, layer := ?_ }
  · rw [← filterMap_of_forall₂ (fun _ _ hstep => hstep.2.1) hsteps,
      ← hmainOf.filterMap]
    exact hsorted.filterMap _
  · rw [← filterMap_of_forall₂ (fun _ _ hstep => hstep.2.2.1) hsteps,
      ← hcompOf.filterMap]
    exact (hsorted.trans hcompPerm.symm).filterMap _
  · rw [← filterMap_of_forall₂ (fun _ _ hstep => hstep.2.2.2) hsteps,
      ← hstateOf.filterMap]
    exact (hsorted.trans hstatePerm.symm).filterMap _
  · intro cache hcache
    obtain ⟨i, -, hi, hm, hc, hs⟩ := exists_of_forall₂ hsteps hcache
    subst hi
    exact ⟨hmainOf.layer _ (mem_of_lookup hm), hcompOf.layer _ (mem_of_lookup hc),
      hstateOf.layer _ (mem_of_lookup hs)⟩

/-! ## Checks -/

theorem commonShape_eq {tuples : List CSALinearCacheTuple} {shape : CSAShape}
    (h : commonShape cfg tuples = .ok shape) :
    ∀ cache ∈ tuples, cache.shape = shape := by
  unfold commonShape at h
  obtain ⟨_, -, h⟩ := bind_eq_ok.mp h
  split at h
  · cases h
  · split at h
    · next shape' hshapes =>
        obtain ⟨_, -, h⟩ := bind_eq_ok.mp h
        cases h
        intro cache hcache
        have hmem := List.mem_dedup.mpr
          (List.mem_map_of_mem (f := CSALinearCacheTuple.shape) hcache)
        rw [hshapes] at hmem
        exact List.mem_singleton.mp hmem
    · cases h

theorem fromSpecs_eq {specs : SpecDict} {uniform : GroupSpec}
    (h : fromSpecs env specs = some uniform) :
    ∃ blockSize, uniform = .uniformType blockSize specs := by
  unfold fromSpecs at h
  split at h
  · cases h
  · split at h
    · cases h
      exact ⟨_, rfl⟩
    · cases h

theorem csaGroups_eq {shape : CSAShape} {tuples : List CSALinearCacheTuple}
    {groups : List KVCacheGroupSpec} (h : csaGroups env shape tuples = .ok groups) :
    ∃ blockSize blockSize',
      groups =
        [⟨(compressedSparseSpecs tuples).names,
            .uniformType blockSize (compressedSparseSpecs tuples), false⟩,
          ⟨(paddedCompressorStateSpecs shape tuples).names,
            .uniformType blockSize' (paddedCompressorStateSpecs shape tuples),
            false⟩] := by
  dsimp only [csaGroups] at h
  split at h
  · next hcs hst =>
      obtain ⟨blockSize, rfl⟩ := fromSpecs_eq hcs
      obtain ⟨blockSize', rfl⟩ := fromSpecs_eq hst
      cases h
      exact ⟨blockSize, blockSize', rfl⟩
  · cases h

/-! ## The number of mamba groups -/

/-- The layer of a cache owner belongs to a rank. -/
def inRange (env : Env) (range : Nat × Nat) (name : String) : Bool :=
  match env.extractLayerIndex name with
  | some i => decide (range.1 ≤ i ∧ i < range.2)
  | none => false

theorem le_mul_of_cdiv_le {a b k : Nat} (hb : 0 < b) (h : cdiv a b ≤ k) :
    a ≤ k * b := by
  have hlt : (a + b - 1) / b < k + 1 := Nat.lt_succ_of_le h
  rw [Nat.div_lt_iff_lt_mul hb, Nat.succ_mul] at hlt
  omega

/-- The count is large enough for the whole model and for every rank. -/
structure GroupCountOk (env : Env) (cfg : VllmConfig)
    (mambaNames mainKvNames : List String) (k : Nat) : Prop where
  total : mainKvNames ≠ [] → mambaNames.length ≤ k * mainKvNames.length
  ranks : cfg.pipelineParallelSize ≠ 1 → ∀ range ∈ rankRanges env cfg,
    mambaNames.countP (inRange env range) ≤
      k * mainKvNames.countP (inRange env range)

private theorem mambaGroupCountFrom_spec {ranges : List (Nat × Nat)}
    {mambaIndices mainKvIndices : List Nat} {start k : Nat}
    (h : mambaGroupCountFrom ranges mambaIndices mainKvIndices start = some k) :
    start ≤ k ∧ ∀ range ∈ ranges,
      mambaIndices.countP (fun i => decide (range.1 ≤ i ∧ i < range.2)) ≤
        k * mainKvIndices.countP fun i => decide (range.1 ≤ i ∧ i < range.2) := by
  unfold mambaGroupCountFrom at h
  induction ranges generalizing start with
  | nil =>
      cases h
      exact ⟨Nat.le_refl _, fun range hrange => by cases hrange⟩
  | cons range ranges ih =>
      rw [List.foldlM_cons] at h
      obtain ⟨next, hnext, hrest⟩ := Option.bind_eq_some_iff.mp h
      obtain ⟨hle, hranges⟩ := ih hrest
      have hstep : start ≤ next ∧
          mambaIndices.countP (fun i => decide (range.1 ≤ i ∧ i < range.2)) ≤
            next * mainKvIndices.countP
              fun i => decide (range.1 ≤ i ∧ i < range.2) := by
        dsimp only at hnext
        split at hnext
        · next hzero =>
            cases hnext
            rw [hzero]
            exact ⟨Nat.le_refl _, Nat.zero_le _⟩
        · split at hnext
          · cases hnext
          · next hmain =>
              cases hnext
              exact ⟨Nat.le_max_left _ _,
                le_mul_of_cdiv_le (Nat.pos_of_ne_zero hmain)
                  (Nat.le_max_right _ _)⟩
      refine ⟨hstep.1.trans hle, ?_⟩
      intro range' hrange'
      rcases List.mem_cons.mp hrange' with rfl | htail
      · exact hstep.2.trans (Nat.mul_le_mul_right _ hle)
      · exact hranges range' htail

private theorem countP_indices {names : List String} {indices : List Nat}
    (h : names.mapM (layerIndexOf env) = .ok indices) (range : Nat × Nat) :
    indices.countP (fun i => decide (range.1 ≤ i ∧ i < range.2)) =
      names.countP (inRange env range) := by
  have hsteps := forall₂_of_mapM h
  clear h
  induction hsteps with
  | nil => rfl
  | @cons name i names indices hstep _ ih =>
      have hindex : env.extractLayerIndex name = some i := by
        unfold layerIndexOf at hstep
        split at hstep
        · next hsome =>
            cases hstep
            exact hsome
        · cases hstep
      have hin : inRange env range name =
          decide (range.1 ≤ i ∧ i < range.2) := by
        rw [inRange, hindex]
      rw [List.countP_cons, List.countP_cons, ih, hin]

theorem getCsaLinearMambaGroupCount_ok {mambaNames mainKvNames : List String}
    {k : Nat}
    (h : getCsaLinearMambaGroupCount env cfg mambaNames mainKvNames =
      .ok (some k)) : GroupCountOk env cfg mambaNames mainKvNames k := by
  unfold getCsaLinearMambaGroupCount at h
  have htotal : cdiv mambaNames.length mainKvNames.length ≤ k →
      mainKvNames ≠ [] → mambaNames.length ≤ k * mainKvNames.length :=
    fun hle hne => le_mul_of_cdiv_le (List.length_pos_of_ne_nil hne) hle
  split at h
  · next hone =>
      cases h
      exact
        { total := htotal (Nat.le_refl _)
          ranks := fun hne => absurd hone hne }
  · obtain ⟨mambaIndices, hmamba, h⟩ := bind_eq_ok.mp h
    obtain ⟨mainKvIndices, hmain, h⟩ := bind_eq_ok.mp h
    obtain ⟨hle, hranges⟩ := mambaGroupCountFrom_spec (Except.ok.inj h)
    refine { total := htotal hle, ranks := fun _ range hrange => ?_ }
    have hrank := hranges range hrange
    rwa [countP_indices hmamba, countP_indices hmain] at hrank

/-! ## Mamba groups -/

/-- The mamba owners of one policy, dealt round robin. -/
structure MambaGroupsOf (env : Env) (cfg : VllmConfig) (owners : SpecDict)
    (mainKvNames : List String) (page : ℕ+) (k : Nat)
    (groups : List KVCacheGroupSpec) : Prop where
  names : groups.map KVCacheGroupSpec.layerNames = deal k owners.names
  pos : owners ≠ [] → 0 < k
  spec : ∀ group ∈ groups, ∃ spec, group.kvCacheSpec = .single spec ∧
    spec.type = .mamba ∧ spec.pageSizeBytes = page
  count : owners ≠ [] → GroupCountOk env cfg owners.names mainKvNames k

theorem mambaGroups_of {roles : CSALinearRoles} (hroles : roles.Of kvCacheSpec)
    {mainKvNames : List String} (hmain : mainKvNames ≠ []) {page : ℕ+}
    {tpReplicated : Bool} {groups : List KVCacheGroupSpec}
    (h : mambaGroups env cfg roles mainKvNames page tpReplicated = .ok groups) :
    ∃ k, MambaGroupsOf env cfg (mambaOwners roles tpReplicated) mainKvNames page
      k groups := by
  dsimp only [mambaGroups] at h
  split at h
  · next hnil =>
      cases h
      refine ⟨0, ?_⟩
      rw [hnil]
      exact
        { names := rfl, pos := fun hne => absurd rfl hne
          spec := fun group hgroup => (List.not_mem_nil hgroup).elim
          count := fun hne => absurd rfl hne }
  · next name representative rest howners =>
      obtain ⟨_, -, h⟩ := bind_eq_ok.mp h
      obtain ⟨_, -, h⟩ := bind_eq_ok.mp h
      obtain ⟨count, hcount, h⟩ := bind_eq_ok.mp h
      split at h
      · cases h
      · next k =>
          cases h
          have hok := getCsaLinearMambaGroupCount_ok hcount
          refine ⟨k, ?_⟩
          refine { names := ?_, pos := ?_, spec := ?_, count := fun _ => hok }
          · rw [List.map_map]
            exact List.map_id _
          · intro hne
            have hlen := hok.total hmain
            have hpos := List.length_pos_of_ne_nil hne
            rw [SpecDict.names, List.length_map] at hlen
            apply Nat.pos_of_ne_zero
            intro hzero
            rw [hzero, Nat.zero_mul] at hlen
            omega
          · intro group hgroup
            obtain ⟨names, -, rfl⟩ := List.mem_map.mp hgroup
            refine ⟨_, rfl, ?_, rfl⟩
            have hmem : (name, representative) ∈ roles.mamba := by
              have hfirst : (name, representative) ∈
                  mambaOwners roles tpReplicated := by
                rw [howners]
                exact List.mem_cons_self
              exact (List.mem_filter.mp hfirst).1
            rw [hroles.mamba] at hmem
            exact of_decide_eq_true (List.mem_filter.mp hmem).2

/-! ## Accepted models -/

/-- What the groups of an accepted model are made of. -/
structure Accepted (env : Env) (cfg : VllmConfig) (kvCacheSpec : SpecDict)
    (roles : CSALinearRoles) (tuples : List CSALinearCacheTuple)
    (shape : CSAShape) (k k' : Nat) (sharded replicated : List KVCacheGroupSpec) :
    Prop where
  rolesOf : roles.Of kvCacheSpec
  tuplesOf : TuplesOf tuples env roles
  shapeOf : ∀ cache ∈ tuples, cache.shape = shape
  sharded : MambaGroupsOf env cfg (mambaOwners roles false)
    (tuples.map fun cache => cache.mainKv.1) shape.mainKvPage k sharded
  replicated : MambaGroupsOf env cfg (mambaOwners roles true)
    (tuples.map fun cache => cache.mainKv.1) shape.mainKvPage k' replicated

/-- The group of the `main_kv` and `compressed` owners of some layers. -/
def compressedSparseGroup (blockSize : Nat) (tuples : List CSALinearCacheTuple) :
    KVCacheGroupSpec :=
  ⟨(compressedSparseSpecs tuples).names,
    .uniformType blockSize (compressedSparseSpecs tuples), false⟩

/-- The group of their compressor states. -/
def compressorStateGroup (blockSize : Nat) (shape : CSAShape)
    (tuples : List CSALinearCacheTuple) : KVCacheGroupSpec :=
  ⟨(paddedCompressorStateSpecs shape tuples).names,
    .uniformType blockSize (paddedCompressorStateSpecs shape tuples), false⟩

theorem getKvCacheGroupsCsaLinear_accepted {groups : List KVCacheGroupSpec}
    (h : getKvCacheGroupsCsaLinear env cfg kvCacheSpec = .ok (some groups)) :
    ∃ roles tuples shape k k' sharded replicated blockSize blockSize',
      Accepted env cfg kvCacheSpec roles tuples shape k k' sharded replicated ∧
        groups = compressedSparseGroup blockSize tuples ::
          compressorStateGroup blockSize' shape tuples ::
            (sharded ++ replicated) := by
  unfold getKvCacheGroupsCsaLinear at h
  obtain ⟨found, hroles, h⟩ := bind_eq_ok.mp h
  split at h
  · cases h
  · next roles =>
      obtain ⟨tuples, htuples, h⟩ := bind_eq_ok.mp h
      obtain ⟨shape, hshape, h⟩ := bind_eq_ok.mp h
      obtain ⟨csa, hcsa, h⟩ := bind_eq_ok.mp h
      obtain ⟨sharded, hsharded, h⟩ := bind_eq_ok.mp h
      obtain ⟨replicated, hreplicated, h⟩ := bind_eq_ok.mp h
      cases h
      have hrolesOf := classifyCsaLinearSpecs_roles hroles
      have htuplesOf := getCsaLinearCacheTuples_of htuples
      have hmain := htuplesOf.mainKv_ne_nil hrolesOf
      obtain ⟨k, hk⟩ := mambaGroups_of hrolesOf hmain hsharded
      obtain ⟨k', hk'⟩ := mambaGroups_of hrolesOf hmain hreplicated
      obtain ⟨blockSize, blockSize', rfl⟩ := csaGroups_eq hcsa
      refine ⟨roles, tuples, shape, k, k', sharded, replicated, blockSize,
        blockSize', ?_, rfl⟩
      exact
        { rolesOf := hrolesOf, tuplesOf := htuplesOf
          shapeOf := commonShape_eq hshape, sharded := hk, replicated := hk' }

end FlashNext.Ports.KvCache
