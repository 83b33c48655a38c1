import FlashNext.Ports.CsaLinearGroups
import Mathlib.Data.List.Chain
import Mathlib.Data.List.Nodup

/-!
# KV-cache planning for CSA-linear models: one pipeline rank

The layers are cut into consecutive ranges, one for every rank.  The groups of
an accepted model, projected onto a rank, hold the caches of its own layers,
and no mamba group holds more of them than the rank has CSA layers.
-/

namespace FlashNext.Ports.KvCache

open FlashNext.Verified.Checked
open FlashNext.Verified.RoundRobin

variable {env : Env} {cfg : VllmConfig}

/-! ## Pipelines -/

/-- The specs of the ranks, in rank order.  Several ranks own the consecutive
layer ranges that `get_pp_indices` cuts. -/
structure Pipeline (env : Env) (cfg : VllmConfig) (workers : List SpecDict) :
    Prop where
  dicts : ∀ w ∈ workers, w.names.Nodup
  single : cfg.pipelineParallelSize = 1 → workers.length = 1
  ordered : ∀ range ∈ rankRanges env cfg, range.1 ≤ range.2
  consecutive : (rankRanges env cfg).IsChain fun a b => a.2 = b.1
  owned : cfg.pipelineParallelSize ≠ 1 →
    List.Forall₂ (fun w range => ∀ p ∈ w, inRange env range p.1 = true) workers
      (rankRanges env cfg)

/-- The names that belong to one rank. -/
structure StageOf (env : Env) (cfg : VllmConfig) (own : String → Bool) : Prop where
  congr : ∀ {name name'},
    env.extractLayerIndex name = env.extractLayerIndex name' → own name = own name'
  single : cfg.pipelineParallelSize = 1 → ∀ name, own name = true
  range : cfg.pipelineParallelSize ≠ 1 →
    ∃ range ∈ rankRanges env cfg, own = inRange env range

/-- The owners of one rank among those of the model. -/
structure RankOf (own : String → Bool) (pre w post : SpecDict) : Prop where
  mine : ∀ p ∈ w, own p.1 = true
  other : ∀ p ∈ pre ++ post, own p.1 = false
  nodup : (SpecDict.names (pre ++ w ++ post)).Nodup

/-- The first range ends before the second begins. -/
private def Before (a b : Nat × Nat) : Prop := a.2 ≤ b.1 ∧ b.1 ≤ b.2

private theorem inRange_eq_true {range : Nat × Nat} {name : String} :
    inRange env range name = true ↔
      ∃ i, env.extractLayerIndex name = some i ∧ range.1 ≤ i ∧ i < range.2 := by
  unfold inRange
  split
  · next i hi => simp [hi]
  · next hnone => simp [hnone]

private theorem not_inRange_of_before {a b : Nat × Nat} (hab : Before a b)
    {name : String} :
    (inRange env a name = true → inRange env b name = false) ∧
      (inRange env b name = true → inRange env a name = false) := by
  have hboth : ¬ (inRange env a name = true ∧ inRange env b name = true) := by
    rintro ⟨ha, hb⟩
    obtain ⟨i, hi, -, hlt⟩ := inRange_eq_true.mp ha
    obtain ⟨j, hj, hle, -⟩ := inRange_eq_true.mp hb
    rw [hi] at hj
    cases hj
    have := hab.1
    omega
  constructor
  · intro ha
    exact Bool.eq_false_iff.mpr fun hb => hboth ⟨ha, hb⟩
  · intro hb
    exact Bool.eq_false_iff.mpr fun ha => hboth ⟨ha, hb⟩

private theorem Pipeline.pairwise {workers : List SpecDict}
    (h : Pipeline env cfg workers) : (rankRanges env cfg).Pairwise Before := by
  have htrans : IsTrans (Nat × Nat) Before :=
    ⟨fun a b c hab hbc => ⟨hab.1.trans (hab.2.trans hbc.1), hbc.2⟩⟩
  apply List.isChain_iff_pairwise.mp
  refine h.consecutive.imp_of_mem_imp fun a b _ hb hab => ?_
  exact ⟨hab.le, h.ordered b hb⟩

private theorem nodup_names {workers : List SpecDict} {ranges : List (Nat × Nat)}
    (hdicts : ∀ w ∈ workers, w.names.Nodup) (hbefore : ranges.Pairwise Before)
    (howned : List.Forall₂
      (fun w range => ∀ p ∈ w, inRange env range p.1 = true) workers ranges) :
    (SpecDict.names workers.flatten).Nodup := by
  induction howned with
  | nil => exact List.nodup_nil
  | @cons w range workers ranges hw hrest ih =>
      obtain ⟨hfirst, htail⟩ := List.pairwise_cons.mp hbefore
      rw [SpecDict.names, List.flatten_cons, List.map_append]
      apply List.Nodup.append (hdicts w List.mem_cons_self)
      · exact ih (fun w' hw' => hdicts w' (List.mem_cons_of_mem w hw')) htail
      · intro name hname hname'
        obtain ⟨p, hp, rfl⟩ := List.mem_map.mp hname
        obtain ⟨q, hq, hqp⟩ := List.mem_map.mp hname'
        obtain ⟨w', hw', hqw⟩ := List.mem_flatten.mp hq
        obtain ⟨range', hrange', hown⟩ := exists_of_forall₂ hrest.flip hw'
        have hin := hown q hqw
        rw [hqp, (not_inRange_of_before (hfirst range' hrange')).1 (hw p hp)] at hin
        cases hin

private theorem rank_split {workers : List SpecDict} {ranges : List (Nat × Nat)}
    (hbefore : ranges.Pairwise Before)
    (howned : List.Forall₂
      (fun w range => ∀ p ∈ w, inRange env range p.1 = true) workers ranges)
    {w : SpecDict} (hw : w ∈ workers) :
    ∃ range ∈ ranges, ∃ pre post : SpecDict, workers.flatten = pre ++ w ++ post ∧
      (∀ p ∈ w, inRange env range p.1 = true) ∧
      (∀ p ∈ pre ++ post, inRange env range p.1 = false) := by
  induction howned with
  | nil => cases hw
  | @cons first range workers ranges hfirst hrest ih =>
      obtain ⟨hhead, htail⟩ := List.pairwise_cons.mp hbefore
      rcases List.mem_cons.mp hw with rfl | hmem
      · refine ⟨range, List.mem_cons_self, [], workers.flatten, rfl, hfirst, ?_⟩
        intro p hp
        obtain ⟨w', hw', hpw⟩ := List.mem_flatten.mp hp
        obtain ⟨range', hrange', hown⟩ := exists_of_forall₂ hrest.flip hw'
        exact (not_inRange_of_before (hhead range' hrange')).2 (hown p hpw)
      · obtain ⟨range', hrange', pre, post, hflatten, hown, hother⟩ := ih htail hmem
        refine ⟨range', List.mem_cons_of_mem _ hrange', first ++ pre, post, ?_,
          hown, ?_⟩
        · rw [List.flatten_cons, hflatten, List.append_assoc, List.append_assoc,
            List.append_assoc]
        · intro p hp
          rw [List.append_assoc] at hp
          rcases List.mem_append.mp hp with hp | hp
          · exact (not_inRange_of_before (hhead range' hrange')).1 (hfirst p hp)
          · exact hother p hp

private theorem inRange_congr {range : Nat × Nat} {name name' : String}
    (h : env.extractLayerIndex name = env.extractLayerIndex name') :
    inRange env range name = inRange env range name' := by
  rw [inRange, inRange, h]

/-- A rank of a pipeline. -/
theorem Pipeline.rankOf {workers : List SpecDict} (h : Pipeline env cfg workers)
    {w : SpecDict} (hw : w ∈ workers) :
    ∃ (own : String → Bool) (pre post : SpecDict),
      workers.flatten = pre ++ w ++ post ∧ StageOf env cfg own ∧
        RankOf own pre w post := by
  by_cases hone : cfg.pipelineParallelSize = 1
  · obtain ⟨first, hfirst⟩ := List.length_eq_one_iff.mp (h.single hone)
    subst hfirst
    have heq : w = first := List.mem_singleton.mp hw
    subst heq
    refine ⟨fun _ => true, [], [], ?_, ?_, ?_⟩
    · rw [List.flatten_singleton, List.nil_append, List.append_nil]
    · exact
        { congr := fun _ => rfl, single := fun _ _ => rfl
          range := fun hne => absurd hone hne }
    · refine
        { mine := fun _ _ => rfl
          other := fun p hp => (List.not_mem_nil hp).elim, nodup := ?_ }
      rw [List.nil_append, List.append_nil]
      exact h.dicts w hw
  · obtain ⟨range, hrange, pre, post, hflatten, hmine, hother⟩ :=
      rank_split h.pairwise (h.owned hone) hw
    refine ⟨inRange env range, pre, post, hflatten, ?_, hmine, hother, ?_⟩
    · exact
        { congr := inRange_congr, single := fun heq => absurd heq hone
          range := fun _ => ⟨range, hrange, rfl⟩ }
    · rw [← hflatten]
      exact nodup_names h.dicts h.pairwise (h.owned hone)

/-! ## Names of one rank -/

section Rank

variable {own : String → Bool} {pre w post : SpecDict}
  (hrank : RankOf own pre w post)

include hrank

/-- A rank's own cache owners are those of its layers. -/
theorem RankOf.mem_names_iff {name : String}
    (hname : name ∈ SpecDict.names (pre ++ w ++ post)) :
    decide (name ∈ w.names) = own name := by
  obtain ⟨p, hp, rfl⟩ := List.mem_map.mp hname
  by_cases hmem : p.1 ∈ w.names
  · obtain ⟨q, hq, hqp⟩ := List.mem_map.mp hmem
    rw [decide_eq_true hmem, ← hqp, hrank.mine q hq]
  · have hother : p ∈ pre ++ post := by
      rcases List.mem_append.mp hp with hleft | hright
      · rcases List.mem_append.mp hleft with hpre | hw
        · exact List.mem_append_left post hpre
        · exact absurd (List.mem_map_of_mem hw) hmem
      · exact List.mem_append_right pre hright
    rw [decide_eq_false hmem, hrank.other p hother]

/-- What is left of the model's names on this rank. -/
theorem RankOf.filter_names :
    (SpecDict.names (pre ++ w ++ post)).filter own = w.names := by
  have hall : ∀ d : SpecDict, (∀ p ∈ d, own p.1 = true) →
      d.names.filter own = d.names := by
    intro d hd
    apply List.filter_eq_self.mpr
    intro name hname
    obtain ⟨p, hp, rfl⟩ := List.mem_map.mp hname
    exact hd p hp
  have hnone : ∀ d : SpecDict, (∀ p ∈ d, own p.1 = false) →
      d.names.filter own = [] := by
    intro d hd
    apply List.filter_eq_nil_iff.mpr
    intro name hname
    obtain ⟨p, hp, rfl⟩ := List.mem_map.mp hname
    rw [hd p hp]
    exact Bool.false_ne_true
  have hpre := hnone pre fun p hp => hrank.other p (List.mem_append_left post hp)
  have hpost := hnone post fun p hp => hrank.other p (List.mem_append_right pre hp)
  have hsplit : SpecDict.names (pre ++ w ++ post) =
      SpecDict.names pre ++ SpecDict.names w ++ SpecDict.names post := by
    simp only [SpecDict.names, List.map_append]
  rw [hsplit, List.filter_append, List.filter_append, hpre, hall w hrank.mine, hpost,
    List.nil_append, List.append_nil]

end Rank

/-! ## Names of the model -/

section Model

variable {kvCacheSpec : SpecDict} {roles : CSALinearRoles}
  {tuples : List CSALinearCacheTuple} {shape : CSAShape} {k k' : Nat}
  {sharded replicated : List KVCacheGroupSpec}

private theorem MambaGroupsOf.names_perm {owners : SpecDict}
    {mainKvNames : List String} {page : ℕ+} {groups : List KVCacheGroupSpec}
    (h : MambaGroupsOf env cfg owners mainKvNames page k groups) :
    (groups.flatMap KVCacheGroupSpec.layerNames).Perm owners.names := by
  rw [List.flatMap_def, h.names]
  by_cases hnil : owners = []
  · rw [hnil]
    show (List.replicate k ([] : List String)).flatten.Perm []
    rw [List.flatten_replicate_nil]
  · exact deal_perm (h.pos hnil) owners.names

theorem compressedSparseSpecs_perm (tuples : List CSALinearCacheTuple) :
    (compressedSparseSpecs tuples).Perm
      (tuples.map CSALinearCacheTuple.mainKv ++
        tuples.map CSALinearCacheTuple.compressed) := by
  have hperm := List.flatMap_append_perm tuples (fun cache => [cache.mainKv])
    fun cache => [cache.compressed]
  rw [← List.map_eq_flatMap, ← List.map_eq_flatMap] at hperm
  exact hperm.symm

/-- The two policies share out the mamba owners. -/
theorem mambaOwners_perm (roles : CSALinearRoles) :
    (mambaOwners roles false ++ mambaOwners roles true).Perm roles.mamba := by
  have hsplit := List.filter_append_perm
    (fun p : String × KVCacheSpec => p.2.tpReplicated == false) roles.mamba
  have hnot : (fun p : String × KVCacheSpec =>
      !(p.2.tpReplicated == false)) = fun p => p.2.tpReplicated == true := by
    funext p
    cases p.2.tpReplicated <;> rfl
  rwa [hnot] at hsplit

/-- Every cache owner is in one group, once. -/
theorem Accepted.names_perm
    (h : Accepted env cfg kvCacheSpec roles tuples shape k k' sharded replicated) :
    ((compressedSparseSpecs tuples).names ++
      ((paddedCompressorStateSpecs shape tuples).names ++
        (sharded ++ replicated).flatMap KVCacheGroupSpec.layerNames)).Perm
      kvCacheSpec.names := by
  have hcsa : (compressedSparseSpecs tuples).names.Perm
      (SpecDict.names (roles.mainKv ++ roles.compressed)) :=
    ((compressedSparseSpecs_perm tuples).trans
      (h.tuplesOf.mainKv.append h.tuplesOf.compressed)).map Prod.fst
  have hstate : (paddedCompressorStateSpecs shape tuples).names.Perm
      (SpecDict.names roles.compressorState) := by
    have hmap := h.tuplesOf.compressorState.map Prod.fst
    rw [List.map_map] at hmap
    rw [SpecDict.names, paddedCompressorStateSpecs, List.map_map]
    exact hmap
  have hmamba : ((sharded ++ replicated).flatMap
      KVCacheGroupSpec.layerNames).Perm (SpecDict.names roles.mamba) := by
    rw [List.flatMap_append]
    have hnames := (h.sharded.names_perm.append h.replicated.names_perm)
    refine hnames.trans ?_
    have hmap := (mambaOwners_perm roles).map Prod.fst
    rwa [List.map_append] at hmap
  apply (hcsa.append (hstate.append hmamba)).trans
  have hroles := h.rolesOf.perm.map Prod.fst
  simp only [List.map_append, List.append_assoc] at hroles
  simp only [SpecDict.names, List.map_append, List.append_assoc]
  exact hroles

end Model

/-! ## Projecting the groups -/

theorem SpecDict.get_of_mem {d : SpecDict} (hnodup : d.names.Nodup)
    {name : String} {spec : KVCacheSpec} (h : (name, spec) ∈ d) :
    d.get name = .ok spec := by
  rw [SpecDict.get, lookup_of_mem hnodup h]

/-- A loop over the names of some items of a dict. -/
theorem SpecDict.mapM_get {β : Type} {d e : SpecDict} (hnodup : d.names.Nodup)
    (he : ∀ p ∈ e, p ∈ d) (f : String → KVCacheSpec → β) :
    (e.names.mapM fun name => do
      let spec ← d.get name
      return f name spec) = .ok (e.map fun p => f p.1 p.2) := by
  induction e with
  | nil => rfl
  | cons p e ih =>
      have hp : d.get p.1 = .ok p.2 :=
        SpecDict.get_of_mem hnodup (he p List.mem_cons_self)
      have hrest := ih fun x hx => he x (List.mem_cons_of_mem p hx)
      rw [SpecDict.names] at hrest
      rw [SpecDict.names, List.map_cons, List.mapM_cons, hp, hrest]
      rfl

/-- Restricting a dict to the names of some of its items. -/
theorem SpecDict.restrict_filter {d : SpecDict} (hnodup : d.names.Nodup)
    (q : String × KVCacheSpec → Bool) :
    d.restrict (SpecDict.names (d.filter q)) = .ok (d.filter q) := by
  have hitems := SpecDict.mapM_get hnodup
    (fun p (hp : p ∈ d.filter q) => (List.mem_filter.mp hp).1) Prod.mk
  rwa [List.map_id''] at hitems
  exact fun _ => rfl

/-- A group of one dict, projected onto a worker that owns some of it. -/
theorem projectGroup_uniformType {w d : SpecDict} (hnodup : d.names.Nodup)
    {blockSize : Nat} {owned : String → Bool}
    (howned : ∀ name ∈ d.names, decide (name ∈ w.names) = owned name)
    (hne : d.filter (fun p => owned p.1) ≠ []) :
    projectGroup w ⟨d.names, .uniformType blockSize d, false⟩ =
      .ok ⟨SpecDict.names (d.filter fun p => owned p.1),
        .uniformType blockSize (d.filter fun p => owned p.1), false⟩ := by
  have hnames : d.names.filter (fun name => decide (name ∈ w.names)) =
      SpecDict.names (d.filter fun p => owned p.1) := by
    rw [List.filter_congr howned, SpecDict.names, List.filter_map]
    rfl
  have hnamesNe : SpecDict.names (d.filter fun p => owned p.1) ≠ [] := by
    intro hnil
    exact hne (List.map_eq_nil_iff.mp hnil)
  simp only [projectGroup, hnames, if_neg hnamesNe,
    SpecDict.restrict_filter hnodup, ok_bind, Bool.false_and]
  rfl

/-- The part of a mamba group that a worker owns. -/
def ownedPart (w : SpecDict) (group : KVCacheGroupSpec) : KVCacheGroupSpec :=
  let names := group.layerNames.filter fun name => decide (name ∈ w.names)
  ⟨names, group.kvCacheSpec, group.isEagleGroup && decide (names ≠ [])⟩

theorem projectGroup_single {w : SpecDict} {group : KVCacheGroupSpec}
    {spec : KVCacheSpec} (hspec : group.kvCacheSpec = .single spec) :
    projectGroup w group = .ok (ownedPart w group) := by
  simp only [projectGroup, hspec, ownedPart]
  rfl

/-! ## An accepted model on a rank -/

/-- The CSA layers of a rank. -/
def rankTuples (own : String → Bool) (tuples : List CSALinearCacheTuple) :
    List CSALinearCacheTuple :=
  tuples.filter fun cache => own cache.mainKv.1

section Rank

variable {own : String → Bool} {roles : CSALinearRoles}
  {tuples : List CSALinearCacheTuple} {shape : CSAShape}

private theorem compressedSparseSpecs_filter (hstage : StageOf env cfg own)
    (h : TuplesOf tuples env roles) :
    (compressedSparseSpecs tuples).filter (fun p => own p.1) =
      compressedSparseSpecs (rankTuples own tuples) := by
  have hsame : ∀ cache ∈ tuples, own cache.compressed.1 =
      own cache.mainKv.1 := by
    intro cache hcache
    obtain ⟨hmain, hcomp, -⟩ := h.layer cache hcache
    exact hstage.congr (hcomp.trans hmain.symm)
  clear h
  unfold compressedSparseSpecs rankTuples
  induction tuples with
  | nil => rfl
  | cons cache tuples ih =>
      have hrest := ih fun c hc => hsame c (List.mem_cons_of_mem cache hc)
      have hcache := hsame cache List.mem_cons_self
      rw [List.flatMap_cons, List.filter_append, hrest, List.filter_cons]
      cases hin : own cache.mainKv.1 with
      | false => simp [hcache, hin]
      | true => simp [hcache, hin]

private theorem paddedCompressorStateSpecs_filter (hstage : StageOf env cfg own)
    (h : TuplesOf tuples env roles) :
    (paddedCompressorStateSpecs shape tuples).filter
        (fun p => own p.1) =
      paddedCompressorStateSpecs shape (rankTuples own tuples) := by
  rw [paddedCompressorStateSpecs, List.filter_map, rankTuples]
  refine congrArg (List.map _) (List.filter_congr fun cache hcache => ?_)
  obtain ⟨hmain, -, hstate⟩ := h.layer cache hcache
  exact hstage.congr (hstate.trans hmain.symm)

/-- The names of a rank are enough slots for its share of every mamba group. -/
private theorem GroupCountOk.rank {mambaNames mainKvNames : List String} {k : Nat}
    (h : GroupCountOk env cfg mambaNames mainKvNames k)
    (hstage : StageOf env cfg own) (hmain : mainKvNames ≠ []) :
    mambaNames.countP own ≤ k * mainKvNames.countP own := by
  by_cases hone : cfg.pipelineParallelSize = 1
  · have hall : ∀ names : List String, names.countP own = names.length :=
      fun names => List.countP_eq_length.mpr fun name _ => hstage.single hone name
    rw [hall, hall]
    exact h.total hmain
  · obtain ⟨range, hrange, rfl⟩ := hstage.range hone
    exact h.ranks hone range hrange

variable {pre w post : SpecDict}

/-- No mamba group leaves more than `m` owners on a rank. -/
private theorem share_le (hrank : RankOf own pre w post)
    (hroles : roles.Of (pre ++ w ++ post)) {tpReplicated : Bool}
    {mainKvNames : List String} {page : ℕ+} {k m : Nat}
    {groups : List KVCacheGroupSpec}
    (hgroups : MambaGroupsOf env cfg (mambaOwners roles tpReplicated) mainKvNames
      page k groups)
    (hcount : mambaOwners roles tpReplicated ≠ [] →
      (mambaOwners roles tpReplicated).names.countP own ≤ k * m) :
    ∀ group ∈ groups, (ownedPart w group).layerNames.length ≤ m := by
  intro group hgroup
  have hhand : group.layerNames ∈ deal k (mambaOwners roles tpReplicated).names := by
    rw [← hgroups.names]
    exact List.mem_map_of_mem hgroup
  by_cases hnil : mambaOwners roles tpReplicated = []
  · rw [hnil] at hhand
    have hempty : group.layerNames = [] := List.eq_of_mem_replicate hhand
    simp [ownedPart, hempty]
  · let part : SpecDict → List String := fun d =>
      SpecDict.names ((d.filter fun p => isMamba p.2).filter
        fun p => p.2.tpReplicated == tpReplicated)
    have hsplit : (mambaOwners roles tpReplicated).names =
        part pre ++ part w ++ part post := by
      simp only [part, mambaOwners, hroles.mamba, SpecDict.names,
        List.filter_append, List.map_append]
    have hpart : ∀ d : SpecDict, ∀ name ∈ part d, ∃ p ∈ d, p.1 = name := by
      intro d name hname
      obtain ⟨p, hp, hpn⟩ := List.mem_map.mp hname
      exact ⟨p, (List.mem_filter.mp (List.mem_filter.mp hp).1).1, hpn⟩
    have hseg : (part w).length ≤ k * m := by
      have hall : (part w).countP own = (part w).length := by
        apply List.countP_eq_length.mpr
        intro name hname
        obtain ⟨p, hp, rfl⟩ := hpart w name hname
        exact hrank.mine p hp
      have hle := hcount hnil
      rw [hsplit, List.countP_append, List.countP_append, hall] at hle
      omega
    have hothers : ∀ name ∈ part pre ++ part post,
        decide (name ∈ w.names) = false := by
      intro name hname
      have hother : ∃ p ∈ pre ++ post, p.1 = name := by
        rcases List.mem_append.mp hname with hmem | hmem
        · obtain ⟨p, hp, hpn⟩ := hpart pre name hmem
          exact ⟨p, List.mem_append_left post hp, hpn⟩
        · obtain ⟨p, hp, hpn⟩ := hpart post name hmem
          exact ⟨p, List.mem_append_right pre hp, hpn⟩
      obtain ⟨p, hp, rfl⟩ := hother
      apply decide_eq_false
      intro hmem
      obtain ⟨q, hq, hqp⟩ := List.mem_map.mp hmem
      have hown := hrank.mine q hq
      rw [hqp, hrank.other p hp] at hown
      cases hown
    rw [hsplit] at hhand
    exact deal_stretch_le hothers hseg hhand

/-- The groups of a rank: those of its own CSA layers, and mamba groups that
fit into their `main_kv` pages. -/
structure Projected (w : SpecDict) (shape : CSAShape)
    (tuples : List CSALinearCacheTuple) (mambas : List KVCacheGroupSpec) : Prop where
  nonempty : tuples ≠ []
  mainKvType : ∀ cache ∈ tuples, cache.mainKv.2.type = .fullAttention
  compressedType : ∀ cache ∈ tuples, cache.compressed.2.type = .mlaAttention
  stateType : ∀ cache ∈ tuples, cache.compressorState.2.type = .circularBuffer
  shapeOf : ∀ cache ∈ tuples, cache.shape = shape
  mamba : ∀ group ∈ mambas, ∃ spec, group.kvCacheSpec = .single spec ∧
    spec.type = .mamba ∧ spec.pageSizeBytes = shape.mainKvPage
  share : ∀ group ∈ mambas, group.layerNames.length ≤ tuples.length
  names : ((compressedSparseSpecs tuples).names ++
    ((paddedCompressorStateSpecs shape tuples).names ++
      mambas.flatMap KVCacheGroupSpec.layerNames)).Perm w.names
  nodup : w.names.Nodup

variable {k k' : Nat} {sharded replicated : List KVCacheGroupSpec}

private theorem mem_roles (h : roles.Of (pre ++ w ++ post))
    (ht : TuplesOf tuples env roles) {cache : CSALinearCacheTuple}
    (hcache : cache ∈ tuples) :
    (cache.mainKv ∈ pre ++ w ++ post ∧ isMainKv cache.mainKv.2 = true) ∧
      isCompressed cache.compressed.2 = true ∧
      isCompressorState cache.compressorState.2 = true := by
  have hmain : cache.mainKv ∈ roles.mainKv :=
    ht.mainKv.mem_iff.mp (List.mem_map_of_mem hcache)
  have hcomp : cache.compressed ∈ roles.compressed :=
    ht.compressed.mem_iff.mp (List.mem_map_of_mem hcache)
  have hstate : cache.compressorState ∈ roles.compressorState :=
    ht.compressorState.mem_iff.mp (List.mem_map_of_mem hcache)
  rw [h.mainKv] at hmain
  rw [h.compressed] at hcomp
  rw [h.compressorState] at hstate
  exact ⟨List.mem_filter.mp hmain, (List.mem_filter.mp hcomp).2,
    (List.mem_filter.mp hstate).2⟩

private theorem Accepted.shares
    (h : Accepted env cfg (pre ++ w ++ post) roles tuples shape k k' sharded
      replicated)
    (hstage : StageOf env cfg own) (hrank : RankOf own pre w post)
    (hne : tuples ≠ []) :
    ∀ group ∈ sharded ++ replicated,
      (ownedPart w group).layerNames.length ≤ (rankTuples own tuples).length := by
  have hmainNe : (tuples.map fun cache => cache.mainKv.1) ≠ [] :=
    fun hnil => hne (List.map_eq_nil_iff.mp hnil)
  have hlen : (tuples.map fun cache => cache.mainKv.1).countP own =
      (rankTuples own tuples).length := by
    rw [List.countP_map, rankTuples, List.countP_eq_length_filter]
    rfl
  have hcount : ∀ (tpReplicated : Bool) {n : Nat},
      GroupCountOk env cfg (mambaOwners roles tpReplicated).names
        (tuples.map fun cache => cache.mainKv.1) n →
      (mambaOwners roles tpReplicated).names.countP own ≤
        n * (rankTuples own tuples).length := by
    intro tpReplicated n hok
    rw [← hlen]
    exact hok.rank hstage hmainNe
  intro group hgroup
  rcases List.mem_append.mp hgroup with hmem | hmem
  · exact share_le hrank h.rolesOf h.sharded
      (fun howners => hcount false (h.sharded.count howners)) group hmem
  · exact share_le hrank h.rolesOf h.replicated
      (fun howners => hcount true (h.replicated.count howners)) group hmem

private theorem Accepted.rank_names
    (h : Accepted env cfg (pre ++ w ++ post) roles tuples shape k k' sharded
      replicated)
    (hstage : StageOf env cfg own) (hrank : RankOf own pre w post) :
    ((compressedSparseSpecs (rankTuples own tuples)).names ++
      ((paddedCompressorStateSpecs shape (rankTuples own tuples)).names ++
        ((sharded ++ replicated).map (ownedPart w)).flatMap
          KVCacheGroupSpec.layerNames)).Perm w.names := by
  have hnames : ∀ d : SpecDict, d.names.filter own =
      SpecDict.names (d.filter fun p => own p.1) := by
    intro d
    rw [SpecDict.names, List.filter_map]
    rfl
  have hmamba : ((sharded ++ replicated).flatMap
        KVCacheGroupSpec.layerNames).filter own =
      ((sharded ++ replicated).map (ownedPart w)).flatMap
        KVCacheGroupSpec.layerNames := by
    rw [List.filter_flatMap, List.flatMap_map]
    refine List.flatMap_congr fun group hgroup => ?_
    refine List.filter_congr fun name hname => ?_
    refine (hrank.mem_names_iff (h.names_perm.mem_iff.mp ?_)).symm
    apply List.mem_append_right
    apply List.mem_append_right
    exact List.mem_flatMap.mpr ⟨group, hgroup, hname⟩
  have hperm := h.names_perm.filter own
  rwa [List.filter_append, List.filter_append, hnames, hnames, hmamba,
    compressedSparseSpecs_filter hstage h.tuplesOf,
    paddedCompressorStateSpecs_filter hstage h.tuplesOf, hrank.filter_names] at hperm

theorem Accepted.projected
    (h : Accepted env cfg (pre ++ w ++ post) roles tuples shape k k' sharded
      replicated)
    (hstage : StageOf env cfg own) (hrank : RankOf own pre w post)
    (hcsa : ∃ p ∈ w, isMainKv p.2 = true) :
    Projected w shape (rankTuples own tuples)
      ((sharded ++ replicated).map (ownedPart w)) := by
  have hsub : ∀ cache ∈ rankTuples own tuples, cache ∈ tuples :=
    fun cache hcache => (List.mem_filter.mp hcache).1
  have hroles := fun cache (hcache : cache ∈ rankTuples own tuples) =>
    mem_roles h.rolesOf h.tuplesOf (hsub cache hcache)
  have hne : rankTuples own tuples ≠ [] := by
    obtain ⟨p, hp, hmain⟩ := hcsa
    have hrole : p ∈ roles.mainKv := by
      rw [h.rolesOf.mainKv]
      apply List.mem_filter.mpr
      exact ⟨List.mem_append_left _ (List.mem_append_right _ hp), hmain⟩
    obtain ⟨cache, hcache, rfl⟩ :=
      List.mem_map.mp (h.tuplesOf.mainKv.mem_iff.mpr hrole)
    apply List.ne_nil_of_mem
    exact List.mem_filter.mpr ⟨hcache, hrank.mine _ hp⟩
  have htuples : tuples ≠ [] := by
    rintro rfl
    exact hne rfl
  refine
    { nonempty := hne
      mainKvType := fun cache hcache =>
        of_decide_eq_true (hroles cache hcache).1.2
      compressedType := ?_
      stateType := fun cache hcache =>
        of_decide_eq_true (hroles cache hcache).2.2
      shapeOf := fun cache hcache => h.shapeOf cache (hsub cache hcache)
      mamba := ?_, share := ?_, names := h.rank_names hstage hrank, nodup := ?_ }
  · intro cache hcache
    have hcomp := (hroles cache hcache).2.1
    rw [isCompressed, Bool.and_eq_true] at hcomp
    exact of_decide_eq_true hcomp.1
  · intro group hgroup
    obtain ⟨global, hglobal, rfl⟩ := List.mem_map.mp hgroup
    rcases List.mem_append.mp hglobal with hmem | hmem
    · exact h.sharded.spec global hmem
    · exact h.replicated.spec global hmem
  · intro group hgroup
    obtain ⟨global, hglobal, rfl⟩ := List.mem_map.mp hgroup
    exact h.shares hstage hrank htuples global hglobal
  · have hnodup := hrank.nodup
    rw [SpecDict.names, List.map_append, List.map_append] at hnodup
    exact hnodup.of_append_left.of_append_right

/-- Projecting the groups succeeds. -/
theorem Accepted.project_eq
    (h : Accepted env cfg (pre ++ w ++ post) roles tuples shape k k' sharded
      replicated)
    (hstage : StageOf env cfg own) (hrank : RankOf own pre w post)
    (hne : rankTuples own tuples ≠ []) (blockSize blockSize' : Nat) :
    projectKvCacheGroupsToWorker
        (compressedSparseGroup blockSize tuples ::
          compressorStateGroup blockSize' shape tuples :: (sharded ++ replicated))
        w =
      .ok (compressedSparseGroup blockSize (rankTuples own tuples) ::
        compressorStateGroup blockSize' shape (rankTuples own tuples) ::
          (sharded ++ replicated).map (ownedPart w)) := by
  have hnodup := h.names_perm.nodup_iff.mpr hrank.nodup
  have hmem := fun name => (h.names_perm.mem_iff (a := name)).mp
  have hsparse : (compressedSparseSpecs tuples).filter
      (fun p => own p.1) ≠ [] := by
    rw [compressedSparseSpecs_filter hstage h.tuplesOf]
    obtain ⟨cache, rest, hcons⟩ := List.exists_cons_of_ne_nil hne
    rw [hcons]
    exact List.cons_ne_nil _ _
  have hstate : (paddedCompressorStateSpecs shape tuples).filter
      (fun p => own p.1) ≠ [] := by
    rw [paddedCompressorStateSpecs_filter hstage h.tuplesOf]
    exact fun hnil => hne (List.map_eq_nil_iff.mp hnil)
  have hfirst : projectGroup w (compressedSparseGroup blockSize tuples) =
      .ok (compressedSparseGroup blockSize (rankTuples own tuples)) := by
    rw [compressedSparseGroup, projectGroup_uniformType hnodup.of_append_left
      (fun name hname => hrank.mem_names_iff
        (hmem name (List.mem_append_left _ hname))) hsparse,
      compressedSparseSpecs_filter hstage h.tuplesOf]
    rfl
  have hsecond : projectGroup w (compressorStateGroup blockSize' shape tuples) =
      .ok (compressorStateGroup blockSize' shape (rankTuples own tuples)) := by
    rw [compressorStateGroup, projectGroup_uniformType
      hnodup.of_append_right.of_append_left
      (fun name hname => hrank.mem_names_iff
        (hmem name (List.mem_append_right _ (List.mem_append_left _ hname)))) hstate,
      paddedCompressorStateSpecs_filter hstage h.tuplesOf]
    rfl
  have hmamba : (sharded ++ replicated).mapM (projectGroup w) =
      .ok ((sharded ++ replicated).map (ownedPart w)) := by
    apply mapM_ok
    intro group hgroup
    rcases List.mem_append.mp hgroup with hleft | hright
    · obtain ⟨spec, hspec, -⟩ := h.sharded.spec group hleft
      exact projectGroup_single hspec
    · obtain ⟨spec, hspec, -⟩ := h.replicated.spec group hright
      exact projectGroup_single hspec
  rw [projectKvCacheGroupsToWorker, List.mapM_cons, hfirst, List.mapM_cons,
    hsecond, hmamba]
  rfl

end Rank

end FlashNext.Ports.KvCache
