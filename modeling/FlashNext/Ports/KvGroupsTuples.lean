import FlashNext.Ports.KvGroupsUniform

/-!
# KV-cache groups: layer tuples

Sliding-window MLA layers are grouped by block size and window, cut into
tuples of one layer for each page size, and dealt out in strides.  Whatever is
no MLA layer is in none of the groups.
-/

namespace FlashNext.Ports.KvCache

open FlashNext.Verified.Checked
open FlashNext.Verified.RoundRobin
open FlashNext.Verified.GroupByKey
open FlashNext.Verified.LayerTuples

variable {env : GroupingEnv} {cfg : GroupingConfig} {d e : SpecDict}
  {R : String × KVCacheSpec → KVCacheSpec → Prop}

/-! ## Putting groupings together -/

theorem SpecDict.names_append (d e : SpecDict) :
    SpecDict.names (d ++ e) = d.names ++ e.names := List.map_append

theorem Grouping.perm {groups : List KVCacheGroupSpec} (h : Grouping R d groups)
    (hperm : d.Perm e) : Grouping R e groups where
  partition := h.partition.trans (hperm.map Prod.fst)
  nonempty := h.nonempty
  final group hgroup p hp := h.final group hgroup p (hperm.symm.subset hp)

theorem Grouping.append {groups groups' : List KVCacheGroupSpec}
    (h : Grouping R d groups) (h' : Grouping R e groups')
    (hnodup : (SpecDict.names (d ++ e)).Nodup) :
    Grouping R (d ++ e) (groups ++ groups') := by
  rw [SpecDict.names_append, List.nodup_append] at hnodup
  have hapart := hnodup.2.2
  have hin : ∀ {c : SpecDict} {gs : List KVCacheGroupSpec}, Grouping R c gs →
      ∀ group ∈ gs, ∀ name ∈ group.layerNames, name ∈ c.names := by
    intro c gs hgs group hgroup name hname
    exact hgs.partition.subset (List.mem_flatMap.mpr ⟨group, hgroup, hname⟩)
  refine { partition := ?_, nonempty := ?_, final := ?_ }
  · rw [List.flatMap_append, SpecDict.names_append]
    exact h.partition.append h'.partition
  · intro group hgroup
    rcases List.mem_append.mp hgroup with hleft | hright
    · exact h.nonempty group hleft
    · exact h'.nonempty group hright
  · intro group hgroup p hp hmem
    have hname : ∀ {c : SpecDict}, p ∈ c → p.1 ∈ c.names := List.mem_map_of_mem
    rcases List.mem_append.mp hgroup with hleft | hright
    · rcases List.mem_append.mp hp with hd | he
      · exact h.final group hleft p hd hmem
      · exact absurd rfl (hapart p.1 (hin h group hleft p.1 hmem) p.1 (hname he))
    · rcases List.mem_append.mp hp with hd | he
      · exact absurd rfl (hapart p.1 (hname hd) p.1 (hin h' group hright p.1 hmem))
      · exact h'.final group hright p he hmem

theorem Grouping.flatten {dicts : List SpecDict} {groupss : List (List KVCacheGroupSpec)}
    (h : List.Forall₂ (Grouping R) dicts groupss)
    (hnodup : (SpecDict.names dicts.flatten).Nodup) :
    Grouping R dicts.flatten groupss.flatten := by
  induction h with
  | nil =>
      exact
        { partition := List.Perm.refl _
          nonempty := fun group hgroup => (List.not_mem_nil hgroup).elim
          final := fun group hgroup => (List.not_mem_nil hgroup).elim }
  | @cons first groups dicts groupss hfirst _ ih =>
      have hrest : (SpecDict.names dicts.flatten).Nodup := by
        rw [List.flatten_cons, SpecDict.names_append] at hnodup
        exact hnodup.of_append_right
      exact hfirst.append (ih hrest) hnodup

/-! ## The chunk size -/

theorem betterChunk_some (values : List Nat) (b d : Nat) :
    ∃ b', betterChunk values (b, some (padOf values b)) d = (b', some (padOf values b')) ∧
      (b' = b ∨ b' = d) ∧ padOf values b' ≤ padOf values b ∧
        padOf values b' ≤ padOf values d := by
  unfold betterChunk
  dsimp only
  split
  · next hbetter =>
      refine ⟨d, rfl, Or.inr rfl, ?_, Nat.le_refl _⟩
      rcases hbetter with hlt | ⟨heq, -⟩
      · exact Nat.le_of_lt hlt
      · exact Nat.le_of_eq heq
  · next hworse =>
      refine ⟨b, rfl, Or.inl rfl, Nat.le_refl _, ?_⟩
      by_contra hgt
      exact hworse (Or.inl (Nat.lt_of_not_le hgt))

theorem foldl_betterChunk (values ds : List Nat) (b : Nat) :
    ∃ b', ds.foldl (betterChunk values) (b, some (padOf values b)) =
        (b', some (padOf values b')) ∧ b' ∈ b :: ds ∧
      ∀ d ∈ b :: ds, padOf values b' ≤ padOf values d := by
  induction ds generalizing b with
  | nil =>
      refine ⟨b, rfl, List.mem_cons_self, ?_⟩
      intro d hd
      rw [List.mem_singleton.mp hd]
  | cons d ds ih =>
      obtain ⟨c, hc, hcases, hcb, hcd⟩ := betterChunk_some values b d
      obtain ⟨b', hrun, hmem, hmin⟩ := ih c
      refine ⟨b', ?_, ?_, ?_⟩
      · rw [List.foldl_cons, hc, hrun]
      · rcases List.mem_cons.mp hmem with rfl | hmem
        · rcases hcases with rfl | rfl <;> simp
        · simp [hmem]
      · intro x hx
        have hbc := hmin c List.mem_cons_self
        rcases List.mem_cons.mp hx with rfl | hx
        · exact Nat.le_trans hbc hcb
        · rcases List.mem_cons.mp hx with rfl | hx
          · exact Nat.le_trans hbc hcd
          · exact hmin x (List.mem_cons_of_mem c hx)

/-- The chunk size is not below the bound, and none in the range pads less. -/
theorem approximateGcd_ok {values : List Nat} {lowerBound : Option Nat} {chunk : Nat}
    (h : approximateGcd values lowerBound = .ok chunk) :
    max 1 (lowerBound.getD 1) ≤ chunk ∧
      ∀ d, max 1 (lowerBound.getD 1) ≤ d → d ≤ values.foldl max 0 →
        padOf values chunk ≤ padOf values d := by
  unfold approximateGcd at h
  obtain ⟨_, -, h⟩ := bind_eq_ok.mp h
  obtain ⟨_, -, h⟩ := bind_eq_ok.mp h
  dsimp only at h
  generalize max 1 (lowerBound.getD 1) = minD at h ⊢
  generalize values.foldl max 0 = maxD at h ⊢
  split at h
  · next hlt =>
      cases h
      exact ⟨Nat.le_refl _, fun d hmin hmax => by omega⟩
  · next hge =>
      have hlen : maxD + 1 - minD = (maxD - minD) + 1 := by omega
      rw [hlen, List.range'_succ, List.foldl_cons] at h
      obtain ⟨b, hrun, hmem, hmin⟩ :=
        foldl_betterChunk values (List.range' (minD + 1) (maxD - minD)) minD
      have hfirst : betterChunk values (minD, none) minD =
          (minD, some (padOf values minD)) := rfl
      rw [hfirst, hrun] at h
      cases h
      have hrange : ∀ d, d ∈ minD :: List.range' (minD + 1) (maxD - minD) ↔
          minD ≤ d ∧ d ≤ maxD := by
        intro d
        rw [List.mem_cons, List.mem_range'_1]
        omega
      exact ⟨((hrange b).mp hmem).1, fun d hd hd' => hmin d ((hrange d).mpr ⟨hd, hd'⟩)⟩

/-! ## Tuple groups -/

theorem restrict_ok {names : List String}
    (h : d.restrict names = .ok e) : e.names = names ∧ ∀ p ∈ e, p ∈ d := by
  have hsteps := forall₂_of_mapM h
  clear h
  induction hsteps with
  | nil => exact ⟨rfl, fun p hp => (List.not_mem_nil hp).elim⟩
  | @cons name p names e hstep _ ih =>
      obtain ⟨spec, hget, hstep⟩ := bind_eq_ok.mp hstep
      cases hstep
      refine ⟨congrArg (name :: ·) ih.1, ?_⟩
      intro q hq
      rcases List.mem_cons.mp hq with rfl | hrest
      · unfold SpecDict.get at hget
        split at hget
        · next hlookup =>
            cases hget
            exact mem_of_lookup hlookup
        · cases hget
      · exact ih.2 q hrest

theorem all_eq_head {xs : List Nat} (h : xs.dedup.length = 1) :
    ∀ x ∈ xs, x = xs.headD 0 := by
  obtain ⟨a, ha⟩ := List.length_eq_one_iff.mp h
  have hall : ∀ x ∈ xs, x = a := by
    intro x hx
    rw [← List.mem_dedup, ha] at hx
    exact List.mem_singleton.mp hx
  intro x hx
  cases xs with
  | nil => cases hx
  | cons y ys => rw [hall x hx, List.headD_cons, hall y List.mem_cons_self]

/-- `layers_per_size.values()`. -/
def sizeRows (e : SpecDict) : List (List String) :=
  (groupPairs (e.map fun p => (p.2.pageSizeBytes, p.1))).map Prod.snd

theorem sizeRows_perm (e : SpecDict) : (sizeRows e).flatten.Perm e.names := by
  have hperm := (ungroup_groupPairs (e.map fun p => (p.2.pageSizeBytes, p.1))).map Prod.snd
  rw [ungroup_map_snd, List.map_map] at hperm
  exact hperm

/-- Rows of one length that hold at least one layer. -/
theorem sizeRows_length_pos (hne : e ≠ []) {n : Nat}
    (hlen : ∀ row ∈ sizeRows e, row.length = n) : sizeRows e ≠ [] ∧ 0 < n := by
  have hflat : (sizeRows e).flatten ≠ [] := by
    intro hnil
    have hperm := sizeRows_perm e
    rw [hnil] at hperm
    exact hne (List.map_eq_nil_iff.mp hperm.symm.eq_nil)
  constructor
  · intro hnil
    exact hflat (by rw [hnil]; rfl)
  · apply Nat.pos_of_ne_zero
    rintro rfl
    apply hflat
    rw [List.flatten_eq_nil_iff]
    exact fun row hrow => List.length_eq_zero_iff.mp (hlen row hrow)

section Turn

variable {spec : GroupSpec} {k i : Nat} {layerTuples : List (List String)}
  {group : KVCacheGroupSpec}

theorem tupleGroup_names (h : tupleGroup env spec k layerTuples i = .ok group) :
    group.layerNames = (share k i 0 layerTuples).flatten := by
  unfold tupleGroup at h
  obtain ⟨sub, -, h⟩ := bind_eq_ok.mp h
  obtain ⟨subSpec, -, h⟩ := bind_eq_ok.mp h
  cases h
  rfl

/-- A layer of a tuple group keeps its spec. -/
theorem tupleGroup_final (hnodup : e.names.Nodup)
    (hspec : fromSpecs env.toEnv e = some spec)
    (h : tupleGroup env spec k layerTuples i = .ok group)
    (hgroup : group.layerNames.Nodup) {p : String × KVCacheSpec} (hp : p ∈ e)
    (hmem : p.1 ∈ group.layerNames) : getPerLayerSpec group p.1 = .ok p.2 := by
  unfold tupleGroup at h
  obtain ⟨sub, hsub, h⟩ := bind_eq_ok.mp h
  obtain ⟨subSpec, hsubSpec, h⟩ := bind_eq_ok.mp h
  cases h
  rw [(kvCacheSpecs_of_fromSpecs hspec).1, planned_eq_ok] at hsub
  obtain ⟨hsubNames, hsubMem⟩ := restrict_ok hsub
  dsimp only at hgroup hmem
  rw [← hsubNames] at hgroup hmem
  obtain ⟨q, hq, hname⟩ := List.mem_map.mp hmem
  have hqp : q = p := List.inj_on_of_nodup_map hnodup (hsubMem q hq) hp hname
  rw [hqp] at hq
  exact getPerLayerSpec_uniformType hgroup (asserted_eq_ok.mp hsubSpec) hq

theorem tupleGroup_loop {is : List Nat} {groups : List KVCacheGroupSpec}
    (h : List.Forall₂ (fun i group => tupleGroup env spec k layerTuples i = .ok group)
      is groups) :
    groups.map KVCacheGroupSpec.layerNames =
      is.map fun i => (share k i 0 layerTuples).flatten := by
  induction h with
  | nil => rfl
  | cons hstep _ ih => rw [List.map_cons, List.map_cons, ih, tupleGroup_names hstep]

end Turn

/-- The groups of one sliding-window spec hold its layers. -/
theorem tupleGroups_ok (hnodup : e.names.Nodup) {spec : GroupSpec}
    (hspec : fromSpecs env.toEnv e = some spec) {chunk : Nat} (hchunk : 0 < chunk)
    {groups : List KVCacheGroupSpec} (h : tupleGroups env chunk spec = .ok groups) :
    Grouping (fun p final => final = p.2) e groups := by
  unfold tupleGroups at h
  rw [(kvCacheSpecs_of_fromSpecs hspec).1] at h
  obtain ⟨_, hsame, h⟩ := bind_eq_ok.mp h
  have hlengths := all_eq_head (require_eq_ok.mp hsame)
  dsimp only at h
  rw [show (groupPairs (e.map fun p => (p.2.pageSizeBytes, p.1))).map Prod.snd =
    sizeRows e from rfl] at h
  generalize ((groupPairs (e.map fun p => (p.2.pageSizeBytes, p.1))).map
    fun group => group.2.length).headD 0 = numLayers at h hlengths
  have hrows : ∀ row ∈ sizeRows e, row.length = numLayers := by
    intro row hrow
    obtain ⟨group, hgroup, rfl⟩ := List.mem_map.mp hrow
    exact hlengths _ (List.mem_map_of_mem hgroup)
  obtain ⟨hrowsNe, hnumPos⟩ := sizeRows_length_pos (ne_nil_of_fromSpecs hspec) hrows
  have htuples := (tuples_perm hrows).trans (sizeRows_perm e)
  have hlen := length_tuples hrowsNe hrows
  have hpos := cdiv_pos hnumPos hchunk
  have hle := cdiv_le_self (a := numLayers) hchunk
  generalize cdiv numLayers chunk = k at h hpos hle
  have hsteps := forall₂_of_mapM h
  have hpartition : (groups.flatMap KVCacheGroupSpec.layerNames).Perm e.names := by
    have hdealt := (deal_perm hpos (tuples (sizeRows e))).flatten.trans htuples
    rw [List.flatten_flatten, deal_eq_map, List.map_map] at hdealt
    rw [List.flatMap_def, tupleGroup_loop hsteps]
    exact hdealt
  refine { partition := hpartition, nonempty := ?_, final := ?_ }
  · intro group hmem
    obtain ⟨i, hi, hstep⟩ := exists_of_forall₂ hsteps hmem
    have hik : i < k := List.mem_range.mp hi
    have hshare : share k i 0 (tuples (sizeRows e)) ≠ [] :=
      share_ne_nil hik (by omega)
    obtain ⟨t, ht⟩ := List.exists_mem_of_ne_nil _ hshare
    rw [tupleGroup_names hstep]
    intro hnil
    exact ne_nil_of_mem_tuples (mem_of_mem_share ht) (List.flatten_eq_nil_iff.mp hnil t ht)
  · intro group hmem p hp hpmem
    have hgroup : group.layerNames.Nodup := by
      have hall := hpartition.nodup_iff.mpr hnodup
      rw [List.nodup_flatMap] at hall
      exact hall.1 group hmem
    obtain ⟨i, -, hstep⟩ := exists_of_forall₂ hsteps hmem
    exact ⟨p.2, tupleGroup_final hnodup hspec hstep hgroup hp hpmem, rfl⟩

theorem tupleGroups_loop {chunk : Nat} (hchunk : 0 < chunk) {dicts : List SpecDict}
    {specs : List GroupSpec} {groupss : List (List KVCacheGroupSpec)}
    (hspecs : List.Forall₂ (fun e spec => fromSpecs env.toEnv e = some spec) dicts specs)
    (hnodup : ∀ e ∈ dicts, e.names.Nodup)
    (h : List.Forall₂ (fun spec groups => tupleGroups env chunk spec = .ok groups)
      specs groupss) :
    List.Forall₂ (Grouping fun p final => final = p.2) dicts groupss := by
  induction hspecs generalizing groupss with
  | nil =>
      cases h
      exact List.Forall₂.nil
  | @cons e spec dicts specs he _ ih =>
      cases h with
      | cons hstep hsteps =>
          apply List.Forall₂.cons
          · exact tupleGroups_ok (hnodup e List.mem_cons_self) he hchunk hstep
          · exact ih (fun e' he' => hnodup e' (List.mem_cons_of_mem e he')) hsteps

/-! ## All groups of this path -/

/-- A layer that the path takes up. -/
def isTupleLayer (env : GroupingEnv) (spec : KVCacheSpec) : Bool :=
  isInstance env spec .slidingWindowMla || isInstance env spec .mlaAttention

theorem filter_tupleLayers (d : SpecDict) :
    ((d.filter fun p => isFullMla env p.2) ++
      d.filter fun p => isInstance env p.2 .slidingWindowMla).Perm
        (d.filter fun p => isTupleLayer env p.2) := by
  have hcut := List.filter_append_perm
    (fun p : String × KVCacheSpec => isInstance env p.2 .slidingWindowMla)
    (d.filter fun p => isTupleLayer env p.2)
  rw [List.filter_filter, List.filter_filter] at hcut
  have hsw : (d.filter fun p => isInstance env p.2 .slidingWindowMla &&
      isTupleLayer env p.2) = d.filter fun p => isInstance env p.2 .slidingWindowMla := by
    apply List.filter_congr
    intro p _
    unfold isTupleLayer
    cases isInstance env p.2 .slidingWindowMla <;> rfl
  have hmla : (d.filter fun p => !isInstance env p.2 .slidingWindowMla &&
      isTupleLayer env p.2) = d.filter fun p => isFullMla env p.2 := by
    apply List.filter_congr
    intro p _
    unfold isTupleLayer isFullMla
    cases isInstance env p.2 .slidingWindowMla <;> simp
  rw [hsw, hmla] at hcut
  exact List.perm_append_comm.trans hcut

/-- Grouped specs are dicts that together hold the MLA layers. -/
structure GroupedSpecs (env : GroupingEnv) (d : SpecDict) (dicts : List SpecDict)
    (groupedSpecs : List GroupSpec) : Prop where
  specs : List.Forall₂ (fun e spec => fromSpecs env.toEnv e = some spec) dicts groupedSpecs
  perm : dicts.flatten.Perm (d.filter fun p => isTupleLayer env p.2)

theorem groupAndUnifyKvCacheSpecs_ok {groupedSpecs : List GroupSpec}
    (h : groupAndUnifyKvCacheSpecs env d = .ok (some groupedSpecs)) :
    ∃ dicts, GroupedSpecs env d dicts groupedSpecs := by
  unfold groupAndUnifyKvCacheSpecs at h
  split at h
  · cases h
  · split at h
    · cases h
    · obtain ⟨_, -, h⟩ := bind_eq_ok.mp h
      obtain ⟨mlaSpec, hmla, h⟩ := bind_eq_ok.mp h
      obtain ⟨swaSpecs, hswa, h⟩ := bind_eq_ok.mp h
      cases h
      obtain ⟨items, hitems⟩ : ∃ l, l =
        (d.filter fun p => isInstance env p.2 .slidingWindowMla).map fun p =>
          ((p.2.blockSize, env.slidingWindowOf p.2), p) := ⟨_, rfl⟩
      rw [← hitems] at hswa
      refine ⟨(d.filter fun p => isFullMla env p.2) :: (groupPairs items).map Prod.snd, ?_⟩
      refine { specs := List.Forall₂.cons (asserted_eq_ok.mp hmla) ?_, perm := ?_ }
      · rw [List.forall₂_map_left_iff]
        exact (forall₂_of_mapM hswa).imp fun group spec hspec => asserted_eq_ok.mp hspec
      · have hperm := (ungroup_groupPairs items).map Prod.snd
        rw [ungroup_map_snd, hitems, List.map_map] at hperm
        have hsnd : (d.filter fun p => isInstance env p.2 .slidingWindowMla).map
            (Prod.snd ∘ fun p => ((p.2.blockSize, env.slidingWindowOf p.2), p)) =
              d.filter fun p => isInstance env p.2 .slidingWindowMla := List.map_id _
        rw [hsnd, ← hitems] at hperm
        rw [List.flatten_cons]
        exact (hperm.append_left _).trans (filter_tupleLayers d)

theorem getKvCacheGroupsUniformGroups_ok (hnodup : d.names.Nodup) {dicts : List SpecDict}
    {groupedSpecs : List GroupSpec} (hgrouped : GroupedSpecs env d dicts groupedSpecs)
    {groups : List KVCacheGroupSpec}
    (h : getKvCacheGroupsUniformGroups env groupedSpecs = .ok groups) :
    Grouping (fun p final => final = p.2) (d.filter fun p => isTupleLayer env p.2) groups := by
  have hkept : (SpecDict.names (d.filter fun p => isTupleLayer env p.2)).Nodup :=
    hnodup.sublist (List.filter_sublist.map Prod.fst)
  have hall : (SpecDict.names dicts.flatten).Nodup :=
    (hgrouped.perm.map Prod.fst).nodup_iff.mpr hkept
  unfold getKvCacheGroupsUniformGroups at h
  split at h
  · cases h
  · next fullMlaSpec swaMlaSpecs =>
      obtain ⟨_, -, h⟩ := bind_eq_ok.mp h
      obtain ⟨_, -, h⟩ := bind_eq_ok.mp h
      obtain ⟨chunk, hchunk, h⟩ := bind_eq_ok.mp h
      obtain ⟨_, -, h⟩ := bind_eq_ok.mp h
      obtain ⟨swaGroups, hswa, h⟩ := bind_eq_ok.mp h
      cases h
      have hpos : 0 < chunk :=
        Nat.lt_of_lt_of_le (Nat.le_max_left 1 _) (approximateGcd_ok hchunk).1
      have hspecs := hgrouped.specs
      have hperm := hgrouped.perm
      cases hspecs with
      | @cons mla _ swaDicts _ hmla hswaSpecs =>
          have hdict : ∀ e ∈ mla :: swaDicts, e.names.Nodup := by
            intro e he
            rw [SpecDict.names, List.map_flatten, List.nodup_flatten] at hall
            exact hall.1 _ (List.mem_map_of_mem he)
          have hgroups : List.Forall₂ (Grouping fun p final => final = p.2) (mla :: swaDicts)
              (getKvCacheGroupsUniformType fullMlaSpec :: swaGroups) := by
            apply List.Forall₂.cons
            · exact getKvCacheGroupsUniformType_grouping (hdict mla List.mem_cons_self) hmla
            · exact tupleGroups_loop hpos hswaSpecs
                (fun e he => hdict e (List.mem_cons_of_mem mla he)) (forall₂_of_mapM hswa)
          exact (Grouping.flatten hgroups hall).perm hperm

end FlashNext.Ports.KvCache
