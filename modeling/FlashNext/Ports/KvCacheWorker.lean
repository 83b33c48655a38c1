import FlashNext.Ports.KvCacheConfigs
import FlashNext.Ports.CsaLinearRank
import FlashNext.Ports.KvCacheLayout

/-!
# KV-cache planning: one worker

The layers of a group are packed side by side, spec by spec.
-/

namespace FlashNext.Ports.KvCache

open FlashNext.Verified.Checked
open FlashNext.Verified.GroupByKey
open FlashNext.Verified.PackedPages

variable {env : Env} {cfg : VllmConfig} {group : KVCacheGroupSpec}
  {groups : List KVCacheGroupSpec}

/-! ## The layers of a group -/

/-- The layers of a group with their specs. -/
def groupItems (group : KVCacheGroupSpec) : List (KVCacheSpec × String) :=
  match group.kvCacheSpec with
  | .uniformType _ kvCacheSpecs =>
      let owned : SpecDict :=
        kvCacheSpecs.filter fun p => decide (p.1 ∈ group.layerNames)
      owned.map fun p => (p.2, p.1)
  | .single spec => group.layerNames.map fun name => (spec, name)

/-- A group that owns layers of a dict of specs owns all of them. -/
def KVCacheGroupSpec.Exact (group : KVCacheGroupSpec) : Prop :=
  ∀ blockSize specs, group.kvCacheSpec = .uniformType blockSize specs →
    group.layerNames ≠ [] → specs.names = group.layerNames

theorem ungroup_layersBySpec (group : KVCacheGroupSpec) :
    (ungroup (layersBySpec group)).Perm (groupItems group) := by
  unfold layersBySpec groupItems
  cases group.kvCacheSpec with
  | uniformType blockSize specs => exact ungroup_groupPairs _
  | single spec =>
      dsimp only
      by_cases hnil : group.layerNames = []
      · rw [if_pos hnil, hnil]
        exact List.Perm.refl _
      · rw [if_neg hnil, ungroup_cons]
        exact List.Perm.of_eq (List.append_nil _)

theorem groupItems_names (h : group.Exact) :
    (groupItems group).map Prod.snd = group.layerNames := by
  unfold groupItems
  split
  · next blockSize specs hspec =>
      by_cases hnil : group.layerNames = []
      · simp [hnil]
      · have hnames : SpecDict.names specs = group.layerNames :=
          h blockSize specs hspec hnil
        have hall : (specs.filter fun p => decide (p.1 ∈ group.layerNames)) =
            specs := by
          apply List.filter_eq_self.mpr
          intro p hp
          apply decide_eq_true
          rw [← hnames]
          exact List.mem_map_of_mem hp
        dsimp only
        rw [hall, List.map_map]
        exact hnames
  · rw [List.map_map]
    exact List.map_id _

theorem getPerLayerSpec_of_mem (h : group.Exact) (hnodup : group.layerNames.Nodup)
    {spec : KVCacheSpec} {name : String} (hmem : (spec, name) ∈ groupItems group) :
    getPerLayerSpec group name = .ok spec := by
  have hname : name ∈ group.layerNames := by
    rw [← groupItems_names h]
    exact List.mem_map_of_mem hmem
  unfold groupItems at hmem
  unfold getPerLayerSpec
  cases hspec : group.kvCacheSpec with
  | uniformType blockSize specs =>
      rw [hspec] at hmem
      obtain ⟨p, hp, heq⟩ := List.mem_map.mp hmem
      cases heq
      have hnames : SpecDict.names specs = group.layerNames :=
        h blockSize specs hspec (List.ne_nil_of_mem hname)
      apply SpecDict.get_of_mem
      · rw [hnames]
        exact hnodup
      · exact (List.mem_filter.mp hp).1
  | single spec =>
      rw [hspec] at hmem
      obtain ⟨other, -, heq⟩ := List.mem_map.mp hmem
      cases heq
      rfl

theorem groupPages_eq (h : group.Exact) (hnodup : group.layerNames.Nodup) :
    groupPages group =
      .ok ((groupItems group).map fun p => (p.1.pageSizeBytes : Nat)) := by
  have hpages : ∀ items : List (KVCacheSpec × String),
      (∀ p ∈ items, getPerLayerSpec group p.2 = .ok p.1) →
      ((items.map Prod.snd).mapM fun layerName => do
        let spec ← getPerLayerSpec group layerName
        return (spec.pageSizeBytes : Nat)) =
          .ok (items.map fun p => (p.1.pageSizeBytes : Nat)) := by
    intro items hitems
    induction items with
    | nil => rfl
    | cons p items ih =>
        have hrest := ih fun q hq => hitems q (List.mem_cons_of_mem p hq)
        rw [List.map_cons, List.mapM_cons, hitems p List.mem_cons_self, hrest]
        rfl
  rw [groupPages, ← groupItems_names h]
  exact hpages _ fun p hp => getPerLayerSpec_of_mem h hnodup hp

/-- The pages of a group in the order in which they are packed. -/
def layerPages (group : KVCacheGroupSpec) : List Nat :=
  (ungroup (layersBySpec group)).map fun p => (p.1.pageSizeBytes : Nat)

theorem layerPages_perm (group : KVCacheGroupSpec) :
    (layerPages group).Perm
      ((groupItems group).map fun p => (p.1.pageSizeBytes : Nat)) :=
  (ungroup_layersBySpec group).map _

/-! ## The tensors of a group -/

section Tensors

variable {kvLayout : KVCacheLayout} {numBlocks size : Nat} {stride : Option Nat}

/-- A layer of a tensor of the group is one of its packed layers, and its tensor
begins where the first layer of its spec does. -/
theorem mem_groupTensors {chunks : List (KVCacheSpec × List String)}
    {byteOffset : Nat} {t : KVCacheTensor}
    (ht : t ∈ groupTensors env kvLayout numBlocks size stride byteOffset chunks)
    {j : Nat} {name : String} (hj : t.layers[j]? = some name) :
    ∃ m spec start names, (ungroup chunks)[m]? = some (spec, name) ∧
      t = tensorAt env kvLayout numBlocks size stride start spec names ∧
      start + j * (spec.pageSizeBytes : Nat) = byteOffset +
        packedOffset ((ungroup chunks).map fun p => (p.1.pageSizeBytes : Nat)) m := by
  induction chunks generalizing byteOffset with
  | nil => cases ht
  | cons chunk chunks ih =>
      obtain ⟨spec, names⟩ := chunk
      have hpages : (names.map fun v => (spec, v)).map
          (fun p => (p.1.pageSizeBytes : Nat)) =
            List.replicate names.length (spec.pageSizeBytes : Nat) := by
        rw [List.map_map]
        show (names.map fun _ => (spec.pageSizeBytes : Nat)) = _
        rw [List.map_const']
      rcases List.mem_cons.mp ht with rfl | hrest
      · have hname : names[j]? = some name := hj
        obtain ⟨hlt, -⟩ := List.getElem?_eq_some_iff.mp hname
        refine ⟨j, spec, byteOffset, names, ?_, rfl, ?_⟩
        · rw [ungroup_cons, List.getElem?_append_left (by rwa [List.length_map]),
            List.getElem?_map, hname]
          rfl
        · rw [ungroup_cons, List.map_append, hpages, packedOffset_append_left
            (by rw [List.length_replicate]; exact hlt.le)]
          rw [packedOffset_of_same (fun q hq => List.eq_of_mem_replicate hq)
            (by rw [List.length_replicate]; exact hlt.le)]
      · obtain ⟨m, spec', start, names', hm, htensor, hstart⟩ := ih hrest
        refine ⟨names.length + m, spec', start, names', ?_, htensor, ?_⟩
        · rw [ungroup_cons, List.getElem?_append_right
            (by rw [List.length_map]; exact Nat.le_add_right _ _), List.length_map,
            Nat.add_sub_cancel_left, hm]
        · have hright := packedOffset_append_right
            (List.replicate names.length (spec.pageSizeBytes : Nat))
            ((ungroup chunks).map fun p => (p.1.pageSizeBytes : Nat)) m
          rw [List.length_replicate, List.sum_replicate_nat] at hright
          rw [ungroup_cons, List.map_append, hpages, hright, hstart, Nat.add_assoc]

/-- Where the page of a layer lies whose packed offset is `o`. -/
def pageAt (kvLayout : KVCacheLayout) (bytesPerBlock numBlocks page o b : Nat) : Nat :=
  if kvLayout.isBlockOutermost then blockMajor bytesPerBlock o b
  else layerMajor numBlocks page o b

/-- The block stride that the planner asks for. -/
def interleaved (kvLayout : KVCacheLayout) (bytesPerBlock : Nat) : Option Nat :=
  if kvLayout.isBlockOutermost then some bytesPerBlock else none

theorem tensorAt_pageStart (hstrides : KnownStrides env kvLayout)
    (hblocks : 0 < numBlocks) (bytesPerBlock start j b : Nat) (spec : KVCacheSpec)
    (names : List String) :
    (tensorAt env kvLayout numBlocks size (interleaved kvLayout bytesPerBlock) start
      spec names).pageStart j b =
      pageAt kvLayout bytesPerBlock numBlocks spec.pageSizeBytes
        (start + j * (spec.pageSizeBytes : Nat)) b := by
  have hpage : 0 < (spec.pageSizeBytes : Nat) := spec.pageSizeBytes.pos
  cases hstrides with
  | blockOutermost houtermost hstrides =>
      have hoffset : start * max (spec.pageSizeBytes : Nat) spec.pageSizeBytes /
          spec.pageSizeBytes = start := by
        rw [Nat.max_self, Nat.mul_div_cancel _ hpage]
      rw [interleaved, if_pos houtermost, pageAt, if_pos houtermost, tensorAt,
        hstrides]
      unfold KVCacheTensor.pageStart blockMajor
      dsimp only
      rw [hoffset]
  | layerOutermost houtermost _ _ hstrides =>
      have hnot : ¬ kvLayout.isBlockOutermost = true := by
        rw [houtermost]
        exact Bool.false_ne_true
      have hmax : max (numBlocks * (spec.pageSizeBytes : Nat)) spec.pageSizeBytes =
          numBlocks * spec.pageSizeBytes :=
        Nat.max_eq_left (Nat.le_mul_of_pos_left _ hblocks)
      have hoffset : start * (numBlocks * (spec.pageSizeBytes : Nat)) /
          spec.pageSizeBytes = start * numBlocks := by
        rw [← Nat.mul_assoc, Nat.mul_div_cancel _ hpage]
      have hlayers : j * (numBlocks * (spec.pageSizeBytes : Nat)) =
          j * spec.pageSizeBytes * numBlocks := by
        rw [Nat.mul_comm numBlocks, Nat.mul_assoc]
      rw [interleaved, if_neg hnot, pageAt, if_neg hnot, tensorAt, hstrides]
      unfold KVCacheTensor.pageStart layerMajor
      dsimp only
      rw [hmax, hoffset, hlayers, Nat.add_mul]

end Tensors

/-! ## The groups of a worker -/

/-- Groups that share out the layers of a worker. -/
structure GroupsOf (worker : SpecDict) (groups : List KVCacheGroupSpec) : Prop where
  exact : ∀ group ∈ groups, group.Exact
  names : (groups.flatMap KVCacheGroupSpec.layerNames).Perm worker.names
  nodup : worker.names.Nodup

section Worker

variable {worker : SpecDict} {kvLayout : KVCacheLayout} {bytesPerBlock : Nat}

theorem GroupsOf.names_nodup (h : GroupsOf worker groups) :
    (groups.flatMap KVCacheGroupSpec.layerNames).Nodup :=
  h.names.nodup_iff.mpr h.nodup

theorem GroupsOf.layerNames_nodup (h : GroupsOf worker groups)
    (hgroup : group ∈ groups) : group.layerNames.Nodup :=
  (List.nodup_flatMap.mp h.names_nodup).1 group hgroup

/-- A layer determines its group. -/
theorem GroupsOf.eq_of_mem (h : GroupsOf worker groups) {group' : KVCacheGroupSpec}
    (hgroup : group ∈ groups) (hgroup' : group' ∈ groups) {name : String}
    (hname : name ∈ group.layerNames) (hname' : name ∈ group'.layerNames) :
    group = group' := by
  by_contra hne
  have hpairs := (List.nodup_flatMap.mp h.names_nodup).2
  have hsymm : Std.Symm (Function.onFun List.Disjoint KVCacheGroupSpec.layerNames) :=
    ⟨fun _ _ hdisj => hdisj.symm⟩
  have hdisj := hpairs.forall hgroup hgroup' hne
  exact hdisj hname hname'

theorem mapM_groupPages (h : GroupsOf worker groups) :
    groups.mapM groupPages = .ok (groups.map fun group =>
      (groupItems group).map fun p => (p.1.pageSizeBytes : Nat)) :=
  mapM_ok fun group hgroup =>
    groupPages_eq (h.exact group hgroup) (h.layerNames_nodup hgroup)

/-- No group is larger than a block. -/
theorem layerPages_sum_le (h : GroupsOf worker groups)
    (hbytes : getKvCacheBytesPerBlock groups = .ok bytesPerBlock)
    (hgroup : group ∈ groups) : (layerPages group).sum ≤ bytesPerBlock := by
  rw [getKvCacheBytesPerBlock, mapM_groupPages h, ok_bind] at hbytes
  obtain ⟨largest, hlargest, hbytes⟩ := bind_eq_ok.mp hbytes
  obtain ⟨_, -, hbytes⟩ := bind_eq_ok.mp hbytes
  cases hbytes
  rw [(layerPages_perm group).sum_eq]
  apply le_of_maxOf hlargest
  rw [List.map_map]
  exact List.mem_map.mpr ⟨group, hgroup, rfl⟩

/-- Several groups in a layer-outermost layout have pages of one size. -/
theorem one_page (h : GroupsOf worker groups)
    (hcompact : kvLayout.isLayerCompact = true) (hmany : 1 < groups.length)
    (hvalid : validateKvCacheLayout kvLayout groups = .ok ()) :
    ∃ page, ∀ group ∈ groups, ∀ p ∈ groupItems group,
      (p.1.pageSizeBytes : Nat) = page := by
  rw [validateKvCacheLayout, mapM_groupPages h, ok_bind] at hvalid
  dsimp only at hvalid
  by_cases hone : (groups.map fun group => (groupItems group).map
      fun p => (p.1.pageSizeBytes : Nat)).flatten.dedup.length = 1
  · obtain ⟨page, hpage⟩ := List.length_eq_one_iff.mp hone
    refine ⟨page, fun group hgroup p hp => ?_⟩
    apply List.mem_singleton.mp
    rw [← hpage, List.mem_dedup]
    apply List.mem_flatten.mpr
    exact ⟨_, List.mem_map_of_mem hgroup, List.mem_map_of_mem hp⟩
  · rw [if_neg hone] at hvalid
    have hno := require_eq_ok.mp hvalid
    exact absurd (Or.inr ⟨hmany, hcompact⟩) hno

/-- The tensors of a worker that is not of CSA-linear shape. -/
def workerTensors (env : Env) (kvLayout : KVCacheLayout)
    (bytesPerBlock numBlocks : Nat) (groups : List KVCacheGroupSpec) :
    List KVCacheTensor :=
  groups.flatMap fun group =>
    groupTensors env kvLayout numBlocks (bytesPerBlock * numBlocks)
      (interleaved kvLayout bytesPerBlock) 0 (layersBySpec group)

/-- The `m`-th packed layer of the `i`-th group. -/
structure PackedAt (kvLayout : KVCacheLayout) (bytesPerBlock numBlocks : Nat)
    (groups : List KVCacheGroupSpec) (i : Nat) (name : String) (spec : KVCacheSpec)
    (start : Nat → Nat) (group : KVCacheGroupSpec) (m : Nat) : Prop where
  group_eq : groups[i]? = some group
  layer : (ungroup (layersBySpec group))[m]? = some (spec, name)
  start_eq : ∀ b, start b = pageAt kvLayout bytesPerBlock numBlocks
    spec.pageSizeBytes (packedOffset (layerPages group) m) b

theorem holds_packedAt (h : GroupsOf worker groups)
    (hstrides : KnownStrides env kvLayout) {numBlocks : Nat}
    (hblocks : 0 < numBlocks) {i : Nat} {name : String} {spec : KVCacheSpec}
    {start : Nat → Nat} {size : Nat}
    (hholds : Holds groups (workerTensors env kvLayout bytesPerBlock numBlocks groups)
      i name spec start size) :
    size = bytesPerBlock * numBlocks ∧ ∃ group m,
      PackedAt kvLayout bytesPerBlock numBlocks groups i name spec start group m := by
  obtain ⟨group, hgroup, hname, hspec⟩ := hholds.group
  obtain ⟨t, ht, j, hj, rfl, rfl⟩ := hholds.tensor
  obtain ⟨group', hgroup', ht⟩ := List.mem_flatMap.mp ht
  obtain ⟨m, spec', begin, names, hm, rfl, hstart⟩ := mem_groupTensors ht hj
  have hitem : (spec', name) ∈ groupItems group' :=
    (ungroup_layersBySpec group').mem_iff.mp (List.mem_of_getElem? hm)
  have hexact := h.exact group' hgroup'
  have hname' : name ∈ group'.layerNames := by
    rw [← groupItems_names hexact]
    exact List.mem_map_of_mem hitem
  have hsame : group = group' :=
    h.eq_of_mem (List.mem_of_getElem? hgroup) hgroup' hname hname'
  subst hsame
  have hspecs : spec' = spec := by
    rw [getPerLayerSpec_of_mem hexact (h.layerNames_nodup hgroup') hitem] at hspec
    exact Except.ok.inj hspec
  subst hspecs
  refine ⟨rfl, group, m, hgroup, hm, fun b => ?_⟩
  rw [tensorAt_pageStart hstrides hblocks, hstart, Nat.zero_add]
  rfl

/-! ## Pages of a worker -/

section Pages

variable {numBlocks page page' o o' b b' : Nat}

theorem pageAt_inside (ho : o + page ≤ bytesPerBlock) (hb : b < numBlocks) :
    pageAt kvLayout bytesPerBlock numBlocks page o b + page ≤
      bytesPerBlock * numBlocks := by
  unfold pageAt
  by_cases houtermost : kvLayout.isBlockOutermost = true
  · rw [if_pos houtermost]
    exact blockMajor_inside ho hb
  · rw [if_neg houtermost]
    exact layerMajor_inside ho hb

theorem pageAt_apart (ho : o + page ≤ bytesPerBlock)
    (ho' : o' + page' ≤ bytesPerBlock) (hb : b < numBlocks) (hb' : b' < numBlocks)
    (hapart : Apart o page o' page') :
    ¬ Overlap (pageAt kvLayout bytesPerBlock numBlocks page o b) page
      (pageAt kvLayout bytesPerBlock numBlocks page' o' b') page' := by
  unfold pageAt
  by_cases houtermost : kvLayout.isBlockOutermost = true
  · rw [if_pos houtermost, if_pos houtermost]
    exact blockMajor_apart ho ho' (Or.inr hapart)
  · rw [if_neg houtermost, if_neg houtermost]
    exact layerMajor_apart hb hb' hapart

theorem pageAt_self (ho : o + page ≤ bytesPerBlock) (hne : b ≠ b') :
    ¬ Overlap (pageAt kvLayout bytesPerBlock numBlocks page o b) page
      (pageAt kvLayout bytesPerBlock numBlocks page o b') page := by
  unfold pageAt
  by_cases houtermost : kvLayout.isBlockOutermost = true
  · rw [if_pos houtermost, if_pos houtermost]
    exact blockMajor_apart ho ho (Or.inl hne)
  · rw [if_neg houtermost, if_neg houtermost]
    exact layerMajor_self hne

end Pages

section Packed

variable {numBlocks i i' m m' b b' : Nat} {name name' : String}
  {spec spec' : KVCacheSpec} {start start' : Nat → Nat} {group' : KVCacheGroupSpec}

theorem PackedAt.page
    (hp : PackedAt kvLayout bytesPerBlock numBlocks groups i name spec start group m) :
    ∃ hm : m < (layerPages group).length,
      (layerPages group)[m] = (spec.pageSizeBytes : Nat) := by
  have hpage : (layerPages group)[m]? = some (spec.pageSizeBytes : Nat) := by
    rw [layerPages, List.getElem?_map, hp.layer]
    rfl
  exact List.getElem?_eq_some_iff.mp hpage

/-- A packed layer ends inside the block. -/
theorem PackedAt.fits (h : GroupsOf worker groups)
    (hbytes : getKvCacheBytesPerBlock groups = .ok bytesPerBlock)
    (hp : PackedAt kvLayout bytesPerBlock numBlocks groups i name spec start group m) :
    packedOffset (layerPages group) m + (spec.pageSizeBytes : Nat) ≤
      bytesPerBlock := by
  obtain ⟨hm, hpage⟩ := hp.page
  rw [← hpage]
  exact (packedOffset_le hm).trans
    (layerPages_sum_le h hbytes (List.mem_of_getElem? hp.group_eq))

/-- Packed layers of one group lie side by side. -/
theorem PackedAt.side_by_side
    (hp : PackedAt kvLayout bytesPerBlock numBlocks groups i name spec start group m)
    (hp' : PackedAt kvLayout bytesPerBlock numBlocks groups i name' spec' start'
      group m') (hne : m ≠ m') :
    Apart (packedOffset (layerPages group) m) (spec.pageSizeBytes : Nat)
      (packedOffset (layerPages group) m') (spec'.pageSizeBytes : Nat) := by
  obtain ⟨hm, hpage⟩ := hp.page
  obtain ⟨hm', hpage'⟩ := hp'.page
  rw [← hpage, ← hpage']
  exact packedOffset_apart hm hm' hne

theorem PackedAt.same_group (h : GroupsOf worker groups)
    (hbytes : getKvCacheBytesPerBlock groups = .ok bytesPerBlock)
    (hp : PackedAt kvLayout bytesPerBlock numBlocks groups i name spec start group m)
    (hp' : PackedAt kvLayout bytesPerBlock numBlocks groups i name' spec' start'
      group m') (hb : b < numBlocks) (hb' : b' < numBlocks)
    (hne : name ≠ name' ∨ b ≠ b') : PagesApart spec spec' start start' b b' := by
  have hfits := hp.fits h hbytes
  have hfits' := hp'.fits h hbytes
  unfold PagesApart
  rw [hp.start_eq, hp'.start_eq]
  by_cases hmm : m = m'
  · subst hmm
    have hlayer := hp.layer
    rw [hp'.layer] at hlayer
    cases hlayer
    exact pageAt_self hfits (hne.resolve_left fun hname => hname rfl)
  · exact pageAt_apart hfits hfits' hb hb' (hp.side_by_side hp' hmm)

theorem PackedAt.other_groups (h : GroupsOf worker groups)
    (hstrides : KnownStrides env kvLayout)
    (hvalid : validateKvCacheLayout kvLayout groups = .ok ())
    (hbytes : getKvCacheBytesPerBlock groups = .ok bytesPerBlock)
    (hp : PackedAt kvLayout bytesPerBlock numBlocks groups i name spec start group m)
    (hp' : PackedAt kvLayout bytesPerBlock numBlocks groups i' name' spec' start'
      group' m') (hgroups : i ≠ i') (hb : b < numBlocks) (hb' : b' < numBlocks)
    (hne : b ≠ b') : PagesApart spec spec' start start' b b' := by
  have hfits := hp.fits h hbytes
  have hfits' := hp'.fits h hbytes
  unfold PagesApart
  rw [hp.start_eq, hp'.start_eq]
  cases hstrides with
  | blockOutermost houtermost _ =>
      rw [pageAt, pageAt, if_pos houtermost, if_pos houtermost]
      exact blockMajor_apart hfits hfits' (Or.inl hne)
  | layerOutermost _ _ hcompact _ =>
      obtain ⟨hi, -⟩ := List.getElem?_eq_some_iff.mp hp.group_eq
      obtain ⟨hi', -⟩ := List.getElem?_eq_some_iff.mp hp'.group_eq
      have hmany : 1 < groups.length := by omega
      obtain ⟨page, hpage⟩ := one_page h hcompact hmany hvalid
      -- with one page size the packed offsets are multiples of it
      have hall : ∀ g ∈ groups, ∀ q ∈ layerPages g, q = page := by
        intro g hg q hq
        have hmem := (layerPages_perm g).mem_iff.mp hq
        obtain ⟨p, hp, rfl⟩ := List.mem_map.mp hmem
        exact hpage g hg p hp
      have hoffset : ∀ g ∈ groups, ∀ k, k < (layerPages g).length →
          packedOffset (layerPages g) k = k * page :=
        fun g hg k hk => packedOffset_of_same (hall g hg) hk.le
      have hgroup := List.mem_of_getElem? hp.group_eq
      have hgroup' := List.mem_of_getElem? hp'.group_eq
      obtain ⟨hm, hspec⟩ := hp.page
      obtain ⟨hm', hspec'⟩ := hp'.page
      rw [hall group hgroup _ (List.getElem_mem hm)] at hspec
      rw [hall group' hgroup' _ (List.getElem_mem hm')] at hspec'
      rw [← hspec, hoffset group hgroup m hm] at hfits ⊢
      rw [← hspec', hoffset group' hgroup' m' hm'] at hfits' ⊢
      by_cases hmm : m = m'
      · subst hmm
        exact pageAt_self hfits hne
      · exact pageAt_apart hfits hfits' hb hb' (apart_of_same_page hmm)

end Packed

/-! ## The layout of a worker -/

theorem groupTensors_layers {numBlocks size : Nat} {stride : Option Nat}
    (byteOffset : Nat) (chunks : List (KVCacheSpec × List String)) :
    (groupTensors env kvLayout numBlocks size stride byteOffset chunks).flatMap
      KVCacheTensor.layers = (ungroup chunks).map Prod.snd := by
  induction chunks generalizing byteOffset with
  | nil => rfl
  | cons chunk chunks ih =>
      obtain ⟨spec, names⟩ := chunk
      have hnames : (names.map fun v => (spec, v)).map Prod.snd = names := by
        rw [List.map_map]
        exact List.map_id _
      rw [groupTensors, List.flatMap_cons, ih, ungroup_cons, List.map_append, hnames]
      rfl

theorem workerTensors_names (h : GroupsOf worker groups) (numBlocks : Nat) :
    ((workerTensors env kvLayout bytesPerBlock numBlocks groups).flatMap
      KVCacheTensor.layers).Perm worker.names := by
  rw [workerTensors, List.flatMap_assoc]
  refine List.Perm.trans ?_ h.names
  apply List.Perm.flatMap_left
  intro group hgroup
  rw [groupTensors_layers, ← groupItems_names (h.exact group hgroup)]
  exact (ungroup_layersBySpec group).map Prod.snd

theorem workerTensors_safe (h : GroupsOf worker groups)
    (hstrides : KnownStrides env kvLayout)
    (hvalid : validateKvCacheLayout kvLayout groups = .ok ())
    (hbytes : getKvCacheBytesPerBlock groups = .ok bytesPerBlock) (numBlocks : Nat) :
    LayoutSafe worker groups numBlocks
      (workerTensors env kvLayout bytesPerBlock numBlocks groups) := by
  have hnames : ((workerTensors env kvLayout bytesPerBlock numBlocks groups).flatMap
      KVCacheTensor.layers).Perm worker.names := workerTensors_names h numBlocks
  refine { owned := ?_, inside := ?_, same_group := ?_, other_groups := ?_ }
  · exact ⟨hnames, hnames.nodup_iff.mpr h.nodup⟩
  · intro i name spec start size b hholds hb
    obtain ⟨rfl, group, m, hp⟩ := holds_packedAt h hstrides (Nat.zero_lt_of_lt hb) hholds
    rw [hp.start_eq]
    exact pageAt_inside (hp.fits h hbytes) hb
  · intro i name name' spec spec' start start' size size' b b' hholds hholds' hb hb' hne
    have hblocks := Nat.zero_lt_of_lt hb
    obtain ⟨-, group, m, hp⟩ := holds_packedAt h hstrides hblocks hholds
    obtain ⟨-, group', m', hp'⟩ := holds_packedAt h hstrides hblocks hholds'
    have hsame : group = group' := by
      have hgroup := hp.group_eq
      rw [hp'.group_eq] at hgroup
      exact (Option.some.inj hgroup).symm
    subst hsame
    exact hp.same_group h hbytes hp' hb hb' hne
  · intro i i' name name' spec spec' start start' size size' b b' hholds hholds' hgroups
      hb hb' hne
    have hblocks := Nat.zero_lt_of_lt hb
    obtain ⟨-, group, m, hp⟩ := holds_packedAt h hstrides hblocks hholds
    obtain ⟨-, group', m', hp'⟩ := holds_packedAt h hstrides hblocks hholds'
    exact hp.other_groups h hstrides hvalid hbytes hp' hgroups hb hb' hne

end Worker

end FlashNext.Ports.KvCache
