import FlashNext.Ports.KvGroupsSpecs

/-!
# KV-cache groups: one spec, one type, promotion

Merged groups keep the block layout of their layers, groups of one type keep
the specs as they are.  A promoted layer ends with a page that is large enough.
-/

namespace FlashNext.Ports.KvCache

open FlashNext.Verified.Checked

variable {env : GroupingEnv} {cfg : GroupingConfig} {d : SpecDict}

theorem planned_eq_ok {α : Type} {x : Except PlanError α} {a : α} :
    planned x = .ok a ↔ x = .ok a := by
  cases x with
  | error e => exact iff_of_false (fun h => by cases h) fun h => by cases h
  | ok b => exact ⟨fun h => by cases h; rfl, fun h => by cases h; rfl⟩

theorem asserted_eq_ok {α : Type} {x : Option α} {a : α} :
    asserted x = .ok a ↔ x = some a := by
  cases x with
  | none => exact iff_of_false (fun h => by cases h) fun h => by cases h
  | some b => exact ⟨fun h => by cases h; rfl, fun h => by cases h; rfl⟩

/-! ## Merged groups -/

/-- Merged groups partition the layers as their groups do. -/
theorem grouping_toGroup {R : String × KVCacheSpec → KVCacheSpec → Prop}
    {groups : List MergedGroup} (hperm : (groups.flatMap MergedGroup.layerNames).Perm d.names)
    (hne : ∀ group ∈ groups, group.layerNames ≠ [])
    (hfinal : ∀ group ∈ groups, ∀ p ∈ d, p.1 ∈ group.layerNames → R p group.kvCacheSpec) :
    Grouping R d (groups.map MergedGroup.toGroup) where
  partition := by
    rw [List.flatMap_map]
    exact hperm
  nonempty := by
    intro group hgroup
    obtain ⟨merged, hmerged, rfl⟩ := List.mem_map.mp hgroup
    exact hne merged hmerged
  final := by
    intro group hgroup p hp hmem
    obtain ⟨merged, hmerged, rfl⟩ := List.mem_map.mp hgroup
    exact ⟨merged.kvCacheSpec, rfl, hfinal merged hmerged p hp hmem⟩

/-- Disjoint, non-empty groups whose spec has the block layout of every layer. -/
structure MergedGrouping (d : SpecDict) (groups : List MergedGroup) : Prop where
  partition : (groups.flatMap MergedGroup.layerNames).Perm d.names
  nonempty : ∀ group ∈ groups, group.layerNames ≠ []
  layout : ∀ group ∈ groups, ∀ p ∈ d, p.1 ∈ group.layerNames →
    SameLayout p group.kvCacheSpec

theorem MergedGrouping.grouping {groups : List MergedGroup} (h : MergedGrouping d groups) :
    Grouping SameLayout d (groups.map MergedGroup.toGroup) :=
  grouping_toGroup h.partition h.nonempty h.layout

theorem createKvCacheGroupSpec_ok (hmerge : MergeKeepsLayout env) (hnodup : d.names.Nodup)
    {layerNames : List String} {group : MergedGroup}
    (h : createKvCacheGroupSpec env d layerNames = .ok group) :
    group.layerNames = layerNames ∧
      ∀ p ∈ d, p.1 ∈ layerNames → SameLayout p group.kvCacheSpec := by
  unfold createKvCacheGroupSpec at h
  obtain ⟨layerSpecs, hspecs, h⟩ := bind_eq_ok.mp h
  obtain ⟨_, -, h⟩ := bind_eq_ok.mp h
  obtain ⟨merged, hmerged, h⟩ := bind_eq_ok.mp h
  cases h
  refine ⟨rfl, ?_⟩
  intro p hp hmem
  have hsteps := forall₂_of_mapM (planned_eq_ok.mp hspecs)
  obtain ⟨spec, hspec, hget⟩ := exists_of_forall₂ hsteps.flip hmem
  rw [SpecDict.get_of_mem hnodup hp] at hget
  cases hget
  exact hmerge layerSpecs merged hmerged p.2 hspec

theorem createKvCacheGroupSpecs_ok (hmerge : MergeKeepsLayout env) (hnodup : d.names.Nodup)
    {grouped : List (List String)} (hperm : grouped.flatten.Perm d.names)
    (hne : ∀ layerNames ∈ grouped, layerNames ≠ []) {groups : List MergedGroup}
    (h : createKvCacheGroupSpecs env d grouped = .ok groups) :
    MergedGrouping d groups := by
  have hsteps := forall₂_of_mapM h
  have hnames : groups.map MergedGroup.layerNames = grouped := by
    clear h hperm hne
    induction hsteps with
    | nil => rfl
    | cons hstep _ ih =>
        rw [List.map_cons, ih, (createKvCacheGroupSpec_ok hmerge hnodup hstep).1]
  refine { partition := ?_, nonempty := ?_, layout := ?_ }
  · rw [List.flatMap_def, hnames]
    exact hperm
  · intro group hgroup
    apply hne
    rw [← hnames]
    exact List.mem_map_of_mem hgroup
  · intro group hgroup p hp hmem
    obtain ⟨layerNames, -, hstep⟩ := exists_of_forall₂ hsteps hgroup
    obtain ⟨hlayers, hlayout⟩ := createKvCacheGroupSpec_ok hmerge hnodup hstep
    rw [hlayers] at hmem
    exact hlayout p hp hmem

theorem getKvCacheGroupsUniformSpec_ok (hmerge : MergeKeepsLayout env)
    (hnodup : d.names.Nodup) (hne : d ≠ []) {groups : List KVCacheGroupSpec}
    (h : getKvCacheGroupsUniformSpec env d = .ok groups) :
    Grouping SameLayout d groups := by
  unfold getKvCacheGroupsUniformSpec at h
  obtain ⟨merged, hmerged, h⟩ := bind_eq_ok.mp h
  cases h
  apply MergedGrouping.grouping
  apply createKvCacheGroupSpecs_ok hmerge hnodup _ _ hmerged
  · rw [List.flatten_singleton]
  · intro layerNames hmem
    rw [List.mem_singleton.mp hmem]
    exact fun hnil => hne (List.map_eq_nil_iff.mp hnil)

/-! ## Groups of one type -/

/-- `from_specs` keeps all specs. -/
theorem kvCacheSpecs_of_fromSpecs {e : Env} {spec : GroupSpec}
    (h : fromSpecs e d = some spec) : spec.kvCacheSpecs = d ∧ spec.isUniformType = true := by
  obtain ⟨blockSize, rfl⟩ := fromSpecs_eq h
  exact ⟨rfl, rfl⟩

theorem ne_nil_of_fromSpecs {e : Env} {spec : GroupSpec}
    (h : fromSpecs e d = some spec) : d ≠ [] := by
  rintro rfl
  cases h

theorem getPerLayerSpec_uniformType {e : Env} (hnodup : d.names.Nodup) {spec : GroupSpec}
    (h : fromSpecs e d = some spec) {layerNames : List String} {eagle : Bool}
    {p : String × KVCacheSpec} (hp : p ∈ d) :
    getPerLayerSpec ⟨layerNames, spec, eagle⟩ p.1 = .ok p.2 := by
  obtain ⟨blockSize, rfl⟩ := fromSpecs_eq h
  exact SpecDict.get_of_mem hnodup hp

theorem getKvCacheGroupsUniformType_grouping {e : Env} (hnodup : d.names.Nodup)
    {spec : GroupSpec} (h : fromSpecs e d = some spec) :
    Grouping (fun p final => final = p.2) d (getKvCacheGroupsUniformType spec) := by
  have hspecs := (kvCacheSpecs_of_fromSpecs h).1
  refine { partition := ?_, nonempty := ?_, final := ?_ }
  · rw [getKvCacheGroupsUniformType, List.flatMap_singleton, uniformTypeGroup, hspecs]
  · intro group hgroup
    rw [List.mem_singleton.mp hgroup, uniformTypeGroup, hspecs]
    exact fun hnil => ne_nil_of_fromSpecs h (List.map_eq_nil_iff.mp hnil)
  · intro group hgroup p hp _
    rw [List.mem_singleton.mp hgroup]
    exact ⟨p.2, getPerLayerSpec_uniformType hnodup h hp, rfl⟩

theorem Grouping.sameLayout {groups : List KVCacheGroupSpec}
    (h : Grouping (fun p final => final = p.2) d groups) :
    Grouping SameLayout d groups := by
  apply h.imp
  rintro p - final rfl
  exact ⟨rfl, rfl⟩

/-! ## Promotion -/

/-- Promotion takes place and gives the layer another class. -/
def Promoted (env : GroupingEnv) (d : SpecDict) (spec : KVCacheSpec) : Prop :=
  isUnified env d = .ok false ∧ hasLocalBesideFull env d = true ∧
    (targetCls env spec).isSome = true

/-- The page of a rebuilt spec is as large as the layer needs. -/
structure RebuiltAs (env : GroupingEnv) (p q : String × KVCacheSpec) (C : Prop) : Prop where
  name : q.1 = p.1
  fits : PageFits env p q.2 ↔ C

theorem promoteAs_fits (h : d.WellFormed env) {p : String × KVCacheSpec} (hp : p ∈ d)
    (hattention : isInstance env p.2 .attention = true) (target : SpecType)
    (blockSize : Nat) : PageFits env p (promoteAs env p.2 target blockSize) := by
  have hbytes : ((p.2.unpaddedPageSizeBytes * blockSize / p.2.blockSize : Nat)).toPNat' =
      bytesFor env p.2 blockSize := by
    unfold bytesFor withBlockSize
    dsimp only
    rw [if_pos hattention, Nat.mul_comm,
      Nat.mul_div_assoc _ (h.linear p hp hattention), Nat.mul_comm]
  show bytesFor env p.2 blockSize ≤
    (promotedPageSizePadded p.2 blockSize).getD (bytesFor env p.2 blockSize)
  unfold promotedPageSizePadded
  cases p.2.pageSizePadded with
  | none => exact le_refl _
  | some padded =>
      rw [Option.map_some, Option.getD_some, hbytes]
      exact le_max_right _ _

theorem pageFits_own (h : d.WellFormed env) {p : String × KVCacheSpec} (hp : p ∈ d) :
    PageFits env p p.2 ↔ p.2.OwnPageFits := by
  rw [PageFits, bytesFor_own h hp]
  rfl

theorem promoteSpec_name {p q : String × KVCacheSpec} {size : Option Nat}
    (hq : promoteSpec env size p = .ok q) : q.1 = p.1 := by
  unfold promoteSpec at hq
  split at hq
  · cases hq
    rfl
  · obtain ⟨_, -, hq⟩ := bind_eq_ok.mp hq
    cases hq
    rfl

theorem promoteSpec_ok (h : d.WellFormed env) {p q : String × KVCacheSpec} (hp : p ∈ d)
    {size : Option Nat} (hq : promoteSpec env size p = .ok q) :
    RebuiltAs env p q (p.2.OwnPageFits ∨ (targetCls env p.2).isSome = true) := by
  refine ⟨promoteSpec_name hq, ?_⟩
  unfold promoteSpec at hq
  split at hq
  · next hnone =>
      cases hq
      rw [pageFits_own h hp, hnone]
      simp
  · next target hsome =>
      obtain ⟨_, hattention, hq⟩ := bind_eq_ok.mp hq
      cases hq
      apply iff_of_true
      · exact promoteAs_fits h hp (require_eq_ok.mp hattention) target _
      · exact Or.inr (by rw [hsome]; rfl)

/-- What promotion makes of a dict. -/
structure PromotedOf (env : GroupingEnv) (d e : SpecDict) : Prop where
  names : e.names = d.names
  rebuilt : ∀ p ∈ d, ∃ q ∈ e,
    RebuiltAs env p q (p.2.OwnPageFits ∨ Promoted env d p.2)
  unified : isUnified env e = .ok true

/-- A loop that rebuilds the specs keeps the layers. -/
theorem names_of_forall₂
    {f : String × KVCacheSpec → Except GroupingError (String × KVCacheSpec)}
    (hf : ∀ p q, f p = .ok q → q.1 = p.1) {e : SpecDict}
    (h : List.Forall₂ (fun p q => f p = .ok q) d e) : e.names = d.names := by
  induction h with
  | nil => rfl
  | cons hpq _ ih => exact congrArg₂ List.cons (hf _ _ hpq) ih

theorem promoteLocalKvCacheSpecs_ok (h : d.WellFormed env) {e : SpecDict}
    (hrun : promoteLocalKvCacheSpecs env d = .ok e) : PromotedOf env d e := by
  have hkept : ∀ p ∈ d, ¬ Promoted env d p.2 →
      RebuiltAs env p p (p.2.OwnPageFits ∨ Promoted env d p.2) := by
    intro p hp hnot
    refine ⟨rfl, ?_⟩
    rw [pageFits_own h hp]
    exact ⟨Or.inl, fun hor => hor.resolve_right hnot⟩
  unfold promoteLocalKvCacheSpecs at hrun
  obtain ⟨unified, hunified, hrun⟩ := bind_eq_ok.mp hrun
  cases unified with
  | true =>
      cases hrun
      refine { names := rfl, rebuilt := fun p hp => ⟨p, hp, ?_⟩, unified := hunified }
      apply hkept p hp
      intro hpromoted
      cases hunified.symm.trans hpromoted.1
  | false =>
      rw [if_neg Bool.false_ne_true] at hrun
      obtain ⟨promoted, hpromote, hrun⟩ := bind_eq_ok.mp hrun
      obtain ⟨unified', hunified', hrun⟩ := bind_eq_ok.mp hrun
      obtain ⟨_, hreq, hrun⟩ := bind_eq_ok.mp hrun
      cases hrun
      rw [require_eq_ok.mp hreq] at hunified'
      unfold promoteSpecs at hpromote
      by_cases hlocal : hasLocalBesideFull env d = true
      · rw [if_pos hlocal] at hpromote
        have hsteps := forall₂_of_mapM hpromote
        refine
          { names := names_of_forall₂ (fun _ _ hq => promoteSpec_name hq) hsteps
            rebuilt := ?_, unified := hunified' }
        intro p hp
        obtain ⟨q, hq, hpq⟩ := exists_of_forall₂ hsteps.flip hp
        have hpromoted : Promoted env d p.2 ↔ (targetCls env p.2).isSome = true :=
          ⟨fun h => h.2.2, fun htarget => ⟨hunified, hlocal, htarget⟩⟩
        refine ⟨q, hq, ?_⟩
        rw [hpromoted]
        exact promoteSpec_ok h hp hpq
      · rw [if_neg hlocal] at hpromote
        cases hpromote
        refine { names := rfl, rebuilt := fun p hp => ⟨p, hp, ?_⟩, unified := hunified' }
        exact hkept p hp fun hpromoted => hlocal hpromoted.2.1

end FlashNext.Ports.KvCache
