import FlashNext.Ports.CsaLinearRank
import FlashNext.Ports.KvGroups
import Mathlib.Tactic.Common

/-!
# KV-cache groups: layers and their final specs

What it means that groups hold the layers of a model, and what promotion and
merging leave of the page a layer needs.
-/

namespace FlashNext.Ports.KvCache

open FlashNext.Verified.Checked

variable {env : GroupingEnv} {cfg : GroupingConfig} {d : SpecDict}

/-! ## Specs -/

/-- `merge` accepts only specs with the same block layout. -/
def MergeKeepsLayout (env : GroupingEnv) : Prop :=
  ∀ specs merged, env.merge specs = .ok merged → ∀ spec ∈ specs,
    merged.blockSize = spec.blockSize ∧ merged.pageSizeBytes = spec.pageSizeBytes

/-- Pages of attention specs hold a whole number of tokens, those of
hidden-state specs hold one hidden state a token. -/
structure SpecDict.WellFormed (d : SpecDict) (env : GroupingEnv) : Prop where
  nodup : d.names.Nodup
  linear : ∀ p ∈ d, isInstance env p.2 .attention = true →
    p.2.blockSize ∣ p.2.unpaddedPageSizeBytes
  hidden : ∀ p ∈ d, isInstance env p.2 .hiddenStateCache = true →
    isInstance env p.2 .attention = true ∧
      (p.2.unpaddedPageSizeBytes : Nat) = p.2.blockSize * perToken env p.2

/-- `page_size_padded` is not smaller than what it pads. -/
def KVCacheSpec.OwnPageFits (spec : KVCacheSpec) : Prop :=
  spec.unpaddedPageSizeBytes ≤ spec.pageSizeBytes

theorem bytesFor_own (h : d.WellFormed env) {p : String × KVCacheSpec} (hp : p ∈ d) :
    bytesFor env p.2 p.2.blockSize = p.2.unpaddedPageSizeBytes := by
  unfold bytesFor withBlockSize
  dsimp only
  split
  · next hattention =>
      rw [Nat.div_mul_cancel (h.linear p hp hattention)]
      exact PNat.coe_toPNat' _
  · rfl

/-! ## Groups -/

/-- The groups cut the layers into disjoint, non-empty sets, and every layer
ends with a spec that `R` relates to its own. -/
structure Grouping (R : String × KVCacheSpec → KVCacheSpec → Prop) (d : SpecDict)
    (groups : List KVCacheGroupSpec) : Prop where
  partition : (groups.flatMap KVCacheGroupSpec.layerNames).Perm d.names
  nonempty : ∀ group ∈ groups, group.layerNames ≠ []
  final : ∀ group ∈ groups, ∀ p ∈ d, p.1 ∈ group.layerNames →
    ∃ final, getPerLayerSpec group p.1 = .ok final ∧ R p final

def SameLayout (p : String × KVCacheSpec) (final : KVCacheSpec) : Prop :=
  final.blockSize = p.2.blockSize ∧ final.pageSizeBytes = p.2.pageSizeBytes

/-- The page a layer ends with holds a block of the block size it ends with. -/
def PageFits (env : GroupingEnv) (p : String × KVCacheSpec) (final : KVCacheSpec) :
    Prop :=
  bytesFor env p.2 final.blockSize ≤ final.pageSizeBytes

variable {R S : String × KVCacheSpec → KVCacheSpec → Prop}
  {groups groups' : List KVCacheGroupSpec}

theorem Grouping.imp (h : Grouping R d groups)
    (hRS : ∀ p ∈ d, ∀ final, R p final → S p final) : Grouping S d groups where
  partition := h.partition
  nonempty := h.nonempty
  final := by
    intro group hgroup p hp hmem
    obtain ⟨final, hfinal, hR⟩ := h.final group hgroup p hp hmem
    exact ⟨final, hfinal, hRS p hp final hR⟩

theorem Grouping.exists_group (h : Grouping R d groups) {p : String × KVCacheSpec}
    (hp : p ∈ d) : ∃ group ∈ groups, p.1 ∈ group.layerNames :=
  List.mem_flatMap.mp (h.partition.symm.subset (List.mem_map_of_mem hp))

/-- The final specs decide what holds of them. -/
theorem Grouping.iff_of_final {C : String × KVCacheSpec → Prop} (h : Grouping R d groups)
    (hC : ∀ p ∈ d, ∀ final, R p final → (S p final ↔ C p)) :
    Grouping S d groups ↔ ∀ p ∈ d, C p := by
  constructor
  · intro hS p hp
    obtain ⟨group, hgroup, hmem⟩ := h.exists_group hp
    obtain ⟨final, hfinal, hR⟩ := h.final group hgroup p hp hmem
    obtain ⟨final', hfinal', hS'⟩ := hS.final group hgroup p hp hmem
    rw [hfinal] at hfinal'
    cases hfinal'
    exact (hC p hp final hR).mp hS'
  · intro hall
    exact h.imp fun p hp final hR => (hC p hp final hR).mpr (hall p hp)

/-- Nothing depends on the draft marks. -/
def KVCacheGroupSpec.content (group : KVCacheGroupSpec) : List String × GroupSpec :=
  (group.layerNames, group.kvCacheSpec)

theorem Grouping.of_content
    (hcontent : groups'.map KVCacheGroupSpec.content = groups.map KVCacheGroupSpec.content)
    (h : Grouping R d groups) : Grouping R d groups' := by
  have hback : ∀ group' ∈ groups', ∃ group ∈ groups, group.content = group'.content := by
    intro group' hgroup'
    apply List.mem_map.mp
    rw [← hcontent]
    exact List.mem_map_of_mem hgroup'
  have hnames : groups'.flatMap KVCacheGroupSpec.layerNames =
      groups.flatMap KVCacheGroupSpec.layerNames := by
    have hmap := congrArg (List.flatMap Prod.fst) hcontent
    rw [List.flatMap_map, List.flatMap_map] at hmap
    exact hmap
  refine { partition := ?_, nonempty := ?_, final := ?_ }
  · rw [hnames]
    exact h.partition
  · intro group' hgroup'
    obtain ⟨group, hgroup, heq⟩ := hback group' hgroup'
    rw [show group'.layerNames = group.layerNames from congrArg Prod.fst heq.symm]
    exact h.nonempty group hgroup
  · intro group' hgroup' p hp hmem
    obtain ⟨group, hgroup, heq⟩ := hback group' hgroup'
    have hspec : group'.kvCacheSpec = group.kvCacheSpec := congrArg Prod.snd heq.symm
    rw [show group'.layerNames = group.layerNames from congrArg Prod.fst heq.symm] at hmem
    obtain ⟨final, hfinal, hR⟩ := h.final group hgroup p hp hmem
    refine ⟨final, ?_, hR⟩
    rw [getPerLayerSpec, hspec]
    exact hfinal

/-- The groups of a rebuilt dict. -/
theorem Grouping.of_rebuilt {e : SpecDict} (hnames : e.names = d.names)
    (hRS : ∀ p ∈ d, ∃ q ∈ e, q.1 = p.1 ∧ ∀ final, R q final → S p final)
    (h : Grouping R e groups) : Grouping S d groups where
  partition := by
    rw [← hnames]
    exact h.partition
  nonempty := h.nonempty
  final := by
    intro group hgroup p hp hmem
    obtain ⟨q, hq, hname, himp⟩ := hRS p hp
    rw [← hname] at hmem ⊢
    obtain ⟨final, hfinal, hR⟩ := h.final group hgroup q hq hmem
    exact ⟨final, hfinal, himp final hR⟩

/-! ## Draft marks -/

theorem markGroupOf_content (lastLayer : String) (groups : List KVCacheGroupSpec) :
    (markGroupOf lastLayer groups).map KVCacheGroupSpec.content =
      groups.map KVCacheGroupSpec.content := by
  induction groups with
  | nil => rfl
  | cons group groups ih =>
      unfold markGroupOf
      split
      · rfl
      · rw [List.map_cons, List.map_cons, ih]

theorem annotateEagleGroups_content (e : SpecDict) (groups : List KVCacheGroupSpec)
    (fallback : Bool) :
    (annotateEagleGroups env cfg e groups fallback).map KVCacheGroupSpec.content =
      groups.map KVCacheGroupSpec.content := by
  have hmarked : (groups.map fun group =>
      if env.nonCausalMultiTokenDecode group.kvCacheSpec then group.markEagle
      else group).map KVCacheGroupSpec.content =
        groups.map KVCacheGroupSpec.content := by
    rw [List.map_map]
    apply List.map_congr_left
    intro group _
    show KVCacheGroupSpec.content (if _ then _ else _) = _
    split <;> rfl
  unfold annotateEagleGroups
  split
  · rfl
  · dsimp only
    split
    · exact hmarked
    · split
      · exact hmarked
      · split
        · exact hmarked
        · rw [markGroupOf_content, hmarked]

end FlashNext.Ports.KvCache
