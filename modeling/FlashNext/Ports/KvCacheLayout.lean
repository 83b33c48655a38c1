import FlashNext.Ports.KvCache
import FlashNext.Verified.PackedPages
import Mathlib.Data.List.Nodup

/-!
# KV-cache planning: what a layout must satisfy

All tensors of a worker are views of one backing store.  `LayoutSafe` says
that the pages of its layers stay inside the store and never meet where two
requests could hold them.
-/

namespace FlashNext.Ports.KvCache

open FlashNext.Verified.Checked
open FlashNext.Verified.PackedPages

/-- Where the `j`-th layer of a tensor starts in block `b`. -/
def KVCacheTensor.pageStart (t : KVCacheTensor) (j b : Nat) : Nat :=
  t.offset + j * t.layerStride + b * t.blockStride

/-- The layer `name` of the `i`-th group, with its spec, the start of its page
in every block, and the size of the store. -/
structure Holds (groups : List KVCacheGroupSpec) (tensors : List KVCacheTensor)
    (i : Nat) (name : String) (spec : KVCacheSpec) (start : Nat → Nat)
    (size : Nat) : Prop where
  group : ∃ group, groups[i]? = some group ∧ name ∈ group.layerNames ∧
    getPerLayerSpec group name = .ok spec
  tensor : ∃ t ∈ tensors, ∃ j, t.layers[j]? = some name ∧
    start = t.pageStart j ∧ size = t.size

/-- The pages of two layers do not meet. -/
def PagesApart (spec spec' : KVCacheSpec) (start start' : Nat → Nat) (b b' : Nat) :
    Prop :=
  ¬ Overlap (start b) spec.pageSizeBytes (start' b') spec'.pageSizeBytes

/-- The layout of one worker. -/
structure LayoutSafe (worker : SpecDict) (groups : List KVCacheGroupSpec)
    (numBlocks : Nat) (tensors : List KVCacheTensor) : Prop where
  /-- Every owned layer is in exactly one tensor, and no other layer is. -/
  owned : (tensors.flatMap KVCacheTensor.layers).Perm worker.names ∧
    (tensors.flatMap KVCacheTensor.layers).Nodup
  inside : ∀ {i name spec start size b},
    Holds groups tensors i name spec start size → b < numBlocks →
    start b + spec.pageSizeBytes ≤ size
  same_group : ∀ {i name name' spec spec' start start' size size' b b'},
    Holds groups tensors i name spec start size →
    Holds groups tensors i name' spec' start' size' →
    b < numBlocks → b' < numBlocks → (name ≠ name' ∨ b ≠ b') →
    PagesApart spec spec' start start' b b'
  other_groups : ∀ {i i' name name' spec spec' start start' size size' b b'},
    Holds groups tensors i name spec start size →
    Holds groups tensors i' name' spec' start' size' → i ≠ i' →
    b < numBlocks → b' < numBlocks → b ≠ b' →
    PagesApart spec spec' start start' b b'

/-! ## Strides -/

/-- `compute_layout_strides` for a block-outermost layout. -/
def BlockOutermostStrides (env : Env) (layout : KVCacheLayout) : Prop :=
  ∀ (spec : KVCacheSpec) (numBlocks numLayers stride : Nat),
    env.computeLayoutStrides spec numBlocks numLayers layout (some stride) =
      ((spec.pageSizeBytes : Nat), stride)

/-- `compute_layout_strides` for a layer-outermost layout. -/
def LayerOutermostStrides (env : Env) (layout : KVCacheLayout) : Prop :=
  ∀ (spec : KVCacheSpec) (numBlocks numLayers : Nat),
    env.computeLayoutStrides spec numBlocks numLayers layout none =
      (numBlocks * spec.pageSizeBytes, (spec.pageSizeBytes : Nat))

/-- The layouts that the planner supports. -/
inductive KnownStrides (env : Env) (layout : KVCacheLayout) : Prop where
  | blockOutermost (outermost : layout.isBlockOutermost = true)
      (strides : BlockOutermostStrides env layout)
  | layerOutermost (outermost : layout.isBlockOutermost = false)
      (blockCompact : layout.isBlockCompact = true)
      (layerCompact : layout.isLayerCompact = true)
      (strides : LayerOutermostStrides env layout)

/-! ## Lists of named things -/

/-- A name determines what is filed under it. -/
theorem eq_of_nodup_fst {β : Type} {ps : List (String × β)}
    (hnodup : (ps.map Prod.fst).Nodup) {name : String} {x y : β}
    (hx : (name, x) ∈ ps) (hy : (name, y) ∈ ps) : x = y := by
  have hpair := List.inj_on_of_nodup_map hnodup hx hy rfl
  exact congrArg Prod.snd hpair

/-! ## The largest group -/

theorem maxOf_of_first {size : Nat} {sizes : List Nat}
    (h : ∀ s ∈ sizes, s ≤ size) : maxOf (size :: sizes) = .ok size := by
  have hfold : sizes.foldl max size = size := by
    induction sizes with
    | nil => rfl
    | cons s sizes ih =>
        have hs := h s List.mem_cons_self
        rw [List.foldl_cons, Nat.max_eq_left hs]
        exact ih fun x hx => h x (List.mem_cons_of_mem s hx)
  rw [maxOf, hfold]

theorem le_of_maxOf {sizes : List Nat} {largest : Nat}
    (h : maxOf sizes = .ok largest) : ∀ s ∈ sizes, s ≤ largest := by
  cases sizes with
  | nil => cases h
  | cons size sizes =>
      cases h
      have hfold : ∀ (start : Nat) (rest : List Nat),
          start ≤ rest.foldl max start ∧ ∀ s ∈ rest, s ≤ rest.foldl max start := by
        intro start rest
        induction rest generalizing start with
        | nil => exact ⟨Nat.le_refl _, fun s hs => (List.not_mem_nil hs).elim⟩
        | cons r rest ih =>
            obtain ⟨hstart, hrest⟩ := ih (max start r)
            rw [List.foldl_cons]
            refine ⟨(Nat.le_max_left _ _).trans hstart, fun s hs => ?_⟩
            rcases List.mem_cons.mp hs with rfl | hmem
            · exact (Nat.le_max_right _ _).trans hstart
            · exact hrest s hmem
      intro s hs
      rcases List.mem_cons.mp hs with rfl | hmem
      · exact (hfold s sizes).1
      · exact (hfold size sizes).2 s hmem

end FlashNext.Ports.KvCache
