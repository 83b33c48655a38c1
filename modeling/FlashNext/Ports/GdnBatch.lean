import FlashNext.Ports.GdnRouting
import Mathlib.Data.List.Perm.Basic

/-!
# Gated delta net: what a batch should compute

A batch is a list of requests, each with its own token positions and its own
cache slots.  `convRun` and `deltaRun` say what one request computes from its
own rows and states; nothing in them mentions the other requests.  `Describes`
says what the metadata has to be for a batch.
-/

namespace FlashNext.Ports.GdnRouting

open FlashNext.Verified.Scatter
open FlashNext.Verified.Varlen

variable {Qkv A B ConvState SsmState Out : Type}

/-! ## Requests -/

structure Request where
  /-- The positions of its tokens in the batch. -/
  tokens : List Nat
  /-- The cache slots of its states; the first one holds its convolution
  state. -/
  slots : List Nat
  /-- `num_accepted_tokens` of a speculative request. -/
  accepted : Option Nat
  hasInitialState : Bool

def Request.convSlot (r : Request) : Nat := r.slots.headD 0

structure Batch where
  spec : List Request
  decodes : List Request
  prefills : List Request

/-- Decodes come before prefills. -/
def Batch.nonSpec (b : Batch) : List Request := b.decodes ++ b.prefills

def Batch.requests (b : Batch) : List Request := b.spec ++ b.nonSpec

/-- `n` tokens, split over requests with slots of their own. -/
structure Batch.WellFormed (b : Batch) (n : Nat) : Prop where
  nonempty : b.requests ≠ []
  partition : (b.requests.flatMap Request.tokens).Perm (List.range n)
  slots : (b.requests.flatMap Request.slots).Nodup
  spec_slots : ∀ r ∈ b.spec, r.slots ≠ []
  spec_accepted : ∀ r ∈ b.spec, r.accepted.isSome
  spec_state : ∀ r ∈ b.spec, r.hasInitialState = true
  nonSpec_slot : ∀ r ∈ b.nonSpec, r.slots = [r.convSlot]
  nonSpec_accepted : ∀ r ∈ b.nonSpec, r.accepted = none
  decode_token : ∀ r ∈ b.decodes, r.tokens.length = 1
  decode_state : ∀ r ∈ b.decodes, r.hasInitialState = true

/-- The row counts of some requests. -/
def rowCounts (rs : List Request) : List Nat :=
  rs.map fun r => r.tokens.length

/-- The requests that the chunk kernel runs: the prefill tail when decodes are
peeled off, else the full non-spec batch. -/
def chunkRequests (m : GDNAttentionMetadata) (b : Batch) : List Request :=
  if splitNonSpec m then b.prefills else b.nonSpec

/-- The metadata describes the batch.  Index tensors that no kind of request
in the batch needs may hold anything. -/
structure Describes (m : GDNAttentionMetadata) (b : Batch) : Prop where
  wellFormed : b.WellFormed m.numActualTokens
  numPrefills : m.numPrefills = b.prefills.length
  numDecodes : m.numDecodes = b.decodes.length
  numDecodeTokens : m.numDecodeTokens = b.decodes.length
  numSpecDecodes : m.numSpecDecodes = b.spec.length
  masks : b.spec ≠ [] → m.specSequenceMasks = true
  specTokenIndx : m.specSequenceMasks = true → b.nonSpec ≠ [] →
    m.specTokenIndx = b.spec.flatMap Request.tokens
  nonSpecTokenIndx : m.specSequenceMasks = true → b.nonSpec ≠ [] →
    m.nonSpecTokenIndx = b.nonSpec.flatMap Request.tokens
  /-- Without gathering, the requests lie in batch order. -/
  spec_order : b.nonSpec = [] →
    b.spec.flatMap Request.tokens = List.range m.numActualTokens
  nonSpec_order : m.specSequenceMasks = false →
    b.nonSpec.flatMap Request.tokens = List.range m.numActualTokens
  specQueryStartLoc : m.specSequenceMasks = true →
    m.specQueryStartLoc = cuSeqlens 0 (rowCounts b.spec)
  specStateIndices : m.specSequenceMasks = true →
    m.specStateIndicesTensor = b.spec.map Request.slots
  numAcceptedTokens : m.specSequenceMasks = true →
    m.numAcceptedTokens.map some = b.spec.map Request.accepted
  nonSpecQueryStartLoc : b.nonSpec ≠ [] →
    m.nonSpecQueryStartLoc = cuSeqlens 0 (rowCounts b.nonSpec)
  nonSpecStateIndices : b.nonSpec ≠ [] →
    m.nonSpecStateIndicesTensor = b.nonSpec.map Request.convSlot
  hasInitialState : b.prefills ≠ [] →
    m.hasInitialState = b.nonSpec.map Request.hasInitialState
  prefillStateIndices : b.prefills ≠ [] →
    m.prefillStateIndices = some ((chunkRequests m b).map Request.convSlot)
  prefillHasInitialState : b.prefills ≠ [] →
    m.prefillHasInitialState =
      some ((chunkRequests m b).map Request.hasInitialState)
  prefillQueryStartLoc : b.prefills ≠ [] →
    m.prefillQueryStartLoc = cuSeqlens 0 (rowCounts (chunkRequests m b))

/-- The per-token arguments have a row for every token. -/
structure Covers (x : Rows Qkv A B) (n : Nat) : Prop where
  mixedQkv : n ≤ x.mixedQkv.length
  a : n ≤ x.a.length
  b : n ≤ x.b.length

/-! ## One request on its own -/

/-- The rows at some positions. -/
def own {α : Type} (xs : List α) (tokens : List Nat) : List α :=
  tokens.filterMap fun i => xs[i]?

variable (K : Kernels Qkv A B ConvState SsmState Out) (x : Rows Qkv A B)
  (c : Buffers ConvState SsmState Out)

/-- The convolution of one request. -/
def convRun (r : Request) : List K.Conved × List ConvState :=
  let xs := own x.mixedQkv r.tokens
  let sts := initialStates K.zeroConv r.hasInitialState [c.convState r.convSlot]
  match r.accepted with
  | some n => K.causalConv1dUpdate (some n) sts xs
  | none => K.causalConv1dFn sts xs

/-- The recurrence of one request, with its gates taken at the positions
`gates`. -/
def deltaRun (r : Request) (gates : List Nat) : List Out × List SsmState :=
  K.fusedSigmoidGatingDeltaRuleUpdate r.accepted
    (initialStates K.zeroSsm r.hasInitialState (r.slots.map c.ssmState))
    ((pairRows (convRun K x c r).1 (own x.a gates) (own x.b gates)).map
      K.recurrentRow)

/-- The requests with the positions of their gates. -/
abbrev Routes := List (Request × List Nat)

/-- Every request with its own gates. -/
def ownRoutes (rs : List Request) : Routes := rs.map fun r => (r, r.tokens)

/-- The buffers after a forward hold what every request computes on its own,
and nothing else has changed. -/
structure Routed (routes : Routes) (res : Buffers ConvState SsmState Out) :
    Prop where
  outputs : Stored (fun p : Request × List Nat => p.1.tokens)
    (fun p => (deltaRun K x c p.1 p.2).1) routes c.coreAttnOut res.coreAttnOut
  convStates : Stored (fun p : Request × List Nat => [p.1.convSlot])
    (fun p => (convRun K x c p.1).2) routes c.convState res.convState
  ssmStates : Stored (fun p : Request × List Nat => p.1.slots)
    (fun p => (deltaRun K x c p.1 p.2).2) routes c.ssmState res.ssmState

/-! ## Gathering rows -/

section Own

variable {α : Type} {xs : List α} {n : Nat} {tokens : List Nat}

private theorem own_cons {i : Nat} (hi : i < xs.length) :
    own xs (i :: tokens) = xs[i] :: own xs tokens := by
  rw [own, List.filterMap_cons, List.getElem?_eq_getElem hi]
  rfl

theorem indexSelect_eq_own (h : ∀ i ∈ tokens, i < xs.length) :
    indexSelect xs tokens = some (own xs tokens) := by
  induction tokens with
  | nil => rfl
  | cons i tokens ih =>
      have hi : i < xs.length := h i List.mem_cons_self
      have hrest := ih fun j hj => h j (List.mem_cons_of_mem _ hj)
      rw [indexSelect] at hrest
      rw [indexSelect, List.mapM_cons, List.getElem?_eq_getElem hi, hrest,
        own_cons hi]
      rfl

theorem length_own (h : ∀ i ∈ tokens, i < xs.length) :
    (own xs tokens).length = tokens.length := by
  induction tokens with
  | nil => rfl
  | cons i tokens ih =>
      have hi : i < xs.length := h i List.mem_cons_self
      have hrest := ih fun j hj => h j (List.mem_cons_of_mem _ hj)
      rw [own_cons hi, List.length_cons, List.length_cons, hrest]

theorem own_range (h : n ≤ xs.length) : own xs (List.range n) = xs.take n := by
  induction n with
  | zero => rfl
  | succ n ih =>
      have hn : n < xs.length := h
      have hrest := ih (Nat.le_of_lt hn)
      rw [own] at hrest
      rw [own, List.range_succ, List.filterMap_append, hrest, List.take_add_one,
        List.filterMap_cons, List.filterMap_nil, List.getElem?_eq_getElem hn]
      rfl

theorem own_take (h : ∀ i ∈ tokens, i < n) :
    own (xs.take n) tokens = own xs tokens := by
  refine List.filterMap_congr fun i hi => ?_
  exact List.getElem?_take_of_lt (h i hi)

theorem own_flatMap {τ : Type} (ps : List τ) (f : τ → List Nat) :
    own xs (ps.flatMap f) = ps.flatMap fun p => own xs (f p) :=
  List.filterMap_flatMap

end Own

/-! ## Consequences of a consistent description -/

variable {m : GDNAttentionMetadata} {b : Batch}

theorem Describes.token_lt (h : Describes m b) {r : Request}
    (hr : r ∈ b.requests) : ∀ i ∈ r.tokens, i < m.numActualTokens := by
  intro i hi
  have hmem : i ∈ b.requests.flatMap Request.tokens :=
    List.mem_flatMap.mpr ⟨r, hr, hi⟩
  exact List.mem_range.mp ((h.wellFormed.partition.mem_iff).mp hmem)

theorem Describes.spec_nil (h : Describes m b)
    (hmasks : m.specSequenceMasks = false) : b.spec = [] := by
  by_contra hne
  have htrue := h.masks hne
  rw [hmasks] at htrue
  cases htrue

theorem Describes.tokens_nodup (h : Describes m b) :
    (b.requests.flatMap Request.tokens).Nodup :=
  (h.wellFormed.partition.nodup_iff).mpr List.nodup_range

theorem mem_requests_of_spec {r : Request} (hr : r ∈ b.spec) :
    r ∈ b.requests := List.mem_append_left _ hr

theorem mem_requests_of_nonSpec {r : Request} (hr : r ∈ b.nonSpec) :
    r ∈ b.requests := List.mem_append_right _ hr

end FlashNext.Ports.GdnRouting
