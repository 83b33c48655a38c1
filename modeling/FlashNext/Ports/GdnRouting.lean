import FlashNext.Verified.Varlen

/-!
# Gated delta net: routing a mixed batch

`_forward_core` splits a batch into speculative-decode requests and the rest,
runs the convolution and the recurrence of each kind with its own kernels and
merges the outputs.  The kernels are not part of this repository.  They are
taken as exact functions of one request: from the states in the request's own
slots and the request's own rows to its output rows and new states.  Every
kernel pairs the `i`-th rows of all per-token arguments it is given.

Tensors are modelled by their rows; the caches and the output buffer are
functions of the slot and of the token.
-/

namespace FlashNext.Ports.GdnRouting

open FlashNext.Verified.Scatter
open FlashNext.Verified.Varlen

/-! ## Kernels -/

/-- The kernels, request by request. -/
structure Kernels (Qkv A B ConvState SsmState Out : Type) where
  /-- A row of `mixed_qkv` after the convolution. -/
  Conved : Type
  /-- The query, key and value of a row. -/
  Heads : Type
  /-- The query, key, value, `g` and `beta` of a row. -/
  Prepared : Type
  zeroConv : ConvState
  zeroSsm : SsmState
  causalConv1dFn : List ConvState → List Qkv → List Conved × List ConvState
  /-- The first argument is `num_accepted_tokens`, if given. -/
  causalConv1dUpdate :
    Option Nat → List ConvState → List Qkv → List Conved × List ConvState
  rearrangeMixedQkv : Conved → Heads
  fusedPostConvPrep : Conved → A → B → Prepared
  chunkGatedDeltaRule : List SsmState → List Prepared → List Out × List SsmState
  fusedSigmoidGatingDeltaRuleUpdate :
    Option Nat → List SsmState → List (Heads × A × B) → List Out × List SsmState
  fusedRecurrentPackedDecode :
    List SsmState → List (Conved × A × B) → List Out × List SsmState

variable {Qkv A B ConvState SsmState Out : Type}

/-- The row as the recurrent kernel reads it. -/
def Kernels.recurrentRow (K : Kernels Qkv A B ConvState SsmState Out)
    (row : K.Conved × A × B) : K.Heads × A × B :=
  (K.rearrangeMixedQkv row.1, row.2)

/-- The row as the chunk kernel reads it. -/
def Kernels.chunkRow (K : Kernels Qkv A B ConvState SsmState Out)
    (row : K.Conved × A × B) : K.Prepared :=
  K.fusedPostConvPrep row.1 row.2.1 row.2.2

/-- The kernels are exact: one row out for every row in, one new state for
every state, and the two convolution kernels, as well as the three recurrence
kernels, compute the same function. -/
structure Kernels.Exact (K : Kernels Qkv A B ConvState SsmState Out) :
    Prop where
  convFn_rows : ∀ sts xs, (K.causalConv1dFn sts xs).1.length = xs.length
  convFn_states : ∀ sts xs, (K.causalConv1dFn sts xs).2.length = sts.length
  convUpdate_rows : ∀ acc sts xs,
    (K.causalConv1dUpdate acc sts xs).1.length = xs.length
  convUpdate_states : ∀ acc sts xs,
    (K.causalConv1dUpdate acc sts xs).2.length = sts.length
  recurrent_rows : ∀ acc sts xs,
    (K.fusedSigmoidGatingDeltaRuleUpdate acc sts xs).1.length = xs.length
  recurrent_states : ∀ acc sts xs,
    (K.fusedSigmoidGatingDeltaRuleUpdate acc sts xs).2.length = sts.length
  convUpdate_eq : ∀ sts x,
    K.causalConv1dUpdate none sts [x] = K.causalConv1dFn sts [x]
  chunk_eq : ∀ sts (xs : List (K.Conved × A × B)),
    K.chunkGatedDeltaRule sts (xs.map K.chunkRow) =
      K.fusedSigmoidGatingDeltaRuleUpdate none sts (xs.map K.recurrentRow)
  packed_eq : ∀ sts (x : K.Conved × A × B),
    K.fusedRecurrentPackedDecode sts [x] =
      K.fusedSigmoidGatingDeltaRuleUpdate none sts [K.recurrentRow x]

/-! ## Metadata and tensors -/

/-- `GDNAttentionMetadata`, as far as the routing reads it. -/
structure GDNAttentionMetadata where
  numPrefills : Nat
  numDecodes : Nat
  numDecodeTokens : Nat
  numSpecDecodes : Nat
  numActualTokens : Nat
  hasInitialState : List Bool
  specQueryStartLoc : List Nat
  nonSpecQueryStartLoc : List Nat
  /-- `spec_sequence_masks is not None`. -/
  specSequenceMasks : Bool
  specTokenIndx : List Nat
  nonSpecTokenIndx : List Nat
  specStateIndicesTensor : List (List Nat)
  nonSpecStateIndicesTensor : List Nat
  numAcceptedTokens : List Nat
  prefillStateIndices : Option (List Nat)
  prefillHasInitialState : Option (List Bool)
  prefillQueryStartLoc : List Nat

/-- The per-token arguments. -/
structure Rows (Qkv A B : Type) where
  mixedQkv : List Qkv
  a : List A
  b : List B

/-- The two caches of the layer and `core_attn_out`. -/
structure Buffers (ConvState SsmState Out : Type) where
  convState : Nat → ConvState
  ssmState : Nat → SsmState
  coreAttnOut : Nat → Out

/-- The slices `[:n]`. -/
def Rows.take (x : Rows Qkv A B) (n : Nat) : Rows Qkv A B :=
  ⟨x.mixedQkv.take n, x.a.take n, x.b.take n⟩

/-- `xs.index_select(0, idx)`; an index out of range raises. -/
def indexSelect {α : Type} (xs : List α) (idx : List Nat) : Option (List α) :=
  idx.mapM fun i => xs[i]?

/-- Pairing the `i`-th rows of three arguments. -/
def pairRows {α : Type} (xs : List α) (a : List A) (b : List B) :
    List (α × A × B) :=
  xs.zip (a.zip b)

variable (K : Kernels Qkv A B ConvState SsmState Out)
  (m : GDNAttentionMetadata)

/-! ## Convolution -/

/-- The rows of the speculative requests and the `mixed_qkv` rows of the
others. -/
def splitTokens (x : Rows Qkv A B) :
    Option (Option (Rows Qkv A B) × Option (List Qkv)) :=
  if m.specSequenceMasks then
    if m.numPrefills = 0 ∧ m.numDecodes = 0 then some (some x, none)
    else do
      let mixedQkvSpec ← indexSelect x.mixedQkv m.specTokenIndx
      let aSpec ← indexSelect x.a m.specTokenIndx
      let bSpec ← indexSelect x.b m.specTokenIndx
      let mixedQkvNonSpec ← indexSelect x.mixedQkv m.nonSpecTokenIndx
      some (some ⟨mixedQkvSpec, aSpec, bSpec⟩, some mixedQkvNonSpec)
  else some (none, some x.mixedQkv)

/-- 1.1: the multi-query part. -/
def convSpec (spec : Option (Rows Qkv A B)) (convState : Nat → ConvState) :
    Option (List K.Conved) × (Nat → ConvState) :=
  match spec with
  | none => (none, convState)
  | some spec =>
      let indices :=
        (m.specStateIndicesTensor.map (·.headD 0)).take m.numSpecDecodes
      let out := varlen (fun acc sts xs => K.causalConv1dUpdate (some acc) sts xs)
        (m.numAcceptedTokens.zip (indices.map fun i => [i]))
        (segments m.specQueryStartLoc spec.mixedQkv) convState
      (some out.1, out.2)

/-- The states a prefill starts from. -/
def initialStates {σ : Type} (zero : σ) (has : Bool) (sts : List σ) : List σ :=
  if has then sts else sts.map fun _ => zero

/-- 1.2: the remaining part; `none` where an assertion fails. -/
def convNonSpec (mixedQkv : Option (List Qkv)) (convState : Nat → ConvState) :
    Option (Option (List K.Conved) × (Nat → ConvState)) :=
  if 0 < m.numPrefills then do
    let mixedQkv ← mixedQkv
    let out := varlen
      (fun has sts xs => K.causalConv1dFn (initialStates K.zeroConv has sts) xs)
      (m.hasInitialState.zip (m.nonSpecStateIndicesTensor.map fun i => [i]))
      (segments m.nonSpecQueryStartLoc mixedQkv) convState
    some (some out.1, out.2)
  else if 0 < m.numDecodes then do
    let mixedQkv ← mixedQkv
    let indices := m.nonSpecStateIndicesTensor.take m.numActualTokens
    let out := varlen (fun acc sts xs => K.causalConv1dUpdate acc sts xs)
      (indices.map fun i => (none, [i])) (mixedQkv.map fun x => [x]) convState
    some (some out.1, out.2)
  else some (none, convState)

/-! ## Recurrence -/

/-- `fused_sigmoid_gating_delta_rule_update` on the rows it is given. -/
def recurrentUpdate (reqs : List (Option Nat × List Nat)) (cuSeqlens : List Nat)
    (conved : List K.Conved) (a : List A) (b : List B)
    (ssmState : Nat → SsmState) : List Out × (Nat → SsmState) :=
  varlen (fun acc sts xs => K.fusedSigmoidGatingDeltaRuleUpdate acc sts xs) reqs
    (segments cuSeqlens ((pairRows conved a b).map K.recurrentRow)) ssmState

/-- 2.1: the multi-query part. -/
def recurrentSpec (spec : Option (Rows Qkv A B)) (conved : Option (List K.Conved))
    (ssmState : Nat → SsmState) : Option (List Out) × (Nat → SsmState) :=
  match spec, conved with
  | some spec, some conved =>
      let out := recurrentUpdate K
        ((m.numAcceptedTokens.map some).zip m.specStateIndicesTensor)
        (m.specQueryStartLoc.take (m.numSpecDecodes + 1)) conved spec.a spec.b
        ssmState
      (some out.1, out.2)
  | _, _ => (none, ssmState)

/-- 2.2 and the decode-only part of 2.3: one-token decodes. -/
def recurrentDecode (conved : List K.Conved) (a : List A) (b : List B)
    (ssmState : Nat → SsmState) : List Out × (Nat → SsmState) :=
  recurrentUpdate K (m.nonSpecStateIndicesTensor.map fun i => (none, [i]))
    (m.nonSpecQueryStartLoc.take (m.numDecodes + 1)) conved a b ssmState

/-- 2.3: the prefill chunk. -/
def chunkPrefill (conved : List K.Conved) (a : List A) (b : List B)
    (ssmState : Nat → SsmState) : Option (List Out × (Nat → SsmState)) := do
  let prefillStateIndices ← m.prefillStateIndices
  let prefillHasInitialState ← m.prefillHasInitialState
  let prepared := (pairRows conved a b).map K.chunkRow
  some (varlen
    (fun has sts xs =>
      K.chunkGatedDeltaRule (initialStates K.zeroSsm has sts) xs)
    (prefillHasInitialState.zip (prefillStateIndices.map fun i => [i]))
    (segments m.prefillQueryStartLoc prepared) ssmState)

/-- `a_non_spec` and `b_non_spec` of the prefill path. -/
def gatesNonSpec (x : Rows Qkv A B) : Option (List A × List B) :=
  if m.specSequenceMasks then do
    let a ← indexSelect x.a m.nonSpecTokenIndx
    let b ← indexSelect x.b m.nonSpecTokenIndx
    some (a, b)
  else some (x.a, x.b)

/-- `split_non_spec`: decodes are peeled off the prefills. -/
def splitNonSpec : Bool :=
  !m.specSequenceMasks && decide (0 < m.numPrefills) && decide (0 < m.numDecodes)

/-- 2.2 and 2.3. -/
def recurrentNonSpec (x : Rows Qkv A B) (conved : Option (List K.Conved))
    (ssmState : Nat → SsmState) :
    Option (Option (List Out) × (Nat → SsmState)) :=
  if 0 < m.numPrefills then do
    let conved ← conved
    let (a, b) ← gatesNonSpec m x
    if splitNonSpec m then
      let n := m.numDecodeTokens
      let decode := recurrentDecode K m (conved.take n) (x.a.take n) (x.b.take n)
        ssmState
      let prefill ← chunkPrefill K m (conved.drop n) (a.drop n) (b.drop n)
        decode.2
      some (some (decode.1 ++ prefill.1), prefill.2)
    else
      let prefill ← chunkPrefill K m conved a b ssmState
      some (some prefill.1, prefill.2)
  else if 0 < m.numDecodes then do
    let conved ← conved
    -- The gates of the whole batch, also when the rows were gathered.
    let decode := recurrentDecode K m conved x.a x.b ssmState
    some (some decode.1, decode.2)
  else some (none, ssmState)

/-! ## Merging the outputs -/

/-- 3; `uninit` is what `torch.empty` returns.  With neither output the code
dereferences `None`. -/
def mergeOutputs (uninit : Nat → Out) (spec nonSpec : Option (List Out))
    (coreAttnOut : Nat → Out) : Option (Nat → Out) :=
  match spec, nonSpec with
  | some spec, some nonSpec =>
      let mergedOut :=
        put m.nonSpecTokenIndx nonSpec (put m.specTokenIndx spec uninit)
      some fun t => if t < m.numActualTokens then mergedOut t else coreAttnOut t
  | some spec, none => some (put (List.range m.numActualTokens) spec coreAttnOut)
  | none, some nonSpec =>
      some (put (List.range m.numActualTokens) nonSpec coreAttnOut)
  | none, none => none

/-! ## The two forwards -/

/-- `_forward_core_decode_non_spec`. -/
def forwardCoreDecodeNonSpec (x : Rows Qkv A B)
    (c : Buffers ConvState SsmState Out) : Buffers ConvState SsmState Out :=
  let x := x.take m.numActualTokens
  let indices := m.nonSpecStateIndicesTensor.take m.numActualTokens
  let conv := varlen (fun acc sts xs => K.causalConv1dUpdate acc sts xs)
    (indices.map fun i => (none, [i])) (x.mixedQkv.map fun x => [x]) c.convState
  let out := varlen (fun () sts xs => K.fusedRecurrentPackedDecode sts xs)
    (indices.map fun i => ((), [i]))
    ((pairRows conv.1 x.a x.b).map fun x => [x]) c.ssmState
  { convState := conv.2
    ssmState := out.2
    coreAttnOut := put (List.range m.numActualTokens) out.1 c.coreAttnOut }

/-- `_forward_core`, behind the packed fast path. -/
def forwardCoreMixed (uninit : Nat → Out) (x : Rows Qkv A B)
    (c : Buffers ConvState SsmState Out) :
    Option (Buffers ConvState SsmState Out) := do
  let x := x.take m.numActualTokens
  let tokens ← splitTokens m x
  let spec := convSpec K m tokens.1 c.convState
  let nonSpec ← convNonSpec K m tokens.2 spec.2
  let outSpec := recurrentSpec K m tokens.1 spec.1 c.ssmState
  let outNonSpec ← recurrentNonSpec K m x nonSpec.1 outSpec.2
  let coreAttnOut ← mergeOutputs m uninit outSpec.1 outNonSpec.1 c.coreAttnOut
  some ⟨nonSpec.2, outNonSpec.2, coreAttnOut⟩

/-- `_forward_core`. -/
def forwardCore (enablePackedRecurrentDecode : Bool) (uninit : Nat → Out)
    (x : Rows Qkv A B) (c : Buffers ConvState SsmState Out) :
    Option (Buffers ConvState SsmState Out) :=
  if enablePackedRecurrentDecode ∧ ¬ m.specSequenceMasks ∧
      m.numPrefills = 0 ∧ 0 < m.numDecodes then
    some (forwardCoreDecodeNonSpec K m x c)
  else forwardCoreMixed K m uninit x c

end FlashNext.Ports.GdnRouting
