import FlashNext.Ports.MoeFusedExact

/-!
# The scratch buffers of the fused MoE layer

A layer keeps the output of the first launch and the input of the second from
call to call.  A call on these buffers is compared with the same call on fresh
zeroed tensors of its own shapes.
-/

namespace FlashNext.Ports.MoeGemm

open FlashNext.Verified.CasAdd FlashNext.Verified.GridSums
open FlashNext.Verified.RowMajor (flat_lt forall_flat)

variable {R : Type*} [Field R]

/-! ## The same to a reader -/

def Tensor2.SameShape (x y : Tensor2 R) : Prop := x.size0 = y.size0 ∧ x.size1 = y.size1

/-- The same shape and the same elements, whatever is in the storage past them. -/
def Tensor2.Same (x y : Tensor2 R) : Prop :=
  x.SameShape y ∧ ∀ i < x.numel, x.data i = y.data i

def SameOutcome : Except String (Tensor2 R) → Except String (Tensor2 R) → Prop
  | .ok x, .ok y => x.Same y
  | .error message, .error message' => message = message'
  | _, _ => False

/-- The same elements of a tensor of `numel`, or the same error. -/
def SameWrites (numel : Nat) : Except String (Nat → R) → Except String (Nat → R) → Prop
  | .ok data, .ok data' => ∀ i < numel, data i = data' i
  | .error message, .error message' => message = message'
  | _, _ => False

/-- An activation reads the elements of its input and the shapes, and writes
every element of its output. -/
def MoeSystem.Lawful (sys : MoeSystem R) : Prop :=
  ∀ activation (out out' input input' : Tensor2 R), out.SameShape out' → input.Same input' →
    SameWrites out.numel (sys.applyMoeActivation activation out input)
      (sys.applyMoeActivation activation out' input')

/-! ## Buffers -/

/-- The buffers that `process_weights_after_loading` allocates. -/
def preallocate (w13 w2 : ExpertWeights R) (expertMap : Option (Nat → Int))
    (empty : Nat → R) : MoeLayer R :=
  let nGateUp := w13.weightPacked.size2
  let intermediate := nGateUp / 2
  let maxDecodeTokens := 16
  let topK := 8
  let bufSize := maxDecodeTokens * topK
  { w13 := w13
    w2 := w2
    rdna2W1Buf := torchZeros R bufSize nGateUp
    rdna2ActBuf := ⟨bufSize, intermediate, empty⟩
    expertMap := expertMap }

variable {sys : MoeSystem R}

/-- Fresh zeroed tensors of the shapes of a call. -/
def freshScratch (layer : MoeLayer R) (x : FusedInput sys) : Scratch R where
  w1Out := torchZeros R x.totalTokens (nGateUp layer)
  actOut := torchZeros R x.totalTokens (intermediateSize layer x)

/-- The buffers of the layer do not show in a call. -/
structure Invisible (layer : MoeLayer R) (x : FusedInput sys) : Prop where
  shapes : ∀ empty, (scratch layer x empty).w1Out.SameShape (freshScratch layer x).w1Out ∧
    (scratch layer x empty).actOut.SameShape (freshScratch layer x).actOut
  output : ∀ r r', Rdna2FusedMoe layer x r →
    FusedMoeOn layer x x.blockSizeM (freshScratch layer x) r' → SameOutcome r.out r'.out

/-- One call takes the layer to its next state. -/
def Serves (sys : MoeSystem R) (layer layer' : MoeLayer R) : Prop :=
  ∃ (x : FusedInput sys) (r : FusedRun R), Rdna2FusedMoe layer x r ∧ layer' = layer.keep x r

/-- The layer after any calls. -/
def Reachable (sys : MoeSystem R) (start layer : MoeLayer R) : Prop :=
  Relation.ReflTransGen (Serves sys) start layer

/-- A call whose inputs fit the weights. -/
structure FusedInput.Fits (x : FusedInput sys) (layer : MoeLayer R) : Prop where
  topK_pos : 0 < x.topK
  w13 : layer.w13.Shaped x.hiddenStates.size1
  w2 : layer.w2.Shaped (intermediateSize layer x)

/-! ## What calls keep -/

omit [Field R] in
theorem keep_weights (layer : MoeLayer R) (x : FusedInput sys) (r : FusedRun R) :
    (layer.keep x r).rdna2W1Buf.size0 = layer.rdna2W1Buf.size0 ∧
      (layer.Prepared → (layer.keep x r).Prepared) := by
  unfold MoeLayer.keep
  split
  · exact ⟨rfl, fun h => ⟨h.w1Cols, h.actRows, h.actCols⟩⟩
  · exact ⟨rfl, fun h => h⟩

omit [Field R] in
/-- Calls keep the weights. -/
theorem FusedInput.Fits.keep {layer : MoeLayer R} {x : FusedInput sys} (h : x.Fits layer)
    (y : FusedInput sys) (r : FusedRun R) : x.Fits (layer.keep y r) := by
  unfold MoeLayer.keep
  split
  · exact ⟨h.topK_pos, h.w13, h.w2⟩
  · exact h

/-- Calls keep the shapes of the buffers. -/
theorem Reachable.prepared {w13 w2 : ExpertWeights R} {expertMap : Option (Nat → Int)}
    {empty : Nat → R} {layer : MoeLayer R}
    (h : Reachable sys (preallocate w13 w2 expertMap empty) layer) :
    layer.Prepared ∧ layer.rdna2W1Buf.size0 = 16 * 8 := by
  induction h with
  | refl => exact ⟨⟨rfl, rfl, rfl⟩, rfl⟩
  | @tail before after _ hcall ih =>
      obtain ⟨x, r, -, rfl⟩ := hcall
      have hkeep := keep_weights before x r
      exact ⟨hkeep.2 ih.1, hkeep.1.trans ih.2⟩

/-! ## A launch reads its input and adds to its output -/

section Launches

variable {a a' : Tensor2 R} {w : ExpertWeights R} {topkWeights : Tensor2 R} {al : Alignment}
  {topK blockSizeM outputTopk : Nat} {mul : Bool}

/-- A position reads elements of the input only. -/
theorem slotTerm_congr (ha : a.Same a') (row col p : Nat) :
    slotTerm (gemmArgs a w.weightPacked w.weightScale w.qzeros topkWeights al topK blockSizeM mul
        outputTopk) row col p (Finset.range a.size1) =
      slotTerm (gemmArgs a' w.weightPacked w.weightScale w.qzeros topkWeights al topK blockSizeM
        mul outputTopk) row col p (Finset.range a'.size1) := by
  obtain ⟨size0, size1, data⟩ := a
  obtain ⟨size0', size1', data'⟩ := a'
  obtain ⟨⟨hsize0, hsize1⟩, hdata⟩ := ha
  dsimp only at hsize0 hsize1
  subst hsize0 hsize1
  unfold slotTerm
  dsimp only
  by_cases hslot : LivePosition (gemmArgs ⟨size0, size1, data⟩ w.weightPacked w.weightScale
      w.qzeros topkWeights al topK blockSizeM mul outputTopk) p ∧
      al.sortedTokenIds p / topK < size0 ∧
      outRow (gemmArgs ⟨size0, size1, data⟩ w.weightPacked w.weightScale w.qzeros topkWeights al
        topK blockSizeM mul outputTopk) (al.sortedTokenIds p) = row
  · refine (if_pos hslot).trans (Eq.trans ?_ (if_pos hslot).symm)
    refine congrArg (· * _) (Finset.sum_congr rfl fun k hk => congrArg (· * _) ?_)
    exact hdata _ (flat_lt hslot.2.1 (Finset.mem_range.mp hk))
  · exact (if_neg hslot).trans (if_neg hslot).symm

/-- Launches that differ in the storage past their tensors, or in the order of
their additions, leave the same elements. -/
theorem gemm_congr [CharZero R] (ha : a.Same a') (hw : w.Shaped a.size1) (htopK : 0 < topK)
    {c c' d d' : Nat → R}
    (hc : Gemm (gemmArgs a w.weightPacked w.weightScale w.qzeros topkWeights al topK blockSizeM
      mul outputTopk) al.sortedSize c c')
    (hd : Gemm (gemmArgs a' w.weightPacked w.weightScale w.qzeros topkWeights al topK blockSizeM
      mul outputTopk) al.sortedSize d d') {rows : Nat}
    (hstart : ∀ i < rows * w.weightPacked.size2, c i = d i) :
    ∀ i < rows * w.weightPacked.size2, c' i = d' i := by
  have hw' : w.Shaped a'.size1 := ha.1.2 ▸ hw
  obtain ⟨lds, hrun⟩ := hc.completes
  obtain ⟨lds', hrun'⟩ := hd.completes
  intro i hi
  apply forall_flat _ hi
  intro row hrow col hcol
  have hin : row * w.weightPacked.size2 + col < rows * w.weightPacked.size2 := flat_lt hrow hcol
  have hleft := launch_run (hw.sized htopK) hrun row hcol
  have hright := launch_run (hw'.sized htopK) hrun' row hcol
  refine hleft.trans (Eq.trans ?_ hright.symm)
  exact congrArg₂ (· + ·) (hstart _ hin)
    (Finset.sum_congr rfl fun p _ => slotTerm_congr ha row col p)

end Launches

/-! ## A call -/

variable {layer : MoeLayer R} {x : FusedInput sys}

/-- Calls on zeroed buffers of the same shapes have the same outcome. -/
theorem fusedMoeOn_congr [CharZero R] (hsys : sys.Lawful) (hfit : x.Fits layer)
    {s s' : Scratch R} (hw1 : s.w1Out.SameShape s'.w1Out) (hact : s.actOut.SameShape s'.actOut)
    (hcols : s.w1Out.numel = x.totalTokens * nGateUp layer)
    (hwidth : s.actOut.size1 = intermediateSize layer x)
    (hzero : ∀ i < x.totalTokens * nGateUp layer, s.w1Out.data i = s'.w1Out.data i)
    {blockSizeM : Nat} {r r' : FusedRun R} (hr : FusedMoeOn layer x blockSizeM s r)
    (hr' : FusedMoeOn layer x blockSizeM s' r') : SameOutcome r.out r'.out := by
  have hhidden : x.hiddenStates.Same x.hiddenStates := ⟨⟨rfl, rfl⟩, fun _ _ => rfl⟩
  have hinput : ∀ {w1 w1' : Nat → R},
      Gemm (w1Args layer x blockSizeM) (routing layer x blockSizeM).sortedSize s.w1Out.data w1 →
      Gemm (w1Args layer x blockSizeM) (routing layer x blockSizeM).sortedSize s'.w1Out.data w1' →
      ({ s.w1Out with data := w1 } : Tensor2 R).Same { s'.w1Out with data := w1' } := by
    intro w1 w1' hrun hrun'
    refine ⟨hw1, fun i hi => ?_⟩
    exact gemm_congr hhidden hfit.w13 hfit.topK_pos hrun hrun' hzero i
      (Nat.lt_of_lt_of_eq hi hcols)
  cases hr with
  | @ok w1 act out hrun hdone hlast =>
      cases hr' with
      | @ok w1' act' out' hrun' hdone' hlast' =>
          have hlaw := hsys x.activation _ _ _ _ hact (hinput hrun hrun')
          rw [hdone, hdone'] at hlaw
          have hsame : ({ s.actOut with data := act } : Tensor2 R).Same
              { s'.actOut with data := act' } := ⟨hact, hlaw⟩
          have hshaped : layer.w2.Shaped ({ s.actOut with data := act } : Tensor2 R).size1 := by
            show layer.w2.Shaped s.actOut.size1
            rw [hwidth]
            exact hfit.w2
          exact ⟨⟨rfl, rfl⟩,
            gemm_congr hsame hshaped Nat.one_pos hlast hlast' fun _ _ => rfl⟩
      | @error w1' act' message hrun' hdone' =>
          have hlaw := hsys x.activation _ _ _ _ hact (hinput hrun hrun')
          rw [hdone, hdone'] at hlaw
          exact hlaw
  | @error w1 act message hrun hdone =>
      cases hr' with
      | @ok w1' act' out' hrun' hdone' hlast' =>
          have hlaw := hsys x.activation _ _ _ _ hact (hinput hrun hrun')
          rw [hdone, hdone'] at hlaw
          exact hlaw
      | @error w1' act' message' hrun' hdone' =>
          have hlaw := hsys x.activation _ _ _ _ hact (hinput hrun hrun')
          rw [hdone, hdone'] at hlaw
          exact hlaw

/-- The shapes agree when the activation is gated or the batch is too large
for the buffers. -/
theorem scratch_shapes_iff (hprepared : layer.Prepared)
    (hsize : layer.rdna2W1Buf.size0 = 16 * 8) (empty : Nat → R) :
    ((scratch layer x empty).w1Out.SameShape (freshScratch layer x).w1Out ∧
      (scratch layer x empty).actOut.SameShape (freshScratch layer x).actOut) ↔
      sys.isGated x.activation ∨ 16 * 8 < x.totalTokens ∨ nGateUp layer = 0 := by
  by_cases hsmall : x.totalTokens ≤ layer.rdna2W1Buf.size0
  · have hscratch : scratch layer x empty =
        { w1Out := (layer.rdna2W1Buf.takeRows x.totalTokens).zero
          actOut := layer.rdna2ActBuf.takeRows x.totalTokens } := if_pos hsmall
    have hw1 : (scratch layer x empty).w1Out.SameShape (freshScratch layer x).w1Out := by
      rw [hscratch]
      exact ⟨Nat.min_eq_left hsmall, hprepared.w1Cols⟩
    have hrows : (scratch layer x empty).actOut.size0 = x.totalTokens := by
      rw [hscratch]
      show min x.totalTokens layer.rdna2ActBuf.size0 = _
      rw [hprepared.actRows, Nat.min_eq_left hsmall]
    have hcols : (scratch layer x empty).actOut.size1 = nGateUp layer / 2 := by
      rw [hscratch]
      exact hprepared.actCols
    have hfresh : (freshScratch layer x).actOut.size1 =
        if sys.isGated x.activation then nGateUp layer / 2 else nGateUp layer := rfl
    constructor
    · intro hshapes
      have hwidth := hshapes.2.2
      rw [hcols, hfresh] at hwidth
      by_cases hgated : sys.isGated x.activation
      · exact Or.inl hgated
      · rw [if_neg hgated] at hwidth
        exact Or.inr (Or.inr (by omega))
    · intro hcond
      refine ⟨hw1, hrows, ?_⟩
      rw [hcols, hfresh]
      by_cases hgated : sys.isGated x.activation
      · rw [if_pos hgated]
      · rw [if_neg hgated]
        rcases hcond with hyes | hlarge | hnone
        · exact absurd hyes hgated
        · omega
        · rw [hnone]
  · have hscratch : scratch layer x empty =
        { w1Out := torchZeros R x.totalTokens (nGateUp layer)
          actOut := ⟨x.totalTokens, intermediateSize layer x, empty⟩ } := if_neg hsmall
    rw [hscratch]
    exact ⟨fun _ => Or.inr (Or.inl (by omega)), fun _ => ⟨⟨rfl, rfl⟩, rfl, rfl⟩⟩

/-- After any calls, the buffers do not show in the next call exactly when its
activation is gated or its batch is too large for them. -/
theorem invisible_iff [CharZero R] (hsys : sys.Lawful) {w13 w2 : ExpertWeights R}
    {expertMap : Option (Nat → Int)} {empty : Nat → R}
    (hreach : Reachable sys (preallocate w13 w2 expertMap empty) layer) (hfit : x.Fits layer) :
    Invisible layer x ↔
      sys.isGated x.activation ∨ 16 * 8 < x.totalTokens ∨ nGateUp layer = 0 := by
  obtain ⟨hprepared, hsize⟩ := hreach.prepared
  constructor
  · intro h
    exact (scratch_shapes_iff hprepared hsize empty).mp (h.shapes empty)
  · intro hcond
    have hshapes := fun e => (scratch_shapes_iff hprepared hsize e).mpr hcond
    refine ⟨hshapes, ?_⟩
    intro r r' hr hr'
    obtain ⟨e, hr⟩ := hr
    have hw1 := (hshapes e).1
    apply fusedMoeOn_congr hsys hfit hw1 (hshapes e).2 _ (hshapes e).2.2 _ hr hr'
    · show (scratch layer x e).w1Out.size0 * (scratch layer x e).w1Out.size1 = _
      rw [hw1.1, hw1.2]
      rfl
    · exact (scratch_fits hprepared e).zeroed

/-! ## A gated and a plain activation -/

inductive SampleActivation where
  | silu
  | relu2NoMul

/-- The squared ReLU, with the check of its shapes. -/
noncomputable def reluSquared (output input : Tensor2 ℝ) : Except String (Nat → ℝ) :=
  if output.size0 = input.size0 ∧ output.size1 = input.size1 then
    .ok fun i => max (input.data i) 0 * max (input.data i) 0
  else .error "shape mismatch"

noncomputable def sampleSystem : MoeSystem ℝ where
  Activation := SampleActivation
  isGated := fun
    | .silu => true
    | .relu2NoMul => false
  applyMoeActivation := fun
    | .silu => siluAndMul
    | .relu2NoMul => reluSquared
  moeAlignBlockSize := sampleAlign

theorem apply_relu2NoMul (output input : Tensor2 ℝ) :
    sampleSystem.applyMoeActivation .relu2NoMul output input = reluSquared output input := rfl

theorem siluAndMul_lawful {out out' input input' : Tensor2 ℝ} (hout : out.SameShape out')
    (hinput : input.Same input') :
    SameWrites out.numel (siluAndMul out input) (siluAndMul out' input') := by
  unfold siluAndMul
  rw [← hout.1, ← hout.2, ← hinput.1.1, ← hinput.1.2]
  by_cases hshape : out.size0 = input.size0 ∧ out.size1 * 2 = input.size1
  · rw [if_pos hshape, if_pos hshape]
    intro i hi
    have hwidth : 0 < out.size1 := Nat.pos_of_mul_pos_left (Nat.zero_lt_of_lt hi)
    have hrow : i / out.size1 < out.size0 := (Nat.div_lt_iff_lt_mul hwidth).mpr hi
    have hcol := Nat.mod_lt i hwidth
    have hmul := Nat.mul_le_mul_right input.size1 hrow
    rw [Nat.succ_mul] at hmul
    have hnumel : input.numel = out.size0 * input.size1 := by
      rw [hshape.1]
      rfl
    have hgate := hinput.2 (i / out.size1 * input.size1 + i % out.size1) (by omega)
    have hup := hinput.2 (i / out.size1 * input.size1 + out.size1 + i % out.size1) (by omega)
    dsimp only
    rw [hgate, hup]
  · rw [if_neg hshape, if_neg hshape]
    rfl

theorem reluSquared_lawful {out out' input input' : Tensor2 ℝ} (hout : out.SameShape out')
    (hinput : input.Same input') :
    SameWrites out.numel (reluSquared out input) (reluSquared out' input') := by
  unfold reluSquared
  rw [← hout.1, ← hout.2, ← hinput.1.1, ← hinput.1.2]
  by_cases hshape : out.size0 = input.size0 ∧ out.size1 = input.size1
  · rw [if_pos hshape, if_pos hshape]
    intro i hi
    have hnumel : out.numel = input.numel := congrArg₂ (· * ·) hshape.1 hshape.2
    dsimp only
    rw [hinput.2 i (Nat.lt_of_lt_of_eq hi hnumel)]
  · rw [if_neg hshape, if_neg hshape]
    rfl

theorem sampleSystem_lawful : sampleSystem.Lawful
  | .silu, _, _, _, _, hout, hinput => siluAndMul_lawful hout hinput
  | .relu2NoMul, _, _, _, _, hout, hinput => reluSquared_lawful hout hinput

def sampleW13 : ExpertWeights ℝ :=
  ⟨⟨2, 4, 64, fun i => 0x76543210 + i⟩, ⟨2, 1, 64, fun _ => 1⟩, ⟨2, 1, 8, fun i => i⟩⟩

/-- The second product after a gated activation. -/
def gatedW2 : ExpertWeights ℝ :=
  ⟨⟨2, 4, 8, fun i => 0x89ABCDEF + i⟩, ⟨2, 1, 8, fun _ => 1⟩, ⟨2, 1, 1, fun i => i⟩⟩

/-- The second product after a plain activation. -/
def plainW2 : ExpertWeights ℝ :=
  ⟨⟨2, 8, 8, fun i => 0x89ABCDEF + i⟩, ⟨2, 1, 8, fun _ => 1⟩, ⟨2, 1, 1, fun i => i⟩⟩

def sampleInput (activation : SampleActivation) : FusedInput sampleSystem where
  hiddenStates := ⟨2, 32, fun i => i⟩
  topkWeights := ⟨2, 2, fun _ => 1⟩
  topkIds := ⟨2, 2, fun t => [0, 1, 1, 0].getD t 0⟩
  activation := activation
  applyRouterWeightOnInput := false
  globalNumExperts := 2

/-- The buffers do not show after another call. -/
theorem invisible_iff_silu : ∃ r,
    Rdna2FusedMoe (preallocate sampleW13 gatedW2 none fun _ => 6) (sampleInput .silu) r ∧
      Invisible ((preallocate sampleW13 gatedW2 none fun _ => 6).keep (sampleInput .silu) r)
        (sampleInput .silu) := by
  obtain ⟨r, hr⟩ := @exists_fusedMoeOn ℝ _ sampleSystem
    (preallocate sampleW13 gatedW2 none fun _ => 6) (sampleInput .silu) 1 (by decide)
    (scratch (preallocate sampleW13 gatedW2 none fun _ => 6) (sampleInput .silu) fun _ => 0)
  have hcall : Rdna2FusedMoe (preallocate sampleW13 gatedW2 none fun _ => 6) (sampleInput .silu)
      r := ⟨_, hr⟩
  have hfit : (sampleInput .silu).Fits (preallocate sampleW13 gatedW2 none fun _ => 6) :=
    ⟨by decide, ⟨rfl, rfl, rfl, rfl, by decide⟩, ⟨rfl, rfl, rfl, rfl, by decide⟩⟩
  have hreach : Reachable sampleSystem (preallocate sampleW13 gatedW2 none fun _ => 6)
      ((preallocate sampleW13 gatedW2 none fun _ => 6).keep (sampleInput .silu) r) :=
    Relation.ReflTransGen.single ⟨_, r, hcall, rfl⟩
  exact ⟨r, hcall,
    (invisible_iff sampleSystem_lawful hreach (hfit.keep _ r)).mpr (Or.inl rfl)⟩

theorem reluSquared_error {output input : Tensor2 ℝ} (h : output.size1 ≠ input.size1) :
    reluSquared output input = .error "shape mismatch" :=
  if_neg fun hshape => h hshape.2

theorem reluSquared_ok {output input : Tensor2 ℝ} (h : output.SameShape input) :
    reluSquared output input = .ok fun i => max (input.data i) 0 * max (input.data i) 0 :=
  if_pos h

/-- The first call with a plain activation fails on the buffers, not on fresh
tensors. -/
theorem plain_activation_visible :
    ¬ Invisible (preallocate sampleW13 plainW2 none fun _ => 6) (sampleInput .relu2NoMul) := by
  intro h
  obtain ⟨r, hr⟩ := @exists_fusedMoeOn ℝ _ sampleSystem
    (preallocate sampleW13 plainW2 none fun _ => 6) (sampleInput .relu2NoMul) 1 (by decide)
    (scratch (preallocate sampleW13 plainW2 none fun _ => 6) (sampleInput .relu2NoMul) fun _ => 0)
  obtain ⟨r', hr'⟩ := @exists_fusedMoeOn ℝ _ sampleSystem
    (preallocate sampleW13 plainW2 none fun _ => 6) (sampleInput .relu2NoMul) 1 (by decide)
    (freshScratch (preallocate sampleW13 plainW2 none fun _ => 6) (sampleInput .relu2NoMul))
  have hsame := h.output r r' ⟨_, hr⟩ hr'
  cases hr with
  | ok _ hdone _ =>
      have hbuffers := (apply_relu2NoMul _ _).symm.trans hdone
      rw [reluSquared_error] at hbuffers
      · cases hbuffers
      · show (32 : Nat) ≠ 64
        decide
  | error _ _ =>
      cases hr' with
      | ok _ _ _ => exact hsame
      | error _ hfail =>
          have hfresh := (apply_relu2NoMul _ _).symm.trans hfail
          rw [reluSquared_ok] at hfresh
          · cases hfresh
          · exact ⟨rfl, rfl⟩

end FlashNext.Ports.MoeGemm
