import FlashNext.Ports.MoeFused
import FlashNext.Verified.RowMajor
import Mathlib.Analysis.Complex.Exponential

/-!
# The fused MoE GEMM is the reference

With an alignment that lists every slot of a mapped expert once, in a block of
its expert, both launches leave exactly the sums of the reference, in any order
of their additions.
-/

namespace FlashNext.Ports.MoeGemm

open FlashNext.Verified.CasAdd FlashNext.Verified.GridSums
open FlashNext.Verified.RowMajor (flat_lt)

variable {R : Type*} [Field R]

/-! ## What the caller expects of an alignment -/

/-- The entry of `expert_ids` for an expert, or for one that is elsewhere. -/
def expertCode : Option Nat → Int
  | none => -1
  | some e => e

/-- Every slot with an expert is at one position, in a block of its expert; the
other ids of these blocks are past the slots. -/
structure Alignment.Covers (al : Alignment) (blockSizeM slots : Nat)
    (expertOf : Nat → Option Nat) : Prop where
  once : (((List.range (al.sortedSize / blockSizeM * blockSizeM)).filter fun p =>
      (p / blockSizeM * blockSizeM < al.numTokensPostPadded ∧
        al.expertIds (p / blockSizeM) ≠ -1) ∧ al.sortedTokenIds p < slots).map
          al.sortedTokenIds).Perm ((List.range slots).filter fun t => (expertOf t).isSome)
  expert : ∀ p < al.sortedSize / blockSizeM * blockSizeM,
    p / blockSizeM * blockSizeM < al.numTokensPostPadded → al.sortedTokenIds p < slots →
      al.expertIds (p / blockSizeM) = expertCode (expertOf (al.sortedTokenIds p))

/-! ## One launch -/

/-- The product of a slot, in a column. -/
def slotProduct (args : KernelArgs R) (expertOf : Nat → Option Nat) (col t : Nat) : R :=
  match expertOf t with
  | none => 0
  | some e =>
      (∑ k ∈ Finset.range args.sizeK,
        args.a (t / args.topK * args.sizeK + k) * dequantAt args e k col) * routerWeight args t

variable {args : KernelArgs R} {sortedSize : Nat} {expertOf : Nat → Option Nat}

/-- The sum over positions is a sum over slots. -/
theorem sum_slotTerm (htopK : 0 < args.topK)
    (hal : Alignment.Covers ⟨args.sortedTokenIds, sortedSize, args.expertIds,
      args.numTokensPostPadded⟩ args.blockSizeM (args.sizeM * args.topK) expertOf)
    (row col : Nat) :
    ∑ p ∈ Finset.range (sortedSize / args.blockSizeM * args.blockSizeM),
        slotTerm args row col p (Finset.range args.sizeK) =
      ∑ t ∈ Finset.range (args.sizeM * args.topK),
        if outRow args t = row then slotProduct args expertOf col t else 0 := by
  have hslot : ∀ t, t / args.topK < args.sizeM ↔ t < args.sizeM * args.topK :=
    fun t => Nat.div_lt_iff_lt_mul htopK
  have hterm : ∀ p ∈ Finset.range (sortedSize / args.blockSizeM * args.blockSizeM),
      slotTerm args row col p (Finset.range args.sizeK) =
        if LivePosition args p ∧ args.sortedTokenIds p < args.sizeM * args.topK then
          (if outRow args (args.sortedTokenIds p) = row then
            slotProduct args expertOf col (args.sortedTokenIds p) else 0)
        else 0 := by
    intro p hp
    unfold slotTerm
    dsimp only
    by_cases hlive : LivePosition args p ∧ args.sortedTokenIds p < args.sizeM * args.topK
    · rw [if_pos hlive]
      have hexpert := hal.expert p (Finset.mem_range.mp hp) hlive.1.1 hlive.2
      by_cases hrow : outRow args (args.sortedTokenIds p) = row
      · rw [if_pos hrow, if_pos ⟨hlive.1, (hslot _).mpr hlive.2, hrow⟩, slotProduct]
        cases hof : expertOf (args.sortedTokenIds p) with
        | none =>
            dsimp only at hexpert
            rw [hof] at hexpert
            exact absurd hexpert hlive.1.2
        | some e =>
            dsimp only at hexpert
            rw [hof] at hexpert
            rw [hexpert]
            rfl
      · rw [if_neg hrow, if_neg fun hall => hrow hall.2.2]
    · rw [if_neg hlive, if_neg fun hall => hlive ⟨hall.1, (hslot _).mp hall.2.1⟩]
  have hperm := (hal.once.map fun t =>
    if outRow args t = row then slotProduct args expertOf col t else 0).sum_eq
  rw [List.map_map] at hperm
  rw [sum_filter_range, sum_filter_range] at hperm
  simp only [decide_eq_true_eq, Function.comp_apply] at hperm
  rw [Finset.sum_congr rfl hterm]
  refine hperm.trans ?_
  apply Finset.sum_congr rfl
  intro t _
  cases hof : expertOf t with
  | none => simp [slotProduct, hof]
  | some e => simp

/-! ## A launch at its entry point -/

theorem Gemm.completes {c c' : Nat → R} (h : Gemm args sortedSize c c') :
    ∃ lds, Completes (launchUpdates args lds (sortedSize / args.blockSizeM)) c c' := by
  obtain ⟨lds, updates, hdispatch, hrun⟩ := h
  unfold dispatchUpdates at hdispatch
  split at hdispatch
  · cases hdispatch
    exact ⟨lds, hrun⟩
  · cases hdispatch

/-- A launch with a block size of the kernel ends. -/
theorem exists_gemm (args : KernelArgs R) (hsize : args.blockSizeM ∈ [1, 2, 4, 8])
    (sortedSize : Nat) (c : Nat → R) : ∃ c', Gemm args sortedSize c c' := by
  let lds : SharedMemory R := fun _ _ _ _ _ => 0
  obtain ⟨c', hrun⟩ :=
    exists_completes (launchUpdates args lds (sortedSize / args.blockSizeM)) c
  exact ⟨c', lds, _, if_pos hsize, hrun⟩

/-- The weight of an expert at a position along K and a column. -/
def Tensor3.get {α : Type*} (x : Tensor3 α) (i j l : Nat) : α :=
  x.data (i * (x.size1 * x.size2) + j * x.size2 + l)

/-- `scale[g(k)][n] * (q(k, n) - zero)` of an expert. -/
def ExpertWeights.value (w : ExpertWeights R) (sizeK e k n : Nat) : R :=
  let g := k / (sizeK / w.weightScale.size1)
  let zeroPoint := packedNibble (w.qzeros.get e g (n / 8)) (n % 8) + 1
  w.weightScale.get e g n *
    ((shuffledNibble (w.weightPacked.get e (k / 8) n) (k % 8) : R) - (zeroPoint : Nat))

/-- The shapes of the weights for inputs of `sizeK` features. -/
structure ExpertWeights.Shaped (w : ExpertWeights R) (sizeK : Nat) : Prop where
  packed : w.weightPacked.size1 * 8 = sizeK
  scales : w.weightScale.size2 = w.weightPacked.size2
  zeros : w.qzeros.size2 * 8 = w.weightPacked.size2
  groups : w.weightScale.size1 * (sizeK / w.weightScale.size1) = sizeK
  group_dvd : 32 ∣ sizeK / w.weightScale.size1

section Entry

variable {a : Tensor2 R} {w : ExpertWeights R} {topkWeights : Tensor2 R} {al : Alignment}
  {topK blockSizeM outputTopk : Nat} {mul : Bool}

omit [Field R] in
theorem ExpertWeights.Shaped.sized (h : w.Shaped a.size1) (htopK : 0 < topK) :
    (gemmArgs a w.weightPacked w.weightScale w.qzeros topkWeights al topK blockSizeM mul
      outputTopk).Sized where
  groups := h.groups
  group_dvd := h.group_dvd
  cols_dvd := ⟨w.qzeros.size2, by rw [Nat.mul_comm, h.zeros]; rfl⟩
  topK_pos := htopK

theorem ExpertWeights.Shaped.dequantAt (h : w.Shaped a.size1) (e k n : Nat) :
    dequantAt (gemmArgs a w.weightPacked w.weightScale w.qzeros topkWeights al topK blockSizeM mul
      outputTopk) e k n = w.value a.size1 e k n := by
  have hzeros : w.weightPacked.size2 / 8 = w.qzeros.size2 := by
    rw [← h.zeros]
    exact Nat.mul_div_cancel _ (by decide)
  unfold MoeGemm.dequantAt scaleAt weightAt zeroAt groupsize ExpertWeights.value Tensor3.get
  simp only [gemmArgs, h.scales, hzeros]

variable [CharZero R]

/-- A launch adds to a row the products of its slots. -/
theorem gemm_rows (h : w.Shaped a.size1) (htopK : 0 < topK)
    (hal : al.Covers blockSizeM (a.size0 * topK) expertOf) {c c' : Nat → R}
    (hgemm : Gemm (gemmArgs a w.weightPacked w.weightScale w.qzeros topkWeights al topK blockSizeM
      mul outputTopk) al.sortedSize c c') (row : Nat) {n : Nat}
    (hn : n < w.weightPacked.size2) :
    c' (row * w.weightPacked.size2 + n) = c (row * w.weightPacked.size2 + n) +
      ∑ t ∈ Finset.range (a.size0 * topK),
        if (if 0 < outputTopk then t / outputTopk else t) = row then
          match expertOf t with
          | none => 0
          | some e =>
              (∑ k ∈ Finset.range a.size1,
                a.data (t / topK * a.size1 + k) * w.value a.size1 e k n) *
                  (if 0 < topkWeights.numel ∧ mul then topkWeights.data t else 1)
        else 0 := by
  obtain ⟨lds, hrun⟩ := hgemm.completes
  have hlaunch := launch_run (h.sized htopK) hrun row hn
  rw [sum_slotTerm htopK hal] at hlaunch
  refine hlaunch.trans (congrArg _ (Finset.sum_congr rfl fun t _ => ?_))
  have hweight : routerWeight (gemmArgs a w.weightPacked w.weightScale w.qzeros topkWeights al
      topK blockSizeM mul outputTopk) t =
        if 0 < topkWeights.numel ∧ mul then topkWeights.data t else 1 := by
    by_cases hnumel : 0 < topkWeights.numel
    · simp [routerWeight, gemmArgs, hnumel]
    · simp [routerWeight, gemmArgs, hnumel]
  unfold slotProduct
  rw [hweight]
  simp only [h.dequantAt]
  rfl

omit [CharZero R] in
/-- A launch leaves what is past its rows. -/
theorem gemm_frame (h : w.Shaped a.size1) (htopK : 0 < topK) {rows : Nat}
    (hrows : ∀ t < a.size0 * topK, (if 0 < outputTopk then t / outputTopk else t) < rows)
    {c c' : Nat → R}
    (hgemm : Gemm (gemmArgs a w.weightPacked w.weightScale w.qzeros topkWeights al topK blockSizeM
      mul outputTopk) al.sortedSize c c') {i : Nat} (hi : rows * w.weightPacked.size2 ≤ i) :
    c' i = c i := by
  obtain ⟨lds, hrun⟩ := hgemm.completes
  apply launch_frame (h.sized htopK) _ hrun hi
  intro tokenId hlt
  exact hrows tokenId ((Nat.div_lt_iff_lt_mul htopK).mp hlt)

end Entry

/-! ## One call -/

variable {sys : MoeSystem R} (layer : MoeLayer R) (x : FusedInput sys)

/-- The expert that a slot is routed to, when it is on this rank. -/
def slotExpert (t : Nat) : Option Nat :=
  match layer.expertMap with
  | none => some (x.topkIds.data t)
  | some map =>
      if map (x.topkIds.data t) = -1 then none else some (map (x.topkIds.data t)).toNat

/-- The router weight that the first launch applies. -/
def inputWeight (t : Nat) : R := if x.applyRouterWeightOnInput then x.topkWeights.data t else 1

/-- The router weight that the second launch applies. -/
def outputWeight (t : Nat) : R := if x.applyRouterWeightOnInput then 1 else x.topkWeights.data t

/-- The shapes of the buffers of a layer. -/
structure MoeLayer.Prepared : Prop where
  w1Cols : layer.rdna2W1Buf.size1 = nGateUp layer
  actRows : layer.rdna2ActBuf.size0 = layer.rdna2W1Buf.size0
  actCols : layer.rdna2ActBuf.size1 = nGateUp layer / 2

/-- Buffers on which a call computes what it should. -/
structure Scratch.Fits (s : Scratch R) : Prop where
  rows : s.actOut.size0 = x.totalTokens
  zeroed : ∀ i < x.totalTokens * nGateUp layer, s.w1Out.data i = 0

variable {layer x}

theorem scratch_fits (h : layer.Prepared) (empty : Nat → R) :
    (scratch layer x empty).Fits layer x := by
  unfold scratch
  split
  · next hsmall =>
      have hrows : min x.totalTokens layer.rdna2W1Buf.size0 = x.totalTokens :=
        Nat.min_eq_left hsmall
      constructor
      · show min x.totalTokens layer.rdna2ActBuf.size0 = x.totalTokens
        rw [h.actRows, hrows]
      · intro i hi
        have hnumel : (layer.rdna2W1Buf.takeRows x.totalTokens).numel =
            x.totalTokens * nGateUp layer := by
          show min x.totalTokens layer.rdna2W1Buf.size0 * layer.rdna2W1Buf.size1 = _
          rw [hrows, h.w1Cols]
        exact if_pos (Nat.lt_of_lt_of_eq hi hnumel.symm)
  · exact ⟨rfl, fun _ _ => rfl⟩

/-- The weights that a launch is given. -/
theorem weight_of_slot {t total : Nat} (ht : t < total) (data : Nat → R) (mul : Bool) :
    (if 0 < (if mul then (⟨1, total, data⟩ : Tensor2 R) else emptyTw).numel ∧ mul then
      (if mul then (⟨1, total, data⟩ : Tensor2 R) else emptyTw).data t else 1) =
        if mul then data t else 1 := by
  have hnumel : 0 < (⟨1, total, data⟩ : Tensor2 R).numel := by
    show 0 < 1 * total
    omega
  cases mul with
  | false => simp
  | true => simp [hnumel]

section Call

variable [CharZero R] {s : Scratch R} {r : FusedRun R} {blockSizeM : Nat}

/-- The reference of the first launch. -/
theorem w1_rows (hfits : s.Fits layer x) (htopK : 0 < x.topK)
    (hw13 : layer.w13.Shaped x.hiddenStates.size1)
    (hal : (routing layer x blockSizeM).Covers blockSizeM x.totalTokens (slotExpert layer x))
    {w1 : Nat → R} (hgemm : Gemm (w1Args layer x blockSizeM)
      (routing layer x blockSizeM).sortedSize s.w1Out.data w1)
    {t n : Nat} (ht : t < x.totalTokens) (hn : n < nGateUp layer) :
    w1 (t * nGateUp layer + n) =
      match slotExpert layer x t with
      | none => 0
      | some e =>
          (∑ k ∈ Finset.range x.hiddenStates.size1,
            x.hiddenStates.data (t / x.topK * x.hiddenStates.size1 + k) *
              layer.w13.value x.hiddenStates.size1 e k n) * inputWeight x t := by
  have hrows := gemm_rows hw13 htopK hal hgemm t hn
  have hin : t * nGateUp layer + n < x.totalTokens * nGateUp layer := flat_lt ht hn
  have hstart : s.w1Out.data (t * layer.w13.weightPacked.size2 + n) = 0 := hfits.zeroed _ hin
  rw [hstart, zero_add] at hrows
  refine hrows.trans ((sum_single ht _).trans ?_)
  cases slotExpert layer x t with
  | none => rfl
  | some e => exact congrArg _ (weight_of_slot ht x.topkWeights.data x.applyRouterWeightOnInput)

/-- The reference of the second launch. -/
theorem out_rows (htopK : 0 < x.topK) {act : Tensor2 R} (hact : act.size0 = x.totalTokens)
    (hw2 : layer.w2.Shaped act.size1)
    (hal : (routing layer x blockSizeM).Covers blockSizeM x.totalTokens (slotExpert layer x))
    {out : Nat → R} (hgemm : Gemm (w2Args layer x act blockSizeM)
      (routing layer x blockSizeM).sortedSize
      (torchZeros R x.numTokens (hiddenSize layer)).data out)
    {row n : Nat} (hrow : row < x.numTokens) (hn : n < hiddenSize layer) :
    out (row * hiddenSize layer + n) =
      ∑ j ∈ Finset.range x.topK,
        match slotExpert layer x (row * x.topK + j) with
        | none => 0
        | some e =>
            (∑ k ∈ Finset.range act.size1,
              act.data ((row * x.topK + j) * act.size1 + k) * layer.w2.value act.size1 e k n) *
                outputWeight x (row * x.topK + j) := by
  rw [← Nat.mul_one x.totalTokens, ← hact] at hal
  have hrows := gemm_rows hw2 Nat.one_pos hal hgemm row hn
  rw [hact, Nat.mul_one] at hrows
  simp only [if_pos htopK, Nat.div_one] at hrows
  refine hrows.trans ((zero_add _).trans ((sum_block _ hrow).trans ?_))
  apply Finset.sum_congr rfl
  intro j hj
  have ht : row * x.topK + j < x.totalTokens := flat_lt hrow (Finset.mem_range.mp hj)
  have hweight := weight_of_slot ht x.topkWeights.data (!x.applyRouterWeightOnInput)
  cases slotExpert layer x (row * x.topK + j) with
  | none => rfl
  | some e =>
      refine congrArg _ (hweight.trans ?_)
      unfold outputWeight
      cases x.applyRouterWeightOnInput <;> rfl

omit [CharZero R] in
theorem w1_frame (htopK : 0 < x.topK) (hw13 : layer.w13.Shaped x.hiddenStates.size1)
    {c w1 : Nat → R} (hgemm : Gemm (w1Args layer x blockSizeM)
      (routing layer x blockSizeM).sortedSize c w1)
    {i : Nat} (hi : x.totalTokens * nGateUp layer ≤ i) : w1 i = c i := by
  apply gemm_frame hw13 htopK _ hgemm hi
  intro t ht
  exact ht

omit [CharZero R] in
theorem out_frame (htopK : 0 < x.topK) {act : Tensor2 R} (hact : act.size0 = x.totalTokens)
    (hw2 : layer.w2.Shaped act.size1)
    {c out : Nat → R} (hgemm : Gemm (w2Args layer x act blockSizeM)
      (routing layer x blockSizeM).sortedSize c out)
    {i : Nat} (hi : x.numTokens * hiddenSize layer ≤ i) : out i = c i := by
  apply gemm_frame hw2 Nat.one_pos _ hgemm hi
  intro t ht
  rw [hact, Nat.mul_one] at ht
  rw [if_pos htopK]
  exact (Nat.div_lt_iff_lt_mul htopK).mpr ht

omit [CharZero R] in
/-- A call ends, whatever its launches add first. -/
theorem exists_fusedMoeOn (hsize : blockSizeM ∈ [1, 2, 4, 8]) (s : Scratch R) :
    ∃ r, FusedMoeOn layer x blockSizeM s r := by
  obtain ⟨w1, hw1⟩ := exists_gemm (w1Args layer x blockSizeM) hsize
    (routing layer x blockSizeM).sortedSize s.w1Out.data
  cases hact : sys.applyMoeActivation x.activation s.actOut { s.w1Out with data := w1 } with
  | error message =>
      exact ⟨_, @FusedMoeOn.error R _ sys layer x blockSizeM s w1 s.actOut.data message hw1 hact⟩
  | ok act =>
      obtain ⟨out, hw2⟩ := exists_gemm (w2Args layer x { s.actOut with data := act } blockSizeM)
        hsize (routing layer x blockSizeM).sortedSize
        (torchZeros R x.numTokens (hiddenSize layer)).data
      exact ⟨_, FusedMoeOn.ok hw1 hact hw2⟩

/-- Both launches compute their reference, with the router weight applied once;
nothing past the batch changes. -/
theorem fusedMoe_exact (hsize : blockSizeM ∈ [1, 2, 4, 8]) (htopK : 0 < x.topK)
    (hprepared : layer.Prepared) (empty : Nat → R)
    (hw13 : layer.w13.Shaped x.hiddenStates.size1)
    (hw2 : layer.w2.Shaped (scratch layer x empty).actOut.size1)
    (hal : (routing layer x blockSizeM).Covers blockSizeM x.totalTokens (slotExpert layer x)) :
    (∃ r, FusedMoeOn layer x blockSizeM (scratch layer x empty) r) ∧
    (∀ t, inputWeight x t * outputWeight x t = x.topkWeights.data t) ∧
    ∀ r, FusedMoeOn layer x blockSizeM (scratch layer x empty) r →
      (∀ t < x.totalTokens, ∀ n < nGateUp layer,
        r.w1Out.data (t * nGateUp layer + n) =
          match slotExpert layer x t with
          | none => 0
          | some e =>
              (∑ k ∈ Finset.range x.hiddenStates.size1,
                x.hiddenStates.data (t / x.topK * x.hiddenStates.size1 + k) *
                  layer.w13.value x.hiddenStates.size1 e k n) * inputWeight x t) ∧
      (∀ i, x.totalTokens * nGateUp layer ≤ i →
        r.w1Out.data i = (scratch layer x empty).w1Out.data i) ∧
      ∀ out, r.out = .ok out →
        (∀ row < x.numTokens, ∀ n < hiddenSize layer,
          out.data (row * hiddenSize layer + n) =
            ∑ j ∈ Finset.range x.topK,
              match slotExpert layer x (row * x.topK + j) with
              | none => 0
              | some e =>
                  (∑ k ∈ Finset.range r.actOut.size1,
                    r.actOut.data ((row * x.topK + j) * r.actOut.size1 + k) *
                      layer.w2.value r.actOut.size1 e k n) *
                    outputWeight x (row * x.topK + j)) ∧
        ∀ i, x.numTokens * hiddenSize layer ≤ i → out.data i = 0 := by
  have hfits := scratch_fits (x := x) hprepared empty
  refine ⟨exists_fusedMoeOn hsize _, ?_, ?_⟩
  · intro t
    unfold inputWeight outputWeight
    cases x.applyRouterWeightOnInput <;> simp
  · intro r hr
    cases hr with
    | @ok w1 act result hw1 hact hrun =>
        have hrows : ({ (scratch layer x empty).actOut with data := act } : Tensor2 R).size0 =
            x.totalTokens := hfits.rows
        refine ⟨fun t ht n hn => w1_rows hfits htopK hw13 hal hw1 ht hn,
          fun i hi => w1_frame htopK hw13 hw1 hi, ?_⟩
        intro out hout
        have hresult := Except.ok.inj hout
        rw [← hresult]
        exact ⟨fun row hrow n hn => out_rows htopK hrows hw2 hal hrun hrow hn,
          fun i hi => out_frame htopK hrows hw2 hrun hi⟩
    | @error w1 act message hw1 hact =>
        refine ⟨fun t ht n hn => w1_rows hfits htopK hw13 hal hw1 ht hn,
          fun i hi => w1_frame htopK hw13 hw1 hi, ?_⟩
        intro out hout
        have hbad : (Except.error message : Except String (Tensor2 R)) = .ok out := hout
        cases hbad

end Call

/-! ## Two tokens, one of whose experts is elsewhere -/

/-- `silu_and_mul`, with the check of its shapes. -/
noncomputable def siluAndMul (output input : Tensor2 ℝ) : Except String (Nat → ℝ) :=
  if output.size0 = input.size0 ∧ output.size1 * 2 = input.size1 then
    .ok fun i =>
      let row := i / output.size1
      let gate := input.data (row * input.size1 + i % output.size1)
      gate / (1 + Real.exp (-gate)) *
        input.data (row * input.size1 + output.size1 + i % output.size1)
  else .error "shape mismatch"

/-- The slots of each expert, padded to whole blocks. -/
def sortedBlocks (topkIds : Tensor2 Nat) (blockSizeM numExperts : Nat) : List (Nat × List Nat) :=
  (List.range numExperts).map fun e =>
    let ids := (List.range topkIds.numel).filter fun t => topkIds.data t = e
    let blocks := (ids.length + blockSizeM - 1) / blockSizeM
    (e, ids ++ List.replicate (blocks * blockSizeM - ids.length) topkIds.numel)

def sampleAlign (topkIds : Tensor2 Nat) (blockSizeM numExperts : Nat)
    (expertMap : Option (Nat → Int)) : Alignment :=
  let groups := sortedBlocks topkIds blockSizeM numExperts
  let sorted := groups.flatMap Prod.snd
  let owners := groups.flatMap fun g => List.replicate (g.2.length / blockSizeM)
    (match expertMap with
    | none => (g.1 : Int)
    | some map => map g.1)
  { sortedTokenIds := fun p => sorted.getD p topkIds.numel
    sortedSize := topkIds.numel + numExperts * (blockSizeM - 1)
    expertIds := fun b => owners.getD b 0
    numTokensPostPadded := sorted.length }

noncomputable def siluSystem : MoeSystem ℝ where
  Activation := Unit
  isGated := fun _ => true
  applyMoeActivation := fun _ => siluAndMul
  moeAlignBlockSize := sampleAlign

/-- Three experts, the last of them on another rank. -/
def twoExpertLayer : MoeLayer ℝ where
  w13 := ⟨⟨2, 4, 64, fun i => 0x76543210 + i⟩, ⟨2, 1, 64, fun _ => 1⟩, ⟨2, 1, 8, fun i => i⟩⟩
  w2 := ⟨⟨2, 4, 8, fun i => 0x89ABCDEF + i⟩, ⟨2, 1, 8, fun _ => 1⟩, ⟨2, 1, 1, fun i => i⟩⟩
  rdna2W1Buf := ⟨128, 64, fun _ => 5⟩
  rdna2ActBuf := ⟨128, 32, fun _ => 6⟩
  expertMap := some fun e => if e < 2 then e else -1

def twoTokens : FusedInput siluSystem where
  hiddenStates := ⟨2, 32, fun i => i⟩
  topkWeights := ⟨2, 2, fun _ => 1⟩
  topkIds := ⟨2, 2, fun t => [0, 1, 1, 2].getD t 0⟩
  activation := ()
  applyRouterWeightOnInput := false
  globalNumExperts := 3

theorem fusedMoe_exact_twoTokens :
    (∃ r, FusedMoeOn twoExpertLayer twoTokens 4 (scratch twoExpertLayer twoTokens fun _ => 0) r) ∧
    ∀ r, FusedMoeOn twoExpertLayer twoTokens 4 (scratch twoExpertLayer twoTokens fun _ => 0) r →
      ∀ n < 64, r.w1Out.data (3 * 64 + n) = 0 := by
  have hexact := @fusedMoe_exact ℝ _ siluSystem twoExpertLayer twoTokens _ 4
    (by decide) (by decide) ⟨rfl, rfl, rfl⟩ (fun _ => 0)
    ⟨rfl, rfl, rfl, by decide, by decide⟩ ⟨rfl, rfl, rfl, by decide, by decide⟩
    ⟨by decide, by decide⟩
  refine ⟨hexact.1, ?_⟩
  intro r hr n hn
  exact (hexact.2.2 r hr).1 3 (by decide) n hn

end FlashNext.Ports.MoeGemm
