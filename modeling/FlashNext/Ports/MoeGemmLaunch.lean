import FlashNext.Ports.MoeGemmLoop
import Mathlib.Algebra.BigOperators.Ring.Finset

/-!
# The fused MoE GEMM: what a launch adds

Every position of `sorted_token_ids`, every column and every position along K
is in one tile of one thread.  Whatever the order of the compare-and-swaps, an
element of the output ends with the sum over all positions whose slot belongs
to its row.
-/

namespace FlashNext.Ports.MoeGemm

open FlashNext.Verified.CasAdd FlashNext.Verified.GridSums

variable {R : Type*} [Field R] (args : KernelArgs R)

/-- The block of a position takes part. -/
def LivePosition (p : Nat) : Prop :=
  p / args.blockSizeM * args.blockSizeM < args.numTokensPostPadded ∧
    args.expertIds (p / args.blockSizeM) ≠ -1

instance (p : Nat) : Decidable (LivePosition args p) := inferInstanceAs (Decidable (_ ∧ _))

/-- What a position adds to an element of the output. -/
def slotTerm (row col p : Nat) (positions : Finset Nat) : R :=
  let tokenId := args.sortedTokenIds p
  if LivePosition args p ∧ tokenId / args.topK < args.sizeM ∧ outRow args tokenId = row then
    (∑ k ∈ positions, args.a (tokenId / args.topK * args.sizeK + k) *
      dequantAt args (args.expertIds (p / args.blockSizeM)).toNat k col) *
        routerWeight args tokenId
  else 0

variable {args}

/-! ## One thread -/

/-- The four columns of a word of the output. -/
theorem word_covers {N n row col row' : Nat} (hN : 4 ∣ N) (hn : 4 ∣ n) (hnN : n < N)
    (hcol : col < N) :
    (row' * N + n ≤ row * N + col ∧ row * N + col < row' * N + n + 4) ↔
      row' = row ∧ n / 4 = col / 4 := by
  constructor
  · rintro ⟨hle, hlt⟩
    have hrow : row' = row := by
      apply Nat.le_antisymm
      · by_contra hother
        have hmul := Nat.mul_le_mul_right N (Nat.lt_of_not_le hother)
        rw [Nat.succ_mul] at hmul
        omega
      · by_contra hother
        have hmul := Nat.mul_le_mul_right N (Nat.lt_of_not_le hother)
        rw [Nat.succ_mul] at hmul
        omega
    subst hrow
    exact ⟨rfl, by omega⟩
  · rintro ⟨rfl, hcols⟩
    omega

theorem blockA_eq {lds : Nat → Nat → R} {x offsetK m k : Nat} (hge : offsetK ≤ k)
    (hlt : k < endK args offsetK)
    (hrow : args.sortedTokenIds (x * args.blockSizeM + m) / args.topK < args.sizeM) :
    blockA args lds x offsetK m (k - offsetK) =
      args.a (args.sortedTokenIds (x * args.blockSizeM + m) / args.topK * args.sizeK + k) := by
  have hk : offsetK + (k - offsetK) = k := by omega
  unfold blockA
  dsimp only
  rw [hk, if_pos hlt, if_pos hrow, Nat.add_assoc, hk]

omit [Field R] in
theorem KernelArgs.Sized.groupsize_pos (h : args.Sized) (hK : 0 < args.sizeK) :
    0 < groupsize args := by
  apply Nat.pos_of_ne_zero
  intro hzero
  have hgroups := h.groups
  rw [hzero, Nat.mul_zero] at hgroups
  omega

omit [Field R] in
theorem KernelArgs.Sized.sizeK_dvd (h : args.Sized) : 32 ∣ args.sizeK := by
  rw [← h.groups]
  exact Dvd.dvd.mul_left h.group_dvd _

/-- The epilogue of one slot. -/
theorem epilogueSlot_delta (h : args.Sized) {n row col x m : Nat} (hn : 4 ∣ n)
    (hnN : n < args.sizeN) (hcol : col < args.sizeN) (blockC : Nat → Nat → R) :
    ((epilogueSlot args n blockC x m).map fun u => u.delta (row * args.sizeN + col)).sum =
      if (args.sortedTokenIds (x * args.blockSizeM + m) / args.topK < args.sizeM ∧
          outRow args (args.sortedTokenIds (x * args.blockSizeM + m)) = row) ∧ n / 4 = col / 4 then
        blockC m (col - n) * routerWeight args (args.sortedTokenIds (x * args.blockSizeM + m))
      else 0 := by
  have hN : 4 ∣ args.sizeN := Nat.dvd_trans (by decide) h.cols_dvd
  unfold epilogueSlot
  dsimp only
  generalize args.sortedTokenIds (x * args.blockSizeM + m) = tokenId
  by_cases hin : args.sizeM ≤ tokenId / args.topK
  · rw [if_pos hin, if_neg fun hall => Nat.not_lt_of_le hin hall.1.1]
    rfl
  · have hword := @word_covers args.sizeN n row col (outRow args tokenId) hN hn hnN hcol
    rw [if_neg hin, List.map_singleton, List.sum_singleton]
    unfold Update.delta
    dsimp only
    by_cases hhit : outRow args tokenId = row ∧ n / 4 = col / 4
    · have hlane : row * args.sizeN + col - (outRow args tokenId * args.sizeN + n) = col - n := by
        rw [hhit.1]
        omega
      rw [if_pos (hword.mpr hhit), if_pos ⟨⟨Nat.lt_of_not_le hin, hhit.1⟩, hhit.2⟩, hlane]
    · rw [if_neg fun hin => hhit (hword.mp hin), if_neg fun hall => hhit ⟨hall.1.2, hall.2⟩]

omit [Field R] in
/-- The positions of a block. -/
theorem position_block {x m : Nat} (hm : m < args.blockSizeM) :
    (x * args.blockSizeM + m) / args.blockSizeM = x := by
  have hpos : 0 < args.blockSizeM := Nat.zero_lt_of_lt hm
  rw [Nat.mul_comm, Nat.mul_add_div hpos, Nat.div_eq_of_lt hm, Nat.add_zero]

omit [Field R] in
theorem livePosition_iff {x m : Nat} (hm : m < args.blockSizeM) :
    LivePosition args (x * args.blockSizeM + m) ↔
      x * args.blockSizeM < args.numTokensPostPadded ∧ args.expertIds x ≠ -1 := by
  rw [LivePosition, position_block hm]

variable [CharZero R]

/-- The accumulators of a thread after its loop. -/
theorem thread_blockC (h : args.Sized) {lds : Nat → Nat → R} {expert n x z m c : Nat}
    (hz : z * 256 < args.sizeK) (hn : 4 ∣ n) (hc : c < 4)
    (hrow : args.sortedTokenIds (x * args.blockSizeM + m) / args.topK < args.sizeM) :
    (kLoop args (blockA args lds x (z * 256)) expert n (z * 256)
        (loopStart args expert n (z * 256))).blockC m c =
      ∑ k ∈ Finset.Ico (z * 256) (endK args (z * 256)),
        args.a (args.sortedTokenIds (x * args.blockSizeM + m) / args.topK * args.sizeK + k) *
          dequantAt args expert k (n + c) := by
  have hK := h.sizeK_dvd
  have hpos := h.groupsize_pos (Nat.zero_lt_of_lt hz)
  have hoff : 32 ∣ z * 256 := Dvd.dvd.mul_left (by decide) z
  have hend : 32 ∣ endK args (z * 256) := by
    unfold endK
    omega
  have hle : z * 256 ≤ endK args (z * 256) := by
    unfold endK
    omega
  rw [(loopStart_atHead hpos hoff).kLoop hpos h.group_dvd hn hend hle m hc, columnSum]
  apply Finset.sum_congr rfl
  intro k hk
  have hrange := Finset.mem_Ico.mp hk
  rw [blockA_eq hrange.1 hrange.2 hrow]

/-- What one thread adds to an element of the output. -/
theorem threadUpdates_delta (h : args.Sized) {lds : Nat → Nat → R} {row col x y z t : Nat}
    (hz : z * 256 < args.sizeK) (hcol : col < args.sizeN) :
    ((threadUpdates args lds x y z t).map fun u => u.delta (row * args.sizeN + col)).sum =
      if y * 256 + t = col / 4 then
        ∑ m ∈ Finset.range args.blockSizeM,
          slotTerm args row col (x * args.blockSizeM + m)
            (Finset.Ico (z * 256) (endK args (z * 256)))
      else 0 := by
  have hn : 4 ∣ y * 256 * 4 + t * 4 := by omega
  have hlane : (y * 256 * 4 + t * 4) / 4 = y * 256 + t := by omega
  have hdead : ¬ (x * args.blockSizeM < args.numTokensPostPadded ∧ args.expertIds x ≠ -1) →
      ∑ m ∈ Finset.range args.blockSizeM, slotTerm args row col (x * args.blockSizeM + m)
        (Finset.Ico (z * 256) (endK args (z * 256))) = 0 := by
    intro hnot
    apply Finset.sum_eq_zero
    intro m hm
    unfold slotTerm
    dsimp only
    rw [if_neg fun hall => hnot ((livePosition_iff (Finset.mem_range.mp hm)).mp hall.1)]
  unfold threadUpdates
  dsimp only
  by_cases hpadded : args.numTokensPostPadded ≤ x * args.blockSizeM
  · rw [if_pos hpadded, hdead fun hlive => Nat.not_lt_of_le hpadded hlive.1, ite_self]
    rfl
  by_cases hexpert : args.expertIds x = -1
  · rw [if_neg hpadded, if_pos hexpert, hdead fun hlive => hlive.2 hexpert, ite_self]
    rfl
  by_cases hcols : args.sizeN ≤ y * 256 * 4 + t * 4
  · rw [if_neg hpadded, if_neg hexpert, if_pos hcols, if_neg]
    · rfl
    · omega
  rw [if_neg hpadded, if_neg hexpert, if_neg hcols, sum_flatMap_range]
  have hnN := Nat.lt_of_not_le hcols
  have hslots := fun blockC m => @epilogueSlot_delta R _ args h _ row col x m hn hnN hcol blockC
  simp only [hslots, hlane]
  by_cases hhit : y * 256 + t = col / 4
  · rw [if_pos hhit]
    apply Finset.sum_congr rfl
    intro m hm
    have hc : col - (y * 256 * 4 + t * 4) < 4 := by omega
    have hcolumn : y * 256 * 4 + t * 4 + (col - (y * 256 * 4 + t * 4)) = col := by omega
    have hlive : LivePosition args (x * args.blockSizeM + m) :=
      (livePosition_iff (Finset.mem_range.mp hm)).mpr ⟨Nat.lt_of_not_le hpadded, hexpert⟩
    unfold slotTerm
    dsimp only
    rw [position_block (Finset.mem_range.mp hm)]
    by_cases hslot : args.sortedTokenIds (x * args.blockSizeM + m) / args.topK < args.sizeM ∧
        outRow args (args.sortedTokenIds (x * args.blockSizeM + m)) = row
    · rw [if_pos ⟨hslot, hhit⟩, if_pos ⟨hlive, hslot⟩,
        thread_blockC h hz hn hc hslot.1, hcolumn]
    · rw [if_neg fun hall => hslot hall.1, if_neg fun hall => hslot hall.2]
  · rw [if_neg hhit]
    exact Finset.sum_eq_zero fun m _ => if_neg fun hall => hhit hall.2

/-! ## The whole grid -/

omit [CharZero R] in
/-- The tiles along K put together. -/
theorem slotTerm_pieces (row col p : Nat) :
    ∑ z ∈ Finset.range ((args.sizeK + 256 - 1) / 256),
        slotTerm args row col p (Finset.Ico (z * 256) (endK args (z * 256))) =
      slotTerm args row col p (Finset.range args.sizeK) := by
  have hcut : ∀ z ∈ Finset.range ((args.sizeK + 256 - 1) / 256),
      Finset.Ico (z * 256) (endK args (z * 256)) =
        Finset.Ico (min (z * 256) args.sizeK) (min ((z + 1) * 256) args.sizeK) := by
    intro z hz
    have hlt := Finset.mem_range.mp hz
    have hstart : min (z * 256) args.sizeK = z * 256 := by omega
    rw [hstart, endK, Nat.succ_mul]
  have hall : Finset.Ico (min (0 * 256) args.sizeK)
      (min ((args.sizeK + 256 - 1) / 256 * 256) args.sizeK) = Finset.range args.sizeK := by
    rw [Nat.zero_mul, Nat.zero_min, Nat.min_eq_right (by omega), Nat.Ico_zero_eq_range]
  rw [Finset.sum_congr rfl fun z hz => by rw [hcut z hz]]
  unfold slotTerm
  dsimp only
  split
  · rw [← Finset.sum_mul, sum_pieces (fun z => by omega), hall]
  · exact Finset.sum_const_zero

/-- All threads of the grid. -/
theorem launchUpdates_delta (h : args.Sized) (lds : SharedMemory R) {numTokenBlocks row col : Nat}
    (hcol : col < args.sizeN) :
    ((launchUpdates args lds numTokenBlocks).map fun u => u.delta (row * args.sizeN + col)).sum =
      ∑ p ∈ Finset.range (numTokenBlocks * args.blockSizeM),
        slotTerm args row col p (Finset.range args.sizeK) := by
  have hthread : ∀ x y, ∀ z ∈ Finset.range ((args.sizeK + 256 - 1) / 256), ∀ t,
      ((threadUpdates args (lds x y z) x y z t).map fun u =>
          u.delta (row * args.sizeN + col)).sum =
        if y * 256 + t = col / 4 then
          ∑ m ∈ Finset.range args.blockSizeM,
            slotTerm args row col (x * args.blockSizeM + m)
              (Finset.Ico (z * 256) (endK args (z * 256)))
        else 0 := by
    intro x y z hz t
    have hlt := Finset.mem_range.mp hz
    exact threadUpdates_delta h (by omega) hcol
  have hwords : col / 4 < (args.sizeN + 256 * 4 - 1) / (256 * 4) * 256 := by omega
  have hblock : ∀ x, ∑ y ∈ Finset.range ((args.sizeN + 256 * 4 - 1) / (256 * 4)),
      ∑ z ∈ Finset.range ((args.sizeK + 256 - 1) / 256), ∑ t ∈ Finset.range 256,
        ((threadUpdates args (lds x y z) x y z t).map fun u =>
          u.delta (row * args.sizeN + col)).sum =
      ∑ m ∈ Finset.range args.blockSizeM,
        slotTerm args row col (x * args.blockSizeM + m) (Finset.range args.sizeK) := by
    intro x
    rw [Finset.sum_comm]
    have hcolumn : ∀ z ∈ Finset.range ((args.sizeK + 256 - 1) / 256),
        ∑ y ∈ Finset.range ((args.sizeN + 256 * 4 - 1) / (256 * 4)), ∑ t ∈ Finset.range 256,
          ((threadUpdates args (lds x y z) x y z t).map fun u =>
            u.delta (row * args.sizeN + col)).sum =
        ∑ m ∈ Finset.range args.blockSizeM,
          slotTerm args row col (x * args.blockSizeM + m)
            (Finset.Ico (z * 256) (endK args (z * 256))) := by
      intro z hz
      simp only [hthread x _ z hz]
      rw [sum_blocks fun u => if u = col / 4 then _ else 0]
      exact sum_single hwords _
    rw [Finset.sum_congr rfl hcolumn, Finset.sum_comm]
    simp only [slotTerm_pieces]
  unfold launchUpdates
  simp only [sum_flatMap_range]
  rw [Finset.sum_congr rfl fun x _ => hblock x]
  exact sum_blocks (fun p => slotTerm args row col p (Finset.range args.sizeK)) _ _

/-- Every order of the additions leaves the same sums. -/
theorem launch_run (h : args.Sized) {lds : SharedMemory R} {numTokenBlocks : Nat}
    {c c' : Nat → R} (hrun : Completes (launchUpdates args lds numTokenBlocks) c c')
    (row : Nat) {col : Nat} (hcol : col < args.sizeN) :
    c' (row * args.sizeN + col) = c (row * args.sizeN + col) +
      ∑ p ∈ Finset.range (numTokenBlocks * args.blockSizeM),
        slotTerm args row col p (Finset.range args.sizeK) := by
  rw [hrun.eq, launchUpdates_delta h lds hcol]

/-! ## The rows of the batch -/

omit [CharZero R] in
/-- Every word that is added to is in a row of the batch. -/
theorem mem_launchUpdates (h : args.Sized) {rows : Nat}
    (hrows : ∀ tokenId, tokenId / args.topK < args.sizeM → outRow args tokenId < rows)
    {lds : SharedMemory R} {numTokenBlocks : Nat} {u : Update R 4}
    (hu : u ∈ launchUpdates args lds numTokenBlocks) : u.addr + 4 ≤ rows * args.sizeN := by
  have hcols := h.cols_dvd
  simp only [launchUpdates, List.mem_flatMap] at hu
  obtain ⟨x, -, y, -, z, -, t, -, hu⟩ := hu
  unfold threadUpdates at hu
  dsimp only at hu
  split at hu
  · exact absurd hu (List.not_mem_nil)
  split at hu
  · exact absurd hu (List.not_mem_nil)
  split at hu
  · exact absurd hu (List.not_mem_nil)
  next hnN =>
  obtain ⟨m, -, hu⟩ := List.mem_flatMap.mp hu
  unfold epilogueSlot at hu
  dsimp only at hu
  split at hu
  · exact absurd hu (List.not_mem_nil)
  next hin =>
  have haddr := List.mem_singleton.mp hu
  have hlt := hrows _ (Nat.lt_of_not_le hin)
  have hmul := Nat.mul_le_mul_right args.sizeN hlt
  rw [Nat.succ_mul] at hmul
  rw [haddr]
  show outRow args _ * args.sizeN + _ + 4 ≤ _
  omega

omit [CharZero R] in
/-- What is past the batch stays. -/
theorem launch_frame (h : args.Sized) {rows : Nat}
    (hrows : ∀ tokenId, tokenId / args.topK < args.sizeM → outRow args tokenId < rows)
    {lds : SharedMemory R} {numTokenBlocks : Nat} {c c' : Nat → R}
    (hrun : Completes (launchUpdates args lds numTokenBlocks) c c') {i : Nat}
    (hi : rows * args.sizeN ≤ i) : c' i = c i := by
  have hzero : ((launchUpdates args lds numTokenBlocks).map fun u => u.delta i).sum = 0 := by
    apply List.sum_eq_zero
    intro d hd
    obtain ⟨u, hu, rfl⟩ := List.mem_map.mp hd
    have hend := mem_launchUpdates h hrows hu
    exact if_neg (by omega)
  rw [hrun.eq, hzero, add_zero]

end FlashNext.Ports.MoeGemm
