import FlashNext.Ports.MtpQuant

/-!
# Quantising what was quantised

The nibbles survive packing.  A weight is rebuilt up to half the scale of its
group and seven times the error of storing the scale.  Quantising the rebuilt
weights finds the same nibbles and the same stored scales: the second maximum
is seven stored scales, except in a group at the clamp, and there the stored
scale is the stored clamp.
-/

namespace FlashNext.Ports.MtpQuant

open FlashNext.Verified.AbsMax
open FlashNext.Verified.NibbleWords
open FlashNext.Verified.RoundNearest
open FlashNext.Verified.RowMajor

/-! ## One group -/

/-- The least scale of a group. -/
def clampScale : ℚ := 1 / 10 ^ 8 / 7

variable {group : List ℚ} {x : ℚ}

theorem groupScale_eq (group : List ℚ) :
    groupScale group = max (absMax group / 7) clampScale := by
  rw [groupScale, clampScale, max_div_div_right (by norm_num)]

theorem clampScale_pos : 0 < clampScale := by norm_num [clampScale]

theorem clampScale_le (group : List ℚ) : clampScale ≤ groupScale group := by
  rw [groupScale_eq]
  exact le_max_right _ _

theorem groupScale_pos (group : List ℚ) : 0 < groupScale group :=
  lt_of_lt_of_le clampScale_pos (clampScale_le group)

theorem abs_le_mul_groupScale (h : x ∈ group) : |x| ≤ (7 : ℤ) * groupScale group := by
  have hmax : absMax group / 7 ≤ groupScale group := by
    rw [groupScale_eq]
    exact le_max_left _ _
  push_cast
  linarith [abs_le_absMax h]

theorem quant_bounds (h : x ∈ group) :
    -7 ≤ roundEven (x / groupScale group) ∧ roundEven (x / groupScale group) ≤ 7 :=
  roundEven_div_bounds (groupScale_pos group) (abs_le_mul_groupScale h)

/-- The clamp of the integers changes nothing. -/
theorem quantGroup_eq (group : List ℚ) :
    quantGroup group = group.map fun w => roundEven (w / groupScale group) := by
  apply List.map_congr_left
  intro w hw
  obtain ⟨hlow, hhigh⟩ := quant_bounds hw
  omega

/-- The integers of a group are below eight in absolute value. -/
theorem abs_quant_le {q : ℤ} (h : q ∈ quantGroup group) : -7 ≤ q ∧ q ≤ 7 := by
  rw [quantGroup_eq] at h
  obtain ⟨w, hw, rfl⟩ := List.mem_map.mp h
  exact quant_bounds hw

/-- The stored scale is near the scale: no scale is below the normal range. -/
theorem abs_sub_bf16_le {s : ℚ} (h : clampScale ≤ s) : |s - bf16.nearest s| ≤ s / 256 := by
  have hpos := lt_of_lt_of_le clampScale_pos h
  have herr := bf16.abs_sub_nearest_le hpos
  have hnormal : s * 2 ^ (-(bf16.precision : ℤ)) = s / 256 := by
    norm_num [bf16, div_eq_mul_inv, zpow_neg]
  have hsub : (2 : ℚ) ^ (bf16.minExponent - 1) ≤ s / 256 := by
    have hmin : (2 : ℚ) ^ (bf16.minExponent - 1) ≤ clampScale / 256 := by
      norm_num [bf16, clampScale, zpow_neg]
    linarith
  rwa [hnormal, max_eq_left hsub] at herr

theorem bf16_scale_pos (group : List ℚ) : 0 < bf16.nearest (groupScale group) := by
  have hpos := groupScale_pos group
  have hclose := (abs_le.mp (abs_sub_bf16_le (clampScale_le group))).2
  linarith

/-- What `unpack` makes of a group. -/
def dequantGroup (group : List ℚ) : List ℚ :=
  (quantGroup group).map fun (q : ℤ) => (q : ℚ) * bf16.nearest (groupScale group)

/-! ## A group again -/

theorem bf16_mono {s t : ℚ} (hs : clampScale ≤ s) (h : s ≤ t) :
    bf16.nearest s ≤ bf16.nearest t :=
  bf16.nearest_mono (lt_of_lt_of_le clampScale_pos hs) h

/-- The second maximum, in stored scales. -/
theorem absMax_dequantGroup_le (group : List ℚ) :
    absMax (dequantGroup group) ≤ 7 * bf16.nearest (groupScale group) := by
  have hstored := bf16_scale_pos group
  apply absMax_le (by linarith)
  intro y hy
  obtain ⟨q, hq, rfl⟩ := List.mem_map.mp hy
  obtain ⟨hlow, hhigh⟩ := abs_quant_le hq
  have habs : |(q : ℚ)| ≤ 7 := abs_le.mpr ⟨by exact_mod_cast hlow, by exact_mod_cast hhigh⟩
  rw [abs_mul, abs_of_pos hstored]
  exact mul_le_mul_of_nonneg_right habs (le_of_lt hstored)

/-- Above the clamp the largest weight became a seven. -/
theorem seven_mul_le_absMax (h : clampScale < absMax group / 7) :
    7 * bf16.nearest (groupScale group) ≤ absMax (dequantGroup group) := by
  have hclamp := clampScale_pos
  have hscale : groupScale group = absMax group / 7 := by
    rw [groupScale_eq, max_eq_left (le_of_lt h)]
  have hpos : 0 < absMax group := by linarith
  obtain ⟨x, hx, habs⟩ := exists_abs_eq_absMax hpos
  have hstored := bf16_scale_pos group
  have hquot : |x| / groupScale group = 7 := by
    rw [hscale, habs, div_div_cancel₀]
    linarith
  have hq : |(roundEven (x / groupScale group) : ℚ)| = 7 := by
    rcases abs_choice x with hpos | hneg
    · have hdiv : x / groupScale group = (7 : ℤ) := by
        rw [hpos] at hquot
        exact_mod_cast hquot
      rw [hdiv, roundEven_intCast]
      norm_num
    · have hdiv : x / groupScale group = (-7 : ℤ) := by
        rw [hneg, neg_div] at hquot
        push_cast
        linarith
      rw [hdiv, roundEven_intCast]
      norm_num
  have hmem : (roundEven (x / groupScale group) : ℚ) * bf16.nearest (groupScale group) ∈
      dequantGroup group := by
    rw [dequantGroup, quantGroup_eq, List.map_map]
    exact List.mem_map.mpr ⟨x, hx, rfl⟩
  have := abs_le_absMax hmem
  rwa [abs_mul, hq, abs_of_pos hstored] at this

/-- At the clamp a second maximum above it is that of a seven. -/
theorem seven_mul_le_absMax_of_clamped (hscale : groupScale group = clampScale)
    (h : clampScale < absMax (dequantGroup group) / 7) :
    7 * bf16.nearest (groupScale group) ≤ absMax (dequantGroup group) := by
  have hclamp := clampScale_pos
  have hstored := bf16_scale_pos group
  have hpos : 0 < absMax (dequantGroup group) := by linarith
  obtain ⟨y, hy, habs⟩ := exists_abs_eq_absMax hpos
  obtain ⟨q, hq, rfl⟩ := List.mem_map.mp hy
  rw [abs_mul, abs_of_pos hstored] at habs
  rw [← habs] at h ⊢
  by_contra hlt
  -- a six is too small: the stored clamp is less than a sixth above the clamp
  have hsix : |(q : ℚ)| ≤ 6 := by
    have hless : |(q : ℚ)| < 7 := by
      by_contra hge
      exact hlt (mul_le_mul_of_nonneg_right (not_lt.mp hge) (le_of_lt hstored))
    have hint : |q| < 7 := by exact_mod_cast hless
    exact_mod_cast Int.le_of_lt_add_one hint
  have hclose := (abs_le.mp (abs_sub_bf16_le (le_refl clampScale))).1
  have hmul := mul_le_mul_of_nonneg_right hsix (le_of_lt hstored)
  rw [hscale] at hmul h
  linarith

/-- The second scale is the stored one, or both stand for the clamp. -/
theorem groupScale_dequantGroup (group : List ℚ) :
    groupScale (dequantGroup group) = bf16.nearest (groupScale group) ∨
      groupScale (dequantGroup group) = clampScale ∧
        bf16.nearest clampScale = bf16.nearest (groupScale group) := by
  have hle := absMax_dequantGroup_le group
  rw [groupScale_eq (dequantGroup group)]
  by_cases hmax : absMax (dequantGroup group) = 7 * bf16.nearest (groupScale group)
  · rw [hmax, mul_div_cancel_left₀ _ (by norm_num)]
    rcases le_total clampScale (bf16.nearest (groupScale group)) with hge | hlt
    · exact .inl (max_eq_left hge)
    · -- the stored scale fell below the clamp, and is the stored clamp
      refine .inr ⟨max_eq_right hlt, le_antisymm ?_ ?_⟩
      · exact bf16_mono (le_refl clampScale) (clampScale_le group)
      · rw [← bf16.nearest_nearest (groupScale_pos group)]
        exact bf16.nearest_mono (bf16_scale_pos group) hlt
  · -- no seven: the group is at the clamp, and stays there
    have hscale : groupScale group = clampScale := by
      rw [groupScale_eq]
      apply max_eq_right
      by_contra hgt
      exact hmax (le_antisymm hle (seven_mul_le_absMax (not_le.mp hgt)))
    refine .inr ⟨?_, by rw [hscale]⟩
    apply max_eq_right
    by_contra hgt
    exact hmax (le_antisymm hle (seven_mul_le_absMax_of_clamped hscale (not_le.mp hgt)))

/-- The stored scale is found again. -/
theorem bf16_groupScale_dequantGroup (group : List ℚ) :
    bf16.nearest (groupScale (dequantGroup group)) = bf16.nearest (groupScale group) := by
  rcases groupScale_dequantGroup group with hstored | ⟨hclamp, heq⟩
  · rw [hstored, bf16.nearest_nearest (groupScale_pos group)]
  · rw [hclamp, heq]

/-- The integers are found again. -/
theorem quantGroup_dequantGroup (group : List ℚ) :
    quantGroup (dequantGroup group) = quantGroup group := by
  have hpos := groupScale_pos (dequantGroup group)
  rw [quantGroup_eq (dequantGroup group)]
  show List.map (fun w => roundEven (w / groupScale (dequantGroup group)))
    (List.map _ (quantGroup group)) = _
  rw [List.map_map]
  conv_rhs => rw [← List.map_id (quantGroup group)]
  apply List.map_congr_left
  intro q hq
  obtain ⟨hlow, hhigh⟩ := abs_quant_le hq
  have habs : |(q : ℚ)| ≤ 7 := abs_le.mpr ⟨by exact_mod_cast hlow, by exact_mod_cast hhigh⟩
  apply roundEven_mul_div hpos
  -- seven times the difference of the scales is less than half the scale
  have hnear : |bf16.nearest (groupScale group) - groupScale (dequantGroup group)| ≤
      groupScale (dequantGroup group) / 256 := by
    rcases groupScale_dequantGroup group with hstored | ⟨hclamp, heq⟩
    · rw [hstored, sub_self, abs_zero]
      linarith [bf16_scale_pos group]
    · rw [hclamp, ← heq, abs_sub_comm]
      exact abs_sub_bf16_le (le_refl clampScale)
  calc |(q : ℚ)| * |bf16.nearest (groupScale group) - groupScale (dequantGroup group)|
      ≤ 7 * (groupScale (dequantGroup group) / 256) :=
        mul_le_mul habs hnear (abs_nonneg _) (by norm_num)
    _ < groupScale (dequantGroup group) / 2 := by linarith

/-- No conversion overflows: for weights in the range of a float32 the stored
scale, and seven of them, are in the range too. -/
theorem bf16_scale_lt (h : absMax group ≤ 2 ^ 128) :
    7 * bf16.nearest (groupScale group) < 2 ^ 128 := by
  have hscale : groupScale group ≤ 2 ^ 128 / 7 := by
    rw [groupScale]
    exact div_le_div_of_nonneg_right (max_le h (by norm_num)) (by norm_num)
  have hpos : (0 : ℚ) < 2 ^ 128 / 7 := by norm_num
  have hlog : Int.log 2 ((2 : ℚ) ^ 128 / 7) = 125 := by
    apply le_antisymm
    · have hlt : Int.log 2 ((2 : ℚ) ^ 128 / 7) < 126 :=
        (Int.lt_zpow_iff_log_lt (by norm_num) hpos).mp (by norm_num)
      omega
    · exact (Int.zpow_le_iff_le_log (by norm_num) hpos).mp (by norm_num)
  have hquantum : bf16.quantum ((2 : ℚ) ^ 128 / 7) = 2 ^ 118 := by
    rw [FloatFormat.quantum, FloatFormat.lastPlace, hlog]
    norm_num [bf16]
  have hround : roundEven ((2 : ℚ) ^ 128 / 7 / 2 ^ 118) = 146 := by
    apply roundEven_eq
    norm_num [abs_of_pos]
  have hmono := bf16_mono (clampScale_le group) hscale
  rw [FloatFormat.nearest, FloatFormat.nearest, hquantum, hround] at hmono
  rw [FloatFormat.nearest]
  norm_num at hmono ⊢
  linarith

/-! ## A row -/

variable {k : Nat} {row : List ℚ}

theorem div_groupSize_mul (hk : k % groupSize = 0) : k / groupSize * groupSize = k :=
  Nat.div_mul_cancel (Nat.dvd_of_mod_eq_zero hk)

theorem length_groups (k : Nat) (row : List ℚ) : (groups k row).length = k / groupSize :=
  ofFlat_length _ _ _

theorem length_of_mem_groups (hk : k % groupSize = 0) (hrow : row.length = k)
    (h : group ∈ groups k row) : group.length = groupSize :=
  length_of_mem_ofFlat (hrow.trans (div_groupSize_mul hk).symm) h

/-- Groups worked on one by one are cut out again. -/
theorem ofFlat_map_groups {β : Type} {f : List ℚ → List β} (hf : ∀ g, (f g).length = g.length)
    (hk : k % groupSize = 0) (hrow : row.length = k) :
    ofFlat groupSize (k / groupSize) ((groups k row).map f).flatten = (groups k row).map f ∧
      ((groups k row).map f).flatten.length = k := by
  have hwidth : ∀ g ∈ (groups k row).map f, g.length = groupSize := by
    intro g hg
    obtain ⟨group, hgroup, rfl⟩ := List.mem_map.mp hg
    rw [hf, length_of_mem_groups hk hrow hgroup]
  have hcut := ofFlat_flatten ((groups k row).map f) hwidth
  rw [List.length_map, length_groups] at hcut
  refine ⟨hcut, ?_⟩
  have hlen := Block.length_flat ⟨(groups k row).map f, hwidth⟩
  show List.length (List.flatten ((groups k row).map f)) = k
  rw [List.length_map, length_groups, div_groupSize_mul hk] at hlen
  exact hlen

theorem length_quantGroup (group : List ℚ) : (quantGroup group).length = group.length :=
  List.length_map _

theorem length_dequantGroup (group : List ℚ) : (dequantGroup group).length = group.length := by
  rw [dequantGroup, List.length_map, length_quantGroup]

/-- Every stored nibble fits in four bits. -/
theorem nibRow_bounds {n : ℤ} (h : n ∈ nibRow k row) : 0 ≤ n ∧ n < 16 := by
  obtain ⟨q, hq, rfl⟩ := List.mem_map.mp h
  obtain ⟨group', hgroup', hmem⟩ := List.mem_flatten.mp hq
  obtain ⟨group, -, rfl⟩ := List.mem_map.mp hgroup'
  obtain ⟨hlow, hhigh⟩ := abs_quant_le hmem
  omega

theorem length_nibRow (hk : k % groupSize = 0) (hrow : row.length = k) :
    (nibRow k row).length = k := by
  rw [nibRow, List.length_map]
  exact (ofFlat_map_groups length_quantGroup hk hrow).2

/-- `unpack` reads the nibbles that were packed. -/
theorem unpackNibs_packRow (hk : k % groupSize = 0) (hrow : row.length = k) :
    unpackNibs (packRow k row) = nibRow k row := by
  have hlen : (nibRow k row).length = k / 8 * 8 := by
    rw [length_nibRow hk hrow]
    have hdvd : (8 : Nat) ∣ groupSize := by decide
    exact (Nat.div_mul_cancel (dvd_trans hdvd (Nat.dvd_of_mod_eq_zero hk))).symm
  have hword : (ofFlat 8 (k / 8) (nibRow k row)).map (fun nibs => unpackWord (packWord nibs)) =
      ofFlat 8 (k / 8) (nibRow k row) := by
    conv_rhs => rw [← List.map_id (ofFlat 8 (k / 8) (nibRow k row))]
    apply List.map_congr_left
    intro nibs hnibs
    apply unpackWord_packWord (length_of_mem_ofFlat hlen hnibs)
    intro n hn
    have hmem : n ∈ (ofFlat 8 (k / 8) (nibRow k row)).flatten :=
      List.mem_flatten.mpr ⟨nibs, hnibs, hn⟩
    rw [flatten_ofFlat hlen] at hmem
    exact nibRow_bounds hmem
  rw [unpackNibs, packRow, List.flatMap_map, List.flatMap_def, hword, flatten_ofFlat hlen]

/-- A row is rebuilt group by group. -/
theorem unpackRow_packRow (hk : k % groupSize = 0) (hrow : row.length = k) :
    unpackRow (packRow k row) (scaleRow k row) = (groups k row).map dequantGroup := by
  have hq : (unpackNibs (packRow k row)).map (· - 8) =
      ((groups k row).map quantGroup).flatten := by
    rw [unpackNibs_packRow hk hrow, nibRow, List.map_map]
    conv_rhs => rw [← List.map_id ((groups k row).map quantGroup).flatten]
    apply List.map_congr_left
    intro q _
    exact Int.add_sub_cancel q 8
  obtain ⟨hcut, hlen⟩ := ofFlat_map_groups length_quantGroup hk hrow
  simp only [unpackRow]
  rw [hq, hlen, hcut, scaleRow, List.zipWith_map]
  exact List.zipWith_self

/-- Quantising a rebuilt row finds the same nibbles and stored scales. -/
theorem quantize_rebuilt (hk : k % groupSize = 0) (hrow : row.length = k) :
    nibRow k ((groups k row).map dequantGroup).flatten = nibRow k row ∧
      scaleRow k ((groups k row).map dequantGroup).flatten = scaleRow k row := by
  have hcut : groups k ((groups k row).map dequantGroup).flatten =
      (groups k row).map dequantGroup := (ofFlat_map_groups length_dequantGroup hk hrow).1
  rw [nibRow, nibRow, scaleRow, scaleRow, hcut, List.map_map, List.map_map]
  constructor
  · have hcomp : quantGroup ∘ dequantGroup = quantGroup := funext quantGroup_dequantGroup
    rw [hcomp]
  · exact List.map_congr_left fun group _ => bf16_groupScale_dequantGroup group

/-- A rebuilt group is near the group. -/
theorem dequantGroup_near (group : List ℚ) :
    List.Forall₂ (fun x y => |x - y| ≤ groupScale group / 2 +
      7 * |bf16.nearest (groupScale group) - groupScale group|) group (dequantGroup group) := by
  rw [dequantGroup, quantGroup_eq, List.map_map, List.forall₂_map_right_iff, List.forall₂_same]
  intro x hx
  exact_mod_cast abs_sub_roundEven_div_mul_le (groupScale_pos group) (abs_le_mul_groupScale hx)
    (bf16.nearest (groupScale group))

/-! ## A matrix -/

/-- Every rebuilt weight is near its own, by the scale of its group. -/
def Rebuilds (w : Matrix) (rebuilt : List (List (List ℚ))) : Prop :=
  List.Forall₂
    (fun row row' => List.Forall₂
      (fun group group' => List.Forall₂
        (fun x y => |x - y| ≤ groupScale group / 2 +
          7 * |bf16.nearest (groupScale group) - groupScale group|) group group')
      (groups w.cols row) row')
    w.rows rebuilt

/-- The tensors of a matrix whose rows are cut into full groups. -/
def quantized (w : Matrix) : Quantized where
  packed := w.rows.map (packRow w.cols)
  scale := w.rows.map (scaleRow w.cols)

theorem quantRtn_eq {w : Matrix} (hcols : w.cols % groupSize = 0) :
    quantRtn w = .ok (quantized w) := by
  have height : w.cols % 8 = 0 := by
    have hdvd : (8 : Nat) ∣ groupSize := by decide
    exact Nat.mod_eq_zero_of_dvd (dvd_trans hdvd (Nat.dvd_of_mod_eq_zero hcols))
  rw [quantRtn, if_pos ⟨hcols, height⟩, quantized]

theorem unpack_quantized {w : Matrix} (hcols : w.cols % groupSize = 0) :
    unpack (quantized w) = w.rows.map fun row => (groups w.cols row).map dequantGroup := by
  rw [unpack, quantized, List.zipWith_map]
  show List.zipWith (fun row row' => unpackRow (packRow w.cols row) (scaleRow w.cols row'))
    w.rows w.rows = _
  rw [List.zipWith_self]
  exact List.map_congr_left fun row hrow => unpackRow_packRow hcols (w.row_length row hrow)

/-- The rebuilt weights as a matrix of the same shape. -/
def rebuilt (w : Matrix) (hcols : w.cols % groupSize = 0) : Matrix where
  rows := unpackFlat (quantized w)
  cols := w.cols
  rows_ne_nil := by
    rw [unpackFlat, unpack_quantized hcols, List.map_map, Ne, List.map_eq_nil_iff]
    exact w.rows_ne_nil
  row_length := by
    rw [unpackFlat, unpack_quantized hcols, List.map_map]
    intro row' hrow'
    obtain ⟨row, hrow, rfl⟩ := List.mem_map.mp hrow'
    exact (ofFlat_map_groups length_dequantGroup hcols (w.row_length row hrow)).2

theorem quantized_rebuilt {w : Matrix} (hcols : w.cols % groupSize = 0) :
    quantized (rebuilt w hcols) = quantized w := by
  have hrows : (rebuilt w hcols).rows =
      w.rows.map fun row => ((groups w.cols row).map dequantGroup).flatten := by
    show unpackFlat (quantized w) = _
    rw [unpackFlat, unpack_quantized hcols, List.map_map]
    rfl
  have hagain := fun row hrow => quantize_rebuilt hcols (w.row_length row hrow)
  rw [quantized, quantized, hrows, List.map_map, List.map_map, Quantized.mk.injEq]
  constructor
  · apply List.map_congr_left
    intro row hrow
    exact congrArg (fun nibs => (ofFlat 8 (w.cols / 8) nibs).map packWord) (hagain row hrow).1
  · exact List.map_congr_left fun row hrow => (hagain row hrow).2

/-- Quantising reads back every nibble, stays within the bound of each group,
and finds its own image again. -/
theorem quantRtn_faithful (w : Matrix) (hcols : w.cols % groupSize = 0) :
    ∃ t, quantRtn w = .ok t ∧
      t.packed.map unpackNibs = w.rows.map (nibRow w.cols) ∧
      t.scale = w.rows.map
        (fun row => (groups w.cols row).map fun group => bf16.nearest (groupScale group)) ∧
      Rebuilds w (unpack t) ∧
      ∃ u : Matrix, u.rows = unpackFlat t ∧ u.cols = w.cols ∧ quantRtn u = .ok t := by
  refine ⟨quantized w, quantRtn_eq hcols, ?_, rfl, ?_, rebuilt w hcols, rfl, rfl, ?_⟩
  · show (w.rows.map (packRow w.cols)).map unpackNibs = _
    rw [List.map_map]
    exact List.map_congr_left fun row hrow => unpackNibs_packRow hcols (w.row_length row hrow)
  · rw [Rebuilds, unpack_quantized hcols, List.forall₂_map_right_iff, List.forall₂_same]
    intro row _
    rw [List.forall₂_map_right_iff, List.forall₂_same]
    exact fun group _ => dequantGroup_near group
  · rw [← quantized_rebuilt hcols]
    exact quantRtn_eq hcols

/-- A row with a negative maximum, a row below the clamp and a row of zeros. -/
def mixedMatrix : Matrix where
  rows := [List.replicate 64 (-3) ++ List.replicate 64 (1 / 2),
    List.replicate 128 (1 / 10 ^ 9), List.replicate 128 0]
  cols := 128
  rows_ne_nil := nofun
  row_length := by simp

theorem quantRtn_faithful_mixed :
    ∃ t, quantRtn mixedMatrix = .ok t ∧
      t.packed.map unpackNibs = mixedMatrix.rows.map (nibRow 128) ∧
      t.scale = mixedMatrix.rows.map
        (fun row => (groups 128 row).map fun group => bf16.nearest (groupScale group)) ∧
      Rebuilds mixedMatrix (unpack t) ∧
      ∃ u : Matrix, u.rows = unpackFlat t ∧ u.cols = 128 ∧ quantRtn u = .ok t :=
  quantRtn_faithful mixedMatrix rfl

end FlashNext.Ports.MtpQuant
