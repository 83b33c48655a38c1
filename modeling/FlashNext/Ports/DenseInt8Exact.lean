import FlashNext.Ports.DenseInt8
import FlashNext.Verified.AbsMax
import Mathlib.Tactic.FieldSimp

/-!
# The accuracy of an int8 shadow

Quantising in blocks of rows and multiplying in blocks of rows change nothing.
A weight is rebuilt up to half its scale and the error of storing the scale,
which is relative while the scale is a normal half and absolute below.
-/

namespace FlashNext.Ports.DenseInt8

open FlashNext.Verified.AbsMax
open FlashNext.Verified.BlockRanges
open FlashNext.Verified.RoundNearest
open FlashNext.Verified.Scatter

/-! ## Blocks of rows -/

/-- The shadow of one pass over the whole matrix. -/
def singlePass (w : HalfMatrix) : Shadow where
  weightI8 := w.rows.map quantRow
  weightI8Scale := w.rows.map fun row => half.nearest (rowScale row)
  cols := w.cols

theorem rowStep_pos (cols : Nat) : 0 < rowStep cols := Nat.lt_of_lt_of_le Nat.one_pos
  (Nat.le_max_left _ _)

/-- The two tensors are filled independently of each other. -/
theorem foldl_blockStep (rows : List (List ℚ)) (step : Nat) (buf : Buffers) (r0s : List Nat) :
    r0s.foldl (blockStep rows step) buf =
      { q := r0s.foldl (fun st r0 => put
          (List.range' r0 (min (r0 + step) rows.length - r0))
          ((slice rows r0 (min (r0 + step) rows.length)).map quantRow) st) buf.q
        scale := r0s.foldl (fun st r0 => put
          (List.range' r0 (min (r0 + step) rows.length - r0))
          ((slice rows r0 (min (r0 + step) rows.length)).map rowScale) st) buf.scale } := by
  induction r0s generalizing buf with
  | nil => rfl
  | cons r0 r0s ih => exact ih _

/-- What the blocks write is what one pass computes. -/
theorem foldl_put_rows {β : Type} (rows : List (List ℚ)) {step : Nat} (hstep : 0 < step)
    (f : List ℚ → β) (empty : Nat → β) :
    (List.range rows.length).map
        ((rangeStep rows.length step).foldl (fun st r0 => put
          (List.range' r0 (min (r0 + step) rows.length - r0))
          ((slice rows r0 (min (r0 + step) rows.length)).map f) st) empty) =
      rows.map f := by
  have hvals : ∀ r0 ∈ rangeStep rows.length step,
      (slice rows r0 (min (r0 + step) rows.length)).map f =
        (List.range' r0 (min (r0 + step) rows.length - r0)).map
          fun i => f (rows.getD i []) := by
    intro r0 _
    rw [slice_eq_map (Nat.min_le_right _ _) [], List.map_map]
    rfl
  apply List.ext_getElem
  · rw [List.length_map, List.length_map, List.length_range]
  · intro i hi _
    rw [List.length_map, List.length_range] at hi
    rw [List.getElem_map, List.getElem_range, foldl_put_blocks hstep hvals empty hi,
      List.getElem_map, List.getD_eq_getElem?_getD, List.getElem?_eq_getElem hi]
    rfl

theorem makeShadow_eq {minRows : Int} {w : HalfMatrix} {empty : Buffers} {sh : Shadow}
    (h : makeShadow minRows w empty = .ok (some sh)) : sh = singlePass w := by
  unfold makeShadow at h
  split at h
  · cases h
  · split at h
    · cases h
    · cases h
      have hstep := rowStep_pos w.cols
      simp only [foldl_blockStep]
      have hscale := congrArg (List.map half.nearest)
        (foldl_put_rows w.rows hstep rowScale empty.scale)
      rw [List.map_map, List.map_map] at hscale
      rw [foldl_put_rows w.rows hstep quantRow empty.q]
      show Shadow.mk _ (List.map (half.nearest ∘ _) _) _ = _
      rw [hscale]
      rfl

/-! ## The product -/

/-- The product with the whole dequantised matrix. -/
def wholeProduct (sh : Shadow) (x : List ℚ) (bias : Option (List ℚ)) : List ℚ :=
  linear x (scaled sh.weightI8 sh.weightI8Scale) bias

theorem slice_zipWith {α β γ : Type} (f : α → β → γ) (xs : List α) (ys : List β) (i j : Nat) :
    List.zipWith f (slice xs i j) (slice ys i j) = slice (List.zipWith f xs ys) i j := by
  rw [slice, slice, slice, List.drop_zipWith, List.take_zipWith]

/-- A block of output rows is a slice of the product. -/
theorem linear_slice (sh : Shadow) (x : List ℚ) (bias : Option (List ℚ)) (i j : Nat) :
    linear x (scaled (slice sh.weightI8 i j) (slice sh.weightI8Scale i j))
        (bias.map fun b => slice b i j) =
      slice (wholeProduct sh x bias) i j := by
  unfold wholeProduct scaled
  rw [slice_zipWith]
  cases bias with
  | none => exact map_slice _ _ i j
  | some b => exact slice_zipWith _ _ _ i j

/-- One turn writes a slice of the product, whatever the scratch buffers held. -/
theorem linearStep_snd (sh : Shadow) (xs : List (List ℚ)) (bias : Option (List ℚ))
    (blockRows : Nat) (st : Scratch × (Nat → Nat → ℚ)) (i : Nat) :
    (linearStep sh xs bias blockRows st i).2 = fun r =>
      put (List.range' i (min (i + blockRows) sh.weightI8.length - i))
        (slice (wholeProduct sh (xs.getD r []) bias) i
          (min (i + blockRows) sh.weightI8.length)) (st.2 r) := by
  funext r
  rw [← linear_slice]
  simp only [linearStep, dequant, if_true]

theorem foldl_linearStep (sh : Shadow) (xs : List (List ℚ)) (bias : Option (List ℚ))
    (blockRows : Nat) (st : Scratch × (Nat → Nat → ℚ)) (is : List Nat) (r : Nat) :
    (is.foldl (linearStep sh xs bias blockRows) st).2 r =
      is.foldl (fun out i => put (List.range' i (min (i + blockRows) sh.weightI8.length - i))
        (slice (wholeProduct sh (xs.getD r []) bias) i
          (min (i + blockRows) sh.weightI8.length)) out) (st.2 r) := by
  induction is generalizing st with
  | nil => rfl
  | cons i is ih =>
      rw [List.foldl_cons, ih, linearStep_snd]
      rfl

theorem wholeProduct_length {sh : Shadow} {bias : Option (List ℚ)}
    (hscale : sh.weightI8Scale.length = sh.weightI8.length)
    (hbias : ∀ b, bias = some b → b.length = sh.weightI8.length) (x : List ℚ) :
    (wholeProduct sh x bias).length = sh.weightI8.length := by
  unfold wholeProduct linear scaled
  cases bias with
  | none => rw [List.length_map, List.length_zipWith, hscale, Nat.min_self]
  | some b => rw [List.length_zipWith, List.length_zipWith, hscale, hbias b rfl, Nat.min_self,
      Nat.min_self]

/-- The product by blocks of output rows is the whole product. -/
theorem linearReleased_eq {sh : Shadow} {bias : Option (List ℚ)} {blockRows : Nat}
    (hscale : sh.weightI8Scale.length = sh.weightI8.length)
    (hbias : ∀ b, bias = some b → b.length = sh.weightI8.length) (hrows : 0 < blockRows)
    (xs : List (List ℚ)) (scratch : Scratch) (empty : Nat → Nat → ℚ) :
    linearReleased sh xs bias blockRows scratch empty =
      .ok (xs.map fun x => wholeProduct sh x bias) := by
  unfold linearReleased
  by_cases hsmall : sh.weightI8.length ≤ blockRows
  · simp only [if_pos hsmall, dequant, if_true]
    rfl
  · simp only [if_neg hsmall, if_neg (Nat.ne_of_gt hrows)]
    apply congrArg Except.ok
    apply List.ext_getElem
    · rw [List.length_map, List.length_map, List.length_range]
    · intro r hr _
      rw [List.length_map, List.length_range] at hr
      have hlen := wholeProduct_length hscale hbias (xs.getD r [])
      have hx : xs.getD r [] = xs[r] := by
        rw [List.getD_eq_getElem?_getD, List.getElem?_eq_getElem hr]
        rfl
      rw [List.getElem_map, List.getElem_range, List.getElem_map]
      apply List.ext_getElem
      · rw [List.length_map, List.length_range, ← hx, hlen]
      · intro k hk _
        rw [List.length_map, List.length_range] at hk
        have hvals : ∀ i ∈ rangeStep sh.weightI8.length blockRows,
            slice (wholeProduct sh (xs.getD r []) bias) i
                (min (i + blockRows) sh.weightI8.length) =
              (List.range' i (min (i + blockRows) sh.weightI8.length - i)).map
                fun c => (wholeProduct sh (xs.getD r []) bias).getD c 0 := fun i _ =>
          slice_eq_map (by rw [hlen]; exact Nat.min_le_right _ _) 0
        rw [List.getElem_map, List.getElem_range, foldl_linearStep,
          foldl_put_blocks hrows hvals _ hk, List.getD_eq_getElem?_getD,
          List.getElem?_eq_getElem (by rw [hlen]; exact hk), Option.getD_some]
        simp only [hx]

/-! ## The error of a weight -/

/-- Every weight is rebuilt up to a bound in terms of its row's scale. -/
def Rebuilds (w : HalfMatrix) (sh : Shadow) (bound : ℚ → ℚ) : Prop :=
  ∀ (i : Nat) (row : List ℚ) (qs : List ℤ) (scale : ℚ), w.rows[i]? = some row →
    sh.weightI8[i]? = some qs → sh.weightI8Scale[i]? = some scale →
    ∀ (c : Nat) (x : ℚ) (q : ℤ), row[c]? = some x → qs[c]? = some q →
      |x - q * scale| ≤ bound (rowScale row)

variable {row : List ℚ} {x : ℚ}

theorem rowScale_pos (row : List ℚ) : 0 < rowScale row := by
  have hclamp : 0 < max (rowAbsMax row) (1 / 10 ^ 8) := lt_max_of_lt_right (by norm_num)
  exact div_pos hclamp (by norm_num)

theorem abs_le_mul_rowScale (h : x ∈ row) : |x| ≤ (127 : ℤ) * rowScale row := by
  have hmax : |x| ≤ max (rowAbsMax row) (1 / 10 ^ 8) := le_max_of_le_left (abs_le_absMax h)
  calc |x| ≤ max (rowAbsMax row) (1 / 10 ^ 8) := hmax
    _ = (127 : ℤ) * rowScale row := by
      rw [rowScale]
      push_cast
      ring

/-- The stored integer of a weight: the clamp changes nothing. -/
theorem quant_bounds (h : x ∈ row) :
    -127 ≤ roundEven (x / rowScale row) ∧ roundEven (x / rowScale row) ≤ 127 :=
  roundEven_div_bounds (rowScale_pos row) (abs_le_mul_rowScale h)

/-- Half a scale for the integer, and up to 127 times the error of the stored
scale. -/
theorem abs_sub_mul_le (h : x ∈ row) (scale : ℚ) :
    |x - roundEven (x / rowScale row) * scale| ≤
      rowScale row / 2 + 127 * |rowScale row - scale| := by
  rw [abs_sub_comm (rowScale row)]
  exact_mod_cast abs_sub_roundEven_div_mul_le (rowScale_pos row) (abs_le_mul_rowScale h) scale

/-- The error of a stored scale. -/
theorem abs_sub_half_le (row : List ℚ) :
    |rowScale row - half.nearest (rowScale row)| ≤
      max (rowScale row * (1 / 2 ^ 11)) (1 / 2 ^ 25) := by
  have h := half.abs_sub_nearest_le (rowScale_pos row)
  have hprec : (2 : ℚ) ^ (-(half.precision : ℤ)) = 1 / 2 ^ 11 := by
    show (2 : ℚ) ^ (-11 : ℤ) = _
    norm_num
  have hmin : (2 : ℚ) ^ (half.minExponent - 1) = 1 / 2 ^ 25 := by
    show (2 : ℚ) ^ (-24 - 1 : ℤ) = _
    norm_num
  rwa [hprec, hmin] at h

theorem singlePass_rebuilds (w : HalfMatrix) :
    Rebuilds w (singlePass w) fun s => s / 2 + 127 * max (s * (1 / 2 ^ 11)) (1 / 2 ^ 25) := by
  intro i row qs scale hrow hqs hscale c x q hx hq
  rw [singlePass, List.getElem?_map, hrow] at hqs hscale
  cases hqs
  cases hscale
  rw [quantRow, List.getElem?_map, hx] at hq
  cases hq
  have hmem := List.mem_of_getElem? hx
  obtain ⟨hlow, hhigh⟩ := quant_bounds hmem
  show |x - ((min (max (roundEven (x / rowScale row)) (-127)) 127 : ℤ) : ℚ) *
    half.nearest (rowScale row)| ≤ rowScale row / 2 + _
  rw [max_eq_left hlow, min_eq_left hhigh]
  refine le_trans (abs_sub_mul_le hmem _) ?_
  have hhalf := abs_sub_half_le row
  linarith

/-- A stored scale is a finite half. -/
theorem half_scale_le (w : HalfMatrix) (hrow : row ∈ w.rows) :
    half.nearest (rowScale row) ≤ 65504 := by
  have hmax : rowAbsMax row ≤ 65504 :=
    absMax_le (by norm_num) fun x hx => (w.finite row hrow x hx).le
  have hscale : rowScale row ≤ 65504 / 127 :=
    div_le_div_of_nonneg_right (max_le hmax (by norm_num)) (by norm_num)
  have hclose := (abs_le.mp (abs_sub_half_le row)).1
  have herror : max (rowScale row * (1 / 2 ^ 11)) (1 / 2 ^ 25) ≤ 1 :=
    max_le (by linarith) (by norm_num)
  linarith

/-! ## The shadow -/

/-- Blocks do not matter, the integers are bytes of the symmetric range, and a
weight is off by half a scale and 127 times the error of a half. -/
theorem shadow_accurate (minRows : Int) (w : HalfMatrix) (empty : Buffers) (sh : Shadow)
    (h : makeShadow minRows w empty = .ok (some sh)) :
    sh = singlePass w ∧
      (∀ (xs : List (List ℚ)) (bias : Option (List ℚ)) (blockRows : Nat) (scratch : Scratch)
        (out : Nat → Nat → ℚ), (∀ b, bias = some b → b.length = w.rows.length) →
        0 < blockRows → linearReleased sh xs bias blockRows scratch out =
          .ok (xs.map fun x => linear x (scaled sh.weightI8 sh.weightI8Scale) bias)) ∧
      (∀ qs ∈ sh.weightI8, ∀ q ∈ qs, -127 ≤ q ∧ q ≤ 127) ∧
      Rebuilds w sh fun s => s / 2 + 127 * max (s * (1 / 2 ^ 11)) (1 / 2 ^ 25) := by
  have heq := makeShadow_eq h
  subst heq
  refine ⟨rfl, ?_, ?_, singlePass_rebuilds w⟩
  · intro xs bias blockRows scratch out hbias hrows
    have hlen : (singlePass w).weightI8.length = w.rows.length := List.length_map ..
    have hscale : (singlePass w).weightI8Scale.length = (singlePass w).weightI8.length := by
      rw [hlen]
      exact List.length_map ..
    exact linearReleased_eq hscale (fun b hb => (hbias b hb).trans hlen.symm) hrows xs scratch out
  · intro qs hqs q hq
    obtain ⟨row, -, rfl⟩ := List.mem_map.mp hqs
    obtain ⟨x, -, rfl⟩ := List.mem_map.mp hq
    exact ⟨le_min (le_max_right _ _) (by norm_num), min_le_right _ _⟩

/-! ## A row of small weights -/

/-- One smallest half and zeros. -/
def tinyRow : List ℚ := 1 / 2 ^ 24 :: List.replicate 15 0

theorem isHalf_smallest : IsHalf (1 / 2 ^ 24) where
  le := by norm_num
  exact := by
    right
    have hquantum : half.quantum (1 / 2 ^ 24 : ℚ) = 1 / 2 ^ 24 := by
      rw [half.quantum_of_lt (by norm_num)]
      · show (2 : ℚ) ^ (-24 : ℤ) = _
        norm_num
      · show (1 / 2 ^ 24 : ℚ) < 2 ^ (-24 + 11 : ℤ)
        norm_num
    rw [abs_of_pos (by norm_num)]
    exact half.nearest_eq ⟨1, by rw [hquantum, Int.cast_one, one_mul]⟩

/-- Sixty-four such rows. -/
def tinyMatrix : HalfMatrix where
  rows := List.replicate 64 tinyRow
  cols := 16
  row_length := by
    intro row hrow
    rw [List.eq_of_mem_replicate hrow]
    rfl
  finite := by
    intro row hrow w hw
    rw [List.eq_of_mem_replicate hrow] at hw
    rcases List.mem_cons.mp hw with rfl | hzero
    · exact isHalf_smallest
    · rw [List.eq_of_mem_replicate hzero]
      exact ⟨by norm_num, Or.inl rfl⟩

theorem rowScale_tinyRow : rowScale tinyRow = 1 / 2 ^ 24 / 127 := by
  have hmax : rowAbsMax tinyRow = 1 / 2 ^ 24 := by
    norm_num [rowAbsMax, tinyRow, List.replicate]
  rw [rowScale, hmax, max_eq_left (by norm_num)]

theorem shadow_accurate_tiny :
    ∃ sh, makeShadow 64 tinyMatrix ⟨fun _ => [], fun _ => 0⟩ = .ok (some sh) ∧
      Rebuilds tinyMatrix sh fun s => s / 2 + 127 * max (s * (1 / 2 ^ 11)) (1 / 2 ^ 25) :=
  ⟨_, rfl, (shadow_accurate 64 tinyMatrix ⟨fun _ => [], fun _ => 0⟩ _ rfl).2.2.2⟩

/-- The stored scale of such a row is zero, and the weight is lost. -/
theorem tiny_weight_lost :
    ∃ sh, makeShadow 64 tinyMatrix ⟨fun _ => [], fun _ => 0⟩ = .ok (some sh) ∧
      ¬ Rebuilds tinyMatrix sh fun s => (1 / 2 + 127 * (1 / 2 ^ 11)) * s := by
  have hrun : ∃ sh, makeShadow 64 tinyMatrix ⟨fun _ => [], fun _ => 0⟩ = .ok (some sh) :=
    ⟨_, rfl⟩
  obtain ⟨sh, hsh⟩ := hrun
  refine ⟨sh, hsh, fun h => ?_⟩
  rw [makeShadow_eq hsh] at h
  have hzero : half.nearest (rowScale tinyRow) = 0 := by
    apply half.nearest_eq_zero (rowScale_pos _)
    rw [rowScale_tinyRow]
    show (1 / 2 ^ 24 / 127 : ℚ) < 2 ^ (-24 : ℤ) / 2
    norm_num
  have hweight := h 0 tinyRow (quantRow tinyRow) 0 rfl rfl (congrArg some hzero) 0 _ _ rfl rfl
  rw [rowScale_tinyRow] at hweight
  norm_num at hweight

end FlashNext.Ports.DenseInt8
