import Mathlib.Data.List.Basic

/-!
# Row-major blocks

A two-dimensional block is a list of rows of one width.  A transport that
knows nothing of the shape moves its entries in row-major order; the receiver
cuts what it gets into rows of the width of its own buffer.  When the two
shapes have the same number of entries per row, nothing is lost.  `flat_lt` and
`forall_flat` pass between indices of the sequence and rows with columns.
-/

namespace FlashNext.Verified.RowMajor

variable {α : Type*}

/-- Rows of `n` entries each. -/
structure Block (α : Type*) (n : Nat) where
  rows : List (List α)
  width : ∀ row ∈ rows, row.length = n

variable {n : Nat}

/-- The entries in row-major order. -/
def Block.flat (b : Block α n) : List α := b.rows.flatten

/-- Cut a sequence into `numRows` rows of `n` entries. -/
def ofFlat (n : Nat) : Nat → List α → List (List α)
  | 0, _ => []
  | numRows + 1, xs => xs.take n :: ofFlat n numRows (xs.drop n)

/-- Apply a map that turns rows of width `n` into rows of width `m`. -/
def Block.mapRows {m : Nat} (b : Block α n) (f : List α → List α)
    (hf : ∀ row, row.length = n → (f row).length = m) : Block α m where
  rows := b.rows.map f
  width := by
    intro row hrow
    obtain ⟨r, hr, rfl⟩ := List.mem_map.mp hrow
    exact hf r (b.width r hr)

/-- The slice `[:k]` of the rows. -/
def Block.takeRows (b : Block α n) (k : Nat) : Block α n where
  rows := b.rows.take k
  width := fun row hrow => b.width row (List.mem_of_mem_take hrow)

/-- Rebuild a block under an equal width. -/
def Block.castWidth {m : Nat} (b : Block α n) (h : n = m) : Block α m where
  rows := b.rows
  width := fun row hrow => h ▸ b.width row hrow

@[simp] theorem Block.rows_mapRows {m : Nat} (b : Block α n)
    (f : List α → List α) (hf : ∀ row, row.length = n → (f row).length = m) :
    (b.mapRows f hf).rows = b.rows.map f := rfl

@[simp] theorem Block.rows_takeRows (b : Block α n) (k : Nat) :
    (b.takeRows k).rows = b.rows.take k := rfl

@[simp] theorem Block.rows_castWidth {m : Nat} (b : Block α n) (h : n = m) :
    (b.castWidth h).rows = b.rows := rfl

private theorem length_flatten_rows (rows : List (List α))
    (h : ∀ row ∈ rows, row.length = n) :
    rows.flatten.length = rows.length * n := by
  induction rows with
  | nil => simp
  | cons row rows ih =>
      have hrow : row.length = n := h row List.mem_cons_self
      have hrest := ih fun r hr => h r (List.mem_cons_of_mem _ hr)
      rw [List.flatten_cons, List.length_append, hrow, hrest,
        List.length_cons, Nat.succ_mul, Nat.add_comm]

theorem Block.length_flat (b : Block α n) :
    b.flat.length = b.rows.length * n :=
  length_flatten_rows b.rows b.width

theorem ofFlat_flatten (rows : List (List α))
    (h : ∀ row ∈ rows, row.length = n) :
    ofFlat n rows.length rows.flatten = rows := by
  induction rows with
  | nil => rfl
  | cons row rows ih =>
      have hrow : row.length = n := h row List.mem_cons_self
      have hrest := ih fun r hr => h r (List.mem_cons_of_mem _ hr)
      rw [List.flatten_cons, List.length_cons, ofFlat,
        List.take_left' hrow, List.drop_left' hrow, hrest]

@[simp] theorem ofFlat_length (n m : Nat) (xs : List α) : (ofFlat n m xs).length = m := by
  induction m generalizing xs with
  | zero => rfl
  | succ m ih => rw [ofFlat, List.length_cons, ih]

/-- Rows cut out of enough entries are full. -/
theorem length_of_mem_ofFlat {m : Nat} {xs row : List α} (hlen : xs.length = m * n)
    (hrow : row ∈ ofFlat n m xs) : row.length = n := by
  induction m generalizing xs with
  | zero => cases hrow
  | succ m ih =>
      rw [Nat.succ_mul] at hlen
      rcases List.mem_cons.mp hrow with rfl | hrest
      · rw [List.length_take]
        omega
      · exact ih (by rw [List.length_drop]; omega) hrest

/-- Cutting loses nothing. -/
theorem flatten_ofFlat {m : Nat} {xs : List α} (hlen : xs.length = m * n) :
    (ofFlat n m xs).flatten = xs := by
  induction m generalizing xs with
  | zero =>
      rw [Nat.zero_mul] at hlen
      rw [List.eq_nil_of_length_eq_zero hlen]
      rfl
  | succ m ih =>
      rw [Nat.succ_mul] at hlen
      rw [ofFlat, List.flatten_cons, ih (by rw [List.length_drop]; omega),
        List.take_append_drop]

/-- A receiver whose buffer has the shape of the block reads the block. -/
theorem ofFlat_flat (b : Block α n) :
    ofFlat n b.rows.length b.flat = b.rows :=
  ofFlat_flatten b.rows b.width

/-! ## Indices -/

/-- A row and a column are an index of the block. -/
theorem flat_lt {rows cols row col : Nat} (hrow : row < rows) (hcol : col < cols) :
    row * cols + col < rows * cols := by
  have hmul := Nat.mul_le_mul_right cols (Nat.succ_le_of_lt hrow)
  rw [Nat.succ_mul] at hmul
  omega

/-- Every index of a block is in a row and a column. -/
theorem forall_flat {rows cols : Nat} {P : Nat → Prop}
    (h : ∀ row < rows, ∀ col < cols, P (row * cols + col)) {i : Nat} (hi : i < rows * cols) :
    P i := by
  have hcols : 0 < cols := Nat.pos_of_mul_pos_left (Nat.zero_lt_of_lt hi)
  have hrow : i / cols < rows := (Nat.div_lt_iff_lt_mul hcols).mpr hi
  have hsplit : i / cols * cols + i % cols = i := by
    rw [Nat.mul_comm]
    exact Nat.div_add_mod i cols
  rw [← hsplit]
  exact h _ hrow _ (Nat.mod_lt i hcols)

end FlashNext.Verified.RowMajor
