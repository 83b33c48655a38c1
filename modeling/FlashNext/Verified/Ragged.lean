import FlashNext.Verified.Varlen

/-!
# Index arithmetic of ragged batches

Rows of several lengths are packed one after another.  The indices of a piece of every
request are made without a loop: a cumulative sum gives the first rows, `repeat` spreads
them over the rows of the piece, and the running number inside the piece is added.
-/

namespace FlashNext.Verified.Ragged

open FlashNext.Verified.Varlen

variable {α τ : Type*}

/-! ## The operations -/

/-- `np.cumsum`. -/
def cumsum (xs : List Nat) : List Nat := (cuSeqlens 0 xs).tail

/-- `np.repeat` with a count for each entry. -/
def repeatBy (xs : List α) (counts : List Nat) : List α :=
  (List.zipWith List.replicate counts xs).flatten

/-- `xs[indices]`. -/
def gather (xs : List α) (indices : List Nat) : Option (List α) := indices.mapM (xs[·]?)

/-- The first row of each request. -/
def starts : Nat → List Nat → List Nat
  | _, [] => []
  | start, len :: lens => start :: starts (start + len) lens

theorem length_starts (start : Nat) (lens : List Nat) :
    (starts start lens).length = lens.length := by
  induction lens generalizing start with
  | nil => rfl
  | cons len lens ih => exact congrArg (· + 1) (ih _)

theorem length_cumsum (lens : List Nat) : (cumsum lens).length = lens.length := by
  rw [cumsum, List.length_tail, length_cuSeqlens, Nat.add_sub_cancel]

/-! ## Cumulative sums -/

private theorem tail_cuSeqlens_cons (start len : Nat) (lens : List Nat) :
    (cuSeqlens start (len :: lens)).tail =
      (start + len) :: (cuSeqlens (start + len) lens).tail := by
  cases lens <;> rfl

/-- A cumulative sum less the lengths gives the first rows. -/
theorem cuSeqlens_sub (start : Nat) (lens : List Nat) :
    List.zipWith (· - ·) (cuSeqlens start lens).tail lens = starts start lens := by
  induction lens generalizing start with
  | nil => rfl
  | cons len lens ih =>
      rw [tail_cuSeqlens_cons, List.zipWith_cons_cons, ih, Nat.add_sub_cancel]
      rfl

theorem cumsum_sub (lens : List Nat) :
    List.zipWith (· - ·) (cumsum lens) lens = starts 0 lens := cuSeqlens_sub 0 lens

/-- The last entry counts all rows. -/
theorem getLast?_cumsum (lens : List Nat) (h : lens ≠ []) :
    (cumsum lens).getLast? = some lens.sum := by
  have hpos : 0 < lens.length := List.length_pos_iff.mpr h
  rw [cumsum, List.getLast?_eq_getElem?, List.getElem?_tail, List.length_tail,
    length_cuSeqlens, Nat.add_sub_cancel, Nat.sub_add_cancel hpos,
    getElem?_cuSeqlens 0 lens (Nat.le_refl _), List.take_length, Nat.zero_add]

/-! ## Offsets -/

/-- The lengths between the offsets. -/
theorem cuSeqlens_tail_sub (start : Nat) (lens : List Nat) :
    List.zipWith (· - ·) (cuSeqlens start lens).tail (cuSeqlens start lens) = lens := by
  induction lens generalizing start with
  | nil => rfl
  | cons len lens ih =>
      have hrest := ih (start + len)
      have hcons : cuSeqlens start (len :: lens) = start :: cuSeqlens (start + len) lens := rfl
      have htail : cuSeqlens (start + len) lens =
          (start + len) :: (cuSeqlens (start + len) lens).tail := by cases lens <;> rfl
      rw [hcons, List.tail_cons, htail, List.zipWith_cons_cons, ← htail, hrest,
        Nat.add_sub_cancel_left]

theorem cons_cumsum (lens : List Nat) : 0 :: cumsum lens = cuSeqlens 0 lens := by
  cases lens <;> rfl

theorem dropLast_cuSeqlens (start : Nat) (lens : List Nat) :
    (cuSeqlens start lens).dropLast = starts start lens := by
  induction lens generalizing start with
  | nil => rfl
  | cons len lens ih =>
      have hne : cuSeqlens (start + len) lens ≠ [] := by cases lens <;> exact List.cons_ne_nil _ _
      rw [cuSeqlens, List.dropLast_cons_of_ne_nil hne, ih, starts]

/-- Requests of one row. -/
theorem cuSeqlens_ones (start : Nat) (batch : List τ) :
    cuSeqlens start (batch.map fun _ => 1) = List.range' start (batch.length + 1) := by
  induction batch generalizing start with
  | nil => rfl
  | cons r batch ih => exact congrArg (start :: ·) (ih (start + 1))

theorem getLast?_cuSeqlens (start : Nat) (lens : List Nat) :
    (cuSeqlens start lens).getLast? = some (start + lens.sum) := by
  rw [List.getLast?_eq_getElem?, length_cuSeqlens, Nat.add_sub_cancel,
    getElem?_cuSeqlens start lens (Nat.le_refl _), List.take_length]

/-- Entry `i` counts the rows up to request `i`. -/
theorem getElem?_cumsum (lens : List Nat) {i : Nat} (hi : i < lens.length) :
    (cumsum lens)[i]? = some (lens.take (i + 1)).sum := by
  rw [cumsum, List.getElem?_tail, getElem?_cuSeqlens 0 lens hi, Nat.zero_add]

theorem sum_take_succ {f : τ → Nat} {batch : List τ} {i : Nat} {r : τ}
    (hi : batch[i]? = some r) :
    ((batch.map f).take (i + 1)).sum = ((batch.take i).map f).sum + f r := by
  rw [← List.map_take, List.take_add_one, hi, Option.toList_some, List.map_append,
    List.sum_append, List.map_singleton, List.sum_singleton]

/-! ## Running numbers -/

/-- The running numbers inside the requests. -/
theorem arange_sub (start : Nat) (lens : List Nat) :
    List.zipWith (· - ·) (List.range' start lens.sum) (repeatBy (starts start lens) lens) =
      lens.flatMap List.range := by
  induction lens generalizing start with
  | nil => rfl
  | cons len lens ih =>
      have hown : List.zipWith (· - ·) (List.range' start len) (List.replicate len start) =
          List.range len := by
        apply List.ext_getElem
        · rw [List.length_zipWith, List.length_range', List.length_replicate, List.length_range,
            Nat.min_self]
        · intro i _ hi
          rw [List.getElem_zipWith, List.getElem_range', List.getElem_replicate,
            List.getElem_range, Nat.one_mul, Nat.add_sub_cancel_left]
      rw [List.sum_cons, ← List.range'_append_1, starts, repeatBy, List.zipWith_cons_cons,
        List.flatten_cons, List.zipWith_append (by rw [List.length_range',
          List.length_replicate]), hown, List.flatMap_cons]
      exact congrArg _ (ih (start + len))

/-- First rows spread over their pieces, and the running numbers. -/
theorem repeatBy_add (bases counts : List Nat) (h : bases.length = counts.length) :
    List.zipWith (· + ·) (repeatBy bases counts) (counts.flatMap List.range) =
      (List.zipWith List.range' bases counts).flatten := by
  induction counts generalizing bases with
  | nil =>
      rw [List.length_eq_zero_iff.mp h]
      rfl
  | cons count counts ih =>
      cases bases with
      | nil => cases h
      | cons base bases =>
          have hown : List.zipWith (· + ·) (List.replicate count base) (List.range count) =
              List.range' base count := by
            apply List.ext_getElem
            · rw [List.length_zipWith, List.length_range', List.length_replicate,
                List.length_range, Nat.min_self]
            · intro i _ hi
              rw [List.getElem_zipWith, List.getElem_range', List.getElem_replicate,
                List.getElem_range, Nat.one_mul]
          rw [repeatBy, List.zipWith_cons_cons, List.flatten_cons, List.flatMap_cons,
            List.zipWith_append (by rw [List.length_range, List.length_replicate]), hown,
            List.zipWith_cons_cons, List.flatten_cons]
          exact congrArg _ (ih bases (Nat.succ.inj h))

/-- Pieces of one row. -/
theorem flatten_range'_one (bases : List Nat) {counts : List Nat}
    (h : counts = bases.map fun _ => 1) :
    (List.zipWith List.range' bases counts).flatten = bases := by
  subst h
  induction bases with
  | nil => rfl
  | cons base bases ih => exact congrArg (base :: ·) ih

/-! ## Gathering -/

/-- The rows from `start` on. -/
theorem gather_range' {xs : List α} {start count : Nat} (h : start + count ≤ xs.length) :
    gather xs (List.range' start count) = some ((xs.drop start).take count) := by
  induction count generalizing start with
  | zero => rfl
  | succ count ih =>
      have hlt : start < xs.length := by omega
      have hrest : gather xs (List.range' (start + 1) count) =
          some ((xs.drop (start + 1)).take count) := ih (by omega)
      rw [gather, List.range'_succ, List.mapM_cons, List.getElem?_eq_getElem hlt]
      rw [gather] at hrest
      rw [hrest, List.drop_eq_getElem_cons hlt, List.take_succ_cons]
      rfl

theorem gather_append {xs ys zs : List α} {as bs : List Nat} (hys : gather xs as = some ys)
    (hzs : gather xs bs = some zs) : gather xs (as ++ bs) = some (ys ++ zs) := by
  rw [gather] at hys hzs
  rw [gather, List.mapM_append, hys, hzs]
  rfl

/-- What is gathered from the rows of packed requests: of each request the rows behind the
first `skip`. -/
theorem gather_pieces (before behind : List α) (ps : List τ) (rows : τ → List α)
    (len skip count : τ → Nat) (hlen : ∀ p ∈ ps, (rows p).length = len p)
    (hfits : ∀ p ∈ ps, skip p + count p ≤ len p) :
    gather (before ++ (ps.flatMap rows ++ behind))
        (List.zipWith List.range'
          (List.zipWith (· + ·) (starts before.length (ps.map len)) (ps.map skip))
          (ps.map count)).flatten =
      some (ps.flatMap fun p => ((rows p).drop (skip p)).take (count p)) := by
  induction ps generalizing before with
  | nil => rfl
  | cons p ps ih =>
      have hlenp := hlen p List.mem_cons_self
      have hfitsp := hfits p List.mem_cons_self
      have hown : gather (before ++ (((p :: ps).flatMap rows) ++ behind))
          (List.range' (before.length + skip p) (count p)) =
            some (((rows p).drop (skip p)).take (count p)) := by
        have hdrop : (before ++ ((p :: ps).flatMap rows ++ behind)).drop
            (before.length + skip p) = (rows p).drop (skip p) ++ (ps.flatMap rows ++ behind) := by
          rw [List.drop_length_add_append, List.flatMap_cons, List.append_assoc,
            List.drop_append_of_le_length (by omega)]
        have htake : count p ≤ ((rows p).drop (skip p)).length := by
          rw [List.length_drop]
          omega
        rw [gather_range', hdrop, List.take_append_of_le_length htake]
        rw [List.length_append, List.length_append, List.flatMap_cons, List.length_append]
        omega
      have hrest := ih (before ++ rows p) (fun q hq => hlen q (List.mem_cons_of_mem _ hq))
        fun q hq => hfits q (List.mem_cons_of_mem _ hq)
      rw [List.length_append, hlenp, List.append_assoc] at hrest
      rw [List.map_cons, List.map_cons, List.map_cons, starts, List.zipWith_cons_cons,
        List.zipWith_cons_cons, List.flatten_cons]
      exact gather_append hown (by rw [List.flatMap_cons, List.append_assoc]; exact hrest)

/-! ## Pieces of the requests -/

/-- The first row of each request, moved on by `skip`. -/
def bases (len skip : τ → Nat) (batch : List τ) : List Nat :=
  List.zipWith (· + ·) (starts 0 (batch.map len)) (batch.map skip)

theorem length_bases (len skip : τ → Nat) (batch : List τ) :
    (bases len skip batch).length = batch.length := by
  rw [bases, List.length_zipWith, length_starts, List.length_map, List.length_map, Nat.min_self]

/-- The last rows of the requests, counted from their ends. -/
theorem cuSeqlens_sub_eq_bases (start : Nat) (len last : τ → Nat) (batch : List τ)
    (h : ∀ r ∈ batch, last r ≤ len r) :
    List.zipWith (· - ·) (cuSeqlens start (batch.map len)).tail (batch.map last) =
      List.zipWith (· + ·) (starts start (batch.map len))
        (batch.map fun r => len r - last r) := by
  induction batch generalizing start with
  | nil => rfl
  | cons r batch ih =>
      have hle := h r List.mem_cons_self
      have hrest := ih (start + len r) fun q hq => h q (List.mem_cons_of_mem _ hq)
      have htail : (cuSeqlens start ((r :: batch).map len)).tail =
          (start + len r) :: (cuSeqlens (start + len r) (batch.map len)).tail := by
        cases batch <;> rfl
      rw [htail, List.map_cons, List.map_cons, List.map_cons, List.zipWith_cons_cons, hrest,
        starts, List.zipWith_cons_cons, Nat.add_sub_assoc hle]

theorem cumsum_sub_eq_bases (len last : τ → Nat) (batch : List τ)
    (h : ∀ r ∈ batch, last r ≤ len r) :
    List.zipWith (· - ·) (cumsum (batch.map len)) (batch.map last) =
      bases len (fun r => len r - last r) batch :=
  cuSeqlens_sub_eq_bases 0 len last batch h

theorem map_add_flatten (k : Nat) (starts counts : List Nat) :
    (List.zipWith List.range' starts counts).flatten.map (· + k) =
      (List.zipWith List.range' (starts.map (· + k)) counts).flatten := by
  induction starts generalizing counts with
  | nil => rfl
  | cons start starts ih =>
      cases counts with
      | nil => rfl
      | cons count counts =>
          have hown : (List.range' start count).map (· + k) = List.range' (start + k) count := by
            rw [Nat.add_comm start k, ← List.map_add_range']
            exact List.map_congr_left fun i _ => Nat.add_comm i k
          rw [List.zipWith_cons_cons, List.flatten_cons, List.map_append, ih, hown,
            List.map_cons, List.zipWith_cons_cons, List.flatten_cons]

theorem bases_add (len skip : τ → Nat) (k : Nat) (batch : List τ) :
    (bases len skip batch).map (· + k) = bases len (fun r => skip r + k) batch := by
  rw [bases, bases, List.map_zipWith, List.zipWith_map_right, List.zipWith_map_right]
  exact congrFun (congrFun (congrArg List.zipWith
    (funext fun a => funext fun r => Nat.add_assoc a (skip r) k)) _) _

/-- What is gathered at the pieces of the requests. -/
theorem gather_bases (batch : List τ) (rows : τ → List α) (behind : List α)
    (len skip count : τ → Nat) (hlen : ∀ r ∈ batch, (rows r).length = len r)
    (hfits : ∀ r ∈ batch, skip r + count r ≤ len r) :
    gather (batch.flatMap rows ++ behind)
        (List.zipWith List.range' (bases len skip batch) (batch.map count)).flatten =
      some (batch.flatMap fun r => ((rows r).drop (skip r)).take (count r)) :=
  gather_pieces [] behind batch rows len skip count hlen hfits

/-- The last row of each request. -/
theorem cumsum_sub_one {len : τ → Nat} {batch : List τ} (h : ∀ r ∈ batch, 0 < len r) :
    (cumsum (batch.map len)).map (· - 1) = bases len (fun r => len r - 1) batch := by
  rw [← cumsum_sub_eq_bases len (fun _ => 1) batch h]
  apply List.ext_getElem
  · rw [List.length_map, List.length_zipWith, length_cumsum, List.length_map, List.length_map,
      Nat.min_self]
  · intro i _ _
    rw [List.getElem_map, List.getElem_zipWith, List.getElem_map]

/-- One row of each request. -/
theorem gather_single {batch : List τ} (rows : τ → List α) (behind : List α)
    (len skip : τ → Nat) (hlen : ∀ r ∈ batch, (rows r).length = len r)
    (hfits : ∀ r ∈ batch, skip r < len r) :
    gather (batch.flatMap rows ++ behind) (bases len skip batch) =
      some (batch.flatMap fun r => ((rows r).drop (skip r)).take 1) := by
  have hones : (batch.map fun _ => 1) = (bases len skip batch).map fun _ => 1 := by
    rw [List.map_const', List.map_const', length_bases]
  rw [← gather_bases batch rows behind len skip (fun _ => 1) hlen hfits,
    flatten_range'_one _ hones]

theorem bases_zero (len : τ → Nat) (batch : List τ) :
    bases len (fun _ => 0) batch = starts 0 (batch.map len) := by
  apply List.ext_getElem
  · rw [length_bases, length_starts, List.length_map]
  · intro i _ _
    simp only [bases, List.getElem_zipWith, List.getElem_map, Nat.add_zero]

section Offsets

variable {len skip : τ → Nat} {batch : List τ}

/-- The entry of request `i`. -/
theorem getElem?_bases_from (start : Nat) {i : Nat} {r : τ} (hi : batch[i]? = some r) :
    (List.zipWith (· + ·) (starts start (batch.map len)) (batch.map skip))[i]? =
      some (start + ((batch.take i).map len).sum + skip r) := by
  induction batch generalizing start i with
  | nil => cases hi
  | cons q batch ih =>
      cases i with
      | zero =>
          cases hi
          rfl
      | succ i =>
          rw [List.map_cons, List.map_cons, starts, List.zipWith_cons_cons,
            List.getElem?_cons_succ, ih (start + len q) hi, List.take_succ_cons, List.map_cons,
            List.sum_cons, Nat.add_assoc start]

theorem getElem?_bases {i : Nat} {r : τ} (hi : batch[i]? = some r) :
    (bases len skip batch)[i]? = some (((batch.take i).map len).sum + skip r) := by
  rw [bases, getElem?_bases_from 0 hi, Nat.zero_add]

theorem le_of_mem_bases_from {start x : Nat}
    (h : x ∈ List.zipWith (· + ·) (starts start (batch.map len)) (batch.map skip)) :
    start ≤ x := by
  induction batch generalizing start with
  | nil => cases h
  | cons q batch ih =>
      rcases List.mem_cons.mp h with rfl | hrest
      · exact Nat.le_add_right _ _
      · exact Nat.le_trans (Nat.le_add_right _ _) (ih hrest)

theorem pairwise_bases_from (start : Nat) (h : ∀ r ∈ batch, skip r < len r) :
    (List.zipWith (· + ·) (starts start (batch.map len)) (batch.map skip)).Pairwise (· < ·) := by
  induction batch generalizing start with
  | nil => exact List.Pairwise.nil
  | cons q batch ih =>
      refine List.pairwise_cons.mpr ⟨fun x hx => ?_, ih (start + len q) fun r hr =>
        h r (List.mem_cons_of_mem _ hr)⟩
      exact Nat.lt_of_lt_of_le (Nat.add_lt_add_left (h q List.mem_cons_self) start)
        (le_of_mem_bases_from hx)

theorem nodup_bases (h : ∀ r ∈ batch, skip r < len r) : (bases len skip batch).Nodup :=
  (pairwise_bases_from 0 h).imp Nat.ne_of_lt

/-- Another row of request `i` is not an entry. -/
theorem notMem_bases_from {s i j : Nat} {r : τ} (hi : batch[i]? = some r) (hj : j < len r)
    (hne : j ≠ skip r) (h : ∀ q ∈ batch, skip q < len q) :
    s + ((batch.take i).map len).sum + j ∉
      List.zipWith (· + ·) (starts s (batch.map len)) (batch.map skip) := by
  induction batch generalizing s i with
  | nil => cases hi
  | cons q batch ih =>
      have hrest := fun p hp => h p (List.mem_cons_of_mem _ hp)
      have hq := h q List.mem_cons_self
      intro hmem
      cases i with
      | zero =>
          cases hi
          rw [List.take_zero, List.map_nil, List.sum_nil, Nat.add_zero] at hmem
          rcases List.mem_cons.mp hmem with heq | hmem
          · exact hne (Nat.add_left_cancel heq)
          · have hle := le_of_mem_bases_from hmem
            omega
      | succ i =>
          rw [List.take_succ_cons, List.map_cons (l := batch.take i), List.sum_cons,
            ← Nat.add_assoc s] at hmem
          rcases List.mem_cons.mp hmem with heq | hmem
          · have hsame : s + len q + ((batch.take i).map len).sum + j = s + skip q := heq
            omega
          · exact ih hi hrest hmem

theorem notMem_bases {i j : Nat} {r : τ} (hi : batch[i]? = some r) (hj : j < len r)
    (hne : j ≠ skip r) (h : ∀ q ∈ batch, skip q < len q) :
    ((batch.take i).map len).sum + j ∉ bases len skip batch := by
  have hnot := notMem_bases_from (s := 0) hi hj hne h
  rwa [Nat.zero_add] at hnot

end Offsets

/-! ## Cutting rows apart -/

/-- Each request with its rows. -/
def cut (n : τ → Nat) : List τ → List α → List (τ × List α)
  | [], _ => []
  | r :: batch, rows => (r, rows.take (n r)) :: cut n batch (rows.drop (n r))

section Cut

variable {n : τ → Nat} {batch : List τ} {rows : List α}

theorem map_fst_cut (n : τ → Nat) (batch : List τ) (rows : List α) :
    (cut n batch rows).map Prod.fst = batch := by
  induction batch generalizing rows with
  | nil => rfl
  | cons r batch ih => exact congrArg (r :: ·) (ih _)

/-- Nothing is lost where the lengths add up. -/
theorem flatMap_snd_cut (h : rows.length = (batch.map n).sum) :
    (cut n batch rows).flatMap Prod.snd = rows := by
  induction batch generalizing rows with
  | nil => exact (List.eq_nil_of_length_eq_zero h).symm
  | cons r batch ih =>
      rw [List.map_cons, List.sum_cons] at h
      have hrest := ih (show (rows.drop (n r)).length = _ by rw [List.length_drop]; omega)
      rw [cut, List.flatMap_cons, hrest, List.take_append_drop]

theorem length_of_mem_cut (h : rows.length = (batch.map n).sum) {q : τ × List α}
    (hq : q ∈ cut n batch rows) : q.2.length = n q.1 := by
  induction batch generalizing rows with
  | nil => cases hq
  | cons r batch ih =>
      rw [List.map_cons, List.sum_cons] at h
      rcases List.mem_cons.mp hq with rfl | hq
      · have hle : n r ≤ rows.length := by omega
        rw [List.length_take, Nat.min_eq_left hle]
      · exact ih (by rw [List.length_drop]; omega) hq

/-- The rows of request `i` begin behind those of the requests before it. -/
theorem exists_of_mem_cut {q : τ × List α} (hq : q ∈ cut n batch rows) :
    ∃ i, batch[i]? = some q.1 ∧
      q.2 = (rows.drop ((batch.take i).map n).sum).take (n q.1) := by
  induction batch generalizing rows with
  | nil => cases hq
  | cons r batch ih =>
      rcases List.mem_cons.mp hq with rfl | hq
      · exact ⟨0, rfl, rfl⟩
      · obtain ⟨i, hi, hrows⟩ := ih hq
        refine ⟨i + 1, hi, ?_⟩
        rw [hrows, List.drop_drop, List.take_succ_cons, List.map_cons, List.sum_cons]

end Cut

end FlashNext.Verified.Ragged
