import FlashNext.Ports.RowGather
import Mathlib.Data.List.Sort

/-!
# The two row gathers agree

Row `k` of the output is row `ids[k]` of the table, dequantised, however the
rows were read.  In the sorted gather every run is a stretch of the sorting
permutation, so that the runs together write every row once.
-/

namespace FlashNext.Ports.RowGather

open FlashNext.Verified.Checked
open FlashNext.Verified.PyLists
open FlashNext.Verified.Runs
open FlashNext.Verified.Scatter
open FlashNext.Verified.Strided

section Rows

variable {H F : Type} [NatCast F] [Sub F] [Mul F] (f32 : H → F)

/-! ## What a row of the table means -/

/-- The 4-bit value of column `c`, low nibble first. -/
def nibble (packed : List UInt8) (c : Nat) : Nat :=
  (packed[c / 2]?).elim 0 fun b => if c % 2 = 0 then b.toNat % 16 else b.toNat / 16

/-- Column `c` of a row whose groups are `g` columns wide. -/
def column (g : Nat) (packed : List UInt8) (scales : List H) (c : Nat) : F :=
  ((nibble packed c : F) - ((8 : Nat) : F)) *
    ((scales[c / g]?).elim ((0 : Nat) : F) f32)

/-- Row `i` of the table, dequantised. -/
def tableRow (t : QuantTable H) (i : Nat) : List F :=
  (t.shards[i / ROWS_PER_SHARD]?).elim [] fun sh =>
    (List.range t.width).map
      (column f32 (t.width / t.groups) (sh.q (i % ROWS_PER_SHARD)) (sh.s (i % ROWS_PER_SHARD)))

theorem lo_eq (b : UInt8) : lo b = b.toNat % 16 := by
  show (b &&& 0xF).toNat = _
  rw [UInt8.toNat_and]
  exact Nat.and_two_pow_sub_one_eq_mod b.toNat 4

theorem hi_eq (b : UInt8) : hi b = b.toNat / 16 := by
  show (b >>> 4).toNat = _
  rw [UInt8.toNat_shiftRight]
  show b.toNat >>> 4 = _
  rw [Nat.shiftRight_eq_div_pow]

/-- A row has a scale for every column. -/
structure Shaped (width g : Nat) (packed : List UInt8) (scales : List H) : Prop where
  pos : 0 < g
  even : 2 * packed.length = width
  groups : scales.length * g = width

variable {width g c : Nat} {packed : List UInt8} {scales : List H}

theorem column_eq (h : Shaped width g packed scales) (hc : c < width) :
    ∃ b s, packed[c / 2]? = some b ∧ scales[c / g]? = some s ∧
      column f32 g packed scales c =
        (((if c % 2 = 0 then lo b else hi b : Nat) : F) - ((8 : Nat) : F)) * f32 s := by
  have hbyte : c / 2 < packed.length := by
    have := h.even
    omega
  have hscale : c / g < scales.length := by
    rw [Nat.div_lt_iff_lt_mul h.pos, h.groups]
    exact hc
  refine ⟨packed[c / 2], scales[c / g], List.getElem?_eq_getElem hbyte,
    List.getElem?_eq_getElem hscale, ?_⟩
  rw [column, nibble, List.getElem?_eq_getElem hbyte, List.getElem?_eq_getElem hscale, lo_eq,
    hi_eq]
  rfl

/-- Interleaving by stride gives every column its value. -/
theorem smallRow_eq {empty : List F} (h : Shaped width g packed scales) {gPerRow : Nat}
    (hempty : empty.length = width) (hg : width / gPerRow = g) :
    smallRow f32 width gPerRow empty packed scales =
      (List.range width).map (column f32 g packed scales) := by
  apply List.ext_getElem?
  intro c
  by_cases hc : c < width
  · obtain ⟨b, s, hb, hs, hcol⟩ := column_eq f32 h hc
    have hlen : ∀ f : UInt8 → F, empty.length ≤ 2 * (packed.map f).length := by
      intro f
      have := h.even
      rw [List.length_map]
      omega
    rw [smallRow, List.getElem?_zipWith,
      assignStrided_both (by omega) (hlen _) (hlen _), hg, repeatEach_getElem? h.pos,
      List.getElem?_map, List.getElem?_map, List.getElem?_map, hb, hs, List.getElem?_map,
      List.getElem?_range hc]
    by_cases heven : c % 2 = 0
    · simp only [hcol, if_pos heven, Option.map_some]
    · simp only [hcol, if_neg heven, Option.map_some]
  · have hsmall : (smallRow f32 width gPerRow empty packed scales).length ≤ c := by
      rw [smallRow, List.length_zipWith, assignStrided_length, assignStrided_length]
      omega
    rw [List.getElem?_eq_none hsmall, List.getElem?_eq_none]
    rw [List.length_map, List.length_range]
    omega

/-- So does stacking the nibbles in pairs. -/
theorem dequantRow_eq (h : Shaped width g packed scales) :
    dequantRow f32 g packed scales =
      (List.range width).map (column f32 g packed scales) := by
  apply List.ext_getElem?
  intro c
  by_cases hc : c < width
  · obtain ⟨b, s, hb, hs, hcol⟩ := column_eq f32 h hc
    rw [dequantRow, List.getElem?_zipWith, stackPairs_getElem?, repeatEach_getElem? h.pos,
      List.getElem?_map, hb, hs, List.getElem?_map, List.getElem?_range hc]
    by_cases heven : c % 2 = 0
    · simp only [hcol, if_pos heven, Option.map_some]
    · simp only [hcol, if_neg heven, Option.map_some]
  · have hsmall : (dequantRow f32 g packed scales).length ≤ c := by
      have := h.even
      rw [dequantRow, List.length_zipWith, stackPairs_length]
      omega
    rw [List.getElem?_eq_none hsmall, List.getElem?_eq_none]
    rw [List.length_map, List.length_range]
    omega

/-! ## Reading a row -/

omit [NatCast F] [Sub F] [Mul F] in
theorem QuantTable.groups_pos (t : QuantTable H) : 0 < t.groups := by
  apply Nat.pos_of_ne_zero
  intro hzero
  have hdvd := t.width_dvd
  rw [hzero, Nat.mul_zero, Nat.zero_dvd] at hdvd
  have := t.width_pos
  omega

theorem QuantTable.shaped (t : QuantTable H) {sh : Shard H} (hsh : sh ∈ t.shards) {l : Nat}
    (hl : l < ROWS_PER_SHARD) : Shaped t.width (t.width / t.groups) (sh.q l) (sh.s l) := by
  obtain ⟨m, hm⟩ := t.width_dvd
  have hgroups := t.groups_pos
  have hdiv : t.width / t.groups = 2 * m := by
    rw [hm, Nat.mul_comm 2, Nat.mul_assoc, Nat.mul_div_cancel_left _ hgroups]
  have hm0 : 0 < m := by
    apply Nat.pos_of_ne_zero
    intro hzero
    have := t.width_pos
    rw [hm, hzero, Nat.mul_zero] at this
    exact Nat.lt_irrefl 0 this
  have hcomm : t.groups * (2 * m) = 2 * t.groups * m := by
    rw [Nat.mul_left_comm, Nat.mul_assoc]
  refine ⟨by omega, ?_, ?_⟩
  · rw [t.q_length sh hsh l hl]
    have heven : t.width = 2 * (t.groups * m) := by rw [hm, Nat.mul_assoc]
    omega
  · rw [t.s_length sh hsh l hl, hdiv, hcomm, ← hm]

/-- The id of a row of the table. -/
def InTable (t : QuantTable H) (i : Int) : Prop :=
  0 ≤ i ∧ i < t.shards.length * (ROWS_PER_SHARD : Int)

/-- An id is split at the shard's first row. -/
theorem InTable.split {t : QuantTable H} {i : Int} (h : InTable t i) :
    ∃ sh ∈ t.shards, getItem t.shards (i / ROWS_PER_SHARD) = .ok sh ∧
      t.shards[i.toNat / ROWS_PER_SHARD]? = some sh ∧
      i - i / ROWS_PER_SHARD * ROWS_PER_SHARD = ((i.toNat % ROWS_PER_SHARD : Nat) : Int) := by
  obtain ⟨hlow, hhigh⟩ := h
  obtain ⟨n, rfl⟩ := Int.eq_ofNat_of_zero_le hlow
  have hrows : 0 < ROWS_PER_SHARD := by decide
  have hlt : n < t.shards.length * ROWS_PER_SHARD := by exact_mod_cast hhigh
  have hshard : n / ROWS_PER_SHARD < t.shards.length :=
    (Nat.div_lt_iff_lt_mul hrows).mpr hlt
  have hget := List.getElem?_eq_getElem hshard
  refine ⟨_, List.getElem_mem hshard, ?_, hget, ?_⟩
  · show getItem t.shards ((n : Int) / (ROWS_PER_SHARD : Int)) = _
    rw [← Int.natCast_ediv]
    exact getItem_natCast hshard
  · show (n : Int) - (n : Int) / (ROWS_PER_SHARD : Int) * (ROWS_PER_SHARD : Int) = _
    have hdiv := Int.emod_add_mul_ediv (n : Int) (ROWS_PER_SHARD : Int)
    rw [Int.mul_comm] at hdiv
    show _ = ((n % ROWS_PER_SHARD : Nat) : Int)
    push_cast
    omega

theorem rowAt_natCast {β : Type} (rows : Nat → β) {l : Nat} (hl : l < ROWS_PER_SHARD) :
    rowAt rows (l : Int) = .ok (rows l) := by
  rw [rowAt, if_pos ⟨by omega, by omega⟩]
  rfl

/-- The bytes and the scales of a row. -/
def cells (t : QuantTable H) (i : Int) : List UInt8 × List H :=
  (t.shards[i.toNat / ROWS_PER_SHARD]?).elim ([], []) fun sh =>
    (sh.q (i.toNat % ROWS_PER_SHARD), sh.s (i.toNat % ROWS_PER_SHARD))

theorem readRow_eq {t : QuantTable H} {i : Int} (h : InTable t i) :
    readRow t i = .ok (cells t i) := by
  obtain ⟨sh, -, hget, hsome, hlocal⟩ := h.split
  have hl : i.toNat % ROWS_PER_SHARD < ROWS_PER_SHARD := Nat.mod_lt _ (by decide)
  rw [readRow, hlocal, hget, ok_bind, rowAt_natCast _ hl, ok_bind, rowAt_natCast _ hl, ok_bind,
    cells, hsome]
  rfl

theorem InTable.shaped {t : QuantTable H} {i : Int} (h : InTable t i) :
    Shaped t.width (t.width / t.groups) (cells t i).1 (cells t i).2 := by
  obtain ⟨sh, hsh, -, hsome, -⟩ := h.split
  rw [cells, hsome]
  exact t.shaped hsh (Nat.mod_lt _ (by decide))

theorem tableRow_eq {t : QuantTable H} {i : Int} (h : InTable t i) :
    tableRow f32 t i.toNat =
      (List.range t.width).map
        (column f32 (t.width / t.groups) (cells t i).1 (cells t i).2) := by
  obtain ⟨sh, -, -, hsome, -⟩ := h.split
  rw [tableRow, cells, hsome]
  rfl

/-! ## The small batch -/

/-- Every row of a small batch is the dequantised row of its id. -/
theorem gatherRowsSmall_eq (t : QuantTable H) (empty : Nat → Nat → F) {ids : List Int}
    (hids : ∀ i ∈ ids, InTable t i) :
    gatherRowsSmall f32 t empty ids = .ok (ids.map fun i => tableRow f32 t i.toNat) := by
  obtain ⟨first, rest, hshards⟩ := List.exists_cons_of_ne_nil t.shards_ne
  have hfirst : first.sCols = t.groups := by
    apply t.sCols_eq
    rw [hshards]
    exact List.mem_cons_self
  have hget : getItem t.shards 0 = .ok first := by
    rw [hshards]
    rfl
  have hread : ids.mapM (readRow t) = .ok (ids.map (cells t)) :=
    mapM_ok fun i hi => readRow_eq (hids i hi)
  rw [gatherRowsSmall, hget, ok_bind, hread, ok_bind, hfirst]
  apply congrArg Except.ok
  apply List.ext_getElem?
  intro k
  rw [List.getElem?_mapIdx, List.getElem?_map, List.getElem?_map]
  cases hk : ids[k]? with
  | none => rfl
  | some i =>
      have hi := hids i (List.mem_of_getElem? hk)
      have hempty : ((List.range t.width).map (empty k)).length = t.width := by
        rw [List.length_map, List.length_range]
      show some (smallRow f32 _ _ _ _ _) = some (tableRow f32 t i.toNat)
      rw [smallRow_eq f32 hi.shaped hempty rfl, tableRow_eq f32 hi]

/-! ## The sorted batch -/

/-- A run of ids of one shard. -/
theorem dequant_eq {t : QuantTable H} {s : Int} {run : List Int} (hne : run ≠ [])
    (hrun : ∀ i ∈ run, InTable t i ∧ i / (ROWS_PER_SHARD : Int) = s) :
    dequant f32 t s (run.map fun i => i - i / ROWS_PER_SHARD * ROWS_PER_SHARD) =
      .ok (run.map fun i => tableRow f32 t i.toNat) := by
  obtain ⟨i₀, rest, rfl⟩ := List.exists_cons_of_ne_nil hne
  obtain ⟨hin₀, hs₀⟩ := hrun i₀ List.mem_cons_self
  obtain ⟨sh, hsh, hget, -, -⟩ := hin₀.split
  rw [hs₀] at hget
  -- every id of the run finds the same shard
  have hcells : ∀ i ∈ i₀ :: rest,
      rowAt sh.q (i - i / ROWS_PER_SHARD * ROWS_PER_SHARD) = .ok (cells t i).1 ∧
        rowAt sh.s (i - i / ROWS_PER_SHARD * ROWS_PER_SHARD) = .ok (cells t i).2 := by
    intro i hi
    obtain ⟨hin, hs⟩ := hrun i hi
    obtain ⟨sh', -, hget', hsome', hlocal⟩ := hin.split
    rw [hs, hget] at hget'
    have hsame : sh = sh' := Except.ok.inj hget'
    have hl : i.toNat % ROWS_PER_SHARD < ROWS_PER_SHARD := Nat.mod_lt _ (by decide)
    rw [hlocal, rowAt_natCast _ hl, rowAt_natCast _ hl, cells, hsome', hsame]
    exact ⟨rfl, rfl⟩
  have hq := mapM_ok (f := fun i => rowAt sh.q (i - i / ROWS_PER_SHARD * ROWS_PER_SHARD))
    (g := fun i => (cells t i).1) fun i hi => (hcells i hi).1
  have hs := mapM_ok (f := fun i => rowAt sh.s (i - i / ROWS_PER_SHARD * ROWS_PER_SHARD))
    (g := fun i => (cells t i).2) fun i hi => (hcells i hi).2
  rw [dequant, hget, ok_bind, List.mapM_map, List.mapM_map]
  erw [hq, ok_bind, hs, ok_bind]
  rw [t.sCols_eq sh hsh, List.zipWith_map]
  apply congrArg Except.ok
  rw [List.zipWith_self]
  apply List.map_congr_left
  intro i hi
  obtain ⟨hin, -⟩ := hrun i hi
  rw [dequantRow_eq f32 hin.shaped, tableRow_eq f32 hin]

variable {O : Type} (cast : F → O)

/-- The loop takes the sorted rows run by run, and every assignment writes to
each of its positions the row of the id that stands there. -/
theorem gatherRuns_eq {t : QuantTable H} {order : List Nat} {idOf : Nat → Int}
    (hids : ∀ k ∈ order, InTable t (idOf k)) {rs : List (Int × Nat)} {pos : Nat}
    (hpos : ∀ r ∈ rs, 0 < r.2)
    (hrs : (order.drop pos).map (fun k => idOf k / (ROWS_PER_SHARD : Int)) = expand rs) :
    ∃ as, gatherRuns f32 cast t order
        (order.map fun k => idOf k - idOf k / ROWS_PER_SHARD * ROWS_PER_SHARD) pos rs = .ok as ∧
      as.flatMap Prod.fst = order.drop pos ∧
      ∀ a ∈ as, a.2 = a.1.map fun k => (tableRow f32 t (idOf k).toNat).map cast := by
  induction rs generalizing pos with
  | nil =>
      have hnil : order.drop pos = [] := List.map_eq_nil_iff.mp hrs
      exact ⟨[], rfl, hnil.symm, nofun⟩
  | cons r rest ih =>
      obtain ⟨s, c⟩ := r
      have hc : 0 < c := hpos (s, c) List.mem_cons_self
      rw [expand_cons] at hrs
      -- the run is a stretch of the sorting permutation
      have htake : ((order.drop pos).take c).map (fun k => idOf k / (ROWS_PER_SHARD : Int)) =
          List.replicate c s := by
        rw [List.map_take, hrs]
        exact List.take_left' List.length_replicate
      have hdrop : (order.drop (pos + c)).map (fun k => idOf k / (ROWS_PER_SHARD : Int)) =
          expand rest := by
        rw [← List.drop_drop, List.map_drop, hrs]
        exact List.drop_left' List.length_replicate
      obtain ⟨later, hlater, hflat, hrows⟩ :=
        ih (fun r hr => hpos r (List.mem_cons_of_mem _ hr)) hdrop
      have hne : ((order.drop pos).take c).map idOf ≠ [] := by
        intro hnil
        have hlen := congrArg List.length htake
        rw [List.map_eq_nil_iff.mp hnil, List.length_replicate] at hlen
        exact absurd hlen (Nat.ne_of_lt hc)
      have hrun : ∀ i ∈ ((order.drop pos).take c).map idOf,
          InTable t i ∧ i / (ROWS_PER_SHARD : Int) = s := by
        intro i hi
        obtain ⟨k, hk, rfl⟩ := List.mem_map.mp hi
        have hkey : idOf k / (ROWS_PER_SHARD : Int) ∈ List.replicate c s := by
          rw [← htake]
          exact List.mem_map_of_mem hk
        exact ⟨hids k (List.mem_of_mem_drop (List.mem_of_mem_take hk)),
          List.eq_of_mem_replicate hkey⟩
      have hdeq := dequant_eq f32 hne hrun
      rw [List.map_map, List.map_map] at hdeq
      have hsel : ((order.map fun k =>
            idOf k - idOf k / ROWS_PER_SHARD * ROWS_PER_SHARD).drop pos).take c =
          ((order.drop pos).take c).map
            ((fun i : Int => i - i / ROWS_PER_SHARD * ROWS_PER_SHARD) ∘ idOf) := by
        rw [List.map_take, List.map_drop]
        rfl
      refine ⟨((order.drop pos).take c, (((order.drop pos).take c).map
        ((fun i => tableRow f32 t i.toNat) ∘ idOf)).map (List.map cast)) :: later, ?_, ?_, ?_⟩
      · rw [gatherRuns, hsel, hdeq, ok_bind, hlater, ok_bind]
        rfl
      · rw [List.flatMap_cons, hflat, ← List.drop_drop, List.take_append_drop]
      · intro a ha
        rcases List.mem_cons.mp ha with rfl | hmem
        · exact List.map_map
        · exact hrows a hmem

/-- The assignments of the sorted gather name every output row once and write
to each the row of its id. -/
theorem gatherAssignments_eq {argsort : List Int → List Nat} (hsort : IsArgsort argsort)
    {t : QuantTable H} {ids : List Int} (hids : ∀ i ∈ ids, InTable t i) :
    ∃ as, gatherAssignments f32 cast argsort t ids = .ok as ∧
      (as.flatMap Prod.fst).Perm (List.range ids.length) ∧
      ∀ a ∈ as, a.2 = a.1.map fun k => (tableRow f32 t (ids.getD k 0).toNat).map cast := by
  let shard := ids.map fun i => i / (ROWS_PER_SHARD : Int)
  let order := argsort shard
  have hperm : order.Perm (List.range ids.length) := by
    have := hsort.perm shard
    rwa [List.length_map] at this
  have hlt : ∀ k ∈ order, k < ids.length := fun k hk =>
    List.mem_range.mp (hperm.mem_iff.mp hk)
  have hgetD : ∀ k ∈ order, ids[k]? = some (ids.getD k 0) := by
    intro k hk
    rw [List.getD_eq_getElem?_getD, List.getElem?_eq_getElem (hlt k hk)]
    rfl
  have hin : ∀ k ∈ order, InTable t (ids.getD k 0) := fun k hk =>
    hids _ (List.mem_of_getElem? (hgetD k hk))
  have hshard : order.map (fun k => shard.getD k 0) =
      order.map fun k => ids.getD k 0 / (ROWS_PER_SHARD : Int) := by
    apply List.map_congr_left
    intro k hk
    rw [List.getD_eq_getElem?_getD, List.getElem?_map, hgetD k hk]
    rfl
  have hlocal : (order.map fun k =>
        (List.zipWith (fun i s => i - s * (ROWS_PER_SHARD : Int)) ids shard).getD k 0) =
      order.map fun k => ids.getD k 0 - ids.getD k 0 / ROWS_PER_SHARD * ROWS_PER_SHARD := by
    apply List.map_congr_left
    intro k hk
    rw [List.getD_eq_getElem?_getD, List.getElem?_zipWith, List.getElem?_map, hgetD k hk]
    rfl
  obtain ⟨as, has, hflat, hrows⟩ := gatherRuns_eq f32 cast hin
    (runs_pos (order.map fun k => shard.getD k 0)) (by rw [expand_runs, hshard, List.drop_zero])
  refine ⟨as, ?_, ?_, hrows⟩
  · rw [← has, ← hlocal]
    rfl
  · rw [hflat]
    exact hperm

/-- Both gathers write row `ids[k]` of the table into output row `k`, and the
sorted one writes every row once, whatever the order among equal shards. -/
theorem gathers_agree (argsort : List Int → List Nat) (hsort : IsArgsort argsort)
    (t : QuantTable H) (empty : Nat → Nat → F) (out : Nat → List O) (ids : List Int)
    (hids : ∀ i ∈ ids, InTable t i) :
    gatherRowsSmall f32 t empty ids = .ok (ids.map fun i => tableRow f32 t i.toNat) ∧
      (∃ as, gatherAssignments f32 cast argsort t ids = .ok as ∧
        (as.flatMap Prod.fst).Perm (List.range ids.length) ∧
        ∀ a ∈ as, a.2.length = a.1.length) ∧
      ∃ out', gatherInto f32 cast argsort t ids out = .ok out' ∧
        ∀ k (hk : k < ids.length), out' k = (tableRow f32 t (ids[k]).toNat).map cast := by
  obtain ⟨as, has, hperm, hrows⟩ := gatherAssignments_eq f32 cast hsort hids
  refine ⟨gatherRowsSmall_eq f32 t empty hids, ⟨as, has, hperm, ?_⟩,
    as.foldl (fun st a => put a.1 a.2 st) out, ?_, ?_⟩
  · intro a ha
    rw [hrows a ha, List.length_map]
  · rw [gatherInto, has, ok_bind]
    rfl
  · intro k hk
    have hmem : k ∈ as.flatMap Prod.fst := hperm.mem_iff.mpr (List.mem_range.mpr hk)
    rw [foldl_put_map hrows (Or.inl hmem), List.getD_eq_getElem?_getD,
      List.getElem?_eq_getElem hk]
    rfl

end Rows

/-! ## Two shards -/

/-- Insertion sort of the positions, by key. -/
def argsortByKey (keys : List Int) : List Nat :=
  (List.range keys.length).insertionSort fun i j => keys.getD i 0 ≤ keys.getD j 0

theorem argsortByKey_isArgsort : IsArgsort argsortByKey where
  perm := fun _ => List.perm_insertionSort _ _
  sorted := by
    intro keys
    let r : Nat → Nat → Prop := fun i j => keys.getD i 0 ≤ keys.getD j 0
    have : IsTrans Nat r := ⟨fun _ _ _ => Int.le_trans⟩
    have : Std.Total r := ⟨fun _ _ => Int.le_total _ _⟩
    exact List.pairwise_map.mpr (List.pairwise_insertionSort r (List.range keys.length))

/-- A shard whose rows all hold the bytes `0x21`, `0x43`. -/
def plainShard (scale : Int) : Shard Int where
  q := fun _ => [0x21, 0x43]
  s := fun l => [scale, scale + l]
  sCols := 2

/-- Two shards, four columns, a scale for every two of them. -/
def twoShards : QuantTable Int where
  shards := [plainShard 10, plainShard 100]
  width := 4
  groups := 2
  shards_ne := nofun
  width_pos := by decide
  width_dvd := by decide
  sCols_eq := by decide
  q_length := by
    intro sh hsh l _
    rcases List.mem_cons.mp hsh with rfl | hsh
    · rfl
    · rw [List.mem_singleton.mp hsh]
      rfl
  s_length := by
    intro sh hsh l _
    rcases List.mem_cons.mp hsh with rfl | hsh
    · rfl
    · rw [List.mem_singleton.mp hsh]
      rfl

/-- The last row of the first shard, twice, and one of the second between. -/
theorem gathers_agree_twoShards :
    gatherRowsSmall id twoShards (fun _ _ => 77) [2500011, 2500013, 2500011] =
        .ok [[-70, -60, -5 * 2500021, -4 * 2500021], [-700, -600, -505, -404],
          [-70, -60, -5 * 2500021, -4 * 2500021]] ∧
      ∃ out, gatherInto id id argsortByKey twoShards [2500011, 2500013, 2500011]
          (fun _ => []) = .ok out ∧
        out 1 = [-700, -600, -505, -404] ∧ out 2 = [-70, -60, -5 * 2500021, -4 * 2500021] := by
  have hids : ∀ i ∈ ([2500011, 2500013, 2500011] : List Int), InTable twoShards i := by
    intro i hi
    show 0 ≤ i ∧ i < 2 * 2500012
    simp only [List.mem_cons, List.not_mem_nil, or_false] at hi
    omega
  obtain ⟨hsmall, -, out, hout, hrows⟩ := gathers_agree id id argsortByKey
    argsortByKey_isArgsort twoShards (fun _ _ => 77) (fun _ => []) _ hids
  refine ⟨hsmall.trans (by decide +kernel), out, hout, ?_, ?_⟩
  · exact (hrows 1 (by decide)).trans (by decide +kernel)
  · exact (hrows 2 (by decide)).trans (by decide +kernel)

end FlashNext.Ports.RowGather
