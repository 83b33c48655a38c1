import Mathlib.Data.List.Basic
import FlashNext.Ports.DecodeLookup

/-!
# The decode fast path against its reference

Python integers wrapped by hand follow the `int64` arrays step by step
(`hashLoopPy_eq`), so one request hashes to the same row ids on both paths.
The two batch tests agree on the runner's `query_start_loc`, whose first entry
is zero.  The stored entries agree wherever the gathered value is a number:
torch rounds to nearest even, and so does the integer store.
-/

namespace FlashNext.Ports.DecodeLookup

open FlashNext.Verified.SignedWrap FlashNext.Verified.BFloat16

variable {Cell : Type} {layer : Layer}

/-! ## The last EOS -/

/-- The position of the last `true`, as numpy finds it. -/
def lastTrue (l : List Bool) : Int :=
  if true ∈ l then (l.length : Int) - 1 - argmax l.reverse else -1

theorem argmax_cons (b : Bool) (l : List Bool) (h : b = true ∨ true ∈ l) :
    argmax (b :: l) = if b then 0 else argmax l + 1 := by
  cases b with
  | true => simp [argmax, List.findIdx_cons]
  | false =>
      have hmem : true ∈ l := by simpa using h
      simp [argmax, hmem, List.findIdx_cons]

theorem lastTrue_concat (l : List Bool) (b : Bool) :
    lastTrue (l ++ [b]) = if b then (l.length : Int) else lastTrue l := by
  cases b with
  | true =>
      have hcons := argmax_cons true l.reverse (Or.inl rfl)
      simp only [lastTrue, List.reverse_append, List.reverse_cons,
        List.reverse_nil, List.nil_append, List.singleton_append, hcons,
        List.length_append, List.length_singleton]
      simp
  | false =>
      by_cases hmem : true ∈ l
      · have hcons := argmax_cons false l.reverse (Or.inr (by simpa using hmem))
        simp only [lastTrue, List.reverse_append, List.reverse_cons,
          List.reverse_nil, List.nil_append, List.singleton_append, hcons,
          List.length_append, List.length_singleton, List.mem_append, hmem,
          true_or, if_true]
        push_cast
        simp
        omega
      · simp [lastTrue, hmem]

theorem getD_map_toInt (row : List (BitVec 64)) (i : Nat) :
    (row.map BitVec.toInt).getD i 0 = (row.getD i 0).toInt := by
  simp only [List.getD_eq_getElem?_getD, List.getElem?_map]
  cases row[i]? <;> simp

/-- The Python loop finds what numpy finds. -/
theorem findLastEos_eq (row : List (BitVec 64)) (eos : BitVec 64) (j : Nat)
    (hj : j ≤ row.length) :
    findLastEos (row.map BitVec.toInt) eos.toInt j =
      lastTrue ((row.take j).map (fun t => t == eos)) := by
  induction j with
  | zero => simp [findLastEos, lastTrue]
  | succ j ih =>
      have hget : row[j]? = some (row.getD j 0) := by
        rw [List.getD_eq_getElem?_getD, List.getElem?_eq_getElem hj]
        rfl
      have htake : row.take (j + 1) = row.take j ++ [row.getD j 0] := by
        rw [List.take_add_one, hget]
        rfl
      rw [findLastEos, htake, List.map_append, List.map_singleton,
        lastTrue_concat, ih (by omega), getD_map_toInt]
      have hlen : ((row.take j).map (fun t => t == eos)).length = j := by
        simp
        omega
      rw [hlen]
      generalize row.getD j 0 = t
      by_cases heq : t = eos
      · simp [heq]
      · have hne : t.toInt ≠ eos.toInt := fun h => heq (BitVec.eq_of_toInt_eq h)
        simp [heq, hne]

theorem findLastEos_eq_lastEosNp (row : List (BitVec 64)) (eos : BitVec 64) :
    findLastEos (row.map BitVec.toInt) eos.toInt (row.length - 1) =
      lastEosNp row eos := by
  rw [findLastEos_eq _ _ _ (Nat.sub_le ..)]
  simp only [lastTrue, lastEosNp, List.length_map, List.length_take]
  rw [Nat.min_eq_left (Nat.sub_le ..)]

theorem shiftedPy_eq (row : List (BitVec 64)) (eos : BitVec 64) (sh : Nat) :
    shiftedPy (row.map BitVec.toInt) eos.toInt sh =
      (shiftedNp row eos sh).toInt := by
  simp only [shiftedPy, shiftedNp, List.length_map, findLastEos_eq_lastEosNp,
    getD_map_toInt]
  by_cases hzero : sh = 0
  · simp [hzero]
  · rw [if_neg hzero, if_neg hzero]
    by_cases hle : sh ≤ row.length - 1
    · by_cases hpos : (sh : Int) ≤
          ((row.length - 1 : Nat) : Int) - lastEosNp row eos - 1
      · simp [hle, hpos]
      · simp [hle, hpos]
    · simp [hle]

/-! ## The hash loop -/

theorem zipWith_slices {α β γ : Type} (f : α → β → γ) (xs : List α)
    (ys : List β) (x₀ : α) (y₀ : β) {s h : Nat} (hx : s + h ≤ xs.length)
    (hy : s + h ≤ ys.length) :
    List.zipWith f ((xs.drop s).take h) ((ys.drop s).take h) =
      (List.range h).map (fun i => f (xs.getD (s + i) x₀) (ys.getD (s + i) y₀)) := by
  refine List.ext_getElem ?_ fun i hi hi' => ?_
  · simp
    omega
  · have hlt : i < h := by simpa using hi'
    simp [List.getD_eq_getElem?_getD,
      List.getElem?_eq_getElem (show s + i < xs.length by omega),
      List.getElem?_eq_getElem (show s + i < ys.length by omega)]

/-- The hand-wrapped loop computes the ids of the `int64` loop. -/
theorem hashLoopPy_eq (shifted : Nat → BitVec 64) (rounds : Nat) {n : Nat}
    (mixed : BitVec 64) (hn : 2 ≤ n) (hrounds : n + rounds = layer.ngramSize + 1) :
    (hashLoopPy layer (fun sh => (shifted sh).toInt) rounds n mixed.toInt).map
        (BitVec.ofInt 64) = hashLoopNp layer shifted rounds n mixed := by
  induction rounds generalizing n mixed with
  | zero => rfl
  | succ rounds ih =>
      have hmixed : wrap 64 (Int.xor mixed.toInt (wrap 64
          ((shifted (n - 1)).toInt * (layer.multipliers.getD (n - 1) 0).toInt))) =
          (mixed ^^^ (shifted (n - 1) * layer.multipliers.getD (n - 1) 0)).toInt := by
        rw [← toInt_mul_eq_wrap (by decide), ← toInt_xor_eq,
          wrap_toInt (by decide)]
      have hend : (n - 2) * layer.headsPerNgram + layer.headsPerNgram ≤
          (layer.ngramSize - 1) * layer.headsPerNgram := by
        rw [← Nat.succ_mul]
        exact Nat.mul_le_mul_right _ (by omega)
      simp only [hashLoopPy, hashLoopNp, hmixed, List.map_append]
      rw [ih _ (by omega) (by omega), zipWith_slices _ _ _ 0 0
        (layer.sizes_length ▸ hend) (layer.offsets_length ▸ hend), List.map_map]
      congr 1
      refine List.map_congr_left fun h _ => ?_
      simp only [Function.comp, npRemainder, BitVec.ofInt_add, BitVec.ofInt_toInt]

/-- One request hashes to the same row ids on both paths. -/
theorem outIdsPy_eq (context : List (BitVec 64)) (token : BitVec 32) :
    (outIdsPy layer context token).map (BitVec.ofInt 64) =
      ngramIdsNp layer (context ++ [token.signExtend 64]) := by
  have htoken : token.toInt = (token.signExtend 64).toInt :=
    (BitVec.toInt_signExtend_of_le (by decide)).symm
  have hrow : context.map BitVec.toInt ++ [token.toInt] =
      (context ++ [token.signExtend 64]).map BitVec.toInt := by
    rw [List.map_append, List.map_singleton, htoken]
  have hshifted : shiftedPy (context.map BitVec.toInt ++ [token.toInt])
      layer.eosTokenId.toInt = fun sh =>
        (shiftedNp (context ++ [token.signExtend 64]) layer.eosTokenId sh).toInt := by
    funext sh
    rw [hrow, shiftedPy_eq]
  have htwo := layer.two_le
  simp only [outIdsPy, ngramIdsNp, hshifted]
  rw [← toInt_mul_eq_wrap (by decide)]
  exact hashLoopPy_eq _ _ _ (Nat.le_refl 2) (by omega)

theorem hashLoopPy_in_table (shifted : Nat → Int) (rounds : Nat) {n : Nat}
    (mixed : Int) (hn : 2 ≤ n) (hrounds : n + rounds = layer.ngramSize + 1) :
    ∀ id ∈ hashLoopPy layer shifted rounds n mixed,
      0 ≤ id ∧ id < layer.tableRows := by
  induction rounds generalizing n mixed with
  | zero => simp [hashLoopPy]
  | succ rounds ih =>
      intro id hid
      simp only [hashLoopPy, List.mem_append, List.mem_map, List.mem_range] at hid
      rcases hid with ⟨h, hh, rfl⟩ | hid
      · have hend : (n - 2) * layer.headsPerNgram + layer.headsPerNgram ≤
            (layer.ngramSize - 1) * layer.headsPerNgram := by
          rw [← Nat.succ_mul]
          exact Nat.mul_le_mul_right _ (by omega)
        generalize (n - 2) * layer.headsPerNgram = start at hend ⊢
        have hsize : layer.headVocabSizes.getD (start + h) 0 ∈
            layer.headVocabSizes := by
          have hlt : start + h < layer.headVocabSizes.length := by
            rw [layer.sizes_length]
            omega
          rw [List.getD_eq_getElem?_getD, List.getElem?_eq_getElem hlt]
          exact List.getElem_mem hlt
        have hoffset : layer.headOffsets.getD (start + h) 0 ∈
            layer.headOffsets := by
          have hlt : start + h < layer.headOffsets.length := by
            rw [layer.offsets_length]
            omega
          rw [List.getD_eq_getElem?_getD, List.getElem?_eq_getElem hlt]
          exact List.getElem_mem hlt
        have hpos := layer.sizes_pos _ hsize
        have hnonneg := layer.offsets_nonneg _ hoffset
        have hbound := layer.within_table (start + h)
        have hlow := Int.fmod_nonneg_of_pos (wrap 64 (Int.xor mixed (wrap 64
          (shifted (n - 1) * (layer.multipliers.getD (n - 1) 0).toInt)))) hpos
        have hhigh := Int.fmod_lt_of_pos (wrap 64 (Int.xor mixed (wrap 64
          (shifted (n - 1) * (layer.multipliers.getD (n - 1) 0).toInt)))) hpos
        omega
      · exact ih _ (by omega) (by omega) id hid

/-- The row ids lie in the table: `np.asarray(out_ids, dtype=np.int64)` does
not overflow, and the gather is in range. -/
theorem outIdsPy_in_table (context : List (BitVec 64)) (token : BitVec 32) :
    ∀ id ∈ outIdsPy layer context token, 0 ≤ id ∧ id < layer.tableRows := by
  have htwo := layer.two_le
  exact hashLoopPy_in_table _ _ _ (Nat.le_refl 2) (by omega)

/-! ## Stores -/

/-- A `float32` pattern that is a NaN. -/
def IsNaN (u : BitVec 32) : Prop := infBits * 2 ^ 16 < u.toNat % 2 ^ 31

/-- `v` is `u` rounded to nearest even, with its sign. -/
structure RoundsTo (u : BitVec 32) (v : BitVec 16) : Prop where
  sign : v.toNat / 2 ^ 15 = u.toNat / 2 ^ 31
  magnitude : IsNearestEven (u.toNat % 2 ^ 31) (v.toNat % 2 ^ 15)

theorem RoundsTo.unique {u : BitVec 32} {v v' : BitVec 16} (h : RoundsTo u v)
    (h' : RoundsTo u v') : v = v' := by
  have hsign := h.sign.trans h'.sign.symm
  have hmag := h.magnitude.unique h'.magnitude
  refine BitVec.eq_of_toNat_eq ?_
  omega

/-- The parity of the upper half. -/
theorem parity_toNat (u : BitVec 32) :
    ((u >>> 16) &&& 1#32).toNat = u.toNat / 2 ^ 16 % 2 := by
  rw [BitVec.toNat_and, BitVec.toNat_ushiftRight, Nat.shiftRight_eq_div_pow]
  exact Nat.and_one_is_mod _

/-- The sum of the store does not wrap in `uint32`. -/
theorem bf16Sum_toNat {u : BitVec 32} (h : ¬ IsNaN u) :
    (u + (((u >>> 16) &&& 1#32) + 0x7FFF#32)).toNat =
      u.toNat + (u.toNat / 2 ^ 16 % 2 + 0x7FFF) := by
  have hlt := u.isLt
  have hle : u.toNat % 2 ^ 31 ≤ infBits * 2 ^ 16 := Nat.le_of_not_lt h
  have hinf : infBits * 2 ^ 16 = 0x7F800000 := rfl
  have hbias : (0x7FFF#32).toNat = 0x7FFF := rfl
  rw [BitVec.toNat_add, BitVec.toNat_add, parity_toNat, hbias]
  omega

theorem bf16Bits_toNat {u : BitVec 32} (h : ¬ IsNaN u) :
    (bf16Bits u).toNat =
      u.toNat / 2 ^ 31 * 2 ^ 15 + roundBits (u.toNat % 2 ^ 31) := by
  have hlt := u.isLt
  have hsum := bf16Sum_toNat h
  obtain ⟨s, m, hm, hu⟩ : ∃ s m, m < 2 ^ 31 ∧ u.toNat = s * 2 ^ 31 + m :=
    ⟨u.toNat / 2 ^ 31, u.toNat % 2 ^ 31, Nat.mod_lt _ (by decide), by omega⟩
  have hmod : u.toNat % 2 ^ 31 = m := by omega
  have hdiv : u.toNat / 2 ^ 31 = s := by omega
  have hparity : u.toNat / 2 ^ 16 % 2 = m / 2 ^ 16 % 2 := by omega
  have hmle : m ≤ infBits * 2 ^ 16 := by
    rw [← hmod]
    exact Nat.le_of_not_lt h
  have hinf : infBits * 2 ^ 16 = 0x7F800000 := rfl
  rw [bf16Bits, BitVec.truncate_eq_setWidth, BitVec.toNat_setWidth,
    BitVec.toNat_ushiftRight, hsum, Nat.shiftRight_eq_div_pow, hmod, hdiv,
    hparity, hu, roundBits]
  omega

/-- The integer store rounds to nearest even. -/
theorem bf16Bits_roundsTo {u : BitVec 32} (h : ¬ IsNaN u) :
    RoundsTo u (bf16Bits u) := by
  have hnat := bf16Bits_toNat h
  have hround := roundBits_isNearestEven (Nat.le_of_not_lt h)
  have hle := hround.le
  have hsmall : infBits = 0x7F80 := rfl
  constructor
  · omega
  · have hmod : (bf16Bits u).toNat % 2 ^ 15 = roundBits (u.toNat % 2 ^ 31) := by
      omega
    rw [hmod]
    exact hround

/-- What torch documents of its conversion to bfloat16. -/
def Pinned.RoundsToNearestEven (p : Pinned Cell) : Prop :=
  ∀ u, ¬ IsNaN u → RoundsTo u (p.copyBFloat16 u)

theorem store_eq_copy {p : Pinned Cell} (hp : p.RoundsToNearestEven)
    {u : BitVec 32} (h : ¬ IsNaN u) : p.store u = p.copy u := by
  rw [Pinned.store, Pinned.copy, (bf16Bits_roundsTo h).unique (hp u h)]

/-! ## The two lookups -/

/-- What the runner hands over: `query_start_loc` starts at zero and stays
within the tokens, and every request has a context row of `ngram_size - 1`
tokens. -/
structure Batch.WellFormed (layer : Layer) (x : Batch) : Prop where
  head : x.queryStartLoc.head? = some 0
  tokens : ∀ n ∈ x.queryStartLoc, n ≤ x.inputIds.length
  contextRows : ∀ context, x.ngramContext = some context →
    x.numReqs ≤ context.length
  contextWidth : ∀ context, x.ngramContext = some context →
    ∀ row ∈ context, row.length = layer.ngramSize - 1

/-- The two results are the same block: row ids and gathered rows are equal,
the stored entries agree wherever a number is stored, and the rows past the
requests are zero. -/
structure SameBlock (p : Pinned Cell) (x : Batch) (f g : Result Cell) :
    Prop where
  ngramIds : f.ngramIds = g.ngramIds
  f32 : f.f32 = g.f32
  length : f.out.length = x.inputIds.length ∧ g.out.length = x.inputIds.length
  stored : ∀ i < x.numReqs, ∃ row a b, f.f32[i]? = some row ∧
    f.out[i]? = some a ∧ g.out[i]? = some b ∧ a.length = row.length ∧
    b.length = row.length ∧
    ∀ (j : Nat) (u : BitVec 32), row[j]? = some u → ¬ IsNaN u → a[j]? = b[j]?
  padding : ∀ i, x.numReqs ≤ i → i < x.inputIds.length →
    f.out[i]? = some p.zeroRow ∧ g.out[i]? = some p.zeroRow

theorem emit_ngramIds (sidecar : Quant) (p : Pinned Cell) (store : BitVec 32 → Entry Cell)
    (numTokens : Nat) (ngramIds : List (List (BitVec 64))) :
    (emit sidecar p store numTokens ngramIds).ngramIds = ngramIds := rfl

theorem emit_f32 (sidecar : Quant) (p : Pinned Cell) (store : BitVec 32 → Entry Cell)
    (numTokens : Nat) (ngramIds : List (List (BitVec 64))) :
    (emit sidecar p store numTokens ngramIds).f32 =
      ngramIds.map (·.flatMap sidecar.row) := rfl

/-- The stored row of a request is its gathered row, entry by entry. -/
theorem emit_row (quant : Quant) (p : Pinned Cell)
    (store : BitVec 32 → Entry Cell) (numTokens : Nat)
    {ngramIds : List (List (BitVec 64))} {i : Nat} (hi : i < ngramIds.length) :
    (emit quant p store numTokens ngramIds).f32[i]? =
        some (ngramIds[i].flatMap quant.row) ∧
      (emit quant p store numTokens ngramIds).out[i]? =
        some ((ngramIds[i].flatMap quant.row).map store) := by
  have hget := List.getElem?_eq_getElem hi
  constructor
  · simp only [emit, List.getElem?_map, hget, Option.map_some]
  · rw [emit, List.getElem?_append_left (by simpa using hi), List.getElem?_map,
      hget, Option.map_some]

theorem emit_sameBlock {quant : Quant} {p : Pinned Cell}
    (hp : p.RoundsToNearestEven) {x : Batch} {ngramIds : List (List (BitVec 64))}
    (hlen : ngramIds.length = x.numReqs) (hle : x.numReqs ≤ x.inputIds.length) :
    SameBlock p x (emit quant p p.store x.inputIds.length ngramIds)
      (emit quant p p.copy x.inputIds.length ngramIds) := by
  refine { ngramIds := ?_, f32 := ?_, length := ?_, stored := ?_, padding := ?_ }
  · rw [emit_ngramIds, emit_ngramIds]
  · rw [emit_f32, emit_f32]
  · simp only [emit, List.length_append, List.length_map, List.length_replicate]
    omega
  · intro i hi
    rw [← hlen] at hi
    obtain ⟨hf32, hstored⟩ := emit_row quant p p.store x.inputIds.length hi
    obtain ⟨-, hcopied⟩ := emit_row quant p p.copy x.inputIds.length hi
    refine ⟨_, _, _, hf32, hstored, hcopied, List.length_map .., List.length_map ..,
      ?_⟩
    · intro j u hu hnan
      rw [List.getElem?_map, List.getElem?_map, hu]
      simp only [Option.map_some, store_eq_copy hp hnan]
  · intro i hge hlt
    have hpad : ∀ rows : List (List (Entry Cell)), rows.length = x.numReqs →
        (rows ++ List.replicate (x.inputIds.length - ngramIds.length)
          p.zeroRow)[i]? = some p.zeroRow := by
      intro rows hrows
      rw [List.getElem?_append_right (hrows ▸ hge)]
      refine List.getElem?_replicate_of_lt ?_
      omega
    exact ⟨hpad _ (by simpa using hlen), hpad _ (by simpa using hlen)⟩

/-- A batch test that passes bounds the number of requests by the tokens. -/
theorem numReqs_le {x : Batch} (hx : x.WellFormed layer)
    (hlast : x.queryStartLoc.getLastD 0 = x.numReqs) (hpos : 0 < x.numReqs) :
    x.numReqs ≤ x.inputIds.length := by
  have hne : x.queryStartLoc ≠ [] := by
    rintro hnil
    simp [Batch.numReqs, hnil] at hpos
  have hmem : x.queryStartLoc.getLastD 0 ∈ x.queryStartLoc := by
    rw [List.getLastD_eq_getLast?, List.getLast?_eq_some_getLast hne]
    exact List.getLast_mem hne
  have hle := hx.tokens _ hmem
  omega

theorem rowsNp_length {x : Batch} {context : List (List (BitVec 64))}
    (hcontext : x.numReqs ≤ context.length)
    (hle : x.numReqs ≤ x.inputIds.length) :
    (rowsNp x context).length = x.numReqs := by
  simp only [rowsNp, List.length_zipWith, List.length_take]
  omega

/-- The batch test of a single request is the general one. -/
theorem single_arange {x : Batch} (hx : x.WellFormed layer)
    (hone : x.numReqs = 1) (hsecond : x.queryStartLoc.getD 1 0 = 1) :
    x.queryStartLoc = [0, 1] := by
  have hhead := hx.head
  have hlen : x.queryStartLoc.length = 2 := by
    simp only [Batch.numReqs] at hone
    omega
  obtain ⟨a, b, hab⟩ := List.length_eq_two.1 hlen
  rw [hab] at hhead hsecond ⊢
  simp_all

theorem single_rowsNp {x : Batch} {context : List (List (BitVec 64))}
    (hone : x.numReqs = 1) (hcontext : x.numReqs ≤ context.length)
    (hle : x.numReqs ≤ x.inputIds.length) :
    rowsNp x context =
      [context.getD 0 [] ++ [(x.inputIds.getD 0 0).signExtend 64]] := by
  simp only [rowsNp, hone] at hcontext hle ⊢
  cases context with
  | nil => simp at hcontext
  | cons ctx rest =>
      cases hids : x.inputIds with
      | nil => simp [hids] at hle
      | cons token ids => simp

/-- Either both lookups decline, or both emit the rows of the same ids and
differ in the store only. -/
theorem fusedDecodeLookup_cases (layer : Layer) (quant : Option Quant)
    (p : Pinned Cell) {x : Batch} (hx : x.WellFormed layer) :
    (fusedDecodeLookup layer quant p x = none ∧
        fusedDecodeLookupRef layer quant p x = none) ∨
      ∃ (sidecar : Quant) (ngramIds : List (List (BitVec 64))),
        ngramIds.length = x.numReqs ∧ x.numReqs ≤ x.inputIds.length ∧
        fusedDecodeLookup layer quant p x =
          some (emit sidecar p p.store x.inputIds.length ngramIds) ∧
        fusedDecodeLookupRef layer quant p x =
          some (emit sidecar p p.copy x.inputIds.length ngramIds) := by
  cases quant with
  | none => exact Or.inl ⟨rfl, rfl⟩
  | some quant =>
  cases hcontext : x.ngramContext with
  | none => simp [fusedDecodeLookup, fusedDecodeLookupRef, hcontext]
  | some context =>
  have hrows := hx.contextRows context hcontext
  simp only [fusedDecodeLookup, fusedDecodeLookupRef, hcontext]
  by_cases hint4 : quant.isInt4 = false
  · simp [hint4]
  rw [if_neg hint4, if_neg hint4]
  by_cases hone : x.numReqs = 1
  · rw [if_pos hone]
    by_cases hsecond : x.queryStartLoc.getD 1 0 = 1
    · have hqsl := single_arange hx hone hsecond
      have hlast : x.queryStartLoc.getLastD 0 = x.numReqs := by
        rw [hqsl, hone]
        rfl
      have hle := numReqs_le hx hlast (by omega)
      have harange : isArange x = true := by
        simp [isArange, hqsl, hone, List.range_succ]
      have hshape : ¬ (x.numReqs ≤ 0 ∨ 64 < x.numReqs ∨
          x.queryStartLoc.getLastD 0 ≠ x.numReqs) := by
        rw [hlast]
        omega
      rw [if_neg (by simpa using hsecond), if_neg hshape, if_neg (by simp [harange]),
        single_rowsNp hone hrows hle, outIdsPy_eq]
      exact Or.inr ⟨quant, _, by simp [hone], hle, rfl, rfl⟩
    · left
      rw [if_pos hsecond]
      refine ⟨rfl, ?_⟩
      by_cases hlast : x.queryStartLoc.getLastD 0 = x.numReqs
      · -- the last entry of a single request's list is its second entry
        exfalso
        have hlen : x.queryStartLoc.length = 2 := by
          simp only [Batch.numReqs] at hone
          omega
        obtain ⟨a, b, hab⟩ := List.length_eq_two.1 hlen
        rw [hab, hone] at hlast
        rw [hab] at hsecond
        simp_all
      · rw [if_pos (Or.inr (Or.inr hlast))]
  · rw [if_neg hone]
    by_cases hshape : x.numReqs ≤ 0 ∨ 64 < x.numReqs ∨
        x.queryStartLoc.getLastD 0 ≠ x.numReqs
    · rw [if_pos hshape, if_pos hshape]
      exact Or.inl ⟨rfl, rfl⟩
    rw [if_neg hshape, if_neg hshape]
    by_cases harange : isArange x = false
    · rw [if_pos harange, if_pos harange]
      exact Or.inl ⟨rfl, rfl⟩
    · rw [if_neg harange, if_neg harange]
      have hle := numReqs_le hx (by omega) (by omega)
      refine Or.inr ⟨quant, _, ?_, hle, rfl, rfl⟩
      rw [List.length_map, rowsNp_length hrows hle]

/-- Either both lookups decline, or both produce the same block. -/
theorem fusedDecodeLookup_eq_ref (layer : Layer) (quant : Option Quant)
    (p : Pinned Cell) (hp : p.RoundsToNearestEven) (x : Batch)
    (hx : x.WellFormed layer) :
    (fusedDecodeLookup layer quant p x = none ∧
        fusedDecodeLookupRef layer quant p x = none) ∨
      ∃ f g, fusedDecodeLookup layer quant p x = some f ∧
        fusedDecodeLookupRef layer quant p x = some g ∧ SameBlock p x f g := by
  rcases fusedDecodeLookup_cases layer quant p hx with
    hnone | ⟨sidecar, ngramIds, hlen, hle, hfast, href⟩
  · exact Or.inl hnone
  · exact Or.inr ⟨_, _, hfast, href, emit_sameBlock hp hlen hle⟩

/-- Trigrams with one head each, and multipliers that overflow. -/
def sampleLayer : Layer where
  ngramSize := 3
  headsPerNgram := 1
  eosTokenId := 2
  multipliers := [0x7FFFFFFFFFFFFFFF, 0xFFFFFFFFFFFFFFF1, 0x123456789ABCDEF]
  headVocabSizes := [7, 11]
  headOffsets := [0, 7]
  tableRows := 18
  two_le := by decide
  multipliers_length := rfl
  sizes_length := rfl
  offsets_length := rfl
  sizes_pos := by simp
  offsets_nonneg := by simp
  within_table := by
    intro k
    match k with
    | 0 => decide
    | 1 => decide
    | k + 2 => simp
  tableRows_lt := by omega

/-- Torch's conversion: NaNs become the quiet NaN, the rest is rounded. -/
def samplePinned : Pinned Unit where
  isBFloat16 := true
  width := 2
  copyBFloat16 := fun u =>
    if infBits * 2 ^ 16 < u.toNat % 2 ^ 31 then 0x7FC0 else bf16Bits u
  copyOther := fun _ => ()
  zeroOther := ()

/-- One padded token behind a single request whose context ends in EOS. -/
def sampleBatch : Batch where
  inputIds := [0xFFFFFFF0, 5]
  queryStartLoc := [0, 1]
  ngramContext := some [[9, 2]]

theorem sampleBatch_wellFormed : sampleBatch.WellFormed sampleLayer := by
  refine ⟨rfl, by decide, fun context h => ?_, fun context h => ?_⟩ <;>
    · cases h
      decide

theorem fusedDecodeLookup_eq_ref_single :
    ∃ f g, fusedDecodeLookup sampleLayer (some ⟨true, fun id => [id.truncate 32]⟩)
        samplePinned sampleBatch = some f ∧
      fusedDecodeLookupRef sampleLayer (some ⟨true, fun id => [id.truncate 32]⟩)
        samplePinned sampleBatch = some g ∧
      SameBlock samplePinned sampleBatch f g := by
  have hp : samplePinned.RoundsToNearestEven := by
    intro u hnan
    have hcopy : samplePinned.copyBFloat16 u = bf16Bits u := if_neg hnan
    rw [hcopy]
    exact bf16Bits_roundsTo hnan
  refine (fusedDecodeLookup_eq_ref sampleLayer _ samplePinned hp sampleBatch
    sampleBatch_wellFormed).resolve_left fun hnone => ?_
  simp [fusedDecodeLookup, sampleBatch, Batch.numReqs] at hnone

end FlashNext.Ports.DecodeLookup
