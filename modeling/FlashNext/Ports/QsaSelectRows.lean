import FlashNext.Ports.QsaSelect

/-!
# QSA token selection: one row

The columns of an expanded row fall into three runs: the tokens of the selected groups,
the tokens of the open group and the filling.
-/

namespace FlashNext.Ports.Qsa

open FlashNext.Verified.Groups

/-! ## The columns of a row -/

section Columns

variable {r k p l : Nat} {blockIndices : List Int} {sel : List Nat}

theorem visibleBlocks_of_lt (hpl : p < l) :
    visibleBlocks p l r = ((p + 1) / r : Nat) := by
  have hle : (p + 1) / r ≤ l / r := Nat.div_le_div_right hpl
  unfold visibleBlocks
  rw [show ((p : Int) + 1) = ((p + 1 : Nat) : Int) from rfl, ← Int.ofNat_tdiv,
    ← Int.ofNat_tdiv]
  omega

/-- The tokens of a row: those of the selected groups, then those of the open group. -/
def selectedTokens (r p : Nat) (sel : List Nat) : List Nat :=
  sel.flatMap (members r) ++ (List.range ((p + 1) % r)).map ((p + 1) / r * r + ·)

/-- What the top-k operation left for a row whose `visible` groups compete for `k`
places. -/
structure Selected (r k p : Nat) (blockIndices : List Int) (sel : List Nat) : Prop where
  length : sel.length = min ((p + 1) / r) k
  entries : blockIndices.take sel.length = sel.map Int.ofNat
  nodup : sel.Nodup
  visible : ∀ b ∈ sel, b < (p + 1) / r

/-- The parts of `expandColumn` at a position within the sequence. -/
theorem expandColumn_eq (hr : 0 < r) (hpl : p < l) (h : Selected r k p blockIndices sel)
    (column : Nat) :
    expandColumn blockIndices p l k r column =
      if column < sel.length * r then
        let token := blockIndices.getD (min (column / r) (k - 1)) (-1) * r +
          ((column % r : Nat) : Int)
        if 0 ≤ token ∧ token < l then token else -1
      else if column < sel.length * r + (p + 1) % r then
        ((p + 1) / r * r + (column - sel.length * r) : Nat)
      else -1 := by
  have hcount : min (visibleBlocks p l r) (k : Int) * r = ((sel.length * r : Nat) : Int) := by
    have hmin : min (((p + 1) / r : Nat) : Int) k = ((min ((p + 1) / r) k : Nat) : Int) := by
      generalize (p + 1) / r = n
      omega
    rw [visibleBlocks_of_lt hpl, hmin, h.length]
    rfl
  have htail : ((p : Int) + 1).tdiv r * r = (((p + 1) / r * r : Nat) : Int) := by
    rw [show ((p : Int) + 1) = ((p + 1 : Nat) : Int) from rfl, ← Int.ofNat_tdiv]
    push_cast
    rfl
  have hdiv : (p + 1) / r * r + (p + 1) % r = p + 1 := by
    rw [Nat.mul_comm]
    exact Nat.div_add_mod (p + 1) r
  have hmod : (p + 1) % r < r := Nat.mod_lt _ hr
  unfold expandColumn
  dsimp only
  rw [hcount, htail]
  generalize (p + 1) / r * r = start at *
  generalize (p + 1) % r = tail at *
  generalize sel.length * r = count at *
  by_cases hexp : column < count
  · have hexp' : (column : Int) < count := by exact_mod_cast hexp
    simp only [if_pos hexp, hexp', true_or, true_and, if_true]
  · have hexp' : ¬ (column : Int) < count := by exact_mod_cast hexp
    rw [if_neg hexp, if_neg hexp']
    by_cases hin : column < count + tail
    · rw [if_pos hin, if_pos]
      · omega
      · refine ⟨Or.inr ⟨by omega, by omega, by omega⟩, by omega, by omega⟩
    · rw [if_neg hin, if_neg]
      rintro ⟨hcase, _⟩
      rcases hcase with hexpanded | ⟨_, htailOffset, _⟩
      · exact hexp' hexpanded
      · omega

theorem expandColumn_selected (hr : 0 < r) (hpl : p < l)
    (h : Selected r k p blockIndices sel) {column : Nat} (hc : column < sel.length * r) :
    expandColumn blockIndices p l k r column =
      ((sel.getD (column / r) 0 * r + column % r : Nat) : Int) := by
  have hrank : column / r < sel.length := (Nat.div_lt_iff_lt_mul hr).mpr hc
  have hlen := h.length
  have hmin : min (column / r) (k - 1) = column / r := by omega
  have hget : blockIndices.getD (column / r) (-1) = ((sel.getD (column / r) 0 : Nat) : Int) := by
    have htake : (blockIndices.take sel.length)[column / r]? =
        (sel.map Int.ofNat)[column / r]? := by rw [h.entries]
    rw [List.getElem?_take_of_lt hrank, List.getElem?_map,
      List.getElem?_eq_getElem hrank] at htake
    rw [List.getD_eq_getElem?_getD, htake, List.getD_eq_getElem?_getD,
      List.getElem?_eq_getElem hrank]
    rfl
  have hb : sel.getD (column / r) 0 < (p + 1) / r := by
    rw [List.getD_eq_getElem?_getD, List.getElem?_eq_getElem hrank]
    exact h.visible _ (List.getElem_mem hrank)
  have hmod : column % r < r := Nat.mod_lt _ hr
  have hlast : (sel.getD (column / r) 0 + 1) * r ≤ (p + 1) / r * r :=
    Nat.mul_le_mul_right r hb
  have hend : (p + 1) / r * r ≤ p + 1 := Nat.div_mul_le_self _ _
  have hsucc := Nat.add_one_mul (sel.getD (column / r) 0) r
  have htoken : ((sel.getD (column / r) 0 : Nat) : Int) * r + ((column % r : Nat) : Int) =
      ((sel.getD (column / r) 0 * r + column % r : Nat) : Int) := by push_cast; rfl
  rw [expandColumn_eq hr hpl h, if_pos hc, hmin, hget]
  dsimp only
  rw [htoken, if_pos]
  constructor
  · omega
  · have hlt : sel.getD (column / r) 0 * r + column % r < l := by
      rw [hsucc] at hlast
      generalize sel.getD (column / r) 0 * r = x at *
      omega
    exact_mod_cast hlt

/-- A row of a position within the sequence. -/
theorem expandColumns_eq (hr : 0 < r) (hpl : p < l) (h : Selected r k p blockIndices sel) :
    (List.range (k * r + r - 1)).map (expandColumn blockIndices p l k r) =
      (selectedTokens r p sel).map Int.ofNat ++
        List.replicate (k * r + r - 1 - (selectedTokens r p sel).length) (-1) := by
  have hmod : (p + 1) % r < r := Nat.mod_lt _ hr
  have hlen := h.length
  have hle : sel.length * r ≤ k * r := Nat.mul_le_mul_right r (by omega)
  have hflat : (sel.flatMap (members r)).length = sel.length * r := by
    rw [← map_columns hr, List.length_map, List.length_range]
  have htokens : (selectedTokens r p sel).length = sel.length * r + (p + 1) % r := by
    rw [selectedTokens, List.length_append, hflat, List.length_map, List.length_range]
  have hsplit : k * r + r - 1 = sel.length * r + ((p + 1) % r +
      (k * r + r - 1 - (selectedTokens r p sel).length)) := by omega
  conv_lhs => rw [hsplit]
  rw [List.range_add, List.range_add, List.map_append, List.map_append, List.map_append,
    selectedTokens, List.map_append, ← map_columns hr, List.append_assoc]
  congr 1
  · rw [List.map_map]
    refine List.map_congr_left fun c hc => ?_
    exact expandColumn_selected hr hpl h (List.mem_range.mp hc)
  · congr 1
    · rw [List.map_map, List.map_map]
      refine List.map_congr_left fun c hc => ?_
      have hlt := List.mem_range.mp hc
      show expandColumn blockIndices p l k r (sel.length * r + c) = _
      rw [expandColumn_eq hr hpl h, if_neg (by omega), if_pos (by omega),
        Nat.add_sub_cancel_left]
      rfl
    · rw [List.map_map, List.map_map]
      refine List.eq_replicate_iff.mpr ⟨by simp, fun x hx => ?_⟩
      obtain ⟨c, _, rfl⟩ := List.mem_map.mp hx
      show expandColumn blockIndices p l k r (sel.length * r + ((p + 1) % r + c)) = _
      rw [expandColumn_eq hr hpl h, if_neg (by omega), if_neg (by omega)]

/-- A row of no request. -/
theorem expandColumn_zero (position : Int) (column : Nat) :
    expandColumn blockIndices position 0 k r column = -1 := by
  unfold expandColumn
  dsimp only
  rw [if_neg]
  rintro ⟨_, hge, hlt⟩
  omega

end Columns

/-! ## The tokens of a row -/

section Tokens

variable {r k p t : Nat} {sel : List Nat}

theorem mem_selectedTokens (hr : 0 < r) :
    t ∈ selectedTokens r p sel ↔ t / r ∈ sel ∨ (p + 1) / r * r ≤ t ∧ t ≤ p := by
  have hdiv : (p + 1) / r * r + (p + 1) % r = p + 1 := by
    rw [Nat.mul_comm]
    exact Nat.div_add_mod (p + 1) r
  unfold selectedTokens
  rw [List.mem_append, mem_flatMap_members hr, List.mem_map]
  refine or_congr_right ?_
  constructor
  · rintro ⟨o, ho, rfl⟩
    have hlt := List.mem_range.mp ho
    omega
  · rintro ⟨hge, hle⟩
    refine ⟨t - (p + 1) / r * r, List.mem_range.mpr (by omega), by omega⟩

theorem selectedTokens_nodup (hr : 0 < r) (hnodup : sel.Nodup)
    (hvisible : ∀ b ∈ sel, b < (p + 1) / r) : (selectedTokens r p sel).Nodup := by
  unfold selectedTokens
  rw [List.nodup_append]
  refine ⟨flatMap_members_nodup hr hnodup,
    List.nodup_range.map fun _ _ h => Nat.add_left_cancel h, ?_⟩
  intro t ht t' ht' heq
  obtain ⟨o, _, rfl⟩ := List.mem_map.mp ht'
  have hb := hvisible _ ((mem_flatMap_members hr).mp ht)
  have hge : (p + 1) / r ≤ t / r := by
    rw [Nat.le_div_iff_mul_le hr, heq]
    exact Nat.le_add_right _ _
  omega

theorem le_of_mem_selectedTokens (hr : 0 < r) (hvisible : ∀ b ∈ sel, b < (p + 1) / r)
    (ht : t ∈ selectedTokens r p sel) : t ≤ p := by
  rcases (mem_selectedTokens hr).mp ht with hsel | htail
  · have hlt := (Nat.div_lt_iff_lt_mul hr).mp (hvisible _ hsel)
    have hend : (p + 1) / r * r ≤ p + 1 := Nat.div_mul_le_self _ _
    omega
  · exact htail.2

/-- When no visible group had to be left out, the row holds the whole past. -/
theorem mem_selectedTokens_all (hr : 0 < r) (hnodup : sel.Nodup)
    (hvisible : ∀ b ∈ sel, b < (p + 1) / r) (hlen : sel.length = (p + 1) / r) :
    t ∈ selectedTokens r p sel ↔ t ≤ p := by
  refine ⟨le_of_mem_selectedTokens hr hvisible, fun ht => ?_⟩
  rw [mem_selectedTokens hr]
  by_cases hlt : t / r < (p + 1) / r
  · exact Or.inl (mem_of_nodup_of_length hnodup hvisible hlen hlt)
  · right
    have hge : (p + 1) / r * r ≤ t := (Nat.le_div_iff_mul_le hr).mp (by omega)
    exact ⟨hge, ht⟩

/-- What the row of a position `p` holds when the groups `sel` are selected: their tokens
and those of the open group, each once, and `-1` everywhere else. -/
structure TokenRow (r k p : Nat) (sel : List Nat) (row : List Int) : Prop where
  width : row.length = outputWidth (k * r) r
  count : ∀ t : Nat, row.count (t : Int) =
    if t / r ∈ sel ∨ (p + 1) / r * r ≤ t ∧ t ≤ p then 1 else 0
  entries : ∀ x ∈ row, x = -1 ∨ 0 ≤ x ∧ x ≤ p
  all : (p + 1) / r ≤ k → ∀ t : Nat, row.count (t : Int) = if t ≤ p then 1 else 0

theorem count_tokens (tokens : List Nat) (hnodup : tokens.Nodup) (n t : Nat) :
    (tokens.map Int.ofNat ++ List.replicate n (-1)).count (t : Int) =
      if t ∈ tokens then 1 else 0 := by
  have hneg : (List.replicate n (-1 : Int)).count (t : Int) = 0 := by
    rw [List.count_eq_zero]
    intro hmem
    have := List.eq_of_mem_replicate hmem
    omega
  have hmap : (tokens.map Int.ofNat).count (t : Int) = tokens.count t :=
    List.count_map_of_injective tokens Int.ofNat (fun _ _ h => Int.ofNat.inj h) t
  rw [List.count_append, hneg, hmap, Nat.add_zero]
  by_cases ht : t ∈ tokens
  · rw [if_pos ht, List.count_eq_one_of_mem hnodup ht]
  · rw [if_neg ht, List.count_eq_zero_of_not_mem ht]

theorem tokenRow_of_selected {blockIndices : List Int} (hr : 0 < r)
    (h : Selected r k p blockIndices sel) :
    TokenRow r k p sel ((selectedTokens r p sel).map Int.ofNat ++
      List.replicate (k * r + r - 1 - (selectedTokens r p sel).length) (-1)) := by
  have hnodup := selectedTokens_nodup hr h.nodup h.visible
  have hlen := h.length
  have hle : sel.length * r ≤ k * r := Nat.mul_le_mul_right r (by omega)
  have hmod : (p + 1) % r < r := Nat.mod_lt _ hr
  have hflat : (sel.flatMap (members r)).length = sel.length * r := by
    rw [← map_columns hr, List.length_map, List.length_range]
  have htokens : (selectedTokens r p sel).length = sel.length * r + (p + 1) % r := by
    rw [selectedTokens, List.length_append, hflat, List.length_map, List.length_range]
  refine { width := ?_, count := ?_, entries := ?_, all := ?_ }
  · rw [List.length_append, List.length_map, List.length_replicate, outputWidth]
    omega
  · intro t
    rw [count_tokens _ hnodup]
    simp only [mem_selectedTokens hr]
  · intro x hx
    rcases List.mem_append.mp hx with htoken | hfill
    · obtain ⟨t, ht, rfl⟩ := List.mem_map.mp htoken
      have hp := le_of_mem_selectedTokens hr h.visible ht
      right
      show (0 : Int) ≤ (t : Int) ∧ (t : Int) ≤ (p : Int)
      omega
    · exact Or.inl (List.eq_of_mem_replicate hfill)
  · intro hall t
    rw [count_tokens _ hnodup]
    simp only [mem_selectedTokens_all hr h.nodup h.visible (t := t) (by omega)]

end Tokens

end FlashNext.Ports.Qsa
