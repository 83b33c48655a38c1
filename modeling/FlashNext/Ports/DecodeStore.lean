import FlashNext.Ports.DecodeLookupAgreement
import FlashNext.Verified.BFloat16Conversion

/-!
# The bfloat16 store of the decode lookup

The fast path converts `float32` to bfloat16 by one addition on the pattern.
`bf16Bits_converts` states this by the values of the two formats: the sign is
kept, what is too large becomes infinity, and everything else the nearest
number.  Torch converts the same way, so both lookups store the same entries.
-/

namespace FlashNext.Ports.DecodeLookup

open FlashNext.Verified.BFloat16 FlashNext.Verified.BinaryFormats

variable {Cell : Type}

/-! ## One value -/

theorem isNaN_iff (u : BitVec 32) : binary32.IsNaN u ↔ IsNaN u := by
  have hlt := u.isLt
  have hinf : infBits * 2 ^ 16 = 0x7F800000 := rfl
  simp only [Format.IsNaN, Format.exponent, Format.fraction, IsNaN]
  omega

theorem RoundsTo.converts {u : BitVec 32} {v : BitVec 16} (h : RoundsTo u v) :
    Converts binary32 bfloat16 u v := by
  have hsign := h.sign
  apply converts_of_isNearestEven
  · rw [BitVec.msb_eq_decide, BitVec.msb_eq_decide]
    congr 1
    exact propext (by omega)
  · exact h.magnitude

/-- The integer store converts every number. -/
theorem bf16Bits_converts {u : BitVec 32} (h : ¬ binary32.IsNaN u) :
    Converts binary32 bfloat16 u (bf16Bits u) :=
  (bf16Bits_roundsTo (mt (isNaN_iff u).mpr h)).converts

/-- What torch documents of its conversion, by the values of the formats. -/
def Pinned.ConvertsNearestEven (p : Pinned Cell) : Prop :=
  ∀ u : BitVec 32, ¬ binary32.IsNaN u → Converts binary32 bfloat16 u (p.copyBFloat16 u)

theorem copyBFloat16_eq {p : Pinned Cell} (hp : p.ConvertsNearestEven) {u : BitVec 32}
    (h : ¬ binary32.IsNaN u) : p.copyBFloat16 u = bf16Bits u :=
  (hp u h).unique (bf16Bits_converts h) h

/-! ## A block -/

/-- The value gathered for a place of the block. -/
def Result.gathered (r : Result Cell) (i j : Nat) : Option (BitVec 32) :=
  r.f32[i]?.bind (·[j]?)

/-- The entry stored there. -/
def Result.stored (r : Result Cell) (i j : Nat) : Option (Entry Cell) :=
  r.out[i]?.bind (·[j]?)

theorem emit_stored {sidecar : Quant} {p : Pinned Cell} {store : BitVec 32 → Entry Cell}
    {numTokens i j : Nat} {ngramIds : List (List (BitVec 64))} {u : BitVec 32}
    (h : (emit sidecar p store numTokens ngramIds).gathered i j = some u) :
    (emit sidecar p store numTokens ngramIds).stored i j = some (store u) := by
  have hi : i < ngramIds.length := by
    by_contra hge
    have hnone : (emit sidecar p store numTokens ngramIds).f32[i]? = none := by
      rw [List.getElem?_eq_none_iff, emit, List.length_map]
      exact Nat.le_of_not_lt hge
    rw [Result.gathered, hnone] at h
    cases h
  obtain ⟨hf32, hout⟩ := emit_row sidecar p store numTokens hi
  rw [Result.gathered, hf32, Option.bind_some] at h
  rw [Result.stored, hout, Option.bind_some, List.getElem?_map, h, Option.map_some]

/-- Where nothing is gathered the store is not used. -/
theorem emit_stored_of_none {sidecar : Quant} {p : Pinned Cell}
    {numTokens i j : Nat} {ngramIds : List (List (BitVec 64))}
    (store store' : BitVec 32 → Entry Cell)
    (h : (emit sidecar p store numTokens ngramIds).gathered i j = none) :
    (emit sidecar p store numTokens ngramIds).stored i j =
      (emit sidecar p store' numTokens ngramIds).stored i j := by
  rcases Nat.lt_or_ge i ngramIds.length with hi | hi
  · obtain ⟨hf32, hout⟩ := emit_row sidecar p store numTokens hi
    obtain ⟨-, hout'⟩ := emit_row sidecar p store' numTokens hi
    rw [Result.gathered, hf32, Option.bind_some] at h
    rw [Result.stored, Result.stored, hout, hout', Option.bind_some, Option.bind_some,
      List.getElem?_map, List.getElem?_map, h]
    rfl
  · simp only [Result.stored, emit]
    rw [List.getElem?_append_right (by simpa using hi),
      List.getElem?_append_right (by simpa using hi), List.length_map, List.length_map]

/-- Two results that hold the conversion of every gathered number, and the
same elsewhere. -/
structure SameStores (f g : Result Cell) : Prop where
  f32 : f.f32 = g.f32
  number : ∀ (i j : Nat) (u : BitVec 32), f.gathered i j = some u → ¬ binary32.IsNaN u →
    f.stored i j = some (.bfloat16 (bf16Bits u)) ∧ g.stored i j = some (.bfloat16 (bf16Bits u))
  rest : ∀ i j : Nat, f.gathered i j = none → f.stored i j = g.stored i j

theorem emit_sameStores {sidecar : Quant} {p : Pinned Cell} (hbf : p.isBFloat16 = true)
    (hp : p.ConvertsNearestEven) (numTokens : Nat) (ngramIds : List (List (BitVec 64))) :
    SameStores (emit sidecar p p.store numTokens ngramIds)
      (emit sidecar p p.copy numTokens ngramIds) := by
  refine { f32 := ?_, number := ?_, rest := fun _ _ h => emit_stored_of_none _ _ h }
  · rw [emit_f32, emit_f32]
  · intro i j u hu hnan
    have hcopy : (emit sidecar p p.copy numTokens ngramIds).gathered i j = some u := by
      rw [Result.gathered, emit_f32] at hu ⊢
      exact hu
    rw [emit_stored hu, emit_stored hcopy, Pinned.store, Pinned.copy, if_pos hbf, if_pos hbf,
      copyBFloat16_eq hp hnan]
    exact ⟨rfl, rfl⟩

/-- The store's sum does not wrap and its upper half is the nearest bfloat16,
so the fast path stores what torch's conversion stores in the reference. -/
theorem bf16_store_converts :
    (∀ u : BitVec 32, ¬ binary32.IsNaN u →
      (u + (((u >>> 16) &&& 1#32) + 0x7FFF#32)).toNat =
          u.toNat + (u.toNat / 2 ^ 16 % 2 + 0x7FFF) ∧
        Converts binary32 bfloat16 u (bf16Bits u)) ∧
      ∀ (layer : Layer) (quant : Option Quant) (p : Pinned Cell) (x : Batch),
        p.isBFloat16 = true → p.ConvertsNearestEven → x.WellFormed layer →
        (fusedDecodeLookup layer quant p x = none ∧
            fusedDecodeLookupRef layer quant p x = none) ∨
          ∃ f g, fusedDecodeLookup layer quant p x = some f ∧
            fusedDecodeLookupRef layer quant p x = some g ∧ SameStores f g := by
  constructor
  · intro u hu
    exact ⟨bf16Sum_toNat (mt (isNaN_iff u).mpr hu), bf16Bits_converts hu⟩
  · intro layer quant p x hbf hp hx
    rcases fusedDecodeLookup_cases layer quant p hx with
      hnone | ⟨sidecar, ngramIds, -, -, hfast, href⟩
    · exact .inl hnone
    · exact .inr ⟨_, _, hfast, href, emit_sameStores hbf hp _ _⟩

/-- The largest number, which becomes infinity, and the negative subnormal
number nearest to zero. -/
def extremes : Quant where
  isInt4 := true
  row := fun _ => [0x7F7FFFFF, 0x80000001]

theorem bf16_store_converts_extremes :
    Converts binary32 bfloat16 (0x7F7FFFFF : BitVec 32) (0x7F80 : BitVec 16) ∧
      ∃ f g, fusedDecodeLookup sampleLayer (some extremes) samplePinned sampleBatch = some f ∧
        fusedDecodeLookupRef sampleLayer (some extremes) samplePinned sampleBatch = some g ∧
        SameStores f g := by
  obtain ⟨hvalue, hlookup⟩ := @bf16_store_converts Unit
  have hp : samplePinned.ConvertsNearestEven := by
    intro u hnan
    have hcopy : samplePinned.copyBFloat16 u = bf16Bits u := if_neg (mt (isNaN_iff u).mpr hnan)
    rw [hcopy]
    exact bf16Bits_converts hnan
  constructor
  · have hbits : bf16Bits 0x7F7FFFFF = 0x7F80 := by decide
    rw [← hbits]
    exact (hvalue 0x7F7FFFFF (by decide)).2
  · refine (hlookup sampleLayer (some extremes) samplePinned sampleBatch rfl hp
      sampleBatch_wellFormed).resolve_left fun hnone => ?_
    simp [fusedDecodeLookup, sampleBatch, extremes, Batch.numReqs] at hnone

end FlashNext.Ports.DecodeLookup
