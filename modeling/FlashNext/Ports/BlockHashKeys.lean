import FlashNext.Ports.BlockHash

/-!
# What one call of the block hasher computes

The cursor walk over the features collects, block after block, exactly the
features that overlap the block among those from a base index on: from index
`0` in a first call, from the last feature in a resumed call.  The memo never
changes a digest.  Together, one call extends the hash chain of the request by
the links of its remaining full blocks (`requestBlockHasher_eq`).
-/

namespace FlashNext.Ports.BlockHash

open FlashNext.Verified.HashChain

variable {Embed : Type} {env : Env Embed} {r : Request Embed}

/-! ## The cursor walk -/

/-- The key of one feature in the block that starts at `s`. -/
def MmFeature.key (f : MmFeature) (s : Nat) : ExtraKey :=
  .pair f.identifier (f.offset - s)

/-- The keys of the features that overlap a block. -/
def mmKeys (features : List MmFeature) (s e : Nat) : List ExtraKey :=
  (features.filter (fun f => f.Overlaps s e)).map (fun f => f.key s)

theorem mmKeys_eq_nil {features : List MmFeature} {s e : Nat}
    (h : ∀ f ∈ features, ¬ f.Overlaps s e) : mmKeys features s e = [] := by
  have hfilter : features.filter (fun f => decide (f.Overlaps s e)) = [] := by
    simpa [List.filter_eq_nil_iff] using h
  simp [mmKeys, hfilter]

theorem mmKeys_append (as bs : List MmFeature) (s e : Nat) :
    mmKeys (as ++ bs) s e = mmKeys as s e ++ mmKeys bs s e := by
  simp [mmKeys, List.filter_append]

/-- The walk collects the overlapping features. -/
theorem mmWalk_keys {features : List MmFeature} (h : Separated features)
    (s e : Nat) : (mmWalk s e features).1 = mmKeys features s e := by
  induction features with
  | nil => rfl
  | cons f fs ih =>
      obtain ⟨hf, hfs⟩ := List.pairwise_cons.1 h
      -- once a feature reaches the end of the block, the later ones lie behind
      have hbehind : e ≤ f.offset + f.length → mmKeys fs s e = [] := by
        intro he
        refine mmKeys_eq_nil fun g hg => ?_
        have hle := hf g hg
        simp only [MmFeature.Overlaps]
        omega
      have hsplit : mmKeys (f :: fs) s e = mmKeys [f] s e ++ mmKeys fs s e :=
        mmKeys_append [f] fs s e
      unfold mmWalk
      split
      case isTrue hlt =>
        split
        case isTrue hpassed =>
          have hnot : ¬ f.Overlaps s e := by
            simp only [MmFeature.Overlaps]
            omega
          rw [hsplit, mmKeys_eq_nil (by simpa using hnot)]
          simpa using ih hfs
        case isFalse hnot =>
          have hover : f.Overlaps s e := ⟨by omega, hlt⟩
          have hone : mmKeys [f] s e = [f.key s] := by simp [mmKeys, hover]
          split
          case isTrue hend => simp [hsplit, hone, ih hfs, MmFeature.key]
          case isFalse hend =>
            rw [hsplit, hone, hbehind (by omega)]
            rfl
      case isFalse hge =>
        have hnot : ¬ f.Overlaps s e := by
          simp only [MmFeature.Overlaps]
          omega
        rw [hsplit, mmKeys_eq_nil (by simpa using hnot), hbehind (by omega)]
        rfl

/-- The walk moves the cursor past features that end in the block or before. -/
theorem mmWalk_passed (s e : Nat) (hse : s ≤ e) (features : List MmFeature) :
    ∀ f ∈ features.take (mmWalk s e features).2, f.offset + f.length ≤ e := by
  induction features with
  | nil => simp [mmWalk]
  | cons f fs ih =>
      unfold mmWalk
      split
      case isTrue hlt =>
        split
        case isTrue hpassed =>
          intro g hg
          rcases List.mem_cons.1 (by simpa using hg) with rfl | hg
          · omega
          · exact ih g hg
        case isFalse hnot =>
          split
          case isTrue hend =>
            intro g hg
            rcases List.mem_cons.1 (by simpa using hg) with rfl | hg
            · exact hend
            · exact ih g hg
          case isFalse hend => simp
      case isFalse hge => simp

/-! ## The cursor between blocks -/

/-- A cursor as an index into the feature list. -/
def cursorIndex (features : List MmFeature) (c : Int) : Int :=
  if c < 0 then features.length + c else c

/-- The cursor is at or behind `base`, and every feature between the two ends
at or before `start`. -/
structure CursorAt (features : List MmFeature) (base start : Nat) (c : Int) :
    Prop where
  /-- In particular the assertion on negative cursors holds. -/
  base_le : features ≠ [] → (base : Int) ≤ cursorIndex features c
  passed : ∀ f ∈ (features.drop base).take
    ((cursorIndex features c).toNat - base), f.offset + f.length ≤ start

theorem CursorAt.mono {features : List MmFeature} {base s e : Nat} {c : Int}
    (h : CursorAt features base s c) (hse : s ≤ e) :
    CursorAt features base e c :=
  ⟨h.base_le, fun f hf => Nat.le_trans (h.passed f hf) hse⟩

theorem Separated.drop {features : List MmFeature} (h : Separated features)
    (n : Nat) : Separated (features.drop n) :=
  List.Pairwise.drop h

/-- When the last feature has been passed, all have. -/
theorem Separated.end_le_last {features : List MmFeature}
    (h : Separated features) {last : MmFeature}
    (hlast : features.getLast? = some last) :
    ∀ f ∈ features, f.offset + f.length ≤ last.offset + last.length := by
  obtain ⟨front, rfl⟩ := List.getLast?_eq_some_iff.1 hlast
  obtain ⟨-, -, hcross⟩ := List.pairwise_append.1 h
  intro f hf
  rcases List.mem_append.1 hf with hf | hf
  · have hle := hcross f hf last (List.mem_singleton_self _)
    omega
  · obtain rfl := List.mem_singleton.1 hf
    exact Nat.le_refl _

theorem drop_drop_sub {α : Type} (l : List α) {base i : Nat} (h : base ≤ i) :
    (l.drop base).drop (i - base) = l.drop i := by
  rw [List.drop_drop]
  congr 1
  omega

theorem drop_eq_take_append_drop {α : Type} (l : List α) {base i : Nat}
    (h : base ≤ i) : l.drop base = (l.drop base).take (i - base) ++ l.drop i := by
  rw [← drop_drop_sub l h, List.take_append_drop]

theorem take_drop_add {α : Type} (l : List α) {base i : Nat} (h : base ≤ i)
    (n : Nat) : (l.drop base).take (i + n - base) =
      (l.drop base).take (i - base) ++ (l.drop i).take n := by
  rw [show i + n - base = (i - base) + n by omega, List.take_add,
    drop_drop_sub l h]

/-- One block: the keys are those of the features from `base` on, and the
cursor is right for the next block. -/
theorem genMmExtraHashKeys_spec {base s e : Nat} {c : Int}
    (hsep : Separated r.mmFeatures) (hse : s ≤ e)
    (hc : CursorAt r.mmFeatures base s c) :
    (genMmExtraHashKeys r s e c).1 = mmKeys (r.mmFeatures.drop base) s e ∧
      CursorAt r.mmFeatures base e (genMmExtraHashKeys r s e c).2 := by
  unfold genMmExtraHashKeys
  split
  case h_1 hnone =>
    have hnil : r.mmFeatures = [] := by simpa using hnone
    exact ⟨by simp [hnil, mmKeys], hc.mono hse⟩
  case h_2 last hlast =>
    split
    case isTrue hpassed =>
      refine ⟨(mmKeys_eq_nil fun f hf => ?_).symm, hc.mono hse⟩
      have hle := hsep.end_le_last hlast f (List.mem_of_mem_drop hf)
      simp only [MmFeature.Overlaps]
      omega
    case isFalse hnot =>
      have hne : r.mmFeatures ≠ [] := by
        rintro hnil
        simp [hnil] at hlast
      have hbase := hc.base_le hne
      obtain ⟨i, hi⟩ := Int.eq_ofNat_of_zero_le
        (Int.le_trans (Int.natCast_nonneg base) hbase)
      have hpassed := hc.passed
      have hle : base ≤ i := by omega
      have hcur : (if c < 0 then (r.mmFeatures.length : Int) + c else c) = i := hi
      rw [hi, Int.toNat_natCast] at hpassed
      simp only [hcur, Int.toNat_natCast]
      have hbefore : mmKeys ((r.mmFeatures.drop base).take (i - base)) s e =
          [] := by
        refine mmKeys_eq_nil fun f hf => ?_
        have hend := hpassed f hf
        simp only [MmFeature.Overlaps]
        omega
      constructor
      · rw [mmWalk_keys (hsep.drop i), drop_eq_take_append_drop r.mmFeatures hle,
          mmKeys_append, hbefore, List.nil_append]
      · have hnew : cursorIndex r.mmFeatures
            (i + (mmWalk s e (r.mmFeatures.drop i)).2) =
            ((i + (mmWalk s e (r.mmFeatures.drop i)).2 : Nat) : Int) := by
          simp only [cursorIndex]
          omega
        refine ⟨fun _ => by rw [hnew]; omega, ?_⟩
        rw [hnew, Int.toNat_natCast, take_drop_add _ hle]
        intro f hf
        rcases List.mem_append.1 hf with hf | hf
        · exact Nat.le_trans (hpassed f hf) hse
        · exact mmWalk_passed s e hse _ f hf

/-! ## The embeds memo -/

/-- The key of a block's prompt embeddings. -/
def embedsKeys (env : Env Embed) (r : Request Embed) (s e : Nat) :
    List ExtraKey :=
  match r.promptEmbeds with
  | none => []
  | some embeds => [.bytes (env.embedsDigest (slice embeds s e))]

/-- Every remembered digest is the digest of its range. -/
def Coherent (env : Env Embed) (r : Request Embed) (memo : EmbedsMemo) : Prop :=
  ∀ s e digest, memo.lookup (s, e) = some digest →
    ∀ embeds, r.promptEmbeds = some embeds →
      digest = env.embedsDigest (slice embeds s e)

theorem coherent_nil : Coherent env r [] := by
  simp [Coherent]

theorem genPromptEmbedsExtraHashKeys_spec {memo : EmbedsMemo} (s e : Nat)
    (h : Coherent env r memo) :
    (genPromptEmbedsExtraHashKeys env r memo s e).1 = embedsKeys env r s e ∧
      Coherent env r (genPromptEmbedsExtraHashKeys env r memo s e).2 := by
  unfold genPromptEmbedsExtraHashKeys embedsKeys
  cases hembeds : r.promptEmbeds with
  | none => exact ⟨rfl, h⟩
  | some embeds =>
      cases hmemo : memo.lookup (s, e) with
      | some digest =>
          simp only [h s e digest hmemo embeds hembeds, true_and]
          exact h
      | none =>
          refine ⟨rfl, ?_⟩
          intro s' e' digest hlookup embeds' hembeds'
          obtain rfl : embeds = embeds' := by simpa [hembeds] using hembeds'
          by_cases hkey : (s', e') = (s, e)
          · obtain ⟨rfl, rfl⟩ := Prod.mk.inj hkey
            simpa [List.lookup_cons_self] using hlookup.symm
          · have hne : ((s', e') == (s, e)) = false := by simpa using hkey
            rw [List.lookup_cons, hne] at hlookup
            exact h s' e' digest hlookup embeds hembeds

/-! ## One call -/

/-- What a block's hash commits to besides its parent. -/
abbrev BlockInput := List Int × Option (List ExtraKey)

/-- All extra keys of the block `[s, e)`, with the features from `base` on. -/
def blockKeys (env : Env Embed) (r : Request Embed) (base s e : Nat) :
    List ExtraKey :=
  genLoraExtraHashKeys r ++ mmKeys (r.mmFeatures.drop base) s e ++
    cacheSaltKeys r s ++ embedsKeys env r s e

/-- The input of block `k`. -/
def blockInput (env : Env Embed) (r : Request Embed) (base k : Nat) :
    BlockInput :=
  (slice r.allTokenIds (k * env.hashBlockSize) ((k + 1) * env.hashBlockSize),
    noneIfEmpty (blockKeys env r base (k * env.hashBlockSize)
      ((k + 1) * env.hashBlockSize)))

/-- Inputs of the blocks `i ≤ k < j`. -/
def inputs (env : Env Embed) (r : Request Embed) (base i j : Nat) :
    List BlockInput :=
  (List.range' i (j - i)).map (blockInput env r base)

@[simp] theorem inputs_length (base i j : Nat) :
    (inputs env r base i j).length = j - i := by
  simp [inputs]

/-- The chaining function of the block hashes. -/
def link (env : Env Embed) (p : Option Bytes) (b : BlockInput) : Bytes :=
  hashBlockTokens env p b.1 b.2

theorem generateBlockHashExtraKeys_spec {base s e : Nat} {c : Int}
    {memo : EmbedsMemo} (hsep : Separated r.mmFeatures) (hse : s ≤ e)
    (hc : CursorAt r.mmFeatures base s c) (hm : Coherent env r memo) :
    (generateBlockHashExtraKeys env r memo s e c).1 =
        noneIfEmpty (blockKeys env r base s e) ∧
      CursorAt r.mmFeatures base e
        (generateBlockHashExtraKeys env r memo s e c).2.1 ∧
      Coherent env r (generateBlockHashExtraKeys env r memo s e c).2.2 := by
  obtain ⟨hkeys, hcursor⟩ := genMmExtraHashKeys_spec hsep hse hc
  obtain ⟨hembeds, hmemo⟩ := genPromptEmbedsExtraHashKeys_spec s e hm
  refine ⟨?_, hcursor, hmemo⟩
  simp only [generateBlockHashExtraKeys, blockKeys, hkeys, hembeds]

/-- The loop hashes all remaining full blocks. -/
theorem hashLoop_spec (hbs : 0 < env.hashBlockSize)
    (hsep : Separated r.mmFeatures) {base : Nat} (rounds : Nat) {k : Nat} {c : Int}
    {prev : Option Bytes} {memo : EmbedsMemo}
    (hrounds : r.allTokenIds.length / env.hashBlockSize ≤ k + rounds)
    (hc : CursorAt r.mmFeatures base (k * env.hashBlockSize) c)
    (hm : Coherent env r memo) :
    (hashLoop env r rounds (k * env.hashBlockSize) c prev memo).1 =
        chain (link env) prev
          (inputs env r base k (r.allTokenIds.length / env.hashBlockSize)) ∧
      Coherent env r
        (hashLoop env r rounds (k * env.hashBlockSize) c prev memo).2 := by
  induction rounds generalizing k c prev memo with
  | zero =>
      have hnone : r.allTokenIds.length / env.hashBlockSize - k = 0 := by omega
      rw [inputs, hnone]
      exact ⟨rfl, hm⟩
  | succ rounds ih =>
      have hstop : k * env.hashBlockSize + env.hashBlockSize =
          (k + 1) * env.hashBlockSize := by rw [Nat.add_mul, Nat.one_mul]
      unfold hashLoop
      simp only [hstop]
      split
      case isTrue hshort =>
        have hlt := (Nat.div_lt_iff_lt_mul hbs).2 hshort
        have hnone : r.allTokenIds.length / env.hashBlockSize - k = 0 := by omega
        rw [inputs, hnone]
        exact ⟨rfl, hm⟩
      case isFalse hfull =>
        have hge := (Nat.le_div_iff_mul_le hbs).2 (Nat.le_of_not_lt hfull)
        have hmore : r.allTokenIds.length / env.hashBlockSize - k =
            (r.allTokenIds.length / env.hashBlockSize - (k + 1)) + 1 := by omega
        have hle : k * env.hashBlockSize ≤ (k + 1) * env.hashBlockSize :=
          Nat.mul_le_mul_right _ (Nat.le_succ k)
        obtain ⟨hkeys, hcursor, hmemo⟩ :=
          generateBlockHashExtraKeys_spec hsep hle hc hm
        obtain ⟨hrest, hrestMemo⟩ := ih (k := k + 1) (by omega) hcursor hmemo
        rw [inputs, hmore, List.range'_succ, List.map_cons, chain_cons]
        refine ⟨?_, hrestMemo⟩
        rw [hrest, hkeys]
        rfl

/-- The base index of a call: a resumed call only knows the last feature. -/
def callBase (r : Request Embed) : Nat :=
  if r.blockHashes = [] then 0 else r.mmFeatures.length - 1

/-- One call extends the chain by the remaining full blocks. -/
theorem requestBlockHasher_spec (hbs : 0 < env.hashBlockSize)
    (hsep : Separated r.mmFeatures) (hm : Coherent env r r.embedsMemo) :
    (requestBlockHasher env r).1 =
        chain (link env) r.blockHashes.getLast?
          (inputs env r (callBase r) r.blockHashes.length
            (r.allTokenIds.length / env.hashBlockSize)) ∧
      Coherent env r (requestBlockHasher env r).2 := by
  unfold requestBlockHasher
  simp only
  split
  case isTrue hshort =>
    rw [← Nat.succ_mul] at hshort
    have hlt := (Nat.div_lt_iff_lt_mul hbs).2 hshort
    have hnone : r.allTokenIds.length / env.hashBlockSize -
        r.blockHashes.length = 0 := by omega
    rw [inputs, hnone]
    exact ⟨rfl, hm⟩
  case isFalse hfull =>
    have hdiv := Nat.div_le_self r.allTokenIds.length env.hashBlockSize
    refine hashLoop_spec hbs hsep _ (by omega) ?_ hm
    by_cases hnil : r.blockHashes = []
    · have hbase : callBase r = 0 := by simp [callBase, hnil]
      rw [hbase, hnil]
      exact ⟨by simp [cursorIndex], by simp [cursorIndex]⟩
    · have hbase : callBase r = r.mmFeatures.length - 1 := by
        simp [callBase, hnil]
      have hpos : 0 < r.blockHashes.length * env.hashBlockSize :=
        Nat.mul_pos (List.length_pos_iff.2 hnil) hbs
      rw [hbase, if_pos hpos]
      constructor
      · intro hne
        have hlen := List.length_pos_iff.2 hne
        simp only [cursorIndex]
        omega
      · have hidx : (cursorIndex r.mmFeatures (-1)).toNat -
            (r.mmFeatures.length - 1) = 0 := by
          simp only [cursorIndex]
          omega
        rw [hidx]
        simp

/-- A first call hashes every full block, with all the features. -/
theorem requestBlockHasher_fresh (hbs : 0 < env.hashBlockSize)
    (hsep : Separated r.mmFeatures) (hfresh : Fresh r) :
    (requestBlockHasher env r).1 = chain (link env) none
      (inputs env r 0 0 (r.allTokenIds.length / env.hashBlockSize)) := by
  have hcall := (requestBlockHasher_spec hbs hsep
    (hfresh.embedsMemo ▸ coherent_nil)).1
  have hbase : callBase r = 0 := by simp [callBase, hfresh.blockHashes]
  simpa [hbase, hfresh.blockHashes] using hcall

end FlashNext.Ports.BlockHash
