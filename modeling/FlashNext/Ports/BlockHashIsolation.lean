import Mathlib.Logic.Encodable.Basic
import Mathlib.Logic.Equiv.List
import FlashNext.Ports.BlockHashKeys

/-!
# What a block hash commits to

With an ideal hash function, two requests whose `i`-th block hashes are equal
have been given the same tokens and the same extra keys in the blocks up to
`i`.  The extra keys of a block are an untagged concatenation, so the question
is what can be read back from it: features are pairs and digests are bytes,
but an adapter name and a salt are both strings.  They can only be confused in
a block `0` of a request that has one of the two, and no feature to separate
them.
-/

namespace FlashNext.Ports.BlockHash

open FlashNext.Verified.HashChain

variable {Embed : Type} {env : Env Embed} {r r₁ r₂ : Request Embed}

/-- The assumption on the hash function. -/
structure Ideal (env : Env Embed) : Prop where
  injective : Function.Injective env.cachingHashFn
  ne_noneHash : ∀ x, env.cachingHashFn x ≠ env.noneHash

/-! ## What determines the KV content -/

/-- The salt, unless it is absent or empty. -/
def Request.effectiveSalt (r : Request Embed) : Option String :=
  match r.cacheSalt with
  | none => none
  | some salt => if salt = "" then none else some salt

/-- Identifier and position of the features that overlap a token range. -/
def Request.featuresIn (r : Request Embed) (s e : Nat) : List (String × Nat) :=
  (r.mmFeatures.filter (fun f => f.Overlaps s e)).map
    (fun f => (f.identifier, f.offset))

/-- Two requests agree on everything that determines the KV content of their
first `i + 1` blocks. -/
structure Agree (env : Env Embed) (r₁ r₂ : Request Embed) (i : Nat) : Prop where
  tokens : r₁.allTokenIds.take ((i + 1) * env.hashBlockSize) =
    r₂.allTokenIds.take ((i + 1) * env.hashBlockSize)
  lora : r₁.loraName = r₂.loraName
  salt : r₁.effectiveSalt = r₂.effectiveSalt
  features : ∀ k ≤ i,
    r₁.featuresIn (k * env.hashBlockSize) ((k + 1) * env.hashBlockSize) =
      r₂.featuresIn (k * env.hashBlockSize) ((k + 1) * env.hashBlockSize)
  embeds : ∀ k ≤ i,
    embedsKeys env r₁ (k * env.hashBlockSize) ((k + 1) * env.hashBlockSize) =
      embedsKeys env r₂ (k * env.hashBlockSize) ((k + 1) * env.hashBlockSize)

/-- The adapter name of one request is the salt of the other, and neither has
the other key. -/
def SwapsLoraAndSalt (r₁ r₂ : Request Embed) : Prop :=
  r₁.loraName = r₂.effectiveSalt ∧ r₁.loraName ≠ none ∧
    r₁.effectiveSalt = none ∧ r₂.loraName = none

/-- Block `0` of the two requests only differs in the kind of a string. -/
structure Confusable (env : Env Embed) (r₁ r₂ : Request Embed) (i : Nat) :
    Prop where
  first : i = 0
  swaps : SwapsLoraAndSalt r₁ r₂ ∨ SwapsLoraAndSalt r₂ r₁
  tokens : slice r₁.allTokenIds 0 env.hashBlockSize =
    slice r₂.allTokenIds 0 env.hashBlockSize
  noFeature : r₁.featuresIn 0 env.hashBlockSize = [] ∧
    r₂.featuresIn 0 env.hashBlockSize = []
  embeds : embedsKeys env r₁ 0 env.hashBlockSize =
    embedsKeys env r₂ 0 env.hashBlockSize

/-! ## Reading keys back -/

def ExtraKey.isStr : ExtraKey → Bool
  | .str _ => true
  | _ => false

def ExtraKey.isPair : ExtraKey → Bool
  | .pair _ _ => true
  | _ => false

def ExtraKey.isBytes : ExtraKey → Bool
  | .bytes _ => true
  | _ => false

/-- The strings that a request puts into block keys, as keys. -/
def strKeys (x : Option String) : List ExtraKey :=
  x.toList.map ExtraKey.str

theorem genLoraExtraHashKeys_eq (r : Request Embed) :
    genLoraExtraHashKeys r = strKeys r.loraName := by
  cases h : r.loraName <;> simp [genLoraExtraHashKeys, strKeys, h]

theorem cacheSaltKeys_zero (r : Request Embed) :
    cacheSaltKeys r 0 = strKeys r.effectiveSalt := by
  unfold cacheSaltKeys Request.effectiveSalt strKeys
  cases r.cacheSalt with
  | none => rfl
  | some salt => by_cases h : salt = "" <;> simp [h]

theorem cacheSaltKeys_pos (r : Request Embed) {s : Nat} (h : s ≠ 0) :
    cacheSaltKeys r s = [] := by
  unfold cacheSaltKeys
  cases r.cacheSalt <;> simp [h]

theorem strKeys_injective {x y : Option String} (h : strKeys x = strKeys y) :
    x = y := by
  cases x <;> cases y <;> simp_all [strKeys]

theorem exists_of_mem_mmKeys {features : List MmFeature} {s e : Nat}
    {key : ExtraKey} (h : key ∈ mmKeys features s e) :
    ∃ f : MmFeature, f.key s = key := by
  obtain ⟨f, -, hf⟩ := List.mem_map.1 h
  exact ⟨f, hf⟩

section Filter

variable (x : Option String) (features : List MmFeature) (s e : Nat)

@[simp] theorem strKeys_filter_isStr :
    (strKeys x).filter ExtraKey.isStr = strKeys x := by
  cases x <;> simp [strKeys, ExtraKey.isStr]

@[simp] theorem strKeys_filter_isPair :
    (strKeys x).filter ExtraKey.isPair = [] := by
  cases x <;> simp [strKeys, ExtraKey.isPair]

@[simp] theorem strKeys_filter_isBytes :
    (strKeys x).filter ExtraKey.isBytes = [] := by
  cases x <;> simp [strKeys, ExtraKey.isBytes]

@[simp] theorem mmKeys_filter_isStr :
    (mmKeys features s e).filter ExtraKey.isStr = [] := by
  refine List.filter_eq_nil_iff.2 fun key hkey => ?_
  obtain ⟨f, rfl⟩ := exists_of_mem_mmKeys hkey
  simp [MmFeature.key, ExtraKey.isStr]

@[simp] theorem mmKeys_filter_isPair :
    (mmKeys features s e).filter ExtraKey.isPair = mmKeys features s e := by
  refine List.filter_eq_self.2 fun key hkey => ?_
  obtain ⟨f, rfl⟩ := exists_of_mem_mmKeys hkey
  rfl

@[simp] theorem mmKeys_filter_isBytes :
    (mmKeys features s e).filter ExtraKey.isBytes = [] := by
  refine List.filter_eq_nil_iff.2 fun key hkey => ?_
  obtain ⟨f, rfl⟩ := exists_of_mem_mmKeys hkey
  simp [MmFeature.key, ExtraKey.isBytes]

@[simp] theorem embedsKeys_filter_isStr :
    (embedsKeys env r s e).filter ExtraKey.isStr = [] := by
  unfold embedsKeys
  cases r.promptEmbeds <;> simp [ExtraKey.isStr]

@[simp] theorem embedsKeys_filter_isPair :
    (embedsKeys env r s e).filter ExtraKey.isPair = [] := by
  unfold embedsKeys
  cases r.promptEmbeds <;> simp [ExtraKey.isPair]

@[simp] theorem embedsKeys_filter_isBytes :
    (embedsKeys env r s e).filter ExtraKey.isBytes = embedsKeys env r s e := by
  unfold embedsKeys
  cases r.promptEmbeds <;> simp [ExtraKey.isBytes]

end Filter

/-- The salt keys of any block are string keys. -/
theorem cacheSaltKeys_eq_strKeys (r : Request Embed) (s : Nat) :
    cacheSaltKeys r s = strKeys (if s = 0 then r.effectiveSalt else none) := by
  by_cases h : s = 0
  · subst h
    simpa using cacheSaltKeys_zero r
  · simpa [h, strKeys] using cacheSaltKeys_pos r h

/-- The three kinds of values are told apart in every block. -/
theorem blockKeys_read {s e : Nat}
    (h : blockKeys env r₁ 0 s e = blockKeys env r₂ 0 s e) :
    mmKeys r₁.mmFeatures s e = mmKeys r₂.mmFeatures s e ∧
      embedsKeys env r₁ s e = embedsKeys env r₂ s e ∧
      genLoraExtraHashKeys r₁ ++ cacheSaltKeys r₁ s =
        genLoraExtraHashKeys r₂ ++ cacheSaltKeys r₂ s := by
  simp only [blockKeys, List.drop_zero, genLoraExtraHashKeys_eq,
    cacheSaltKeys_eq_strKeys] at h ⊢
  have hpair := congrArg (List.filter ExtraKey.isPair) h
  have hbytes := congrArg (List.filter ExtraKey.isBytes) h
  have hstr := congrArg (List.filter ExtraKey.isStr) h
  simp only [List.filter_append, strKeys_filter_isStr, strKeys_filter_isPair,
    strKeys_filter_isBytes, mmKeys_filter_isStr, mmKeys_filter_isPair,
    mmKeys_filter_isBytes, embedsKeys_filter_isStr, embedsKeys_filter_isPair,
    embedsKeys_filter_isBytes, List.nil_append, List.append_nil]
    at hpair hbytes hstr
  exact ⟨hpair, hbytes, hstr⟩

/-- A feature's position is its offset in the block plus the block's start. -/
def ExtraKey.position (s : Nat) : ExtraKey → String × Nat
  | .pair identifier relOffset => (identifier, (relOffset + s).toNat)
  | _ => ("", 0)

theorem featuresIn_eq_map_mmKeys (r : Request Embed) (s e : Nat) :
    r.featuresIn s e = (mmKeys r.mmFeatures s e).map (ExtraKey.position s) := by
  simp only [Request.featuresIn, mmKeys, List.map_map]
  refine List.map_congr_left fun f _ => ?_
  simp [MmFeature.key, ExtraKey.position]

theorem featuresIn_eq_nil_iff (r : Request Embed) (s e : Nat) :
    r.featuresIn s e = [] ↔ mmKeys r.mmFeatures s e = [] := by
  rw [featuresIn_eq_map_mmKeys, List.map_eq_nil_iff]

theorem noneIfEmpty_injective {a b : List ExtraKey}
    (h : noneIfEmpty a = noneIfEmpty b) : a = b := by
  unfold noneIfEmpty at h
  split at h <;> split at h <;> simp_all

/-! ## The chain commits to the inputs -/

theorem link_some_injective (hideal : Ideal env) {h h' : Bytes} {b c : BlockInput}
    (hh : h ≠ env.noneHash) (hh' : h' ≠ env.noneHash)
    (heq : link env (some h) b = link env (some h') c) : h = h' ∧ b = c := by
  have hinput := hideal.injective heq
  simp only [Prod.mk.injEq] at hinput
  obtain ⟨hparent, htokens, hkeys⟩ := hinput
  refine ⟨?_, Prod.ext htokens hkeys⟩
  by_cases hnil : h = []
  · by_cases hnil' : h' = []
    · rw [hnil, hnil']
    · rw [if_pos hnil, if_neg hnil'] at hparent
      exact absurd hparent.symm hh'
  · by_cases hnil' : h' = []
    · rw [if_neg hnil, if_pos hnil'] at hparent
      exact absurd hparent hh
    · simpa [hnil, hnil'] using hparent

theorem link_commits (hideal : Ideal env) : Commits (link env) := by
  intro p q b c x y h
  exact link_some_injective hideal (hideal.ne_noneHash _) (hideal.ne_noneHash _) h

theorem link_commitsFirst (hideal : Ideal env) : CommitsFirst (link env) := by
  intro x y h
  have hinput := hideal.injective h
  simp only [Prod.mk.injEq, true_and] at hinput
  exact Prod.ext hinput.1 hinput.2

/-- Equal prefixes of inputs are equal inputs, block by block. -/
theorem blockInput_eq_of_take {i m n : Nat} (hm : i < m) (hn : i < n)
    (h : (inputs env r₁ 0 0 m).take (i + 1) = (inputs env r₂ 0 0 n).take (i + 1))
    {k : Nat} (hk : k ≤ i) : blockInput env r₁ 0 k = blockInput env r₂ 0 k := by
  have hget := congrArg (fun l => l[k]?) h
  have hk₁ : k < m := by omega
  have hk₂ : k < n := by omega
  have hlt : k < i + 1 := by omega
  simpa [inputs, List.getElem?_take, List.getElem?_range', hlt, hk₁, hk₂]
    using hget

theorem take_succ_mul {α : Type} (l : List α) (k bs : Nat) :
    l.take ((k + 1) * bs) =
      l.take (k * bs) ++ slice l (k * bs) ((k + 1) * bs) := by
  have hle : k * bs ≤ (k + 1) * bs := Nat.mul_le_mul_right _ (Nat.le_succ k)
  have hsplit := List.take_append_drop (k * bs) (l.take ((k + 1) * bs))
  rw [List.take_take, Nat.min_eq_left hle] at hsplit
  exact hsplit.symm

/-- The tokens of the first blocks are what their slices are. -/
theorem take_eq_of_slices {α : Type} {l₁ l₂ : List α} (bs : Nat) {i : Nat}
    (h : ∀ k < i, slice l₁ (k * bs) ((k + 1) * bs) =
      slice l₂ (k * bs) ((k + 1) * bs)) :
    l₁.take (i * bs) = l₂.take (i * bs) := by
  induction i with
  | zero => simp
  | succ i ih =>
      rw [take_succ_mul, take_succ_mul, h i (Nat.lt_succ_self i),
        ih fun k hk => h k (by omega)]

/-! ## Adapter name and salt -/

/-- What the strings of block `0` leave open. -/
theorem strKeys_append_eq {l₁ l₂ s₁ s₂ : Option String}
    (h : strKeys l₁ ++ strKeys s₁ = strKeys l₂ ++ strKeys s₂) :
    (l₁ = l₂ ∧ s₁ = s₂) ∨ (l₁ = s₂ ∧ l₁ ≠ none ∧ s₁ = none ∧ l₂ = none) ∨
      (l₂ = s₁ ∧ l₂ ≠ none ∧ s₂ = none ∧ l₁ = none) := by
  cases l₁ <;> cases l₂ <;> cases s₁ <;> cases s₂ <;> simp_all [strKeys]

/-- A feature between the two strings tells them apart. -/
theorem mmKeys_eq_nil_of_swap {s e : Nat} {x : String}
    (tail₁ tail₂ : List ExtraKey)
    (h : .str x :: (mmKeys r.mmFeatures s e ++ tail₁) =
      mmKeys r.mmFeatures s e ++ tail₂) : mmKeys r.mmFeatures s e = [] := by
  cases hkeys : mmKeys r.mmFeatures s e with
  | nil => rfl
  | cons key keys =>
      have hmem : key ∈ mmKeys r.mmFeatures s e := by
        rw [hkeys]
        exact List.mem_cons_self ..
      obtain ⟨f, hf⟩ := exists_of_mem_mmKeys hmem
      rw [hkeys, List.cons_append, List.cons_append, List.cons.injEq] at h
      simp [← hf, MmFeature.key] at h

theorem lora_salt_of_strKeys {s e : Nat}
    (hkeys : blockKeys env r₁ 0 s e = blockKeys env r₂ 0 s e) (hs : s = 0) :
    (r₁.loraName = r₂.loraName ∧ r₁.effectiveSalt = r₂.effectiveSalt) ∨
      SwapsLoraAndSalt r₁ r₂ ∨ SwapsLoraAndSalt r₂ r₁ := by
  subst hs
  obtain ⟨-, -, hstr⟩ := blockKeys_read hkeys
  simp only [genLoraExtraHashKeys_eq, cacheSaltKeys_zero] at hstr
  exact strKeys_append_eq hstr

/-- If the strings of block `0` are swapped, no feature overlaps it. -/
theorem mmKeys_eq_nil_of_swaps {e : Nat}
    (hkeys : blockKeys env r₁ 0 0 e = blockKeys env r₂ 0 0 e)
    (hswap : SwapsLoraAndSalt r₁ r₂) : mmKeys r₁.mmFeatures 0 e = [] := by
  obtain ⟨heq, hne, hsalt, hlora⟩ := hswap
  obtain ⟨hmm, -, -⟩ := blockKeys_read hkeys
  obtain ⟨x, hx⟩ := Option.ne_none_iff_exists'.1 hne
  have hx₂ : r₂.effectiveSalt = some x := by rw [← heq, hx]
  simp only [blockKeys, List.drop_zero, genLoraExtraHashKeys_eq,
    cacheSaltKeys_zero, hx, hx₂, hsalt, hlora, ← hmm] at hkeys
  refine mmKeys_eq_nil_of_swap (x := x) (embedsKeys env r₁ 0 e)
    (.str x :: embedsKeys env r₂ 0 e) ?_
  simpa [strKeys] using hkeys

/-! ## Isolation -/

/-- The hashes of a request that is hashed from scratch. -/
def hashesOf (env : Env Embed) (r : Request Embed) : List Bytes :=
  (requestBlockHasher env r).1

/-- Equal block hashes are equal block inputs up to there. -/
theorem blockInput_eq_of_hash_eq (hideal : Ideal env)
    (hbs : 0 < env.hashBlockSize) (hsep₁ : Separated r₁.mmFeatures)
    (hsep₂ : Separated r₂.mmFeatures) (hfresh₁ : Fresh r₁) (hfresh₂ : Fresh r₂)
    {i : Nat} (hi₁ : i < (hashesOf env r₁).length)
    (hi₂ : i < (hashesOf env r₂).length)
    (heq : (hashesOf env r₁)[i]? = (hashesOf env r₂)[i]?) :
    ∀ k ≤ i, blockInput env r₁ 0 k = blockInput env r₂ 0 k := by
  simp only [hashesOf, requestBlockHasher_fresh hbs hsep₁ hfresh₁,
    requestBlockHasher_fresh hbs hsep₂ hfresh₂] at hi₁ hi₂ heq
  obtain ⟨h, hh⟩ : ∃ h, (chain (link env) none (inputs env r₁ 0 0
      (r₁.allTokenIds.length / env.hashBlockSize)))[i]? = some h :=
    ⟨_, List.getElem?_eq_getElem hi₁⟩
  have htake := chain_take_eq (link_commits hideal) (link_commitsFirst hideal)
    hh (heq ▸ hh)
  simp only [chain_length, inputs_length, Nat.sub_zero] at hi₁ hi₂
  exact fun k hk => blockInput_eq_of_take hi₁ hi₂ htake hk

theorem agree_of_blockInput_eq {i : Nat}
    (h : ∀ k ≤ i, blockInput env r₁ 0 k = blockInput env r₂ 0 k)
    (hlora : r₁.loraName = r₂.loraName)
    (hsalt : r₁.effectiveSalt = r₂.effectiveSalt) : Agree env r₁ r₂ i := by
  have hkeys : ∀ k ≤ i, _ := fun k hk =>
    blockKeys_read (noneIfEmpty_injective (Prod.mk.inj (h k hk)).2)
  refine { tokens := ?_, lora := hlora, salt := hsalt, features := ?_,
           embeds := fun k hk => (hkeys k hk).2.1 }
  · exact take_eq_of_slices env.hashBlockSize fun k hk =>
      (Prod.mk.inj (h k (by omega))).1
  · intro k hk
    rw [featuresIn_eq_map_mmKeys, featuresIn_eq_map_mmKeys, (hkeys k hk).1]

theorem confusable_of_swaps {r₁ r₂ : Request Embed}
    (h : blockInput env r₁ 0 0 = blockInput env r₂ 0 0)
    (hswap : SwapsLoraAndSalt r₁ r₂) : Confusable env r₁ r₂ 0 := by
  obtain ⟨htokens, hnone⟩ := Prod.mk.inj h
  have hkeys := noneIfEmpty_injective hnone
  rw [Nat.zero_mul, Nat.zero_add, Nat.one_mul] at htokens hkeys
  obtain ⟨hmm, hembeds, -⟩ := blockKeys_read hkeys
  have hnil := mmKeys_eq_nil_of_swaps hkeys hswap
  refine ⟨rfl, Or.inl hswap, htokens, ?_, hembeds⟩
  rw [featuresIn_eq_nil_iff, featuresIn_eq_nil_iff, ← hmm]
  exact ⟨hnil, hnil⟩

theorem Confusable.symm {i : Nat} (h : Confusable env r₁ r₂ i) :
    Confusable env r₂ r₁ i :=
  ⟨h.first, h.swaps.symm, h.tokens.symm, h.noFeature.symm, h.embeds.symm⟩

/-- Confusable requests give the same input to block `0`. -/
theorem Confusable.blockInput_eq {i : Nat} (h : Confusable env r₁ r₂ i) :
    blockInput env r₁ 0 0 = blockInput env r₂ 0 0 := by
  have hstr : genLoraExtraHashKeys r₁ ++ cacheSaltKeys r₁ 0 =
      genLoraExtraHashKeys r₂ ++ cacheSaltKeys r₂ 0 := by
    simp only [genLoraExtraHashKeys_eq, cacheSaltKeys_zero]
    rcases h.swaps with ⟨heq, -, hsalt, hlora⟩ | ⟨heq, -, hsalt, hlora⟩ <;>
      simp [heq, hsalt, hlora, strKeys]
  have hnil₁ := (featuresIn_eq_nil_iff ..).1 h.noFeature.1
  have hnil₂ := (featuresIn_eq_nil_iff ..).1 h.noFeature.2
  have htokens := h.tokens
  have hembeds := h.embeds
  simp only [blockInput, blockKeys, List.drop_zero, Nat.zero_mul, Nat.zero_add,
    Nat.one_mul, hnil₁, hnil₂, List.append_nil, hstr, htokens, hembeds]

/-- Confusable requests share their first block hash. -/
theorem Confusable.hash_eq (hbs : 0 < env.hashBlockSize)
    (hsep₁ : Separated r₁.mmFeatures) (hsep₂ : Separated r₂.mmFeatures)
    (hfresh₁ : Fresh r₁) (hfresh₂ : Fresh r₂)
    (hi₁ : 0 < (hashesOf env r₁).length) (hi₂ : 0 < (hashesOf env r₂).length)
    (h : Confusable env r₁ r₂ 0) :
    (hashesOf env r₁)[0]? = (hashesOf env r₂)[0]? := by
  simp only [hashesOf, requestBlockHasher_fresh hbs hsep₁ hfresh₁,
    requestBlockHasher_fresh hbs hsep₂ hfresh₂, chain_length, inputs_length,
    Nat.sub_zero] at hi₁ hi₂ ⊢
  refine chain_getElem?_congr ?_
  obtain ⟨m, hm⟩ := Nat.exists_eq_add_of_lt hi₁
  obtain ⟨n, hn⟩ := Nat.exists_eq_add_of_lt hi₂
  simp only [hm, hn, inputs, Nat.zero_add, Nat.sub_zero, List.range'_succ,
    List.map_cons, List.take_succ_cons, List.take_zero, h.blockInput_eq]

/-- Equal block hashes mean agreement up to that block, except for requests
that block `0` confuses. -/
theorem agree_of_hash_eq_iff (env : Env Embed) (hideal : Ideal env)
    (hbs : 0 < env.hashBlockSize) (r₁ r₂ : Request Embed)
    (hsep₁ : Separated r₁.mmFeatures) (hsep₂ : Separated r₂.mmFeatures)
    (hfresh₁ : Fresh r₁) (hfresh₂ : Fresh r₂) (i : Nat)
    (hi₁ : i < (hashesOf env r₁).length) (hi₂ : i < (hashesOf env r₂).length) :
    ((hashesOf env r₁)[i]? = (hashesOf env r₂)[i]? → Agree env r₁ r₂ i) ↔
      ¬ Confusable env r₁ r₂ i := by
  constructor
  · intro h hconf
    obtain rfl := hconf.first
    have heq := hconf.hash_eq hbs hsep₁ hsep₂ hfresh₁ hfresh₂ hi₁ hi₂
    have hlora := (h heq).lora
    rcases hconf.swaps with ⟨-, hne, -, hnone⟩ | ⟨-, hne, -, hnone⟩
    · exact hne (hlora.trans hnone)
    · exact hne (hlora.symm.trans hnone)
  · intro hconf heq
    have hinputs := blockInput_eq_of_hash_eq hideal hbs hsep₁ hsep₂ hfresh₁
      hfresh₂ hi₁ hi₂ heq
    have hzero := hinputs 0 (Nat.zero_le i)
    have hkeys := noneIfEmpty_injective (Prod.mk.inj hzero).2
    rcases lora_salt_of_strKeys hkeys (Nat.zero_mul _) with
      ⟨hlora, hsalt⟩ | hswaps
    · exact agree_of_blockInput_eq hinputs hlora hsalt
    · -- a swap shows in block one, which has the adapter name but no salt
      have hi : i = 0 := by
        by_contra hpos
        have hone := noneIfEmpty_injective
          (Prod.mk.inj (hinputs 1 (by omega))).2
        obtain ⟨-, -, hstr⟩ := blockKeys_read hone
        have hne : 1 * env.hashBlockSize ≠ 0 := by omega
        simp only [genLoraExtraHashKeys_eq, cacheSaltKeys_pos _ hne,
          List.append_nil] at hstr
        have hlora := strKeys_injective hstr
        rcases hswaps with ⟨-, hsome, -, hnone⟩ | ⟨-, hsome, -, hnone⟩
        · exact hsome (hlora.trans hnone)
        · exact hsome (hlora.symm.trans hnone)
      subst hi
      rcases hswaps with hswap | hswap
      · exact absurd (confusable_of_swaps hzero hswap) hconf
      · exact absurd (confusable_of_swaps hzero.symm hswap).symm hconf

/-! ## An ideal hash function, and two requests that block `0` confuses -/

section Encode

instance encodableUInt8 : Encodable UInt8 :=
  Encodable.ofLeftInverse UInt8.toNat UInt8.ofNat fun b => by simp

instance encodableString : Encodable String :=
  Encodable.ofLeftInverse (fun s => s.toList.map Char.toNat)
    (fun l => String.ofList (l.map Char.ofNat)) fun s => by
      simp [Function.comp_def]

instance encodableExtraKey : Encodable ExtraKey :=
  Encodable.ofLeftInverse
    (fun
      | .str s => (Sum.inl s : String ⊕ (String × Int) ⊕ Bytes)
      | .pair identifier relOffset => Sum.inr (Sum.inl (identifier, relOffset))
      | .bytes b => Sum.inr (Sum.inr b))
    (fun
      | Sum.inl s => .str s
      | Sum.inr (Sum.inl p) => .pair p.1 p.2
      | Sum.inr (Sum.inr b) => .bytes b)
    fun key => by cases key <;> rfl

end Encode

/-- A hash function without collisions: the input's code in unary. -/
def unaryHash (x : Bytes × List Int × Option (List ExtraKey)) : Bytes :=
  List.replicate (Encodable.encode x + 1) 0

def idealEnv : Env Unit where
  hashBlockSize := 2
  cachingHashFn := unaryHash
  noneHash := []
  embedsDigest := fun _ => []

theorem idealEnv_ideal : Ideal idealEnv := by
  constructor
  · intro x y h
    have hlen := congrArg List.length h
    simp only [idealEnv, unaryHash, List.length_replicate] at hlen
    exact Encodable.encode_injective (Nat.succ.inj hlen)
  · intro x
    simp [idealEnv, unaryHash]

/-- Two tokens, with an adapter and a salt. -/
def tenant (loraName cacheSalt : Option String) : Request Unit where
  allTokenIds := [7, 8]
  mmFeatures := []
  loraName := loraName
  cacheSalt := cacheSalt
  promptEmbeds := none
  blockHashes := []
  embedsMemo := []

/-- A request with adapter `"x"` and one with salt `"x"` share a block hash. -/
theorem salt_read_as_adapter :
    Ideal idealEnv ∧
      (hashesOf idealEnv (tenant (some "x") none)).length = 1 ∧
      (hashesOf idealEnv (tenant (some "x") none))[0]? =
        (hashesOf idealEnv (tenant none (some "x")))[0]? ∧
      ¬ Agree idealEnv (tenant (some "x") none) (tenant none (some "x")) 0 := by
  have hconf : Confusable idealEnv (tenant (some "x") none)
      (tenant none (some "x")) 0 :=
    ⟨rfl, Or.inl ⟨rfl, by simp [tenant], rfl, rfl⟩, rfl, ⟨rfl, rfl⟩, rfl⟩
  refine ⟨idealEnv_ideal, rfl, ?_, fun h => ?_⟩
  · exact hconf.hash_eq (by decide) List.Pairwise.nil List.Pairwise.nil
      ⟨rfl, rfl⟩ ⟨rfl, rfl⟩ (Nat.lt_succ_self 0) (Nat.lt_succ_self 0)
  · have hlora := h.lora
    simp [tenant] at hlora

/-- Requests with different salts do not share a block hash. -/
theorem agree_of_hash_eq_iff_two_salts :
    (hashesOf idealEnv (tenant none (some "x")))[0]? ≠
      (hashesOf idealEnv (tenant none (some "y")))[0]? := by
  intro heq
  have hiff := agree_of_hash_eq_iff idealEnv idealEnv_ideal (by decide)
    (tenant none (some "x")) (tenant none (some "y")) List.Pairwise.nil
    List.Pairwise.nil ⟨rfl, rfl⟩ ⟨rfl, rfl⟩ 0 (Nat.lt_succ_self 0)
    (Nat.lt_succ_self 0)
  have hnot : ¬ Confusable idealEnv (tenant none (some "x"))
      (tenant none (some "y")) 0 := by
    intro hconf
    rcases hconf.swaps with ⟨-, hne, -⟩ | ⟨-, hne, -⟩ <;> exact hne rfl
  have hsalt := (hiff.2 hnot heq).salt
  simp [tenant, Request.effectiveSalt] at hsalt

end FlashNext.Ports.BlockHash
