import FlashNext.Ports.BlockHashKeys

/-!
# Incremental against from-scratch block hashing

The hashes accumulated over the life of a request form the chain of the inputs
`firstInputs ++ resumeInputs`; one call on the final request gives the chain
of `scratchInputs`.  Neither list depends on the hash function.  The two agree
exactly if no resumed call hashes a block that a feature other than the last
one reaches into (`Resumable`): a resumed call starts its cursor at the last
feature.
-/

namespace FlashNext.Ports.BlockHash

open FlashNext.Verified.HashChain

variable {Embed : Type} {env : Env Embed} {r : Request Embed}

/-- The hashes accumulated by the call after the prompt and those after each
append. -/
def accumulated (env : Env Embed) (r : Request Embed)
    (appends : List (List Int)) : List Bytes :=
  ((r.updateBlockHashes env).grow env appends).blockHashes

/-- The hashes of one call on the final request. -/
def fromScratch (env : Env Embed) (r : Request Embed)
    (appends : List (List Int)) : List Bytes :=
  (requestBlockHasher env (r.append appends.flatten)).1

/-- The environment with another hash function. -/
def Env.withHash (env : Env Embed)
    (H : Bytes × List Int × Option (List ExtraKey) → Bytes) : Env Embed :=
  { env with cachingHashFn := H }

/-- No feature but the last reaches into block `k`. -/
def OnlyLastReaches (env : Env Embed) (features : List MmFeature) (k : Nat) :
    Prop :=
  ∀ f ∈ features.dropLast,
    ¬ f.Overlaps (k * env.hashBlockSize) ((k + 1) * env.hashBlockSize)

/-- From a request with `n` tokens on: whenever an append finds hashed blocks,
only the last feature reaches into the blocks that it completes. -/
def Resumable (env : Env Embed) (features : List MmFeature) (n : Nat) :
    List (List Int) → Prop
  | [] => True
  | tokens :: rest =>
      (n / env.hashBlockSize ≠ 0 → ∀ k, n / env.hashBlockSize ≤ k →
        k < (n + tokens.length) / env.hashBlockSize →
          OnlyLastReaches env features k) ∧
      Resumable env features (n + tokens.length) rest

/-! ## The inputs of the two chains -/

theorem inputs_append {base i j k : Nat} (hij : i ≤ j) (hjk : j ≤ k) :
    inputs env r base i k = inputs env r base i j ++ inputs env r base j k := by
  have hlen : k - i = (j - i) + (k - j) := by omega
  have hmid : i + (j - i) = j := by omega
  simp only [inputs]
  rw [hlen, ← List.range'_append_1, hmid, List.map_append]

theorem slice_append {α : Type} (xs ys : List α) {s e : Nat}
    (h : e ≤ xs.length) : slice (xs ++ ys) s e = slice xs s e := by
  simp only [slice, List.take_append_of_le_length h]

/-- Later tokens do not change the input of a full block. -/
theorem inputs_append_tokens (tokens : List Int) {base i j : Nat}
    (h : j * env.hashBlockSize ≤ r.allTokenIds.length) :
    inputs env (r.append tokens) base i j = inputs env r base i j := by
  refine List.map_congr_left fun k hk => ?_
  obtain ⟨hge, hlt⟩ := List.mem_range'_1.1 hk
  have hle : (k + 1) * env.hashBlockSize ≤ r.allTokenIds.length :=
    Nat.le_trans (Nat.mul_le_mul_right _ (by omega)) h
  simp only [blockInput, Request.append, slice_append _ _ hle]
  rfl

/-- The inputs of the resumed calls. -/
def resumeInputs (env : Env Embed) (r : Request Embed) :
    List (List Int) → List BlockInput
  | [] => []
  | tokens :: rest =>
      let hashed := r.allTokenIds.length / env.hashBlockSize
      inputs env (r.append tokens)
          (if hashed = 0 then 0 else r.mmFeatures.length - 1) hashed
          ((r.append tokens).allTokenIds.length / env.hashBlockSize) ++
        resumeInputs env (r.append tokens) rest

/-- The inputs do not depend on what was hashed before. -/
theorem resumeInputs_congr (hashes : List Bytes) (memo : EmbedsMemo)
    (appends : List (List Int)) :
    resumeInputs env { r with blockHashes := hashes, embedsMemo := memo }
      appends = resumeInputs env r appends := by
  induction appends generalizing r with
  | nil => rfl
  | cons tokens rest ih =>
      simp only [resumeInputs]
      congr 1
      exact ih (r := r.append tokens)

/-- The request has hashed all its full blocks, as the chain of `ins`. -/
structure Hashed (env : Env Embed) (r : Request Embed) (ins : List BlockInput) :
    Prop where
  length : ins.length = r.allTokenIds.length / env.hashBlockSize
  hashes : r.blockHashes = chain (link env) none ins
  memo : Coherent env r r.embedsMemo

/-- One call on a request that hashed the first `hashed` blocks. -/
theorem updateBlockHashes_hashed (hbs : 0 < env.hashBlockSize)
    (hsep : Separated r.mmFeatures) {ins : List BlockInput}
    (hlen : ins.length ≤ r.allTokenIds.length / env.hashBlockSize)
    (hhashes : r.blockHashes = chain (link env) none ins)
    (hmemo : Coherent env r r.embedsMemo) :
    Hashed env (r.updateBlockHashes env)
      (ins ++ inputs env r (if ins.length = 0 then 0 else r.mmFeatures.length - 1)
        ins.length (r.allTokenIds.length / env.hashBlockSize)) := by
  obtain ⟨hnew, hnewMemo⟩ := requestBlockHasher_spec hbs hsep hmemo
  have hcount : r.blockHashes.length = ins.length := by simp [hhashes]
  have hbase : callBase r =
      if ins.length = 0 then 0 else r.mmFeatures.length - 1 := by
    simp [callBase, ← List.length_eq_zero_iff, hcount]
  refine ⟨?_, ?_, hnewMemo⟩
  · simp only [List.length_append, inputs_length]
    show _ = r.allTokenIds.length / env.hashBlockSize
    omega
  · show r.blockHashes ++ (requestBlockHasher env r).1 = _
    rw [hnew, hbase, hcount, chain_append, ← hhashes, Option.or_none]

theorem grow_hashed (hbs : 0 < env.hashBlockSize) (appends : List (List Int)) :
    ∀ {r : Request Embed} {ins : List BlockInput}, Separated r.mmFeatures →
      Hashed env r ins → Hashed env (r.grow env appends)
        (ins ++ resumeInputs env r appends) := by
  induction appends with
  | nil =>
      intro r ins hsep h
      simpa [Request.grow, resumeInputs] using h
  | cons tokens rest ih =>
      intro r ins hsep h
      have hmono : r.allTokenIds.length / env.hashBlockSize ≤
          (r.append tokens).allTokenIds.length / env.hashBlockSize := by
        refine Nat.div_le_div_right ?_
        simp [Request.append]
      have hcall := updateBlockHashes_hashed (r := r.append tokens) hbs hsep
        (h.length ▸ hmono) h.hashes h.memo
      rw [h.length] at hcall
      have hrest := ih (r := (r.append tokens).updateBlockHashes env) hsep hcall
      have hsame : resumeInputs env ((r.append tokens).updateBlockHashes env)
          rest = resumeInputs env (r.append tokens) rest :=
        resumeInputs_congr _ _ rest
      rw [hsame, List.append_assoc] at hrest
      exact hrest

/-! ## Two ways to hash, as two chains -/

theorem accumulated_eq_chain (hbs : 0 < env.hashBlockSize)
    (hsep : Separated r.mmFeatures) (hfresh : Fresh r)
    (appends : List (List Int)) :
    accumulated env r appends = chain (link env) none
      (inputs env r 0 0 (r.allTokenIds.length / env.hashBlockSize) ++
        resumeInputs env r appends) := by
  have hnone : r.blockHashes = chain (link env) none [] := hfresh.blockHashes
  have hfirst := updateBlockHashes_hashed hbs hsep (Nat.zero_le _) hnone
    (hfresh.embedsMemo ▸ coherent_nil)
  have hgrow := grow_hashed (r := r.updateBlockHashes env) hbs appends hsep
    hfirst
  have hsame : resumeInputs env (r.updateBlockHashes env) appends =
      resumeInputs env r appends := resumeInputs_congr _ _ appends
  rw [hsame] at hgrow
  exact hgrow.hashes

theorem fromScratch_eq_chain (hbs : 0 < env.hashBlockSize)
    (hsep : Separated r.mmFeatures) (hfresh : Fresh r)
    (appends : List (List Int)) :
    fromScratch env r appends = chain (link env) none
      (inputs env (r.append appends.flatten) 0 0
        ((r.append appends.flatten).allTokenIds.length / env.hashBlockSize)) := by
  have hfinal : Fresh (r.append appends.flatten) :=
    ⟨hfresh.blockHashes, hfresh.embedsMemo⟩
  exact requestBlockHasher_fresh hbs hsep hfinal

/-! ## When the inputs agree -/

/-- The number of extra keys of an input. -/
def keyCount (b : BlockInput) : Nat := (b.2.getD []).length

theorem keyCount_blockInput (base k : Nat) :
    keyCount (blockInput env r base k) =
      (blockKeys env r base (k * env.hashBlockSize)
        ((k + 1) * env.hashBlockSize)).length := by
  simp only [keyCount, blockInput, noneIfEmpty]
  split <;> simp_all

/-- From the last feature on, a block sees all its features or misses some. -/
theorem mmKeys_dropLast_append (features : List MmFeature) (s e : Nat) :
    mmKeys features s e = mmKeys features.dropLast s e ++
      mmKeys (features.drop (features.length - 1)) s e := by
  rw [← mmKeys_append, List.dropLast_eq_take, List.take_append_drop]

theorem blockInput_last_of_onlyLastReaches {k : Nat}
    (h : OnlyLastReaches env r.mmFeatures k) :
    blockInput env r (r.mmFeatures.length - 1) k = blockInput env r 0 k := by
  have hkeys := mmKeys_dropLast_append r.mmFeatures (k * env.hashBlockSize)
    ((k + 1) * env.hashBlockSize)
  rw [mmKeys_eq_nil h, List.nil_append] at hkeys
  simp only [blockInput, blockKeys, List.drop_zero, hkeys]

theorem onlyLastReaches_of_keyCount {k : Nat}
    (h : keyCount (blockInput env r (r.mmFeatures.length - 1) k) =
      keyCount (blockInput env r 0 k)) : OnlyLastReaches env r.mmFeatures k := by
  rw [keyCount_blockInput, keyCount_blockInput] at h
  simp only [blockKeys, List.drop_zero, List.length_append,
    mmKeys_dropLast_append r.mmFeatures] at h
  have hzero : (mmKeys r.mmFeatures.dropLast (k * env.hashBlockSize)
      ((k + 1) * env.hashBlockSize)).length = 0 := by omega
  intro f hf hover
  simp only [mmKeys, List.length_map, List.length_eq_zero_iff,
    List.filter_eq_nil_iff] at hzero
  exact hzero f hf (by simpa using hover)

theorem append_append (a b : List Int) :
    (r.append a).append b = r.append (a ++ b) := by
  simp [Request.append]

theorem div_mono_append (tokens : List Int) :
    r.allTokenIds.length / env.hashBlockSize ≤
      (r.append tokens).allTokenIds.length / env.hashBlockSize := by
  refine Nat.div_le_div_right ?_
  simp [Request.append]

/-- The block inputs of one append, as part of those of the final request. -/
theorem inputs_final_split (tokens : List Int) (rest : List (List Int)) :
    inputs env (r.append (tokens ++ rest.flatten)) 0
        (r.allTokenIds.length / env.hashBlockSize)
        ((r.append (tokens ++ rest.flatten)).allTokenIds.length /
          env.hashBlockSize) =
      inputs env (r.append tokens) 0
          (r.allTokenIds.length / env.hashBlockSize)
          ((r.append tokens).allTokenIds.length / env.hashBlockSize) ++
        inputs env (r.append (tokens ++ rest.flatten)) 0
          ((r.append tokens).allTokenIds.length / env.hashBlockSize)
          ((r.append (tokens ++ rest.flatten)).allTokenIds.length /
            env.hashBlockSize) := by
  have hfinal : r.append (tokens ++ rest.flatten) =
      (r.append tokens).append rest.flatten := append_append .. |>.symm
  have h₁ : r.allTokenIds.length / env.hashBlockSize ≤
      (r.append tokens).allTokenIds.length / env.hashBlockSize :=
    div_mono_append tokens
  have h₂ : (r.append tokens).allTokenIds.length / env.hashBlockSize ≤
      ((r.append tokens).append rest.flatten).allTokenIds.length /
        env.hashBlockSize :=
    div_mono_append rest.flatten
  rw [hfinal, inputs_append h₁ h₂]
  congr 1
  exact inputs_append_tokens _ (Nat.div_mul_le_self ..)

theorem resumeInputs_of_resumable (appends : List (List Int))
    (h : Resumable env r.mmFeatures r.allTokenIds.length appends) :
    resumeInputs env r appends =
      inputs env (r.append appends.flatten) 0
        (r.allTokenIds.length / env.hashBlockSize)
        ((r.append appends.flatten).allTokenIds.length / env.hashBlockSize) := by
  induction appends generalizing r with
  | nil => simp [resumeInputs, inputs, Request.append]
  | cons tokens rest ih =>
      obtain ⟨hnow, hrest⟩ := h
      have hlen : (r.append tokens).allTokenIds.length =
          r.allTokenIds.length + tokens.length := by simp [Request.append]
      rw [← hlen] at hnow hrest
      have htail := ih (r := r.append tokens) hrest
      rw [append_append] at htail
      rw [List.flatten_cons, inputs_final_split, resumeInputs, htail]
      congr 1
      by_cases hzero : r.allTokenIds.length / env.hashBlockSize = 0
      · simp [hzero]
      · refine List.map_congr_left fun k hk => ?_
        obtain ⟨hge, hlt⟩ := List.mem_range'_1.1 hk
        rw [if_neg hzero]
        exact blockInput_last_of_onlyLastReaches (r := r.append tokens)
          (hnow hzero k hge (by omega))

theorem resumable_of_keyCount (appends : List (List Int))
    (h : (resumeInputs env r appends).map keyCount =
      (inputs env (r.append appends.flatten) 0
        (r.allTokenIds.length / env.hashBlockSize)
        ((r.append appends.flatten).allTokenIds.length /
          env.hashBlockSize)).map keyCount) :
    Resumable env r.mmFeatures r.allTokenIds.length appends := by
  induction appends generalizing r with
  | nil => trivial
  | cons tokens rest ih =>
      have hlen : (r.append tokens).allTokenIds.length =
          r.allTokenIds.length + tokens.length := by simp [Request.append]
      rw [List.flatten_cons, inputs_final_split, resumeInputs, List.map_append,
        List.map_append] at h
      obtain ⟨hnow, htail⟩ := List.append_inj h (by simp)
      rw [← append_append] at htail
      have hrest := ih (r := r.append tokens) htail
      rw [hlen] at hrest
      refine ⟨fun hzero k hge hlt => ?_, hrest⟩
      rw [if_neg hzero] at hnow
      rw [← hlen] at hlt
      simp only [inputs, List.map_map] at hnow
      have hk := List.map_inj_left.1 hnow k (List.mem_range'_1.2 ⟨hge, by omega⟩)
      exact onlyLastReaches_of_keyCount (r := r.append tokens) hk

/-! ## Exactly when incremental hashing is hashing from scratch -/

theorem resumable_withHash
    (H : Bytes × List Int × Option (List ExtraKey) → Bytes)
    (features : List MmFeature) (n : Nat) (appends : List (List Int)) :
    Resumable (env.withHash H) features n appends ↔
      Resumable env features n appends := by
  induction appends generalizing n with
  | nil => exact Iff.rfl
  | cons tokens rest ih => exact and_congr Iff.rfl (ih _)

/-- Whatever the hash function, the accumulated hashes are those of one call
on the final request, if and only if the appends are resumable. -/
theorem accumulated_eq_fromScratch_iff (env : Env Embed) (r : Request Embed)
    (appends : List (List Int)) (hbs : 0 < env.hashBlockSize)
    (hsep : Separated r.mmFeatures) (hfresh : Fresh r) :
    (∀ H, accumulated (env.withHash H) r appends =
        fromScratch (env.withHash H) r appends) ↔
      Resumable env r.mmFeatures r.allTokenIds.length appends := by
  constructor
  · intro h
    -- a hash function that only shows the number of extra keys
    let H : Bytes × List Int × Option (List ExtraKey) → Bytes :=
      fun x => List.replicate (keyCount (x.2.1, x.2.2)) 0
    have hlink : ∀ p b, link (env.withHash H) p b =
        List.replicate (keyCount b) 0 := fun _ _ => rfl
    have hbsH : 0 < (env.withHash H).hashBlockSize := hbs
    have hall := h H
    rw [accumulated_eq_chain hbsH hsep hfresh,
      fromScratch_eq_chain hbsH hsep hfresh, chain_of_const _ _ hlink,
      chain_of_const _ _ hlink] at hall
    have hcount := congrArg (List.map List.length) hall
    simp only [List.map_map, Function.comp_def, List.length_replicate] at hcount
    rw [inputs_append (Nat.zero_le _) (div_mono_append (r := r) appends.flatten),
      inputs_append_tokens _ (Nat.div_mul_le_self ..), List.map_append,
      List.map_append] at hcount
    exact (resumable_withHash H ..).1
      (resumable_of_keyCount appends (List.append_cancel_left hcount))
  · intro h H
    have hbsH : 0 < (env.withHash H).hashBlockSize := hbs
    have hresume := resumeInputs_of_resumable appends
      ((resumable_withHash H ..).2 h)
    rw [accumulated_eq_chain hbsH hsep hfresh,
      fromScratch_eq_chain hbsH hsep hfresh, hresume, inputs_append (Nat.zero_le _)
        (div_mono_append (r := r) appends.flatten),
      inputs_append_tokens _ (Nat.div_mul_le_self ..)]

/-! ## Two images in the trailing partial block -/

/-- Blocks of eight tokens. -/
def sampleEnv : Env Unit where
  hashBlockSize := 8
  cachingHashFn := fun x => [(keyCount (x.2.1, x.2.2)).toUInt8]
  noneHash := []
  embedsDigest := fun _ => []

/-- A prompt of fourteen tokens whose two images lie behind the first block. -/
def sampleRequest : Request Unit where
  allTokenIds := List.replicate 14 0
  mmFeatures := [⟨"a", 8, 2⟩, ⟨"b", 11, 2⟩]
  loraName := none
  cacheSalt := none
  promptEmbeds := none
  blockHashes := []
  embedsMemo := []

/-- Two generated tokens complete the second block; the resumed call only sees
the second image. -/
theorem resumed_call_misses_image :
    Separated sampleRequest.mmFeatures ∧ Fresh sampleRequest ∧
      accumulated sampleEnv sampleRequest [[1], [2]] ≠
        fromScratch sampleEnv sampleRequest [[1], [2]] := by
  refine ⟨by simp [Separated, sampleRequest], ⟨rfl, rfl⟩, ?_⟩
  have hacc : accumulated sampleEnv sampleRequest [[1], [2]] = [[0], [1]] := by
    decide
  have hscr : fromScratch sampleEnv sampleRequest [[1], [2]] = [[0], [2]] := by
    decide
  rw [hacc, hscr]
  decide

/-- With one image, in the last place, resuming is exact. -/
theorem accumulated_eq_fromScratch_iff_single_image :
    let r := { sampleRequest with mmFeatures := [⟨"b", 11, 2⟩] }
    ∀ H, accumulated (sampleEnv.withHash H) r [[1], [2]] =
      fromScratch (sampleEnv.withHash H) r [[1], [2]] := by
  intro r
  refine (accumulated_eq_fromScratch_iff sampleEnv r [[1], [2]] (by decide)
    (by simp [Separated, r]) ⟨rfl, rfl⟩).2 ?_
  simp [Resumable, OnlyLastReaches, r]

end FlashNext.Ports.BlockHash
