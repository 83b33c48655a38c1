import Mathlib.Data.List.Basic
import FlashNext.Verified.HashChain

/-!
# Prefix-cache block hashing

`get_request_block_hasher` returns a function that hashes the full blocks of a
request which have not been hashed yet.  A block's hash is made from its
parent's hash, its tokens and its extra keys: the LoRA name, the multimodal
features that reach into the block, the cache salt (first block only) and the
digest of the block's prompt embeddings.

The hasher is called again whenever tokens were appended.  What it keeps
between calls is the list `block_hashes` and the memo
`_prompt_embeds_per_block_hashes`; the position in the feature list is not
kept.
-/

namespace FlashNext.Ports.BlockHash

/-- Python `bytes`. -/
abbrev Bytes := List UInt8

/-- An entry of `request.mm_features`: identifier and `mm_position`. -/
structure MmFeature where
  identifier : String
  offset : Nat
  length : Nat
deriving DecidableEq

/-- The values that end up in `extra_keys`, told apart by their Python type. -/
inductive ExtraKey
  | str (s : String)
  | pair (identifier : String) (relOffset : Int)
  | bytes (b : Bytes)
deriving DecidableEq

/-- `_prompt_embeds_per_block_hashes`, keyed by the block range. -/
abbrev EmbedsMemo := List ((Nat × Nat) × Bytes)

/-- The fields of a request that the hasher reads or writes. -/
structure Request (Embed : Type) where
  allTokenIds : List Int
  mmFeatures : List MmFeature
  /-- `lora_request.lora_name`, when there is a LoRA request. -/
  loraName : Option String
  cacheSalt : Option String
  promptEmbeds : Option (List Embed)
  blockHashes : List Bytes
  embedsMemo : EmbedsMemo

/-- What the hasher is closed over. -/
structure Env (Embed : Type) where
  hashBlockSize : Nat
  cachingHashFn : Bytes × List Int × Option (List ExtraKey) → Bytes
  noneHash : Bytes
  /-- `sha256(tensor_data(·)).digest()`. -/
  embedsDigest : List Embed → Bytes

variable {Embed : Type}

/-- The slice `xs[s:e]`. -/
def slice {α : Type} (xs : List α) (s e : Nat) : List α := (xs.take e).drop s

/-! ## Extra keys -/

/-- The loop of `_gen_mm_extra_hash_keys` over the features from the cursor
on: the keys, and by how many features the cursor moves. -/
def mmWalk (s e : Nat) : List MmFeature → List ExtraKey × Nat
  | [] => ([], 0)
  | f :: fs =>
      if f.offset < e then
        if f.offset + f.length ≤ s then
          ((mmWalk s e fs).1, (mmWalk s e fs).2 + 1)
        else if f.offset + f.length ≤ e then
          (.pair f.identifier (f.offset - s) :: (mmWalk s e fs).1,
            (mmWalk s e fs).2 + 1)
        else ([.pair f.identifier (f.offset - s)], 0)
      else ([], 0)

/-- `_gen_mm_extra_hash_keys`.  A negative cursor counts from the end; the
only one the hasher passes is `-1`, so the assertion on it holds whenever
there are features. -/
def genMmExtraHashKeys (r : Request Embed) (s e : Nat) (startMmIdx : Int) :
    List ExtraKey × Int :=
  match r.mmFeatures.getLast? with
  | none => ([], startMmIdx)
  | some last =>
      if last.offset + last.length ≤ s then ([], startMmIdx)
      else
        let start := if startMmIdx < 0 then r.mmFeatures.length + startMmIdx
          else startMmIdx
        let walk := mmWalk s e (r.mmFeatures.drop start.toNat)
        (walk.1, start + walk.2)

/-- `_gen_lora_extra_hash_keys`. -/
def genLoraExtraHashKeys (r : Request Embed) : List ExtraKey :=
  match r.loraName with
  | none => []
  | some name => [.str name]

/-- `cache_salt_keys`; an empty salt is falsy. -/
def cacheSaltKeys (r : Request Embed) (s : Nat) : List ExtraKey :=
  match r.cacheSalt with
  | none => []
  | some salt => if s = 0 ∧ salt ≠ "" then [.str salt] else []

/-- `_gen_prompt_embeds_extra_hash_keys`, with the memo it leaves behind. -/
def genPromptEmbedsExtraHashKeys (env : Env Embed) (r : Request Embed)
    (memo : EmbedsMemo) (s e : Nat) : List ExtraKey × EmbedsMemo :=
  match r.promptEmbeds with
  | none => ([], memo)
  | some embeds =>
      match memo.lookup (s, e) with
      | some digest => ([.bytes digest], memo)
      | none =>
          let digest := env.embedsDigest (slice embeds s e)
          ([.bytes digest], ((s, e), digest) :: memo)

/-- An empty key list is passed on as `None`. -/
def noneIfEmpty (keys : List ExtraKey) : Option (List ExtraKey) :=
  if keys = [] then none else some keys

/-- `generate_block_hash_extra_keys`. -/
def generateBlockHashExtraKeys (env : Env Embed) (r : Request Embed)
    (memo : EmbedsMemo) (s e : Nat) (startMmIdx : Int) :
    Option (List ExtraKey) × Int × EmbedsMemo :=
  let mm := genMmExtraHashKeys r s e startMmIdx
  let embeds := genPromptEmbedsExtraHashKeys env r memo s e
  (noneIfEmpty (genLoraExtraHashKeys r ++ mm.1 ++ cacheSaltKeys r s ++ embeds.1),
    mm.2, embeds.2)

/-! ## Block hashes -/

/-- `hash_block_tokens`; an empty parent hash is falsy as well. -/
def hashBlockTokens (env : Env Embed) (parent : Option Bytes)
    (tokens : List Int) (extraKeys : Option (List ExtraKey)) : Bytes :=
  let parent := match parent with
    | none => env.noneHash
    | some h => if h = [] then env.noneHash else h
  env.cachingHashFn (parent, tokens, extraKeys)

/-- The `while` loop of `request_block_hasher`.  Every round moves `start` by
a block, so `num_tokens` rounds are always enough. -/
def hashLoop (env : Env Embed) (r : Request Embed) :
    (rounds start : Nat) → (currMmIdx : Int) → (prev : Option Bytes) →
      EmbedsMemo → List Bytes × EmbedsMemo
  | 0, _, _, _, memo => ([], memo)
  | rounds + 1, start, currMmIdx, prev, memo =>
      let stop := start + env.hashBlockSize
      if r.allTokenIds.length < stop then ([], memo)
      else
        let keys := generateBlockHashExtraKeys env r memo start stop currMmIdx
        let hash := hashBlockTokens env prev (slice r.allTokenIds start stop)
          keys.1
        let rest := hashLoop env r rounds stop keys.2.1 (some hash) keys.2.2
        (hash :: rest.1, rest.2)

/-- `request_block_hasher`: the hashes of the blocks that are not hashed yet,
and the memo it leaves behind. -/
def requestBlockHasher (env : Env Embed) (r : Request Embed) :
    List Bytes × EmbedsMemo :=
  let start := r.blockHashes.length * env.hashBlockSize
  if r.allTokenIds.length < start + env.hashBlockSize then ([], r.embedsMemo)
  else
    hashLoop env r r.allTokenIds.length start (if 0 < start then -1 else 0)
      r.blockHashes.getLast? r.embedsMemo

/-! ## The life of a request -/

/-- The request extends its `block_hashes` by what the hasher returns. -/
def Request.updateBlockHashes (env : Env Embed) (r : Request Embed) :
    Request Embed :=
  { r with
    blockHashes := r.blockHashes ++ (requestBlockHasher env r).1
    embedsMemo := (requestBlockHasher env r).2 }

/-- Tokens are appended. -/
def Request.append (r : Request Embed) (tokens : List Int) : Request Embed :=
  { r with allTokenIds := r.allTokenIds ++ tokens }

/-- Every append is followed by a call of the hasher. -/
def Request.grow (env : Env Embed) (r : Request Embed) :
    List (List Int) → Request Embed
  | [] => r
  | tokens :: rest => ((r.append tokens).updateBlockHashes env).grow env rest

/-- A request as it is created from its prompt: nothing is hashed. -/
structure Fresh (r : Request Embed) : Prop where
  blockHashes : r.blockHashes = []
  embedsMemo : r.embedsMemo = []

/-- The feature list is sorted by offset and its features do not overlap. -/
def Separated (features : List MmFeature) : Prop :=
  features.Pairwise (fun f g => f.offset + f.length ≤ g.offset)

/-- A feature reaches into the token range `[s, e)`. -/
def MmFeature.Overlaps (f : MmFeature) (s e : Nat) : Prop :=
  s < f.offset + f.length ∧ f.offset < e

instance (f : MmFeature) (s e : Nat) : Decidable (f.Overlaps s e) :=
  inferInstanceAs (Decidable (_ ∧ _))

end FlashNext.Ports.BlockHash
