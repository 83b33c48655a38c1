import FlashNext.Ports.DecodeLookupAgreement

/-!
# The n-gram window of a decode

`_prepare_ngram_context` rebuilds the last `ngram_size - 1` tokens of every
request from `req_states`.  The lookup cuts that window at the last EOS.  Both
together read the whole sequence: a shift sees its token unless an EOS lies in
between or the sequence starts there.
-/

namespace FlashNext.Ports.DecodeLookup

/-! ## Request states -/

/-- The rows of one request index in `num_computed_tokens.gpu`, `total_len.gpu`
and `all_token_ids.gpu`; past `totalLen` the row keeps what it held. -/
structure RequestRow where
  numComputedTokens : Int
  totalLen : Nat
  allTokenIds : Nat → BitVec 32

/-- `req_states.add_request` and `post_update` as they act on one row; this
repository calls them but does not contain them. -/
structure RowUpdates where
  addRequest : RequestRow → (prefillTokenIds : List (BitVec 32)) →
    (numComputedTokens : Nat) → RequestRow
  postUpdate : RequestRow → (accepted : List (BitVec 32)) →
    (queryLen numRejected : Nat) → RequestRow

/-- Their documented effect on the tokens of a row: a request starts with its
prefill tokens, and the accepted tokens are appended. -/
structure RowUpdates.Lawful (ops : RowUpdates) : Prop where
  add_totalLen : ∀ row prefillTokenIds n,
    (ops.addRequest row prefillTokenIds n).totalLen = prefillTokenIds.length
  add_tokens : ∀ row prefillTokenIds n (i : Nat), i < prefillTokenIds.length →
    (ops.addRequest row prefillTokenIds n).allTokenIds i = prefillTokenIds.getD i 0
  update_totalLen : ∀ row accepted queryLen numRejected,
    (ops.postUpdate row accepted queryLen numRejected).totalLen =
      row.totalLen + accepted.length
  update_kept : ∀ row accepted queryLen numRejected (i : Nat), i < row.totalLen →
    (ops.postUpdate row accepted queryLen numRejected).allTokenIds i = row.allTokenIds i
  update_appended : ∀ row accepted queryLen numRejected (i : Nat),
    i < accepted.length →
    (ops.postUpdate row accepted queryLen numRejected).allTokenIds (row.totalLen + i) =
      accepted.getD i 0

/-- What can happen to the row of a request that follows the sequence `seq`.
A request may be added again after a preemption, with any prefix of the
sequence, and the counter may be rolled back by the scheduler. -/
inductive History (ops : RowUpdates) (seq : List (BitVec 32)) : RequestRow → Prop where
  | add (row : RequestRow) (n numComputedTokens : Nat) :
      History ops seq (ops.addRequest row (seq.take n) numComputedTokens)
  | step {row : RequestRow} {accepted : List (BitVec 32)} (queryLen numRejected : Nat) :
      History ops seq row → accepted <+: seq.drop row.totalLen →
      History ops seq (ops.postUpdate row accepted queryLen numRejected)
  | rollback {row : RequestRow} (numComputedTokens : Int) :
      History ops seq row →
      History ops seq { row with numComputedTokens := numComputedTokens }

/-! ## The model state -/

structure NgramModelState where
  ngramContextLen : Nat
  ngramEosTokenId : BitVec 32

/-- The n-gram part of `__init__`. -/
def NgramModelState.init (ngramSize : Nat) (eosTokenId : BitVec 32) :
    Except String NgramModelState :=
  let ngramContextLen := (ngramSize : Int) - 1
  if ngramContextLen ≤ 0 then .error "N-gram embedding requires context length >= 1."
  else .ok ⟨ngramContextLen.toNat, eosTokenId⟩

structure InputBatch where
  numReqs : Nat
  numReqsAfterPadding : Nat
  idxMapping : List Nat

/-- The window of one request; `ngram_context_offsets` runs from
`-ngram_context_len` to `-1`. -/
def NgramModelState.contextTokens (state : NgramModelState) (row : RequestRow) :
    List (BitVec 32) :=
  (List.range state.ngramContextLen).map fun j : Nat =>
    let tokenIndex := row.numComputedTokens + ((j : Int) - state.ngramContextLen)
    if 0 ≤ tokenIndex then row.allTokenIds (max tokenIndex 0).toNat
    else state.ngramEosTokenId

/-- `_prepare_ngram_context`: the rows of the requests over a view filled with
EOS. -/
def NgramModelState.prepareNgramContext (state : NgramModelState) (batch : InputBatch)
    (reqStates : Nat → RequestRow) : List (List (BitVec 32)) :=
  let context := List.replicate batch.numReqsAfterPadding
    (List.replicate state.ngramContextLen state.ngramEosTokenId)
  if batch.numReqs = 0 then context
  else
    ((batch.idxMapping.take batch.numReqs).map fun idx =>
      state.contextTokens (reqStates idx)) ++ context.drop batch.numReqs

/-- The context as the lookup receives it, in `int64`. -/
def widen (context : List (List (BitVec 32))) : List (List (BitVec 64)) :=
  context.map (·.map (BitVec.signExtend 64))

/-! ## The definition over the whole sequence -/

/-- The token `sh` places before `t`, or EOS when the segment or the sequence
starts in between. -/
def shiftedToken (seq : List (BitVec 32)) (eos : BitVec 32) (t sh : Nat) : BitVec 32 :=
  if sh ≤ t ∧ ∀ i ∈ List.range' (t - sh) sh, seq.getD i 0 ≠ eos then seq.getD (t - sh) 0
  else eos

/-- The row ids of position `t`. -/
def sequenceIds (layer : Layer) (seq : List (BitVec 32)) (eos : BitVec 32) (t : Nat) :
    List (BitVec 64) :=
  let shifted := fun sh => (shiftedToken seq eos t sh).signExtend 64
  hashLoopNp layer shifted (layer.ngramSize - 1) 2
    (shifted 0 * layer.multipliers.getD 0 0)

/-! ## What a history leaves in the row -/

/-- The row holds the accepted tokens. -/
theorem History.allTokenIds_eq {ops : RowUpdates} (hops : ops.Lawful)
    {seq : List (BitVec 32)} {row : RequestRow} (h : History ops seq row) {i : Nat}
    (hi : i < row.totalLen) : i < seq.length ∧ row.allTokenIds i = seq.getD i 0 := by
  induction h with
  | add row n c =>
      rw [hops.add_totalLen] at hi
      have hseq : i < seq.length := by
        rw [List.length_take] at hi
        omega
      refine ⟨hseq, ?_⟩
      rw [hops.add_tokens row (seq.take n) c i hi, List.getD_eq_getElem?_getD,
        List.getElem?_eq_getElem hi, List.getElem_take, List.getD_eq_getElem?_getD,
        List.getElem?_eq_getElem hseq]
  | @step row accepted q r hrow hprefix ih =>
      rw [hops.update_totalLen] at hi
      by_cases hold : i < row.totalLen
      · obtain ⟨hseq, hids⟩ := ih hold
        exact ⟨hseq, (hops.update_kept row accepted q r i hold).trans hids⟩
      · obtain ⟨j, rfl⟩ := Nat.exists_eq_add_of_le (Nat.le_of_not_lt hold)
        have hlt : j < accepted.length := by omega
        have hle := hprefix.length_le
        rw [List.length_drop] at hle
        have hseq : row.totalLen + j < seq.length := by omega
        refine ⟨hseq, ?_⟩
        rw [hops.update_appended row accepted q r j hlt, List.getD_eq_getElem?_getD,
          List.getElem?_eq_getElem hlt, hprefix.getElem hlt, List.getElem_drop,
          List.getD_eq_getElem?_getD, List.getElem?_eq_getElem hseq]
  | rollback c _ ih => exact ih hi

/-! ## The window of a decode -/

/-- The request stands before position `t` and its tokens up to there are accepted. -/
structure DecodesAt (ops : RowUpdates) (seq : List (BitVec 32)) (t : Nat)
    (row : RequestRow) : Prop where
  history : History ops seq row
  computed : row.numComputedTokens = t
  accepted : t ≤ row.totalLen

variable {state : NgramModelState} {ops : RowUpdates} {seq : List (BitVec 32)} {t : Nat}
  {row : RequestRow}

theorem contextTokens_length : (state.contextTokens row).length = state.ngramContextLen := by
  simp [NgramModelState.contextTokens]

theorem contextTokens_getElem (hops : ops.Lawful) (h : DecodesAt ops seq t row)
    {j : Nat} (hj : j < state.ngramContextLen) :
    (state.contextTokens row)[j]? =
      some (if state.ngramContextLen ≤ t + j then seq.getD (t + j - state.ngramContextLen) 0
        else state.ngramEosTokenId) := by
  unfold NgramModelState.contextTokens
  rw [List.getElem?_map, List.getElem?_range hj, Option.map_some, h.computed]
  by_cases hle : state.ngramContextLen ≤ t + j
  · have hidx : (max ((t : Int) + ((j : Int) - state.ngramContextLen)) 0).toNat =
        t + j - state.ngramContextLen := by omega
    have hlt : t + j - state.ngramContextLen < row.totalLen := by
      have := h.accepted
      omega
    rw [if_pos hle, if_pos (by omega), hidx, (h.history.allTokenIds_eq hops hlt).2]
  · rw [if_neg hle, if_neg (by omega)]

/-- The row that the lookup hashes: the window and the current token. -/
def windowRow (state : NgramModelState) (row : RequestRow) (token : BitVec 32) :
    List (BitVec 64) :=
  (state.contextTokens row).map (BitVec.signExtend 64) ++ [token.signExtend 64]

/-- A column of the window, `back` places before the current token. -/
theorem windowRow_getD (state : NgramModelState) (hops : ops.Lawful)
    (h : DecodesAt ops seq t row) {back : Nat} (hback : back ≤ state.ngramContextLen) :
    (windowRow state row (seq.getD t 0)).getD (state.ngramContextLen - back) 0 =
      (if back ≤ t then seq.getD (t - back) 0 else state.ngramEosTokenId).signExtend 64 := by
  have hlen : ((state.contextTokens row).map (BitVec.signExtend 64)).length =
      state.ngramContextLen := by
    rw [List.length_map, contextTokens_length]
  unfold windowRow
  rw [List.getD_eq_getElem?_getD]
  by_cases hzero : back = 0
  · rw [hzero, Nat.sub_zero, List.getElem?_append_right (by omega), hlen, Nat.sub_self]
    rfl
  · have hlt : state.ngramContextLen - back < state.ngramContextLen := by omega
    have hsub : t + (state.ngramContextLen - back) - state.ngramContextLen = t - back := by
      omega
    have hiff : state.ngramContextLen ≤ t + (state.ngramContextLen - back) ↔ back ≤ t := by
      omega
    rw [List.getElem?_append_left (by omega), List.getElem?_map,
      contextTokens_getElem hops h hlt, hsub]
    simp only [hiff]
    rfl

/-! ## Cutting at the last EOS -/

/-- The last EOS lies before column `k` when no column from `k` on is EOS. -/
theorem findLastEos_lt (row : List Int) (eos : Int) (a k : Nat) :
    findLastEos row eos a < k ↔ ∀ j, k ≤ j → j < a → row.getD j 0 ≠ eos := by
  induction a with
  | zero =>
      have hneg : findLastEos row eos 0 < (k : Int) := by
        show (-1 : Int) < k
        omega
      exact iff_of_true hneg fun j _ hj => absurd hj (Nat.not_lt_zero j)
  | succ a ih =>
      unfold findLastEos
      by_cases heq : row.getD a 0 = eos
      · rw [if_pos heq]
        constructor
        · intro hlt j hk hj
          omega
        · intro hall
          by_contra hge
          exact hall a (by omega) (Nat.lt_succ_self a) heq
      · rw [if_neg heq, ih]
        constructor
        · intro hall j hk hj
          rcases Nat.lt_succ_iff_lt_or_eq.mp hj with hlt | rfl
          · exact hall j hk hlt
          · exact heq
        · exact fun hall j hk hj => hall j hk (Nat.lt_succ_of_lt hj)

theorem signExtend_inj {x y : BitVec 32} (h : x.signExtend 64 = y.signExtend 64) :
    x = y := by
  have htoInt := congrArg BitVec.toInt h
  rw [BitVec.toInt_signExtend_of_le (by decide),
    BitVec.toInt_signExtend_of_le (by decide)] at htoInt
  exact BitVec.eq_of_toInt_eq htoInt

/-- No column of the last `sh` of the window is EOS exactly when the sequence reaches
back that far without an EOS. -/
theorem windowRow_clear (state : NgramModelState) (hops : ops.Lawful)
    (h : DecodesAt ops seq t row) {sh : Nat} (hpos : 0 < sh) (hsh : sh ≤ state.ngramContextLen) :
    (∀ j, state.ngramContextLen - sh ≤ j → j < state.ngramContextLen →
      (windowRow state row (seq.getD t 0)).getD j 0 ≠
        state.ngramEosTokenId.signExtend 64) ↔
    sh ≤ t ∧ ∀ i ∈ List.range' (t - sh) sh, seq.getD i 0 ≠ state.ngramEosTokenId := by
  constructor
  · intro hclear
    have hreach : ∀ back, 0 < back → back ≤ sh →
        back ≤ t ∧ seq.getD (t - back) 0 ≠ state.ngramEosTokenId := by
      intro back hback hle
      have hne := hclear (state.ngramContextLen - back) (by omega) (by omega)
      rw [windowRow_getD state hops h (by omega)] at hne
      by_cases ht : back ≤ t
      · rw [if_pos ht] at hne
        exact ⟨ht, fun heq => hne (congrArg _ heq)⟩
      · rw [if_neg ht] at hne
        exact absurd rfl hne
    have ht := (hreach sh hpos (Nat.le_refl sh)).1
    refine ⟨ht, fun i hi => ?_⟩
    rw [List.mem_range'_1] at hi
    have hi' := (hreach (t - i) (by omega) (by omega)).2
    rwa [Nat.sub_sub_self (by omega)] at hi'
  · rintro ⟨ht, hclear⟩ j hge hlt heq
    have hj : state.ngramContextLen - (state.ngramContextLen - j) = j := by omega
    rw [← hj, windowRow_getD state hops h (by omega), if_pos (by omega)] at heq
    refine hclear (t - (state.ngramContextLen - j)) ?_ (signExtend_inj heq)
    rw [List.mem_range'_1]
    omega

/-- The window loses nothing: every shift of the lookup is the shift over the whole
sequence. -/
theorem shiftedNp_window (state : NgramModelState) (hops : ops.Lawful)
    (h : DecodesAt ops seq t row) {sh : Nat} (hsh : sh ≤ state.ngramContextLen) :
    shiftedNp (windowRow state row (seq.getD t 0))
        (state.ngramEosTokenId.signExtend 64) sh =
      (shiftedToken seq state.ngramEosTokenId t sh).signExtend 64 := by
  have hlen : (windowRow state row (seq.getD t 0)).length - 1 = state.ngramContextLen := by
    simp [windowRow, contextTokens_length]
  have hget := windowRow_getD state hops h hsh
  unfold shiftedNp shiftedToken
  dsimp only
  rw [hlen]
  by_cases hzero : sh = 0
  · subst hzero
    rw [Nat.sub_zero, if_pos (Nat.zero_le t)] at hget
    rw [if_pos rfl, if_pos ⟨Nat.zero_le t, fun i hi => by simp at hi⟩]
    exact hget
  · have hclear := windowRow_clear state hops h (Nat.pos_of_ne_zero hzero) hsh
    have hlast := findLastEos_lt
      ((windowRow state row (seq.getD t 0)).map BitVec.toInt)
      (state.ngramEosTokenId.signExtend 64).toInt state.ngramContextLen
      (state.ngramContextLen - sh)
    have heos := findLastEos_eq_lastEosNp (windowRow state row (seq.getD t 0))
      (state.ngramEosTokenId.signExtend 64)
    rw [hlen] at heos
    rw [heos] at hlast
    have htoInt : (∀ j, state.ngramContextLen - sh ≤ j → j < state.ngramContextLen →
        ((windowRow state row (seq.getD t 0)).map BitVec.toInt).getD j 0 ≠
          (state.ngramEosTokenId.signExtend 64).toInt) ↔
        ∀ j, state.ngramContextLen - sh ≤ j → j < state.ngramContextLen →
          (windowRow state row (seq.getD t 0)).getD j 0 ≠
            state.ngramEosTokenId.signExtend 64 := by
      simp only [getD_map_toInt, ne_eq, BitVec.toInt_inj]
    have hvalid : (sh : Int) ≤ state.ngramContextLen - lastEosNp
        (windowRow state row (seq.getD t 0)) (state.ngramEosTokenId.signExtend 64) - 1 ↔
        sh ≤ t ∧ ∀ i ∈ List.range' (t - sh) sh,
          seq.getD i 0 ≠ state.ngramEosTokenId := by
      rw [← hclear, ← htoInt, ← hlast]
      omega
    rw [if_neg hzero, if_pos hsh]
    by_cases hfree : sh ≤ t ∧ ∀ i ∈ List.range' (t - sh) sh,
        seq.getD i 0 ≠ state.ngramEosTokenId
    · have hyes := hvalid.mpr hfree
      rw [if_pos hfree, if_pos (by
        rw [Bool.and_eq_true, decide_eq_true_eq, decide_eq_true_eq]
        exact ⟨hsh, hyes⟩), hget, if_pos hfree.1]
    · have hno := mt hvalid.mp hfree
      rw [if_neg hfree, if_neg (by
        rw [Bool.and_eq_true, decide_eq_true_eq, decide_eq_true_eq]
        exact fun hboth => hno hboth.2)]

/-! ## The looked-up rows -/

variable {layer : Layer}

/-- The hash loop reads the shifts below `n - 1 + rounds`. -/
theorem hashLoopNp_congr {shifted shifted' : Nat → BitVec 64} (rounds n : Nat)
    (mixed : BitVec 64)
    (h : ∀ sh, n - 1 ≤ sh → sh < n - 1 + rounds → shifted sh = shifted' sh) :
    hashLoopNp layer shifted rounds n mixed = hashLoopNp layer shifted' rounds n mixed := by
  induction rounds generalizing n mixed with
  | zero => rfl
  | succ rounds ih =>
      have hfirst := h (n - 1) (Nat.le_refl _) (by omega)
      simp only [hashLoopNp, hfirst]
      rw [ih (n + 1) _ fun sh hge hlt => h sh (by omega) (by omega)]

theorem init_ok {eos : BitVec 32} (h : NgramModelState.init layer.ngramSize eos = .ok state) :
    state.ngramContextLen = layer.ngramSize - 1 ∧ state.ngramEosTokenId = eos := by
  have htwo := layer.two_le
  unfold NgramModelState.init at h
  dsimp only at h
  rw [if_neg (by omega)] at h
  cases h
  constructor
  · show ((layer.ngramSize : Int) - 1).toNat = _
    omega
  · rfl

/-- A window hashes to the row ids of its position. -/
theorem ngramIdsNp_window (hlen : state.ngramContextLen = layer.ngramSize - 1)
    (heos : layer.eosTokenId = state.ngramEosTokenId.signExtend 64)
    (hops : ops.Lawful) (h : DecodesAt ops seq t row) :
    ngramIdsNp layer (windowRow state row (seq.getD t 0)) =
      sequenceIds layer seq state.ngramEosTokenId t := by
  have htwo := layer.two_le
  have hshifted : ∀ sh, sh ≤ state.ngramContextLen →
      shiftedNp (windowRow state row (seq.getD t 0)) layer.eosTokenId sh =
        (shiftedToken seq state.ngramEosTokenId t sh).signExtend 64 := by
    intro sh hsh
    rw [heos]
    exact shiftedNp_window state hops h hsh
  unfold ngramIdsNp sequenceIds
  dsimp only
  rw [hshifted 0 (Nat.zero_le _)]
  exact hashLoopNp_congr _ _ _ fun sh _ hlt => hshifted sh (by omega)

theorem prepareNgramContext_getElem (state : NgramModelState) {batch : InputBatch}
    (reqStates : Nat → RequestRow)
    {i idx : Nat} (hi : i < batch.numReqs) (hidx : batch.idxMapping[i]? = some idx) :
    (state.prepareNgramContext batch reqStates)[i]? =
      some (state.contextTokens (reqStates idx)) := by
  have hlt : i < batch.idxMapping.length := (List.getElem?_eq_some_iff.mp hidx).1
  unfold NgramModelState.prepareNgramContext
  dsimp only
  rw [if_neg (by omega), List.getElem?_append_left (by simp; omega), List.getElem?_map,
    List.getElem?_take_of_lt hi, hidx]
  rfl

/-- The lookup of a batch hashes the window of its request `i`. -/
theorem fusedDecodeLookup_ids {Cell : Type} {quant : Option Quant} {p : Pinned Cell}
    {x : Batch} {result : Result Cell} {contexts : List (List (BitVec 64))}
    {i : Nat} {context : List (BitVec 64)} {token : BitVec 32}
    (hcontexts : x.ngramContext = some contexts) (hcontext : contexts[i]? = some context)
    (htoken : x.inputIds[i]? = some token) (hi : i < x.numReqs)
    (h : fusedDecodeLookup layer quant p x = some result) :
    result.ngramIds[i]? = some (ngramIdsNp layer (context ++ [token.signExtend 64])) := by
  unfold fusedDecodeLookup at h
  rw [hcontexts] at h
  cases quant with
  | none => cases h
  | some quant =>
      dsimp only at h
      split at h
      · cases h
      · split at h
        · next hone =>
            have hzero : i = 0 := by omega
            subst hzero
            split at h
            · cases h
            · cases h
              have hc : contexts.getD 0 [] = context := by
                rw [List.getD_eq_getElem?_getD, hcontext]
                rfl
              have ht : x.inputIds.getD 0 0 = token := by
                rw [List.getD_eq_getElem?_getD, htoken]
                rfl
              show [_][0]? = _
              rw [hc, ht, outIdsPy_eq]
              rfl
        · split at h
          · cases h
          · split at h
            · cases h
            · cases h
              show ((rowsNp x contexts).map (ngramIdsNp layer))[i]? = _
              have hrow : (rowsNp x contexts)[i]? =
                  some (context ++ [token.signExtend 64]) := by
                unfold rowsNp
                rw [List.getElem?_zipWith, List.getElem?_take_of_lt hi,
                  List.getElem?_take_of_lt hi, hcontext, htoken]
              rw [List.getElem?_map, hrow]
              rfl

/-- What the docstring calls a plain decode batch: one token for each of at most 64
requests. -/
structure PlainDecode (x : Batch) : Prop where
  oneToken : x.queryStartLoc = (List.range (x.numReqs + 1)).map Int.ofNat
  few : x.numReqs ≤ 64

/-- The lookup does not decline a plain decode batch with an int4 sidecar and a
context; it gathers the rows of the ids it has hashed. -/
theorem fusedDecodeLookup_plain {Cell : Type} {quant : Quant} {p : Pinned Cell}
    {x : Batch} {contexts : List (List (BitVec 64))} (hint4 : quant.isInt4 = true)
    (hcontexts : x.ngramContext = some contexts) (hx : PlainDecode x)
    (hpos : 0 < x.numReqs) :
    ∃ result, fusedDecodeLookup layer (some quant) p x = some result ∧
      result.f32 = result.ngramIds.map fun ids => ids.flatMap quant.row := by
  have hnot : ¬ quant.isInt4 = false := by
    rw [hint4]
    exact Bool.noConfusion
  unfold fusedDecodeLookup
  rw [hcontexts]
  dsimp only
  rw [if_neg hnot]
  by_cases hone : x.numReqs = 1
  · have hsecond : x.queryStartLoc.getD 1 0 = 1 := by
      rw [hx.oneToken, hone]
      rfl
    rw [if_pos hone, if_neg (not_not_intro hsecond)]
    exact ⟨_, rfl, rfl⟩
  · have hlast : x.queryStartLoc.getLastD 0 = x.numReqs := by
      rw [hx.oneToken, List.range_succ, List.map_append, List.map_singleton,
        List.getLastD_concat]
      rfl
    have hshape : ¬ (x.numReqs ≤ 0 ∨ 64 < x.numReqs ∨
        x.queryStartLoc.getLastD 0 ≠ x.numReqs) := by
      rw [hlast]
      have hfew := hx.few
      omega
    have harange : ¬ isArange x = false := by
      rw [isArange, ← hx.oneToken, beq_self_eq_true]
      exact Bool.noConfusion
    rw [if_neg hone, if_neg hshape, if_neg harange]
    exact ⟨_, rfl, rfl⟩

/-- The window of a decode at `t` stands for the whole sequence: both lookups shift as
over the sequence, a plain decode batch is looked up, and the looked-up row ids are
those of position `t`. -/
theorem decodeLookup_sequence {eos : BitVec 32} (hops : ops.Lawful)
    (hstate : NgramModelState.init layer.ngramSize eos = .ok state)
    (heos : layer.eosTokenId = eos.signExtend 64)
    {batch : InputBatch} {reqStates : Nat → RequestRow} {i idx : Nat} {token : BitVec 32}
    (hi : i < batch.numReqs) (hidx : batch.idxMapping[i]? = some idx)
    (hdecode : DecodesAt ops seq t (reqStates idx)) (htoken : seq[t]? = some token) :
    ∃ context, (state.prepareNgramContext batch reqStates)[i]? = some context ∧
      (∀ sh < layer.ngramSize,
        shiftedPy ((context.map (BitVec.signExtend 64)).map BitVec.toInt ++ [token.toInt])
            layer.eosTokenId.toInt sh = (shiftedToken seq eos t sh).toInt ∧
          shiftedNp (context.map (BitVec.signExtend 64) ++ [token.signExtend 64])
            layer.eosTokenId sh = (shiftedToken seq eos t sh).signExtend 64) ∧
      ∀ (Cell : Type) (p : Pinned Cell) (x : Batch),
        x.ngramContext = some (widen (state.prepareNgramContext batch reqStates)) →
        x.inputIds[i]? = some token → i < x.numReqs →
        (∀ (quant : Option Quant) (result : Result Cell),
          fusedDecodeLookup layer quant p x = some result →
          result.ngramIds[i]? = some (sequenceIds layer seq eos t)) ∧
        ∀ quant : Quant, quant.isInt4 = true → PlainDecode x →
          ∃ result, fusedDecodeLookup layer (some quant) p x = some result ∧
            result.ngramIds[i]? = some (sequenceIds layer seq eos t) ∧
            result.f32[i]? = some ((sequenceIds layer seq eos t).flatMap quant.row) := by
  obtain ⟨hlen, rfl⟩ := init_ok hstate
  have htwo := layer.two_le
  have hcontext := prepareNgramContext_getElem state reqStates hi hidx
  have htok : seq.getD t 0 = token := by
    rw [List.getD_eq_getElem?_getD, htoken]
    rfl
  refine ⟨_, hcontext, fun sh hsh => ?_, fun Cell p x hx hin hxi => ?_⟩
  · have hnp := shiftedNp_window state hops hdecode
      (show sh ≤ state.ngramContextLen by omega)
    rw [← heos, htok] at hnp
    have hsext : token.toInt = (token.signExtend 64).toInt :=
      (BitVec.toInt_signExtend_of_le (by decide)).symm
    refine ⟨?_, hnp⟩
    have hpy := shiftedPy_eq (windowRow state (reqStates idx) token) layer.eosTokenId sh
    rw [hnp, BitVec.toInt_signExtend_of_le (by decide)] at hpy
    rw [← hpy, windowRow, List.map_append, List.map_singleton, hsext]
  · have hwide : (widen (state.prepareNgramContext batch reqStates))[i]? =
        some ((state.contextTokens (reqStates idx)).map (BitVec.signExtend 64)) := by
      rw [widen, List.getElem?_map, hcontext]
      rfl
    have hids := ngramIdsNp_window hlen heos hops hdecode
    rw [htok] at hids
    have hlooked : ∀ (quant : Option Quant) (result : Result Cell),
        fusedDecodeLookup layer quant p x = some result →
        result.ngramIds[i]? = some (sequenceIds layer seq state.ngramEosTokenId t) := by
      intro quant result hrun
      rw [fusedDecodeLookup_ids hx hwide hin hxi hrun, ← hids]
      rfl
    refine ⟨hlooked, fun quant hint4 hplain => ?_⟩
    obtain ⟨result, hrun, hf32⟩ := fusedDecodeLookup_plain hint4 hx hplain (by omega)
    have hrow := hlooked _ result hrun
    refine ⟨result, hrun, hrow, ?_⟩
    rw [hf32, List.getElem?_map, hrow]
    rfl

/-! A request whose prefill of two tokens and first draft were verified in one step,
with the last draft rejected. -/

/-- Write `tokens` into a row from position `start` on. -/
def writeTokens (ids : Nat → BitVec 32) (start : Nat) (tokens : List (BitVec 32)) :
    Nat → BitVec 32 :=
  fun i => if start ≤ i then tokens.getD (i - start) (ids i) else ids i

def sampleUpdates : RowUpdates where
  addRequest := fun row prefillTokenIds numComputedTokens =>
    { numComputedTokens := numComputedTokens
      totalLen := prefillTokenIds.length
      allTokenIds := writeTokens row.allTokenIds 0 prefillTokenIds }
  postUpdate := fun row accepted queryLen numRejected =>
    { numComputedTokens := row.numComputedTokens + queryLen - numRejected
      totalLen := row.totalLen + accepted.length
      allTokenIds := writeTokens row.allTokenIds row.totalLen accepted }

theorem writeTokens_at (ids : Nat → BitVec 32) (start : Nat) {i : Nat}
    {tokens : List (BitVec 32)} (hi : i < tokens.length) :
    writeTokens ids start tokens (start + i) = tokens.getD i 0 := by
  unfold writeTokens
  rw [if_pos (Nat.le_add_right start i), Nat.add_sub_cancel_left,
    List.getD_eq_getElem?_getD, List.getD_eq_getElem?_getD, List.getElem?_eq_getElem hi]
  rfl

theorem sampleUpdates_lawful : sampleUpdates.Lawful where
  add_totalLen := fun _ _ _ => rfl
  add_tokens := by
    intro row prefillTokenIds n i hi
    have hat := writeTokens_at row.allTokenIds 0 hi
    rwa [Nat.zero_add] at hat
  update_totalLen := fun _ _ _ _ => rfl
  update_kept := fun _ _ _ _ _ hi => if_neg (Nat.not_le_of_lt hi)
  update_appended := fun row _ _ _ _ hi => writeTokens_at row.allTokenIds row.totalLen hi

def sampleSequence : List (BitVec 32) := [7, 2, 9, 4]

def sampleRow : RequestRow :=
  sampleUpdates.postUpdate
    (sampleUpdates.addRequest ⟨0, 0, fun _ => 5⟩ (sampleSequence.take 2) 0) [9, 4] 4 1

def sampleReqStates : Nat → RequestRow := fun _ => sampleRow

theorem sampleReqStates_decodesAt :
    DecodesAt sampleUpdates sampleSequence 3 (sampleReqStates 6) where
  history := History.step 4 1 (History.add _ 2 0) ⟨[], rfl⟩
  computed := rfl
  accepted := by decide

/-- The batch of that request alone, with a padding row. -/
def sampleInputs : InputBatch := ⟨1, 2, [6]⟩

def sampleContext : List (List (BitVec 32)) :=
  (⟨2, 2⟩ : NgramModelState).prepareNgramContext sampleInputs sampleReqStates

def sampleDecode : Batch where
  inputIds := [4, 0]
  queryStartLoc := [0, 1]
  ngramContext := some (widen sampleContext)

theorem decodeLookup_sequence_single :
    ∃ context, sampleContext[0]? = some context ∧
      (∀ sh < sampleLayer.ngramSize,
        shiftedPy ((context.map (BitVec.signExtend 64)).map BitVec.toInt ++
            [(4 : BitVec 32).toInt]) sampleLayer.eosTokenId.toInt sh =
            (shiftedToken sampleSequence 2 3 sh).toInt ∧
          shiftedNp (context.map (BitVec.signExtend 64) ++ [(4 : BitVec 32).signExtend 64])
            sampleLayer.eosTokenId sh = (shiftedToken sampleSequence 2 3 sh).signExtend 64) ∧
      ∃ result, fusedDecodeLookup sampleLayer (some ⟨true, fun id => [id.truncate 32]⟩)
          samplePinned sampleDecode = some result ∧
        result.ngramIds[0]? = some (sequenceIds sampleLayer sampleSequence 2 3) ∧
        result.f32[0]? = some ((sequenceIds sampleLayer sampleSequence 2 3).flatMap
          fun id => [id.truncate 32]) := by
  have hstate : NgramModelState.init sampleLayer.ngramSize 2 = .ok ⟨2, 2⟩ := rfl
  have hidx : sampleInputs.idxMapping[0]? = some 6 := rfl
  have htoken : sampleSequence[3]? = some 4 := rfl
  obtain ⟨context, hcontext, hshifts, hlookup⟩ :=
    decodeLookup_sequence sampleUpdates_lawful hstate rfl Nat.zero_lt_one hidx
      sampleReqStates_decodesAt htoken
  have hplain : PlainDecode sampleDecode := ⟨rfl, by decide⟩
  obtain ⟨-, hreturns⟩ := hlookup Unit samplePinned sampleDecode rfl rfl (by decide)
  exact ⟨context, hcontext, hshifts, hreturns _ rfl hplain⟩

end FlashNext.Ports.DecodeLookup
