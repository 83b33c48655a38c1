import FlashNext.Ports.PaddedDraftsPropose
import Mathlib.Algebra.Ring.Int.Defs
import Mathlib.Data.List.Pairwise

/-!
# The padded drafter drafts what the compacted one drafts

The two KV caches differ where a rejected token has left its entry, and in one more place: behind
a chunk of a prompt the padded path puts the last known token of the request, the compacted one
the token that follows the chunk, so that the entries of the last token of the chunk differ.  The
drafts agree where the entries do that a request reads, and every round leaves the caches in
agreement on the accepted tokens but for such a last one.
-/

namespace FlashNext.Ports.PaddedDrafts

open FlashNext.Verified.Ragged
open FlashNext.Verified.Varlen

variable {H V O M : Type} {env : Drafter H V O M} {round : Round H M}

/-! ## Where the caches agree -/

/-- Both paths put the same token behind the request. -/
def SameNext (env : Drafter H V O M) (round : Round H M) (r : DraftRequest H M) : Prop :=
  validSampledTokenIds env round.useSpecDecode r ≠ [] ∨
    r.getTokenId (r.numTokensNoSpec - 1) =
      r.getTokenId (r.numComputedTokens + r.numScheduledTokens)

/-- The request reads entries on which the caches agree. -/
def Agrees (env : Drafter H V O M) (round : Round H M) (clean : Nat → Prop)
    (r : DraftRequest H M) : Prop :=
  SameNext env round r ∧ ∀ p < r.numComputedTokens, clean (env.slot r.blockTable p)

/-- The slots on which the caches agree behind a round of drafting.  The last accepted token is
among them where both paths put the same token behind the request, and the later passes of a
request where its drafts agree. -/
inductive CleanAfter (env : Drafter H V O M) (round : Round H M) (clean : Nat → Prop) :
    Nat → Prop where
  | kept {s : Nat} : clean s → s ∉ round.batch.flatMap (ownedSlots env) →
      CleanAfter env round clean s
  | accepted {r : DraftRequest H M} {j : Nat} : r ∈ round.batch →
      j < numAccepted env round.useSpecDecode r →
      j + 1 < numAccepted env round.useSpecDecode r ∨ SameNext env round r →
      CleanAfter env round clean (env.slot r.blockTable (r.numComputedTokens + j))
  | drafted {r : DraftRequest H M} {t : Nat} : r ∈ round.batch → Agrees env round clean r →
      t + 1 < env.numSpeculativeTokens →
      CleanAfter env round clean (env.slot r.blockTable
        (r.numComputedTokens + (numAccepted env round.useSpecDecode r + t)))

/-- The slots on which the caches agree behind a round. -/
def Round.cleanAfter (env : Drafter H V O M) (round : Round H M) (clean : Nat → Prop) (s : Nat) :
    Prop :=
  if inputFitsInDrafter env round.batch then CleanAfter env round clean s else clean s

theorem nextToken_eq (hlawful : env.Lawful) (h : round.Ok env) {r : DraftRequest H M}
    (hr : r ∈ round.batch) (hsame : SameNext env round r) :
    nextToken env false round.useSpecDecode r = nextToken env true round.useSpecDecode r := by
  have hvalid : r.discard = false →
      validSampledTokenIds env round.useSpecDecode r = env.parseOutput r.sampledTokenIds := by
    intro hdiscard
    rw [validSampledTokenIds, hdiscard]
    cases hspec : round.useSpecDecode with
    | true => rfl
    | false => exact (h.plain hspec r hr).2.symm
  unfold SameNext at hsame
  show (nextTokenIdPadded env r).1 = nextTokenIdCpu env round.useSpecDecode r
  rw [nextTokenIdPadded, hlawful.nextToken, nextTokenIdCpu]
  cases hdiscard : r.discard with
  | true =>
      have hnil : validSampledTokenIds env round.useSpecDecode r = [] := by
        rw [validSampledTokenIds, hdiscard]
        rfl
      rw [hnil]
      exact hsame.resolve_left fun hne => hne hnil
  | false =>
      rw [hvalid hdiscard] at hsame ⊢
      show ((env.parseOutput r.sampledTokenIds).getLast?).getD _ = _
      cases hlast : (env.parseOutput r.sampledTokenIds).getLast? with
      | none =>
          exact hsame.resolve_left fun hne => hne (List.getLast?_eq_none_iff.mp hlast)
      | some token => rfl

/-- The rows of both paths are the same but for the next token. -/
theorem acceptedRows_eq (env : Drafter H V O M) {useSpecDecode : Bool}
    {next next' : DraftRequest H M → Int} {r : DraftRequest H M} {j : Nat}
    (hsame : j + 1 < numAccepted env useSpecDecode r ∨ next r = next' r) :
    (acceptedRows env useSpecDecode next r)[j]? =
      (acceptedRows env useSpecDecode next' r)[j]? := by
  rw [acceptedRows, acceptedRows, List.getElem?_mapIdx, List.getElem?_mapIdx]
  congr 1
  funext row
  rw [acceptedRow, acceptedRow]
  congr 1
  split
  · next hlast => exact hsame.resolve_left fun hlt => by omega
  · rfl

theorem lastRow_eq [Inhabited H] {useSpecDecode : Bool} {next next' : DraftRequest H M → Int}
    {r : DraftRequest H M} (hsame : next r = next' r) :
    lastRow env useSpecDecode next r = lastRow env useSpecDecode next' r := by
  rw [lastRow, lastRow, hsame]

/-! ## Slots lie apart -/

theorem Round.Ok.slot_inj (h : round.Ok env) {r q : DraftRequest H M} (hr : r ∈ round.batch)
    (hq : q ∈ round.batch) {j k : Nat} (hj : j < r.numScheduledTokens + env.numSpeculativeTokens)
    (hk : k < q.numScheduledTokens + env.numSpeculativeTokens)
    (heq : env.slot r.blockTable (r.numComputedTokens + j) =
      env.slot q.blockTable (q.numComputedTokens + k)) : r = q ∧ j = k := by
  classical
  obtain ⟨hown, hapart⟩ := List.nodup_flatMap.mp h.owned
  by_cases hsame : r = q
  · subst hsame
    have hinj := List.inj_on_of_nodup_map (hown r hr)
    exact ⟨rfl, hinj (List.mem_range.mpr hj) (List.mem_range.mpr hk) heq⟩
  · have : Std.Symm (Function.onFun List.Disjoint (ownedSlots env)) :=
      ⟨fun _ _ hab _ hs hs' => hab hs' hs⟩
    have hdisjoint := List.Pairwise.forall hapart hr hq hsame
    exact absurd (heq ▸ mem_ownedSlots hk) (List.disjoint_left.mp hdisjoint (mem_ownedSlots hj))

/-! ## The cache behind a later pass -/

section Later

variable {t : Nat} {ids : DraftRequest H M → Int} {hidden : DraftRequest H M → H}

/-- The slot that a request writes in step `t` is one of its own. -/
theorem draft_index_lt (ht : t + 1 < env.numSpeculativeTokens) (r : DraftRequest H M) :
    numAccepted env round.useSpecDecode r + t <
      r.numScheduledTokens + env.numSpeculativeTokens := by
  have hle := numAccepted_le env round.useSpecDecode r
  omega

theorem draftCache_of_ne {s : Nat} (hs : ∀ r ∈ round.batch, env.slot r.blockTable
    (r.numComputedTokens + numAccepted env round.useSpecDecode r + t) ≠ s) (cache : Nat → V) :
    draftCache env round t ids hidden cache s = cache s := by
  refine store_of_notMem (fun hmem => ?_) cache
  obtain ⟨r, hr, heq⟩ := List.mem_map.mp hmem
  exact hs r hr (Option.some.inj heq)

theorem draftCache_frame (ht : t + 1 < env.numSpeculativeTokens) {s : Nat}
    (hs : s ∉ round.batch.flatMap (ownedSlots env)) (cache : Nat → V) :
    draftCache env round t ids hidden cache s = cache s := by
  refine draftCache_of_ne (fun r hr heq => hs ?_) cache
  rw [← heq, Nat.add_assoc]
  exact List.mem_flatMap.mpr ⟨r, hr, mem_ownedSlots (draft_index_lt ht r)⟩

/-- Other positions of the requests are left alone. -/
theorem draftCache_other (h : round.Ok env) (ht : t + 1 < env.numSpeculativeTokens)
    {r : DraftRequest H M} (hr : r ∈ round.batch) {j : Nat}
    (hj : j < r.numScheduledTokens + env.numSpeculativeTokens)
    (hne : j ≠ numAccepted env round.useSpecDecode r + t) (cache : Nat → V) :
    draftCache env round t ids hidden cache
      (env.slot r.blockTable (r.numComputedTokens + j)) =
        cache (env.slot r.blockTable (r.numComputedTokens + j)) := by
  refine draftCache_of_ne (fun q hq heq => ?_) cache
  rw [Nat.add_assoc] at heq
  obtain ⟨rfl, hindex⟩ := h.slot_inj hq hr (draft_index_lt ht q) hj heq
  exact hne hindex.symm

theorem draftCache_own (h : round.Ok env) (ht : t + 1 < env.numSpeculativeTokens)
    {r : DraftRequest H M} (hr : r ∈ round.batch) (cache : Nat → V) :
    draftCache env round t ids hidden cache (env.slot r.blockTable
        (r.numComputedTokens + (numAccepted env round.useSpecDecode r + t))) =
      env.keyValue (draftRow env round t ids hidden r) := by
  have hsub : ((round.batch.flatMap fun r => [env.slot r.blockTable
      (r.numComputedTokens + (numAccepted env round.useSpecDecode r + t))]).Sublist
        (round.batch.flatMap (ownedSlots env))) :=
    sublist_owned fun r _ => List.singleton_sublist.mpr (mem_ownedSlots (draft_index_lt ht r))
  have hnodup : (round.batch.map fun r => some (env.slot r.blockTable
      (r.numComputedTokens + numAccepted env round.useSpecDecode r + t))).Nodup := by
    have hown := h.owned.sublist hsub
    rw [← List.map_eq_flatMap] at hown
    have hsome := List.Nodup.map (fun _ _ heq => Option.some.inj heq) hown
    rw [List.map_map] at hsome
    simp only [Nat.add_assoc]
    exact hsome
  refine store_of_mem hnodup ?_ cache
  rw [List.zip_map']
  exact List.mem_map.mpr ⟨r, hr, by rw [Nat.add_assoc]⟩

end Later

/-! ## The entries of both caches -/

/-- The caches agree behind the first pass and `t` later ones. -/
structure SameEntries (env : Drafter H V O M) (round : Round H M) (clean : Nat → Prop) (t : Nat)
    (cache cache' : Nat → V) : Prop where
  kept : ∀ s, clean s → s ∉ round.batch.flatMap (ownedSlots env) → cache s = cache' s
  accepted : ∀ r ∈ round.batch, ∀ j < numAccepted env round.useSpecDecode r,
    j + 1 < numAccepted env round.useSpecDecode r ∨ SameNext env round r →
      cache (env.slot r.blockTable (r.numComputedTokens + j)) =
        cache' (env.slot r.blockTable (r.numComputedTokens + j))
  drafted : ∀ r ∈ round.batch, Agrees env round clean r → ∀ u < t,
    cache (env.slot r.blockTable
        (r.numComputedTokens + (numAccepted env round.useSpecDecode r + u))) =
      cache' (env.slot r.blockTable
        (r.numComputedTokens + (numAccepted env round.useSpecDecode r + u)))

section Entries

variable {clean : Nat → Prop} {t : Nat} {cache cache' : Nat → V}

/-- A request that reads clean entries reads the same. -/
theorem SameEntries.context_eq (hsame : SameEntries env round clean t cache cache')
    (h : round.Ok env) {r : DraftRequest H M} (hr : r ∈ round.batch)
    (hagrees : Agrees env round clean r) {n : Nat}
    (hn : n ≤ r.numComputedTokens + numAccepted env round.useSpecDecode r + t) :
    context env cache r.blockTable n = context env cache' r.blockTable n := by
  refine List.map_congr_left fun p hp => ?_
  have hlt : p < n := List.mem_range.mp hp
  rcases Nat.lt_or_ge p r.numComputedTokens with hbefore | hbehind
  · exact hsame.kept _ (hagrees.2 p hbefore) (h.context r hr p hbefore)
  · obtain ⟨j, rfl⟩ := Nat.exists_eq_add_of_le hbehind
    rcases Nat.lt_or_ge j (numAccepted env round.useSpecDecode r) with hj | hj
    · exact hsame.accepted r hr j hj (Or.inr hagrees.1)
    · obtain ⟨u, rfl⟩ := Nat.exists_eq_add_of_le hj
      exact hsame.drafted r hr hagrees u (by omega)

/-- The first pass writes the same entries for the accepted rows. -/
theorem sameEntries_first {next next' : DraftRequest H M → Int}
    (hnext : ∀ r ∈ round.batch, SameNext env round r → next r = next' r)
    {stored stored' : Nat → V} (hclean : ∀ s, clean s → cache s = cache' s)
    (hfirst : FirstEntries env round next cache stored)
    (hfirst' : FirstEntries env round next' cache' stored') :
    SameEntries env round clean 0 stored stored' where
  kept := fun s hs hown => by rw [hfirst.frame s hown, hfirst'.frame s hown, hclean s hs]
  accepted := fun r hr j hj hsame => by
    have hrows := acceptedRows_eq env (hsame.imp_right (hnext r hr))
    have hlt : j < (acceptedRows env round.useSpecDecode next r).length := by
      rw [acceptedRows, List.length_mapIdx, List.length_take, r.length_rows]
      exact Nat.lt_min.mpr ⟨hj, Nat.lt_of_lt_of_le hj (numAccepted_le env _ r)⟩
    have hrow := List.getElem?_eq_getElem hlt
    rw [hfirst.accepted r hr j _ hrow, hfirst'.accepted r hr j _ (hrows ▸ hrow)]
  drafted := fun r _ _ u hu => absurd hu (Nat.not_lt_zero u)

/-- A later pass adds one entry for each request. -/
theorem SameEntries.step (hsame : SameEntries env round clean t cache cache') (h : round.Ok env)
    (ht : t + 1 < env.numSpeculativeTokens) {ids ids' : DraftRequest H M → Int}
    {hidden hidden' : DraftRequest H M → H}
    (hids : ∀ r ∈ round.batch, Agrees env round clean r → ids r = ids' r)
    (hhidden : ∀ r ∈ round.batch, Agrees env round clean r → hidden r = hidden' r) :
    SameEntries env round clean (t + 1) (draftCache env round t ids hidden cache)
      (draftCache env round t ids' hidden' cache') where
  kept := fun s hs hown => by
    rw [draftCache_frame ht hown, draftCache_frame ht hown, hsame.kept s hs hown]
  accepted := fun r hr j hj hnext => by
    have hle := numAccepted_le env round.useSpecDecode r
    have hother : j ≠ numAccepted env round.useSpecDecode r + t := by omega
    rw [draftCache_other h ht hr (by omega) hother, draftCache_other h ht hr (by omega) hother,
      hsame.accepted r hr j hj hnext]
  drafted := fun r hr hagrees u hu => by
    by_cases hlast : u = t
    · subst hlast
      rw [draftCache_own h ht hr, draftCache_own h ht hr, draftRow, draftRow,
        hids r hr hagrees, hhidden r hr hagrees]
    · have hle := numAccepted_le env round.useSpecDecode r
      have hlt : numAccepted env round.useSpecDecode r + u <
          r.numScheduledTokens + env.numSpeculativeTokens := by omega
      have hother : numAccepted env round.useSpecDecode r + u ≠
          numAccepted env round.useSpecDecode r + t := by omega
      rw [draftCache_other h ht hr hlt hother, draftCache_other h ht hr hlt hother,
        hsame.drafted r hr hagrees u (by omega)]

/-- Where the caches agree behind the round. -/
theorem SameEntries.cleanAfter (hsame : SameEntries env round clean t cache cache')
    (ht : env.numSpeculativeTokens ≤ t + 1) {s : Nat} (hs : CleanAfter env round clean s) :
    cache s = cache' s := by
  cases hs with
  | kept hclean hown => exact hsame.kept s hclean hown
  | accepted hr hj hnext => exact hsame.accepted _ hr _ hj hnext
  | drafted hr hagrees hu => exact hsame.drafted _ hr hagrees _ (by omega)

end Entries

/-! ## The passes of both paths -/

section Passes

variable {clean : Nat → Prop}

/-- Both paths have drafted the same for the requests that read clean entries. -/
structure SamePasses (env : Drafter H V O M) (round : Round H M) (clean : Nat → Prop) (t : Nat)
    (s s' : Passes H V M) : Prop where
  entries : SameEntries env round clean t s.cache s'.cache
  ids : ∀ r ∈ round.batch, Agrees env round clean r → s.ids r = s'.ids r
  hidden : ∀ r ∈ round.batch, Agrees env round clean r → s.hidden r = s'.hidden r
  columns : ∀ r ∈ round.batch, Agrees env round clean r →
    (s.columns.map fun column => column r) = s'.columns.map fun column => column r

theorem SamePasses.step {t : Nat} {s s' : Passes H V M}
    (hsame : SamePasses env round clean t s s') (h : round.Ok env)
    (ht : t + 1 < env.numSpeculativeTokens) :
    SamePasses env round clean (t + 1) (s.step env round t) (s'.step env round t) := by
  have hentries := hsame.entries.step h ht hsame.ids hsame.hidden
  have houtput : ∀ r ∈ round.batch, Agrees env round clean r →
      draftOutput env round t s.ids s.hidden s.cache r =
        draftOutput env round t s'.ids s'.hidden s'.cache r := by
    intro r hr hagrees
    have hread := hentries.context_eq h hr hagrees (Nat.le_refl _)
    rw [← Nat.add_assoc] at hread
    rw [draftOutput, draftOutput, hread, draftRow, draftRow, hsame.ids r hr hagrees,
      hsame.hidden r hr hagrees]
  have hids : ∀ r ∈ round.batch, Agrees env round clean r →
      (s.step env round t).ids r = (s'.step env round t).ids r := fun r hr hagrees =>
    congrArg (fun o : O × H => env.sampleDraft (t + 1) r.samplingMetadata o.1)
      (houtput r hr hagrees)
  exact
    { entries := hentries
      ids := hids
      hidden := fun r hr hagrees => congrArg Prod.snd (houtput r hr hagrees)
      columns := fun r hr hagrees => by
        show ((s.columns ++ [(s.step env round t).ids]).map fun column => column r) =
          (s'.columns ++ [(s'.step env round t).ids]).map fun column => column r
        rw [List.map_append, List.map_append, hsame.columns r hr hagrees]
        exact congrArg (_ ++ [·]) (hids r hr hagrees) }

variable [Inhabited H]

theorem samePasses (h : round.Ok env) {next next' : DraftRequest H M → Int}
    (hnext : ∀ r ∈ round.batch, SameNext env round r → next r = next' r)
    {stored stored' : Nat → V} (hentries : SameEntries env round clean 0 stored stored') {t : Nat}
    (ht : t ≤ env.numSpeculativeTokens - 1) :
    SamePasses env round clean t (passes env round next stored t)
      (passes env round next' stored' t) := by
  induction t with
  | zero =>
      have houtput : ∀ r ∈ round.batch, Agrees env round clean r →
          firstOutput env round next stored r = firstOutput env round next' stored' r := by
        intro r hr hagrees
        have hpos := h.numAccepted_pos hr
        rw [firstOutput, firstOutput, lastRow_eq (hnext r hr hagrees.1),
          hentries.context_eq h hr hagrees (by omega)]
      have hids : ∀ r ∈ round.batch, Agrees env round clean r →
          (passes env round next stored 0).ids r = (passes env round next' stored' 0).ids r :=
        fun r hr hagrees =>
          congrArg (fun o : O × H => env.sampleDraft 0 r.samplingMetadata o.1)
            (houtput r hr hagrees)
      exact
        { entries := hentries
          ids := hids
          hidden := fun r hr hagrees => congrArg Prod.snd (houtput r hr hagrees)
          columns := fun r hr hagrees => congrArg ([·]) (hids r hr hagrees) }
  | succ t ih => exact (ih (Nat.le_of_succ_le ht)).step h (by omega)

/-- One round: both paths propose, and what they leave agrees. -/
theorem proposeDraftTokenIds_agree (hlawful : env.Lawful) (h : round.Ok env)
    (hfit : inputFitsInDrafter env round.batch) (stale stale' : Nat → Int)
    {cache cache' : Nat → V} (hclean : ∀ s, clean s → cache s = cache' s) :
    ∃ drafts drafts' : DraftRequest H M → List Int, ∃ left left' : Nat → V,
      proposeDraftTokenIds env false round.useSpecDecode round.batch stale cache =
        some (round.batch.map drafts, left) ∧
      proposeDraftTokenIds env true round.useSpecDecode round.batch stale' cache' =
        some (round.batch.map drafts', left') ∧
      (∀ r ∈ round.batch, Agrees env round clean r → drafts r = drafts' r) ∧
      ∀ s, CleanAfter env round clean s → left s = left' s := by
  have hroom : ∀ r ∈ round.batch, r.numComputedTokens +
      numAccepted env round.useSpecDecode r + env.numSpeculativeTokens ≤ env.maxModelLen := by
    intro r hr
    have hmem : r.numComputedTokens + r.numScheduledTokens ∈
        (commonAttnMetadata env round.batch).seqLens := List.mem_map_of_mem hr
    have hmax : r.numComputedTokens + r.numScheduledTokens ≤
        (commonAttnMetadata env round.batch).seqLens.foldl max 0 :=
      (List.max?_eq_some_iff.mp (List.max?_cons' ..)).2 _ (List.mem_cons_of_mem 0 hmem)
    have hle := numAccepted_le env round.useSpecDecode r
    have hlimit := hlawful.limit
    unfold inputFitsInDrafter at hfit
    omega
  obtain ⟨n, tokenIndices, rejected, hcut, hpropose⟩ := h.proposeDraftTokenIds_eq hlawful false
  obtain ⟨n', tokenIndices', rejected', hcut', hpropose'⟩ :=
    h.proposeDraftTokenIds_eq hlawful true
  obtain ⟨stored, hfirst, hdrafts⟩ := propose_eq hlawful h hcut hroom
    (nextToken env false round.useSpecDecode) stale cache
  obtain ⟨stored', hfirst', hdrafts'⟩ := propose_eq hlawful h hcut' hroom
    (nextToken env true round.useSpecDecode) stale' cache'
  have hnext := fun r hr hsame => nextToken_eq hlawful h (r := r) hr hsame
  have hsame := samePasses h hnext (sameEntries_first hnext hclean hfirst hfirst')
    (Nat.le_refl _)
  refine ⟨_, _, _, _, (hpropose stale cache).trans hdrafts,
    (hpropose' stale' cache').trans hdrafts', fun r hr hagrees => ?_, fun s hs =>
      hsame.entries.cleanAfter (by omega) hs⟩
  rw [draftsOf, draftsOf, hsame.columns r hr hagrees]

end Passes

/-! ## The run -/

/-- The drafts agree for every request that reads entries on which the caches agree. -/
def AgreeOn (env : Drafter H V O M) :
    (Nat → Prop) → List (Round H M) → List (List (List Int)) → List (List (List Int)) → Prop
  | _, [], [], [] => True
  | clean, round :: rounds, drafts :: rest, drafts' :: rest' =>
      (∀ (i : Nat) (r : DraftRequest H M), round.batch[i]? = some r → Agrees env round clean r →
        drafts[i]? = drafts'[i]?) ∧
        AgreeOn env (round.cleanAfter env clean) rounds rest rest'
  | _, _, _, _ => False

/-- The padding of the drafter shows only in the drafts of requests that read an entry behind
which the paths have put different tokens. -/
theorem padded_drafts_agree [Inhabited H] (hlawful : env.Lawful) {rounds : List (Round H M)}
    (hrounds : ∀ round ∈ rounds, round.Ok env) (stale stale' : Nat → Nat → Int)
    {clean : Nat → Prop} {cache cache' : Nat → V} (hclean : ∀ s, clean s → cache s = cache' s) :
    ∃ drafts drafts', draftRounds env false stale cache rounds = some drafts ∧
      draftRounds env true stale' cache' rounds = some drafts' ∧
      AgreeOn env clean rounds drafts drafts' := by
  induction rounds generalizing cache cache' clean with
  | nil => exact ⟨[], [], rfl, rfl, trivial⟩
  | cons round rounds ih =>
      have h := hrounds round List.mem_cons_self
      have hrest := fun q hq => hrounds q (List.mem_cons_of_mem round hq)
      by_cases hfit : inputFitsInDrafter env round.batch
      · obtain ⟨drafts, drafts', left, left', hdrafts, hdrafts', hagree, hleft⟩ :=
          proposeDraftTokenIds_agree hlawful h hfit (stale rounds.length) (stale' rounds.length)
            hclean
        obtain ⟨rest, rest', hrun, hrun', hagrees⟩ := ih hrest hleft
        refine ⟨round.batch.map drafts :: rest, round.batch.map drafts' :: rest', ?_, ?_, ?_, ?_⟩
        · rw [draftRounds, draftTokens, if_pos hfit, hdrafts]
          simp only [Option.bind_eq_bind, Option.bind_some, hrun]
        · rw [draftRounds, draftTokens, if_pos hfit, hdrafts']
          simp only [Option.bind_eq_bind, Option.bind_some, hrun']
        · intro i r hi hr
          rw [List.getElem?_map, List.getElem?_map, hi, Option.map_some, Option.map_some,
            hagree r (List.mem_of_getElem? hi) hr]
        · rw [show round.cleanAfter env clean = CleanAfter env round clean from
            funext fun s => if_pos hfit]
          exact hagrees
      · obtain ⟨rest, rest', hrun, hrun', hagrees⟩ := ih hrest hclean
        let zeros := round.batch.map fun _ => List.replicate env.numSpeculativeTokens (0 : Int)
        refine ⟨zeros :: rest, zeros :: rest', ?_, ?_, fun i r _ _ => rfl, ?_⟩
        · rw [draftRounds, draftTokens, if_neg hfit]
          show (draftRounds env false stale cache rounds).bind _ = _
          rw [hrun]
          rfl
        · rw [draftRounds, draftTokens, if_neg hfit]
          show (draftRounds env true stale' cache' rounds).bind _ = _
          rw [hrun']
          rfl
        · rw [show round.cleanAfter env clean = clean from funext fun s => if_neg hfit]
          exact hagrees

/-! ## A prompt, then a rejected draft -/

/-- Two drafts; an output is the sum of the entries. -/
def summing : Drafter Int Int Int Unit where
  blockSize := 4
  maxModelLen := 16
  effectiveDrafterMaxModelLen := 16
  numSpeculativeTokens := 2
  keyValue := fun row => row.inputId + row.position
  attend := fun row entries => (entries.sum, row.hidden + 1)
  sampleDraft := fun _ _ output => output
  parseOutput := fun ids => ids.filter (0 ≤ ·)
  prepareNextTokenPadded := fun ids discard backup =>
    if discard then (backup, 0)
    else (((ids.filter (0 ≤ ·)).getLast?).getD backup, (ids.filter (0 ≤ ·)).length)
  prepareInputsPadded := fun cuNumDraftTokens counts queryStartLoc r =>
    let numDraftTokens := cuNumDraftTokens.getD r 0 -
      (if r = 0 then 0 else cuNumDraftTokens.getD (r - 1) 0)
    let numRejected := if 0 < numDraftTokens then numDraftTokens + 1 - counts.getD r 0 else 0
    (queryStartLoc.getD (r + 1) 0 - 1 - numRejected, numRejected)
  stepUpdate := fun position blockTable seqLen =>
    (position + 1, seqLen + 1,
      some (blockTable.getD ((position + 1) / 4) 0 * 4 + (position + 1) % 4))

theorem summing_lawful : summing.Lawful where
  nextToken := fun _ _ _ => rfl
  inputs := fun _ _ _ _ => rfl
  step := fun _ _ _ => rfl
  limit := Nat.le_refl _

/-- Three tokens of a prompt. -/
def promptRound : Round Int Unit where
  useSpecDecode := false
  batch := [⟨[(3, 1), (5, 2), (4, 3)], 0, 0, [2, 0, 1], [7], false, fun _ => 6, 3, ()⟩]

/-- Two drafts, of which the second is rejected. -/
def rejectingRound : Round Int Unit where
  useSpecDecode := true
  batch := [⟨[(7, 1), (9, 2), (8, 3)], 2, 3, [2, 0, 1], [9, 1, -1], false, fun _ => 6, 4, ()⟩]

theorem promptRound_ok : promptRound.Ok summing where
  fits := by decide
  sampled := by decide
  plain := by decide
  owned := by decide
  context := by decide

theorem rejectingRound_ok : rejectingRound.Ok summing where
  fits := by decide
  sampled := by decide
  plain := by decide
  owned := by decide
  context := by decide

theorem padded_drafts_agree_rejecting :
    ∃ drafts drafts',
      draftRounds summing false (fun _ _ => 1) (fun _ => 0) [promptRound, rejectingRound] =
        some drafts ∧
      draftRounds summing true (fun _ _ => 2) (fun _ => 0) [promptRound, rejectingRound] =
        some drafts' ∧
      AgreeOn summing (fun _ => True) [promptRound, rejectingRound] drafts drafts' :=
  padded_drafts_agree summing_lawful
    (fun round hround => by
      rcases List.mem_cons.mp hround with rfl | hrest
      · exact promptRound_ok
      · rw [List.mem_singleton.mp hrest]
        exact rejectingRound_ok)
    (fun _ _ => 1) (fun _ _ => 2) fun _ _ => rfl

end FlashNext.Ports.PaddedDrafts
