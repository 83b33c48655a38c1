import FlashNext.Ports.WarmupTables
import Mathlib.Algebra.Order.BigOperators.Group.List
import Mathlib.Algebra.Order.Floor.Div

/-!
# Warmup never shares a block

Behind every output of a warmup the runner holds for each scheduled request the blocks the
scheduler would have reserved.  No block is held twice, none is the null block, and none lies
behind the pool.
-/

namespace FlashNext.Ports.Warmup

open FlashNext.Verified.Checked
open FlashNext.Verified.IssuedIds
open FlashNext.Verified.PyLists (lookup_of_mem)
open FlashNext.Ports.KvCache (cdiv cdiv_mono)

/-! ## What is to hold -/

/-- The requests of an output, with the tokens each has behind the step. -/
def SchedulerOutput.spans (output : SchedulerOutput) : List (RequestId × Nat) :=
  (output.scheduledNewReqs.map (fun r => (r.reqId, r.numComputedTokens)) ++
    output.scheduledCachedReqs.map fun r => (r.reqId, r.numComputedTokens)).map fun q =>
      (q.1, q.2 + (output.numScheduledTokens.lookup q.1).getD 0)

/-- The blocks of a row reach over the tokens; a ring and the encoder's blocks do not grow. -/
def KVCacheSpec.Covers (spec : KVCacheSpec) (tokens : Nat) (row : List Int) : Prop :=
  match spec.layerSpec with
  | .circularBuffer | .crossAttention _ => True
  | .mamba blockSize _ _ | .paged blockSize => tokens ≤ row.length * blockSize

/-- What holds behind an output, of the tables and of the output itself. -/
structure StepSafe (cfg : Config) (reqs : List RequestId) (tokens : Nat) (tables : BlockTables)
    (output : SchedulerOutput) : Prop where
  distinct : (reqs.flatMap fun id => ((tables id).getD []).flatten).Nodup
  inPool : ∀ id table, tables id = some table →
    id ∈ reqs ∧ ∀ block ∈ table.flatten, 1 ≤ block ∧ block < cfg.numBlocks
  reserved : ∀ span ∈ output.spans, ∃ table, tables span.1 = some table ∧
    table.map List.length = cfg.blockCounts span.2
  covered : ∀ span ∈ output.spans, span.2 ≤ cfg.reservation.maxModelLen →
    ∃ table, tables span.1 = some table ∧
      List.Forall₂ (fun spec row => spec.Covers span.2 row) cfg.kvCacheSpecs table
  newRows : ∀ req ∈ output.scheduledNewReqs,
    req.reqId ∈ reqs ∧ req.blockIds.length = cfg.kvCacheSpecs.length
  known : ∀ q ∈ output.numScheduledTokens, q.1 ∈ output.spans.map Prod.fst
  total : output.totalNumScheduledTokens = (output.numScheduledTokens.map Prod.snd).sum
  budget : output.totalNumScheduledTokens ≤ tokens ∧
    output.numScheduledTokens.length ≤ cfg.maxNumSeqs

/-- The outputs carry the tables along, each leaves them safe, and in the end every block is
released. -/
def TablesSafe (cfg : Config) (reqs : List RequestId) (tokens : Nat) :
    BlockTables → List SchedulerOutput → Prop
  | tables, [] => tables = fun _ => none
  | tables, output :: outputs => ∃ next, tables.run output = some next ∧
      StepSafe cfg reqs tokens next output ∧ TablesSafe cfg reqs tokens next outputs

section Runner

variable {R T : Type}

/-- The runner accepts the outputs, each leaves its tables safe, and in the end no request is
known. -/
def RunSafe (ops : RunnerTables R T) (cfg : Config) (reqs : List RequestId) (tokens : Nat) :
    Runner R T → List SchedulerOutput → Prop
  | runner, [] => ops.tables runner = fun _ => none
  | runner, output :: outputs => ∃ next, ops.executeModel runner output = .ok next ∧
      StepSafe cfg reqs tokens (ops.tables next) output ∧
      RunSafe ops cfg reqs tokens next outputs

theorem TablesSafe.runSafe {ops : RunnerTables R T} {cfg : Config}
    (hops : ops.Lawful cfg.maxNumSeqs cfg.kvCacheSpecs.length) {reqs : List RequestId}
    (hreqs : reqs.length ≤ cfg.maxNumSeqs) {tokens : Nat} {tables : BlockTables}
    {outputs : List SchedulerOutput} (h : TablesSafe cfg reqs tokens tables outputs)
    {runner : Runner R T} (hrunner : Represents ops reqs runner tables) :
    RunSafe ops cfg reqs tokens runner outputs := by
  induction outputs generalizing runner tables with
  | nil => exact hrunner.tables.trans h
  | cons output outputs ih =>
      obtain ⟨tables', hrun, hsafe, hrest⟩ := h
      obtain ⟨next, hexec, hnext⟩ :=
        executeModel_represents hops hrunner hreqs hsafe.newRows hrun
      exact ⟨next, hexec, hnext.tables.symm ▸ hsafe, ih hrest hnext⟩

end Runner

variable {cfg : Config}

/-! ## Reservations -/

theorem reservedBlockCount_mono (r : Reservation) {a b : Nat} (h : a ≤ b) (spec : KVCacheSpec) :
    reservedBlockCount r a spec ≤ reservedBlockCount r b spec := by
  have hmin : min (a + r.numLookaheadTokens) r.maxModelLen ≤
      min (b + r.numLookaheadTokens) r.maxModelLen := by omega
  unfold reservedBlockCount
  cases spec.layerSpec with
  | circularBuffer => exact Nat.le_refl _
  | crossAttention blockSize => exact Nat.le_refl _
  | mamba blockSize numSpeculativeBlocks align =>
      cases align with
      | true => exact Nat.add_le_add_right (cdiv_mono h blockSize) numSpeculativeBlocks
      | false => exact Nat.add_le_add_right (cdiv_mono hmin blockSize) numSpeculativeBlocks
  | paged blockSize => exact cdiv_mono hmin blockSize

theorem le_cdiv_mul (n : Nat) {d : Nat} (hd : 0 < d) : n ≤ cdiv n d * d := by
  have hle : n ≤ d • (n ⌈/⌉ d) := le_smul_ceilDiv hd
  rwa [smul_eq_mul, Nat.ceilDiv_eq_add_pred_div, Nat.mul_comm] at hle

/-- What is reserved reaches over the tokens, as long as these are not cut. -/
theorem covers_of_reserved {r : Reservation} {n : Nat} (hn : n ≤ r.maxModelLen)
    {spec : KVCacheSpec} {row : List Int} (hrow : row.length = reservedBlockCount r n spec) :
    spec.Covers n row := by
  have hmin : n ≤ min (n + r.numLookaheadTokens) r.maxModelLen := by omega
  have hreach : ∀ (blockSize : ℕ+) (count more : Nat), n ≤ count →
      n ≤ (cdiv count blockSize + more) * blockSize := by
    intro blockSize count more hcount
    rw [Nat.add_mul]
    exact (hcount.trans (le_cdiv_mul count blockSize.pos)).trans (Nat.le_add_right _ _)
  unfold reservedBlockCount at hrow
  unfold KVCacheSpec.Covers
  cases hspec : spec.layerSpec with
  | circularBuffer => trivial
  | crossAttention blockSize => trivial
  | mamba blockSize numSpeculativeBlocks align =>
      rw [hspec] at hrow
      cases align with
      | true => exact hrow ▸ hreach blockSize n numSpeculativeBlocks (Nat.le_refl n)
      | false => exact hrow ▸ hreach blockSize _ numSpeculativeBlocks hmin
  | paged blockSize =>
      rw [hspec] at hrow
      exact hrow ▸ hreach blockSize _ 0 hmin

theorem forall₂_covers {r : Reservation} {n : Nat} (hn : n ≤ r.maxModelLen)
    {specs : List KVCacheSpec} {table : List (List Int)}
    (htable : table.map List.length = specs.map (reservedBlockCount r n)) :
    List.Forall₂ (fun spec row => spec.Covers n row) specs table := by
  induction specs generalizing table with
  | nil =>
      rw [List.map_eq_nil_iff.mp htable]
      exact List.Forall₂.nil
  | cons spec specs ih =>
      cases table with
      | nil => cases htable
      | cons row table =>
          obtain ⟨hrow, hrest⟩ := List.cons.inj htable
          exact List.Forall₂.cons (covers_of_reserved hn hrow) (ih hrest)

/-- A row for each cache group. -/
theorem length_issueAll_blockCounts (cfg : Config) (n : Nat) (next : Int) :
    (issueAll next ((cfg.blockCounts n).map Int.ofNat)).1.length = cfg.kvCacheSpecs.length := by
  rw [length_issueAll, List.length_map, Config.blockCounts, List.length_map]

theorem blockCounts_sum_mono {a b : Nat} (h : a ≤ b) :
    (cfg.blockCounts a).sum ≤ (cfg.blockCounts b).sum :=
  List.sum_le_sum fun spec _ => reservedBlockCount_mono cfg.reservation h spec

/-- The blocks that a longer request needs on top. -/
def Config.deltas (cfg : Config) (a b : Nat) : List Int :=
  List.zipWith (fun (count : Nat) held => (count : Int) - held) (cfg.blockCounts b)
    ((cfg.blockCounts a).map Int.ofNat)

theorem deltas_eq (cfg : Config) (a b : Nat) :
    cfg.deltas a b = cfg.kvCacheSpecs.map fun spec =>
      (reservedBlockCount cfg.reservation b spec : Int) -
        reservedBlockCount cfg.reservation a spec := by
  rw [Config.deltas, Config.blockCounts, Config.blockCounts, List.map_map,
    List.zipWith_map, List.zipWith_self]
  rfl

theorem deltas_nonneg {a b : Nat} (h : a ≤ b) : ∀ delta ∈ cfg.deltas a b, 0 ≤ delta := by
  intro delta hdelta
  rw [deltas_eq] at hdelta
  obtain ⟨spec, -, rfl⟩ := List.mem_map.mp hdelta
  have hmono := reservedBlockCount_mono cfg.reservation h spec
  omega

/-! ## The tables during a warmup -/

/-- The known requests hold their reserved blocks; all blocks come from the counter. -/
structure Held (cfg : Config) (reqs : List RequestId) (len : RequestId → Nat) (next : Int)
    (tables : BlockTables) : Prop where
  nodup : reqs.Nodup
  table : ∀ id ∈ reqs, ∃ table, tables id = some table ∧
    table.map List.length = cfg.blockCounts (len id)
  other : ∀ id ∉ reqs, tables id = none
  issued : Issued reqs (fun id => (tables id).getD []) 1 next

variable {reqs : List RequestId} {len : RequestId → Nat} {next : Int} {tables : BlockTables}

theorem held_nil (cfg : Config) (len : RequestId → Nat) : Held cfg [] len 1 fun _ => none where
  nodup := List.nodup_nil
  table := fun _ hid => absurd hid List.not_mem_nil
  other := fun _ _ => rfl
  issued := issued_nil _ 1

/-- A new request takes the blocks that are reserved for it. -/
theorem Held.add (h : Held cfg reqs len next tables) (req : NewRequestData)
    (hid : req.reqId ∉ reqs) (n : Nat)
    (hblocks : req.blockIds = (issueAll next ((cfg.blockCounts n).map Int.ofNat)).1) :
    Held cfg (reqs ++ [req.reqId]) (Function.update len req.reqId n)
      (issueAll next ((cfg.blockCounts n).map Int.ofNat)).2 (tables.add req) := by
  have hcounts : ∀ count ∈ (cfg.blockCounts n).map Int.ofNat, 0 ≤ count := by
    intro count hcount
    obtain ⟨k, -, rfl⟩ := List.mem_map.mp hcount
    exact Int.natCast_nonneg k
  have hne : ∀ id ∈ reqs, id ≠ req.reqId := fun id hmem heq => hid (heq ▸ hmem)
  refine
    { nodup := List.nodup_append.mpr ⟨h.nodup, List.nodup_singleton _, ?_⟩
      table := ?_
      other := ?_
      issued := ?_ }
  · intro id hmem id' hmem'
    rw [List.mem_singleton.mp hmem']
    exact hne id hmem
  · intro id hmem
    rcases List.mem_append.mp hmem with hold | hnew
    · rw [BlockTables.add, Function.update_of_ne (hne id hold), Function.update_of_ne (hne id hold)]
      exact h.table id hold
    · obtain rfl := List.mem_singleton.mp hnew
      refine ⟨req.blockIds, Function.update_self .., ?_⟩
      have hlen := lengths_issueAll next hcounts
      rw [Function.update_self, hblocks]
      apply List.map_injective_iff.mpr Int.ofNat_injective
      rw [List.map_map]
      exact hlen
  · intro id hmem
    have hout := not_or.mp fun hor => hmem (List.mem_append.mpr hor)
    rw [BlockTables.add, Function.update_of_ne fun heq => hout.2 (List.mem_singleton.mpr heq)]
    exact h.other id hout.1
  · refine (Issued.congr h.issued ?_).add hcounts ?_
    · intro id hmem
      show (Function.update tables req.reqId (some req.blockIds) id).getD [] = _
      rw [Function.update_of_ne (hne id hmem)]
    · show (Function.update tables req.reqId (some req.blockIds) req.reqId).getD [] = _
      rw [Function.update_self]
      exact hblocks

theorem blockCounts_eq_of_deltas {a b : Nat} (h : (cfg.deltas a b).any (· != 0) = false) :
    cfg.blockCounts b = cfg.blockCounts a := by
  apply List.map_congr_left
  intro spec hspec
  have hdelta := List.any_eq_false.mp h _ (by
    rw [deltas_eq]
    exact List.mem_map_of_mem hspec)
  have hzero : (reservedBlockCount cfg.reservation b spec : Int) -
      reservedBlockCount cfg.reservation a spec = 0 := by
    simpa using hdelta
  omega

theorem length_table {table : List (List Int)} {a : Nat} (b : Nat)
    (h : table.map List.length = cfg.blockCounts a) :
    table.length = (cfg.deltas a b).length := by
  have hlen := congrArg List.length h
  rw [List.length_map, Config.blockCounts, List.length_map] at hlen
  rw [deltas_eq, List.length_map, hlen]

/-- A known request that grows takes the blocks it lacks; without any the tables stay. -/
theorem Held.update (h : Held cfg reqs len next tables) (req : CachedRequest)
    (hid : req.reqId ∈ reqs) {n : Nat} (hle : len req.reqId ≤ n)
    (hblocks : req.newBlockIds =
      if (cfg.deltas (len req.reqId) n).any (· != 0) then
        some (issueAll next (cfg.deltas (len req.reqId) n)).1 else none) :
    ∃ tables', tables.update req = some tables' ∧
      Held cfg reqs (Function.update len req.reqId n)
        (if (cfg.deltas (len req.reqId) n).any (· != 0) then
          (issueAll next (cfg.deltas (len req.reqId) n)).2 else next) tables' := by
  obtain ⟨table, htable, hlen⟩ := h.table _ hid
  cases hany : (cfg.deltas (len req.reqId) n).any (· != 0) with
  | false =>
      rw [hany, if_neg Bool.false_ne_true] at hblocks
      rw [if_neg Bool.false_ne_true]
      refine ⟨tables, BlockTables.update_none htable hblocks, h.nodup, ?_, h.other, h.issued⟩
      intro id hmem
      by_cases heq : id = req.reqId
      · subst heq
        refine ⟨table, htable, ?_⟩
        rw [Function.update_self, hlen, blockCounts_eq_of_deltas hany]
      · rw [Function.update_of_ne heq]
        exact h.table id hmem
  | true =>
      rw [hany, if_pos rfl] at hblocks
      rw [if_pos rfl]
      have hlength : (issueAll next (cfg.deltas (len req.reqId) n)).1.length = table.length := by
        rw [length_issueAll]
        exact (length_table n hlen).symm
      refine ⟨_, BlockTables.update_some htable hblocks hlength, h.nodup, ?_, ?_, ?_⟩
      · intro id hmem
        by_cases heq : id = req.reqId
        · subst heq
          refine ⟨_, Function.update_self .., ?_⟩
          rw [Function.update_self, deltas_eq]
          exact lengths_extend (reservedBlockCount_mono cfg.reservation hle) hlen next
        · rw [Function.update_of_ne heq, Function.update_of_ne heq]
          exact h.table id hmem
      · intro id hmem
        rw [Function.update_of_ne fun heq : id = req.reqId => hmem (heq ▸ hid)]
        exact h.other id hmem
      · have hheld : (tables req.reqId).getD [] = table := by rw [htable, Option.getD_some]
        refine Issued.congr (h.issued.extend h.nodup hid (deltas_nonneg hle) ?_) ?_
        · show ((tables req.reqId).getD []).length = _
          rw [hheld]
          exact length_table n hlen
        · intro id _
          by_cases heq : id = req.reqId
          · subst heq
            rw [Function.update_self, Function.update_self, Option.getD_some, hheld]
          · rw [Function.update_of_ne heq, Function.update_of_ne heq]

theorem Held.length_flatten (h : Held cfg reqs len next tables) {id : RequestId}
    (hid : id ∈ reqs) :
    ((tables id).getD []).flatten.length = (cfg.blockCounts (len id)).sum := by
  obtain ⟨table, htable, hlen⟩ := h.table id hid
  rw [htable, Option.getD_some, List.length_flatten, hlen]

theorem Held.next_eq (h : Held cfg reqs len next tables) :
    next = 1 + ((reqs.map fun id => (cfg.blockCounts (len id)).sum).sum : Nat) := by
  rw [h.issued.next_eq]
  congr 3
  exact List.map_congr_left fun id hid => h.length_flatten hid

theorem Held.congr_len (h : Held cfg reqs len next tables) {len' : RequestId → Nat}
    (heq : ∀ id ∈ reqs, len' id = len id) : Held cfg reqs len' next tables where
  nodup := h.nodup
  table := fun id hid => heq id hid ▸ h.table id hid
  other := h.other
  issued := h.issued

theorem Held.next_le (h : Held cfg reqs len next tables) {bound : Nat}
    (hbound : ∀ id ∈ reqs, len id ≤ bound) :
    next ≤ 1 + ((reqs.length * (cfg.blockCounts bound).sum : Nat) : Int) := by
  have hsum : (reqs.map fun id => (cfg.blockCounts (len id)).sum).sum ≤
      reqs.length * (cfg.blockCounts bound).sum := by
    have hle := List.sum_le_card_nsmul (reqs.map fun id => (cfg.blockCounts (len id)).sum)
      (cfg.blockCounts bound).sum (by
        intro count hcount
        obtain ⟨id, hid, rfl⟩ := List.mem_map.mp hcount
        exact blockCounts_sum_mono (hbound id hid))
    rwa [List.length_map, Nat.nsmul_eq_mul] at hle
  rw [h.next_eq]
  omega

/-- A step is safe when its requests hold what is reserved for them, in a pool that reaches
to the counter. -/
theorem Held.stepSafe (h : Held cfg reqs len next tables) (hpool : next ≤ cfg.numBlocks)
    {tokens : Nat} {output : SchedulerOutput}
    (hspans : ∀ span ∈ output.spans, span.1 ∈ reqs ∧ span.2 = len span.1)
    (hknown : ∀ q ∈ output.numScheduledTokens, q.1 ∈ output.spans.map Prod.fst)
    (htotal : output.totalNumScheduledTokens = (output.numScheduledTokens.map Prod.snd).sum)
    (hbudget : output.totalNumScheduledTokens ≤ tokens ∧
      output.numScheduledTokens.length ≤ cfg.maxNumSeqs)
    (hnews : ∀ req ∈ output.scheduledNewReqs,
      req.reqId ∈ reqs ∧ req.blockIds.length = cfg.kvCacheSpecs.length) :
    StepSafe cfg reqs tokens tables output where
  distinct := h.issued.nodup
  inPool := by
    intro id table htable
    have hid : id ∈ reqs := by
      by_contra hnot
      cases (h.other id hnot).symm.trans htable
    refine ⟨hid, fun block hblock => ?_⟩
    have hmem : block ∈ ((tables id).getD []).flatten := by
      rwa [htable, Option.getD_some]
    obtain ⟨hfirst, hlast⟩ := h.issued.mem_iff.mp ⟨id, hid, hmem⟩
    exact ⟨hfirst, Int.lt_of_lt_of_le hlast hpool⟩
  reserved := by
    intro span hspan
    obtain ⟨hid, hlen⟩ := hspans span hspan
    rw [hlen]
    exact h.table span.1 hid
  covered := by
    intro span hspan hfit
    obtain ⟨hid, hlen⟩ := hspans span hspan
    obtain ⟨table, htable, hlens⟩ := h.table span.1 hid
    exact ⟨table, htable, forall₂_covers hfit (hlen ▸ hlens)⟩
  newRows := hnews
  known := hknown
  total := htotal
  budget := hbudget

/-! ## The prefill -/

/-- The requests of a warmup. -/
def Config.requests (cfg : Config) : List RequestId := (List.range cfg.numReqs).map .warmup

theorem warmup_injective : Function.Injective RequestId.warmup :=
  fun _ _ h => RequestId.warmup.inj h

theorem prefillRequests_held (cfg : Config) (k : Nat) :
    let st := (List.range k).foldl cfg.prefillRequest (1, [])
    Held cfg ((List.range k).map .warmup) (fun _ => cfg.promptLen) st.1
      (st.2.foldl BlockTables.add fun _ => none) ∧
      st.2.map (fun r => (r.reqId, r.numComputedTokens)) =
        (List.range k).map fun i => (RequestId.warmup i, 0) := by
  induction k with
  | zero => exact ⟨held_nil cfg _, rfl⟩
  | succ k ih =>
      obtain ⟨hheld, hspans⟩ := ih
      have hnew : RequestId.warmup k ∉ (List.range k).map RequestId.warmup := by
        rw [List.mem_map_of_injective warmup_injective]
        exact List.not_mem_range_self
      simp only [List.range_succ, List.foldl_append, List.foldl_cons, List.foldl_nil,
        List.map_append, List.map_cons, List.map_nil, Config.prefillRequest]
      refine ⟨?_, by rw [hspans]⟩
      have hadd := hheld.add {
        reqId := .warmup k
        prefillTokenIds := List.range cfg.promptLen
        blockIds := (issueAll ((List.range k).foldl cfg.prefillRequest (1, [])).1
          ((cfg.blockCounts cfg.promptLen).map Int.ofNat)).1 } hnew cfg.promptLen rfl
      rwa [Function.update_eq_self] at hadd

/-- A new request brings a row for each cache group. -/
theorem prefillRequests_rows (cfg : Config) (k : Nat) :
    ∀ req ∈ ((List.range k).foldl cfg.prefillRequest (1, [])).2,
      req.blockIds.length = cfg.kvCacheSpecs.length := by
  induction k with
  | zero => exact fun req hreq => absurd hreq List.not_mem_nil
  | succ k ih =>
      intro req hreq
      rw [List.range_succ, List.foldl_append, List.foldl_cons, List.foldl_nil,
        Config.prefillRequest] at hreq
      rcases List.mem_append.mp hreq with hold | hnew
      · exact ih req hold
      · rw [List.mem_singleton.mp hnew]
        exact length_issueAll_blockCounts cfg cfg.promptLen _

/-! ## A decode step -/

/-- The computed tokens of the requests behind a step. -/
def Config.computedAfter (cfg : Config) (computed : Nat → Nat) (entries : List (Nat × Bool)) :
    Nat → Nat :=
  entries.foldl (fun cur e => Function.update cur e.1 (cur e.1 + cfg.decodeTokens e.2)) computed

/-- The lengths of the requests. -/
def lensOf (computed : Nat → Nat) : RequestId → Nat
  | .warmup i => computed i
  | _ => 0

theorem lensOf_update (computed : Nat → Nat) (i n : Nat) :
    lensOf (Function.update computed i n) =
      Function.update (lensOf computed) (.warmup i) n := by
  funext id
  cases id with
  | warmup j =>
      by_cases heq : j = i
      · subst heq
        rw [Function.update_self]
        exact Function.update_self ..
      · rw [Function.update_of_ne fun h => heq (warmup_injective h)]
        exact Function.update_of_ne heq ..
  | mixedDecode =>
      rw [Function.update_of_ne RequestId.noConfusion]
      rfl
  | mixedPrefill =>
      rw [Function.update_of_ne RequestId.noConfusion]
      rfl

theorem computedAfter_of_notMem {computed : Nat → Nat} {entries : List (Nat × Bool)} {i : Nat}
    (hi : i ∉ entries.map Prod.fst) : cfg.computedAfter computed entries i = computed i := by
  induction entries generalizing computed with
  | nil => rfl
  | cons e entries ih =>
      obtain ⟨hhead, hrest⟩ := not_or.mp fun h => hi (List.mem_cons.mpr h)
      rw [Config.computedAfter, List.foldl_cons]
      exact (ih hrest).trans (Function.update_of_ne hhead ..)

theorem computedAfter_of_mem {computed : Nat → Nat} {entries : List (Nat × Bool)}
    (hnodup : (entries.map Prod.fst).Nodup) {e : Nat × Bool} (he : e ∈ entries) :
    cfg.computedAfter computed entries e.1 = computed e.1 + cfg.decodeTokens e.2 := by
  induction entries generalizing computed with
  | nil => cases he
  | cons first entries ih =>
      obtain ⟨hfirst, hrest⟩ := List.nodup_cons.mp hnodup
      rw [Config.computedAfter, List.foldl_cons]
      rcases List.mem_cons.mp he with rfl | hmem
      · exact (computedAfter_of_notMem hfirst).trans (Function.update_self ..)
      · have hne : e.1 ≠ first.1 := fun heq => hfirst (heq ▸ List.mem_map_of_mem hmem)
        refine (ih hrest hmem).trans ?_
        rw [Function.update_of_ne hne]

theorem decodeTokens_bounds (cfg : Config) (useSpec : Bool) :
    cfg.decodeTokens useSpec ≤ cfg.decodeQueryLen := by
  cases useSpec with
  | true => exact Nat.le_refl _
  | false => exact cfg.decodeQueryLen_pos

/-- A step carries each request on by one query at most. -/
theorem computedAfter_le {computed : Nat → Nat} {entries : List (Nat × Bool)}
    (hnodup : (entries.map Prod.fst).Nodup) (i : Nat) :
    cfg.computedAfter computed entries i ≤ computed i + cfg.decodeQueryLen := by
  by_cases hi : i ∈ entries.map Prod.fst
  · obtain ⟨e, he, rfl⟩ := List.mem_map.mp hi
    rw [computedAfter_of_mem hnodup he]
    exact Nat.add_le_add_left (decodeTokens_bounds cfg e.2) _
  · rw [computedAfter_of_notMem hi]
    exact Nat.le_add_right ..

/-- What the loop and the runner agree on, with the lengths reached so far. -/
structure InLoop (cfg : Config) (cur : Nat → Nat) (loop : DecodeLoop) (tables : BlockTables) :
    Prop where
  held : Held cfg cfg.requests (lensOf cur) loop.nextBlockId tables
  blocks : ∀ i, loop.reqBlocks i = (cfg.blockCounts (cur i)).map Int.ofNat

theorem zipWith_add_deltas (cfg : Config) (a b : Nat) :
    List.zipWith (· + ·) ((cfg.blockCounts a).map Int.ofNat) (cfg.deltas a b) =
      (cfg.blockCounts b).map Int.ofNat := by
  rw [deltas_eq, Config.blockCounts, Config.blockCounts, List.map_map, List.map_map,
    List.zipWith_map, List.zipWith_self]
  apply List.map_congr_left
  intro spec _
  show (reservedBlockCount cfg.reservation a spec : Int) +
    ((reservedBlockCount cfg.reservation b spec : Int) -
      reservedBlockCount cfg.reservation a spec) = _
  exact add_sub_cancel _ _

/-- The loop body hands a request the blocks it lacks. -/
theorem InLoop.entry {computed cur : Nat → Nat} {loop : DecodeLoop} {tables : BlockTables}
    (h : InLoop cfg cur loop tables) {e : Nat × Bool} (hrange : e.1 < cfg.numReqs)
    (hcur : cur e.1 = computed e.1) :
    ∃ cached tables', (cfg.decodeRequest computed loop e).cachedReqs =
        loop.cachedReqs ++ [cached] ∧
      cached.reqId = .warmup e.1 ∧ cached.numComputedTokens = computed e.1 ∧
      tables.update cached = some tables' ∧
      InLoop cfg (Function.update cur e.1 (cur e.1 + cfg.decodeTokens e.2))
        (cfg.decodeRequest computed loop e) tables' := by
  have hdeltas : List.zipWith (fun (count : Nat) held => (count : Int) - held)
      (cfg.blockCounts (computed e.1 + cfg.decodeTokens e.2)) (loop.reqBlocks e.1) =
      cfg.deltas (cur e.1) (cur e.1 + cfg.decodeTokens e.2) := by
    rw [h.blocks, hcur]
    rfl
  have hid : RequestId.warmup e.1 ∈ cfg.requests :=
    List.mem_map_of_mem (List.mem_range.mpr hrange)
  obtain ⟨tables', hupdate, hheld⟩ := h.held.update {
    reqId := .warmup e.1
    numComputedTokens := computed e.1
    newBlockIds :=
      if (cfg.deltas (cur e.1) (cur e.1 + cfg.decodeTokens e.2)).any (· != 0) then
        some (issueAll loop.nextBlockId
          (cfg.deltas (cur e.1) (cur e.1 + cfg.decodeTokens e.2))).1
      else none } hid (Nat.le_add_right (cur e.1) (cfg.decodeTokens e.2)) rfl
  refine ⟨_, tables', rfl, rfl, rfl, ?_, ?_, ?_⟩
  · rw [hdeltas]
    exact hupdate
  · rw [lensOf_update, Config.decodeRequest, hdeltas]
    exact hheld
  · intro i
    rw [Config.decodeRequest, hdeltas]
    show Function.update loop.reqBlocks e.1 _ i = _
    by_cases heq : i = e.1
    · subst heq
      rw [Function.update_self, Function.update_self, h.blocks]
      exact zipWith_add_deltas cfg _ _
    · rw [Function.update_of_ne heq, Function.update_of_ne heq]
      exact h.blocks i

/-- The loop over the requests of a step. -/
theorem InLoop.entries {computed cur : Nat → Nat} {loop : DecodeLoop} {tables : BlockTables}
    (h : InLoop cfg cur loop tables) {entries : List (Nat × Bool)}
    (hnodup : (entries.map Prod.fst).Nodup)
    (hentries : ∀ e ∈ entries, e.1 < cfg.numReqs ∧ cur e.1 = computed e.1) :
    ∃ added tables', (entries.foldl (cfg.decodeRequest computed) loop).cachedReqs =
        loop.cachedReqs ++ added ∧
      added.map (fun r => (r.reqId, r.numComputedTokens)) =
        entries.map (fun e => (RequestId.warmup e.1, computed e.1)) ∧
      added.foldlM BlockTables.update tables = some tables' ∧
      InLoop cfg (cfg.computedAfter cur entries)
        (entries.foldl (cfg.decodeRequest computed) loop) tables' := by
  induction entries generalizing cur loop tables with
  | nil => exact ⟨[], tables, (List.append_nil _).symm, rfl, rfl, h⟩
  | cons e entries ih =>
      obtain ⟨hfirst, hrest⟩ := List.nodup_cons.mp hnodup
      obtain ⟨hrange, hcur⟩ := hentries e List.mem_cons_self
      obtain ⟨cached, tables₁, hcached, hreq, hcomputed, hupdate, hin⟩ := h.entry hrange hcur
      obtain ⟨added, tables', hadded, hspans, hfold, hlast⟩ := ih hin hrest (by
        intro e' he'
        obtain ⟨hrange', hcur'⟩ := hentries e' (List.mem_cons_of_mem e he')
        have hne : e'.1 ≠ e.1 := fun heq => hfirst (heq ▸ List.mem_map_of_mem he')
        exact ⟨hrange', by rw [Function.update_of_ne hne, hcur']⟩)
      refine ⟨cached :: added, tables', ?_, ?_, ?_, hlast⟩
      · rw [List.foldl_cons, hadded, hcached, List.append_assoc]
        rfl
      · rw [List.map_cons, List.map_cons, hspans, hreq, hcomputed]
      · rw [List.foldlM_cons, hupdate]
        exact hfold

/-! ## The bounds of the configuration -/

/-- The requests fit into the pool at their full length. -/
theorem numReqs_mul_lt (hblocks : cfg.maxBlocksPerReq < cfg.numBlocks) :
    cfg.numReqs * cfg.maxBlocksPerReq < cfg.numBlocks := by
  by_cases hpos : 0 < cfg.maxBlocksPerReq
  · have hreqs : cfg.numReqs ≤ max 1 ((cfg.numBlocks - 1) / cfg.maxBlocksPerReq) := by
      rw [Config.numReqs, if_pos hpos]
      exact Nat.min_le_right ..
    have hone : 1 ≤ (cfg.numBlocks - 1) / cfg.maxBlocksPerReq :=
      (Nat.one_le_div_iff hpos).mpr (Nat.le_sub_one_of_lt hblocks)
    rw [Nat.max_eq_right hone] at hreqs
    have hmul := (Nat.mul_le_mul_right cfg.maxBlocksPerReq hreqs).trans (Nat.div_mul_le_self ..)
    omega
  · rw [Nat.eq_zero_of_not_pos hpos, Nat.mul_zero]
    exact Nat.zero_lt_of_lt hblocks

theorem numReqs_le (cfg : Config) : cfg.numReqs ≤ cfg.maxNumSeqs ∧
    cfg.numReqs * cfg.promptLen ≤ cfg.maxNumBatchedTokens := by
  have hle : cfg.numReqs ≤ min cfg.maxNumSeqs
      (cfg.maxNumBatchedTokens / max cfg.promptLen cfg.decodeQueryLen) := by
    rw [Config.numReqs]
    split_ifs with hpos
    · exact Nat.min_le_left ..
    · exact Nat.le_refl _
  have hmax : max cfg.promptLen cfg.decodeQueryLen = cfg.promptLen :=
    Nat.max_eq_left (Nat.le_succ _)
  rw [hmax] at hle
  exact ⟨hle.trans (Nat.min_le_left ..),
    (Nat.mul_le_mul_right _ (hle.trans (Nat.min_le_right ..))).trans (Nat.div_mul_le_self ..)⟩

theorem Held.next_le_numBlocks {computed : Nat → Nat}
    (h : Held cfg cfg.requests (lensOf computed) next tables)
    (hblocks : cfg.maxBlocksPerReq < cfg.numBlocks)
    (hlen : ∀ i, computed i ≤ cfg.decodeLen) : next ≤ cfg.numBlocks := by
  have hle := h.next_le fun id hid => by
    obtain ⟨i, -, rfl⟩ := List.mem_map.mp hid
    exact hlen i
  rw [Config.requests, List.length_map, List.length_range] at hle
  have hmul := numReqs_mul_lt hblocks
  rw [Config.maxBlocksPerReq] at hmul
  omega

/-! ## The run of the decode steps -/

/-- The indices of a step are distinct requests of the warmup, each with its flag. -/
structure StepOk (cfg : Config) (step : List Nat × List Bool) : Prop where
  nodup : step.1.Nodup
  inRange : ∀ i ∈ step.1, i < cfg.numReqs
  flags : step.1.length ≤ step.2.length

theorem StepOk.fst_zip {step : List Nat × List Bool} (h : StepOk cfg step) :
    (step.1.zip step.2).map Prod.fst = step.1 := List.map_fst_zip h.flags

theorem StepOk.length_le {step : List Nat × List Bool} (h : StepOk cfg step) :
    step.1.length ≤ cfg.numReqs := by
  have hsub : step.1 ⊆ List.range cfg.numReqs :=
    fun i hi => List.mem_range.mpr (h.inRange i hi)
  have hlen := (List.subperm_of_subset h.nodup hsub).length_le
  rwa [List.length_range] at hlen

/-- The tokens scheduled for the entries of a step. -/
def Config.scheduled (cfg : Config) (entries : List (Nat × Bool)) : List (RequestId × Nat) :=
  entries.map fun e => (RequestId.warmup e.1, cfg.decodeTokens e.2)

theorem scheduled_lookup {entries : List (Nat × Bool)} (hnodup : (entries.map Prod.fst).Nodup)
    {e : Nat × Bool} (he : e ∈ entries) :
    (cfg.scheduled entries).lookup (.warmup e.1) = some (cfg.decodeTokens e.2) := by
  have hmem : (RequestId.warmup e.1, cfg.decodeTokens e.2) ∈ cfg.scheduled entries :=
    List.mem_map_of_mem he
  refine lookup_of_mem ?_ hmem
  rw [Config.scheduled, List.map_map]
  have hkeys := hnodup.map warmup_injective
  rwa [List.map_map] at hkeys

theorem scheduled_sum_le (cfg : Config) (entries : List (Nat × Bool)) :
    ((cfg.scheduled entries).map Prod.snd).sum ≤ entries.length * cfg.decodeQueryLen := by
  have hle := List.sum_le_card_nsmul ((cfg.scheduled entries).map Prod.snd) cfg.decodeQueryLen (by
    intro tokens htokens
    obtain ⟨q, hq, rfl⟩ := List.mem_map.mp htokens
    obtain ⟨e, -, rfl⟩ := List.mem_map.mp hq
    exact decodeTokens_bounds cfg e.2)
  rwa [List.length_map, Config.scheduled, List.length_map, Nat.nsmul_eq_mul] at hle

/-- A decode step is safe, and the loop state behind it agrees with the runner again. -/
theorem runDecodeStep_safe {st : DecodeState} {tables : BlockTables}
    (h : InLoop cfg st.reqComputed ⟨st.nextBlockId, st.reqBlocks, []⟩ tables)
    (hblocks : cfg.maxBlocksPerReq < cfg.numBlocks) {step : List Nat × List Bool}
    (hstep : StepOk cfg step)
    (hroom : ∀ i, st.reqComputed i + cfg.decodeQueryLen ≤ cfg.decodeLen) :
    ∃ output st' tables', cfg.runDecodeStep st step = .ok (output, st') ∧
      tables.run output = some tables' ∧
      StepSafe cfg cfg.requests cfg.maxNumBatchedTokens tables' output ∧
      InLoop cfg st'.reqComputed ⟨st'.nextBlockId, st'.reqBlocks, []⟩ tables' ∧
      ∀ i, st'.reqComputed i ≤ st.reqComputed i + cfg.decodeQueryLen := by
  have hnodup : ((step.1.zip step.2).map Prod.fst).Nodup := by
    rw [hstep.fst_zip]
    exact hstep.nodup
  have hrange : ∀ e ∈ step.1.zip step.2, e.1 < cfg.numReqs :=
    fun e he => hstep.inRange e.1 (hstep.fst_zip ▸ List.mem_map_of_mem he)
  obtain ⟨added, tables', hadded, hspans, hfold, hin⟩ :=
    h.entries hnodup fun e he => ⟨hrange e he, rfl⟩
  rw [List.nil_append] at hadded
  have hle : ∀ i, cfg.computedAfter st.reqComputed (step.1.zip step.2) i ≤
      st.reqComputed i + cfg.decodeQueryLen := computedAfter_le hnodup
  let loop := (step.1.zip step.2).foldl (cfg.decodeRequest st.reqComputed)
    ⟨st.nextBlockId, st.reqBlocks, []⟩
  have hrun : cfg.runDecodeStep st step = .ok
      ({ scheduledCachedReqs := loop.cachedReqs
         numScheduledTokens := cfg.scheduled (step.1.zip step.2)
         scheduledSpecDecodeTokens := ((step.1.zip step.2).filter Prod.snd).map fun e =>
           (.warmup e.1, List.replicate cfg.numSpecSteps 0)
         totalNumScheduledTokens := ((cfg.scheduled (step.1.zip step.2)).map Prod.snd).sum
         numCommonPrefixBlocks := cfg.kvCacheSpecs.map fun _ => 0 },
       { nextBlockId := loop.nextBlockId
         reqComputed := cfg.computedAfter st.reqComputed (step.1.zip step.2)
         reqBlocks := loop.reqBlocks }) := by
    rw [Config.runDecodeStep, require, if_pos hstep.inRange]
    rfl
  refine ⟨_, _, tables', hrun, ?_, ?_, ⟨hin.held, hin.blocks⟩, hle⟩
  · rw [BlockTables.run_of_notFinished tables rfl, hadded]
    exact hfold
  have hspans' : SchedulerOutput.spans { scheduledCachedReqs := loop.cachedReqs
                                         numScheduledTokens := cfg.scheduled (step.1.zip step.2) } =
      (step.1.zip step.2).map fun e =>
        (RequestId.warmup e.1, cfg.computedAfter st.reqComputed (step.1.zip step.2) e.1) := by
    rw [SchedulerOutput.spans, List.map_nil, List.nil_append, hadded, hspans, List.map_map]
    apply List.map_congr_left
    intro e he
    rw [computedAfter_of_mem hnodup he]
    show (_, _ + ((cfg.scheduled _).lookup _).getD 0) = _
    rw [scheduled_lookup hnodup he, Option.getD_some]
  have hlength : (step.1.zip step.2).length ≤ cfg.numReqs := by
    have hlen := congrArg List.length hstep.fst_zip
    rw [List.length_map] at hlen
    exact hlen.trans_le hstep.length_le
  obtain ⟨hseqs, hprompt⟩ := numReqs_le cfg
  apply hin.held.stepSafe (hin.held.next_le_numBlocks hblocks fun i => (hle i).trans (hroom i))
  · intro span hspan
    rw [SchedulerOutput.spans] at hspan hspans'
    rw [hspans'] at hspan
    obtain ⟨e, he, rfl⟩ := List.mem_map.mp hspan
    exact ⟨List.mem_map_of_mem (List.mem_range.mpr (hrange e he)), rfl⟩
  · intro q hq
    obtain ⟨e, he, rfl⟩ := List.mem_map.mp hq
    rw [SchedulerOutput.spans] at hspans' ⊢
    rw [hspans', List.map_map]
    exact List.mem_map_of_mem he
  · rfl
  · refine ⟨(scheduled_sum_le cfg _).trans ?_, ?_⟩
    · exact (Nat.mul_le_mul hlength (Nat.le_succ _)).trans hprompt
    · show (cfg.scheduled (step.1.zip step.2)).length ≤ _
      rw [Config.scheduled, List.length_map]
      exact hlength.trans hseqs
  · exact fun req hreq => absurd hreq List.not_mem_nil

/-- An output that finishes every request releases every block. -/
theorem Held.finish (h : Held cfg reqs len next tables) (tokens : Nat) :
    TablesSafe cfg reqs tokens tables [{ finishedReqIds := reqs }] := by
  refine ⟨fun _ => none, ?_, ?_, rfl⟩
  · show some (tables.finish reqs) = _
    congr 1
    funext id
    rw [BlockTables.finish]
    split_ifs with hid
    · rfl
    · exact h.other id hid
  · constructor
    · have hempty : (reqs.flatMap fun _ => (none.getD [] : List (List Int)).flatten) = [] :=
        List.flatMap_eq_nil_iff.mpr fun _ _ => rfl
      rw [hempty]
      exact List.nodup_nil
    · intro id table htable
      cases htable
    · intro span hspan
      cases hspan
    · intro span hspan
      cases hspan
    · intro req hreq
      cases hreq
    · intro q hq
      cases hq
    · rfl
    · exact ⟨Nat.zero_le _, Nat.zero_le _⟩

theorem runDecodeSteps_safe (hblocks : cfg.maxBlocksPerReq < cfg.numBlocks) (st : DecodeState)
    {tables : BlockTables} {steps : List (List Nat × List Bool)}
    (h : InLoop cfg st.reqComputed ⟨st.nextBlockId, st.reqBlocks, []⟩ tables)
    (hsteps : ∀ step ∈ steps, StepOk cfg step)
    (hroom : ∀ i, st.reqComputed i + steps.length * cfg.decodeQueryLen ≤ cfg.decodeLen) :
    ∃ outputs, cfg.runDecodeSteps st steps = .ok outputs ∧
      TablesSafe cfg cfg.requests cfg.maxNumBatchedTokens tables
        (outputs ++ [cfg.cleanupOutput]) := by
  induction steps generalizing st tables with
  | nil => exact ⟨[], rfl, h.held.finish _⟩
  | cons step steps ih =>
      have hfirst : ∀ i, st.reqComputed i + cfg.decodeQueryLen +
          steps.length * cfg.decodeQueryLen ≤ cfg.decodeLen := by
        intro i
        have hi := hroom i
        rwa [List.length_cons, Nat.succ_mul, Nat.add_comm (steps.length * _),
          ← Nat.add_assoc] at hi
      obtain ⟨output, st', tables', hrun, hexec, hsafe, hin, hle⟩ :=
        runDecodeStep_safe h hblocks (hsteps step List.mem_cons_self)
          fun i => (Nat.le_add_right _ _).trans (hfirst i)
      obtain ⟨outputs, hruns, hrest⟩ := ih st' hin
        (fun step' hstep' => hsteps step' (List.mem_cons_of_mem step hstep'))
        fun i => (Nat.add_le_add_right (hle i) _).trans (hfirst i)
      refine ⟨output :: outputs, ?_, tables', hexec, hsafe, hrest⟩
      rw [Config.runDecodeSteps, hrun]
      show (cfg.runDecodeSteps st' steps >>= _) = _
      rw [hruns]
      rfl

theorem decodeSteps_ok (hreqs : 0 < cfg.numReqs) : ∀ step ∈ cfg.decodeSteps, StepOk cfg step := by
  have hall : ∀ flag, StepOk cfg (List.range cfg.numReqs, List.replicate cfg.numReqs flag) := by
    intro flag
    refine ⟨List.nodup_range, fun i hi => List.mem_range.mp hi, ?_⟩
    rw [List.length_range, List.length_replicate]
  have htwo : 2 ≤ cfg.numReqs → ∀ a b, StepOk cfg ([0, 1], [a, b]) := by
    intro hle a b
    refine ⟨List.nodup_range (n := 2), fun i hi => ?_, Nat.le_refl _⟩
    rcases List.mem_pair.mp hi with rfl | rfl <;> omega
  have hone : ∀ a, StepOk cfg ([0], [a]) := by
    intro a
    refine ⟨List.nodup_singleton 0, fun i hi => ?_, Nat.le_refl _⟩
    rw [List.mem_singleton.mp hi]
    exact hreqs
  intro step hstep
  rw [Config.decodeSteps] at hstep
  grind

theorem length_decodeSteps (hpool : cfg.isPoolingModel = false) :
    cfg.decodeSteps.length ≤ cfg.numDecodeSteps := by
  rw [Config.decodeSteps, Config.numDecodeSteps, hpool]
  by_cases hspec : 0 < cfg.numSpecSteps <;> by_cases hreqs : 2 ≤ cfg.numReqs <;> grind

theorem prefillOutput_spans (cfg : Config) :
    cfg.prefillOutput.spans = cfg.requests.map fun id => (id, cfg.promptLen) := by
  have hspans := (prefillRequests_held cfg cfg.numReqs).2
  have hlookup : ∀ i ∈ List.range cfg.numReqs,
      cfg.prefillOutput.numScheduledTokens.lookup (.warmup i) = some cfg.promptLen := by
    intro i hi
    have hmem : (RequestId.warmup i, cfg.promptLen) ∈ cfg.prefillOutput.numScheduledTokens :=
      List.mem_map_of_mem hi
    refine lookup_of_mem ?_ hmem
    rw [Config.prefillOutput, List.map_map]
    exact List.nodup_range.map warmup_injective
  rw [SchedulerOutput.spans, Config.prefillOutput, List.map_nil, List.append_nil,
    Config.prefillRequests, hspans, Config.requests, List.map_map, List.map_map]
  apply List.map_congr_left
  intro i hi
  show (RequestId.warmup i, 0 + (cfg.prefillOutput.numScheduledTokens.lookup _).getD 0) = _
  rw [hlookup i hi, Option.getD_some, Nat.zero_add]
  rfl

/-- The prefill gives each request the blocks of its prompt. -/
theorem prefillOutput_safe (hblocks : cfg.maxBlocksPerReq < cfg.numBlocks) :
    ∃ tables, BlockTables.run (fun _ => none) cfg.prefillOutput = some tables ∧
      StepSafe cfg cfg.requests cfg.maxNumBatchedTokens tables cfg.prefillOutput ∧
      Held cfg cfg.requests (lensOf fun _ => cfg.promptLen) cfg.prefillRequests.1 tables := by
  have hlens : ∀ id ∈ cfg.requests, lensOf (fun _ => cfg.promptLen) id = cfg.promptLen := by
    intro id hid
    obtain ⟨i, -, rfl⟩ := List.mem_map.mp hid
    rfl
  have hheld : Held cfg cfg.requests (lensOf fun _ => cfg.promptLen) cfg.prefillRequests.1
      (cfg.prefillRequests.2.foldl BlockTables.add fun _ => none) :=
    (prefillRequests_held cfg cfg.numReqs).1.congr_len hlens
  obtain ⟨hseqs, hprompt⟩ := numReqs_le cfg
  refine ⟨_, ?_, ?_, hheld⟩
  · rfl
  apply hheld.stepSafe (hheld.next_le_numBlocks hblocks fun _ => Nat.le_add_right ..)
  · intro span hspan
    rw [prefillOutput_spans] at hspan
    obtain ⟨id, hid, rfl⟩ := List.mem_map.mp hspan
    exact ⟨hid, (hlens id hid).symm⟩
  · intro q hq
    rw [prefillOutput_spans, List.map_map]
    obtain ⟨i, hi, rfl⟩ := List.mem_map.mp hq
    exact List.mem_map_of_mem (List.mem_map_of_mem hi)
  · show cfg.promptLen * cfg.numReqs = _
    rw [Config.prefillOutput, List.map_map]
    show _ = ((List.range cfg.numReqs).map fun _ => cfg.promptLen).sum
    rw [List.map_const', List.sum_replicate, List.length_range, Nat.nsmul_eq_mul, Nat.mul_comm]
  · refine ⟨(Nat.mul_comm cfg.promptLen cfg.numReqs).trans_le hprompt, ?_⟩
    rw [Config.prefillOutput, List.length_map, List.length_range]
    exact hseqs
  · intro req hreq
    refine ⟨?_, prefillRequests_rows cfg cfg.numReqs req hreq⟩
    have hspan : (req.reqId, req.numComputedTokens) ∈
        (List.range cfg.numReqs).map fun i => (RequestId.warmup i, 0) :=
      (prefillRequests_held cfg cfg.numReqs).2 ▸ List.mem_map_of_mem hreq
    obtain ⟨i, hi, heq⟩ := List.mem_map.mp hspan
    exact List.mem_map.mpr ⟨i, hi, congrArg Prod.fst heq⟩

/-- Warmup gives outputs that carry the tables along, and each leaves them safe. -/
theorem warmupKernels_tablesSafe (cfg : Config) (hreqs : 0 < cfg.numReqs)
    (hblocks : cfg.maxBlocksPerReq < cfg.numBlocks) :
    ∃ outputs, cfg.warmupKernels = .ok outputs ∧
      TablesSafe cfg cfg.requests cfg.maxNumBatchedTokens (fun _ => none) outputs := by
  cases hencoder : cfg.isMmEncoderOnly with
  | true => exact ⟨[], by rw [Config.warmupKernels, hencoder]; rfl, rfl⟩
  | false =>
      obtain ⟨tables, hexec, hsafe, hheld⟩ := prefillOutput_safe hblocks
      cases hpool : cfg.isPoolingModel with
      | true =>
          refine ⟨[cfg.prefillOutput, cfg.cleanupOutput], ?_, tables, hexec, hsafe,
            hheld.finish _⟩
          rw [Config.warmupKernels, hencoder, hpool]
          rfl
      | false =>
          let st : DecodeState := {
            nextBlockId := cfg.prefillRequests.1
            reqComputed := fun _ => cfg.promptLen
            reqBlocks := fun _ => (cfg.blockCounts cfg.promptLen).map Int.ofNat }
          have hin : InLoop cfg st.reqComputed ⟨st.nextBlockId, st.reqBlocks, []⟩ tables :=
            ⟨hheld, fun _ => rfl⟩
          obtain ⟨outputs, hruns, hrest⟩ :=
            runDecodeSteps_safe hblocks st hin (decodeSteps_ok hreqs) fun _ =>
              Nat.add_le_add_left (Nat.mul_le_mul_right _ (length_decodeSteps hpool)) _
          refine ⟨cfg.prefillOutput :: (outputs ++ [cfg.cleanupOutput]), ?_, tables, hexec,
            hsafe, hrest⟩
          rw [Config.warmupKernels, hencoder, hpool]
          simp only [Bool.false_eq_true, if_false]
          rw [hruns]
          rfl

/-- Warmup gives outputs that a runner without requests accepts, and each leaves its tables
safe. -/
theorem warmupKernels_safe {R T : Type} {ops : RunnerTables R T} (cfg : Config)
    (hops : ops.Lawful cfg.maxNumSeqs cfg.kvCacheSpecs.length) {runner : Runner R T}
    (hempty : ops.tables runner = fun _ => none) (hreqs : 0 < cfg.numReqs)
    (hblocks : cfg.maxBlocksPerReq < cfg.numBlocks) :
    ∃ outputs, cfg.warmupKernels = .ok outputs ∧
      RunSafe ops cfg cfg.requests cfg.maxNumBatchedTokens runner outputs := by
  have hslots : cfg.requests.length ≤ cfg.maxNumSeqs := by
    rw [Config.requests, List.length_map, List.length_range]
    exact (numReqs_le cfg).1
  obtain ⟨outputs, hrun, hsafe⟩ := warmupKernels_tablesSafe cfg hreqs hblocks
  exact ⟨outputs, hrun, hsafe.runSafe hops hslots (represents_empty hempty)⟩

/-- A hybrid model with two drafts for each request. -/
def warmupSample : Config where
  kvCacheSpecs := [.layer (.paged ⟨2, by decide⟩), .uniformType (.mamba ⟨6, by decide⟩ 2 false),
    .layer .circularBuffer]
  reservation := ⟨2, 64, 0⟩
  numBlocks := 40
  maxNumSeqs := 4
  maxNumBatchedTokens := 12
  numSpecSteps := 2
  decodeQueryLen := 3
  isPoolingModel := false
  isMmEncoderOnly := false
  decodeQueryLen_pos := by decide

theorem warmupKernels_safe_sample : ∃ outputs, warmupSample.warmupKernels = .ok outputs ∧
    RunSafe slotTables warmupSample warmupSample.requests 12 (emptyRunner 4) outputs :=
  warmupKernels_safe warmupSample (slotTables_lawful 4 3) (tables_emptyRunner 4) (by decide)
    (by decide)

/-! ## The mixed warmup -/

/-- The update of a request does not see a new one. -/
theorem update_add {new : NewRequestData} {cached : CachedRequest}
    (hne : cached.reqId ≠ new.reqId) {tables' : BlockTables}
    (h : tables.update cached = some tables') :
    (tables.add new).update cached = some (tables'.add new) := by
  obtain ⟨table, htable, hrest⟩ := Option.bind_eq_some_iff.mp h
  have hsame : tables.add new cached.reqId = some table :=
    (Function.update_of_ne hne ..).trans htable
  cases hnew : cached.newBlockIds with
  | none =>
      rw [hnew] at hrest
      obtain rfl := Option.some.inj hrest
      exact BlockTables.update_none hsame hnew
  | some newBlockIds =>
      rw [hnew] at hrest
      obtain ⟨hlength, hrest⟩ := Option.ite_none_right_eq_some.mp hrest
      obtain rfl := Option.some.inj hrest
      rw [BlockTables.update_some hsame hnew hlength]
      exact congrArg some (Function.update_comm hne.symm _ _ tables)

/-- A request without blocks may be added to those looked at. -/
theorem StepSafe.append {tokens : Nat} {output : SchedulerOutput}
    (h : StepSafe cfg reqs tokens tables output) {more : List RequestId}
    (hmore : ∀ id ∈ more, tables id = none) :
    StepSafe cfg (reqs ++ more) tokens tables output where
  distinct := by
    have hempty : (more.flatMap fun id => ((tables id).getD []).flatten) = [] :=
      List.flatMap_eq_nil_iff.mpr fun id hid => by rw [hmore id hid]; rfl
    rw [List.flatMap_append, hempty, List.append_nil]
    exact h.distinct
  inPool := fun id table htable =>
    ⟨List.mem_append_left _ (h.inPool id table htable).1, (h.inPool id table htable).2⟩
  reserved := h.reserved
  covered := h.covered
  newRows := fun req hreq =>
    ⟨List.mem_append_left _ (h.newRows req hreq).1, (h.newRows req hreq).2⟩
  known := h.known
  total := h.total
  budget := h.budget

theorem snd_issueAll_deltas {a b : Nat} (next : Int)
    (h : (cfg.deltas a b).any (· != 0) = false) : (issueAll next (cfg.deltas a b)).2 = next := by
  have hzero : ∀ delta ∈ cfg.deltas a b, delta = 0 := by
    intro delta hdelta
    simpa using List.any_eq_false.mp h delta hdelta
  rw [issueAll_snd, List.sum_eq_zero hzero, Int.add_zero]

theorem mixedDeltas_eq (cfg : Config) :
    List.zipWith (fun (decode prefill : Nat) => (decode : Int) - prefill) (cfg.blockCounts 3)
      (cfg.blockCounts 2) = cfg.deltas 2 3 := by
  rw [Config.deltas, List.zipWith_map_right]
  rfl

/-- The prefill of the request that decodes later. -/
theorem mixedDecode_stepSafe (h : Held cfg [.mixedDecode] (fun _ => 2) next tables)
    (hpool : next ≤ cfg.numBlocks) {blockIds : List (List Int)}
    (hrows : blockIds.length = cfg.kvCacheSpecs.length) {numTokens : Nat}
    (htokens : 2 ≤ numTokens) (hseqs : 1 ≤ cfg.maxNumSeqs) :
    StepSafe cfg [.mixedDecode] numTokens tables {
      scheduledNewReqs := [{
        reqId := .mixedDecode
        prefillTokenIds := List.range 2
        blockIds := blockIds }]
      numScheduledTokens := [(.mixedDecode, 2)]
      totalNumScheduledTokens := 2
      numCommonPrefixBlocks := cfg.kvCacheSpecs.map fun _ => 0 } := by
  apply h.stepSafe hpool
  · intro span (hspan : span ∈ [(RequestId.mixedDecode, 2)])
    obtain rfl := List.mem_singleton.mp hspan
    exact ⟨List.mem_singleton_self _, rfl⟩
  · intro q hq
    obtain rfl := List.mem_singleton.mp hq
    exact List.mem_singleton_self _
  · rfl
  · exact ⟨htokens, hseqs⟩
  · intro req hreq
    obtain rfl := List.mem_singleton.mp hreq
    exact ⟨List.mem_singleton_self _, hrows⟩

/-- The step that decodes it beside the prefill of the other request. -/
theorem mixedPrefill_stepSafe {numTokens : Nat}
    (h : Held cfg [.mixedDecode, .mixedPrefill]
      (Function.update (Function.update (fun _ => 2) .mixedDecode 3) .mixedPrefill
        (numTokens - 1)) next tables)
    (hpool : next ≤ cfg.numBlocks) (newBlockIds : Option (List (List Int)))
    {blockIds : List (List Int)} (hrows : blockIds.length = cfg.kvCacheSpecs.length)
    (htokens : 3 ≤ numTokens) (hseqs : 2 ≤ cfg.maxNumSeqs) :
    StepSafe cfg [.mixedDecode, .mixedPrefill] numTokens tables {
      scheduledCachedReqs := [{
        reqId := .mixedDecode
        numComputedTokens := 2
        newBlockIds := newBlockIds }]
      scheduledNewReqs := [{
        reqId := .mixedPrefill
        prefillTokenIds := List.range (numTokens - 1)
        blockIds := blockIds }]
      numScheduledTokens := [(.mixedDecode, 1), (.mixedPrefill, numTokens - 1)]
      totalNumScheduledTokens := numTokens
      numCommonPrefixBlocks := cfg.kvCacheSpecs.map fun _ => 0 } := by
  apply h.stepSafe hpool
  · intro span (hspan : span ∈ [(RequestId.mixedPrefill, 0 + (numTokens - 1)), (.mixedDecode, 3)])
    rcases List.mem_pair.mp hspan with rfl | rfl
    · exact ⟨List.mem_cons_of_mem _ (List.mem_singleton_self _),
        (Nat.zero_add (numTokens - 1) : 0 + (numTokens - 1) = numTokens - 1)⟩
    · exact ⟨List.mem_cons_self, rfl⟩
  · intro q hq
    show q.1 ∈ [RequestId.mixedPrefill, .mixedDecode]
    rcases List.mem_pair.mp hq with rfl | rfl
    · exact List.mem_cons_of_mem _ (List.mem_singleton_self _)
    · exact List.mem_cons_self
  · show numTokens = 1 + ((numTokens - 1) + 0)
    omega
  · exact ⟨Nat.le_refl _, hseqs⟩
  · intro req hreq
    obtain rfl := List.mem_singleton.mp hreq
    exact ⟨List.mem_cons_of_mem _ (List.mem_singleton_self _), hrows⟩

theorem mixedWarmup_tablesSafe (cfg : Config) (numTokens : Nat) {outputs : List SchedulerOutput}
    (h : cfg.mixedWarmup numTokens = some outputs) :
    TablesSafe cfg [.mixedDecode, .mixedPrefill] numTokens (fun _ => none) outputs := by
  by_cases hskip : cfg.isPoolingModel ∨ cfg.maxNumSeqs < 2 ∨ numTokens < 3 ∨
      cfg.numBlocks ≤ cfg.mixedRequiredBlocks numTokens
  · rw [Config.mixedWarmup, if_pos hskip] at h
    cases h
  rw [Config.mixedWarmup, if_neg hskip] at h
  obtain rfl := Option.some.inj h
  have hseqs : 2 ≤ cfg.maxNumSeqs := by omega
  have hthree : 3 ≤ numTokens := by omega
  have hblocks : (cfg.blockCounts 3).sum + (cfg.blockCounts (numTokens - 1)).sum <
      cfg.numBlocks := by
    rw [Config.mixedRequiredBlocks] at hskip
    omega
  rw [mixedDeltas_eq]
  let counts (n : Nat) : List Int := (cfg.blockCounts n).map Int.ofNat
  let afterPrefill : Int := (issueAll 1 (counts 2)).2
  let decodeReq : NewRequestData := {
    reqId := .mixedDecode
    prefillTokenIds := List.range 2
    blockIds := (issueAll 1 (counts 2)).1 }
  let cached : CachedRequest := {
    reqId := .mixedDecode
    numComputedTokens := 2
    newBlockIds := if (cfg.deltas 2 3).any (· != 0) then
      some (issueAll afterPrefill (cfg.deltas 2 3)).1 else none }
  let afterDecode : Int := (issueAll afterPrefill (cfg.deltas 2 3)).2
  let prefillReq : NewRequestData := {
    reqId := .mixedPrefill
    prefillTokenIds := List.range (numTokens - 1)
    blockIds := (issueAll afterDecode (counts (numTokens - 1))).1 }
  have hfirst : Held cfg [.mixedDecode] (fun _ => 2) afterPrefill
      (BlockTables.add (fun _ => none) decodeReq) := by
    have hadd := (held_nil cfg fun _ => 2).add decodeReq List.not_mem_nil 2 rfl
    rwa [Function.update_eq_self] at hadd
  obtain ⟨tables', hupdate, hgrown⟩ :=
    hfirst.update cached (List.mem_singleton_self _) (Nat.le_succ 2) rfl
  have hcounter : (if (cfg.deltas 2 3).any (· != 0) then afterDecode else afterPrefill) =
      afterDecode := by
    cases hany : (cfg.deltas 2 3).any (· != 0) with
    | true => rfl
    | false => exact (snd_issueAll_deltas afterPrefill hany).symm
  have hgrown' : Held cfg [.mixedDecode] (Function.update (fun _ => 2) .mixedDecode 3)
      afterDecode tables' := hcounter ▸ hgrown
  have hboth := hgrown'.add prefillReq
    (fun hmem => RequestId.noConfusion (List.mem_singleton.mp hmem)) (numTokens - 1) rfl
  have hfirstPool : afterPrefill ≤ cfg.numBlocks := by
    have hmono : (cfg.blockCounts 2).sum ≤ (cfg.blockCounts 3).sum :=
      blockCounts_sum_mono (Nat.le_succ 2)
    have hnext : afterPrefill = 1 + (((cfg.blockCounts 2).sum + 0 : Nat) : Int) := hfirst.next_eq
    omega
  have hbothPool : (issueAll afterDecode (counts (numTokens - 1))).2 ≤ cfg.numBlocks := by
    have hnext : (issueAll afterDecode (counts (numTokens - 1))).2 =
        1 + (((cfg.blockCounts 3).sum + ((cfg.blockCounts (numTokens - 1)).sum + 0) : Nat) : Int) :=
      hboth.next_eq
    omega
  have hdecodeSafe := mixedDecode_stepSafe hfirst hfirstPool (length_issueAll_blockCounts cfg 2 1)
    (Nat.le_of_succ_le hthree) (Nat.le_of_succ_le hseqs)
  have hmixedSafe := mixedPrefill_stepSafe hboth hbothPool cached.newBlockIds
    (length_issueAll_blockCounts cfg (numTokens - 1) afterDecode) hthree hseqs
  have hmixed : ((BlockTables.add (fun _ => none) decodeReq).add prefillReq).update cached =
      some (tables'.add prefillReq) :=
    update_add RequestId.noConfusion hupdate
  refine ⟨_, rfl, ?_, _, ?_, hmixedSafe, hboth.finish numTokens⟩
  · exact hdecodeSafe.append fun id hid => by
      obtain rfl := List.mem_singleton.mp hid
      rfl
  · rw [BlockTables.run_of_notFinished _ rfl]
    exact (bind_pure _).trans hmixed

/-- Whenever the mixed warmup is not skipped its outputs are accepted and safe. -/
theorem mixedWarmup_safe {R T : Type} {ops : RunnerTables R T} (cfg : Config)
    (hops : ops.Lawful cfg.maxNumSeqs cfg.kvCacheSpecs.length) {runner : Runner R T}
    (hempty : ops.tables runner = fun _ => none) (numTokens : Nat)
    {outputs : List SchedulerOutput} (h : cfg.mixedWarmup numTokens = some outputs) :
    RunSafe ops cfg [.mixedDecode, .mixedPrefill] numTokens runner outputs := by
  have hslots : [RequestId.mixedDecode, .mixedPrefill].length ≤ cfg.maxNumSeqs := by
    by_contra hmany
    have hfew : cfg.maxNumSeqs < 2 := Nat.lt_of_not_le hmany
    rw [Config.mixedWarmup, if_pos (Or.inr (Or.inl hfew))] at h
    cases h
  exact (mixedWarmup_tablesSafe cfg numTokens h).runSafe hops hslots (represents_empty hempty)

theorem mixedWarmup_safe_sample : ∃ outputs, warmupSample.mixedWarmup 5 = some outputs ∧
    RunSafe slotTables warmupSample [.mixedDecode, .mixedPrefill] 5 (emptyRunner 4) outputs :=
  ⟨_, rfl, mixedWarmup_safe warmupSample (slotTables_lawful 4 3) (tables_emptyRunner 4) 5 rfl⟩

end FlashNext.Ports.Warmup
