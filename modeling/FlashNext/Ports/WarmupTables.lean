import FlashNext.Ports.WarmupBlocks
import Mathlib.Logic.Function.Basic
import Mathlib.Data.List.Basic

/-!
# The tables behind a runner

A runner finds the blocks of a request through its slot.  What counts is the rows it finds for
each known request: a new request brings its rows, a known one has blocks appended, a finished
one is forgotten.  The runner simulates this, as long as the slots do not run out.
-/

namespace FlashNext.Ports.Warmup

/-- The blocks of the known requests, a row for each cache group. -/
abbrev BlockTables := RequestId → Option (List (List Int))

/-! ## The tables by themselves -/

def BlockTables.finish (tables : BlockTables) (finished : List RequestId) : BlockTables :=
  fun id => if id ∈ finished then none else tables id

theorem BlockTables.finish_nil (tables : BlockTables) : tables.finish [] = tables :=
  funext fun _ => if_neg List.not_mem_nil

def BlockTables.add (tables : BlockTables) (req : NewRequestData) : BlockTables :=
  Function.update tables req.reqId (some req.blockIds)

/-- The blocks of a known request; they come for every cache group. -/
def BlockTables.update (tables : BlockTables) (req : CachedRequest) : Option BlockTables := do
  let table ← tables req.reqId
  match req.newBlockIds with
  | none => return tables
  | some newBlockIds =>
      if newBlockIds.length = table.length then
        return Function.update tables req.reqId (some (List.zipWith (· ++ ·) table newBlockIds))
      else none

theorem BlockTables.update_none {tables : BlockTables} {req : CachedRequest}
    {table : List (List Int)} (htable : tables req.reqId = some table)
    (hnew : req.newBlockIds = none) : tables.update req = some tables := by
  rw [BlockTables.update, htable, hnew]
  rfl

theorem BlockTables.update_some {tables : BlockTables} {req : CachedRequest}
    {table newBlockIds : List (List Int)} (htable : tables req.reqId = some table)
    (hnew : req.newBlockIds = some newBlockIds) (hlength : newBlockIds.length = table.length) :
    tables.update req =
      some (Function.update tables req.reqId (some (List.zipWith (· ++ ·) table newBlockIds))) := by
  rw [BlockTables.update, htable, hnew]
  exact if_pos hlength

/-- The tables behind an output. -/
def BlockTables.run (tables : BlockTables) (output : SchedulerOutput) : Option BlockTables :=
  output.scheduledCachedReqs.foldlM BlockTables.update
    (output.scheduledNewReqs.foldl BlockTables.add (tables.finish output.finishedReqIds))

theorem BlockTables.run_of_notFinished (tables : BlockTables) {output : SchedulerOutput}
    (h : output.finishedReqIds = []) :
    tables.run output = output.scheduledCachedReqs.foldlM BlockTables.update
      (output.scheduledNewReqs.foldl BlockTables.add tables) := by
  rw [BlockTables.run, h, BlockTables.finish_nil]

/-! ## What the runner calls -/

section Runner

variable {R T : Type}

/-- A new request is given a free slot while fewer than `maxNumReqs` requests are known, and the
blocks of a slot are replaced or appended to, in each of the `groups` rows. -/
structure RunnerTables.Lawful (ops : RunnerTables R T) (maxNumReqs groups : Nat) : Prop where
  addState : ∀ states (req : NewRequestData) (known : List RequestId),
    ops.reqIdToIndex states req.reqId = none →
    (∀ id, ops.reqIdToIndex states id ≠ none → id ∈ known) → known.length < maxNumReqs →
    ∃ next index, ops.addState states req = .ok next ∧
      (∀ id, ops.reqIdToIndex states id ≠ some index) ∧
      ops.reqIdToIndex next = Function.update (ops.reqIdToIndex states) req.reqId (some index)
  removeState : ∀ states id,
    ops.reqIdToIndex (ops.removeState states id) =
      Function.update (ops.reqIdToIndex states) id none
  overwritten : ∀ blocks index (ids : List (List Int)), ids.length = groups →
    ops.blockIds (ops.appendBlockIds blocks index ids true) =
      Function.update (ops.blockIds blocks) index ids
  appended : ∀ blocks index (ids : List (List Int)),
    ids.length = (ops.blockIds blocks index).length →
    ops.blockIds (ops.appendBlockIds blocks index ids false) =
      Function.update (ops.blockIds blocks) index
        (List.zipWith (· ++ ·) (ops.blockIds blocks index) ids)

/-- The rows that the runner finds for a request. -/
def RunnerTables.tables (ops : RunnerTables R T) (runner : Runner R T) : BlockTables :=
  fun id => (ops.reqIdToIndex runner.reqStates id).map (ops.blockIds runner.blockTables)

/-- The runner finds these tables, has a slot of its own for each known request, and knows no
others than `reqs`. -/
structure Represents (ops : RunnerTables R T) (reqs : List RequestId) (runner : Runner R T)
    (tables : BlockTables) : Prop where
  tables : ops.tables runner = tables
  slots : ∀ a b index, ops.reqIdToIndex runner.reqStates a = some index →
    ops.reqIdToIndex runner.reqStates b = some index → a = b
  known : ∀ id, ops.reqIdToIndex runner.reqStates id ≠ none → id ∈ reqs

variable {ops : RunnerTables R T} {maxNumReqs groups : Nat} {reqs : List RequestId}
  {runner : Runner R T} {tables : BlockTables}

theorem represents_empty (hempty : ops.tables runner = fun _ => none) :
    Represents ops reqs runner fun _ => none := by
  have hnone : ∀ id, ops.reqIdToIndex runner.reqStates id = none :=
    fun id => Option.map_eq_none_iff.mp (congrFun hempty id)
  refine ⟨hempty, fun a b index ha _ => ?_, fun id hid => absurd (hnone id) hid⟩
  rw [hnone a] at ha
  cases ha

/-- A known request has the slot at which its rows are found. -/
theorem Represents.slot (h : Represents ops reqs runner tables) {id : RequestId}
    {table : List (List Int)} (htable : tables id = some table) :
    ∃ index, ops.reqIdToIndex runner.reqStates id = some index ∧
      ops.blockIds runner.blockTables index = table := by
  rw [← h.tables] at htable
  exact Option.map_eq_some_iff.mp htable

/-! ## One call after the other -/

theorem removeRequest_represents (hops : ops.Lawful maxNumReqs groups)
    (h : Represents ops reqs runner tables) (id : RequestId) :
    Represents ops reqs (ops.removeRequest runner id) (Function.update tables id none) := by
  have hindex : ops.reqIdToIndex (ops.removeRequest runner id).reqStates =
      Function.update (ops.reqIdToIndex runner.reqStates) id none :=
    hops.removeState runner.reqStates id
  have hkept : ∀ a index, ops.reqIdToIndex (ops.removeRequest runner id).reqStates a =
      some index → ops.reqIdToIndex runner.reqStates a = some index := by
    intro a index ha
    rw [hindex] at ha
    by_cases heq : a = id
    · subst heq
      rw [Function.update_self] at ha
      cases ha
    · rwa [Function.update_of_ne heq] at ha
  constructor
  · funext a
    rw [← h.tables, RunnerTables.tables, hindex]
    by_cases heq : a = id
    · subst heq
      rw [Function.update_self, Function.update_self]
      rfl
    · rw [Function.update_of_ne heq, Function.update_of_ne heq]
      rfl
  · intro a b index ha hb
    exact h.slots a b index (hkept a index ha) (hkept b index hb)
  · intro a ha
    obtain ⟨index, hindex'⟩ := Option.ne_none_iff_exists'.mp ha
    apply h.known a
    rw [hkept a index hindex']
    exact Option.some_ne_none index

theorem removeRequests_represents (hops : ops.Lawful maxNumReqs groups)
    (h : Represents ops reqs runner tables) (ids : List RequestId) :
    Represents ops reqs (ids.foldl ops.removeRequest runner) (tables.finish ids) := by
  induction ids generalizing runner tables with
  | nil =>
      rw [BlockTables.finish_nil]
      exact h
  | cons id ids ih =>
      have hsame : BlockTables.finish (Function.update tables id none) ids =
          tables.finish (id :: ids) := by
        funext a
        by_cases heq : a = id
        · subst heq
          simp only [BlockTables.finish, Function.update_self, List.mem_cons_self, if_true,
            ite_self]
        · simp only [BlockTables.finish, Function.update_of_ne heq, List.mem_cons, heq, false_or]
      rw [← hsame]
      exact ih (removeRequest_represents hops h id)

/-- The order in which the requests are removed does not count. -/
theorem finishRequests_represents (hops : ops.Lawful maxNumReqs groups)
    (h : Represents ops reqs runner tables) (output : SchedulerOutput) :
    Represents ops reqs (ops.finishRequests runner output)
      (tables.finish output.finishedReqIds) := by
  have hsame : tables.finish (output.finishedReqIds.mergeSort fun a b =>
      decide (a.text ≤ b.text)) = tables.finish output.finishedReqIds := by
    funext id
    simp only [BlockTables.finish, List.mem_mergeSort]
  rw [← hsame]
  exact removeRequests_represents hops h _

theorem index_eq_ok {states : R} {id : RequestId} {index : Nat}
    (h : ops.reqIdToIndex states id = some index) : ops.index states id = .ok index := by
  rw [RunnerTables.index, h]

/-- A request of `reqs` that is not known finds a slot that no other request has. -/
theorem Represents.addState (hops : ops.Lawful maxNumReqs groups)
    (h : Represents ops reqs runner tables) (hreqs : reqs.length ≤ maxNumReqs)
    {req : NewRequestData} (hid : req.reqId ∈ reqs)
    (hunknown : ops.reqIdToIndex runner.reqStates req.reqId = none) :
    ∃ states index, ops.addState runner.reqStates req = .ok states ∧
      ops.reqIdToIndex states req.reqId = some index ∧
      (∀ a, a ≠ req.reqId →
        ops.reqIdToIndex states a = ops.reqIdToIndex runner.reqStates a) ∧
      ∀ a, ops.reqIdToIndex runner.reqStates a ≠ some index := by
  have hothers : ∀ id, ops.reqIdToIndex runner.reqStates id ≠ none →
      id ∈ reqs.erase req.reqId := by
    intro id hknown
    have hne : id ≠ req.reqId := fun heq => hknown (heq ▸ hunknown)
    exact (List.mem_erase_of_ne hne).mpr (h.known id hknown)
  have hroom : (reqs.erase req.reqId).length < maxNumReqs := by
    have hpos := List.length_pos_of_mem hid
    rw [List.length_erase_of_mem hid]
    omega
  obtain ⟨states, index, hadd, hfresh, hindex⟩ :=
    hops.addState runner.reqStates req _ hunknown hothers hroom
  refine ⟨states, index, hadd, ?_, fun a hne => ?_, hfresh⟩
  · rw [hindex, Function.update_self]
  · rw [hindex, Function.update_of_ne hne]

theorem addRequest_represents (hops : ops.Lawful maxNumReqs groups)
    (h : Represents ops reqs runner tables) (hreqs : reqs.length ≤ maxNumReqs)
    {req : NewRequestData} (hid : req.reqId ∈ reqs) (hgroups : req.blockIds.length = groups) :
    ∃ next, ops.addRequest runner req = .ok next ∧
      Represents ops reqs next (tables.add req) := by
  have hremoved := removeRequest_represents hops h req.reqId
  have hunknown : ops.reqIdToIndex (ops.removeRequest runner req.reqId).reqStates req.reqId =
      none := by
    have hnone := congrFun hremoved.tables req.reqId
    rw [Function.update_self] at hnone
    exact Option.map_eq_none_iff.mp hnone
  obtain ⟨states, index, hadd, hself, hother, hfresh⟩ :=
    hremoved.addState hops hreqs hid hunknown
  refine ⟨⟨states, ops.appendBlockIds runner.blockTables index req.blockIds true⟩, ?_, ?_, ?_, ?_⟩
  · rw [RunnerTables.addRequest, hadd]
    show (ops.index states req.reqId >>= _) = _
    rw [index_eq_ok hself]
    rfl
  · funext a
    show (ops.reqIdToIndex states a).map (ops.blockIds (ops.appendBlockIds _ _ _ true)) = _
    rw [hops.overwritten _ _ _ hgroups, BlockTables.add]
    by_cases heq : a = req.reqId
    · subst heq
      rw [hself, Function.update_self, Option.map_some, Function.update_self]
    · have hrow := congrFun hremoved.tables a
      rw [Function.update_of_ne heq] at hrow
      rw [hother a heq, Function.update_of_ne heq, ← hrow]
      apply Option.map_congr
      intro slot hslot
      exact Function.update_of_ne (fun hsame : slot = index => hfresh a (hsame ▸ hslot)) ..
  · -- the slot is the new request's alone, and the others keep theirs
    intro a b slot ha hb
    by_cases hareq : a = req.reqId <;> by_cases hbreq : b = req.reqId
    · rw [hareq, hbreq]
    · rw [hareq, hself] at ha
      rw [hother b hbreq, ← ha] at hb
      exact absurd hb (hfresh b)
    · rw [hbreq, hself] at hb
      rw [hother a hareq, ← hb] at ha
      exact absurd ha (hfresh a)
    · rw [hother a hareq] at ha
      rw [hother b hbreq] at hb
      exact hremoved.slots a b slot ha hb
  · intro a hknown
    by_cases heq : a = req.reqId
    · rw [heq]
      exact hid
    · exact hremoved.known a (hother a heq ▸ hknown)

theorem updateRequest_represents (hops : ops.Lawful maxNumReqs groups)
    (h : Represents ops reqs runner tables) {req : CachedRequest} {tables' : BlockTables}
    (hupdate : tables.update req = some tables') :
    ∃ next, ops.updateRequest runner req = .ok next ∧ Represents ops reqs next tables' := by
  obtain ⟨table, htable, hrest⟩ := Option.bind_eq_some_iff.mp hupdate
  obtain ⟨index, hindex, hrows⟩ := h.slot htable
  rw [RunnerTables.updateRequest, index_eq_ok hindex]
  cases hnew : req.newBlockIds with
  | none =>
      rw [hnew] at hrest
      obtain rfl := Option.some.inj hrest
      exact ⟨runner, rfl, h⟩
  | some newBlockIds =>
      rw [hnew] at hrest
      obtain ⟨hlength, hrest⟩ := Option.ite_none_right_eq_some.mp hrest
      obtain rfl := Option.some.inj hrest
      refine ⟨_, rfl, ?_, h.slots, h.known⟩
      funext a
      show (ops.reqIdToIndex runner.reqStates a).map
        (ops.blockIds (ops.appendBlockIds runner.blockTables index newBlockIds false)) = _
      rw [hops.appended _ _ _ (hrows ▸ hlength), hrows]
      by_cases heq : a = req.reqId
      · subst heq
        rw [hindex, Function.update_self, Option.map_some, Function.update_self]
      · rw [Function.update_of_ne heq, ← h.tables]
        apply Option.map_congr
        intro slot hslot
        exact Function.update_of_ne
          (fun hsame : slot = index => heq (h.slots a req.reqId index (hsame ▸ hslot) hindex)) ..

/-! ## An output -/

theorem addRequests_represents (hops : ops.Lawful maxNumReqs groups)
    (h : Represents ops reqs runner tables) (hreqs : reqs.length ≤ maxNumReqs)
    {news : List NewRequestData}
    (hnews : ∀ req ∈ news, req.reqId ∈ reqs ∧ req.blockIds.length = groups) :
    ∃ next, news.foldlM ops.addRequest runner = .ok next ∧
      Represents ops reqs next (news.foldl BlockTables.add tables) := by
  induction news generalizing runner tables with
  | nil => exact ⟨runner, rfl, h⟩
  | cons req news ih =>
      obtain ⟨hid, hgroups⟩ := hnews req List.mem_cons_self
      obtain ⟨mid, hadd, hmid⟩ := addRequest_represents hops h hreqs hid hgroups
      obtain ⟨next, hrest, hnext⟩ :=
        ih hmid fun req' hreq' => hnews req' (List.mem_cons_of_mem req hreq')
      refine ⟨next, ?_, hnext⟩
      rw [List.foldlM_cons, hadd]
      exact hrest

theorem updateRequests_represents (hops : ops.Lawful maxNumReqs groups)
    (h : Represents ops reqs runner tables) {cached : List CachedRequest} {tables' : BlockTables}
    (hrun : cached.foldlM BlockTables.update tables = some tables') :
    ∃ next, cached.foldlM ops.updateRequest runner = .ok next ∧
      Represents ops reqs next tables' := by
  induction cached generalizing runner tables with
  | nil =>
      obtain rfl := Option.some.inj hrun
      exact ⟨runner, rfl, h⟩
  | cons req cached ih =>
      rw [List.foldlM_cons] at hrun
      obtain ⟨mid, hupdate, hrest⟩ := Option.bind_eq_some_iff.mp hrun
      obtain ⟨runner', hreq, hmid⟩ := updateRequest_represents hops h hupdate
      obtain ⟨next, hnext, hlast⟩ := ih hmid hrest
      refine ⟨next, ?_, hlast⟩
      rw [List.foldlM_cons, hreq]
      exact hnext

/-- The runner accepts an output that the tables accept, and is left with their tables. -/
theorem executeModel_represents (hops : ops.Lawful maxNumReqs groups)
    (h : Represents ops reqs runner tables) (hreqs : reqs.length ≤ maxNumReqs)
    {output : SchedulerOutput}
    (hnews : ∀ req ∈ output.scheduledNewReqs, req.reqId ∈ reqs ∧ req.blockIds.length = groups)
    {tables' : BlockTables} (hrun : tables.run output = some tables') :
    ∃ next, ops.executeModel runner output = .ok next ∧ Represents ops reqs next tables' := by
  obtain ⟨added, hadd, hmid⟩ :=
    addRequests_represents hops (finishRequests_represents hops h output) hreqs hnews
  obtain ⟨next, hnext, hlast⟩ := updateRequests_represents hops hmid hrun
  refine ⟨next, ?_, hlast⟩
  rw [RunnerTables.executeModel, hadd]
  exact hnext

end Runner

/-! ## A fixed number of slots -/

/-- Each slot has a holder at most, and each request a slot at most. -/
structure Slots (maxNumReqs : Nat) where
  holder : Fin maxNumReqs → Option RequestId
  unique : ∀ i j id, holder i = some id → holder j = some id → i = j

variable {n : Nat}

def Slots.index (s : Slots n) (id : RequestId) : Option Nat :=
  ((List.finRange n).find? fun i => decide (s.holder i = some id)).map Fin.val

theorem Slots.index_eq_some {s : Slots n} {id : RequestId} {index : Nat} :
    s.index id = some index ↔ ∃ i : Fin n, s.holder i = some id ∧ i.val = index := by
  have hfound : ∀ i : Fin n, ((List.finRange n).find? fun i => decide (s.holder i = some id)) =
      some i → s.holder i = some id := by
    intro i hfind
    simpa using List.find?_some hfind
  constructor
  · intro h
    obtain ⟨i, hfind, hi⟩ := Option.map_eq_some_iff.mp h
    exact ⟨i, hfound i hfind, hi⟩
  · rintro ⟨i, hholder, rfl⟩
    have hsome : ((List.finRange n).find? fun i => decide (s.holder i = some id)).isSome :=
      List.find?_isSome.mpr ⟨i, List.mem_finRange i, decide_eq_true hholder⟩
    obtain ⟨j, hfind⟩ := Option.isSome_iff_exists.mp hsome
    rw [Slots.index, hfind, Option.map_some, s.unique j i id (hfound j hfind) hholder]

theorem Slots.index_eq_none {s : Slots n} {id : RequestId} :
    s.index id = none ↔ ∀ i, s.holder i ≠ some id := by
  rw [Slots.index, Option.map_eq_none_iff, List.find?_eq_none]
  simp only [List.mem_finRange, decide_eq_true_eq, forall_const, ne_eq]

/-- The slot of a request becomes free. -/
def Slots.remove (s : Slots n) (id : RequestId) : Slots n where
  holder := fun i => if s.holder i = some id then none else s.holder i
  unique := fun i j a hi hj => s.unique i j a (Option.ite_none_left_eq_some.mp hi).2
    (Option.ite_none_left_eq_some.mp hj).2

theorem Slots.remove_ne (s : Slots n) (id : RequestId) (i : Fin n) :
    (s.remove id).holder i ≠ some id :=
  fun h => (Option.ite_none_left_eq_some.mp h).1 (Option.ite_none_left_eq_some.mp h).2

/-- A free slot is given to a request that holds none. -/
def Slots.give (s : Slots n) (i : Fin n) (id : RequestId)
    (hid : ∀ j, s.holder j ≠ some id) : Slots n where
  holder := Function.update s.holder i (some id)
  unique := by
    intro j k a hj hk
    by_cases hji : j = i <;> by_cases hki : k = i
    · rw [hji, hki]
    · rw [hji, Function.update_self] at hj
      rw [Function.update_of_ne hki, ← hj] at hk
      exact absurd hk (hid k)
    · rw [hki, Function.update_self] at hk
      rw [Function.update_of_ne hji, ← hk] at hj
      exact absurd hj (hid j)
    · rw [Function.update_of_ne hji] at hj
      rw [Function.update_of_ne hki] at hk
      exact s.unique j k a hj hk

theorem Slots.index_remove (s : Slots n) (id : RequestId) :
    (s.remove id).index = Function.update s.index id none := by
  funext a
  apply Option.ext
  intro index
  by_cases heq : a = id
  · subst heq
    rw [Function.update_self, Slots.index_eq_none.mpr (s.remove_ne a)]
  · rw [Function.update_of_ne heq, Slots.index_eq_some, Slots.index_eq_some]
    apply exists_congr
    intro i
    refine and_congr_left fun _ => ?_
    show (if s.holder i = some id then none else s.holder i) = some a ↔ _
    rw [Option.ite_none_left_eq_some]
    refine and_iff_right_of_imp fun hi hid => heq ?_
    exact Option.some.inj (hi.symm.trans hid)

theorem Slots.index_give (s : Slots n) {i : Fin n} (hfree : s.holder i = none) {id : RequestId}
    (hid : ∀ j, s.holder j ≠ some id) :
    (s.give i id hid).index = Function.update s.index id (some i.val) := by
  funext a
  apply Option.ext
  intro index
  rw [Slots.index_eq_some]
  show (∃ j, Function.update s.holder i (some id) j = some a ∧ j.val = index) ↔ _
  by_cases heq : a = id
  · subst heq
    rw [Function.update_self]
    constructor
    · rintro ⟨j, hj, rfl⟩
      by_cases hji : j = i
      · rw [hji]
      · rw [Function.update_of_ne hji] at hj
        exact absurd hj (hid j)
    · intro hindex
      exact ⟨i, Function.update_self .., Option.some.inj hindex⟩
  · rw [Function.update_of_ne heq, Slots.index_eq_some]
    apply exists_congr
    intro j
    by_cases hji : j = i
    · subst hji
      rw [Function.update_self, hfree]
      refine and_congr_left fun _ => iff_of_false (fun h => heq ?_) (Option.some_ne_none a).symm
      exact (Option.some.inj h).symm
    · rw [Function.update_of_ne hji]

/-- When fewer requests are known than there are slots, one slot is free. -/
theorem Slots.exists_free (s : Slots n) {known : List RequestId}
    (hknown : ∀ id, s.index id ≠ none → id ∈ known) (hroom : known.length < n) :
    ∃ i, s.holder i = none := by
  by_contra hfull
  have hheld : ∀ i, ∃ id, s.holder i = some id := by
    intro i
    exact Option.ne_none_iff_exists'.mp fun hnone => hfull ⟨i, hnone⟩
  choose held hheld using hheld
  have hinj : Function.Injective held := by
    intro i j heq
    exact s.unique i j (held i) (hheld i) (heq ▸ hheld j)
  have hsub : (List.finRange n).map held ⊆ known := by
    intro id hid
    obtain ⟨i, -, rfl⟩ := List.mem_map.mp hid
    apply hknown
    rw [Slots.index_eq_some.mpr ⟨i, hheld i, rfl⟩]
    exact Option.some_ne_none _
  have hlen := (List.subperm_of_subset ((List.nodup_finRange n).map hinj) hsub).length_le
  rw [List.length_map, List.length_finRange] at hlen
  omega

def Slots.add (s : Slots n) (id : RequestId) : Except RunnerError (Slots n) :=
  match (List.finRange n).find? fun i => ((s.remove id).holder i).isNone with
  | some i => .ok ((s.remove id).give i id (s.remove_ne id))
  | none => .error .noFreeIndices

/-- A runner with a fixed number of slots. -/
def slotTables : RunnerTables (Slots n) (Nat → List (List Int)) where
  reqIdToIndex := Slots.index
  addState := fun s req => s.add req.reqId
  removeState := Slots.remove
  blockIds := id
  appendBlockIds := fun blocks index ids overwrite => Function.update blocks index
    (if overwrite then ids else List.zipWith (· ++ ·) (blocks index) ids)

theorem slotTables_lawful (n groups : Nat) :
    (slotTables : RunnerTables (Slots n) _).Lawful n groups where
  addState := by
    intro s req known hnone hknown hroom
    have hindex : (s.remove req.reqId).index = s.index := by
      rw [Slots.index_remove, ← hnone]
      exact Function.update_eq_self ..
    obtain ⟨free, hfree⟩ := (s.remove req.reqId).exists_free (hindex ▸ hknown) hroom
    have hsome : ((List.finRange n).find?
        fun i => ((s.remove req.reqId).holder i).isNone).isSome :=
      List.find?_isSome.mpr ⟨free, List.mem_finRange free, by rw [hfree]; rfl⟩
    obtain ⟨i, hfind⟩ := Option.isSome_iff_exists.mp hsome
    have hi : (s.remove req.reqId).holder i = none :=
      Option.isNone_iff_eq_none.mp (List.find?_some hfind :)
    refine ⟨(s.remove req.reqId).give i req.reqId (s.remove_ne req.reqId), i.val, ?_, ?_, ?_⟩
    · show s.add req.reqId = _
      rw [Slots.add, hfind]
    · intro id hid
      have hheld : (s.remove req.reqId).index id = some i.val := hindex ▸ hid
      obtain ⟨j, hj, hval⟩ := Slots.index_eq_some.mp hheld
      rw [Fin.ext hval, hi] at hj
      cases hj
    · exact (Slots.index_give _ hi _).trans (by rw [hindex]; rfl)
  removeState := Slots.index_remove
  overwritten := fun _ _ _ _ => rfl
  appended := fun _ _ _ _ => rfl

def emptyRunner (n : Nat) : Runner (Slots n) (Nat → List (List Int)) where
  reqStates := ⟨fun _ => none, fun _ _ _ h => absurd h (Option.some_ne_none _).symm⟩
  blockTables := fun _ => []

theorem tables_emptyRunner (n : Nat) : slotTables.tables (emptyRunner n) = fun _ => none := by
  funext id
  have hnone : (emptyRunner n).reqStates.index id = none :=
    Slots.index_eq_none.mpr fun _ => (Option.some_ne_none id).symm
  show ((emptyRunner n).reqStates.index id).map _ = none
  rw [hnone]
  rfl

end FlashNext.Ports.Warmup
