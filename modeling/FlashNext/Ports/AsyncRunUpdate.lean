import FlashNext.Ports.AsyncRun

/-!
# What a scheduler output does to the runner

New requests and those that come back get a fresh row with all their tokens; a request that
stays keeps its row.  Each turn of a loop touches its own request only.
-/

namespace FlashNext.Ports.AsyncRun

open FlashNext.Verified.Checked

variable {κ : Type} [DecidableEq κ]

/-! ## New requests -/

/-- The state of a new request. -/
def newState (req : NewRequestData κ) : CachedRequestState :=
  ⟨req.promptTokenIds, [], req.numComputedTokens⟩

theorem foldlM_addNew {reqs : List (NewRequestData κ)} {u : Updating κ}
    (hnodup : (reqs.map (·.reqId)).Nodup) (hnew : ∀ req ∈ reqs, u.requests req.reqId = none) :
    ∃ u', reqs.foldlM Updating.addNew u = .ok u' ∧ u'.rows = u.rows ∧
      u'.reqsToAdd = u.reqsToAdd ++ reqs.map (fun req => (req.reqId, newState req)) ∧
      (∀ req ∈ reqs, u'.requests req.reqId = some (newState req)) ∧
      ∀ id ∉ reqs.map (·.reqId), u'.requests id = u.requests id := by
  induction reqs generalizing u with
  | nil => exact ⟨u, rfl, rfl, (List.append_nil _).symm, nofun, fun _ _ => rfl⟩
  | cons req reqs ih =>
      obtain ⟨hreq, hrest⟩ := List.nodup_cons.mp hnodup
      let u₁ : Updating κ := { u with
        requests := Function.update u.requests req.reqId (some (newState req))
        reqsToAdd := u.reqsToAdd ++ [(req.reqId, newState req)] }
      have hstep : u.addNew req = .ok u₁ := by
        rw [Updating.addNew, require_ok (hnew req List.mem_cons_self)]
        rfl
      have hne : ∀ req' ∈ reqs, req'.reqId ≠ req.reqId :=
        fun req' hmem heq => hreq (List.mem_map.mpr ⟨req', hmem, heq⟩)
      obtain ⟨u', hfold, hrows, hadd, hin, hout⟩ := ih (u := u₁) hrest fun req' hmem => by
        show Function.update u.requests req.reqId _ req'.reqId = none
        rw [Function.update_of_ne (hne req' hmem)]
        exact hnew req' (List.mem_cons_of_mem req hmem)
      refine ⟨u', ?_, hrows, ?_, ?_, ?_⟩
      · rw [List.foldlM_cons, hstep, ok_bind]
        exact hfold
      · rw [hadd, List.map_cons]
        show (u.reqsToAdd ++ [_]) ++ _ = _
        rw [List.append_assoc]
        rfl
      · intro req' hmem
        rcases List.mem_cons.mp hmem with rfl | htail
        · rw [hout _ hreq]
          exact Function.update_self ..
        · exact hin req' htail
      · intro id hid
        obtain ⟨hhead, htail⟩ := not_or.mp fun h => hid (List.mem_cons.mpr h)
        rw [hout id htail]
        exact Function.update_of_ne hhead ..

/-! ## Cached requests -/

/-- The state of a cached request behind the loop. -/
def cachedState (out : SchedulerOutput κ) (req : CachedRequestData κ) (row : Option BatchRow)
    (state : CachedRequestState) : CachedRequestState :=
  let computed := { state with numComputedTokens := req.numComputedTokens }
  if row.isNone then recoverOutput out req computed else computed

/-- The scheduler counts no fewer output tokens than the state holds, and a request that comes
back from a preemption has no row. -/
structure CachedOk (u : Updating κ) (req : CachedRequestData κ) (state : CachedRequestState) :
    Prop where
  known : u.requests req.reqId = some state
  outputs : state.outputTokenIds.length ≤ req.numOutputTokens
  resumed : req.resumed = false ∨ u.rows req.reqId = none

theorem updateCached_ok {u : Updating κ} {req : CachedRequestData κ} {state : CachedRequestState}
    (h : CachedOk u req state) (isLastRank : Bool) (out : SchedulerOutput κ) :
    u.updateCached isLastRank out req = .ok
      { requests := Function.update u.requests req.reqId
          (some (cachedState out req (u.rows req.reqId) state))
        rows := match u.rows req.reqId with
          | none => u.rows
          | some row => Function.update u.rows req.reqId (some (advanceRow isLastRank req row))
        reqsToAdd := match u.rows req.reqId with
          | none => u.reqsToAdd ++ [(req.reqId, cachedState out req none state)]
          | some _ => u.reqsToAdd } := by
  have htruncate : truncateOutput isLastRank req
      { state with numComputedTokens := req.numComputedTokens } (u.rows req.reqId) =
      ({ state with numComputedTokens := req.numComputedTokens }, u.rows req.reqId) :=
    if_neg fun hand => Nat.not_lt_of_le h.outputs hand.2
  rw [Updating.updateCached, h.known]
  simp only [htruncate]
  rw [require_ok h.resumed, ok_bind]
  cases hrow : u.rows req.reqId with
  | none => rfl
  | some row => rfl

/-- What the loop has done for the requests worked in. -/
structure Worked (isLastRank : Bool) (out : SchedulerOutput κ) (u u' : Updating κ)
    (reqs : List (CachedRequestData κ)) : Prop where
  state : ∀ req ∈ reqs, ∀ state, u.requests req.reqId = some state →
    u'.requests req.reqId = some (cachedState out req (u.rows req.reqId) state)
  row : ∀ req ∈ reqs, u'.rows req.reqId = (u.rows req.reqId).map (advanceRow isLastRank req)
  other : ∀ id ∉ reqs.map (·.reqId), u'.requests id = u.requests id ∧ u'.rows id = u.rows id
  added : u'.reqsToAdd.map Prod.fst = u.reqsToAdd.map Prod.fst ++
    (reqs.filter fun req => (u.rows req.reqId).isNone).map (·.reqId)

theorem foldlM_updateCached {reqs : List (CachedRequestData κ)} {u : Updating κ}
    (isLastRank : Bool) (out : SchedulerOutput κ) (hnodup : (reqs.map (·.reqId)).Nodup)
    (hok : ∀ req ∈ reqs, ∃ state, CachedOk u req state)
    (hadd : ∀ p ∈ u.reqsToAdd, u.requests p.1 = some p.2 ∧ p.1 ∉ reqs.map (·.reqId)) :
    ∃ u', reqs.foldlM (Updating.updateCached isLastRank out) u = .ok u' ∧
      Worked isLastRank out u u' reqs ∧ ∀ p ∈ u'.reqsToAdd, u'.requests p.1 = some p.2 := by
  induction reqs generalizing u with
  | nil =>
      exact ⟨u, rfl, ⟨nofun, nofun, fun _ _ => ⟨rfl, rfl⟩, (List.append_nil _).symm⟩,
        fun p hp => (hadd p hp).1⟩
  | cons req reqs ih =>
      obtain ⟨hreq, hrest⟩ := List.nodup_cons.mp hnodup
      obtain ⟨state, hstate⟩ := hok req List.mem_cons_self
      have hne : ∀ req' ∈ reqs, req'.reqId ≠ req.reqId :=
        fun req' hmem heq => hreq (List.mem_map.mpr ⟨req', hmem, heq⟩)
      have hstep := updateCached_ok hstate isLastRank out
      generalize hu₁ : Updating.mk _ _ _ = u₁ at hstep
      have hself : u₁.requests req.reqId =
          some (cachedState out req (u.rows req.reqId) state) := by
        rw [← hu₁]
        exact Function.update_self ..
      have hrow : u₁.rows req.reqId = (u.rows req.reqId).map (advanceRow isLastRank req) := by
        rw [← hu₁]
        cases hrow : u.rows req.reqId with
        | none => exact hrow
        | some row => exact Function.update_self ..
      have hother : ∀ id, id ≠ req.reqId →
          u₁.requests id = u.requests id ∧ u₁.rows id = u.rows id := by
        intro id hid
        rw [← hu₁]
        refine ⟨Function.update_of_ne hid .., ?_⟩
        cases hrow : u.rows req.reqId with
        | none => rfl
        | some row => exact Function.update_of_ne hid ..
      have hadded : ∀ p ∈ u₁.reqsToAdd, p ∈ u.reqsToAdd ∨
          (p.1 = req.reqId ∧ u.rows req.reqId = none ∧ p.2 = cachedState out req none state) := by
        intro p hp
        rw [← hu₁] at hp
        cases hrow : u.rows req.reqId with
        | none =>
            simp only [hrow] at hp
            rcases List.mem_append.mp hp with hold | hnew
            · exact Or.inl hold
            · obtain rfl := List.mem_singleton.mp hnew
              exact Or.inr ⟨rfl, rfl, rfl⟩
        | some row =>
            simp only [hrow] at hp
            exact Or.inl hp
      obtain ⟨u', hfold, hworked, hlast⟩ := ih (u := u₁) hrest
        (fun req' hmem => by
          obtain ⟨state', hok'⟩ := hok req' (List.mem_cons_of_mem req hmem)
          obtain ⟨hrequests, hrows⟩ := hother req'.reqId (hne req' hmem)
          exact ⟨state', ⟨hrequests.trans hok'.known, hok'.outputs, by
            rw [hrows]
            exact hok'.resumed⟩⟩)
        (fun p hp => by
          rcases hadded p hp with hold | ⟨hid, hnone, hval⟩
          · obtain ⟨hknown, hnot⟩ := hadd p hold
            obtain ⟨hhead, htail⟩ := not_or.mp fun h => hnot (List.mem_cons.mpr h)
            exact ⟨(hother p.1 hhead).1.trans hknown, htail⟩
          · rw [hid, hself, hnone, hval]
            exact ⟨rfl, hreq⟩)
      refine ⟨u', ?_, ⟨?_, ?_, ?_, ?_⟩, hlast⟩
      · rw [List.foldlM_cons, hstep, ok_bind]
        exact hfold
      · intro req' hmem state' hstate'
        rcases List.mem_cons.mp hmem with rfl | htail
        · obtain rfl := Option.some.inj (hstate.known.symm.trans hstate')
          rw [(hworked.other _ hreq).1, hself]
        · obtain ⟨hrequests, hrows⟩ := hother req'.reqId (hne req' htail)
          rw [hworked.state req' htail state' (hrequests.trans hstate'), hrows]
      · intro req' hmem
        rcases List.mem_cons.mp hmem with rfl | htail
        · rw [(hworked.other _ hreq).2, hrow]
        · rw [hworked.row req' htail, (hother req'.reqId (hne req' htail)).2]
      · intro id hid
        obtain ⟨hhead, htail⟩ := not_or.mp fun h => hid (List.mem_cons.mpr h)
        obtain ⟨hrequests, hrows⟩ := hworked.other id htail
        exact ⟨hrequests.trans (hother id hhead).1, hrows.trans (hother id hhead).2⟩
      · have hfilter : (reqs.filter fun req' => (u₁.rows req'.reqId).isNone) =
            reqs.filter fun req' => (u.rows req'.reqId).isNone :=
          List.filter_congr fun req' hmem => by rw [(hother req'.reqId (hne req' hmem)).2]
        rw [hworked.added, hfilter, ← hu₁]
        cases hrow : u.rows req.reqId with
        | none =>
            rw [List.filter_cons_of_pos (by rw [hrow]; rfl)]
            simp
        | some row =>
            rw [List.filter_cons_of_neg (by rw [hrow]; exact Bool.false_ne_true)]

/-! ## Rows that are added -/

/-- The row is filled with the tokens and the counts of a request; what lies behind the tokens
is left open. -/
structure BatchRow.Holds (row : BatchRow) (state : CachedRequestState) : Prop where
  tokenIds : ∀ k token, (state.promptTokenIds ++ state.outputTokenIds)[k]? = some token →
    row.tokenIds k = token
  numTokensNoSpec : row.numTokensNoSpec = state.numTokens
  numPromptTokens : row.numPromptTokens = state.promptTokenIds.length
  numComputedTokens : row.numComputedTokens = state.numComputedTokens

/-- `InputBatch.add_request`, which is not among these sources, fills the row of the request. -/
def Memory.Lawful (memory : Memory κ) : Prop :=
  ∀ id state, (memory.addRequest id state).Holds state

variable {addRequest : κ → CachedRequestState → BatchRow}

theorem foldl_addRow_of_notMem {reqs : List (κ × CachedRequestState)}
    {rows : κ → Option BatchRow} {id : κ} (hid : id ∉ reqs.map Prod.fst) :
    reqs.foldl (addRow addRequest) rows id = rows id := by
  induction reqs generalizing rows with
  | nil => rfl
  | cons req reqs ih =>
      obtain ⟨hhead, htail⟩ := not_or.mp fun h => hid (List.mem_cons.mpr h)
      rw [List.foldl_cons, ih htail]
      exact Function.update_of_ne hhead ..

theorem foldl_addRow_of_mem {reqs : List (κ × CachedRequestState)}
    {rows : κ → Option BatchRow} {id : κ} {state : CachedRequestState}
    (hid : id ∈ reqs.map Prod.fst) (hstate : ∀ p ∈ reqs, p.1 = id → p.2 = state) :
    reqs.foldl (addRow addRequest) rows id = some (addRequest id state) := by
  induction reqs generalizing rows with
  | nil => cases hid
  | cons req reqs ih =>
      rw [List.foldl_cons]
      by_cases htail : id ∈ reqs.map Prod.fst
      · exact ih htail fun p hp => hstate p (List.mem_cons_of_mem req hp)
      · rw [foldl_addRow_of_notMem htail]
        have heq : id = req.1 := (List.mem_cons.mp hid).resolve_right htail
        rw [← hstate req List.mem_cons_self heq.symm, heq]
        exact Function.update_self ..

end FlashNext.Ports.AsyncRun
