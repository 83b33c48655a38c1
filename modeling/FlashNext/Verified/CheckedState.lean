import FlashNext.Verified.Checked

/-!
# Programs that may fail and keep their state

The state that a failing program leaves behind is part of its result.
-/

namespace FlashNext.Verified.CheckedState

open FlashNext.Verified.Checked

variable {σ ε α β : Type}

/-- Failure does not undo what was written before it. -/
abbrev Stateful (σ ε : Type) := ExceptT ε (StateM σ)

/-- The result and the state that is left. -/
def exec (x : Stateful σ ε α) (s : σ) : Except ε α × σ := x.run.run s

/-- A program that does not touch the state. -/
def lift (x : Except ε α) : Stateful σ ε α := ExceptT.mk (pure x)

/-- Puts the old state back on every exit. -/
def restoring (x : Stateful σ ε α) : Stateful σ ε α :=
  ExceptT.mk fun s => ((exec x s).1, s)

@[simp]
theorem exec_pure (a : α) (s : σ) :
    exec (pure a : Stateful σ ε α) s = (.ok a, s) := rfl

@[simp]
theorem exec_lift (x : Except ε α) (s : σ) : exec (lift x) s = (x, s) := rfl

@[simp]
theorem exec_get (s : σ) : exec (get : Stateful σ ε σ) s = (.ok s, s) := rfl

@[simp]
theorem exec_set (s s' : σ) :
    exec (set s' : Stateful σ ε PUnit) s = (.ok ⟨⟩, s') := rfl

@[simp]
theorem exec_restoring (x : Stateful σ ε α) (s : σ) :
    exec (restoring x) s = ((exec x s).1, s) := rfl

theorem exec_bind_of_ok {x : Stateful σ ε α} {f : α → Stateful σ ε β} {s s' : σ}
    {a : α} (h : exec x s = (.ok a, s')) : exec (x >>= f) s = exec (f a) s' := by
  change x.run.run s = (.ok a, s') at h
  change (x >>= f).run.run s = _
  rw [ExceptT.run_bind, StateT.run_bind, h]
  rfl

theorem exec_bind_of_error {x : Stateful σ ε α} {f : α → Stateful σ ε β} {s s' : σ}
    {e : ε} (h : exec x s = (.error e, s')) :
    exec (x >>= f) s = (.error e, s') := by
  change x.run.run s = (.error e, s') at h
  change (x >>= f).run.run s = _
  rw [ExceptT.run_bind, StateT.run_bind, h]
  rfl

/-- A run that succeeds is taken apart at its binds. -/
theorem exec_bind_eq_ok {x : Stateful σ ε α} {f : α → Stateful σ ε β} {s s' : σ}
    {b : β} : exec (x >>= f) s = (.ok b, s') ↔
      ∃ a s₁, exec x s = (.ok a, s₁) ∧ exec (f a) s₁ = (.ok b, s') := by
  cases hx : exec x s with
  | mk result s₁ =>
      cases result with
      | ok a =>
          rw [exec_bind_of_ok hx]
          constructor
          · exact fun h => ⟨a, s₁, rfl, h⟩
          · rintro ⟨_, _, heq, h⟩
            cases heq
            exact h
      | error e =>
          rw [exec_bind_of_error hx]
          constructor
          · intro h
            cases h
          · rintro ⟨_, _, heq, _⟩
            cases heq

theorem exec_lift_bind_eq_ok {x : Except ε α} {f : α → Stateful σ ε β} {s s' : σ}
    {b : β} : exec (lift x >>= f) s = (.ok b, s') ↔
      ∃ a, x = .ok a ∧ exec (f a) s = (.ok b, s') := by
  rw [exec_bind_eq_ok]
  constructor
  · rintro ⟨a, s₁, hx, h⟩
    rw [exec_lift] at hx
    cases hx
    exact ⟨a, rfl, h⟩
  · rintro ⟨a, rfl, h⟩
    exact ⟨a, s, rfl, h⟩

/-- The failure of a run comes from its first part or from the rest. -/
theorem exec_bind_eq_error {x : Stateful σ ε α} {f : α → Stateful σ ε β} {s s' : σ}
    {e : ε} (h : exec (x >>= f) s = (.error e, s')) :
    exec x s = (.error e, s') ∨
      ∃ a s₁, exec x s = (.ok a, s₁) ∧ exec (f a) s₁ = (.error e, s') := by
  cases hx : exec x s with
  | mk result s₁ =>
      cases result with
      | ok a =>
          right
          rw [exec_bind_of_ok hx] at h
          exact ⟨a, s₁, rfl, h⟩
      | error e' =>
          left
          rw [exec_bind_of_error hx] at h
          cases h
          rfl

/-! ## Programs that keep the state -/

/-- Every exit leaves the state as it was. -/
def Keeps (x : Stateful σ ε α) : Prop := ∀ s, (exec x s).2 = s

theorem keeps_pure (a : α) : Keeps (pure a : Stateful σ ε α) := fun _ => rfl

theorem keeps_lift (x : Except ε α) : Keeps (lift x : Stateful σ ε α) := fun _ => rfl

theorem keeps_get : Keeps (get : Stateful σ ε σ) := fun _ => rfl

theorem keeps_restoring (x : Stateful σ ε α) : Keeps (restoring x) := fun _ => rfl

theorem Keeps.bind {x : Stateful σ ε α} {f : α → Stateful σ ε β} (hx : Keeps x)
    (hf : ∀ a, Keeps (f a)) : Keeps (x >>= f) := by
  intro s
  have hs := hx s
  cases hrun : exec x s with
  | mk result s₁ =>
      rw [hrun] at hs
      cases result with
      | ok a =>
          rw [exec_bind_of_ok hrun, hf a s₁]
          exact hs
      | error e =>
          rw [exec_bind_of_error hrun]
          exact hs

/-- A loop of programs that keep the state runs each of them in it. -/
theorem forM_eq_ok {f : α → Stateful σ ε PUnit} (hkeep : ∀ x, Keeps (f x))
    {xs : List α} {s s' : σ} (h : exec (forM xs f) s = (.ok ⟨⟩, s')) :
    s' = s ∧ ∀ x ∈ xs, exec (f x) s = (.ok ⟨⟩, s) := by
  induction xs with
  | nil =>
      rw [List.forM_nil, exec_pure] at h
      cases h
      exact ⟨rfl, fun x hx => (List.not_mem_nil hx).elim⟩
  | cons x xs ih =>
      rw [List.forM_cons, exec_bind_eq_ok] at h
      obtain ⟨a, s₁, hx, hrest⟩ := h
      have hs₁ : s₁ = s := by
        rw [← hkeep x s, hx]
      subst hs₁
      obtain ⟨hs', hall⟩ := ih hrest
      refine ⟨hs', fun y hy => ?_⟩
      rcases List.mem_cons.mp hy with rfl | hmem
      · exact hx
      · exact hall y hmem

/-- A loop whose programs all succeed in one state succeeds in it. -/
theorem exec_forM_of_ok {f : α → Stateful σ ε PUnit} {xs : List α} {s : σ}
    (h : ∀ x ∈ xs, exec (f x) s = (.ok ⟨⟩, s)) :
    exec (forM xs f) s = (.ok ⟨⟩, s) := by
  induction xs with
  | nil =>
      rw [List.forM_nil]
      rfl
  | cons x xs ih =>
      rw [List.forM_cons, exec_bind_of_ok (h x List.mem_cons_self)]
      exact ih fun y hy => h y (List.mem_cons_of_mem _ hy)

end FlashNext.Verified.CheckedState
