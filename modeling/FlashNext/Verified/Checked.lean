import Mathlib.Data.List.Forall2

/-!
# Programs that may fail

A program that raises is a value of `Except`.  A run that succeeds is taken
apart at its binds.
-/

namespace FlashNext.Verified.Checked

universe u v

variable {ε : Type u} {α β : Type v}

/-- An assertion. -/
def require (c : Prop) [Decidable c] (e : ε) : Except ε Unit :=
  if c then .ok () else .error e

theorem require_eq_ok {c : Prop} [Decidable c] {e : ε} {u : Unit} :
    require c e = .ok u ↔ c := by
  unfold require
  split
  · next hc => exact iff_of_true rfl hc
  · next hc => exact iff_of_false (fun h => by cases h) hc

theorem require_ok {c : Prop} [Decidable c] {e : ε} (hc : c) :
    require c e = .ok () := if_pos hc

theorem bind_eq_ok {x : Except ε α} {f : α → Except ε β} {b : β} :
    (x >>= f) = .ok b ↔ ∃ a, x = .ok a ∧ f a = .ok b := by
  cases x with
  | error e =>
      constructor
      · intro h
        cases h
      · rintro ⟨_, h, _⟩
        cases h
  | ok a =>
      constructor
      · exact fun h => ⟨a, rfl, h⟩
      · rintro ⟨_, ha, hf⟩
        cases ha
        exact hf

theorem exists_bind_ok {x : Except ε α} {f : α → Except ε β} {a : α} (hx : x = .ok a)
    (hf : ∃ b, f a = .ok b) : ∃ b, (x >>= f) = .ok b := by
  obtain ⟨b, hb⟩ := hf
  exact ⟨b, bind_eq_ok.mpr ⟨a, hx, hb⟩⟩

theorem ok_bind (a : α) (f : α → Except ε β) : (Except.ok a >>= f) = f a := rfl

/-- A loop whose steps all succeed. -/
theorem mapM_ok {f : α → Except ε β} {g : α → β} {xs : List α}
    (h : ∀ x ∈ xs, f x = .ok (g x)) : xs.mapM f = .ok (xs.map g) := by
  induction xs with
  | nil => rfl
  | cons x xs ih =>
      have hrest := ih fun y hy => h y (List.mem_cons_of_mem x hy)
      rw [List.mapM_cons, h x List.mem_cons_self, hrest]
      rfl

/-- Loops whose steps agree. -/
theorem mapM_congr {f g : α → Except ε β} {xs : List α} (h : ∀ x ∈ xs, f x = g x) :
    xs.mapM f = xs.mapM g := by
  induction xs with
  | nil => rfl
  | cons x xs ih =>
      have hrest := ih fun y hy => h y (List.mem_cons_of_mem x hy)
      rw [List.mapM_cons, List.mapM_cons, h x List.mem_cons_self, hrest]

/-- A loop whose steps can only succeed with one value. -/
theorem mapM_eq_map {f : α → Except ε β} {g : α → β} (hfg : ∀ x y, f x = .ok y → y = g x)
    {xs : List α} {ys : List β} (h : xs.mapM f = .ok ys) : ys = xs.map g := by
  induction xs generalizing ys with
  | nil =>
      cases h
      rfl
  | cons x xs ih =>
      rw [List.mapM_cons] at h
      obtain ⟨y, hy, h⟩ := bind_eq_ok.mp h
      obtain ⟨rest, hrest, h⟩ := bind_eq_ok.mp h
      cases h
      rw [List.map_cons, hfg x y hy, ih hrest]

/-- A loop of checks. -/
theorem forM_check_iff {γ : Type*} {f : γ → Except ε PUnit.{v + 1}} {xs : List γ} :
    forM xs f = .ok ⟨⟩ ↔ ∀ x ∈ xs, f x = .ok ⟨⟩ := by
  induction xs with
  | nil => exact iff_of_true rfl fun x hx => absurd hx List.not_mem_nil
  | cons x xs ih =>
      rw [List.forM_cons, bind_eq_ok, List.forall_mem_cons, ← ih]
      constructor
      · rintro ⟨⟨⟩, hx, hxs⟩
        exact ⟨hx, hxs⟩
      · rintro ⟨hx, hxs⟩
        exact ⟨⟨⟩, hx, hxs⟩

/-- The steps of a loop that succeeds. -/
theorem forall₂_of_mapM {f : α → Except ε β} {xs : List α} {ys : List β}
    (h : xs.mapM f = .ok ys) : List.Forall₂ (fun x y => f x = .ok y) xs ys := by
  induction xs generalizing ys with
  | nil =>
      cases h
      exact List.Forall₂.nil
  | cons x xs ih =>
      rw [List.mapM_cons] at h
      obtain ⟨y, hy, h⟩ := bind_eq_ok.mp h
      obtain ⟨rest, hrest, h⟩ := bind_eq_ok.mp h
      cases h
      exact List.Forall₂.cons hy (ih hrest)

/-! ## Loops with a state -/

section Fold

variable {σ τ : Type v} {γ : Type*} {step : σ → γ → Except ε σ} {as : List γ} {s s' : σ}

/-- What every turn keeps holds after the loop. -/
theorem foldlM_invariant {Inv : σ → Prop}
    (hstep : ∀ a ∈ as, ∀ s s', Inv s → step s a = .ok s' → Inv s')
    (hs : Inv s) (h : as.foldlM step s = .ok s') : Inv s' := by
  induction as generalizing s with
  | nil =>
      cases h
      exact hs
  | cons a as ih =>
      rw [List.foldlM_cons] at h
      obtain ⟨t, ht, h⟩ := bind_eq_ok.mp h
      exact ih (fun b hb => hstep b (List.mem_cons_of_mem a hb))
        (hstep a List.mem_cons_self s t hs ht) h

/-- A loop whose turns all succeed. -/
theorem foldlM_ok {g : σ → γ → σ} (hstep : ∀ a ∈ as, ∀ s, step s a = .ok (g s a)) :
    as.foldlM step s = .ok (as.foldl g s) := by
  induction as generalizing s with
  | nil => rfl
  | cons a as ih =>
      rw [List.foldlM_cons, hstep a List.mem_cons_self s, List.foldl_cons]
      exact ih fun b hb => hstep b (List.mem_cons_of_mem a hb)

/-- A loop seen through a view of its state. -/
theorem foldlM_view {view : σ → τ} {viewed : τ → γ → Except ε τ}
    (hstep : ∀ a ∈ as, ∀ s, (step s a).map view = viewed (view s) a) :
    (as.foldlM step s).map view = as.foldlM viewed (view s) := by
  induction as generalizing s with
  | nil => rfl
  | cons a as ih =>
      have hrest := fun t => ih (s := t) fun b hb => hstep b (List.mem_cons_of_mem a hb)
      have ha := hstep a List.mem_cons_self s
      rw [List.foldlM_cons, List.foldlM_cons, ← ha]
      cases step s a with
      | error e => rfl
      | ok t => exact hrest t

end Fold

/-! ## Pointwise related lists -/

section Forall2

variable {α β γ : Type*} {R : α → β → Prop} {xs : List α} {ys : List β}

theorem filterMap_of_forall₂ {f : α → Option γ} {g : β → γ}
    (hfg : ∀ x y, R x y → f x = some (g y)) (h : List.Forall₂ R xs ys) :
    xs.filterMap f = ys.map g := by
  induction h with
  | nil => rfl
  | cons hxy _ ih => rw [List.filterMap_cons, hfg _ _ hxy, List.map_cons, ih]

theorem exists_of_forall₂ (h : List.Forall₂ R xs ys) {y : β} (hy : y ∈ ys) :
    ∃ x ∈ xs, R x y := by
  induction h with
  | nil => cases hy
  | @cons x z xs zs hxz _ ih =>
      rcases List.mem_cons.mp hy with rfl | hrest
      · exact ⟨x, List.mem_cons_self, hxz⟩
      · obtain ⟨w, hw, hwy⟩ := ih hrest
        exact ⟨w, List.mem_cons_of_mem x hw, hwy⟩

theorem getElem?_of_forall₂ (h : List.Forall₂ R xs ys) {i : Nat} {y : β}
    (hy : ys[i]? = some y) : ∃ x, xs[i]? = some x ∧ R x y := by
  induction h generalizing i with
  | nil => cases hy
  | @cons x z xs zs hxz _ ih =>
      cases i with
      | zero =>
          cases hy
          exact ⟨x, rfl, hxz⟩
      | succ i => exact ih hy

theorem getElem?_of_forall₂_left (h : List.Forall₂ R xs ys) {i : Nat} {x : α}
    (hx : xs[i]? = some x) : ∃ y, ys[i]? = some y ∧ R x y :=
  getElem?_of_forall₂ h.flip hx

end Forall2

end FlashNext.Verified.Checked
