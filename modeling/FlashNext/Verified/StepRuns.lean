import Mathlib.Logic.Basic
import Mathlib.Data.List.Basic

/-!
# Runs of a partial step function

A system is a partial function `step : S → A → Option S`: `none` means that
the action is not enabled.  This module supplies the two ways in which the
ports of this package talk about runs of such a system:

* `Run step ok s as t`, the relational reading, in which every step must in
  addition meet a condition `ok` on the state *before* the step.  Taking
  `ok := anyStep` gives all runs;
* `exec`, the executable reading of a list of actions, used to evaluate a
  concrete schedule.

The two rules that carry every proof about runs are `Run.invariant` and
`run_of_exec`; `foldl_invariant` and `foldlM_invariant` are their counterparts
for a loop inside one step.
-/

namespace FlashNext.Verified.StepRuns

variable {S A : Type*}

/-- `Run step ok s as t`: the actions `as` lead from `s` to `t`, and every
one of them meets `ok` in the state it is taken in. -/
inductive Run (step : S → A → Option S) (ok : S → A → Prop) :
    S → List A → S → Prop
  | nil (s : S) : Run step ok s [] s
  | cons {s t u : S} {a : A} {as : List A} :
      ok s a → step s a = some t → Run step ok t as u →
        Run step ok s (a :: as) u

/-- The condition every step meets. -/
def anyStep (_ : S) (_ : A) : Prop := True

instance (s : S) (a : A) : Decidable (anyStep s a) :=
  inferInstanceAs (Decidable True)

/-- Execute a list of actions; `none` as soon as one is not enabled or does
not meet the condition. -/
def exec (step : S → A → Option S) (ok : S → A → Prop)
    [∀ s a, Decidable (ok s a)] : S → List A → Option S
  | s, [] => some s
  | s, a :: as =>
      if ok s a then
        match step s a with
        | none => none
        | some t => exec step ok t as
      else none

variable {step : S → A → Option S} {ok ok' : S → A → Prop}

/-- What holds at the start and is preserved by every step that meets the
condition holds at the end of the run. -/
theorem Run.invariant {Inv : S → Prop}
    (hstep : ∀ s a t, Inv s → ok s a → step s a = some t → Inv t)
    {s t : S} {as : List A} (hrun : Run step ok s as t) (h : Inv s) :
    Inv t := by
  induction hrun with
  | nil s => exact h
  | cons hok hs _ ih => exact ih (hstep _ _ _ h hok hs)

/-- A run may be relaxed to a weaker condition. -/
theorem Run.mono (hok : ∀ s a, ok s a → ok' s a) {s t : S} {as : List A}
    (hrun : Run step ok s as t) : Run step ok' s as t := by
  induction hrun with
  | nil s => exact .nil s
  | cons hguard hs _ ih => exact .cons (hok _ _ hguard) hs ih

/-- An executed schedule is a run. -/
theorem run_of_exec [∀ s a, Decidable (ok s a)] {s t : S} {as : List A}
    (h : exec step ok s as = some t) : Run step ok s as t := by
  induction as generalizing s with
  | nil =>
      obtain rfl : s = t := by simpa [exec] using h
      exact .nil s
  | cons a as ih =>
      rw [exec] at h
      split at h
      case isFalse => cases h
      case isTrue hok =>
        cases hs : step s a with
        | none => simp [hs] at h
        | some u =>
            rw [hs] at h
            exact .cons hok hs (ih h)

/-! ## Loops

A loop over a list inside one step. -/

variable {P : S → Prop} {s t : S} {as : List A}

theorem foldl_invariant {f : S → A → S} (hf : ∀ s a, P s → P (f s a))
    (h : P s) : P (as.foldl f s) := by
  induction as generalizing s with
  | nil => exact h
  | cons a as ih => exact ih (hf s a h)

theorem foldlM_invariant {f : S → A → Option S}
    (hf : ∀ s a t, a ∈ as → P s → f s a = some t → P t)
    (hfold : as.foldlM f s = some t) (h : P s) : P t := by
  induction as generalizing s with
  | nil =>
      obtain rfl : s = t := by simpa using hfold
      exact h
  | cons a as ih =>
      rw [List.foldlM_cons] at hfold
      obtain ⟨u, hu, hrest⟩ := Option.bind_eq_some_iff.mp hfold
      exact ih (fun s b t hb => hf s b t (List.mem_cons_of_mem _ hb)) hrest
        (hf s a u List.mem_cons_self h hu)

end FlashNext.Verified.StepRuns
