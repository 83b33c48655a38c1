import Mathlib.Data.List.Basic

/-!
# Runs of equal elements

`runs` lists the maximal runs of equal neighbours, each with its length.
-/

namespace FlashNext.Verified.Runs

variable {α : Type*} [DecidableEq α]

/-- Put one more element in front. -/
def pushRun (a : α) : List (α × Nat) → List (α × Nat)
  | [] => [(a, 1)]
  | (b, c) :: rest => if a = b then (b, c + 1) :: rest else (a, 1) :: (b, c) :: rest

/-- The runs of a list, with their lengths. -/
def runs : List α → List (α × Nat)
  | [] => []
  | a :: rest => pushRun a (runs rest)

/-- Write the runs out again. -/
def expand (rs : List (α × Nat)) : List α := rs.flatMap fun r => List.replicate r.2 r.1

omit [DecidableEq α] in
@[simp] theorem expand_nil : expand ([] : List (α × Nat)) = [] := rfl

omit [DecidableEq α] in
@[simp] theorem expand_cons (r : α × Nat) (rs : List (α × Nat)) :
    expand (r :: rs) = List.replicate r.2 r.1 ++ expand rs := List.flatMap_cons

theorem expand_pushRun (a : α) (rs : List (α × Nat)) :
    expand (pushRun a rs) = a :: expand rs := by
  cases rs with
  | nil => rfl
  | cons r rs =>
      by_cases h : a = r.1
      · simp [pushRun, h, List.replicate_succ]
      · simp [pushRun, h]

/-- The runs spell the list. -/
theorem expand_runs (l : List α) : expand (runs l) = l := by
  induction l with
  | nil => rfl
  | cons a l ih =>
      show expand (pushRun a (runs l)) = a :: l
      rw [expand_pushRun, ih]

theorem pushRun_pos {a : α} {rs : List (α × Nat)} (h : ∀ r ∈ rs, 0 < r.2) :
    ∀ r ∈ pushRun a rs, 0 < r.2 := by
  match rs with
  | [] => simp [pushRun]
  | (b, c) :: rs =>
      intro r hr
      rw [pushRun] at hr
      by_cases hab : a = b
      · rw [if_pos hab] at hr
        rcases List.mem_cons.mp hr with rfl | hmem
        · exact Nat.succ_pos c
        · exact h r (List.mem_cons_of_mem _ hmem)
      · rw [if_neg hab] at hr
        rcases List.mem_cons.mp hr with rfl | hmem
        · exact Nat.one_pos
        · exact h r hmem

/-- No run is empty. -/
theorem runs_pos (l : List α) : ∀ r ∈ runs l, 0 < r.2 := by
  induction l with
  | nil => exact nofun
  | cons a l ih => exact pushRun_pos ih

end FlashNext.Verified.Runs
