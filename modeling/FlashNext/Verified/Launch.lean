import Mathlib.Data.List.Basic

/-!
# Launches of programs

The programs of a launch run in any order; program `r` stores `write r j` at index `j`,
or leaves the index alone.  What programs that agree have stored is there afterwards,
whatever the order.
-/

namespace FlashNext.Verified.Launch

variable {α : Type*}

/-- The programs of `order`, one after the other. -/
def launch (order : List Nat) (write : Nat → Nat → Option α) (buf : Nat → α) : Nat → α :=
  order.foldl (fun b r j => (write r j).getD (b j)) buf

variable {order : List Nat} {write : Nat → Nat → Option α} {buf : Nat → α} {j : Nat}

/-- No program stores at `j`. -/
theorem launch_of_none (h : ∀ r ∈ order, write r j = none) :
    launch order write buf j = buf j := by
  unfold launch
  induction order generalizing buf with
  | nil => rfl
  | cons r order ih =>
      rw [List.foldl_cons, ih fun r' hr' => h r' (List.mem_cons_of_mem r hr'),
        h r List.mem_cons_self]
      rfl

/-- One program stores `v` at `j`, and no other program stores anything else there. -/
theorem launch_of_some {r : Nat} {v : α} (hr : r ∈ order) (hv : write r j = some v)
    (h : ∀ r' ∈ order, ∀ v', write r' j = some v' → v' = v) :
    launch order write buf j = v := by
  have hlast : ∀ (order : List Nat) (buf : Nat → α),
      (∀ r' ∈ order, ∀ v', write r' j = some v' → v' = v) → buf j = v →
      launch order write buf j = v := by
    intro order
    induction order with
    | nil => exact fun buf _ hbuf => hbuf
    | cons r' order ih =>
        intro buf hagree hbuf
        refine ih _ (fun q hq => hagree q (List.mem_cons_of_mem r' hq)) ?_
        show (write r' j).getD (buf j) = v
        cases hw : write r' j with
        | none => exact hbuf
        | some v' => exact hagree r' List.mem_cons_self v' hw
  induction order generalizing buf with
  | nil => cases hr
  | cons r' order ih =>
      have hrest : ∀ q ∈ order, ∀ v', write q j = some v' → v' = v :=
        fun q hq => h q (List.mem_cons_of_mem r' hq)
      rcases List.mem_cons.mp hr with rfl | hmem
      · refine hlast order _ hrest ?_
        show (write r j).getD (buf j) = v
        rw [hv]
        rfl
      · exact ih hmem hrest

/-! ## Programs with an index of their own -/

/-- Program `r` stores at index `r` only. -/
def own (value : Nat → α) (r j : Nat) : Option α := if j = r then some (value r) else none

theorem launch_own {value : Nat → α} :
    launch order (own value) buf j = if j ∈ order then value j else buf j := by
  by_cases hj : j ∈ order
  · rw [if_pos hj]
    refine launch_of_some hj (if_pos rfl) fun r' _ v' hv' => ?_
    unfold own at hv'
    split at hv'
    · next heq =>
        cases hv'
        rw [heq]
    · cases hv'
  · rw [if_neg hj]
    refine launch_of_none fun r hr => if_neg ?_
    rintro rfl
    exact hj hr

end FlashNext.Verified.Launch
