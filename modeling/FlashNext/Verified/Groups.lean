import Mathlib.Data.List.Nodup
import Mathlib.Data.Finset.Card
import Mathlib.Data.List.Flatten

/-!
# Groups of consecutive numbers

The numbers are cut into groups of `r`; group `b` holds `b * r` to `b * r + r - 1`.
A list of groups is expanded column by column: column `c` is entry `c % r` of the group
at place `c / r`.
-/

namespace FlashNext.Verified.Groups

/-- The numbers of group `b`. -/
def members (r b : Nat) : List Nat := (List.range r).map (b * r + ·)

variable {r b t : Nat} {groups : List Nat}

theorem mem_members (hr : 0 < r) : t ∈ members r b ↔ t / r = b := by
  unfold members
  rw [List.mem_map]
  constructor
  · rintro ⟨o, ho, rfl⟩
    rw [List.mem_range] at ho
    rw [Nat.mul_comm, Nat.mul_add_div hr, Nat.div_eq_of_lt ho, Nat.add_zero]
  · rintro rfl
    refine ⟨t % r, List.mem_range.mpr (Nat.mod_lt t hr), ?_⟩
    rw [Nat.mul_comm]
    exact Nat.div_add_mod t r

theorem members_nodup : (members r b).Nodup :=
  List.nodup_range.map fun _ _ h => Nat.add_left_cancel h

theorem mem_flatMap_members (hr : 0 < r) :
    t ∈ groups.flatMap (members r) ↔ t / r ∈ groups := by
  rw [List.mem_flatMap]
  constructor
  · rintro ⟨b, hb, ht⟩
    rwa [(mem_members hr).mp ht]
  · exact fun h => ⟨t / r, h, (mem_members hr).mpr rfl⟩

/-- Distinct groups have no number in common. -/
theorem flatMap_members_nodup (hr : 0 < r) (h : groups.Nodup) :
    (groups.flatMap (members r)).Nodup := by
  rw [List.nodup_flatMap]
  refine ⟨fun _ _ => members_nodup, h.imp fun hne => ?_⟩
  intro t ht ht'
  exact hne (((mem_members hr).mp ht).symm.trans ((mem_members hr).mp ht'))

/-- The columns of an expanded list of groups. -/
theorem map_columns (hr : 0 < r) (groups : List Nat) :
    (List.range (groups.length * r)).map
        (fun c => groups.getD (c / r) 0 * r + c % r) =
      groups.flatMap (members r) := by
  induction groups with
  | nil => simp
  | cons b rest ih =>
      have hlen : (b :: rest).length * r = r + rest.length * r := by
        rw [List.length_cons, Nat.succ_mul, Nat.add_comm]
      rw [hlen, List.range_add, List.map_append, List.flatMap_cons, ← ih, List.map_map]
      congr 1
      · refine List.map_congr_left fun c hc => ?_
        have hlt : c < r := List.mem_range.mp hc
        rw [Nat.div_eq_of_lt hlt, Nat.mod_eq_of_lt hlt]
        rfl
      · refine List.map_congr_left fun c _ => ?_
        show (b :: rest).getD ((r + c) / r) 0 * r + (r + c) % r = _
        rw [Nat.add_div_left c hr, Nat.add_mod_left]
        rfl

/-- The groups cover the numbers in order. -/
theorem flatMap_members_range (r n : Nat) :
    (List.range n).flatMap (members r) = List.range (n * r) := by
  induction n with
  | zero => rw [Nat.zero_mul]; rfl
  | succ n ih =>
      rw [List.range_succ, List.flatMap_append, ih, Nat.succ_mul, List.range_add]
      simp [members]

/-- Consecutive pieces, cut at the values of a monotone function, cover the numbers in
order. -/
theorem flatMap_pieces {cut : Nat → Nat} (hmono : ∀ i, cut i ≤ cut (i + 1))
    (hzero : cut 0 = 0) (n : Nat) :
    (List.range n).flatMap (fun i => List.range' (cut i) (cut (i + 1) - cut i)) =
      List.range (cut n) := by
  induction n with
  | zero => rw [hzero]; rfl
  | succ n ih =>
      have hlen : cut n + (cut (n + 1) - cut n) = cut (n + 1) :=
        Nat.add_sub_cancel' (hmono n)
      rw [List.range_succ, List.flatMap_append, ih, ← hlen, List.range_add]
      simp [List.range'_eq_map_range]

/-- A list cut by a key. -/
theorem flatMap_filter_perm {α : Type*} (key : α → Nat) (xs : List α) (n : Nat) :
    ((List.range n).flatMap fun b => xs.filter fun x => key x = b).Perm
      (xs.filter fun x => key x < n) := by
  induction n with
  | zero => simp
  | succ n ih =>
      have hcut := List.filter_append_perm (fun x => decide (key x < n))
        (xs.filter fun x => key x < n + 1)
      rw [List.filter_filter, List.filter_filter] at hcut
      have hlow : (xs.filter fun x => decide (key x < n) && decide (key x < n + 1)) =
          xs.filter fun x => key x < n :=
        List.filter_congr fun x _ => by rw [← Bool.decide_and, decide_eq_decide]; omega
      have hhigh : (xs.filter fun x => !decide (key x < n) && decide (key x < n + 1)) =
          xs.filter fun x => key x = n :=
        List.filter_congr fun x _ => by
          rw [← decide_not, ← Bool.decide_and, decide_eq_decide]
          omega
      rw [hlow, hhigh] at hcut
      rw [List.range_succ, List.flatMap_append, List.flatMap_singleton]
      exact (ih.append_right _).trans hcut

/-- As many distinct numbers below `n` as there are, are all of them. -/
theorem mem_of_nodup_of_length (hnodup : groups.Nodup) (hlt : ∀ b ∈ groups, b < r)
    (hlen : groups.length = r) (hb : b < r) : b ∈ groups := by
  have hsub : groups.toFinset ⊆ Finset.range r := fun x hx =>
    Finset.mem_range.mpr (hlt x (List.mem_toFinset.mp hx))
  have hcard : (Finset.range r).card ≤ groups.toFinset.card := by
    rw [Finset.card_range, List.toFinset_card_of_nodup hnodup, hlen]
  have heq := Finset.eq_of_subset_of_card_le hsub hcard
  exact List.mem_toFinset.mp (heq ▸ Finset.mem_range.mpr hb)

end FlashNext.Verified.Groups
