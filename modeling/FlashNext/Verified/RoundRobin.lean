import Mathlib.Data.List.Basic

/-!
# Dealing a list round robin

`deal k xs` appends the `i`-th entry to hand `i % k`.  Whatever stretch of
entries one looks at, no hand holds more of it than its rounded-up share.
-/

namespace FlashNext.Verified.RoundRobin

variable {α : Type*}

/-- Deal on, the next entry being number `s`. -/
def dealFrom (k : Nat) : Nat → List (List α) → List α → List (List α)
  | _, hands, [] => hands
  | s, hands, x :: xs =>
      dealFrom k (s + 1) (hands.modify (s % k) fun hand => hand ++ [x]) xs

def deal (k : Nat) (xs : List α) : List (List α) :=
  dealFrom k 0 (List.replicate k []) xs

/-- What hand `g` gets, the first entry being number `s`. -/
def share (k g : Nat) : Nat → List α → List α
  | _, [] => []
  | s, x :: xs => if s % k = g then x :: share k g (s + 1) xs else share k g (s + 1) xs

/-! ## Nothing is lost -/

private theorem flatten_modify_append {hands : List (List α)} {g : Nat}
    (hg : g < hands.length) (x : α) :
    (hands.modify g fun hand => hand ++ [x]).flatten.Perm (x :: hands.flatten) := by
  induction hands generalizing g with
  | nil => cases hg
  | cons hand hands ih =>
      cases g with
      | zero =>
          have hswap : ((hand ++ [x]) ++ hands.flatten).Perm
              (x :: (hand ++ hands.flatten)) := by
            rw [List.append_assoc]
            exact List.perm_middle
          exact hswap
      | succ g =>
          have hrest := ih (Nat.lt_of_succ_lt_succ hg)
          rw [List.modify_succ_cons, List.flatten_cons, List.flatten_cons]
          exact (hrest.append_left hand).trans List.perm_middle

theorem length_dealFrom (k s : Nat) (hands : List (List α)) (xs : List α) :
    (dealFrom k s hands xs).length = hands.length := by
  induction xs generalizing s hands with
  | nil => rfl
  | cons x xs ih => rw [dealFrom, ih, List.length_modify]

private theorem dealFrom_perm {k s : Nat} {hands : List (List α)}
    (hlen : hands.length = k) (hk : 0 < k) (xs : List α) :
    (dealFrom k s hands xs).flatten.Perm (xs ++ hands.flatten) := by
  induction xs generalizing s hands with
  | nil => exact List.Perm.refl _
  | cons x xs ih =>
      have hlen' : (hands.modify (s % k) fun hand => hand ++ [x]).length = k := by
        rw [List.length_modify, hlen]
      have hg : s % k < hands.length := by
        rw [hlen]
        exact Nat.mod_lt s hk
      have hrest := (flatten_modify_append hg x).append_left xs
      exact ((ih hlen').trans hrest).trans List.perm_middle

theorem deal_perm {k : Nat} (hk : 0 < k) (xs : List α) :
    (deal k xs).flatten.Perm xs := by
  have hperm := dealFrom_perm (s := 0) (List.length_replicate (a := ([] : List α))) hk xs
  rwa [List.flatten_replicate_nil, List.append_nil] at hperm

/-! ## One hand -/

private theorem dealFrom_get {k s g : Nat} {hands : List (List α)} {hand : List α}
    (hhand : hands[g]? = some hand) (xs : List α) :
    (dealFrom k s hands xs)[g]? = some (hand ++ share k g s xs) := by
  induction xs generalizing s hands hand with
  | nil => rw [dealFrom, share, List.append_nil, hhand]
  | cons x xs ih =>
      by_cases hmod : s % k = g
      · have hnext : (hands.modify (s % k) fun hand => hand ++ [x])[g]? =
            some (hand ++ [x]) := by
          rw [hmod, List.getElem?_modify_eq, hhand]
          rfl
        rw [dealFrom, ih hnext, share, if_pos hmod, List.append_assoc]
        rfl
      · have hnext : (hands.modify (s % k) fun hand => hand ++ [x])[g]? =
            some hand := by
          rw [List.getElem?_modify_ne _ _ hmod, hhand]
        rw [dealFrom, ih hnext, share, if_neg hmod]

theorem deal_get {k g : Nat} (hg : g < k) (xs : List α) :
    (deal k xs)[g]? = some (share k g 0 xs) := by
  have hhand : (List.replicate k ([] : List α))[g]? = some [] := by
    rw [List.getElem?_replicate, if_pos hg]
  rw [deal, dealFrom_get hhand, List.nil_append]

/-! ## Shares -/

theorem share_append (k g s : Nat) (xs ys : List α) :
    share k g s (xs ++ ys) = share k g s xs ++ share k g (s + xs.length) ys := by
  induction xs generalizing s with
  | nil => rfl
  | cons x xs ih =>
      have hlen : s + 1 + xs.length = s + (x :: xs).length := by
        rw [List.length_cons]
        omega
      rw [List.cons_append, share, share, ih, hlen]
      split <;> rfl

theorem mem_of_mem_share {k g s : Nat} {xs : List α} {x : α}
    (hx : x ∈ share k g s xs) : x ∈ xs := by
  induction xs generalizing s with
  | nil => exact hx
  | cons y xs ih =>
      rw [share] at hx
      split at hx
      · rcases List.mem_cons.mp hx with rfl | hrest
        · exact List.mem_cons_self
        · exact List.mem_cons_of_mem y (ih hrest)
      · exact List.mem_cons_of_mem y (ih hx)

/-- Counting the multiples that are passed while dealing. -/
private theorem length_share {k g : Nat} (hg : g < k) (s : Nat) (xs : List α) :
    (s + (k - 1 - g)) / k + (share k g s xs).length =
      (s + (k - 1 - g) + xs.length) / k := by
  induction xs generalizing s with
  | nil => rfl
  | cons x xs ih =>
      have hrest := ih (s + 1)
      have hshift : s + 1 + (k - 1 - g) + xs.length =
          s + (k - 1 - g) + (x :: xs).length := by
        rw [List.length_cons]
        omega
      rw [hshift] at hrest
      rw [← hrest, Nat.add_right_comm s 1, Nat.succ_div, share]
      have hdvd : k ∣ s + (k - 1 - g) + 1 ↔ s % k = g := by
        have hadd : s + (k - 1 - g) + 1 = s + (k - g) := by omega
        have hdiv := Nat.div_add_mod s k
        have hlt := Nat.mod_lt s (Nat.zero_lt_of_lt hg)
        rw [hadd]
        constructor
        · intro hdvd
          have hmod : (s % k + (k - g)) % k = 0 := by
            rw [Nat.mod_add_mod]
            exact Nat.mod_eq_zero_of_dvd hdvd
          rcases Nat.lt_or_ge (s % k + (k - g)) k with hsmall | hlarge
          · rw [Nat.mod_eq_of_lt hsmall] at hmod
            omega
          · rw [Nat.mod_eq_sub_mod hlarge, Nat.mod_eq_of_lt (by omega)] at hmod
            omega
        · intro hmod
          apply Nat.dvd_of_mod_eq_zero
          rw [← Nat.mod_add_mod, hmod, Nat.add_sub_cancel' (Nat.le_of_lt hg), Nat.mod_self]
      by_cases hmod : s % k = g
      · rw [if_pos hmod, if_pos (hdvd.mpr hmod), List.length_cons]
        omega
      · rw [if_neg hmod, if_neg fun h => hmod (hdvd.mp h)]
        omega

/-- No hand gets more than its rounded-up share. -/
theorem length_share_le {k g m : Nat} (hg : g < k) (s : Nat) {xs : List α}
    (hlen : xs.length ≤ k * m) : (share k g s xs).length ≤ m := by
  have hcount := length_share hg s xs
  have hbound : (s + (k - 1 - g) + xs.length) / k ≤ (s + (k - 1 - g)) / k + m := by
    calc
      (s + (k - 1 - g) + xs.length) / k ≤ (s + (k - 1 - g) + k * m) / k :=
        Nat.div_le_div_right (Nat.add_le_add_left hlen _)
      _ = (s + (k - 1 - g)) / k + m :=
        Nat.add_mul_div_left _ _ (Nat.zero_lt_of_lt hg)
  omega

/-- The first hands get an entry each. -/
theorem share_ne_nil {k g : Nat} (hg : g < k) {xs : List α} (hlen : g < xs.length) :
    share k g 0 xs ≠ [] := by
  have hcount := length_share hg 0 xs
  have hsmall : (0 + (k - 1 - g)) / k = 0 := Nat.div_eq_of_lt (by omega)
  have hlarge : 0 < (0 + (k - 1 - g) + xs.length) / k :=
    Nat.div_pos (by omega) (by omega)
  intro hnil
  rw [hnil, List.length_nil] at hcount
  omega

theorem deal_eq_map (k : Nat) (xs : List α) :
    deal k xs = (List.range k).map fun g => share k g 0 xs := by
  have hlen : (deal k xs).length = k := by
    rw [deal, length_dealFrom, List.length_replicate]
  apply List.ext_getElem?
  intro g
  by_cases hg : g < k
  · rw [deal_get hg, List.getElem?_map, List.getElem?_range hg]
    rfl
  · have hout : k ≤ g := Nat.le_of_not_lt hg
    rw [List.getElem?_eq_none (by rwa [hlen]),
      List.getElem?_eq_none (by rwa [List.length_map, List.length_range])]

/-- A stretch of at most `k * m` entries leaves at most `m` in every hand. -/
theorem deal_stretch_le {k m : Nat} {pre seg post : List α} {P : α → Bool}
    (hseg : ∀ x ∈ pre ++ post, P x = false) (hlen : seg.length ≤ k * m)
    {hand : List α} (hhand : hand ∈ deal k (pre ++ seg ++ post)) :
    (hand.filter P).length ≤ m := by
  obtain ⟨g, hg⟩ := List.getElem?_of_mem hhand
  have hgk : g < k := by
    obtain ⟨hlt, -⟩ := List.getElem?_eq_some_iff.mp hg
    rwa [deal, length_dealFrom, List.length_replicate] at hlt
  rw [deal_get hgk, share_append, share_append] at hg
  rw [← Option.some.inj hg, List.filter_append, List.filter_append]
  have hnone : ∀ (s : Nat) (ys : List α), (∀ y ∈ ys, P y = false) →
      (share k g s ys).filter P = [] := by
    intro s ys hys
    apply List.filter_eq_nil_iff.mpr
    intro y hy
    rw [hys y (mem_of_mem_share hy)]
    exact Bool.false_ne_true
  rw [hnone _ pre fun y hy => hseg y (List.mem_append_left _ hy),
    hnone _ post fun y hy => hseg y (List.mem_append_right _ hy),
    List.nil_append, List.append_nil]
  exact Nat.le_trans (List.length_filter_le P _) (length_share_le hgk _ hlen)

end FlashNext.Verified.RoundRobin
