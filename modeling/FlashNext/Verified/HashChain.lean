import Mathlib.Data.List.Basic

/-!
# Hash chains

`chain f p bs` is the list of links that a chaining function `f` produces for
the blocks `bs`, starting after the link `p` (`none` at the beginning).

* `chain_append` — a chain can be produced in several calls, each of which
  continues from the last link of the one before;
* `chain_take_eq` — if links commit to their predecessor and their block, then
  equal links at one position commit to equal blocks up to that position.
-/

namespace FlashNext.Verified.HashChain

variable {B H : Type*}

/-- The links for `bs`, each made from its predecessor and its block. -/
def chain (f : Option H → B → H) : Option H → List B → List H
  | _, [] => []
  | p, b :: bs => f p b :: chain f (some (f p b)) bs

variable (f : Option H → B → H)

@[simp] theorem chain_nil (p : Option H) : chain f p [] = [] := rfl

@[simp] theorem chain_cons (p : Option H) (b : B) (bs : List B) :
    chain f p (b :: bs) = f p b :: chain f (some (f p b)) bs := rfl

@[simp] theorem chain_length (p : Option H) (bs : List B) :
    (chain f p bs).length = bs.length := by
  induction bs generalizing p with
  | nil => rfl
  | cons b bs ih => simp [ih]

/-- Chaining may stop and be resumed from the last link. -/
theorem chain_append (p : Option H) (as bs : List B) :
    chain f p (as ++ bs) =
      chain f p as ++ chain f ((chain f p as).getLast?.or p) bs := by
  induction as generalizing p with
  | nil => simp
  | cons a as ih =>
      simp only [List.cons_append, chain_cons, ih]
      congr 2
      cases h : chain f (some (f p a)) as with
      | nil => simp
      | cons q qs => simp [List.getLast?_cons]

/-- A chaining function that ignores the predecessor just maps. -/
theorem chain_of_const (g : B → H) (hf : ∀ p b, f p b = g b) (p : Option H)
    (bs : List B) : chain f p bs = bs.map g := by
  induction bs generalizing p with
  | nil => rfl
  | cons b bs ih => simp [ih, hf]

/-- A link after the first commits to its predecessor and its block. -/
def Commits : Prop :=
  ∀ p q b c x y, f (some (f p b)) x = f (some (f q c)) y → f p b = f q c ∧ x = y

/-- The first link commits to its block. -/
def CommitsFirst : Prop :=
  ∀ x y, f none x = f none y → x = y

variable {f}

/-- A chain that has a link was made of a block. -/
theorem exists_cons_of_chain {p : Option H} {xs : List B} {i : Nat} {h : H}
    (hx : (chain f p xs)[i]? = some h) : ∃ x rest, xs = x :: rest := by
  cases xs with
  | nil => simp at hx
  | cons x xs => exact ⟨x, xs, rfl⟩

theorem chain_take_eq_of_some (hf : Commits f) {p q : Option H} {b c : B}
    {xs ys : List B} {i : Nat} {h : H}
    (hx : (chain f (some (f p b)) xs)[i]? = some h)
    (hy : (chain f (some (f q c)) ys)[i]? = some h) :
    f p b = f q c ∧ xs.take (i + 1) = ys.take (i + 1) := by
  induction i generalizing p q b c xs ys with
  | zero =>
      obtain ⟨x, xs, rfl⟩ := exists_cons_of_chain hx
      obtain ⟨y, ys, rfl⟩ := exists_cons_of_chain hy
      simp only [chain_cons, List.getElem?_cons_zero, Option.some.injEq] at hx hy
      obtain ⟨hp, rfl⟩ := hf p q b c x y (hx.trans hy.symm)
      exact ⟨hp, by simp⟩
  | succ i ih =>
      obtain ⟨x, xs, rfl⟩ := exists_cons_of_chain hx
      obtain ⟨y, ys, rfl⟩ := exists_cons_of_chain hy
      simp only [chain_cons, List.getElem?_cons_succ] at hx hy
      obtain ⟨hlink, htake⟩ := ih hx hy
      obtain ⟨hp, rfl⟩ := hf p q b c x y hlink
      exact ⟨hp, by simp only [List.take_succ_cons, htake]⟩

/-- Equal links at position `i` of two chains commit to equal blocks up to and
including position `i`. -/
theorem chain_take_eq (hf : Commits f) (hfirst : CommitsFirst f)
    {xs ys : List B} {i : Nat} {h : H}
    (hx : (chain f none xs)[i]? = some h) (hy : (chain f none ys)[i]? = some h) :
    xs.take (i + 1) = ys.take (i + 1) := by
  obtain ⟨x, xs, rfl⟩ := exists_cons_of_chain hx
  obtain ⟨y, ys, rfl⟩ := exists_cons_of_chain hy
  cases i with
  | zero =>
      simp only [chain_cons, List.getElem?_cons_zero, Option.some.injEq] at hx hy
      obtain rfl := hfirst x y (hx.trans hy.symm)
      simp
  | succ i =>
      simp only [chain_cons, List.getElem?_cons_succ] at hx hy
      obtain ⟨hlink, htake⟩ := chain_take_eq_of_some hf hx hy
      obtain rfl := hfirst x y hlink
      simp only [List.take_succ_cons, htake]

/-- Conversely, equal blocks up to position `i` give equal links there. -/
theorem chain_getElem?_congr {p : Option H} {xs ys : List B} {i : Nat}
    (h : xs.take (i + 1) = ys.take (i + 1)) :
    (chain f p xs)[i]? = (chain f p ys)[i]? := by
  induction i generalizing p xs ys with
  | zero =>
      cases xs <;> cases ys <;> simp_all
  | succ i ih =>
      cases xs with
      | nil => cases ys <;> simp_all
      | cons x xs =>
          cases ys with
          | nil => simp at h
          | cons y ys =>
              simp only [List.take_succ_cons, List.cons.injEq] at h
              obtain ⟨rfl, htake⟩ := h
              simp only [chain_cons, List.getElem?_cons_succ]
              exact ih htake

end FlashNext.Verified.HashChain
