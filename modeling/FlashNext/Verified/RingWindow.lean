import Mathlib.Data.List.Basic

/-!
# Windows on a ring

A ring of `size` slots holds entry `p` of a growing sequence at slot `p % size`.  Every
step appends entries, of which the last `size` are written, and then takes the last few
back.  The ring keeps the end of the sequence readable, as long as the window and what
is taken back fit into it.
-/

namespace FlashNext.Verified.RingWindow

variable {α : Type*}

/-- The last `window` entries of `xs` are at their slots. -/
def Window (size window : Nat) (xs : List α) (ring : Nat → α) : Prop :=
  ∀ p x, xs.length ≤ p + window → xs[p]? = some x → ring (p % size) = x

/-- The last `size` of the entries `ys` were written behind `xs`. -/
structure Written (size : Nat) (xs ys : List α) (ring ring' : Nat → α) : Prop where
  new : ∀ o y, ys.length ≤ o + size → ys[o]? = some y →
    ring' ((xs.length + o) % size) = y
  old : ∀ i < size, (∀ o < ys.length, ys.length ≤ o + size → (xs.length + o) % size ≠ i) →
    ring' i = ring i

variable {size window : Nat} {xs ys : List α} {ring ring' : Nat → α}

theorem window_nil : Window size window ([] : List α) ring := by
  intro p x _ hx
  cases hx

/-- Slots less than a turn apart differ. -/
theorem mod_ne_of_lt (size : Nat) {p q : Nat} (hlt : p < q) (hturn : q < p + size) :
    q % size ≠ p % size := by
  intro heq
  have hp := Nat.div_add_mod p size
  have hq := Nat.div_add_mod q size
  have hdiv : p / size < q / size := by
    by_contra hle
    have hmul : size * (q / size) ≤ size * (p / size) :=
      Nat.mul_le_mul_left size (Nat.not_lt.mp hle)
    omega
  have hmul : size * (p / size + 1) ≤ size * (q / size) := Nat.mul_le_mul_left size hdiv
  rw [Nat.mul_add, Nat.mul_one] at hmul
  omega

/-- One step: the entries `ys` are written and all but the first `k` are taken back. -/
theorem Window.step (h : Window size window xs ring) (hw : Written size xs ys ring ring')
    (hpos : 0 < size) {k : Nat} (hk : k ≤ ys.length)
    (hsize : window + (ys.length - k) ≤ size) :
    Window size window (xs ++ ys.take k) ring' := by
  intro p x hwindow hx
  rw [List.length_append, List.length_take, Nat.min_eq_left hk] at hwindow
  by_cases hold : p < xs.length
  · rw [List.getElem?_append_left hold] at hx
    rw [hw.old (p % size) (Nat.mod_lt p hpos), h p x (by omega) hx]
    intro o ho _
    exact mod_ne_of_lt size (by omega) (by omega)
  · obtain ⟨o, rfl⟩ : ∃ o, p = xs.length + o := ⟨p - xs.length, by omega⟩
    rw [List.getElem?_append_right (by omega), Nat.add_sub_cancel_left] at hx
    have ho : o < k := by
      have hlt := (List.getElem?_eq_some_iff.mp hx).1
      rw [List.length_take] at hlt
      omega
    rw [List.getElem?_take_of_lt ho] at hx
    exact hw.new o x (by omega) hx

end FlashNext.Verified.RingWindow
