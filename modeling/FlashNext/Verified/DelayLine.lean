import Mathlib.Data.List.Basic

/-!
# Delay lines

A delay line of length `n` is a queue that is rotated once per tick: the
front entry leaves and a fresh one enters at the back.  Every entry carries
the tick it entered at; `Stamped` says that the line is full and in order, so
that what leaves at tick `t` is what entered at tick `t - n`.
-/

namespace FlashNext.Verified.DelayLine

variable {α : Type*} {stamp : α → Int} {n : Nat} {t : Int} {q : List α}

/-- `n` entries; the one at position `j` entered `n - j` ticks before `t`. -/
structure Stamped (stamp : α → Int) (n : Nat) (t : Int) (q : List α) : Prop where
  length : q.length = n
  entered : ∀ (j : Nat) a, q[j]? = some a → stamp a + n = t + j

/-- The placeholders a line starts with at tick `0`. -/
theorem stamped_placeholders (mk : Int → α) (hmk : ∀ k, stamp (mk k) = k)
    (n : Nat) :
    Stamped stamp n 0 ((List.range n).map fun j : Nat => mk (j - n)) where
  length := by simp
  entered := by
    intro j a ha
    rw [List.getElem?_map] at ha
    obtain ⟨k, hk, rfl⟩ := Option.map_eq_some_iff.mp ha
    have hkj : j = k := by
      rw [List.getElem?_range (by simpa using (List.getElem?_eq_some_iff.mp hk).1)]
        at hk
      exact Option.some.inj hk
    rw [hmk, hkj]
    omega

theorem Stamped.uncons (h : Stamped stamp n t q) (hn : 0 < n) :
    ∃ a rest, q = a :: rest ∧ stamp a + n = t := by
  have hlen := h.length
  cases hq : q with
  | nil => rw [hq] at hlen; simp at hlen; omega
  | cons a rest =>
      refine ⟨a, rest, rfl, ?_⟩
      simpa using h.entered 0 a (by rw [hq, List.getElem?_cons_zero])

/-- The entries of a rotated line: an old one one place further to the front,
or the fresh one. -/
theorem getElem?_rotate {a b x : α} {rest : List α} {j : Nat} :
    (rest ++ [x])[j]? = some b ↔
      (a :: rest)[j + 1]? = some b ∨ (j = rest.length ∧ x = b) := by
  rw [List.getElem?_cons_succ]
  by_cases hj : j < rest.length
  · have hne : j ≠ rest.length := by omega
    rw [List.getElem?_append_left hj]
    simp [hne]
  · have hnone : rest[j]? = none := by
      rw [List.getElem?_eq_none_iff]
      omega
    rw [hnone, List.getElem?_append_right (by omega)]
    by_cases heq : j = rest.length
    · simp [heq]
    · have hpos : 0 < j - rest.length := by omega
      have hout : ([x] : List α)[j - rest.length]? = none := by
        rw [List.getElem?_eq_none_iff, List.length_singleton]
        omega
      simp [hout, heq]

/-- One tick. -/
theorem Stamped.rotate {a x : α} {rest : List α}
    (h : Stamped stamp n t (a :: rest)) (hx : stamp x = t) :
    Stamped stamp n (t + 1) (rest ++ [x]) where
  length := by
    have hlen := h.length
    rw [List.length_cons] at hlen
    rw [List.length_append, List.length_singleton]
    exact hlen
  entered := by
    intro j b hb
    have hlen := h.length
    rw [List.length_cons] at hlen
    rcases (getElem?_rotate (a := a)).mp hb with hold | ⟨rfl, rfl⟩
    · have := h.entered (j + 1) b hold
      push_cast at this
      omega
    · omega

/-- Filling the entry that just entered. -/
theorem Stamped.fill {a b : α} {rest : List α}
    (h : Stamped stamp n t (rest ++ [a])) (hb : stamp b = stamp a) :
    Stamped stamp n t (rest ++ [b]) where
  length := by
    have hlen := h.length
    rw [List.length_append, List.length_singleton] at hlen ⊢
    exact hlen
  entered := by
    intro j c hc
    rcases (getElem?_rotate (a := a)).mp hc with hold | ⟨rfl, rfl⟩
    · refine h.entered j c ?_
      exact (getElem?_rotate (a := a)).mpr (.inl hold)
    · have hlast : (rest ++ [a])[rest.length]? = some a :=
        (getElem?_rotate (a := a)).mpr (.inr ⟨rfl, rfl⟩)
      rw [hb]
      exact h.entered rest.length a hlast

end FlashNext.Verified.DelayLine
