import FlashNext.Verified.PyLists
import Mathlib.Data.List.Nodup
import Mathlib.Data.List.Perm.Basic
import Mathlib.Algebra.GroupWithZero.Nat
import Mathlib.Algebra.Ring.Int.Defs

/-!
# Ids handed out by a counter

A counter hands out runs of consecutive ids to owners, who keep them in rows.
No id is handed out twice and none is left out: what the owners hold together
is a permutation of the ids between the first one and the counter.
-/

namespace FlashNext.Verified.IssuedIds

open FlashNext.Verified.PyLists

/-! ## Ranges of step one -/

theorem rangeLength_one (first next : Int) : rangeLength first next 1 = (next - first).toNat := by
  rw [rangeLength, if_pos (by decide), Int.ediv_one]
  omega

theorem length_range_one (first next : Int) :
    (range first next 1).length = (next - first).toNat := by
  rw [range, List.length_map, List.length_range, rangeLength_one]

theorem mem_range_one {first next i : Int} : i ∈ range first next 1 ↔ first ≤ i ∧ i < next := by
  constructor
  · exact mem_range_of_pos (by decide)
  · rintro ⟨hfirst, hnext⟩
    apply List.mem_map.mpr
    refine ⟨(i - first).toNat, ?_, by omega⟩
    rw [List.mem_range, rangeLength_one]
    omega

theorem nodup_range_one (first next : Int) : (range first next 1).Nodup := by
  apply List.Nodup.map _ List.nodup_range
  intro a b h
  have hab : first + (a : Int) * 1 = first + (b : Int) * 1 := h
  omega

theorem range_append {first mid next : Int} (hfirst : first ≤ mid) (hmid : mid ≤ next) :
    range first mid 1 ++ range mid next 1 = range first next 1 := by
  have hlen : rangeLength first next 1 = rangeLength first mid 1 + rangeLength mid next 1 := by
    simp only [rangeLength_one]
    omega
  simp only [range, hlen, List.range_add, List.map_append, List.map_map]
  congr 1
  apply List.map_congr_left
  intro k _
  rw [rangeLength_one]
  show mid + (k : Int) * 1 = first + (((mid - first).toNat + k : Nat) : Int) * 1
  omega

/-! ## Handing out -/

/-- The next `count` ids, and the counter behind them. -/
def issue (next count : Int) : List Int × Int := (range next (next + count) 1, next + count)

/-- A run of ids for each count, one behind the other. -/
def issueAll : Int → List Int → List (List Int) × Int
  | next, [] => ([], next)
  | next, count :: counts =>
      let first := issue next count
      let rest := issueAll first.2 counts
      (first.1 :: rest.1, rest.2)

variable {next : Int} {counts : List Int}

theorem issueAll_snd (next : Int) (counts : List Int) :
    (issueAll next counts).2 = next + counts.sum := by
  induction counts generalizing next with
  | nil => exact (Int.add_zero next).symm
  | cons count counts ih =>
      show (issueAll (next + count) counts).2 = _
      rw [ih, List.sum_cons, Int.add_assoc]

theorem length_issueAll (next : Int) (counts : List Int) :
    (issueAll next counts).1.length = counts.length := by
  induction counts generalizing next with
  | nil => rfl
  | cons count counts ih => exact congrArg (· + 1) (ih (next + count))

theorem lengths_issueAll (next : Int) (h : ∀ count ∈ counts, 0 ≤ count) :
    (issueAll next counts).1.map (fun ids => (ids.length : Int)) = counts := by
  induction counts generalizing next with
  | nil => rfl
  | cons count counts ih =>
      have hcount : 0 ≤ count := h count List.mem_cons_self
      have hhead : ((range next (next + count) 1).length : Int) = count := by
        rw [length_range_one]
        omega
      show ((range next (next + count) 1).length : Int) ::
        (issueAll (next + count) counts).1.map _ = _
      rw [hhead, ih (next + count) fun c hc => h c (List.mem_cons_of_mem count hc)]

/-- The runs cover the ids up to the new counter. -/
theorem flatten_issueAll (next : Int) (h : ∀ count ∈ counts, 0 ≤ count) :
    (issueAll next counts).1.flatten = range next (issueAll next counts).2 1 ∧
      next ≤ (issueAll next counts).2 := by
  induction counts generalizing next with
  | nil =>
      refine ⟨?_, Int.le_refl next⟩
      show [] = range next next 1
      rw [range, rangeLength_one, Int.sub_self]
      rfl
  | cons count counts ih =>
      have hcount : 0 ≤ count := h count List.mem_cons_self
      obtain ⟨hflat, hle⟩ := ih (next + count) fun c hc => h c (List.mem_cons_of_mem count hc)
      have hnext : next ≤ next + count := by omega
      refine ⟨?_, Int.le_trans hnext hle⟩
      show range next (next + count) 1 ++ (issueAll (next + count) counts).1.flatten = _
      rw [hflat]
      exact range_append hnext hle

/-- Rows that take the ids they lack have the lengths they are to have. -/
theorem lengths_extend {σ : Type*} {specs : List σ} {old new : σ → Nat} (h : ∀ s, old s ≤ new s)
    {rows : List (List Int)} (hrows : rows.map List.length = specs.map old) (next : Int) :
    (List.zipWith (· ++ ·) rows
      (issueAll next (specs.map fun s => (new s : Int) - old s)).1).map List.length =
      specs.map new := by
  induction specs generalizing rows next with
  | nil =>
      rw [List.map_eq_nil_iff.mp hrows]
      rfl
  | cons s specs ih =>
      cases rows with
      | nil => cases hrows
      | cons row rows =>
          obtain ⟨hrow, hrest⟩ := List.cons.inj hrows
          have hs := h s
          have hlen : (row ++ range next (next + ((new s : Int) - old s)) 1).length = new s := by
            rw [List.length_append, hrow, length_range_one]
            omega
          show (row ++ range next (next + ((new s : Int) - old s)) 1).length :: _ = new s :: _
          rw [hlen]
          exact congrArg (new s :: ·) (ih hrest _)

/-! ## What the owners hold -/

section Owners

variable {κ : Type*} {owners : List κ} {held : κ → List (List Int)} {first : Int}

/-- The rows of the owners hold the ids from `first` up to `next`, each once. -/
structure Issued (owners : List κ) (held : κ → List (List Int)) (first next : Int) : Prop where
  perm : (owners.flatMap fun k => (held k).flatten).Perm (range first next 1)
  le : first ≤ next

theorem issued_nil (held : κ → List (List Int)) (first : Int) : Issued [] held first first where
  perm := by
    rw [range, rangeLength_one, Int.sub_self]
    exact List.Perm.refl []
  le := Int.le_refl first

theorem Issued.nodup (h : Issued owners held first next) :
    (owners.flatMap fun k => (held k).flatten).Nodup :=
  h.perm.nodup_iff.mpr (nodup_range_one first next)

theorem Issued.mem_iff (h : Issued owners held first next) {i : Int} :
    (∃ k ∈ owners, i ∈ (held k).flatten) ↔ first ≤ i ∧ i < next := by
  rw [← mem_range_one, ← h.perm.mem_iff, List.mem_flatMap]

theorem Issued.next_eq (h : Issued owners held first next) :
    next = first + ((owners.map fun k => (held k).flatten.length).sum : Nat) := by
  have hlen := h.perm.length_eq
  rw [List.length_flatMap, length_range_one] at hlen
  have hle := h.le
  omega

theorem Issued.congr {held' : κ → List (List Int)} (h : Issued owners held first next)
    (heq : ∀ k ∈ owners, held' k = held k) : Issued owners held' first next where
  perm := by
    have hflat : (owners.flatMap fun k => (held' k).flatten) =
        owners.flatMap fun k => (held k).flatten :=
      List.flatMap_congr fun k hk => congrArg List.flatten (heq k hk)
    rw [hflat]
    exact h.perm
  le := h.le

/-- Another owner takes the next ids. -/
theorem Issued.add {k : κ} (h : Issued owners held first next)
    (hcounts : ∀ count ∈ counts, 0 ≤ count) (hk : held k = (issueAll next counts).1) :
    Issued (owners ++ [k]) held first (issueAll next counts).2 := by
  obtain ⟨hflat, hle⟩ := flatten_issueAll next hcounts
  refine ⟨?_, Int.le_trans h.le hle⟩
  rw [List.flatMap_append, List.flatMap_singleton, hk, hflat, ← range_append h.le hle]
  exact h.perm.append_right _

/-- Ids put behind rows of the same number. -/
theorem perm_zipWith_append {α : Type*} {rows more : List (List α)}
    (hlen : rows.length = more.length) :
    (List.zipWith (· ++ ·) rows more).flatten.Perm (rows.flatten ++ more.flatten) := by
  induction rows generalizing more with
  | nil =>
      obtain rfl := List.length_eq_zero_iff.mp hlen.symm
      exact List.Perm.refl []
  | cons row rows ih =>
      cases more with
      | nil => cases hlen
      | cons ids more =>
          have hrest := ih (Nat.succ.inj hlen)
          show ((row ++ ids) ++ (List.zipWith (· ++ ·) rows more).flatten).Perm
            ((row ++ rows.flatten) ++ (ids ++ more.flatten))
          calc (row ++ ids) ++ (List.zipWith (· ++ ·) rows more).flatten
              = row ++ (ids ++ (List.zipWith (· ++ ·) rows more).flatten) := List.append_assoc ..
            _ |>.Perm (row ++ (ids ++ (rows.flatten ++ more.flatten))) :=
                (hrest.append_left ids).append_left row
            _ = row ++ ((ids ++ rows.flatten) ++ more.flatten) := by rw [List.append_assoc]
            _ |>.Perm (row ++ ((rows.flatten ++ ids) ++ more.flatten)) :=
                (List.perm_append_comm.append_right _).append_left row
            _ = (row ++ rows.flatten) ++ (ids ++ more.flatten) := by simp only [List.append_assoc]

/-- An owner takes the next ids into its rows. -/
theorem Issued.extend [DecidableEq κ] {k : κ} (h : Issued owners held first next)
    (hnodup : owners.Nodup) (hk : k ∈ owners) (hcounts : ∀ count ∈ counts, 0 ≤ count)
    (hlen : (held k).length = counts.length) :
    Issued owners
      (Function.update held k (List.zipWith (· ++ ·) (held k) (issueAll next counts).1))
      first (issueAll next counts).2 := by
  obtain ⟨hflat, hle⟩ := flatten_issueAll next hcounts
  refine ⟨?_, Int.le_trans h.le hle⟩
  obtain ⟨before, behind, rfl⟩ := List.append_of_mem hk
  have hnot : k ∉ before ∧ k ∉ behind := by
    have hperm := List.nodup_middle.mp hnodup
    exact not_or.mp fun hor => (List.nodup_cons.mp hperm).1 (List.mem_append.mpr hor)
  have hrest : ∀ (l : List κ), k ∉ l →
      (l.flatMap fun j => (Function.update held k
        (List.zipWith (· ++ ·) (held k) (issueAll next counts).1) j).flatten) =
      l.flatMap fun j => (held j).flatten := by
    intro l hl
    apply List.flatMap_congr
    intro j hj
    rw [Function.update_of_ne]
    rintro rfl
    exact hl hj
  have hmore : (List.zipWith (· ++ ·) (held k) (issueAll next counts).1).flatten.Perm
      ((held k).flatten ++ range next (issueAll next counts).2 1) := by
    rw [← hflat]
    exact perm_zipWith_append (hlen.trans (length_issueAll next counts).symm)
  have hold := h.perm
  rw [List.flatMap_append, List.flatMap_cons] at hold ⊢
  rw [hrest before hnot.1, hrest behind hnot.2, Function.update_self, ← range_append h.le hle]
  refine List.Perm.trans ?_ (hold.append_right _)
  rw [List.append_assoc, List.append_assoc]
  apply List.Perm.append_left
  refine (hmore.append_right _).trans ?_
  rw [List.append_assoc]
  exact List.Perm.append_left _ List.perm_append_comm

end Owners

end FlashNext.Verified.IssuedIds
