import FlashNext.Verified.Scatter
import Mathlib.Algebra.GroupWithZero.Nat
import Mathlib.Data.List.Zip

/-!
# Kernels over variable-length requests

The rows of several requests are packed one after another; `cuSeqlens` holds
the running row counts and `segments` cuts the rows apart again.  `varlen`
lifts a function of one request (its own states and rows to its output rows
and new states) to a kernel over the packed rows and an array of states.
-/

namespace FlashNext.Verified.Varlen

open FlashNext.Verified.Scatter

variable {α β δ σ τ : Type*}

/-! ## Packing -/

/-- Running sums of the lengths, from `start`. -/
def cuSeqlens : Nat → List Nat → List Nat
  | start, [] => [start]
  | start, len :: lens => start :: cuSeqlens (start + len) lens

/-- The rows between consecutive entries of `cu`. -/
def segments : List Nat → List α → List (List α)
  | lo :: hi :: cu, rows => (rows.drop lo).take (hi - lo) :: segments (hi :: cu) rows
  | [_], _ => []
  | [], _ => []

private theorem cuSeqlens_eq_cons (start : Nat) (lens : List Nat) :
    cuSeqlens start lens = start :: (cuSeqlens start lens).tail := by
  cases lens <;> rfl

theorem take_cuSeqlens (start : Nat) (xs ys : List Nat) :
    (cuSeqlens start (xs ++ ys)).take (xs.length + 1) = cuSeqlens start xs := by
  induction xs generalizing start with
  | nil =>
      rw [List.nil_append, cuSeqlens_eq_cons]
      rfl
  | cons x xs ih =>
      show start :: (cuSeqlens (start + x) (xs ++ ys)).take (xs.length + 1) = _
      rw [ih]
      rfl

private theorem segments_append (pre : List α) (lists : List (List α)) :
    segments (cuSeqlens pre.length (lists.map List.length))
      (pre ++ lists.flatten) = lists := by
  induction lists generalizing pre with
  | nil => rfl
  | cons rows lists ih =>
      have hrest := ih (pre ++ rows)
      rw [List.length_append, List.append_assoc] at hrest
      rw [List.map_cons, List.flatten_cons, cuSeqlens, cuSeqlens_eq_cons,
        segments, ← cuSeqlens_eq_cons, hrest, List.drop_left,
        Nat.add_sub_cancel_left, List.take_left]

/-- Cutting packed rows apart. -/
theorem segments_flatMap (ps : List τ) (rows : τ → List α) (len : τ → Nat)
    (hlen : ∀ p ∈ ps, (rows p).length = len p) :
    segments (cuSeqlens 0 (ps.map len)) (ps.flatMap rows) = ps.map rows := by
  have hlens : ps.map len = (ps.map rows).map List.length := by
    rw [List.map_map]
    exact List.map_congr_left fun p hp => (hlen p hp).symm
  rw [hlens, List.flatMap_def]
  exact segments_append [] (ps.map rows)

theorem length_cuSeqlens (start : Nat) (lens : List Nat) :
    (cuSeqlens start lens).length = lens.length + 1 := by
  induction lens generalizing start with
  | nil => rfl
  | cons len lens ih =>
      show (cuSeqlens (start + len) lens).length + 1 = _
      rw [ih, List.length_cons]

/-- Entry `i` counts the rows before segment `i`. -/
theorem getElem?_cuSeqlens (start : Nat) (lens : List Nat) {i : Nat} (hi : i ≤ lens.length) :
    (cuSeqlens start lens)[i]? = some (start + (lens.take i).sum) := by
  induction lens generalizing start i with
  | nil =>
      obtain rfl : i = 0 := Nat.le_zero.mp hi
      rfl
  | cons len lens ih =>
      cases i with
      | zero => rfl
      | succ i =>
          show (cuSeqlens (start + len) lens)[i]? = _
          rw [ih (start + len) (Nat.le_of_succ_le_succ hi), List.take_succ_cons,
            List.sum_cons, Nat.add_assoc]

/-- Row `o` of request `i` among the packed rows. -/
theorem getElem?_flatMap_add {ps : List τ} {f : τ → List α} {i o : Nat} {p : τ}
    (hi : ps[i]? = some p) (ho : o < (f p).length) :
    (ps.flatMap f)[((ps.take i).map fun q => (f q).length).sum + o]? = (f p)[o]? := by
  induction ps generalizing i with
  | nil => cases hi
  | cons q ps ih =>
      cases i with
      | zero =>
          cases hi
          rw [List.flatMap_cons, List.take_zero, List.map_nil, List.sum_nil, Nat.zero_add,
            List.getElem?_append_left ho]
      | succ i =>
          rw [List.flatMap_cons, List.take_succ_cons, List.map_cons, List.sum_cons,
            Nat.add_assoc, List.getElem?_append_right (Nat.le_add_right _ _),
            Nat.add_sub_cancel_left]
          exact ih hi

/-- Rows that are packed alike are paired request by request. -/
theorem zip_flatMap (ps : List τ) (f : τ → List α) (g : τ → List β)
    (hlen : ∀ p ∈ ps, (f p).length = (g p).length) :
    (ps.flatMap f).zip (ps.flatMap g) = ps.flatMap fun p => (f p).zip (g p) := by
  induction ps with
  | nil => rfl
  | cons p ps ih =>
      have hrest := ih fun q hq => hlen q (List.mem_cons_of_mem _ hq)
      rw [List.flatMap_cons, List.flatMap_cons, List.flatMap_cons,
        List.zip_append (hlen p List.mem_cons_self), hrest]

theorem map_flatMap_singleton (ps : List τ) (rows : τ → List α)
    (hone : ∀ p ∈ ps, (rows p).length = 1) :
    (ps.flatMap rows).map (fun row => [row]) = ps.map rows := by
  induction ps with
  | nil => rfl
  | cons p ps ih =>
      obtain ⟨row, hrow⟩ := List.length_eq_one_iff.mp (hone p List.mem_cons_self)
      rw [List.flatMap_cons, List.map_append, List.map_cons,
        ih fun q hq => hone q (List.mem_cons_of_mem _ hq), hrow]
      rfl

/-! ## Kernels -/

/-- The kernel that runs `f` on every request.  A request comes with its own
argument and the slots of its states; requests without a segment are not
run. -/
def varlen (f : δ → List σ → List α → List β × List σ)
    (reqs : List (δ × List Nat)) (segs : List (List α)) (st : Nat → σ) :
    List β × (Nat → σ) :=
  let runs := (reqs.zip segs).map fun p => f p.1.1 (p.1.2.map st) p.2
  (runs.flatMap Prod.fst,
    put ((reqs.zip segs).flatMap fun p => p.1.2) (runs.flatMap Prod.snd) st)

/-- The kernel computes, request by request, what the requests compute on
their own. -/
theorem varlen_map {f : δ → List σ → List α → List β × List σ}
    {ps : List τ} {arg : τ → δ} {slots : τ → List Nat} {rows : τ → List α}
    {run : τ → List β × List σ} {st : Nat → σ}
    (hrun : ∀ p ∈ ps, f (arg p) ((slots p).map st) (rows p) = run p)
    (hlen : ∀ p ∈ ps, (run p).2.length = (slots p).length)
    (hnodup : (ps.flatMap slots).Nodup) :
    (varlen f (ps.map fun p => (arg p, slots p)) (ps.map rows) st).1 =
        ps.flatMap (fun p => (run p).1) ∧
      Stored slots (fun p => (run p).2) ps st
        (varlen f (ps.map fun p => (arg p, slots p)) (ps.map rows) st).2 := by
  have hruns : ps.map (fun p => f (arg p) ((slots p).map st) (rows p)) =
      ps.map run := List.map_congr_left hrun
  have hvarlen : varlen f (ps.map fun p => (arg p, slots p)) (ps.map rows) st =
      (ps.flatMap (fun p => (run p).1),
        put (ps.flatMap slots) (ps.flatMap fun p => (run p).2) st) := by
    simp only [varlen, List.zip_map', List.map_map, Function.comp_def, hruns,
      List.flatMap_map]
  rw [hvarlen]
  exact ⟨rfl, stored_put hnodup hlen st⟩

/-- Requests behind the last segment are not run. -/
theorem varlen_append {f : δ → List σ → List α → List β × List σ}
    {reqs more : List (δ × List Nat)} {segs : List (List α)}
    (hlen : reqs.length = segs.length) (st : Nat → σ) :
    varlen f (reqs ++ more) segs st = varlen f reqs segs st := by
  have hzip : (reqs ++ more).zip segs = reqs.zip segs := by
    have happend : (reqs ++ more).zip (segs ++ []) =
        reqs.zip segs ++ more.zip [] := List.zip_append hlen
    rwa [List.append_nil, List.zip_nil_right, List.append_nil] at happend
  rw [varlen, varlen, hzip]

end FlashNext.Verified.Varlen
