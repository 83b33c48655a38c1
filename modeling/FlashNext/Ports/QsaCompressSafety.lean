import Mathlib.Algebra.Field.Rat
import Mathlib.Tactic.NormNum
import FlashNext.Ports.QsaCompressExact

/-!
# Group compression does not depend on the chunking

Every live request finds the last `compress_ratio - 1` committed tokens in its ring.  A
group that is complete in the committed tokens was pooled from them, in whichever step
its last token came; rejected rows are overwritten before their slots are read again.
-/

namespace FlashNext.Ports.Qsa

open FlashNext.Verified.Checked
open FlashNext.Verified.RingWindow
open FlashNext.Verified.StepRuns
open FlashNext.Verified.Varlen

variable {F : Type} [Field F]

/-! ## The invariant -/

/-- The ring is wide enough for a group and for what may be rejected behind it. -/
structure CompressLayout (cfg : CompressConfig) (w : CompressWorld F) : Prop where
  ratio_pos : 0 < cfg.compressRatio
  ratio_le : cfg.compressRatio ≤ w.keys.size
  rollback : cfg.compressRatio - 1 + cfg.maxRejected ≤ w.keys.size
  nonempty : 0 < w.keys.numBlocks ∧ 0 < w.keys.width
  blocks_eq : w.positions.numBlocks = w.keys.numBlocks
  size_eq : w.positions.size = w.keys.size
  width_eq : w.positions.width = 3

/-- What was computed for a group is the mean of its keys and its first position. -/
def GroupPooled (cfg : CompressConfig) (width : Nat) (tokens : List (RawToken F))
    (group : Nat) (out : Option ((Nat → F) × (Nat → Int))) : Prop :=
  ∃ key first, out = some (key, first) ∧
    (∀ d < width, key d = groupKey cfg.compressRatio tokens group d) ∧
    ∀ d < 3, first d = groupPosition cfg.packed cfg.compressRatio tokens group d

structure CompressInv (cfg : CompressConfig) (w : CompressWorld F) : Prop where
  layout : CompressLayout cfg w
  requests : (w.live.map Prod.fst).Nodup
  blocks : (w.live.map Prod.snd).Nodup
  inRange : ∀ q ∈ w.live, q.2 < w.keys.numBlocks
  keys : ∀ q ∈ w.live, ∀ d < w.keys.width, Window w.keys.size (cfg.compressRatio - 1)
    ((w.committed q.1).map fun y => y.key d) fun t => w.keys.data q.2 t d
  positions : ∀ q ∈ w.live, ∀ d < 3, Window w.positions.size (cfg.compressRatio - 1)
    ((w.committed q.1).map fun y => y.position d) fun t => w.positions.data q.2 t d
  groups : ∀ q ∈ w.live, ∀ group,
    (group + 1) * cfg.compressRatio ≤ (w.committed q.1).length →
      GroupPooled cfg w.keys.width (w.committed q.1) group (w.pooled q.1 group)

/-! ## Requests and their blocks -/

section Requests

variable {cfg : CompressConfig} {w : CompressWorld F} {b : CompressBatch F}

omit [Field F] in
theorem blockOf_eq (h : (w.live.map Prod.fst).Nodup) {q : Nat × Nat} (hq : q ∈ w.live) :
    w.blockOf q.1 = q.2 := by
  have hlookup : w.live.lookup q.1 = some q.2 := by
    generalize w.live = live at h hq
    induction live with
    | nil => cases hq
    | cons x live ih =>
        rw [List.map_cons, List.nodup_cons] at h
        rcases List.mem_cons.mp hq with rfl | hrest
        · exact List.lookup_cons_self
        · have hne : (q.1 == x.1) = false := by
            rw [beq_eq_false_iff_ne]
            exact fun heq => h.1 (heq ▸ List.mem_map_of_mem hrest)
          obtain ⟨r, blk⟩ := x
          rw [List.lookup_cons, hne]
          exact ih h.2 hrest
  rw [CompressWorld.blockOf, hlookup]
  rfl

omit [Field F] in
theorem request_inj (h : (b.parts.map (·.request)).Nodup) {p p' : RequestRows F}
    (hp : p ∈ b.parts) (hp' : p' ∈ b.parts) (heq : p.request = p'.request) : p = p' :=
  List.inj_on_of_nodup_map h hp hp' heq

omit [Field F] in
theorem committedRows_of_mem (h : (b.parts.map (·.request)).Nodup) {p : RequestRows F}
    (hp : p ∈ b.parts) :
    committedRows b p.request = p.rows.take (p.rows.length - p.rejected) := by
  have hfind : b.parts.find? (fun p' => p'.request = p.request) = some p := by
    cases hres : b.parts.find? (fun p' => p'.request = p.request) with
    | none =>
        have hnone := List.find?_eq_none.mp hres p hp
        simp at hnone
    | some p' =>
        have heq : p'.request = p.request := by simpa using List.find?_some hres
        rw [request_inj h (List.mem_of_find?_eq_some hres) hp heq]
  rw [committedRows, hfind]
  rfl

omit [Field F] in
theorem committedRows_of_not_mem {request : Nat}
    (h : ∀ p ∈ b.parts, p.request ≠ request) : committedRows b request = [] := by
  have hfind : b.parts.find? (fun p => p.request = request) = none := by
    rw [List.find?_eq_none]
    intro p hp
    simpa using h p hp
  rw [committedRows, hfind]
  rfl

end Requests

/-! ## The stores -/

section Stores

variable {cfg : CompressConfig} {w : CompressWorld F} {b : CompressBatch F} {α : Type}
  [Zero α] {f : RawToken F → Nat → α} {raw : RawRows α} {cache : RowCache α}

omit [Field F] in
/-- Which rows of a step name a slot of a live request's block: a row of this request. -/
theorem ringSlot_eq (hrequests : (w.live.map Prod.fst).Nodup)
    (hblocks : (w.live.map Prod.snd).Nodup) (hsched : Schedulable cfg w b)
    {q : Nat × Nat} (hq : q ∈ w.live) {t : Nat} (ht : t < w.keys.size) {x : BatchRow F}
    (hx : x ∈ batchRows cfg w b)
    (hslot : x.ringSlot = ((q.2 * w.keys.size + t : Nat) : Int)) :
    ∃ i p o token, b.parts[i]? = some p ∧ p.rows[o]? = some token ∧ p.request = q.1 ∧
      x = partRow cfg w b.groupSlot i p o token ∧ p.rows.length ≤ o + w.keys.size ∧
      ((w.committed p.request).length + o) % w.keys.size = t := by
  rcases mem_batchRows hx with ⟨i, p, o, token, hi, ho, rfl⟩ | ⟨token, rfl⟩
  · have hmem : p ∈ b.parts := List.mem_of_getElem? hi
    obtain ⟨q', hq', hfst⟩ := List.mem_map.mp (hsched.2.2 p hmem).1
    have hblock := blockOf_eq hrequests hq'
    rw [hfst] at hblock
    have hpos : 0 < w.keys.size := Nat.lt_of_le_of_lt (Nat.zero_le t) ht
    have hmod := Nat.mod_lt ((w.committed p.request).length + o) hpos
    unfold partRow at hslot
    dsimp only at hslot
    by_cases hlast : p.rows.length ≤ o + w.keys.size
    · rw [if_pos hlast, Int.natCast_inj] at hslot
      have hdiv := congrArg (· / w.keys.size) hslot
      have hrem := congrArg (· % w.keys.size) hslot
      rw [Nat.mul_comm, Nat.mul_add_div hpos, Nat.div_eq_of_lt hmod, Nat.mul_comm q.2,
        Nat.mul_add_div hpos, Nat.div_eq_of_lt ht, Nat.add_zero, Nat.add_zero, hblock] at hdiv
      rw [Nat.mul_comm, Nat.mul_add_mod, Nat.mod_eq_of_lt hmod, Nat.mul_comm q.2,
        Nat.mul_add_mod, Nat.mod_eq_of_lt ht] at hrem
      have heq : q' = q := List.inj_on_of_nodup_map hblocks hq' hq hdiv
      exact ⟨i, p, o, token, hi, ho, heq ▸ hfst.symm, rfl, hlast, hrem⟩
    · rw [if_neg hlast] at hslot
      omega
  · have hneg : (-1 : Int) = ((q.2 * w.keys.size + t : Nat) : Int) := hslot
    omega

variable (hrequests : (w.live.map Prod.fst).Nodup) (hblocks : (w.live.map Prod.snd).Nodup)
  (hsched : Schedulable cfg w b) {q : Nat × Nat} (hq : q ∈ w.live)
  (hin : q.2 < cache.numBlocks) (hsize : cache.size = w.keys.size) {d : Nat}
  (hd : d < cache.width) (hrows : raw.rows = (batchRows cfg w b).length)
  (hraw : ∀ row, raw.data row d = ((batchRows cfg w b)[row]?.map fun y => f y.token d).getD 0)

include hrequests hblocks hsched hq hin hsize hd hrows

include hraw in
omit [Field F] in
/-- A row among the last of its request is found in its slot. -/
theorem store_hit {i o : Nat} {p : RequestRows F} {token : RawToken F}
    (hi : b.parts[i]? = some p) (ho : p.rows[o]? = some token) (hp : p.request = q.1)
    (hlast : p.rows.length ≤ o + w.keys.size) (hpos : 0 < w.keys.size) :
    ((List.range raw.rows).foldl
        (storeQsaRow raw ((batchRows cfg w b).map (·.ringSlot))) cache).data q.2
        (((w.committed p.request).length + o) % w.keys.size) d = f token d := by
  have ht := Nat.mod_lt ((w.committed p.request).length + o) hpos
  rw [foldl_store_data hin (hsize ▸ ht) hd raw.rows (x := f token d)]
  · rw [if_pos]
    have hget := batchRows_get cfg w hi ho
    refine ⟨rowStart b i + o, ?_, ?_⟩
    · rw [hrows]
      exact (List.getElem?_eq_some_iff.mp hget).1
    · have hblock := blockOf_eq hrequests hq
      rw [List.getD_eq_getElem?_getD, List.getElem?_map, hget, hsize, ← hblock, ← hp]
      exact if_pos hlast
  · intro row hrow hslot
    rw [hrows] at hrow
    have hget := List.getElem?_eq_getElem hrow
    rw [List.getD_eq_getElem?_getD, List.getElem?_map, hget, hsize] at hslot
    obtain ⟨i', p', o', token', hi', ho', hp', hx, hlast', hmod⟩ := ringSlot_eq hrequests
      hblocks hsched hq ht (List.getElem_mem hrow) hslot
    have hsame : p' = p := request_inj hsched.2.1 (List.mem_of_getElem? hi')
      (List.mem_of_getElem? hi) (hp'.trans hp.symm)
    subst hsame
    have hlt := (List.getElem?_eq_some_iff.mp ho).1
    have hlt' := (List.getElem?_eq_some_iff.mp ho').1
    have ho_eq : o' = o := by
      by_contra hne
      rcases Nat.lt_or_gt_of_ne hne with hless | hmore
      · exact mod_ne_of_lt w.keys.size (Nat.add_lt_add_left hless _) (by omega)
          hmod.symm
      · exact mod_ne_of_lt w.keys.size (Nat.add_lt_add_left hmore _) (by omega) hmod
    subst ho_eq
    have htoken : token' = token := Option.some.inj (ho'.symm.trans ho)
    rw [hraw, hget, hx, htoken]
    rfl

omit [Field F] [Zero α] in
/-- A slot of a request that none of its last rows takes is left alone. -/
theorem store_miss {t : Nat} (ht : t < w.keys.size)
    (hnone : ∀ p ∈ b.parts, p.request = q.1 → ∀ o < p.rows.length,
      p.rows.length ≤ o + w.keys.size → ((w.committed p.request).length + o) % w.keys.size ≠ t) :
    ((List.range raw.rows).foldl
        (storeQsaRow raw ((batchRows cfg w b).map (·.ringSlot))) cache).data q.2 t d =
      cache.data q.2 t d := by
  have hmiss : ∀ row < raw.rows, ((batchRows cfg w b).map (·.ringSlot)).getD row 0 ≠
      ((q.2 * cache.size + t : Nat) : Int) := by
    intro row hrow hslot
    rw [hrows] at hrow
    have hget := List.getElem?_eq_getElem hrow
    rw [List.getD_eq_getElem?_getD, List.getElem?_map, hget, hsize] at hslot
    obtain ⟨i, p, o, token, hi, ho, hp, _, hlast, hmod⟩ := ringSlot_eq hrequests hblocks
      hsched hq ht (List.getElem_mem hrow) hslot
    exact hnone p (List.mem_of_getElem? hi) hp o (List.getElem?_eq_some_iff.mp ho).1 hlast hmod
  rw [foldl_store_data hin (hsize ▸ ht) hd raw.rows (x := cache.data q.2 t d)
    fun row hrow hslot => absurd hslot (hmiss row hrow)]
  exact if_neg fun ⟨row, hrow, hslot⟩ => hmiss row hrow hslot

include hraw in
omit [Field F] in
/-- The window of a live request after the store. -/
theorem window_store (hpos : 0 < w.keys.size)
    (hfit : cfg.compressRatio - 1 + cfg.maxRejected ≤ w.keys.size)
    (h : Window cache.size (cfg.compressRatio - 1) ((w.committed q.1).map fun y => f y d)
      fun t => cache.data q.2 t d) :
    Window cache.size (cfg.compressRatio - 1)
      ((w.committed q.1 ++ committedRows b q.1).map fun y => f y d)
      fun t => ((List.range raw.rows).foldl
        (storeQsaRow raw ((batchRows cfg w b).map (·.ringSlot))) cache).data q.2 t d := by
  by_cases hmem : ∃ p ∈ b.parts, p.request = q.1
  · obtain ⟨p, hp, hreq⟩ := hmem
    obtain ⟨i, hlt, hi⟩ := List.mem_iff_getElem.mp hp
    have hi : b.parts[i]? = some p := List.getElem?_eq_some_iff.mpr ⟨hlt, hi⟩
    have hrejected := (hsched.2.2 p hp).2
    have hwritten : Written cache.size ((w.committed q.1).map fun y => f y d)
        (p.rows.map fun y => f y d) (fun t => cache.data q.2 t d)
        fun t => ((List.range raw.rows).foldl
          (storeQsaRow raw ((batchRows cfg w b).map (·.ringSlot))) cache).data q.2 t d := by
      refine { new := ?_, old := ?_ }
      · intro o y hlast hy
        rw [List.length_map, hsize] at hlast
        rw [List.getElem?_map] at hy
        obtain ⟨token, ho, rfl⟩ := Option.map_eq_some_iff.mp hy
        rw [List.length_map, hsize, ← hreq]
        exact store_hit hrequests hblocks hsched hq hin hsize hd hrows hraw hi ho hreq hlast hpos
      · intro t ht hnone
        rw [hsize] at ht
        refine store_miss hrequests hblocks hsched hq hin hsize hd hrows ht ?_
        intro p' hp' hreq' o ho hlast
        have hsame := request_inj hsched.2.1 hp' hp (hreq'.trans hreq.symm)
        subst hsame
        have hne := hnone o (by rwa [List.length_map]) (by rwa [List.length_map, hsize])
        rwa [List.length_map, hsize, ← hreq'] at hne
    have hstep := h.step hwritten (hsize ▸ hpos) (k := p.rows.length - p.rejected)
      (by rw [List.length_map]; omega) (by rw [List.length_map, hsize]; omega)
    rw [← hreq, committedRows_of_mem hsched.2.1 hp, List.map_append, List.map_take, hreq]
    exact hstep
  · have hother : ∀ p ∈ b.parts, p.request ≠ q.1 := fun p hp heq => hmem ⟨p, hp, heq⟩
    rw [committedRows_of_not_mem hother, List.append_nil]
    intro r x hr hx
    have ht : r % cache.size < w.keys.size := hsize ▸ Nat.mod_lt r (hsize ▸ hpos)
    have hold := store_miss hrequests hblocks hsched hq hin hsize hd hrows ht
      fun p hp heq => absurd heq (hother p hp)
    exact hold.trans (h r x hr hx)

end Stores

/-! ## A batch -/

section Batch

variable {cfg : CompressConfig} {w : CompressWorld F} {b : CompressBatch F}

/-- The stores of a step. -/
def storedKeys (cfg : CompressConfig) (w : CompressWorld F) (b : CompressBatch F) :
    RowCache F :=
  let rows := batchRows cfg w b
  (List.range rows.length).foldl
    (storeQsaRow (rawKeys w.keys.width rows) (rows.map (·.ringSlot))) w.keys

def storedPositions (cfg : CompressConfig) (w : CompressWorld F) (b : CompressBatch F) :
    RowCache Int :=
  let rows := batchRows cfg w b
  (List.range rows.length).foldl
    (storeQsaRow (rawPositions rows) (rows.map (·.ringSlot))) w.positions

/-- What a step leaves. -/
def compressStep.next (cfg : CompressConfig) (w : CompressWorld F) (b : CompressBatch F) :
    CompressWorld F where
  keys := storedKeys cfg w b
  positions := storedPositions cfg w b
  live := w.live
  committed := fun request => w.committed request ++ committedRows b request
  pooled := fun request group =>
    match groupRow cfg w b request group with
    | some row => some ((compressArgs cfg w b).pooled row,
        (compressArgs cfg w b).firstPosition row)
    | none => w.pooled request group

/-- No check of a step fails. -/
theorem compressStep_ok (h : CompressLayout cfg w) (hsched : Schedulable cfg w b) :
    compressStep cfg w b = .ok (compressStep.next cfg w b) := by
  have hlen : (batchRows cfg w b).length = (compressArgs cfg w b).tokenToReq.length :=
    (List.length_map _).symm
  have hsize : 0 < w.keys.size := Nat.lt_of_lt_of_le h.ratio_pos h.ratio_le
  have hshapes : CompressShapes (compressArgs cfg w b) := by
    refine
      { ratio := h.ratio_pos
        keys := hlen
        positions := ⟨hlen, rfl⟩
        metadata := ⟨(List.length_map _).trans hlen, (List.length_map _).trans hlen⟩
        layout := ⟨h.ratio_le, rfl⟩
        table := Nat.le_refl 1
        starts := ?_
        requests := Nat.le_of_eq numRequests_eq
        rope := ?_
        nonempty := Or.inr ⟨⟨h.nonempty.1, hsize, h.nonempty.2⟩, hsched.1, Nat.one_pos⟩ }
    · show 2 ≤ ((cuSeqlens 0 (b.parts.map (·.rows.length))).map Int.ofNat).length
      rw [List.length_map, length_cuSeqlens, List.length_map]
      exact Nat.succ_le_succ hsched.1
    · intro rope hmem
      have hpositions : rope = w.positions := by
        by_cases hpacked : cfg.packed = true
        · have hsome : (compressArgs cfg w b).ropeCache = some w.positions := if_pos hpacked
          rw [hsome] at hmem
          exact (Option.some.inj hmem).symm
        · have hnone : (compressArgs cfg w b).ropeCache = none := if_neg hpacked
          rw [hnone] at hmem
          cases hmem
      rw [hpositions]
      exact ⟨⟨h.blocks_eq, h.size_eq⟩, h.width_eq⟩
  have hdims : 0 < w.positions.numBlocks ∧ 0 < w.positions.size ∧ 0 < w.positions.width := by
    rw [h.blocks_eq, h.size_eq, h.width_eq]
    exact ⟨h.nonempty.1, hsize, Nat.succ_pos 2⟩
  have hkeys := qsaStoreCacheRows_ok w.keys ((batchRows cfg w b).map (·.ringSlot))
    (rawKeys w.keys.width (batchRows cfg w b))
    ⟨h.nonempty.1, hsize, h.nonempty.2⟩ ⟨(List.length_map _).symm, rfl⟩
  have hpositions := qsaStoreCacheRows_ok w.positions
    ((batchRows cfg w b).map (·.ringSlot)) (rawPositions (batchRows cfg w b)) hdims
    ⟨(List.length_map _).symm, h.width_eq.symm⟩
  unfold compressStep
  dsimp only
  rw [qsaCompressGroupsWithRatio_ok hshapes, ok_bind]
  dsimp only
  rw [hkeys, ok_bind, hpositions, ok_bind]
  rfl

omit [Field F] in
/-- The row that ends a group, when its request has it. -/
theorem groupRow_eq_some {request group row : Nat}
    (h : groupRow cfg w b request group = some row) :
    ∃ i p, b.parts[i]? = some p ∧ p.request = request ∧
      (w.committed request).length ≤ (group + 1) * cfg.compressRatio - 1 ∧
      (group + 1) * cfg.compressRatio - 1 < (w.committed request).length + p.rows.length ∧
      row = rowStart b i +
        ((group + 1) * cfg.compressRatio - 1 - (w.committed request).length) := by
  unfold groupRow at h
  obtain ⟨⟨p, i⟩, hfind, hrow⟩ := Option.bind_eq_some_iff.mp h
  dsimp only at hrow
  split at hrow
  · next hrange =>
      cases hrow
      refine ⟨i, p, List.mem_zipIdx_iff_getElem?.mp (List.mem_of_find?_eq_some hfind), ?_,
        hrange.1, hrange.2, rfl⟩
      simpa using List.find?_some hfind
  · cases hrow

omit [Field F] in
theorem groupRow_eq_none {p : RequestRows F} {group : Nat}
    (hnodup : (b.parts.map (·.request)).Nodup) (hp : p ∈ b.parts)
    (h : groupRow cfg w b p.request group = none) :
    ¬ ((w.committed p.request).length ≤ (group + 1) * cfg.compressRatio - 1 ∧
      (group + 1) * cfg.compressRatio - 1 < (w.committed p.request).length + p.rows.length) := by
  unfold groupRow at h
  cases hres : b.parts.zipIdx.find? (fun q => q.1.request = p.request) with
  | none =>
      obtain ⟨i, hi⟩ := List.mem_iff_getElem?.mp hp
      have hnone := List.find?_eq_none.mp hres (p, i) (List.mem_zipIdx_iff_getElem?.mpr hi)
      simp at hnone
  | some q =>
      have heq : q.1.request = p.request := by simpa using List.find?_some hres
      have hmem : q.1 ∈ b.parts :=
        List.mem_of_getElem? (List.mem_zipIdx_iff_getElem?.mp (List.mem_of_find?_eq_some hres))
      have hsame := request_inj hnodup hmem hp heq
      rw [hres, Option.bind_some, hsame] at h
      intro hrange
      rw [if_pos hrange] at h
      cases h

end Batch

/-! ## Runs -/

section Runs

variable {cfg : CompressConfig} {w w' : CompressWorld F}

theorem GroupPooled.append {width group : Nat} {tokens : List (RawToken F)}
    {out : Option ((Nat → F) × (Nat → Int))} (hratio : 0 < cfg.compressRatio)
    (hgroup : (group + 1) * cfg.compressRatio ≤ tokens.length) (more : List (RawToken F)) :
    GroupPooled cfg width (tokens ++ more) group out ↔ GroupPooled cfg width tokens group out := by
  unfold GroupPooled
  simp only [groupKey_append hgroup, groupPosition_append hratio hgroup]

/-- A group that a batch completes. -/
theorem groupPooled_batch {b : CompressBatch F} (h : CompressInv cfg w)
    (hsched : Schedulable cfg w b) {q : Nat × Nat} (hq : q ∈ w.live) {group : Nat}
    (hgroup : (group + 1) * cfg.compressRatio ≤
      (w.committed q.1 ++ committedRows b q.1).length) :
    GroupPooled cfg w.keys.width (w.committed q.1 ++ committedRows b q.1) group
      ((compressStep.next cfg w b).pooled q.1 group) := by
  have hratio := h.layout.ratio_pos
  have hpos : 0 < (group + 1) * cfg.compressRatio := Nat.mul_pos (Nat.succ_pos group) hratio
  have hpooled : (compressStep.next cfg w b).pooled q.1 group =
      match groupRow cfg w b q.1 group with
      | some row => some ((compressArgs cfg w b).pooled row,
          (compressArgs cfg w b).firstPosition row)
      | none => w.pooled q.1 group := rfl
  rw [hpooled]
  cases hrow : groupRow cfg w b q.1 group with
  | some row =>
      obtain ⟨i, p, hi, hreq, hstart, hlast, rfl⟩ := groupRow_eq_some hrow
      have hp : p ∈ b.parts := List.mem_of_getElem? hi
      obtain ⟨o, ho⟩ : ∃ o, o = (group + 1) * cfg.compressRatio - 1 -
        (w.committed q.1).length := ⟨_, rfl⟩
      have hin : o < p.rows.length := by omega
      have hend : (w.committed p.request).length + o + 1 =
          (group + 1) * cfg.compressRatio := by
        rw [hreq]
        omega
      have hblock : w.blockOf p.request = q.2 := hreq ▸ blockOf_eq h.requests hq
      have hrange := h.inRange q hq
      -- The rows of the step go on behind the committed ones, rejected or not.
      have hseen : seen w p = w.committed q.1 ++ committedRows b q.1 ++
          p.rows.drop (p.rows.length - p.rejected) := by
        rw [← hreq, committedRows_of_mem hsched.2.1 hp, List.append_assoc,
          List.take_append_drop]
      rw [← ho, ← GroupPooled.append hratio hgroup (p.rows.drop (p.rows.length - p.rejected)),
        ← hseen]
      refine ⟨_, _, rfl, fun d hd => ?_, fun d hd => ?_⟩
      · refine pooled_groupEnd hratio hi (List.getElem?_eq_getElem hin) hend (hblock ▸ hrange)
          hd ?_
        rw [hblock, hreq]
        exact h.keys q hq d hd
      · refine firstPosition_groupEnd hratio hi (List.getElem?_eq_getElem hin) hend
          (by rw [hblock, h.layout.blocks_eq]; exact hrange) hd ?_
        rw [hblock, hreq]
        exact h.positions q hq d hd
  | none =>
      have hold : (group + 1) * cfg.compressRatio ≤ (w.committed q.1).length := by
        by_cases hmem : ∃ p ∈ b.parts, p.request = q.1
        · obtain ⟨p, hp, hreq⟩ := hmem
          rw [← hreq] at hrow hgroup ⊢
          have hnone := groupRow_eq_none hsched.2.1 hp hrow
          rw [committedRows_of_mem hsched.2.1 hp, List.length_append, List.length_take] at hgroup
          omega
        · rw [committedRows_of_not_mem fun p hp heq => hmem ⟨p, hp, heq⟩, List.append_nil]
            at hgroup
          exact hgroup
      exact (GroupPooled.append hratio hold _).mpr (h.groups q hq group hold)

/-- A batch keeps the invariant. -/
theorem CompressInv.batch {b : CompressBatch F} (h : CompressInv cfg w)
    (hsched : Schedulable cfg w b) : CompressInv cfg (compressStep.next cfg w b) := by
  have hlayout := h.layout
  have hsize : 0 < w.keys.size := Nat.lt_of_lt_of_le hlayout.ratio_pos hlayout.ratio_le
  obtain ⟨hblocks, hsizes, hwidths⟩ := foldl_store_shape
    (rawKeys w.keys.width (batchRows cfg w b)) ((batchRows cfg w b).map (·.ringSlot)) w.keys
    (batchRows cfg w b).length
  obtain ⟨hblocks', hsizes', hwidths'⟩ := foldl_store_shape
    (rawPositions (batchRows cfg w b)) ((batchRows cfg w b).map (·.ringSlot)) w.positions
    (batchRows cfg w b).length
  have hkeysBlocks : (compressStep.next cfg w b).keys.numBlocks = w.keys.numBlocks := hblocks
  have hkeysSize : (compressStep.next cfg w b).keys.size = w.keys.size := hsizes
  have hkeysWidth : (compressStep.next cfg w b).keys.width = w.keys.width := hwidths
  have hposBlocks : (compressStep.next cfg w b).positions.numBlocks =
    w.positions.numBlocks := hblocks'
  have hposSize : (compressStep.next cfg w b).positions.size = w.positions.size := hsizes'
  have hposWidth : (compressStep.next cfg w b).positions.width = w.positions.width := hwidths'
  refine
    { layout := ?_
      requests := h.requests
      blocks := h.blocks
      inRange := ?_
      keys := ?_
      positions := ?_
      groups := ?_ }
  · exact
      { ratio_pos := hlayout.ratio_pos
        ratio_le := by rw [hkeysSize]; exact hlayout.ratio_le
        rollback := by rw [hkeysSize]; exact hlayout.rollback
        nonempty := by rw [hkeysBlocks, hkeysWidth]; exact hlayout.nonempty
        blocks_eq := by rw [hposBlocks, hkeysBlocks]; exact hlayout.blocks_eq
        size_eq := by rw [hposSize, hkeysSize]; exact hlayout.size_eq
        width_eq := by rw [hposWidth]; exact hlayout.width_eq }
  · rw [hkeysBlocks]
    exact h.inRange
  · rw [hkeysSize, hkeysWidth]
    intro q hq d hd
    exact window_store (f := RawToken.key) h.requests h.blocks hsched hq (h.inRange q hq) rfl hd
      rfl (fun row => rfl) hsize hlayout.rollback (h.keys q hq d hd)
  · rw [hposSize]
    intro q hq d hd
    exact window_store (f := RawToken.position) h.requests h.blocks hsched hq
      (hlayout.blocks_eq ▸ h.inRange q hq) hlayout.size_eq (hlayout.width_eq ▸ hd) rfl
      (fun row => rfl) hsize hlayout.rollback (h.positions q hq d hd)
  · rw [hkeysWidth]
    exact fun q hq group hgroup => groupPooled_batch h hsched hq hgroup

/-- Every action keeps the invariant. -/
theorem stepCompress_inv {a : CompressAction F} (h : CompressInv cfg w)
    (hstep : stepCompress cfg w a = some w') : CompressInv cfg w' := by
  cases a with
  | start request block =>
      simp only [stepCompress] at hstep
      split at hstep
      · next hfree =>
          cases hstep
          obtain ⟨hrequest, hblock, hlt⟩ := hfree
          have hne : ∀ q ∈ w.live, q.1 ≠ request := fun q hq heq =>
            hrequest (heq ▸ List.mem_map_of_mem hq)
          refine
            { layout := { h.layout with }
              requests := List.nodup_cons.mpr ⟨hrequest, h.requests⟩
              blocks := List.nodup_cons.mpr ⟨hblock, h.blocks⟩
              inRange := ?_
              keys := ?_
              positions := ?_
              groups := ?_ }
          · intro q hq
            rcases List.mem_cons.mp hq with rfl | hold
            · exact hlt
            · exact h.inRange q hold
          · intro q hq d hd
            dsimp only
            rcases List.mem_cons.mp hq with rfl | hold
            · rw [if_pos rfl]
              exact window_nil
            · rw [if_neg (hne q hold)]
              exact h.keys q hold d hd
          · intro q hq d hd
            dsimp only
            rcases List.mem_cons.mp hq with rfl | hold
            · rw [if_pos rfl]
              exact window_nil
            · rw [if_neg (hne q hold)]
              exact h.positions q hold d hd
          · intro q hq group hgroup
            dsimp only at hgroup ⊢
            rcases List.mem_cons.mp hq with rfl | hold
            · rw [if_pos rfl] at hgroup
              have hpos := Nat.mul_pos (Nat.succ_pos group) h.layout.ratio_pos
              exact absurd hgroup (Nat.not_le.mpr hpos)
            · rw [if_neg (hne q hold)] at hgroup ⊢
              rw [if_neg (hne q hold)]
              exact h.groups q hold group hgroup
      · cases hstep
  | finish request =>
      cases hstep
      have hsub : (w.live.filter fun q => q.1 ≠ request).Sublist w.live := List.filter_sublist
      exact
        { layout := { h.layout with }
          requests := h.requests.sublist (hsub.map _)
          blocks := h.blocks.sublist (hsub.map _)
          inRange := fun q hq => h.inRange q (hsub.subset hq)
          keys := fun q hq => h.keys q (hsub.subset hq)
          positions := fun q hq => h.positions q (hsub.subset hq)
          groups := fun q hq => h.groups q (hsub.subset hq) }
  | batch b =>
      simp only [stepCompress] at hstep
      split at hstep
      · next hsched =>
          rw [compressStep_ok h.layout hsched] at hstep
          cases hstep
          exact h.batch hsched
      · cases hstep

theorem compressInv_start (hlayout : CompressLayout cfg w) (hlive : w.live = []) :
    CompressInv cfg w where
  layout := hlayout
  requests := by rw [hlive]; exact List.nodup_nil
  blocks := by rw [hlive]; exact List.nodup_nil
  inRange := fun q hq => by rw [hlive] at hq; cases hq
  keys := fun q hq => by rw [hlive] at hq; cases hq
  positions := fun q hq => by rw [hlive] at hq; cases hq
  groups := fun q hq => by rw [hlive] at hq; cases hq

/-- However the tokens of the requests are cut into batches: no batch fails, and every
group that is complete in the committed tokens of a live request was pooled from them. -/
theorem compress_chunking {actions : List (CompressAction F)}
    (hlayout : CompressLayout cfg w) (hlive : w.live = [])
    (hrun : Run (stepCompress cfg) anyStep w actions w') :
    (∀ b, Schedulable cfg w' b → ∃ next, compressStep cfg w' b = .ok next) ∧
    ∀ request ∈ w'.live.map Prod.fst, ∀ group,
      (group + 1) * cfg.compressRatio ≤ (w'.committed request).length →
        GroupPooled cfg w'.keys.width (w'.committed request) group
          (w'.pooled request group) := by
  have hinv : CompressInv cfg w' := hrun.invariant
    (fun _ _ _ h _ hstep => stepCompress_inv h hstep) (compressInv_start hlayout hlive)
  refine ⟨fun b hsched => ⟨_, compressStep_ok hinv.layout hsched⟩, ?_⟩
  intro request hrequest group hgroup
  obtain ⟨q, hq, rfl⟩ := List.mem_map.mp hrequest
  exact hinv.groups q hq group hgroup

end Runs

/-! One request, groups of two: its second row is rejected and comes again. -/

section Sample

def compressSample : CompressConfig := ⟨2, 1, true⟩

def compressSampleStart : CompressWorld Rat where
  keys := ⟨1, 3, 1, fun _ _ _ => 9⟩
  positions := ⟨1, 3, 3, fun _ _ _ => 9⟩
  live := []
  committed := fun _ => []
  pooled := fun _ _ => none

def sampleRows (keys : List Nat) (rejected : Nat) : CompressBatch Rat where
  parts := [⟨7, keys.map fun k : Nat => ⟨fun _ => (k : Rat), fun _ => (k : Int)⟩, rejected⟩]
  padding := []
  groupSlot := fun _ group => group

def compressSampleLive : CompressWorld Rat :=
  { compressSampleStart with
    live := [(7, 0)]
    committed := fun r => if r = 7 then [] else []
    pooled := fun r _ => if r = 7 then none else none }

def compressSampleEnd : CompressWorld Rat :=
  compressStep.next compressSample
    (compressStep.next compressSample compressSampleLive (sampleRows [1, 5] 1))
    (sampleRows [3] 0)

theorem compressSampleLayout : CompressLayout compressSample compressSampleStart where
  ratio_pos := Nat.two_pos
  ratio_le := by decide
  rollback := by decide
  nonempty := ⟨Nat.one_pos, Nat.one_pos⟩
  blocks_eq := rfl
  size_eq := rfl
  width_eq := rfl

theorem compressSample_run : Run (stepCompress compressSample) anyStep compressSampleStart
    [.start 7 0, .batch (sampleRows [1, 5] 1), .batch (sampleRows [3] 0)]
    compressSampleEnd := by
  have hbatch : ∀ w : CompressWorld Rat, ∀ b, CompressLayout compressSample w →
      Schedulable compressSample w b →
      stepCompress compressSample w (.batch b) = some (compressStep.next compressSample w b) := by
    intro w b hlayout hsched
    rw [stepCompress, if_pos hsched, compressStep_ok hlayout hsched]
    rfl
  have hlive : CompressInv compressSample compressSampleLive :=
    stepCompress_inv (a := .start 7 0) (compressInv_start compressSampleLayout rfl) rfl
  have hfirst : Schedulable compressSample compressSampleLive (sampleRows [1, 5] 1) := by
    decide
  have hsecond : Schedulable compressSample
      (compressStep.next compressSample compressSampleLive (sampleRows [1, 5] 1))
      (sampleRows [3] 0) := by decide
  exact .cons trivial rfl (.cons trivial (hbatch _ _ hlive.layout hfirst)
    (.cons trivial (hbatch _ _ (hlive.batch hfirst).layout hsecond) (.nil _)))

theorem compress_chunking_rejected :
    ∃ key first, compressSampleEnd.pooled 7 0 = some (key, first) ∧ key 0 = 2 ∧ first 0 = 1 := by
  obtain ⟨key, first, hpooled, hkey, hfirst⟩ :=
    (compress_chunking compressSampleLayout rfl compressSample_run).2 7 (by decide) 0 (by decide)
  have hmean : groupKey 2 (compressSampleEnd.committed 7) 0 0 = 2 := by
    show (([1, 3] : List Rat).map id).sum / ((2 : Nat) : Rat) = 2
    norm_num
  have hposition : groupPosition true 2 (compressSampleEnd.committed 7) 0 0 = 1 := rfl
  exact ⟨key, first, hpooled, (hkey 0 Nat.one_pos).trans hmean,
    (hfirst 0 (by decide)).trans hposition⟩

end Sample

end FlashNext.Ports.Qsa
