import MltByteps.Ps.Basic
import Mathlib.Algebra.BigOperators.Group.List.Basic

/-! `KVWorker::DefaultSlicer`. A well-formed request is a list of entries, each a key with its
values; the slicer hands every server the entries in its range. -/

namespace Ps
open Slices

variable {V : Type}

/-- The loop over the ranges that finds the positions in `send.keys`. `rest` are the keys from
`begin` on; the first range has no predecessor to meet, so `last` is its own begin. -/
def positionsFrom (last : ℕ) (rest : List ℕ) (pos : ℕ) : List Range → Except Fault (List ℕ)
  | [] => .ok [pos]
  | r :: ranges => do
    require .ranges (last = r.begin_)
    let len := lowerBound rest r.end_
    let tail ← positionsFrom r.end_ (rest.drop len) (pos + len) ranges
    return pos :: tail

def positions (keys : List ℕ) : List Range → Except Fault (List ℕ)
  | [] => .ok [0]
  | r :: ranges =>
    let pos := lowerBound keys r.begin_
    positionsFrom r.begin_ (keys.drop pos) pos (r :: ranges)

/-- The loop that fills the slices; `none` is a slice that is not sent. -/
def sliceLoop (send : KVPairs V) (k valBegin : ℕ) :
    List ℕ → Except Fault (List (Option (KVPairs V)))
  | first :: last :: pos =>
    if last = first then do
      return none :: (← sliceLoop send k valBegin (last :: pos))
    else do
      let keys ← segment send.keys first last
      if send.lens ≠ [] then
        let lens ← segment send.lens first last
        let valEnd := lens.foldl (fun e (l : ℤ) => ((e + l) % 2 ^ 64).toNat) valBegin
        let vals ← segment send.vals valBegin valEnd
        return some ⟨keys, vals, lens⟩ :: (← sliceLoop send k valEnd (last :: pos))
      else
        let vals ← segment send.vals (first * k) (last * k)
        return some ⟨keys, vals, []⟩ :: (← sliceLoop send k valBegin (last :: pos))
  | _ => .ok []

def defaultSlicer (send : KVPairs V) (ranges : List Range) :
    Except Fault (List (Option (KVPairs V))) := do
  let pos ← positions send.keys ranges
  require .pos (pos.getLast? = some send.keys.length)
  if send.keys = [] then return ranges.map fun _ => none
  else if send.lens = [] then
    let k := send.vals.length / send.keys.length
    require .valsSize (k * send.keys.length = send.vals.length)
    sliceLoop send k 0 pos
  else
    require .lensSize (send.keys.length = send.lens.length)
    sliceLoop send 0 0 pos

/-! ## Requests as entries -/

/-- The request that holds the given entries, with or without `lens`. -/
def KVPairs.ofEntries (withLens : Bool) (entries : List (ℕ × List V)) : KVPairs V where
  keys := entries.map Prod.fst
  vals := entries.flatMap Prod.snd
  lens := if withLens then entries.map fun e => (e.2.length : ℤ) else []

/-- Without `lens` all keys have the same number of values; the sizes fit into `size_t`. -/
structure Sized (withLens : Bool) (entries : List (ℕ × List V)) : Prop where
  uniform : withLens = false → ∃ k, ∀ e ∈ entries, e.2.length = k
  size_lt : (entries.flatMap Prod.snd).length < 2 ^ 64

def slice (withLens : Bool) (entries : List (ℕ × List V)) : Option (KVPairs V) :=
  if entries = [] then none else some (.ofEntries withLens entries)

section

variable {entries pre : List (ℕ × List V)} {pieces : List (List (ℕ × List V))} {withLens : Bool}

theorem positionsFrom_eq {lo : ℕ} {ranges : List Range} (hranges : Contiguous lo ranges)
    (pos : ℕ) : positionsFrom lo (entries.map Prod.fst) pos ranges =
      .ok (offsets pos (cutAt Prod.fst (ranges.map Range.end_) entries)) := by
  induction ranges generalizing lo entries pos with
  | nil => rfl
  | cons r ranges ih =>
    obtain ⟨hlo, -, hranges⟩ := hranges
    rw [positionsFrom, require_bind _ hlo.symm]
    dsimp only
    rw [lowerBound_map, ← List.map_drop, drop_takeWhile_length, ih hranges]
    rfl

theorem getLast_offsets (pos : ℕ) (pieces : List (List (ℕ × List V))) :
    (offsets pos pieces).getLast? = some (pos + pieces.flatten.length) := by
  induction pieces generalizing pos with
  | nil => rfl
  | cons p pieces ih =>
    rw [offsets, List.getLast?_cons, ih, Option.getD_some, List.flatten_cons, List.length_append,
      Nat.add_assoc]

theorem foldl_lens (entries : List (ℕ × List V)) (n : ℕ)
    (hn : n + (entries.flatMap Prod.snd).length < 2 ^ 64) :
    (entries.map fun e => (e.2.length : ℤ)).foldl (fun (e : ℕ) l => ((e + l) % 2 ^ 64).toNat) n =
      n + (entries.flatMap Prod.snd).length := by
  induction entries generalizing n with
  | nil => rfl
  | cons e entries ih =>
    rw [List.flatMap_cons, List.length_append] at hn ⊢
    have hstep : (((n : ℤ) + (e.2.length : ℤ)) % 2 ^ 64).toNat = n + e.2.length := by omega
    rw [List.map_cons, List.foldl_cons, hstep, ← Nat.add_assoc]
    exact ih _ (by omega)

theorem length_flatMap_uniform {k : ℕ} (hk : ∀ e ∈ entries, e.2.length = k) :
    (entries.flatMap Prod.snd).length = entries.length * k := by
  rw [List.length_flatMap, List.map_congr_left hk, List.map_const', List.sum_replicate]
  exact Nat.nsmul_eq_mul _ _

theorem sliceLoop_cons {send : KVPairs V} {k valBegin : ℕ} {p : List (ℕ × List V)} :
    sliceLoop send k valBegin (offsets pre.length (p :: pieces)) =
      if p = [] then do
        return none :: (← sliceLoop send k valBegin (offsets (pre ++ p).length pieces))
      else do
        let keys ← segment send.keys pre.length (pre ++ p).length
        if send.lens ≠ [] then
          let lens ← segment send.lens pre.length (pre ++ p).length
          let valEnd := lens.foldl (fun e (l : ℤ) => ((e + l) % 2 ^ 64).toNat) valBegin
          let vals ← segment send.vals valBegin valEnd
          return some ⟨keys, vals, lens⟩ ::
            (← sliceLoop send k valEnd (offsets (pre ++ p).length pieces))
        else
          let vals ← segment send.vals (pre.length * k) ((pre ++ p).length * k)
          return some ⟨keys, vals, []⟩ ::
            (← sliceLoop send k valBegin (offsets (pre ++ p).length pieces)) := by
  have htail : offsets (pre.length + p.length) pieces =
      (pre.length + p.length) :: (offsets (pre.length + p.length) pieces).tail := by
    cases pieces <;> rfl
  rw [offsets, htail, sliceLoop, ← htail, List.length_append]
  simp only [Nat.add_eq_left, List.length_eq_zero_iff]

section

variable {p post : List (ℕ × List V)}

theorem segment_map {α : Type} (f : ℕ × List V → α) :
    segment ((pre ++ p ++ post).map f) pre.length (pre ++ p).length = .ok (p.map f) := by
  rw [List.map_append, List.map_append, List.append_assoc]
  exact segment_append (by simp) (by simp)

theorem segment_flatMap {first last : ℕ} (hfirst : first = (pre.flatMap Prod.snd).length)
    (hlast : last = first + (p.flatMap Prod.snd).length) :
    segment ((pre ++ p ++ post).flatMap Prod.snd) first last = .ok (p.flatMap Prod.snd) := by
  rw [List.flatMap_append, List.flatMap_append, List.append_assoc]
  exact segment_append hfirst (hfirst ▸ hlast)

end

theorem sliceLoop_eq {k valBegin : ℕ}
    (hk : withLens = false → ∀ e ∈ pre ++ pieces.flatten, e.2.length = k)
    (hv : withLens = true → valBegin = (pre.flatMap Prod.snd).length)
    (hsize : ((pre ++ pieces.flatten).flatMap Prod.snd).length < 2 ^ 64) :
    sliceLoop (.ofEntries withLens (pre ++ pieces.flatten)) k valBegin
      (offsets pre.length pieces) = .ok (pieces.map (slice withLens)) := by
  induction pieces generalizing pre valBegin with
  | nil => rfl
  | cons p pieces ih =>
    have hassoc : pre ++ (p :: pieces).flatten = (pre ++ p) ++ pieces.flatten := by simp
    rw [sliceLoop_cons, hassoc]
    rw [hassoc] at hk hsize
    by_cases hp : p = []
    · subst hp
      rw [if_pos rfl, ih hk (by simpa using hv) hsize]
      rfl
    · rw [if_neg hp]
      rw [List.flatMap_append, List.flatMap_append, List.length_append, List.length_append]
        at hsize
      simp only [KVPairs.ofEntries, segment_map, ok_bind]
      cases withLens with
      | true =>
        have hne : ((pre ++ p ++ pieces.flatten).map fun e => (e.2.length : ℤ)) ≠ [] := by
          simp [hp]
        have hend := foldl_lens p valBegin (by rw [hv rfl]; omega)
        have hnext : valBegin + (p.flatMap Prod.snd).length =
            ((pre ++ p).flatMap Prod.snd).length := by
          rw [hv rfl, List.flatMap_append, List.length_append]
        have htail := ih hk (fun _ => hnext)
          (by simp only [List.flatMap_append, List.length_append]; omega)
        simp only [KVPairs.ofEntries, if_true] at htail
        simp only [if_true, if_pos hne, segment_map, ok_bind, hend, segment_flatMap (hv rfl) rfl,
          htail, List.map_cons, slice, if_neg hp, KVPairs.ofEntries]
        rfl
      | false =>
        have hpre := length_flatMap_uniform fun e he => hk rfl e
          (List.mem_append_left _ (List.mem_append_left p he))
        have hmid := length_flatMap_uniform fun e he => hk rfl e
          (List.mem_append_left _ (List.mem_append_right pre he))
        have hvals : segment ((pre ++ p ++ pieces.flatten).flatMap Prod.snd) (pre.length * k)
            ((pre ++ p).length * k) = .ok (p.flatMap Prod.snd) :=
          segment_flatMap hpre.symm (by rw [hmid, List.length_append, Nat.add_mul])
        have htail := @ih (pre ++ p) valBegin hk (fun h => nomatch h)
          (by simp only [List.flatMap_append, List.length_append]; omega)
        simp only [KVPairs.ofEntries, Bool.false_eq_true, if_false] at htail
        simp only [Bool.false_eq_true, if_false, ne_eq, not_true, hvals, ok_bind, htail,
          List.map_cons, slice, if_neg hp, KVPairs.ofEntries]
        rfl

/-! ## The slicer -/

theorem Contiguous.zip {lo : ℕ} {ranges : List Range} (h : Contiguous lo ranges) :
    (lo :: ranges.map Range.end_).zip (ranges.map Range.end_) =
      ranges.map fun r => (r.begin_, r.end_) := by
  induction ranges generalizing lo with
  | nil => rfl
  | cons r ranges ih =>
    obtain ⟨rfl, -, h⟩ := h
    rw [List.map_cons, List.zip_cons_cons, ih h, List.map_cons]

theorem Contiguous.pairwise {lo : ℕ} {ranges : List Range} (h : Contiguous lo ranges) :
    (lo :: ranges.map Range.end_).Pairwise (· ≤ ·) := by
  induction ranges generalizing lo with
  | nil => exact List.pairwise_singleton _ _
  | cons r ranges ih =>
    obtain ⟨rfl, hle, h⟩ := h
    refine List.pairwise_cons.mpr ⟨fun e he => ?_, ih h⟩
    rcases List.mem_cons.mp he with rfl | he
    · exact hle
    · exact hle.trans ((List.pairwise_cons.mp (ih h)).1 e he)

theorem cutAt_ranges {lo : ℕ} {ranges : List Range} (hranges : Contiguous lo ranges)
    (hsorted : entries.Pairwise (·.1 < ·.1)) (hlo : ∀ e ∈ entries, lo ≤ e.1) :
    cutAt Prod.fst (ranges.map Range.end_) entries =
      ranges.map fun r => entries.filter fun e => r.Contains e.1 := by
  rw [cutAt_eq_filter hsorted hlo hranges.pairwise, hranges.zip, List.map_map]
  rfl

theorem positions_eq {ranges : List Range} (hranges : Contiguous 0 ranges) :
    positions (entries.map Prod.fst) ranges =
      .ok (offsets 0 (cutAt Prod.fst (ranges.map Range.end_) entries)) := by
  cases ranges with
  | nil => rfl
  | cons r ranges =>
    have hzero : lowerBound (entries.map Prod.fst) r.begin_ = 0 := by
      rw [hranges.1]
      exact @lowerBound_append ℕ _ [] _ 0 (fun _ h => nomatch h) fun _ _ => Nat.zero_le _
    unfold positions
    dsimp only
    rw [hzero, hranges.1]
    exact positionsFrom_eq hranges 0

theorem defaultSlicer_eq {ranges : List Range} {top : ℕ} (hranges : Contiguous 0 ranges)
    (htop : (ranges.map Range.end_).getLast? = some top) (hsized : Sized withLens entries)
    (hsorted : entries.Pairwise (·.1 < ·.1)) (hlt : ∀ e ∈ entries, e.1 < top) :
    defaultSlicer (.ofEntries withLens entries) ranges =
      .ok (ranges.map fun r => slice withLens (entries.filter fun e => r.Contains e.1)) := by
  have hcut := cutAt_ranges hranges hsorted fun _ _ => Nat.zero_le _
  have hflat := flatten_cutAt (f := Prod.fst) htop hlt
  have hloop : ∀ k, (withLens = false → ∀ e ∈ entries, e.2.length = k) →
      sliceLoop (.ofEntries withLens entries) k 0
        (offsets 0 (cutAt Prod.fst (ranges.map Range.end_) entries)) =
          .ok (ranges.map fun r => slice withLens (entries.filter fun e => r.Contains e.1)) := by
    intro k hk
    have h := @sliceLoop_eq _ [] (cutAt Prod.fst (ranges.map Range.end_) entries) withLens k 0
    rw [List.nil_append, hflat] at h
    rw [hcut, List.map_map] at h
    rw [hcut]
    exact h hk (fun _ => rfl) hsized.size_lt
  unfold defaultSlicer
  rw [show (KVPairs.ofEntries withLens entries).keys = entries.map Prod.fst from rfl,
    positions_eq hranges, ok_bind, require_bind _ (by
      rw [getLast_offsets, hflat, List.length_map, Nat.zero_add])]
  by_cases hne : entries = []
  · subst hne
    rfl
  · rw [if_neg (by simpa using hne)]
    have hpos := List.length_pos_of_ne_nil hne
    cases withLens with
    | true =>
      rw [if_neg (by simpa [KVPairs.ofEntries] using hne),
        require_bind _ (by simp [KVPairs.ofEntries])]
      exact hloop 0 fun h => nomatch h
    | false =>
      obtain ⟨k, hk⟩ := hsized.uniform rfl
      have hlen : (KVPairs.ofEntries false entries).vals.length = entries.length * k :=
        length_flatMap_uniform hk
      rw [if_pos (show (KVPairs.ofEntries false entries).lens = [] from rfl)]
      dsimp only
      rw [hlen, List.length_map, Nat.mul_div_cancel_left k hpos,
        require_bind _ (Nat.mul_comm _ _)]
      exact hloop k fun _ => hk

end

end Ps
