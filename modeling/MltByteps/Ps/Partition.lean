import MltByteps.Ps.Slicer
import Mathlib.Data.List.SplitLengths
import Mathlib.Data.List.ReduceOption
import Mathlib.Algebra.Order.BigOperators.Group.List

/-! What `DefaultSlicer` does to a request of `KVPairs`, and which keys the ranges of the servers
leave it able to send. -/

namespace Ps
open Slices

variable {V : Type}

namespace KVPairs

def lengths (send : KVPairs V) : List ℕ :=
  if send.lens = [] then List.replicate send.keys.length (send.vals.length / send.keys.length)
  else send.lens.map Int.toNat

def entries (send : KVPairs V) : List (ℕ × List V) :=
  send.keys.zip (send.lengths.splitLengths send.vals)

/-- The keys are increasing and every value belongs to one of them. The values lie in an array,
so their number is a `size_t`. -/
structure WellFormed (send : KVPairs V) : Prop where
  sorted : send.keys.Pairwise (· < ·)
  fixed : send.lens = [] → send.keys.length ∣ send.vals.length
  given : send.lens ≠ [] → send.lens.length = send.keys.length
  nonneg : ∀ l ∈ send.lens, 0 ≤ l
  total : send.lens ≠ [] → send.lens.sum = send.vals.length
  size_lt : send.vals.length < 2 ^ 64

def inRange (send : KVPairs V) (r : Range) : List (ℕ × List V) :=
  send.entries.filter fun e => r.Contains e.1

variable {send : KVPairs V}

theorem sum_map_toNat {l : List ℤ} (hl : ∀ x ∈ l, 0 ≤ x) : ((l.map Int.toNat).sum : ℤ) = l.sum := by
  induction l with
  | nil => rfl
  | cons x l ih =>
    obtain ⟨hx, hl⟩ := List.forall_mem_cons.mp hl
    rw [List.map_cons, List.sum_cons, List.sum_cons, Nat.cast_add, Int.toNat_of_nonneg hx, ih hl]

namespace WellFormed

theorem length_lengths (h : send.WellFormed) : send.lengths.length = send.keys.length := by
  unfold lengths
  split_ifs with hlens
  · exact List.length_replicate
  · rw [List.length_map, h.given hlens]

theorem sum_lengths (h : send.WellFormed) : send.lengths.sum = send.vals.length := by
  unfold lengths
  split_ifs with hlens
  · rw [List.sum_replicate, Nat.nsmul_eq_mul, Nat.mul_div_cancel' (h.fixed hlens)]
  · have hsum := sum_map_toNat h.nonneg
    rw [h.total hlens] at hsum
    exact_mod_cast hsum

theorem map_fst_entries (h : send.WellFormed) : send.entries.map Prod.fst = send.keys := by
  rw [entries, List.map_fst_zip]
  rw [List.length_splitLengths, h.length_lengths]

theorem map_snd_entries (h : send.WellFormed) :
    send.entries.map Prod.snd = send.lengths.splitLengths send.vals := by
  rw [entries, List.map_snd_zip]
  rw [List.length_splitLengths, h.length_lengths]

theorem vals_eq (h : send.WellFormed) : send.entries.flatMap Prod.snd = send.vals := by
  rw [List.flatMap_def, h.map_snd_entries, List.flatten_splitLengths _ _ h.sum_lengths.ge]

theorem lengths_eq (h : send.WellFormed) :
    (send.entries.map fun e => e.2.length) = send.lengths := by
  have hlen := List.map_splitLengths_length send.vals send.lengths h.sum_lengths.le
  rwa [← h.map_snd_entries, List.map_map] at hlen

theorem lens_eq (h : send.WellFormed) (hlens : send.lens ≠ []) :
    (send.entries.map fun e => (e.2.length : ℤ)) = send.lens := by
  have hlen := congrArg (List.map fun n : ℕ => (n : ℤ)) h.lengths_eq
  rw [List.map_map, lengths, if_neg hlens, List.map_map] at hlen
  refine Eq.trans hlen ((List.map_congr_left fun l hl => ?_).trans (List.map_id _))
  exact Int.toNat_of_nonneg (h.nonneg l hl)

theorem ofEntries_entries (h : send.WellFormed) :
    ofEntries (decide (send.lens ≠ [])) send.entries = send := by
  rcases send with ⟨keys, vals, lens⟩
  simp only [ofEntries, h.map_fst_entries, h.vals_eq, mk.injEq, true_and]
  by_cases hlens : lens = []
  · simp [hlens]
  · rw [if_pos (by simpa using hlens)]
    exact h.lens_eq hlens

theorem sized (h : send.WellFormed) : Sized (decide (send.lens ≠ [])) send.entries where
  uniform hlens := by
    refine ⟨send.vals.length / send.keys.length, fun e he => ?_⟩
    have hmem : e.2.length ∈ send.lengths := h.lengths_eq ▸ List.mem_map.mpr ⟨e, he, rfl⟩
    rw [lengths, if_pos (by simpa using hlens)] at hmem
    exact List.eq_of_mem_replicate hmem
  size_lt := by
    rw [h.vals_eq]
    exact h.size_lt

theorem sorted_entries (h : send.WellFormed) : send.entries.Pairwise (·.1 < ·.1) := by
  have hsorted := h.sorted
  rwa [← h.map_fst_entries, List.pairwise_map] at hsorted

theorem forall_entries (h : send.WellFormed) {P : ℕ → Prop} :
    (∀ e ∈ send.entries, P e.1) ↔ ∀ k ∈ send.keys, P k := by
  rw [← h.map_fst_entries]
  exact List.forall_mem_map.symm

end WellFormed

end KVPairs

/-! ## The slices of a request -/

/-- The slices of a request: one for each range, flagged if a key lies in it, with these keys,
their lengths and their values, and together the whole request. -/
structure IsPartition (send : KVPairs V) (ranges : List Range)
    (slices : List (Option (KVPairs V))) : Prop where
  length : slices.length = ranges.length
  flagged : ∀ (i : ℕ) (r : Range), ranges[i]? = some r →
    ((∃ part, slices[i]? = some (some part)) ↔ ∃ k ∈ send.keys, r.Contains k)
  keys : ∀ (i : ℕ) (r : Range) (part : KVPairs V), ranges[i]? = some r →
    slices[i]? = some (some part) →
    part.keys = send.keys.filter fun k => r.Contains k
  lens : ∀ (i : ℕ) (r : Range) (part : KVPairs V), ranges[i]? = some r →
    slices[i]? = some (some part) →
    part.lens = ((send.keys.zip send.lens).filter fun e => r.Contains e.1).map Prod.snd
  vals : ∀ (i : ℕ) (r : Range) (part : KVPairs V), ranges[i]? = some r →
    slices[i]? = some (some part) →
    part.vals = (send.inRange r).flatMap Prod.snd
  allKeys : slices.reduceOption.flatMap KVPairs.keys = send.keys
  allLens : slices.reduceOption.flatMap KVPairs.lens = send.lens
  allVals : slices.reduceOption.flatMap KVPairs.vals = send.vals

section

variable {send : KVPairs V} {ranges : List Range}

namespace KVPairs.WellFormed

theorem nil_or_bounded (h : send.WellFormed)
    (hlt : ∀ k ∈ send.keys, ∃ r, ranges.getLast? = some r ∧ k < r.end_) :
    ranges = [] ∧ send.keys = [] ∨
      ∃ top, (ranges.map Range.end_).getLast? = some top ∧ ∀ e ∈ send.entries, e.1 < top := by
  rcases hlast : ranges.getLast? with _ | r
  · refine .inl ⟨List.getLast?_eq_none_iff.mp hlast, ?_⟩
    refine List.eq_nil_iff_forall_not_mem.mpr fun k hk => ?_
    obtain ⟨r, hr, -⟩ := hlt k hk
    rw [hlast] at hr
    cases hr
  · refine .inr ⟨r.end_, by rw [List.getLast?_map, hlast, Option.map_some], ?_⟩
    rw [h.forall_entries (P := (· < r.end_))]
    intro k hk
    obtain ⟨r', hr', hk⟩ := hlt k hk
    obtain rfl : r = r' := Option.some.inj (hlast.symm.trans hr')
    exact hk

theorem defaultSlicer_eq (h : send.WellFormed) (hranges : Contiguous 0 ranges)
    (hlt : ∀ k ∈ send.keys, ∃ r, ranges.getLast? = some r ∧ k < r.end_) :
    defaultSlicer send ranges =
      .ok (ranges.map fun r => slice (decide (send.lens ≠ [])) (send.inRange r)) := by
  rcases h.nil_or_bounded hlt with ⟨rfl, hkeys⟩ | ⟨top, htop, hbound⟩
  · simp only [defaultSlicer, positions, hkeys]
    rfl
  · have hslice := Ps.defaultSlicer_eq hranges htop h.sized h.sorted_entries hbound
    rwa [h.ofEntries_entries] at hslice

theorem flatten_inRange (h : send.WellFormed) (hranges : Contiguous 0 ranges)
    (hlt : ∀ k ∈ send.keys, ∃ r, ranges.getLast? = some r ∧ k < r.end_) :
    (ranges.map send.inRange).flatten = send.entries := by
  rcases h.nil_or_bounded hlt with ⟨rfl, hkeys⟩ | ⟨top, htop, hbound⟩
  · rw [KVPairs.entries, hkeys]
    rfl
  · have hcut := cutAt_ranges hranges h.sorted_entries fun _ _ => Nat.zero_le _
    rw [← flatten_cutAt (f := Prod.fst) htop hbound, hcut]
    rfl

theorem map_fst_inRange (h : send.WellFormed) (r : Range) :
    (send.inRange r).map Prod.fst = send.keys.filter fun k => r.Contains k := by
  rw [← h.map_fst_entries, List.filter_map]
  rfl

theorem zip_lens (h : send.WellFormed) (hlens : send.lens ≠ []) :
    send.keys.zip send.lens = send.entries.map fun e => (e.1, (e.2.length : ℤ)) := by
  rw [← h.lens_eq hlens, ← h.map_fst_entries, List.zip_map']

theorem lens_inRange (h : send.WellFormed) (r : Range) :
    (KVPairs.ofEntries (decide (send.lens ≠ [])) (send.inRange r)).lens =
      ((send.keys.zip send.lens).filter fun e => r.Contains e.1).map Prod.snd := by
  by_cases hlens : send.lens = []
  · simp [KVPairs.ofEntries, hlens]
  · rw [h.zip_lens hlens, List.filter_map, List.map_map]
    simp only [KVPairs.ofEntries, hlens, ne_eq, not_false_eq_true, decide_true, if_true]
    rfl

end KVPairs.WellFormed

theorem slice_eq_some {withLens : Bool} {entries : List (ℕ × List V)} {part : KVPairs V} :
    slice withLens entries = some part ↔ entries ≠ [] ∧ .ofEntries withLens entries = part := by
  unfold slice
  split_ifs with h <;> simp [h]

theorem reduceOption_map_slice {γ : Type} (f : KVPairs V → List γ) (withLens : Bool)
    (hnil : f (.ofEntries withLens []) = [])
    (happend : ∀ as bs, f (.ofEntries withLens (as ++ bs)) =
      f (.ofEntries withLens as) ++ f (.ofEntries withLens bs))
    (pieces : List (List (ℕ × List V))) :
    (pieces.map (slice withLens)).reduceOption.flatMap f =
      f (.ofEntries withLens pieces.flatten) := by
  induction pieces with
  | nil => exact hnil.symm
  | cons p pieces ih =>
    rw [List.map_cons, List.flatten_cons, happend]
    by_cases hp : p = []
    · rw [slice, if_pos hp, List.reduceOption_cons_of_none, ih, hp, hnil, List.nil_append]
    · rw [slice, if_neg hp, List.reduceOption_cons_of_some, List.flatMap_cons, ih]

theorem isPartition_map_slice (h : send.WellFormed) (hranges : Contiguous 0 ranges)
    (hlt : ∀ k ∈ send.keys, ∃ r, ranges.getLast? = some r ∧ k < r.end_) :
    IsPartition send ranges
      (ranges.map fun r => slice (decide (send.lens ≠ [])) (send.inRange r)) := by
  have hpart : ∀ (i : ℕ) (r : Range) (part : KVPairs V), ranges[i]? = some r →
      ((ranges.map fun r => slice (decide (send.lens ≠ [])) (send.inRange r))[i]? =
          some (some part) ↔
        send.inRange r ≠ [] ∧ .ofEntries (decide (send.lens ≠ [])) (send.inRange r) = part) := by
    intro i r part hr
    rw [List.getElem?_map, hr, Option.map_some, Option.some.injEq, slice_eq_some]
  have hjoin := fun (γ : Type) (f : KVPairs V → List γ) hnil happend =>
    reduceOption_map_slice f (decide (send.lens ≠ [])) hnil happend (ranges.map send.inRange)
  simp only [List.map_map, h.flatten_inRange hranges hlt, h.ofEntries_entries] at hjoin
  constructor
  case length => exact List.length_map _
  case flagged =>
    intro i r hr
    have hne : (∃ k ∈ send.keys, r.Contains k) ↔ send.inRange r ≠ [] := by
      rw [← h.map_fst_entries, KVPairs.inRange, Ne, List.filter_eq_nil_iff]
      simp
    rw [hne]
    constructor
    · rintro ⟨part, hp⟩
      exact ((hpart i r part hr).mp hp).1
    · intro hne
      exact ⟨_, (hpart i r _ hr).mpr ⟨hne, rfl⟩⟩
  case keys =>
    intro i r part hr hp
    obtain ⟨-, rfl⟩ := (hpart i r part hr).mp hp
    exact h.map_fst_inRange r
  case lens =>
    intro i r part hr hp
    obtain ⟨-, rfl⟩ := (hpart i r part hr).mp hp
    exact h.lens_inRange r
  case vals =>
    intro i r part hr hp
    obtain ⟨-, rfl⟩ := (hpart i r part hr).mp hp
    rfl
  case allKeys => exact hjoin ℕ _ rfl fun _ _ => List.map_append
  case allLens =>
    refine hjoin ℤ _ ?_ fun as bs => ?_
    · simp [KVPairs.ofEntries]
    · simp only [KVPairs.ofEntries]
      split_ifs
      · exact List.map_append
      · rfl
  case allVals => exact hjoin V _ rfl fun _ _ => List.flatMap_append

theorem defaultSlicer_partitions (send : KVPairs V) (ranges : List Range)
    (h : send.WellFormed) (hranges : Contiguous 0 ranges)
    (hlt : ∀ k ∈ send.keys, ∃ r, ranges.getLast? = some r ∧ k < r.end_) :
    ∃ slices, defaultSlicer send ranges = .ok slices ∧ IsPartition send ranges slices :=
  ⟨_, h.defaultSlicer_eq hranges hlt, isPartition_map_slice h hranges hlt⟩

theorem defaultSlicer_partitions_lens :
    ∃ slices, defaultSlicer (⟨[1, 5], [10, 20, 30], [1, 2]⟩ : KVPairs ℕ)
        [⟨0, 2⟩, ⟨2, 4⟩, ⟨4, 6⟩] = .ok slices ∧
      IsPartition ⟨[1, 5], [10, 20, 30], [1, 2]⟩ [⟨0, 2⟩, ⟨2, 4⟩, ⟨4, 6⟩] slices :=
  defaultSlicer_partitions _ _
    ⟨by decide, by decide, by decide, by decide, by decide, by decide⟩
    ⟨rfl, by decide, rfl, by decide, rfl, by decide, trivial⟩
    (fun k hk => ⟨⟨4, 6⟩, rfl, by
      show k < 6
      simp only [List.mem_cons, List.not_mem_nil, or_false] at hk
      omega⟩)

end

/-! ## The keys the servers have -/

def HasKey (n i k : ℕ) : Prop := ∃ r, (getServerKeyRanges n)[i]? = some r ∧ Range.Contains r k

theorem mem_getServerKeyRanges {n i : ℕ} {r : Range} (hr : (getServerKeyRanges n)[i]? = some r) :
    i < n ∧ r = ⟨kMaxKey / n * i, kMaxKey / n * (i + 1)⟩ := by
  rw [getServerKeyRanges_eq, List.getElem?_map] at hr
  obtain ⟨j, hj, rfl⟩ := Option.map_eq_some_iff.mp hr
  obtain ⟨hi, rfl⟩ := List.getElem?_eq_some_iff.mp hj
  rw [List.length_range] at hi
  exact ⟨hi, by rw [List.getElem_range]⟩

theorem getElem?_getServerKeyRanges {n i : ℕ} (hi : i < n) :
    (getServerKeyRanges n)[i]? = some ⟨kMaxKey / n * i, kMaxKey / n * (i + 1)⟩ := by
  rw [getServerKeyRanges_eq, List.getElem?_map, List.getElem?_range hi]
  rfl

theorem existsUnique_range_iff (n k : ℕ) :
    (∃! i, HasKey n i k) ↔ k < kMaxKey / n * n := by
  constructor
  · rintro ⟨i, ⟨r, hr, hk⟩, -⟩
    obtain ⟨hi, rfl⟩ := mem_getServerKeyRanges hr
    exact hk.2.trans_le (Nat.mul_le_mul_left _ hi)
  · intro hk
    have hpos : 0 < kMaxKey / n := Nat.pos_of_ne_zero fun h => by simp [h] at hk
    refine ⟨k / (kMaxKey / n), ⟨_, getElem?_getServerKeyRanges ?_, ?_, ?_⟩, ?_⟩
    · exact Nat.div_lt_of_lt_mul hk
    · exact Nat.mul_div_le k _
    · exact Nat.lt_mul_div_succ k hpos
    · rintro j ⟨r, hr, hj⟩
      obtain ⟨-, rfl⟩ := mem_getServerKeyRanges hr
      exact (Nat.div_eq_of_lt_le (Nat.mul_comm _ _ ▸ hj.1) (Nat.mul_comm _ _ ▸ hj.2)).symm

theorem lt_of_defaultSlicer {n : ℕ} {send : KVPairs V} (h : send.WellFormed)
    {slices : List (Option (KVPairs V))}
    (hslice : defaultSlicer send (getServerKeyRanges n) = .ok slices) :
    ∀ k ∈ send.keys, k < kMaxKey / n * n := by
  have hranges := contiguous_getServerKeyRanges n
  unfold defaultSlicer at hslice
  rw [← h.map_fst_entries, positions_eq hranges, ok_bind, require_bind_eq_ok, getLast_offsets,
    List.length_map, Nat.zero_add, Option.some.injEq] at hslice
  obtain ⟨rest, hrest⟩ := exists_flatten_cutAt_append (f := Prod.fst)
    ((getServerKeyRanges n).map Range.end_) send.entries
  have hnil : rest = [] := by
    have hlen := congrArg List.length hrest
    rw [List.length_append, hslice.1] at hlen
    exact List.eq_nil_of_length_eq_zero (by omega)
  rw [hnil, List.append_nil, cutAt_ranges hranges h.sorted_entries fun _ _ => Nat.zero_le _]
    at hrest
  rw [← h.forall_entries (P := (· < kMaxKey / n * n))]
  intro e he
  rw [← hrest] at he
  obtain ⟨p, hp, he⟩ := List.mem_flatten.mp he
  obtain ⟨r, hr, rfl⟩ := List.mem_map.mp hp
  obtain ⟨i, hr⟩ := List.mem_iff_getElem?.mp hr
  obtain ⟨hi, rfl⟩ := mem_getServerKeyRanges hr
  have hk := of_decide_eq_true (List.mem_filter.mp he).2
  exact hk.2.trans_le (Nat.mul_le_mul_left _ hi)

/-- The ranges are contiguous and no product wraps, but they end at a multiple of the number of
servers below `kMaxKey`: the keys from there on belong to no server, and no request with one of
them is sent. -/
theorem key_has_server_iff (n : ℕ) (hn : 1 ≤ n) :
    Contiguous 0 (getServerKeyRanges n) ∧
    (∀ i < n, (getServerKeyRanges n)[i]? = some ⟨kMaxKey / n * i, kMaxKey / n * (i + 1)⟩ ∧
      kMaxKey / n * (i + 1) < 2 ^ 64) ∧
    (∀ k ≤ kMaxKey, (∃! i, HasKey n i k) ↔ k < kMaxKey / n * n) ∧
    ∀ send : KVPairs V, send.WellFormed → (∀ k ∈ send.keys, k ≤ kMaxKey) →
      ((∃ slices, defaultSlicer send (getServerKeyRanges n) = .ok slices) ↔
        ∀ k ∈ send.keys, k < kMaxKey / n * n) := by
  refine ⟨contiguous_getServerKeyRanges n, fun i hi => ⟨getElem?_getServerKeyRanges hi, ?_⟩,
    fun k _ => existsUnique_range_iff n k, fun send h _ => ⟨?_, fun hlt => ?_⟩⟩
  · have hle := Nat.mul_le_mul_left (kMaxKey / n) (Nat.succ_le_of_lt hi)
    exact (hle.trans (Nat.div_mul_le_self kMaxKey n)).trans_lt (by decide)
  · rintro ⟨slices, hslice⟩
    exact lt_of_defaultSlicer h hslice
  · refine ⟨_, h.defaultSlicer_eq (contiguous_getServerKeyRanges n) fun k hk => ?_⟩
    have hlast := getLast_getServerKeyRanges hn
    rw [List.getLast?_map] at hlast
    obtain ⟨r, hr, hend⟩ := Option.map_eq_some_iff.mp hlast
    exact ⟨r, hr, hend ▸ hlt k hk⟩

theorem key_has_server_iff_three :
    (∀ k ≤ kMaxKey, (∃! i, HasKey 3 i k) ↔ k < kMaxKey / 3 * 3) ∧
    ((∃ slices, defaultSlicer (⟨[0, 7], [1, 2], []⟩ : KVPairs ℕ) (getServerKeyRanges 3) =
      .ok slices) ↔ ∀ k ∈ [0, 7], k < kMaxKey / 3 * 3) := by
  obtain ⟨-, -, hkey, hslice⟩ := @key_has_server_iff ℕ 3 (by decide)
  refine ⟨hkey, hslice ⟨[0, 7], [1, 2], []⟩ ?_ (by decide)⟩
  exact ⟨by decide, by decide, by decide, by decide, by decide, by decide⟩

/-- A single server does not have the largest key that is allowed. -/
theorem kMaxKey_has_no_server :
    ¬(∃ i, HasKey 1 i kMaxKey) ∧
    defaultSlicer (⟨[kMaxKey], [1], []⟩ : KVPairs ℕ) (getServerKeyRanges 1) = .error .pos := by
  constructor
  · rintro ⟨i, r, hr, hk⟩
    obtain ⟨hi, rfl⟩ := mem_getServerKeyRanges hr
    obtain rfl : i = 0 := by omega
    exact absurd hk.2 (by decide)
  · decide +kernel

end Ps
