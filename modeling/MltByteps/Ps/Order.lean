import MltByteps.Ps.Completion

/-! Calls with well-formed requests: how they are cut, and that no check of the worker or of a
server with the default handle fails on them. -/

namespace Ps

open Slices

variable {V : Type}

/-! ## Numbered slices -/

section Numbered

variable {slices : List (Option (KVPairs V))}

theorem mem_numbered {i : ℕ} {kvs : KVPairs V} :
    (i, kvs) ∈ numbered slices ↔ slices[i]? = some (some kvs) := by
  unfold numbered
  rw [List.mem_filterMap]
  constructor
  · rintro ⟨⟨x, j⟩, hx, he⟩
    obtain ⟨kvs', rfl, he⟩ := Option.map_eq_some_iff.mp he
    cases he
    simpa [List.mem_zipIdx_iff_getElem?] using hx
  · intro h
    exact ⟨(some kvs, i), by simpa [List.mem_zipIdx_iff_getElem?] using h, rfl⟩

theorem map_snd_numbered (slices : List (Option (KVPairs V))) :
    (numbered slices).map Prod.snd = slices.filterMap id := by
  unfold numbered
  generalize 0 = k
  induction slices generalizing k with
  | nil => rfl
  | cons x slices ih =>
    cases x with
    | none =>
      rw [List.zipIdx_cons, List.filterMap_cons_none rfl, List.filterMap_cons_none rfl, ih]
    | some kvs =>
      simp only [List.zipIdx_cons, List.filterMap_cons, Option.map_some, List.map_cons, ih, id]

theorem nodup_numbered (slices : List (Option (KVPairs V))) :
    ((numbered slices).map Prod.fst).Nodup := by
  have hsub : ((numbered slices).map Prod.fst).Sublist (slices.zipIdx.map Prod.snd) := by
    unfold numbered
    generalize slices.zipIdx = l
    induction l with
    | nil => exact List.Sublist.refl _
    | cons x l ih =>
      rcases x with ⟨_ | kvs, i⟩
      · rw [List.filterMap_cons_none rfl]
        exact ih.trans (List.sublist_cons_self _ _)
      · simp only [List.filterMap_cons, Option.map_some, List.map_cons]
        exact ih.cons_cons i
  refine List.Nodup.sublist hsub ?_
  rw [List.zipIdx_map_snd]
  exact List.nodup_range'

theorem filter_fst_of_mem {β : Type} {l : List (ℕ × β)} (hl : (l.map Prod.fst).Nodup) {i : ℕ}
    {x : β} (h : (i, x) ∈ l) : l.filter (·.1 = i) = [(i, x)] := by
  obtain ⟨pre, post, rfl⟩ := List.append_of_mem h
  rw [List.map_append, List.map_cons, List.nodup_append] at hl
  obtain ⟨-, hcons, hne⟩ := hl
  have hpre : pre.filter (·.1 = i) = [] := List.filter_eq_nil_iff.mpr fun y hy =>
    by simpa using hne _ (List.mem_map_of_mem hy) i List.mem_cons_self
  have hpost : post.filter (·.1 = i) = [] := List.filter_eq_nil_iff.mpr fun y hy => by
    have hnot := (List.nodup_cons.mp hcons).1
    simp only [decide_eq_true_eq]
    intro he
    exact hnot (List.mem_map.mpr ⟨y, hy, he⟩)
  rw [List.filter_append, List.filter_cons_of_pos (by simp), hpre, hpost]
  rfl

end Numbered

/-! ## Well-formed calls -/

/-- The keys of a request: increasing, and below the end of the last range. -/
structure ValidKeys (cfg : Config) (keys : List ℕ) : Prop where
  sorted : keys.Pairwise (· < ·)
  lt : ∀ k ∈ keys, k < kMaxKey / cfg.numServers * cfg.numServers

/-- What a call of `Push` or `Pull` asks for: one value for each key, or a buffer that is empty
or has the right size. -/
inductive ValidCall (cfg : Config) : Bool → KVPairs V → Option Callback → Buffers V → Prop
  | push {keys vals callback out} : ValidKeys cfg keys → vals.length = keys.length →
      (∀ keys', callback ≠ some (.pull keys')) → ValidCall cfg true ⟨keys, vals, []⟩ callback out
  | pull {keys vals} : ValidKeys cfg keys → (vals = [] ∨ vals.length = keys.length) →
      ValidCall cfg false ⟨keys, [], []⟩ (some (.pull keys)) ⟨vals, none⟩

variable {cfg : Config} {keys : List ℕ}

theorem ValidKeys.lt_kMaxKey (h : ValidKeys cfg keys) {k : ℕ} (hk : k ∈ keys) : k < kMaxKey :=
  (h.lt k hk).trans_le (Nat.div_mul_le_self _ _)

def serverRange (cfg : Config) (i : ℕ) : Range :=
  ⟨kMaxKey / cfg.numServers * i, kMaxKey / cfg.numServers * (i + 1)⟩

structure IsSlice (cfg : Config) (kvs : KVPairs V) (i : ℕ) (part : KVPairs V) : Prop where
  server : i < cfg.numServers
  nonempty : part.keys ≠ []
  lens : part.lens = []
  mem : ∀ k ∈ part.keys, (serverRange cfg i).Contains k
  length : kvs.vals.length = kvs.keys.length → part.vals.length = part.keys.length

structure IsSliced [AddCommMonoid V] (cfg : Config) (kvs : KVPairs V)
    (slices : List (Option (KVPairs V))) : Prop where
  slice : ∀ i part, (i, part) ∈ numbered slices → IsSlice cfg kvs i part
  keys_eq : ((numbered slices).map fun x => x.2.keys).flatten = kvs.keys
  value : ∀ i < cfg.numServers, ∀ k, (serverRange cfg i).Contains k →
    (((numbered slices).filter (·.1 = i)).map fun x => x.2.valueAt k).sum = kvs.valueAt k

section Entries

variable {entries : List (ℕ × List V)} {n : ℕ}

def entriesOf (cfg : Config) (entries : List (ℕ × List V)) (i : ℕ) : List (ℕ × List V) :=
  entries.filter fun e => (serverRange cfg i).Contains e.1

theorem mem_entriesOf {i : ℕ} {e : ℕ × List V} :
    e ∈ entriesOf cfg entries i ↔ e ∈ entries ∧ (serverRange cfg i).Contains e.1 := by
  simp [entriesOf]

theorem flatten_entriesOf (hkeys : ValidKeys cfg (entries.map Prod.fst)) :
    ((List.range cfg.numServers).map (entriesOf cfg entries)).flatten = entries := by
  have hranges := contiguous_getServerKeyRanges cfg.numServers
  have hcut := cutAt_ranges hranges (List.pairwise_map.mp hkeys.sorted) fun _ _ => Nat.zero_le _
  have hflat := flatten_cutAt (f := Prod.fst) (getLast_getServerKeyRanges cfg.servers_pos)
    fun e (he : e ∈ entries) => hkeys.lt e.1 (List.mem_map_of_mem he)
  rw [hcut, getServerKeyRanges_eq, List.map_map] at hflat
  exact hflat

theorem defaultSlicer_entries (hkeys : ValidKeys cfg (entries.map Prod.fst)) (hn : n ≤ 1)
    (hlen : ∀ e ∈ entries, e.2.length = n) :
    defaultSlicer (.ofEntries false entries) (getServerKeyRanges cfg.numServers) =
      .ok ((List.range cfg.numServers).map fun i => slice false (entriesOf cfg entries i)) := by
  have hbound : (entries.flatMap Prod.snd).length < 2 ^ 64 := by
    have hle := length_le_of_pairwise_lt hkeys.sorted fun k hk => hkeys.lt_kMaxKey hk
    rw [length_flatMap_uniform hlen]
    rw [List.length_map] at hle
    have hmul : entries.length * n ≤ entries.length * 1 := Nat.mul_le_mul_left _ hn
    unfold kMaxKey at hle
    omega
  rw [defaultSlicer_eq (contiguous_getServerKeyRanges _)
    (getLast_getServerKeyRanges cfg.servers_pos) ⟨fun _ => ⟨n, hlen⟩, hbound⟩
    (List.pairwise_map.mp hkeys.sorted) (fun e he => hkeys.lt e.1 (List.mem_map_of_mem he)),
    getServerKeyRanges_eq, List.map_map]
  rfl

theorem valueAt_ofEntries [AddCommMonoid V] (hn : n ≤ 1) (hlen : ∀ e ∈ entries, e.2.length = n)
    (k : ℕ) : (KVPairs.ofEntries false entries).valueAt k =
      ((entries.filter (·.1 = k)).map fun e => e.2.sum).sum := by
  unfold KVPairs.valueAt KVPairs.ofEntries
  dsimp only
  induction entries with
  | nil => rfl
  | cons e entries ih =>
    obtain ⟨key, vals⟩ := e
    specialize ih fun e he => hlen e (List.mem_cons_of_mem _ he)
    have hvals : vals.length = n := hlen _ List.mem_cons_self
    rcases Nat.le_one_iff_eq_zero_or_eq_one.mp hn with rfl | rfl
    · -- Requests of pulls have no values at all.
      have hnil : ((key, vals) :: entries).flatMap Prod.snd = [] := by
        rw [List.flatMap_eq_nil_iff]
        exact fun e he => List.length_eq_zero_iff.mp (hlen e he)
      rw [hnil, List.zip_nil_right]
      refine (List.sum_eq_zero fun x hx => ?_).symm
      obtain ⟨e, he, rfl⟩ := List.mem_map.mp hx
      rw [List.length_eq_zero_iff.mp (hlen e (List.mem_of_mem_filter he)), List.sum_nil]
    · obtain ⟨v, rfl⟩ := List.length_eq_one_iff.mp hvals
      rw [List.map_cons, List.flatMap_cons, List.singleton_append, List.zip_cons_cons,
        List.filter_cons, List.filter_cons]
      dsimp only
      split_ifs
      · rw [List.map_cons, List.sum_cons, ih, List.map_cons, List.sum_cons, List.sum_singleton]
      · exact ih

theorem flatten_keys_slice (pieces : List (List (ℕ × List V))) :
    (((pieces.map (slice false)).filterMap id).map KVPairs.keys).flatten =
      pieces.flatten.map Prod.fst := by
  induction pieces with
  | nil => rfl
  | cons p pieces ih =>
    rw [List.map_cons, List.flatten_cons, List.map_append, ← ih]
    unfold slice
    by_cases hp : p = []
    · rw [if_pos hp, List.filterMap_cons_none rfl, hp]
      rfl
    · rw [if_neg hp, List.filterMap_cons, id]
      rfl

theorem isSliced_entries [AddCommMonoid V] (hkeys : ValidKeys cfg (entries.map Prod.fst))
    (hn : n ≤ 1) (hlen : ∀ e ∈ entries, e.2.length = n) :
    IsSliced cfg (.ofEntries false entries)
      ((List.range cfg.numServers).map fun i => slice false (entriesOf cfg entries i)) := by
  have hmem : ∀ i part, (i, part) ∈ numbered ((List.range cfg.numServers).map fun i =>
      slice false (entriesOf cfg entries i)) ↔ i < cfg.numServers ∧
        entriesOf cfg entries i ≠ [] ∧ part = .ofEntries false (entriesOf cfg entries i) := by
    intro i part
    rw [mem_numbered, List.getElem?_map, Option.map_eq_some_iff]
    constructor
    · rintro ⟨j, hj, hpart⟩
      obtain ⟨hi, rfl⟩ := List.getElem?_eq_some_iff.mp hj
      rw [List.getElem_range] at hpart
      unfold slice at hpart
      split_ifs at hpart with hnil
      rw [List.length_range] at hi
      exact ⟨hi, hnil, (Option.some.inj hpart).symm⟩
    · rintro ⟨hi, hne, rfl⟩
      exact ⟨i, by simp [hi], if_neg hne⟩
  have hpart : ∀ i, ∀ e ∈ entriesOf cfg entries i, e.2.length = n := fun i e he =>
    hlen e (mem_entriesOf.mp he).1
  refine ⟨?_, ?_, ?_⟩
  · intro i part h
    obtain ⟨hi, hne, rfl⟩ := (hmem i part).mp h
    refine ⟨hi, fun he => hne (List.map_eq_nil_iff.mp he), rfl, ?_, ?_⟩
    · intro k hk
      obtain ⟨e, he, rfl⟩ := List.mem_map.mp hk
      exact (mem_entriesOf.mp he).2
    · intro hl
      unfold KVPairs.ofEntries at hl ⊢
      dsimp only at hl ⊢
      rw [length_flatMap_uniform hlen, List.length_map] at hl
      rw [length_flatMap_uniform (hpart i), List.length_map]
      obtain ⟨e, he⟩ := List.exists_mem_of_ne_nil _ hne
      have hpos : 0 < entries.length := List.length_pos_of_mem (mem_entriesOf.mp he).1
      have hone : n = 1 := by
        rcases Nat.le_one_iff_eq_zero_or_eq_one.mp hn with rfl | rfl
        · omega
        · rfl
      rw [hone, Nat.mul_one]
  · have hflat := flatten_keys_slice ((List.range cfg.numServers).map (entriesOf cfg entries))
    rw [flatten_entriesOf hkeys, List.map_map] at hflat
    rw [← Function.comp_def KVPairs.keys, ← List.map_map, map_snd_numbered]
    exact hflat
  · intro i hi k hk
    have hfilter : entries.filter (·.1 = k) = (entriesOf cfg entries i).filter (·.1 = k) := by
      unfold entriesOf
      rw [List.filter_filter]
      refine List.filter_congr fun e _ => ?_
      by_cases he : e.1 = k
      · simp [he, hk]
      · simp [he]
    rw [valueAt_ofEntries hn hlen, hfilter, ← valueAt_ofEntries hn (hpart i)]
    by_cases hne : entriesOf cfg entries i = []
    · have hnil : (numbered ((List.range cfg.numServers).map fun i =>
          slice false (entriesOf cfg entries i))).filter (·.1 = i) = [] := by
        rw [List.filter_eq_nil_iff]
        rintro ⟨j, part⟩ hj he
        obtain rfl : j = i := by simpa using he
        exact ((hmem j part).mp hj).2.1 hne
      rw [hnil, hne]
      rfl
    · rw [filter_fst_of_mem (nodup_numbered _) ((hmem i _).mpr ⟨hi, hne, rfl⟩)]
      simp

end Entries

theorem ValidCall.length {push : Bool} {kvs : KVPairs V} {callback : Option Callback}
    {out : Buffers V} (h : ValidCall cfg push kvs callback out) (hpush : push = true) :
    kvs.vals.length = kvs.keys.length := by
  cases h with
  | push _ hlen _ => exact hlen
  | pull => cases hpush

theorem ValidCall.sliced [AddCommMonoid V] {push : Bool} {kvs : KVPairs V}
    {callback : Option Callback} {out : Buffers V} (h : ValidCall cfg push kvs callback out) :
    ∃ slices, defaultSlicer kvs (getServerKeyRanges cfg.numServers) = .ok slices ∧
      IsSliced cfg kvs slices := by
  -- The entries of a push have one value and those of a pull have none.
  suffices hentries : ∃ entries n, kvs = .ofEntries false entries ∧
      ValidKeys cfg (entries.map Prod.fst) ∧ n ≤ 1 ∧ ∀ e ∈ entries, e.2.length = n by
    obtain ⟨entries, n, rfl, hkeys, hn, hlen⟩ := hentries
    exact ⟨_, defaultSlicer_entries hkeys hn hlen, isSliced_entries hkeys hn hlen⟩
  cases h with
  | @push keys vals _ _ hkeys hlen _ =>
    have hfst : ((keys.zip vals).map fun x => (x.1, [x.2])).map Prod.fst = keys := by
      rw [List.map_map]
      exact List.map_fst_zip hlen.ge
    have hsnd : ((keys.zip vals).map fun x => (x.1, [x.2])).flatMap Prod.snd = vals := by
      rw [List.flatMap_map]
      exact List.map_eq_flatMap.symm.trans (List.map_snd_zip hlen.le)
    refine ⟨(keys.zip vals).map fun x => (x.1, [x.2]), 1, ?_, hfst.symm ▸ hkeys, le_rfl, ?_⟩
    · rw [KVPairs.ofEntries, hfst, hsnd]
      rfl
    · intro e he
      obtain ⟨x, -, rfl⟩ := List.mem_map.mp he
      rfl
  | @pull keys vals hkeys _ =>
    have hfst : (keys.map fun k => (k, ([] : List V))).map Prod.fst = keys := by
      rw [List.map_map]
      exact List.map_id _
    refine ⟨keys.map fun k => (k, []), 0, ?_, hfst.symm ▸ hkeys, Nat.zero_le 1, ?_⟩
    · rw [KVPairs.ofEntries, hfst, List.flatMap_map]
      simp
    · intro e he
      obtain ⟨x, -, rfl⟩ := List.mem_map.mp he
      rfl

end Ps
