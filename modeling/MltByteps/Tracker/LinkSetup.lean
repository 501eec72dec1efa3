import MltByteps.Lib.JoinOrder
import MltByteps.Tracker.AcceptSlaves
import MltByteps.Tracker.LinkMap

/-! The links between slaves that get their ranks one after the other. -/

namespace Tracker

open JoinOrder

/-! ## Links -/

def ringLinks (ringMap : Dict ℕ (ℕ × ℕ)) (a : ℕ) : List ℕ :=
  match ringMap.get? a with
  | some (prev, next) => [prev, next]
  | none => []

def Linked (maps : LinkMaps) (a b : ℕ) : Prop :=
  b ≠ a ∧ (b ∈ neighbors maps.treeMap a ∨ b ∈ ringLinks maps.ringMap a)

instance (maps : LinkMaps) (a b : ℕ) : Decidable (Linked maps a b) :=
  inferInstanceAs (Decidable (_ ∧ _))

/-- The set `nnset` of a rank. -/
def nbrs (maps : LinkMaps) (a : ℕ) : List ℕ :=
  match maps.ringMap.get? a with
  | some (prev, next) => linkSet (neighbors maps.treeMap a) prev next a
  | none => []

theorem mem_linkSet {tree : List ℕ} {prev next a b : ℕ} : b ∈ linkSet tree prev next a ↔
    b ∈ tree ∨ (prev ≠ a ∧ b = prev) ∨ next ≠ a ∧ b = next := by
  unfold linkSet
  dsimp only
  split_ifs with hp hn hn <;> simp only [List.mem_insert_iff, List.mem_dedup] <;> tauto

theorem nodup_linkSet (tree : List ℕ) (prev next a : ℕ) : (linkSet tree prev next a).Nodup := by
  unfold linkSet
  dsimp only
  have h := List.nodup_dedup tree
  split_ifs
  · exact (h.insert).insert
  · exact h.insert
  · exact h.insert
  · exact h

theorem nodup_nbrs (maps : LinkMaps) (a : ℕ) : (nbrs maps a).Nodup := by
  unfold nbrs
  split
  · exact nodup_linkSet _ _ _ _
  · exact List.nodup_nil

theorem exists_linkMaps (order : IterationOrder) {n : ℕ} (hn : 0 < n) : ∃ maps : LinkMaps,
    getLinkMap order n = .ok (maps.treeMap, maps.parentMap, maps.ringMap) ∧
      IsTopology n maps.treeMap maps.parentMap maps.ringMap := by
  obtain ⟨l, hl, h0, treeMap, parentMap, ringMap, hmaps, h⟩ := getLinkMap_spec order hn
  exact ⟨⟨treeMap, parentMap, ringMap⟩, hmaps, h.isTopology hl hn h0⟩

section Topology

variable {n a b : ℕ} {maps : LinkMaps}
  (h : IsTopology n maps.treeMap maps.parentMap maps.ringMap)

include h

theorem ring_get (ha : a < n) : ∃ prev next : ℕ, maps.ringMap.get? a = some (prev, next) ∧
    (prev : ℤ) = ((a : ℤ) - 1) % n ∧ (next : ℤ) = ((a : ℤ) + 1) % n := h.ring a ha

theorem ring_none (ha : ¬a < n) : maps.ringMap.get? a = none :=
  Option.not_isSome_iff_eq_none.mp fun hs => ha ((h.ring_keys a).mp hs)

theorem lt_of_mem_neighbors (hb : b ∈ neighbors maps.treeMap a) : a < n := by
  refine (h.tree_keys a).mp ?_
  rw [neighbors] at hb
  rcases hget : maps.treeMap.get? a with _ | tree
  · rw [hget] at hb
    exact absurd hb List.not_mem_nil
  · rfl

theorem lt_of_mem_ringLinks (hb : b ∈ ringLinks maps.ringMap a) : a < n := by
  by_contra ha
  rw [ringLinks, ring_none h ha] at hb
  exact absurd hb List.not_mem_nil

theorem Linked.lt (hab : Linked maps a b) : a < n :=
  hab.2.elim (lt_of_mem_neighbors h) (lt_of_mem_ringLinks h)

theorem mem_nbrs : b ∈ nbrs maps a ↔ Linked maps a b := by
  by_cases ha : a < n
  · obtain ⟨prev, next, hring, -⟩ := ring_get h ha
    have htree : b ∈ neighbors maps.treeMap a → b ≠ a := fun hb heq => h.irrefl a (heq ▸ hb)
    rw [nbrs, Linked, ringLinks, hring]
    simp only [mem_linkSet, List.mem_cons, List.not_mem_nil, or_false]
    constructor
    · rintro (hb | ⟨hne, rfl⟩ | ⟨hne, rfl⟩)
      · exact ⟨htree hb, .inl hb⟩
      · exact ⟨hne, .inr (.inl rfl)⟩
      · exact ⟨hne, .inr (.inr rfl)⟩
    · rintro ⟨hne, hb | rfl | rfl⟩
      · exact .inl hb
      · exact .inr (.inl ⟨hne, rfl⟩)
      · exact .inr (.inr ⟨hne, rfl⟩)
  · rw [nbrs, ring_none h ha]
    exact iff_of_false List.not_mem_nil fun hab => ha (hab.lt h)

theorem ringLinks_symm (hab : b ∈ ringLinks maps.ringMap a) : a ∈ ringLinks maps.ringMap b := by
  have ha := lt_of_mem_ringLinks h hab
  have hn : (n : ℤ) ≠ 0 := by omega
  have hmod : ∀ z : ℤ, 0 ≤ z % n ∧ z % n < n :=
    fun z => ⟨Int.emod_nonneg z hn, Int.emod_lt_of_pos z (by omega)⟩
  have hself : (a : ℤ) % n = a := Int.emod_eq_of_lt (by omega) (by omega)
  obtain ⟨prev, next, hring, hprev, hnext⟩ := ring_get h ha
  rw [ringLinks, hring] at hab
  simp only [List.mem_cons, List.not_mem_nil, or_false] at hab
  have hb : b < n := by
    have h1 := hmod ((a : ℤ) - 1)
    have h2 := hmod ((a : ℤ) + 1)
    omega
  obtain ⟨prev', next', hring', hprev', hnext'⟩ := ring_get h hb
  rw [ringLinks, hring']
  simp only [List.mem_cons, List.not_mem_nil, or_false]
  rcases hab with rfl | rfl
  · right
    rw [hprev, Int.emod_add_emod, sub_add_cancel, hself] at hnext'
    exact_mod_cast hnext'.symm
  · left
    rw [hnext, Int.emod_sub_emod, add_sub_cancel_right, hself] at hprev'
    exact_mod_cast hprev'.symm

theorem Linked.symm (hab : Linked maps a b) : Linked maps b a :=
  ⟨hab.1.symm, hab.2.imp (h.symm a b) (ringLinks_symm h)⟩

end Topology

/-! ## One slave -/

def SlaveEntry.Plain (s : SlaveEntry) : Prop := s.sock.failed = [] ∧ s.sock.good = []

def SlaveEntry.counted (e : SlaveEntry) : SlaveEntry := { e with waitAccept := e.waitAccept - 1 }

theorem connect_spec {d : Dict ℕ SlaveEntry} {conset : List ℕ}
    (hmem : ∀ r ∈ conset, (d.get? r).isSome) : ∃ connect,
      (conset.mapM fun r => do
        let e ← item d r
        return (e.host, e.port, r)) = Except.ok connect ∧ connect.map (fun x => x.2.2) = conset ∧
      ∀ x ∈ connect, ∃ e, d.get? x.2.2 = some e ∧ x.1 = e.host ∧ x.2.1 = e.port := by
  induction conset with
  | nil => exact ⟨[], rfl, rfl, fun _ hx => absurd hx List.not_mem_nil⟩
  | cons r conset ih =>
    obtain ⟨e, he⟩ := Option.isSome_iff_exists.mp (hmem r List.mem_cons_self)
    obtain ⟨connect, hok, hranks, haddr⟩ := ih fun r' hr' => hmem r' (List.mem_cons_of_mem _ hr')
    refine ⟨(e.host, e.port, r) :: connect, ?_, by rw [List.map_cons, hranks], ?_⟩
    · rw [List.mapM_cons, item, he]
      show (conset.mapM _ >>= fun connect => Except.ok ((e.host, e.port, r) :: connect)) = _
      rw [hok]
      rfl
    · rintro x hx
      rcases List.mem_cons.mp hx with rfl | hx
      · exact ⟨e, he, rfl, rfl⟩
      · exact haddr x hx

theorem countDown_eq {d : Dict ℕ SlaveEntry} {rmset : List ℕ} {r : ℕ} {e : SlaveEntry}
    (he : d.get? r = some e) : countDown (d, rmset) r =
      .ok (d.set r e.counted, if e.waitAccept - 1 = 0 then rmset ++ [r] else rmset) := by
  rw [countDown, item, he]
  rfl

theorem mem_collected {rmset : List ℕ} {r r' : ℕ} {k : ℤ} :
    r' ∈ (if k - 1 = 0 then rmset ++ [r] else rmset) ↔ r' ∈ rmset ∨ r' = r ∧ k = 1 := by
  have hzero : k - 1 = 0 ↔ k = 1 := by omega
  simp only [hzero]
  split_ifs with hk <;> simp [hk]

theorem countDown_loop {d : Dict ℕ SlaveEntry} {conset rmset : List ℕ} (hnodup : conset.Nodup)
    (hmem : ∀ r ∈ conset, (d.get? r).isSome) : ∃ d' rmset',
      conset.foldlM countDown (d, rmset) = .ok (d', rmset') ∧
      (∀ r, d'.get? r = if r ∈ conset then (d.get? r).map SlaveEntry.counted else d.get? r) ∧
      ∀ r, r ∈ rmset' ↔ r ∈ rmset ∨ r ∈ conset ∧ ∃ e, d.get? r = some e ∧ e.waitAccept = 1 := by
  induction conset generalizing d rmset with
  | nil => exact ⟨d, rmset, rfl, fun r => (if_neg List.not_mem_nil).symm, by simp⟩
  | cons r conset ih =>
    obtain ⟨hr, hnodup⟩ := List.nodup_cons.mp hnodup
    obtain ⟨e, he⟩ := Option.isSome_iff_exists.mp (hmem r List.mem_cons_self)
    have hset : ∀ r', (d.set r e.counted).get? r' = if r' = r then some e.counted else d.get? r' :=
      fun r' => Dict.get?_set d r r' e.counted
    obtain ⟨d', rmset', hok, hget, hrm⟩ := @ih (d.set r e.counted)
      (if e.waitAccept - 1 = 0 then rmset ++ [r] else rmset) hnodup (fun r' hr' => by
        rw [hset, if_neg fun heq : r' = r => hr (heq ▸ hr')]
        exact hmem r' (List.mem_cons_of_mem _ hr'))
    refine ⟨d', rmset', ?_, fun r' => ?_, fun r' => ?_⟩
    · rw [List.foldlM_cons, countDown_eq he]
      exact hok
    · rw [hget, hset]
      by_cases hr' : r' = r
      · subst hr'
        rw [if_neg hr, if_pos rfl, if_pos List.mem_cons_self, he]
        rfl
      · rw [if_neg hr']
        simp only [List.mem_cons, hr', false_or]
    · rw [hrm, hset, mem_collected]
      by_cases hr' : r' = r
      · subst hr'
        simp [hr, he]
      · simp [hr']

theorem get?_settle {d d' : Dict ℕ SlaveEntry} {conset rmset : List ℕ}
    (hget : ∀ r, d'.get? r = if r ∈ conset then (d.get? r).map SlaveEntry.counted else d.get? r)
    (hrm : ∀ r, r ∈ rmset ↔ r ∈ ([] : List ℕ) ∨
      r ∈ conset ∧ ∃ e, d.get? r = some e ∧ e.waitAccept = 1) (r : ℕ) :
    (rmset.foldl Dict.erase d').get? r = if r ∈ conset then
      (d.get? r).bind fun e => if e.waitAccept = 1 then none else some e.counted
    else d.get? r := by
  rw [Dict.get?_foldl_erase, hget]
  by_cases hr : r ∈ conset
  · rcases hd : d.get? r with _ | e
    · simp [hr]
    · have hiff : r ∈ rmset ↔ e.waitAccept = 1 := by
        rw [hrm, hd]
        simp [hr]
      simp only [if_pos hr, hiff, Option.map_some, Option.bind_some]
  · have hout : r ∉ rmset := fun h => hr (((hrm r).mp h).resolve_left List.not_mem_nil).1
    rw [if_neg hout, if_neg hr, if_neg hr]

/-! ## What a slave is told -/

abbrev Address := String × ℤ × ℕ

def readConnect : ℕ → List Item → Option (List Address × List Item)
  | 0, items => some ([], items)
  | n + 1, .str host :: .int port :: .int rank :: items => do
    let (connect, items) ← readConnect n items
    return ((host, port, rank.toNat) :: connect, items)
  | _, _ => none

def readRounds : ℕ → List Item → Option (List (List Address))
  | 0, [] => some []
  | k + 1, .int n :: .int _ :: items => do
    let (connect, items) ← readConnect n.toNat items
    let rounds ← readRounds k items
    return connect :: rounds
  | _, _ => none

/-- The slave reads its rank, its parent, the number of slaves, its neighbours in the tree and the
two on the ring. -/
def readGreeting : List Item → Option (List Item)
  | .int _ :: .int _ :: .int _ :: .int n :: items =>
    if n.toNat + 2 ≤ items.length then some (items.drop (n.toNat + 2)) else none
  | _ => none

/-- What a slave gets to know of the others, by what was sent to it: the addresses of each round. -/
def Assignment.heard (a : Assignment) : List (List Address) :=
  ((readGreeting a.sent).bind (readRounds (a.entry.sock.failed.length + 1))).getD []

def Assignment.connects (a : Assignment) : List Address := a.heard.flatten

def Assignment.told (a : Assignment) : List ℕ := a.connects.map fun x => x.2.2

theorem readConnect_append (connect : List Address) (items : List Item) :
    readConnect connect.length
      ((connect.flatMap fun x => [.str x.1, .int x.2.1, .int x.2.2]) ++ items) =
        some (connect, items) := by
  induction connect with
  | nil => rfl
  | cons x connect ih =>
    simp only [List.length_cons, List.flatMap_cons, List.cons_append, List.nil_append, readConnect,
      ih]
    rfl

theorem readRounds_items {rounds : List Round}
    (h : ∀ r ∈ rounds, r.connect.length = r.conset.length) :
    readRounds rounds.length (rounds.flatMap Round.items) = some (rounds.map Round.connect) := by
  induction rounds with
  | nil => rfl
  | cons r rounds ih =>
    have hlen : (r.conset.length : ℤ).toNat = r.connect.length := by
      rw [Int.toNat_natCast, h r List.mem_cons_self]
    have hrest := ih fun r' hr' => h r' (List.mem_cons_of_mem _ hr')
    simp only [List.length_cons, List.flatMap_cons, Round.items, List.cons_append,
      List.nil_append, readRounds, hlen, readConnect_append, Option.bind_eq_bind,
      Option.bind_some, hrest]
    rfl

theorem readGreeting_append {rank parent size prev next : ℤ} {n : ℕ} {tree : List ℤ}
    (htree : tree.length = n) (items : List Item) :
    readGreeting (([rank, parent, size, (n : ℤ)] ++ tree ++ [prev, next]).map .int ++ items) =
      some items := by
  simp only [List.cons_append, List.nil_append, List.map_cons, List.map_append, readGreeting,
    Int.toNat_natCast]
  rw [if_pos (by simp [htree])]
  congr 1
  exact List.drop_left' (by simp [htree])

theorem of_mapM_eq_ok {ε α β : Type} {f : α → Except ε β} {xs : List α} {ys : List β}
    (h : xs.mapM f = .ok ys) : ys.length = xs.length ∧ ∀ y ∈ ys, ∃ x, f x = .ok y := by
  induction xs generalizing ys with
  | nil =>
    cases h
    exact ⟨rfl, fun _ hy => absurd hy List.not_mem_nil⟩
  | cons x xs ih =>
    rw [List.mapM_cons] at h
    obtain ⟨y, hy, h⟩ := bind_eq_ok.mp h
    obtain ⟨ys', hys, h⟩ := bind_eq_ok.mp h
    cases h
    obtain ⟨hlen, hmem⟩ := ih hys
    refine ⟨by rw [List.length_cons, List.length_cons, hlen], fun z hz => ?_⟩
    rcases List.mem_cons.mp hz with rfl | hz
    · exact ⟨x, hy⟩
    · exact hmem z hz

theorem linkRound_connect {order : IterationOrder} {d : Dict ℕ SlaveEntry} {nnset : List ℕ} {i : ℕ}
    {good : List ℤ} {r : Round} (h : linkRound order d nnset i good = .ok r) :
    r.connect.map (fun x => x.2.2) = r.conset := by
  obtain ⟨-, h⟩ := require_bind_eq_ok.mp h
  obtain ⟨connect, hconnect, h⟩ := bind_eq_ok.mp h
  cases h
  obtain ⟨connect', hok, hranks, -⟩ := @connect_spec d _ fun r hr => (List.mem_filter.mp hr).2
  cases hconnect.symm.trans hok
  exact hranks

theorem heard_of_assignRank {order : IterationOrder} {maps : LinkMaps} {d : Dict ℕ SlaveEntry}
    {v : ℕ} {s : SlaveEntry} {a : Assignment}
    (h : assignRank order maps.treeMap maps.parentMap maps.ringMap d v s = .ok a) :
    a.heard = a.rounds.map Round.connect := by
  obtain ⟨tree, -, h⟩ := bind_eq_ok.mp h
  obtain ⟨⟨rprev, rnext⟩, -, h⟩ := bind_eq_ok.mp h
  obtain ⟨parent, -, h⟩ := bind_eq_ok.mp h
  obtain ⟨failed, hfailed, h⟩ := bind_eq_ok.mp h
  obtain ⟨last, hlast, h⟩ := bind_eq_ok.mp h
  obtain ⟨⟨waitConn, rmset⟩, -, h⟩ := bind_eq_ok.mp h
  cases h
  obtain ⟨hcount, hrounds⟩ := of_mapM_eq_ok hfailed
  have hlen : s.sock.failed.length + 1 = (failed ++ [last]).length := by
    rw [List.length_append, hcount, List.length_zipIdx]
    rfl
  have hconnect : ∀ r ∈ failed ++ [last], r.connect.length = r.conset.length := by
    intro r hr
    have hranks : r.connect.map (fun x => x.2.2) = r.conset := by
      rcases List.mem_append.mp hr with hr | hr
      · obtain ⟨x, hx⟩ := hrounds r hr
        exact linkRound_connect hx
      · rw [List.mem_singleton.mp hr]
        exact linkRound_connect hlast
    rw [← hranks, List.length_map]
  have htree : ((order.ofSet 0 tree.dedup).map Int.ofNat).length = tree.dedup.length := by
    rw [List.length_map, (order.ofSet_perm 0 _).length_eq]
  simp only [Assignment.heard, readGreeting_append htree, Option.bind_some, hlen,
    readRounds_items hconnect, Option.getD_some]

/-- What `assign_rank` does for a rank with the given neighbours while the slaves of `d` wait. -/
structure Assigns (d : Dict ℕ SlaveEntry) (nnset : List ℕ) (v : ℕ) (a : Assignment) : Prop where
  rank : a.rank = v
  told : a.told.Perm (nnset.filter fun r => (d.get? r).isSome)
  address : ∀ x ∈ a.connects, ∃ e, d.get? x.2.2 = some e ∧ x.1 = e.host ∧ x.2.1 = e.port
  waitAccept : a.entry.waitAccept = (nnset.length : ℤ) - a.told.length
  waitConn : ∀ r, a.waitConn.get? r = if r ∈ a.told then
    (d.get? r).bind fun e => if e.waitAccept = 1 then none else some e.counted
  else d.get? r

theorem item_of_get? {β : Type} {d : Dict ℕ β} {k : ℕ} {v : β} (h : d.get? k = some v) :
    item d k = .ok v := by
  rw [item, h]
  rfl

theorem linkRound_nil (order : IterationOrder) (d : Dict ℕ SlaveEntry) (nnset : List ℕ) (i : ℕ) :
    ∃ connect, linkRound order d nnset i [] = .ok ⟨order.ofSet i nnset,
      (order.ofSet i nnset).filter fun r => (d.get? r).isSome, connect⟩ ∧
      connect.map (fun x => x.2.2) = (order.ofSet i nnset).filter (fun r => (d.get? r).isSome) ∧
      ∀ x ∈ connect, ∃ e, d.get? x.2.2 = some e ∧ x.1 = e.host ∧ x.2.1 = e.port := by
  have hall : (nnset.filter fun r : ℕ => decide ((r : ℤ) ∉ ([] : List ℤ))) = nnset :=
    List.filter_eq_self.mpr fun r _ => decide_eq_true List.not_mem_nil
  obtain ⟨connect, hok, hranks, haddr⟩ := @connect_spec d
    ((order.ofSet i nnset).filter fun r => (d.get? r).isSome) fun r hr => (List.mem_filter.mp hr).2
  refine ⟨connect, ?_, hranks, haddr⟩
  rw [linkRound, require_bind _ fun r hr => absurd hr List.not_mem_nil]
  dsimp only
  rw [hall, hok, ok_bind]
  rfl

theorem assignRank_plain {n v : ℕ} {maps : LinkMaps} {s : SlaveEntry}
    (h : IsTopology n maps.treeMap maps.parentMap maps.ringMap) (hv : v < n) (hs : s.Plain)
    (order : IterationOrder) (d : Dict ℕ SlaveEntry) : ∃ a,
      assignRank order maps.treeMap maps.parentMap maps.ringMap d v s = .ok a ∧
        Assigns d (nbrs maps v) v a ∧ a.entry.host = s.host := by
  obtain ⟨tree, htree⟩ := Option.isSome_iff_exists.mp ((h.tree_keys v).mpr hv)
  obtain ⟨parent, hparent⟩ := Option.isSome_iff_exists.mp ((h.parent_keys v).mpr hv)
  obtain ⟨prev, next, hring, -⟩ := h.ring v hv
  have hnbrs : nbrs maps v = linkSet tree prev next v := by
    rw [nbrs, hring, neighbors, htree]
    rfl
  obtain ⟨connect, hround, hranks, haddr⟩ := linkRound_nil order d (nbrs maps v) 1
  have hperm := order.ofSet_perm 1 (nbrs maps v)
  have hnodup := hperm.nodup_iff.mpr (nodup_nbrs maps v)
  obtain ⟨d', rmset, hcount, hget, hrm⟩ := @countDown_loop d
    ((order.ofSet 1 (nbrs maps v)).filter fun r => (d.get? r).isSome) [] (hnodup.filter _)
    fun r hr => (List.mem_filter.mp hr).2
  have hlen : s.sock.failed.length + 1 = 1 := by rw [hs.1]; rfl
  have hfailed : (s.sock.failed.zipIdx.mapM fun x =>
      linkRound order d (nbrs maps v) (x.2 + 1) x.1) = .ok [] := by
    rw [hs.1]
    rfl
  have htold : ((order.ofSet 1 (nbrs maps v)).filter fun r => (d.get? r).isSome).Perm
      ((nbrs maps v).filter fun r => (d.get? r).isSome) := hperm.filter _
  generalize (order.ofSet 1 (nbrs maps v)).filter (fun r => (d.get? r).isSome) = conset at *
  have hassign : ∃ a, assignRank order maps.treeMap maps.parentMap maps.ringMap d v s = .ok a ∧
      a.rank = v ∧ a.entry.host = s.host ∧
      a.rounds = [⟨order.ofSet 1 (nbrs maps v), conset, connect⟩] ∧
      a.entry.waitAccept = ((order.ofSet 1 (nbrs maps v)).length : ℤ) - conset.length ∧
      a.waitConn = rmset.foldl Dict.erase d' := by
    rw [assignRank, item_of_get? htree, ok_bind, item_of_get? hring, ok_bind]
    dsimp only
    rw [item_of_get? hparent, ok_bind, ← hnbrs, hfailed, ok_bind, hlen, hs.2, hround, ok_bind]
    dsimp only
    rw [hcount, ok_bind]
    exact ⟨_, rfl, rfl, rfl, rfl, rfl, rfl⟩
  obtain ⟨a, hok, hrank, hhost, hrounds, hwait, hconn⟩ := hassign
  have hconnects : a.connects = connect := by
    rw [Assignment.connects, heard_of_assignRank hok, hrounds]
    exact List.append_nil connect
  have hconset : a.told = conset := by rw [Assignment.told, hconnects, hranks]
  refine ⟨a, hok, ⟨hrank, ?_, ?_, ?_, ?_⟩, hhost⟩
  · rw [hconset]
    exact htold
  · rw [hconnects]
    exact haddr
  · rw [hwait, hconset, ← hperm.length_eq]
  · rw [hconn, hconset]
    exact get?_settle hget hrm

theorem Assigns.get?_eq_some {d : Dict ℕ SlaveEntry} {nnset : List ℕ} {v r : ℕ} {a : Assignment}
    {e : SlaveEntry} (ha : Assigns d nnset v a) (he : a.waitConn.get? r = some e) :
    ∃ e', d.get? r = some e' ∧ e'.host = e.host ∧ e'.port = e.port := by
  rw [ha.waitConn] at he
  split_ifs at he
  · obtain ⟨e', he', he⟩ := Option.bind_eq_some_iff.mp he
    split_ifs at he
    cases he
    exact ⟨e', he', rfl, rfl⟩
  · exact ⟨e, he, rfl, rfl⟩

/-! ## The slaves so far -/

namespace RabitTracker

def assigned (t : RabitTracker) : List ℕ := t.assignments.map Assignment.rank

def hosts (t : RabitTracker) : List String := t.assignments.map fun a => a.entry.host

def told (t : RabitTracker) : List (ℕ × ℕ) :=
  t.assignments.flatMap fun a => a.told.map (Prod.mk a.rank)

/-- The tracker follows the slaves as they join. -/
structure SetUp (maps : LinkMaps) (t : RabitTracker) : Prop where
  nodup : t.assigned.Nodup
  waiting : ∀ r, (t.waitConn.get? r).map SlaveEntry.waitAccept =
    if r ∈ t.assigned ∧ 0 < (remaining (nbrs maps) t.assigned r).length then
      some ((remaining (nbrs maps) t.assigned r).length : ℤ)
    else none
  told : t.told.Perm (links (nbrs maps) t.assigned)
  host : ∀ r e, t.waitConn.get? r = some e → ∃ a ∈ t.assignments,
    a.rank = r ∧ a.entry.host = e.host ∧ a.entry.port = e.port
  address : ∀ a ∈ t.assignments, ∀ x ∈ a.connects, ∃ a' ∈ t.assignments,
    a'.rank = x.2.2 ∧ a'.entry.host = x.1 ∧ a'.entry.port = x.2.1

variable {n v : ℕ} {maps : LinkMaps} {t : RabitTracker} {a : Assignment}
  (h : IsTopology n maps.treeMap maps.parentMap maps.ringMap)

theorem SetUp.congr {t' : RabitTracker} (hset : t.SetUp maps) (hwait : t'.waitConn = t.waitConn)
    (hassign : t'.assignments = t.assignments) : t'.SetUp maps := by
  have hassigned : t'.assigned = t.assigned := congrArg (List.map Assignment.rank) hassign
  have htold : t'.told = t.told := by rw [RabitTracker.told, hassign]; rfl
  refine ⟨?_, ?_, ?_, ?_, ?_⟩
  · exact hassigned ▸ hset.nodup
  · rw [hwait, hassigned]
    exact hset.waiting
  · rw [htold, hassigned]
    exact hset.told
  · rw [hwait, hassign]
    exact hset.host
  · rw [hassign]
    exact hset.address

theorem SetUp.isSome_iff (hset : t.SetUp maps) (r : ℕ) : (t.waitConn.get? r).isSome ↔
    r ∈ t.assigned ∧ 0 < (remaining (nbrs maps) t.assigned r).length := by
  have hwait := hset.waiting r
  rw [← Option.isSome_map (f := SlaveEntry.waitAccept), hwait]
  split_ifs with hr <;> simp [hr]

include h in
theorem SetUp.filter_nbrs (hset : t.SetUp maps) (hv : v ∉ t.assigned) :
    ((nbrs maps v).filter fun r => (t.waitConn.get? r).isSome) =
      present (nbrs maps) t.assigned v := by
  refine List.filter_congr fun r hr => ?_
  rw [Bool.eq_iff_iff, hset.isSome_iff, decide_eq_true_iff]
  refine and_iff_left_of_imp fun hmem => List.length_pos_of_mem (mem_remaining.mpr ⟨?_, hv⟩)
  exact (mem_nbrs h).mpr (((mem_nbrs h).mp hr).symm h)

/-- The slaves that wait once `v` has its rank. -/
def waitAfter (d : Dict ℕ SlaveEntry) (v : ℕ) (a : Assignment) : Dict ℕ SlaveEntry :=
  if 0 < a.entry.waitAccept then d.set v a.entry else d

theorem get?_waitAfter (d : Dict ℕ SlaveEntry) (v : ℕ) (a : Assignment) (r : ℕ) :
    (waitAfter d v a).get? r =
      if r = v ∧ 0 < a.entry.waitAccept then some a.entry else d.get? r := by
  unfold waitAfter
  by_cases hpos : 0 < a.entry.waitAccept
  · rw [if_pos hpos, Dict.get?_set]
    simp only [hpos, and_true]
  · rw [if_neg hpos, if_neg fun hr => hpos hr.2]

include h in
theorem SetUp.mem_told (hset : t.SetUp maps) (hv : v ∉ t.assigned)
    (ha : Assigns t.waitConn (nbrs maps v) v a) {r : ℕ} :
    r ∈ a.told ↔ r ∈ nbrs maps v ∧ r ∈ t.assigned := by
  rw [ha.told.mem_iff, hset.filter_nbrs h hv, mem_present]

include h in
theorem SetUp.waitAccept_assign (hset : t.SetUp maps) (hv : v ∉ t.assigned)
    (ha : Assigns t.waitConn (nbrs maps v) v a) :
    a.entry.waitAccept = (remaining (nbrs maps) (t.assigned ++ [v]) v).length := by
  have hself : v ∉ nbrs maps v := fun hm => ((mem_nbrs h).mp hm).1 rfl
  have hlen := length_remaining_join (nodup_nbrs maps v) hv
  have hsum := @length_present_add_remaining _ _ (nbrs maps) t.assigned v
  rw [if_neg hself] at hlen
  rw [ha.waitAccept, ha.told.length_eq, hset.filter_nbrs h hv]
  omega

include h in
theorem SetUp.waiting_other (hset : t.SetUp maps) (hv : v ∉ t.assigned)
    (ha : Assigns t.waitConn (nbrs maps v) v a) (r : ℕ) :
    (a.waitConn.get? r).map SlaveEntry.waitAccept =
      if r ∈ t.assigned ∧ 0 < (remaining (nbrs maps) (t.assigned ++ [v]) r).length then
        some ((remaining (nbrs maps) (t.assigned ++ [v]) r).length : ℤ)
      else none := by
  have hwait := hset.waiting r
  have hlen := length_remaining_join (nodup_nbrs maps r) hv
  rw [ha.waitConn]
  by_cases hmem : r ∈ a.told
  · obtain ⟨hnbr, hassigned⟩ := (hset.mem_told h hv ha).mp hmem
    have hback : v ∈ nbrs maps r := (mem_nbrs h).mpr (((mem_nbrs h).mp hnbr).symm h)
    rw [if_pos hback] at hlen
    rw [if_pos ⟨hassigned, by omega⟩] at hwait
    obtain ⟨e, he, hcount⟩ := Option.map_eq_some_iff.mp hwait
    rw [if_pos hmem, he, Option.bind_some]
    by_cases hone : e.waitAccept = 1
    · rw [if_pos hone, if_neg (by omega)]
      rfl
    · rw [if_neg hone, if_pos ⟨hassigned, by omega⟩, Option.map_some, SlaveEntry.counted]
      exact congrArg some (by dsimp only; omega)
  · rw [if_neg hmem, hwait]
    by_cases hassigned : r ∈ t.assigned
    · have hback : v ∉ nbrs maps r := fun hm => hmem ((hset.mem_told h hv ha).mpr
        ⟨(mem_nbrs h).mpr (((mem_nbrs h).mp hm).symm h), hassigned⟩)
      rw [if_neg hback, Nat.add_zero] at hlen
      rw [hlen]
    · rw [if_neg fun hc => hassigned hc.1, if_neg fun hc => hassigned hc.1]

include h in
theorem SetUp.waiting_assign (hset : t.SetUp maps) (hv : v ∉ t.assigned)
    (ha : Assigns t.waitConn (nbrs maps v) v a) (r : ℕ) :
    ((waitAfter a.waitConn v a).get? r).map SlaveEntry.waitAccept =
      if r ∈ t.assigned ++ [v] ∧ 0 < (remaining (nbrs maps) (t.assigned ++ [v]) r).length then
        some ((remaining (nbrs maps) (t.assigned ++ [v]) r).length : ℤ)
      else none := by
  rw [get?_waitAfter]
  by_cases hr : r = v
  · subst hr
    have haccept := hset.waitAccept_assign h hv ha
    have hself : r ∉ a.told := fun hm => hv ((hset.mem_told h hv ha).mp hm).2
    have hnone : t.waitConn.get? r = none := by
      rw [← Option.not_isSome_iff_eq_none, hset.isSome_iff]
      exact fun hc => hv hc.1
    rw [ha.waitConn, if_neg hself, hnone]
    by_cases hpos : 0 < a.entry.waitAccept
    · rw [if_pos ⟨rfl, hpos⟩, if_pos ⟨by simp, by omega⟩, Option.map_some, haccept]
    · rw [if_neg fun hc => hpos hc.2, if_neg fun hc => hpos (by omega)]
      rfl
  · rw [if_neg fun hc => hr hc.1, hset.waiting_other h hv ha r]
    simp only [List.mem_append, List.mem_singleton, hr, or_false]

theorem SetUp.host_assign (hset : t.SetUp maps) (ha : Assigns t.waitConn (nbrs maps v) v a) {r : ℕ}
    {e : SlaveEntry} (he : (waitAfter a.waitConn v a).get? r = some e) :
    ∃ a' ∈ t.assignments ++ [a], a'.rank = r ∧ a'.entry.host = e.host ∧
      a'.entry.port = e.port := by
  rw [get?_waitAfter] at he
  split_ifs at he with hr
  · cases he
    exact ⟨a, List.mem_append_right _ (List.mem_singleton_self a), ha.rank.trans hr.1.symm, rfl,
      rfl⟩
  · obtain ⟨e', he', hhost, hport⟩ := ha.get?_eq_some he
    obtain ⟨a', ha', hrank, hhost', hport'⟩ := hset.host r e' he'
    exact ⟨a', List.mem_append_left _ ha', hrank, hhost'.trans hhost, hport'.trans hport⟩

theorem SetUp.address_assign (hset : t.SetUp maps) (ha : Assigns t.waitConn (nbrs maps v) v a)
    {a' : Assignment} (ha' : a' ∈ t.assignments ++ [a]) {x : String × ℤ × ℕ}
    (hx : x ∈ a'.connects) : ∃ b ∈ t.assignments, b.rank = x.2.2 ∧ b.entry.host = x.1 ∧
      b.entry.port = x.2.1 := by
  rcases List.mem_append.mp ha' with ha' | ha'
  · exact hset.address a' ha' x hx
  · rw [List.mem_singleton.mp ha'] at hx
    obtain ⟨e, he, hhost, hport⟩ := ha.address x hx
    obtain ⟨b, hb, hrank, hhost', hport'⟩ := hset.host _ e he
    exact ⟨b, hb, hrank, hhost'.trans hhost.symm, hport'.trans hport.symm⟩

variable {s : SlaveEntry} (passes : ℕ → IterationOrder)

include h in
theorem SetUp.assign (hset : t.SetUp maps) (hv : v ∉ t.assigned) (hlt : v < n) (hs : s.Plain) :
    ∃ t', t.assign passes maps v s = .ok t' ∧ t'.SetUp maps ∧ t'.assigned = t.assigned ++ [v] ∧
      t'.hosts = t.hosts ++ [s.host] ∧
      t' = { t with waitConn := t'.waitConn, assignments := t'.assignments } := by
  obtain ⟨a, hok, ha, hhost⟩ := assignRank_plain h hlt hs (passes v) t.waitConn
  have hassigned : (t.assignments ++ [a]).map Assignment.rank = t.assigned ++ [v] := by
    rw [List.map_append, List.map_singleton, ha.rank]
    rfl
  have hassigned' : RabitTracker.assigned { t with
      waitConn := waitAfter a.waitConn v a, assignments := t.assignments ++ [a] } =
      t.assigned ++ [v] := hassigned
  refine ⟨{ t with waitConn := waitAfter a.waitConn v a, assignments := t.assignments ++ [a] },
    ?_, ⟨?_, ?_, ?_, ?_, ?_⟩, hassigned, ?_, rfl⟩
  · rw [RabitTracker.assign, hok, ok_bind]
    rfl
  · rw [hassigned']
    exact Lists.nodup_append_singleton hset.nodup hv
  · rw [hassigned']
    exact hset.waiting_assign h hv ha
  · rw [hassigned', links_join, RabitTracker.told, List.flatMap_append, List.flatMap_singleton,
      ha.rank, ← hset.filter_nbrs h hv]
    exact hset.told.append (ha.told.map _)
  · exact fun r e he => hset.host_assign ha he
  · intro a' ha' x hx
    obtain ⟨b, hb, hx⟩ := hset.address_assign ha ha' hx
    exact ⟨b, List.mem_append_left _ hb, hx⟩
  · rw [hosts, List.map_append, List.map_singleton, hhost]
    rfl

def assignAll (passes : ℕ → IterationOrder) (maps : LinkMaps) (t : RabitTracker)
    (slaves : List (ℕ × SlaveEntry)) : Except Fault RabitTracker :=
  slaves.foldlM (fun t x => t.assign passes maps x.1 x.2) t

include h in
theorem SetUp.assignAll (hset : t.SetUp maps) {slaves : List (ℕ × SlaveEntry)}
    (hnodup : (t.assigned ++ slaves.map Prod.fst).Nodup)
    (hslaves : ∀ x ∈ slaves, x.1 < n ∧ x.2.Plain) :
    ∃ t', t.assignAll passes maps slaves = .ok t' ∧ t'.SetUp maps ∧
      t'.assigned = t.assigned ++ slaves.map Prod.fst ∧
      t' = { t with waitConn := t'.waitConn, assignments := t'.assignments } := by
  induction slaves generalizing t with
  | nil => exact ⟨t, rfl, hset, (List.append_nil _).symm, rfl⟩
  | cons x slaves ih =>
    obtain ⟨hlt, hplain⟩ := hslaves x List.mem_cons_self
    have hv : x.1 ∉ t.assigned := Lists.notMem_of_nodup_append hnodup
    obtain ⟨t₁, hok, hset₁, hassigned, -, hframe⟩ := hset.assign h passes hv hlt hplain
    have hshift : t₁.assigned ++ slaves.map Prod.fst =
        t.assigned ++ (x :: slaves).map Prod.fst := by
      rw [hassigned, List.append_assoc]
      rfl
    obtain ⟨t', hok', hset', hassigned', hframe'⟩ := ih hset₁ (hshift ▸ hnodup)
      fun y hy => hslaves y (List.mem_cons_of_mem _ hy)
    refine ⟨t', ?_, hset', hassigned'.trans hshift, ?_⟩
    · rw [RabitTracker.assignAll, List.foldlM_cons, hok]
      exact hok'
    · rw [hframe', hframe]

theorem SetUp.init (maps : LinkMaps) (nslave : ℕ) :
    RabitTracker.SetUp maps { nslave } := by
  refine ⟨List.nodup_nil, fun r => ?_, List.Perm.refl _, fun r e he => ?_, fun a ha => ?_⟩
  · rw [if_neg fun hc => List.not_mem_nil hc.1]
    rfl
  · cases he
  · exact absurd ha List.not_mem_nil

structure Links (n : ℕ) (maps : LinkMaps) (t : RabitTracker) : Prop where
  waiting : ∀ r, (t.waitConn.get? r).isSome ↔
    r ∈ t.assigned ∧ ∃ b, Linked maps r b ∧ b ∉ t.assigned
  waitAccept : ∀ r e, t.waitConn.get? r = some e → e.waitAccept =
    ((Finset.range n).filter fun b => Linked maps r b ∧ b ∉ t.assigned).card
  told : ∀ a b, t.told.count (a, b) =
    if Linked maps a b ∧ [b, a].Sublist t.assigned then 1 else 0
  address : ∀ a ∈ t.assignments, ∀ x ∈ a.connects, ∃ a' ∈ t.assignments,
    a'.rank = x.2.2 ∧ a'.entry.host = x.1 ∧ a'.entry.port = x.2.1

include h in
theorem length_remaining_eq (assigned : List ℕ) (r : ℕ) :
    (remaining (nbrs maps) assigned r).length =
      ((Finset.range n).filter fun b => Linked maps r b ∧ b ∉ assigned).card := by
  rw [← List.toFinset_card_of_nodup (nodup_remaining (nodup_nbrs maps r))]
  congr 1
  ext b
  rw [List.mem_toFinset, mem_remaining, mem_nbrs h, Finset.mem_filter, Finset.mem_range]
  exact ⟨fun hb => ⟨(hb.1.symm h).lt h, hb⟩, fun hb => hb.2⟩

include h in
theorem SetUp.links (hset : t.SetUp maps) : t.Links n maps := by
  refine ⟨fun r => ?_, fun r e he => ?_, fun a b => ?_, hset.address⟩
  · rw [hset.isSome_iff, List.length_pos_iff_exists_mem]
    simp only [mem_remaining, mem_nbrs h]
  · have hwait := hset.waiting r
    rw [he, Option.map_some] at hwait
    split_ifs at hwait
    rw [Option.some.inj hwait, length_remaining_eq h]
  · rw [hset.told.count_eq, count_links (nodup_nbrs maps) hset.nodup]
    simp only [mem_nbrs h]

include h in
theorem SetUp.waitConn_eq_nil (hset : t.SetUp maps) (hall : ∀ r < n, r ∈ t.assigned) :
    t.waitConn = [] := by
  refine Dict.eq_nil_of_get? fun r => ?_
  rw [← Option.not_isSome_iff_eq_none, (hset.links h).waiting]
  rintro ⟨-, b, hb, hnot⟩
  exact hnot (hall b ((hb.symm h).lt h))

include h in
theorem SetUp.told_once (hset : t.SetUp maps) (hall : ∀ r < n, r ∈ t.assigned) {a b : ℕ}
    (hab : Linked maps a b) : t.told.count (a, b) + t.told.count (b, a) = 1 := by
  rw [hset.told.count_eq, hset.told.count_eq]
  exact count_links_add (nodup_nbrs maps)
    (fun a b hb => (mem_nbrs h).mpr (((mem_nbrs h).mp hb).symm h))
    (fun a ha => ((mem_nbrs h).mp ha).1 rfl) hset.nodup ((mem_nbrs h).mpr hab)
    (hall a (hab.lt h)) (hall b ((hab.symm h).lt h))

end RabitTracker

/-- For every number of slaves, every order in which they get their ranks and every order of the
iterations. -/
theorem links_set_up (order : IterationOrder) (passes : ℕ → IterationOrder) {n : ℕ} (hn : 0 < n)
    {slaves : List (ℕ × SlaveEntry)} (hranks : (slaves.map Prod.fst).Perm (List.range n))
    (hplain : ∀ x ∈ slaves, x.2.Plain) :
    ∃ maps : LinkMaps, getLinkMap order n = .ok (maps.treeMap, maps.parentMap, maps.ringMap) ∧
      (∀ k ≤ n, ∃ t, RabitTracker.assignAll passes maps { nslave := n } (slaves.take k) = .ok t ∧
        t.assigned = (slaves.map Prod.fst).take k ∧ t.Links n maps) ∧
      ∃ t, RabitTracker.assignAll passes maps { nslave := n } slaves = .ok t ∧
        t.waitConn = [] ∧
        ∀ a b, Linked maps a b → t.told.count (a, b) + t.told.count (b, a) = 1 := by
  obtain ⟨maps, hmaps, h⟩ := exists_linkMaps order hn
  have hslaves : ∀ x ∈ slaves, x.1 < n ∧ x.2.Plain := fun x hx =>
    ⟨List.mem_range.mp (hranks.mem_iff.mp (List.mem_map_of_mem hx)), hplain x hx⟩
  have hrun : ∀ part : List (ℕ × SlaveEntry), part.Sublist slaves →
      ∃ t, RabitTracker.assignAll passes maps { nslave := n } part = .ok t ∧ t.SetUp maps ∧
        t.assigned = part.map Prod.fst := by
    intro part hpart
    have hnodup := (hranks.nodup_iff.mpr List.nodup_range).sublist (hpart.map Prod.fst)
    obtain ⟨t, hok, hset, hassigned, -⟩ := (RabitTracker.SetUp.init maps n).assignAll h passes
      hnodup fun x hx => hslaves x (hpart.subset hx)
    exact ⟨t, hok, hset, hassigned⟩
  refine ⟨maps, hmaps, fun k _ => ?_, ?_⟩
  · obtain ⟨t, hok, hset, hassigned⟩ := hrun _ (List.take_sublist k slaves)
    exact ⟨t, hok, by rw [hassigned, List.map_take], hset.links h⟩
  · obtain ⟨t, hok, hset, hassigned⟩ := hrun slaves (List.Sublist.refl _)
    have hall : ∀ r < n, r ∈ t.assigned := fun r hr => by
      rw [hassigned, hranks.mem_iff]
      exact List.mem_range.mpr hr
    exact ⟨t, hok, hset.waitConn_eq_nil h hall, fun a b hab => hset.told_once h hall hab⟩

def threeSlaves : List (ℕ × SlaveEntry) :=
  [(2, { sock := ⟨[], [], 9002⟩, host := "10.0.0.3" }),
    (1, { sock := ⟨[], [], 9001⟩, host := "10.0.0.2" }),
    (0, { sock := ⟨[], [], 9000⟩, host := "10.0.0.1" })]

theorem links_set_up_three : ∃ (maps : LinkMaps) (t : RabitTracker),
    getLinkMap backwards 3 = .ok (maps.treeMap, maps.parentMap, maps.ringMap) ∧
      RabitTracker.assignAll (fun _ => backwards) maps { nslave := 3 } threeSlaves = .ok t ∧
      t.waitConn = [] ∧ ∀ a b, Linked maps a b → t.told.count (a, b) + t.told.count (b, a) = 1 := by
  obtain ⟨maps, hmaps, -, t, hok, hwait, htold⟩ := @links_set_up backwards (fun _ => backwards) 3
    (by decide) threeSlaves (by decide) (by
      intro x hx
      simp only [threeSlaves, List.mem_cons, List.not_mem_nil, or_false] at hx
      rcases hx with rfl | rfl | rfl <;> exact ⟨rfl, rfl⟩)
  exact ⟨maps, t, hmaps, hok, hwait, htold⟩

end Tracker
