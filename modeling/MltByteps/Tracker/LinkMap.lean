import MltByteps.Tracker.Topology
import Mathlib.Data.Finset.Card
import Mathlib.Data.Sym.Sym2
import Mathlib.Logic.Relation
import Mathlib.Order.Interval.Finset.Nat

/-! The ranks numbered along the ring. -/

namespace Tracker

open HeapTree

/-! ## Positions on the ring -/

section Positions

variable {n i x : ℕ} {l : List ℕ}

def place (l : List ℕ) (i : ℕ) : ℕ := l.getD i 0

variable (hl : l.Perm (List.range n))

include hl

theorem length_ring : l.length = n := by rw [hl.length_eq, List.length_range]

theorem nodup_ring : l.Nodup := hl.nodup_iff.mpr List.nodup_range

theorem mem_ring : x ∈ l ↔ x < n := by rw [hl.mem_iff, List.mem_range]

theorem place_eq (hi : i < n) : l[i]? = some (place l i) := by
  have hlen := length_ring hl
  rw [place, List.getD_eq_getElem?_getD, List.getElem?_eq_getElem (by omega)]
  rfl

theorem place_lt (hi : i < n) : place l i < n :=
  (mem_ring hl).mp (List.mem_of_getElem? (place_eq hl hi))

theorem idxOf_lt (hx : x < n) : l.idxOf x < n := by
  rw [← length_ring hl]
  exact List.idxOf_lt_length_of_mem ((mem_ring hl).mpr hx)

theorem place_idxOf (hx : x < n) : place l (l.idxOf x) = x := by
  have hlt := List.idxOf_lt_length_of_mem ((mem_ring hl).mpr hx)
  rw [place, List.getD_eq_getElem?_getD, List.getElem?_eq_getElem hlt, List.getElem_idxOf]
  rfl

theorem idxOf_place (hi : i < n) : l.idxOf (place l i) = i := by
  obtain ⟨hlt, he⟩ := List.getElem?_eq_some_iff.mp (place_eq hl hi)
  rw [← he]
  exact (nodup_ring hl).idxOf_getElem i hlt

theorem map_place : (List.range n).map (place l) = l := by
  refine List.ext_getElem? fun i => ?_
  rw [List.getElem?_map]
  by_cases hi : i < n
  · rw [List.getElem?_range hi, place_eq hl hi]
    rfl
  · have hlen := length_ring hl
    rw [List.getElem?_eq_none (by simpa using hi), List.getElem?_eq_none (by omega)]
    rfl

theorem map_idxOf : l.map l.idxOf = List.range n := by
  calc l.map l.idxOf = ((List.range n).map (place l)).map l.idxOf := by rw [map_place hl]
    _ = (List.range n).map id := by
      rw [List.map_map]
      exact List.map_congr_left fun i hi => idxOf_place hl (List.mem_range.mp hi)
    _ = List.range n := List.map_id _

end Positions

theorem elem_eq {n i : ℕ} {l : List ℕ} (hl : l.Perm (List.range n)) (hi : i < n) :
    elem l i = .ok (place l i) := by
  rw [elem, place_eq hl hi]
  rfl

theorem mapM_eq_ok {ε α β : Type} {f : α → Except ε β} {g : α → β} {xs : List α}
    (h : ∀ x ∈ xs, f x = .ok (g x)) : xs.mapM f = .ok (xs.map g) := by
  induction xs with
  | nil => rfl
  | cons x xs ih =>
    rw [List.mapM_cons, h x List.mem_cons_self, ok_bind,
      ih fun y hy => h y (List.mem_cons_of_mem _ hy)]
    rfl

/-! ## The ring and the new numbers -/

section Link

variable (order : IterationOrder) {n : ℕ} {l : List ℕ}

def ringOf (n : ℕ) (l : List ℕ) : Dict ℕ (ℕ × ℕ) :=
  (List.range n).map fun r => (place l r, place l ((r + n - 1) % n), place l ((r + 1) % n))

theorem keys_ringOf (hl : l.Perm (List.range n)) : (ringOf n l).keys = l := by
  rw [Dict.keys, ringOf, List.map_map]
  exact map_place hl

theorem getRing_eq (hn : 0 < n) (hl : l.Perm (List.range n))
    (hring : findShareRing order (getTree n).1 (getTree n).2 n 0 = .ok l) :
    getRing order (getTree n).1 (getTree n).2 = .ok (ringOf n l) := by
  have hparent : item (getTree n).2 0 = .ok (parentOf 0) := by
    rw [getTree_eq]
    exact item_range parentOf hn
  have hlen : (getTree n).1.length = n := by
    rw [getTree_eq, List.length_map, List.length_range]
  rw [getRing, hparent, ok_bind, require_bind _ (show parentOf 0 = -1 from rfl), hlen, hring,
    ok_bind, require_bind _ (length_ring hl)]
  refine Dict.foldlM_set (fun r hr d => ?_) ?_
  · have hlt := List.mem_range.mp hr
    dsimp only
    rw [elem_eq hl (Nat.mod_lt _ hn), ok_bind, elem_eq hl (Nat.mod_lt _ hn), ok_bind,
      elem_eq hl hlt, ok_bind]
    rfl
  · show ((List.range n).map (place l)).Nodup
    rw [map_place hl]
    exact nodup_ring hl

theorem number_loop (hl : l.Perm (List.range n)) (h0 : place l 0 = 0) {m : ℕ} (hm : m < n) :
    (List.range m).foldlM (fun (s : ℕ × Dict ℕ ℕ) i => do
      let link ← item (ringOf n l) s.1
      return (link.2, s.2.set link.2 (i + 1))) (0, [(0, 0)]) =
        .ok (place l m, (List.range (m + 1)).map fun j => (place l j, j)) := by
  induction m with
  | zero =>
    rw [h0]
    simp [h0]
    rfl
  | succ m ih =>
    have hlink : item (ringOf n l) (place l m) =
        .ok (place l ((m + n - 1) % n), place l (m + 1)) := by
      rw [item_eq_ok ((keys_ringOf hl).symm ▸ nodup_ring hl)]
      refine List.mem_map.mpr ⟨m, List.mem_range.mpr (by omega), ?_⟩
      rw [Nat.mod_eq_of_lt hm]
    have hnot : place l (m + 1) ∉
        Dict.keys ((List.range (m + 1)).map fun j => (place l j, j)) := by
      intro hmem
      obtain ⟨x, hx, he⟩ := List.mem_map.mp hmem
      obtain ⟨j, hj, rfl⟩ := List.mem_map.mp hx
      have hj := List.mem_range.mp hj
      have := congrArg l.idxOf he
      rw [idxOf_place hl (by omega), idxOf_place hl hm] at this
      omega
    rw [List.range_succ, List.foldlM_append, ih (by omega), ok_bind, List.foldlM_cons]
    dsimp only
    rw [hlink, ok_bind]
    dsimp only
    rw [Dict.set_eq_of_notMem hnot, @List.range_succ (m + 1), List.map_append]
    rfl

def rmapOf (n : ℕ) (l : List ℕ) : Dict ℕ ℕ := (List.range n).map fun j => (place l j, j)

theorem item_rmapOf (hl : l.Perm (List.range n)) {x : ℕ} (hx : x < n) :
    item (rmapOf n l) x = .ok (l.idxOf x) := by
  have hkeys : (rmapOf n l).keys = l := by
    rw [Dict.keys, rmapOf, List.map_map]
    exact map_place hl
  rw [item_eq_ok (hkeys.symm ▸ nodup_ring hl)]
  exact List.mem_map.mpr ⟨l.idxOf x, List.mem_range.mpr (idxOf_lt hl hx), by
    rw [place_idxOf hl hx]⟩

theorem relabel (hl : l.Perm (List.range n)) {β γ : Type} {d : Dict ℕ β}
    (hd : d.keys.Perm (List.range n)) {F : Dict ℕ γ → ℕ × β → Except Fault (Dict ℕ γ)}
    {f : ℕ × β → γ} (hF : ∀ x ∈ d, ∀ e, F e x = .ok (e.set (l.idxOf x.1) (f x))) :
    ∃ d', (order.ofItems d).foldlM F [] = .ok d' ∧ (∀ i, (d'.get? i).isSome ↔ i < n) ∧
      ∀ x ∈ d, d'.get? (l.idxOf x.1) = some (f x) := by
  have hitems := order.ofItems_perm d
  -- The new keys are the positions.
  have hkeys : ((order.ofItems d).map fun x => l.idxOf x.1).Perm (List.range n) := by
    have hmap := ((hitems.map Prod.fst).trans (hd.trans hl.symm)).map l.idxOf
    rwa [List.map_map, map_idxOf hl] at hmap
  have hnodup : (Dict.keys ((order.ofItems d).map fun x => (l.idxOf x.1, f x))).Nodup := by
    rw [Dict.keys, List.map_map]
    exact hkeys.nodup_iff.mpr List.nodup_range
  refine ⟨(order.ofItems d).map fun x => (l.idxOf x.1, f x), ?_, fun i => ?_, fun x hx => ?_⟩
  · exact Dict.foldlM_set (fun x hx => hF x (hitems.mem_iff.mp hx))
      (hkeys.nodup_iff.mpr List.nodup_range)
  · rw [Dict.isSome_get?_iff hnodup, Dict.keys, List.map_map, ← List.mem_range]
    exact hkeys.mem_iff
  · rw [Dict.get?_eq_some_iff hnodup]
    exact List.mem_map.mpr ⟨x, hitems.mem_iff.mpr hx, rfl⟩

theorem numberRanks_eq (hn : 0 < n) (hl : l.Perm (List.range n)) (h0 : place l 0 = 0) :
    numberRanks (ringOf n l) n = .ok (rmapOf n l) := by
  have hlt : n - 1 < n := by omega
  rw [numberRanks, number_loop hl h0 hlt, ok_bind, Nat.sub_add_cancel hn]
  rfl

theorem ringEntry_eq (hn : 0 < n) (hl : l.Perm (List.range n)) {x : ℕ × ℕ × ℕ}
    (hx : x ∈ ringOf n l) (d : Dict ℕ (ℕ × ℕ)) : ringEntry (rmapOf n l) d x =
      .ok (d.set (l.idxOf x.1) (l.idxOf x.2.1, l.idxOf x.2.2)) := by
  obtain ⟨r, hr, rfl⟩ := List.mem_map.mp hx
  rw [ringEntry, item_rmapOf hl (place_lt hl (Nat.mod_lt _ hn)), ok_bind,
    item_rmapOf hl (place_lt hl (Nat.mod_lt _ hn)), ok_bind,
    item_rmapOf hl (place_lt hl (List.mem_range.mp hr)), ok_bind]
  rfl

theorem treeEntry_eq (hl : l.Perm (List.range n)) {x : ℕ × List ℕ} (hx : x ∈ (getTree n).1)
    (d : Dict ℕ (List ℕ)) :
    treeEntry (rmapOf n l) d x = .ok (d.set (l.idxOf x.1) (x.2.map l.idxOf)) := by
  rw [getTree_eq] at hx
  obtain ⟨r, hr, rfl⟩ := List.mem_map.mp hx
  have hr := List.mem_range.mp hr
  rw [treeEntry, mapM_eq_ok fun y hy => item_rmapOf hl ((mem_getNeighbor hr).mp hy).1, ok_bind,
    item_rmapOf hl hr, ok_bind]
  rfl

theorem parentEntry_eq (hl : l.Perm (List.range n)) {x : ℕ × ℤ} (hx : x ∈ (getTree n).2)
    (d : Dict ℕ ℤ) : parentEntry (rmapOf n l) d x = .ok (d.set (l.idxOf x.1)
      (if x.1 ≠ 0 then (l.idxOf (parent x.1) : ℤ) else -1)) := by
  rw [getTree_eq] at hx
  obtain ⟨r, hr, rfl⟩ := List.mem_map.mp hx
  have hr := List.mem_range.mp hr
  rw [parentEntry, item_rmapOf hl hr]
  dsimp only
  split_ifs with h0
  · have hlt := parent_lt h0
    rw [parentOf_eq h0]
    show (Except.map Int.ofNat (item (rmapOf n l) (parent r)) >>= _) = _
    rw [item_rmapOf hl (by omega)]
    rfl
  · rfl

/-- The maps of the tracker, by the ranks before they were numbered along the ring. -/
structure Relabelled (n : ℕ) (l : List ℕ) (treeMap : Dict ℕ (List ℕ)) (parentMap : Dict ℕ ℤ)
    (ringMap : Dict ℕ (ℕ × ℕ)) : Prop where
  tree_keys : ∀ i, (treeMap.get? i).isSome ↔ i < n
  parent_keys : ∀ i, (parentMap.get? i).isSome ↔ i < n
  ring_keys : ∀ i, (ringMap.get? i).isSome ↔ i < n
  tree : ∀ x < n, treeMap.get? (l.idxOf x) = some ((getNeighbor x n).map l.idxOf)
  parent : ∀ x < n, parentMap.get? (l.idxOf x) =
    some (if x ≠ 0 then (l.idxOf (parent x) : ℤ) else -1)
  ring : ∀ i < n, ringMap.get? i = some ((i + n - 1) % n, (i + 1) % n)

theorem getLinkMap_spec (hn : 0 < n) : ∃ l, l.Perm (List.range n) ∧ place l 0 = 0 ∧
    ∃ treeMap parentMap ringMap, getLinkMap order n = .ok (treeMap, parentMap, ringMap) ∧
      Relabelled n l treeMap parentMap ringMap := by
  obtain ⟨rest, hring, hl⟩ := exists_ring_order order hn
  generalize hlist : 0 :: rest = l at hring hl
  have h0 : place l 0 = 0 := by rw [← hlist]; rfl
  have hrange : ∀ {β : Type} (f : ℕ → β),
      Dict.keys ((List.range n).map fun r => (r, f r)) = List.range n := by
    intro β f
    rw [Dict.keys, List.map_map]
    exact List.map_id _
  have htree : (getTree n).1.keys.Perm (List.range n) := by
    rw [getTree_eq, hrange]
  have hparent : (getTree n).2.keys.Perm (List.range n) := by
    rw [getTree_eq, hrange]
  obtain ⟨ringMap, hringMap, hringKeys, hringGet⟩ :=
    relabel order hl ((keys_ringOf hl).symm ▸ hl) fun x hx => ringEntry_eq hn hl hx
  obtain ⟨treeMap, htreeMap, htreeKeys, htreeGet⟩ :=
    relabel order hl htree fun x hx => treeEntry_eq hl hx
  obtain ⟨parentMap, hparentMap, hparentKeys, hparentGet⟩ :=
    relabel order hl hparent fun x hx => parentEntry_eq hl hx
  refine ⟨l, hl, h0, treeMap, parentMap, ringMap, ?_, htreeKeys, hparentKeys, hringKeys, ?_, ?_,
    ?_⟩
  · rw [getLinkMap, getRing_eq order hn hl hring, ok_bind, numberRanks_eq hn hl h0, ok_bind,
      hringMap, ok_bind, htreeMap, ok_bind, hparentMap, ok_bind]
    rfl
  · intro x hx
    refine htreeGet (x, getNeighbor x n) ?_
    rw [getTree_eq]
    exact List.mem_map.mpr ⟨x, List.mem_range.mpr hx, rfl⟩
  · intro x hx
    refine hparentGet (x, parentOf x) ?_
    rw [getTree_eq]
    exact List.mem_map.mpr ⟨x, List.mem_range.mpr hx, rfl⟩
  · intro i hi
    have hi' := hringGet _ (List.mem_map.mpr ⟨i, List.mem_range.mpr hi, rfl⟩)
    rwa [idxOf_place hl hi, idxOf_place hl (Nat.mod_lt _ hn), idxOf_place hl (Nat.mod_lt _ hn)]
      at hi'

end Link

/-! ## The topology -/

def neighbors (treeMap : Dict ℕ (List ℕ)) (i : ℕ) : List ℕ := (treeMap.get? i).getD []

/-- The undirected edges of a neighbour relation on the first `n` numbers. -/
def edges (n : ℕ) (treeMap : Dict ℕ (List ℕ)) : Finset (Sym2 ℕ) :=
  (Finset.range n).biUnion fun i => ((neighbors treeMap i).map fun j => s(i, j)).toFinset

/-- What the slaves rely on. -/
structure IsTopology (n : ℕ) (treeMap : Dict ℕ (List ℕ)) (parentMap : Dict ℕ ℤ)
    (ringMap : Dict ℕ (ℕ × ℕ)) : Prop where
  tree_keys : ∀ i, (treeMap.get? i).isSome ↔ i < n
  parent_keys : ∀ i, (parentMap.get? i).isSome ↔ i < n
  ring_keys : ∀ i, (ringMap.get? i).isSome ↔ i < n
  ring : ∀ i < n, ∃ prev next : ℕ, ringMap.get? i = some (prev, next) ∧
    (prev : ℤ) = ((i : ℤ) - 1) % n ∧ (next : ℤ) = ((i : ℤ) + 1) % n
  symm : ∀ i j, j ∈ neighbors treeMap i → i ∈ neighbors treeMap j
  nodup : ∀ i, (neighbors treeMap i).Nodup
  irrefl : ∀ i, i ∉ neighbors treeMap i
  card_edges : (edges n treeMap).card = n - 1
  root : parentMap.get? 0 = some (-1)
  parent : ∀ i, i ≠ 0 → i < n → ∃ p : ℕ, parentMap.get? i = some (p : ℤ) ∧ p ∈ neighbors treeMap i
  reaches : ∀ i < n, Relation.ReflTransGen (fun a b : ℕ => parentMap.get? a = some (b : ℤ)) i 0

namespace Relabelled

variable {n i j : ℕ} {l : List ℕ} {treeMap : Dict ℕ (List ℕ)} {parentMap : Dict ℕ ℤ}
  {ringMap : Dict ℕ (ℕ × ℕ)} (h : Relabelled n l treeMap parentMap ringMap)
  (hl : l.Perm (List.range n))

include h hl

theorem neighbors_eq (hi : i < n) :
    neighbors treeMap i = (getNeighbor (place l i) n).map l.idxOf := by
  have hget := h.tree (place l i) (place_lt hl hi)
  rw [idxOf_place hl hi] at hget
  rw [neighbors, hget]
  rfl

theorem mem_neighbors : j ∈ neighbors treeMap i ↔ i < n ∧ j < n ∧
    (place l i ≠ 0 ∧ place l j = HeapTree.parent (place l i) ∨
      place l j ≠ 0 ∧ place l i = HeapTree.parent (place l j)) := by
  by_cases hi : i < n
  · rw [neighbors_eq h hl hi, List.mem_map, and_iff_right hi]
    constructor
    · rintro ⟨y, hy, rfl⟩
      obtain ⟨hyn, hy⟩ := (mem_getNeighbor (place_lt hl hi)).mp hy
      rw [place_idxOf hl hyn]
      exact ⟨idxOf_lt hl hyn, hy⟩
    · rintro ⟨hj, hadj⟩
      exact ⟨place l j, (mem_getNeighbor (place_lt hl hi)).mpr ⟨place_lt hl hj, hadj⟩,
        idxOf_place hl hj⟩
  · have hnone : treeMap.get? i = none :=
      Option.not_isSome_iff_eq_none.mp fun hs => hi ((h.tree_keys i).mp hs)
    rw [neighbors, hnone]
    exact iff_of_false List.not_mem_nil fun hadj => hi hadj.1

omit h in
theorem idxOf_inj {x y : ℕ} (hx : x < n) (hy : y < n) (he : l.idxOf x = l.idxOf y) : x = y := by
  rw [← place_idxOf hl hx, he, place_idxOf hl hy]

theorem edges_eq : edges n treeMap =
    (Finset.Ico 1 n).image fun r => s(l.idxOf r, l.idxOf (HeapTree.parent r)) := by
  ext e
  simp only [edges, Finset.mem_biUnion, Finset.mem_range, List.mem_toFinset, List.mem_map,
    Finset.mem_image, Finset.mem_Ico, mem_neighbors h hl]
  constructor
  · rintro ⟨i, hi, j, ⟨-, hj, ⟨h0, hp⟩ | ⟨h0, hp⟩⟩, rfl⟩
    · refine ⟨place l i, ⟨Nat.pos_of_ne_zero h0, place_lt hl hi⟩, ?_⟩
      rw [← hp, idxOf_place hl hi, idxOf_place hl hj]
    · refine ⟨place l j, ⟨Nat.pos_of_ne_zero h0, place_lt hl hj⟩, ?_⟩
      rw [← hp, idxOf_place hl hi, idxOf_place hl hj, Sym2.eq_swap]
  · rintro ⟨r, ⟨h0, hr⟩, rfl⟩
    have h0 : r ≠ 0 := Nat.ne_of_gt h0
    have hlt := (parent_lt h0).trans hr
    refine ⟨l.idxOf r, idxOf_lt hl hr, l.idxOf (HeapTree.parent r),
      ⟨idxOf_lt hl hr, idxOf_lt hl hlt, .inl ?_⟩, rfl⟩
    rw [place_idxOf hl hr, place_idxOf hl hlt]
    exact ⟨h0, rfl⟩

theorem card_edges : (edges n treeMap).card = n - 1 := by
  rw [edges_eq h hl, Finset.card_image_of_injOn, Nat.card_Ico]
  intro r hr r' hr' he
  obtain ⟨h0, hr⟩ := Finset.mem_Ico.mp hr
  obtain ⟨h0', hr'⟩ := Finset.mem_Ico.mp hr'
  have hp := parent_lt (Nat.ne_of_gt h0)
  have hp' := parent_lt (Nat.ne_of_gt h0')
  rcases Sym2.eq_iff.mp he with ⟨he, -⟩ | ⟨he, he'⟩
  · exact idxOf_inj hl hr hr' he
  · -- Two ranks are not the parents of each other.
    have hrp := idxOf_inj hl hr (hp'.trans hr') he
    have hpr := idxOf_inj hl (hp.trans hr) hr' he'
    omega

omit hl in
theorem ring_links (hi : i < n) : ∃ prev next : ℕ, ringMap.get? i = some (prev, next) ∧
    (prev : ℤ) = ((i : ℤ) - 1) % n ∧ (next : ℤ) = ((i : ℤ) + 1) % n := by
  refine ⟨_, _, h.ring i hi, ?_, ?_⟩
  · rw [Int.natCast_mod, Nat.cast_sub (by omega), Nat.cast_add, Nat.cast_one,
      add_sub_right_comm, Int.add_emod_right]
  · push_cast
    rfl

theorem nodup_neighbors (i : ℕ) : (neighbors treeMap i).Nodup := by
  by_cases hi : i < n
  · have hlt : ∀ y ∈ getNeighbor (place l i) n, y < n :=
      fun y hy => ((mem_getNeighbor (place_lt hl hi)).mp hy).1
    rw [neighbors_eq h hl hi]
    exact (nodup_getNeighbor _ n).map_on
      fun x hx y hy he => idxOf_inj hl (hlt x hx) (hlt y hy) he
  · rw [List.eq_nil_iff_forall_not_mem.mpr fun j hj => hi ((mem_neighbors h hl).mp hj).1]
    exact List.nodup_nil

omit hl in
theorem parent_get {x : ℕ} (hx : x < n) (hx0 : x ≠ 0) :
    parentMap.get? (l.idxOf x) = some (l.idxOf (HeapTree.parent x) : ℤ) := by
  rw [h.parent x hx, if_pos hx0]

omit hl in
theorem reaches_root (hidx : l.idxOf 0 = 0) {x : ℕ} (hx : x < n) :
    Relation.ReflTransGen (fun a b : ℕ => parentMap.get? a = some (b : ℤ)) (l.idxOf x) 0 := by
  induction x using Nat.strong_induction_on with
  | _ x ih =>
    by_cases hx0 : x = 0
    · rw [hx0, hidx]
    · have hlt := parent_lt hx0
      exact .head (parent_get h hx hx0) (ih _ hlt (hlt.trans hx))

theorem isTopology (hn : 0 < n) (h0 : place l 0 = 0) :
    IsTopology n treeMap parentMap ringMap := by
  have hidx : l.idxOf 0 = 0 := by
    have := idxOf_place hl hn
    rwa [h0] at this
  refine ⟨h.tree_keys, h.parent_keys, h.ring_keys, fun i hi => ring_links h hi, fun i j hj => ?_,
    nodup_neighbors h hl, fun i hi => ?_, card_edges h hl, ?_, fun i hi0 hi => ?_, fun i hi => ?_⟩
  · rw [mem_neighbors h hl] at hj ⊢
    exact ⟨hj.2.1, hj.1, hj.2.2.symm⟩
  · obtain ⟨-, -, ⟨h0, hp⟩ | ⟨h0, hp⟩⟩ := (mem_neighbors h hl).mp hi <;>
    · have := parent_lt h0
      omega
  · have hroot := h.parent 0 hn
    rwa [hidx, if_neg (by simp)] at hroot
  · have hx := place_lt hl hi
    have hx0 : place l i ≠ 0 := fun he => hi0 (by rw [← idxOf_place hl hi, he, hidx])
    have hlt := (parent_lt hx0).trans hx
    refine ⟨l.idxOf (HeapTree.parent (place l i)), ?_, (mem_neighbors h hl).mpr
      ⟨hi, idxOf_lt hl hlt, .inl ⟨hx0, place_idxOf hl hlt⟩⟩⟩
    have hget := parent_get h hx hx0
    rwa [idxOf_place hl hi] at hget
  · have hreach := reaches_root h hidx (place_lt hl hi)
    rwa [idxOf_place hl hi] at hreach

end Relabelled

/-- For every number of slaves and every order of the iterations. -/
theorem link_map_topology (order : IterationOrder) {n : ℕ} (hn : 0 < n) :
    ∃ treeMap parentMap ringMap, getLinkMap order n = .ok (treeMap, parentMap, ringMap) ∧
      IsTopology n treeMap parentMap ringMap := by
  obtain ⟨l, hl, h0, treeMap, parentMap, ringMap, hmap, h⟩ := getLinkMap_spec order hn
  exact ⟨treeMap, parentMap, ringMap, hmap, h.isTopology hl hn h0⟩

def backwards : IterationOrder where
  ofSet := fun _ l => l.reverse
  ofSet_perm := fun _ l => List.reverse_perm l
  ofItems := fun d => d.reverse
  ofItems_perm := fun d => List.reverse_perm d

theorem link_map_topology_five :
    ∃ treeMap parentMap ringMap, getLinkMap backwards 5 = .ok (treeMap, parentMap, ringMap) ∧
      neighbors treeMap 0 = [4, 1] ∧ IsTopology 5 treeMap parentMap ringMap := by
  obtain ⟨treeMap, parentMap, ringMap, hmap, h⟩ := link_map_topology backwards (n := 5) (by decide)
  have htree : (getLinkMap backwards 5).map (fun maps => neighbors maps.1 0) = .ok [4, 1] := by
    decide +kernel
  rw [hmap] at htree
  exact ⟨treeMap, parentMap, ringMap, hmap, Except.ok.inj htree, h⟩

end Tracker
