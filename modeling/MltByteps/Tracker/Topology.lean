import MltByteps.Lib.Check
import MltByteps.Lib.Dict
import MltByteps.Lib.HeapTree
import Mathlib.Data.List.Dedup

/-! The links that the tracker gives to the slaves: a tree, and a ring that shares links with it.
Ranks are natural numbers; only the parent of the root is not one. -/

namespace Tracker

inductive Fault where
  | keyError
  | indexError
  | assertionError
  -- The recursion visits more nodes than there are.
  | recursionError
deriving DecidableEq, Repr

/-- The orders in which the set of the children of a node and the items of a dictionary are
passed. -/
structure IterationOrder where
  ofSet : ℕ → List ℕ → List ℕ
  ofSet_perm : ∀ r l, (ofSet r l).Perm l
  ofItems : {β : Type} → Dict ℕ β → List (ℕ × β)
  ofItems_perm : ∀ {β : Type} (d : Dict ℕ β), (ofItems d).Perm d

/-- `d[k]` -/
def item {β : Type} (d : Dict ℕ β) (k : ℕ) : Except Fault β :=
  (d.get? k).elim (.error .keyError) .ok

/-- `d[k]` for a key that may be negative. -/
def itemInt {β : Type} (d : Dict ℕ β) : ℤ → Except Fault β
  | .ofNat k => item d k
  | .negSucc _ => .error .keyError

/-- `l[i]` -/
def elem (l : List ℕ) (i : ℕ) : Except Fault ℕ := l[i]?.elim (.error .indexError) .ok

def getNeighbor (rank nslave : ℕ) : List ℕ :=
  let rank := rank + 1
  (if rank > 1 then [rank / 2 - 1] else []) ++
    (if rank * 2 - 1 < nslave then [rank * 2 - 1] else []) ++
      if rank * 2 < nslave then [rank * 2] else []

def getTree (nslave : ℕ) : Dict ℕ (List ℕ) × Dict ℕ ℤ :=
  (List.range nslave).foldl (fun maps r =>
    (maps.1.set r (getNeighbor r nslave), maps.2.set r (((r + 1) / 2 : ℕ) - 1))) ([], [])

/-- With a bound on the depth of the recursion. -/
def findShareRing (order : IterationOrder) (treeMap : Dict ℕ (List ℕ)) (parentMap : Dict ℕ ℤ) :
    ℕ → ℕ → Except Fault (List ℕ)
  | 0, _ => .error .recursionError
  | depth + 1, r => do
    let neighbors ← item treeMap r
    let parent ← item parentMap r
    let cset := neighbors.dedup.filter fun v : ℕ => decide ((v : ℤ) ≠ parent)
    if cset.length = 0 then return [r]
    let (_, rlst) ← (order.ofSet r cset).foldlM (fun s v => do
      let vlst ← findShareRing order treeMap parentMap depth v
      let cnt := s.1 + 1
      return (cnt, s.2 ++ if cnt = cset.length then vlst.reverse else vlst)) (0, [r])
    return rlst

def getRing (order : IterationOrder) (treeMap : Dict ℕ (List ℕ)) (parentMap : Dict ℕ ℤ) :
    Except Fault (Dict ℕ (ℕ × ℕ)) := do
  let parent ← item parentMap 0
  require .assertionError (parent = -1)
  let rlst ← findShareRing order treeMap parentMap treeMap.length 0
  require .assertionError (rlst.length = treeMap.length)
  let nslave := treeMap.length
  (List.range nslave).foldlM (fun (ringMap : Dict ℕ (ℕ × ℕ)) r => do
    let rprev := (r + nslave - 1) % nslave
    let rnext := (r + 1) % nslave
    let prev ← elem rlst rprev
    let next ← elem rlst rnext
    let node ← elem rlst r
    return ringMap.set node (prev, next)) []

/-- The ranks are numbered along the ring: `rmap` of `get_link_map`. -/
def numberRanks (ringMap : Dict ℕ (ℕ × ℕ)) (nslave : ℕ) : Except Fault (Dict ℕ ℕ) := do
  let s ← (List.range (nslave - 1)).foldlM (fun (s : ℕ × Dict ℕ ℕ) i => do
    let link ← item ringMap s.1
    return (link.2, s.2.set link.2 (i + 1))) (0, [(0, 0)])
  return s.2

/-- The body of the loop of `get_link_map` over `ring_map`. -/
def ringEntry (rmap : Dict ℕ ℕ) (d : Dict ℕ (ℕ × ℕ)) (x : ℕ × ℕ × ℕ) :
    Except Fault (Dict ℕ (ℕ × ℕ)) := do
  let prev ← item rmap x.2.1
  let next ← item rmap x.2.2
  let k ← item rmap x.1
  return d.set k (prev, next)

/-- The body of the loop of `get_link_map` over `tree_map`. -/
def treeEntry (rmap : Dict ℕ ℕ) (d : Dict ℕ (List ℕ)) (x : ℕ × List ℕ) :
    Except Fault (Dict ℕ (List ℕ)) := do
  let neighbors ← x.2.mapM (item rmap)
  let k ← item rmap x.1
  return d.set k neighbors

/-- The body of the loop of `get_link_map` over `parent_map`. -/
def parentEntry (rmap : Dict ℕ ℕ) (d : Dict ℕ ℤ) (x : ℕ × ℤ) : Except Fault (Dict ℕ ℤ) := do
  let parent ← (if x.1 ≠ 0 then (itemInt rmap x.2).map Int.ofNat else .ok (-1))
  let k ← item rmap x.1
  return d.set k parent

def getLinkMap (order : IterationOrder) (nslave : ℕ) :
    Except Fault (Dict ℕ (List ℕ) × Dict ℕ ℤ × Dict ℕ (ℕ × ℕ)) := do
  let treeMap := (getTree nslave).1
  let parentMap := (getTree nslave).2
  let ringMap ← getRing order treeMap parentMap
  let rmap ← numberRanks ringMap nslave
  let ringMap' ← (order.ofItems ringMap).foldlM (ringEntry rmap) []
  let treeMap' ← (order.ofItems treeMap).foldlM (treeEntry rmap) []
  let parentMap' ← (order.ofItems parentMap).foldlM (parentEntry rmap) []
  return (treeMap', parentMap', ringMap')

/-! ## The tree -/

open HeapTree

theorem mem_getNeighbor {x y n : ℕ} (hx : x < n) :
    y ∈ getNeighbor x n ↔ y < n ∧ (x ≠ 0 ∧ y = parent x ∨ y ≠ 0 ∧ x = parent y) := by
  unfold getNeighbor parent
  dsimp only
  split_ifs <;>
    simp only [List.mem_append, List.mem_singleton, List.not_mem_nil, or_false, false_or,
      false_iff] <;>
    omega

theorem nodup_getNeighbor (x n : ℕ) : (getNeighbor x n).Nodup := by
  unfold getNeighbor
  dsimp only
  split_ifs <;> simp
  all_goals omega

def parentOf (r : ℕ) : ℤ := ((r + 1) / 2 : ℕ) - 1

theorem parentOf_eq {r : ℕ} (hr : r ≠ 0) : parentOf r = parent r := by
  unfold parentOf parent
  omega

theorem getTree_eq (n : ℕ) : getTree n = ((List.range n).map fun r => (r, getNeighbor r n),
    (List.range n).map fun r => (r, parentOf r)) := by
  have hloop : ∀ m, (List.range m).foldl (fun (maps : Dict ℕ (List ℕ) × Dict ℕ ℤ) r =>
      (maps.1.set r (getNeighbor r n), maps.2.set r (((r + 1) / 2 : ℕ) - 1))) ([], []) =
      ((List.range m).map fun r => (r, getNeighbor r n),
        (List.range m).map fun r => (r, parentOf r)) := by
    intro m
    induction m with
    | zero => rfl
    | succ m ih =>
      rw [List.range_succ, List.foldl_append, ih, List.map_append, List.map_append]
      dsimp only [List.foldl_cons, List.foldl_nil, List.map_cons, List.map_nil]
      rw [Dict.set_eq_of_notMem (by simp [Dict.keys]), Dict.set_eq_of_notMem (by simp [Dict.keys])]
      rfl
  exact hloop n

theorem item_eq_ok {β : Type} {d : Dict ℕ β} {k : ℕ} {v : β} (hd : d.keys.Nodup) :
    item d k = .ok v ↔ (k, v) ∈ d := by
  rw [← Dict.get?_eq_some_iff hd, item]
  rcases d.get? k with _ | v' <;> simp

theorem item_range {β : Type} {n k : ℕ} (f : ℕ → β) (hk : k < n) :
    item ((List.range n).map fun r => (r, f r)) k = .ok (f k) := by
  have hkeys : (Dict.keys ((List.range n).map fun r => (r, f r))).Nodup := by
    rw [Dict.keys, List.map_map]
    simpa [Function.comp_def] using List.nodup_range
  rw [item_eq_ok hkeys]
  exact List.mem_map.mpr ⟨k, List.mem_range.mpr hk, rfl⟩

theorem cset_perm {r n : ℕ} (hr : r < n) :
    ((getNeighbor r n).dedup.filter fun v : ℕ => decide ((v : ℤ) ≠ parentOf r)).Perm
      (children n r) := by
  refine (List.perm_ext_iff_of_nodup ((List.nodup_dedup _).filter _) (nodup_children n r)).mpr
    fun x => ?_
  rw [List.mem_filter, List.mem_dedup, mem_getNeighbor hr, mem_children, decide_eq_true_eq]
  unfold parentOf parent
  omega

/-! ## The ring -/

section Ring

variable (order : IterationOrder) {n : ℕ}

theorem share_loop {f : ℕ → Except Fault (List ℕ)} {g : ℕ → List ℕ} {last cnt : ℕ}
    {cs rlst : List ℕ} (hf : ∀ v ∈ cs, ∃ vlst, f v = .ok vlst ∧ vlst.Perm (g v)) :
    ∃ cnt' rest, cs.foldlM (fun (s : ℕ × List ℕ) v => do
      let vlst ← f v
      let cnt := s.1 + 1
      return (cnt, s.2 ++ if cnt = last then vlst.reverse else vlst)) (cnt, rlst) =
        Except.ok (cnt', rlst ++ rest) ∧ rest.Perm (cs.flatMap g) := by
  induction cs generalizing cnt rlst with
  | nil => exact ⟨cnt, [], by rw [List.append_nil]; rfl, List.Perm.refl _⟩
  | cons v cs ih =>
    obtain ⟨vlst, hv, hperm⟩ := hf v List.mem_cons_self
    have hpart : (if cnt + 1 = last then vlst.reverse else vlst).Perm (g v) := by
      split_ifs
      · exact (List.reverse_perm _).trans hperm
      · exact hperm
    obtain ⟨cnt', rest, hrest, hrestperm⟩ := @ih (cnt + 1)
      (rlst ++ if cnt + 1 = last then vlst.reverse else vlst)
      (fun w hw => hf w (List.mem_cons_of_mem _ hw))
    refine ⟨cnt', (if cnt + 1 = last then vlst.reverse else vlst) ++ rest, ?_,
      hpart.append hrestperm⟩
    rw [List.foldlM_cons, hv, ← List.append_assoc, ← hrest]
    rfl

theorem findShareRing_spec {depth r : ℕ} (hr : r < n) (hdepth : n ≤ r + depth) :
    ∃ rest, findShareRing order (getTree n).1 (getTree n).2 depth r = .ok (r :: rest) ∧
      (r :: rest).Perm (subtree n depth r) := by
  induction depth generalizing r with
  | zero => omega
  | succ depth ih =>
    have htree : item (getTree n).1 r = .ok (getNeighbor r n) := by
      rw [getTree_eq]
      exact item_range (fun r => getNeighbor r n) hr
    have hparent : item (getTree n).2 r = .ok (parentOf r) := by
      rw [getTree_eq]
      exact item_range parentOf hr
    have hcset := cset_perm hr
    rw [findShareRing, htree, ok_bind, hparent, ok_bind, subtree]
    dsimp only
    generalize (getNeighbor r n).dedup.filter _ = cset at hcset ⊢
    split_ifs with hlen
    · rw [List.length_eq_zero_iff.mp hlen] at hcset
      rw [← List.Perm.nil_eq hcset]
      exact ⟨[], rfl, List.Perm.refl _⟩
    · have hperm := (order.ofSet_perm r cset).trans hcset
      have hvisit : ∀ v ∈ order.ofSet r cset, ∃ vlst,
          findShareRing order (getTree n).1 (getTree n).2 depth v = .ok vlst ∧
            vlst.Perm (subtree n depth v) := by
        intro v hv
        obtain ⟨hvn, hv0, hvr⟩ := mem_children.mp (hperm.mem_iff.mp hv)
        have hlt := parent_lt hv0
        obtain ⟨rest, hrest⟩ := ih hvn (by omega)
        exact ⟨v :: rest, hrest⟩
      obtain ⟨cnt', rest, hloop, hrest⟩ := @share_loop _ _ cset.length 0 _ [r] hvisit
      refine ⟨rest, ?_, (hrest.trans (hperm.flatMap_right _)).cons r⟩
      rw [hloop]
      rfl

theorem exists_ring_order (hn : 0 < n) : ∃ rest,
    findShareRing order (getTree n).1 (getTree n).2 n 0 = .ok (0 :: rest) ∧
      (0 :: rest).Perm (List.range n) := by
  obtain ⟨rest, hrest, hperm⟩ := findShareRing_spec order hn (Nat.le_of_eq (Nat.zero_add n).symm)
  exact ⟨rest, hrest, hperm.trans (subtree_perm_range hn)⟩

end Ring

end Tracker
