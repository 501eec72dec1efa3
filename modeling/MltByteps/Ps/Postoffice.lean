import MltByteps.Lib.Check
import MltByteps.Ps.Meta
import Mathlib.Data.List.Nodup
import Mathlib.Data.List.Range
import Mathlib.Tactic.IntervalCases

/-! Node ids and node groups, and the flags that `Barrier` waits for. Ids are `int`s in the source:
ranks are taken to be below `2^30 - 4`, where `rank * 2 + 9` begins to overflow. -/

namespace Ps

def kScheduler : ℤ := 1

def kServerGroup : ℤ := 2

def kWorkerGroup : ℤ := 4

def workerRankToID (rank : ℤ) : ℤ := rank * 2 + 9

def serverRankToID (rank : ℤ) : ℤ := rank * 2 + 8

def idToRank (id : ℤ) : ℤ := max ((id - 8).tdiv 2) 0

theorem idToRank_serverRankToID (i : ℕ) : idToRank (serverRankToID i) = i := by
  unfold idToRank serverRankToID
  rw [Int.tdiv_eq_ediv_of_nonneg (by omega)]
  omega

theorem idToRank_workerRankToID (i : ℕ) : idToRank (workerRankToID i) = i := by
  unfold idToRank workerRankToID
  rw [Int.tdiv_eq_ediv_of_nonneg (by omega)]
  omega

structure Postoffice where
  numWorkers : ℕ
  numServers : ℕ
deriving DecidableEq, Repr

namespace Postoffice

variable (po : Postoffice)

/-- The entries that `Start` pushes into `node_ids_`, in order: a group and a node. -/
def nodeIds : List (ℤ × ℤ) :=
  ((List.range po.numWorkers).flatMap fun (i : ℕ) =>
    [workerRankToID i, kWorkerGroup, kWorkerGroup + kServerGroup, kWorkerGroup + kScheduler,
      kWorkerGroup + kServerGroup + kScheduler].map (·, workerRankToID i)) ++
  ((List.range po.numServers).flatMap fun (i : ℕ) =>
    [serverRankToID i, kServerGroup, kWorkerGroup + kServerGroup, kServerGroup + kScheduler,
      kWorkerGroup + kServerGroup + kScheduler].map (·, serverRankToID i)) ++
  [kScheduler, kScheduler + kServerGroup + kWorkerGroup, kScheduler + kWorkerGroup,
    kScheduler + kServerGroup].map (·, kScheduler)

/-- `node_ids_[group]`. -/
def members (group : ℤ) : List ℤ := (po.nodeIds.filter (·.1 = group)).map Prod.snd

def getNodeIDs (group : ℤ) : Except VanFault (List ℤ) := do
  require .nodeGroup (po.members group ≠ [])
  return po.members group

def workers : List ℤ := (List.range po.numWorkers).map fun (i : ℕ) => workerRankToID i

def servers : List ℤ := (List.range po.numServers).map fun (i : ℕ) => serverRankToID i

def includes (group kind : ℤ) : Bool := group.toNat &&& kind.toNat != 0

/-! ## The groups -/

theorem filter_flatMap_pairs {ids : List ℤ} {groups : ℤ → List ℤ} {g : ℤ} {b : Bool}
    (h : ∀ id ∈ ids, (groups id).filter (· = g) = if b then [g] else []) :
    ((ids.flatMap fun id => (groups id).map (·, id)).filter (·.1 = g)).map Prod.snd =
      if b then ids else [] := by
  induction ids with
  | nil => simp
  | cons id ids ih =>
    have hid : ((groups id).map (·, id)).filter (·.1 = g) = if b then [(g, id)] else [] := by
      rw [List.filter_map]
      change ((groups id).filter (· = g)).map _ = _
      rw [h id List.mem_cons_self]
      cases b <;> rfl
    rw [List.flatMap_cons, List.filter_append, List.map_append, hid,
      ih fun id hid => h id (List.mem_cons_of_mem _ hid)]
    cases b <;> rfl

theorem members_eq {g : ℤ} (hpos : 1 ≤ g) (hle : g ≤ 7) : po.members g =
    (if includes g kWorkerGroup then po.workers else []) ++
      (if includes g kServerGroup then po.servers else []) ++
      (if includes g kScheduler then [kScheduler] else []) := by
  have hworkers : ∀ id ∈ po.workers, [id, kWorkerGroup, kWorkerGroup + kServerGroup,
      kWorkerGroup + kScheduler, kWorkerGroup + kServerGroup + kScheduler].filter (· = g) =
        if includes g kWorkerGroup then [g] else [] := by
    intro id hid
    obtain ⟨i, -, rfl⟩ := List.mem_map.mp hid
    have hne : ¬workerRankToID i = g := by unfold workerRankToID; omega
    rw [List.filter_cons_of_neg (by simpa using hne)]
    interval_cases g <;> rfl
  have hservers : ∀ id ∈ po.servers, [id, kServerGroup, kWorkerGroup + kServerGroup,
      kServerGroup + kScheduler, kWorkerGroup + kServerGroup + kScheduler].filter (· = g) =
        if includes g kServerGroup then [g] else [] := by
    intro id hid
    obtain ⟨i, -, rfl⟩ := List.mem_map.mp hid
    have hne : ¬serverRankToID i = g := by unfold serverRankToID; omega
    rw [List.filter_cons_of_neg (by simpa using hne)]
    interval_cases g <;> rfl
  have hscheduler : ∀ id ∈ [kScheduler], [kScheduler, kScheduler + kServerGroup + kWorkerGroup,
      kScheduler + kWorkerGroup, kScheduler + kServerGroup].filter (· = g) =
        if includes g kScheduler then [g] else [] := by
    interval_cases g <;> decide
  rw [← filter_flatMap_pairs hworkers, ← filter_flatMap_pairs hservers,
    ← filter_flatMap_pairs hscheduler]
  unfold members nodeIds workers servers
  rw [List.filter_append, List.filter_append, List.map_append, List.map_append, List.flatMap_map,
    List.flatMap_map]
  rfl

theorem members_workers_servers :
    po.members (kWorkerGroup + kServerGroup) = po.workers ++ po.servers := by
  rw [po.members_eq (by decide) (by decide), if_pos (by decide), if_pos (by decide),
    if_neg (by decide), List.append_nil]

theorem getNodeIDs_workers_servers (h : 0 < po.numServers + po.numWorkers) :
    po.getNodeIDs (kWorkerGroup + kServerGroup) =
      .ok (po.members (kWorkerGroup + kServerGroup)) := by
  refine require_bind _ fun hnil => ?_
  have hsize := congrArg List.length hnil
  rw [po.members_workers_servers, List.length_append] at hsize
  simp [workers, servers] at hsize
  omega

theorem mem_workers {id : ℤ} : id ∈ po.workers ↔ ∃ i < po.numWorkers, id = workerRankToID i := by
  simp [workers, eq_comm]

theorem mem_servers {id : ℤ} : id ∈ po.servers ↔ ∃ i < po.numServers, id = serverRankToID i := by
  simp [servers, eq_comm]

theorem nodup_members {g : ℤ} (hpos : 1 ≤ g) (hle : g ≤ 7) : (po.members g).Nodup := by
  have hworkers : po.workers.Nodup := List.nodup_range.map fun i j h => by
    unfold workerRankToID at h; omega
  have hservers : po.servers.Nodup := List.nodup_range.map fun i j h => by
    unfold serverRankToID at h; omega
  have hws : ∀ id ∈ po.workers, id ∉ po.servers := by
    intro id hw hs
    obtain ⟨i, -, rfl⟩ := po.mem_workers.mp hw
    obtain ⟨j, -, h⟩ := po.mem_servers.mp hs
    unfold workerRankToID serverRankToID at h
    omega
  have hwk : kScheduler ∉ po.workers := by
    intro hw
    obtain ⟨i, -, h⟩ := po.mem_workers.mp hw
    unfold workerRankToID kScheduler at h
    omega
  have hsk : kScheduler ∉ po.servers := by
    intro hs
    obtain ⟨i, -, h⟩ := po.mem_servers.mp hs
    unfold serverRankToID kScheduler at h
    omega
  have hall : (po.workers ++ po.servers ++ [kScheduler]).Nodup := by
    rw [List.nodup_append, List.nodup_append]
    refine ⟨⟨hworkers, hservers, fun a ha b hb he => hws a ha (he ▸ hb)⟩,
      List.nodup_singleton _, fun a ha b hb he => ?_⟩
    rw [List.mem_singleton.mp hb] at he
    rcases List.mem_append.mp ha with ha | ha
    · exact hwk (he ▸ ha)
    · exact hsk (he ▸ ha)
  have hsub : ∀ (b : Bool) (l : List ℤ), (if b then l else []).Sublist l := by
    intro b l
    cases b
    · exact List.nil_sublist l
    · exact List.Sublist.refl l
  rw [po.members_eq hpos hle]
  exact hall.sublist (((hsub _ _).append (hsub _ _)).append (hsub _ _))

end Postoffice

end Ps
