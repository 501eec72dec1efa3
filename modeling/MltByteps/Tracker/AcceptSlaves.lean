import MltByteps.Tracker.Topology
import Mathlib.Data.List.Sort

/-! The tracker as it accepts slaves: each one gets a rank and is told which of the slaves before it
to connect to. A connection is given by what the slave sends on it. -/

namespace Tracker

/-- What a slave sends to `assign_rank`: the good links of each round in which a connection failed,
those of the round in which none did, and the port on which it listens. -/
structure ExSocket where
  failed : List (List ℤ) := []
  good : List ℤ := []
  port : ℤ

inductive Cmd where
  | start
  | recover
  | print (msg : String)
  | shutdown
  | unknown (cmd : String)
deriving DecidableEq, Repr

structure SlaveEntry where
  sock : ExSocket
  magic : ℤ := 0xff99
  host : String
  rank : ℤ := -1
  worldSize : ℤ := -1
  jobid : String := "NULL"
  cmd : Cmd := .start
  port : ℤ := 0
  waitAccept : ℤ := 0

inductive Item where
  | int (n : ℤ)
  | str (s : String)
deriving DecidableEq, Repr

/-- One round of `assign_rank`: the links to set up, those of them that the slave is to connect, and
the host, port and rank of each of these. -/
structure Round where
  badset : List ℕ
  conset : List ℕ
  connect : List (String × ℤ × ℕ)

def Round.items (r : Round) : List Item :=
  [.int r.conset.length, .int ((r.badset.length : ℤ) - r.conset.length)] ++
    r.connect.flatMap fun x => [.str x.1, .int x.2.1, .int x.2.2]

/-- What `assign_rank` does for a slave. -/
structure Assignment where
  rank : ℕ
  entry : SlaveEntry
  rounds : List Round
  sent : List Item
  waitConn : Dict ℕ SlaveEntry
  rmset : List ℕ

def linkRound (order : IterationOrder) (waitConn : Dict ℕ SlaveEntry) (nnset : List ℕ) (i : ℕ)
    (good : List ℤ) : Except Fault Round := do
  require .assertionError (∀ r ∈ good, r ∈ nnset.map Int.ofNat)
  let badset := order.ofSet i (nnset.filter fun r : ℕ => (r : ℤ) ∉ good)
  let conset := badset.filter fun r => (waitConn.get? r).isSome
  let connect ← conset.mapM fun r => do
    let e ← item waitConn r
    return (e.host, e.port, r)
  return ⟨badset, conset, connect⟩

/-- `set(tree_map[rank])` with the links of the ring. -/
def linkSet (tree : List ℕ) (rprev rnext rank : ℕ) : List ℕ :=
  let nnset := tree.dedup
  let nnset := if rprev ≠ rank then nnset.insert rprev else nnset
  if rnext ≠ rank then nnset.insert rnext else nnset

/-- A connection was set up: the body of the loop over `conset`. -/
def countDown (x : Dict ℕ SlaveEntry × List ℕ) (r : ℕ) :
    Except Fault (Dict ℕ SlaveEntry × List ℕ) := do
  let e ← item x.1 r
  let waitAccept := e.waitAccept - 1
  return (x.1.set r { e with waitAccept }, if waitAccept = 0 then x.2 ++ [r] else x.2)

def assignRank (order : IterationOrder) (treeMap : Dict ℕ (List ℕ)) (parentMap : Dict ℕ ℤ)
    (ringMap : Dict ℕ (ℕ × ℕ)) (waitConn : Dict ℕ SlaveEntry) (rank : ℕ) (s : SlaveEntry) :
    Except Fault Assignment := do
  let tree ← item treeMap rank
  let (rprev, rnext) ← item ringMap rank
  let parent ← item parentMap rank
  let greeting : List ℤ := [(rank : ℤ), parent, treeMap.length, tree.dedup.length] ++
    (order.ofSet 0 tree.dedup).map Int.ofNat ++
      [if rprev ≠ rank then (rprev : ℤ) else -1, if rnext ≠ rank then (rnext : ℤ) else -1]
  let nnset := linkSet tree rprev rnext rank
  let failed ← s.sock.failed.zipIdx.mapM fun x => linkRound order waitConn nnset (x.2 + 1) x.1
  let last ← linkRound order waitConn nnset (s.sock.failed.length + 1) s.sock.good
  let (waitConn, rmset) ← last.conset.foldlM countDown (waitConn, [])
  return {
    rank
    entry := { s with
      rank
      port := s.sock.port
      waitAccept := (last.badset.length : ℤ) - last.conset.length }
    rounds := failed ++ [last]
    sent := greeting.map .int ++ (failed ++ [last]).flatMap Round.items
    waitConn := rmset.foldl Dict.erase waitConn
    rmset }

/-- The maps that `get_link_map` returns. -/
structure LinkMaps where
  treeMap : Dict ℕ (List ℕ)
  parentMap : Dict ℕ ℤ
  ringMap : Dict ℕ (ℕ × ℕ)

/-- The variables of `accept_slaves`. -/
structure RabitTracker where
  nslave : ℕ
  shutdown : List ℕ := []
  waitConn : Dict ℕ SlaveEntry := []
  jobMap : Dict String ℕ := []
  pending : List SlaveEntry := []
  maps : Option LinkMaps := none
  todoNodes : List ℕ := []
  -- Every call of `assign_rank` so far.
  assignments : List Assignment := []

/-- `None` is the rank -1. -/
def SlaveEntry.decideRank (s : SlaveEntry) (jobMap : Dict String ℕ) : Option ℕ :=
  if 0 ≤ s.rank then some s.rank.toNat
  else if s.jobid ≠ "NULL" then jobMap.get? s.jobid
  else none

namespace RabitTracker

/-- `assign_rank`, and the slave waits if it has connections to accept. -/
def assign (passes : ℕ → IterationOrder) (maps : LinkMaps) (t : RabitTracker) (rank : ℕ)
    (s : SlaveEntry) : Except Fault RabitTracker := do
  let a ← assignRank (passes rank) maps.treeMap maps.parentMap maps.ringMap t.waitConn rank s
  return { t with
    waitConn := if 0 < a.entry.waitAccept then a.waitConn.set rank a.entry else a.waitConn
    assignments := t.assignments ++ [a] }

def assignNext (passes : ℕ → IterationOrder) (maps : LinkMaps) (t : RabitTracker)
    (s : SlaveEntry) : Except Fault RabitTracker :=
  match t.todoNodes with
  | [] => .error .indexError
  | rank :: todoNodes =>
    let jobMap := if s.jobid ≠ "NULL" then t.jobMap.set s.jobid rank else t.jobMap
    assign passes maps { t with todoNodes, jobMap } rank s

def linkMaps (order : IterationOrder) (t : RabitTracker) (s : SlaveEntry) :
    Except Fault (RabitTracker × LinkMaps) :=
  match t.maps with
  | none => do
    require .assertionError (s.cmd = .start)
    let nslave := if 0 < s.worldSize then s.worldSize.toNat else t.nslave
    let (treeMap, parentMap, ringMap) ← getLinkMap order nslave
    let maps := ⟨treeMap, parentMap, ringMap⟩
    return ({ t with nslave, maps := some maps, todoNodes := List.range nslave }, maps)
  | some maps => do
    require .assertionError (s.worldSize = -1 ∨ s.worldSize = t.nslave)
    return (t, maps)

/-- A slave that asks for any rank waits until there is one such slave for each rank. -/
def pend (passes : ℕ → IterationOrder) (maps : LinkMaps) (t : RabitTracker) (s : SlaveEntry) :
    Except Fault RabitTracker := do
  require .assertionError (t.todoNodes.length ≠ 0)
  let pending := t.pending ++ [s]
  if pending.length = t.todoNodes.length then
    let pending := pending.mergeSort fun a b => decide (a.host ≤ b.host)
    pending.foldlM (assignNext passes maps) { t with pending }
  else return { t with pending }

def join (order : IterationOrder) (passes : ℕ → IterationOrder) (t : RabitTracker)
    (s : SlaveEntry) : Except Fault RabitTracker := do
  let (t, maps) ← linkMaps order t s
  require .assertionError (s.cmd = .recover → 0 ≤ s.rank)
  match s.decideRank t.jobMap with
  | some rank => assign passes maps t rank s
  | none => pend passes maps t s

/-- One round of the loop of `accept_slaves`, which ends when all slaves have shut down. -/
def accept (order : IterationOrder) (passes : ℕ → IterationOrder) (t : RabitTracker)
    (s : SlaveEntry) : Except Fault RabitTracker := do
  if t.shutdown.length = t.nslave then return t
  require .assertionError (s.magic = 0xff99)
  match s.cmd with
  | .print _ => return t
  | .shutdown =>
    require .assertionError (0 ≤ s.rank ∧ s.rank.toNat ∉ t.shutdown)
    require .assertionError (t.waitConn.get? s.rank.toNat = none)
    return { t with shutdown := t.shutdown ++ [s.rank.toNat] }
  | .unknown _ => throw .assertionError
  | .start => join order passes t s
  | .recover => join order passes t s

end RabitTracker

end Tracker
