import MltByteps.Ps.Address
import MltByteps.Ps.Postoffice
import Mathlib.Logic.Function.Basic

/-! How vans learn about nodes: `UpdateLocalID`, `ProcessAddNodeCommand` and its part for the
scheduler, for nodes that register and for nodes that come back. -/

namespace Ps

/-- What a van and its post office know. `nodes` and `recoveryNodes` are the nodes in the local
variables of `Receiving`, and `rank` is the environment variable `DMLC_RANK`. -/
structure Van where
  isScheduler : Bool
  myNode : Node
  ready : Bool
  connectedNodes : List UInt8 → Option ℤ
  sharedNodeMapping : ℤ → Option ℤ
  numServers : ℕ
  numWorkers : ℕ
  timestamp : ℤ
  heartbeats : ℤ → Option ℤ
  startTime : ℤ
  rank : Option ℤ
  nodes : List Node
  recoveryNodes : List Node

/-- What `time` returns when `ProcessAddNodeCommand` looks for dead nodes, when the scheduler goes
on, and when it looks for dead nodes once more. -/
structure Clock where
  dead : ℤ
  process : ℤ
  deadAgain : ℤ

namespace Van

variable (po : Postoffice) (timeout : ℤ)

def getDeadNodes (now : ℤ) (v : Van) : Except VanFault (List ℤ) :=
  if v.ready = false ∨ timeout = 0 then .ok [] else do
    let ids ← po.getNodeIDs (if v.isScheduler then kWorkerGroup + kServerGroup else kScheduler)
    return ids.filter fun r =>
      (v.heartbeats r).all (· + timeout < now) && v.startTime + timeout < now

def updateHeartbeat (id t : ℤ) (v : Van) : Van :=
  { v with heartbeats := Function.update v.heartbeats id (some t) }

/-! ## Local ids -/

/-- The node takes the place of the first dead node of its role. The last node of the table is the
scheduler. -/
def recover (dead : List ℤ) (node : Node) (v : Van) : Van × Node :=
  match v.nodes.dropLast.findIdx? fun n => decide (n.id ∈ dead) && n.role = node.role with
  | none => (v, node)
  | some i =>
    let node := { node with id := (v.nodes.getD i node).id, isRecovery := true }
    ({ v with nodes := v.nodes.set i node, recoveryNodes := v.recoveryNodes ++ [node] }, node)

/-- The first part of `UpdateLocalID`: the van and the nodes of the message after it. -/
def assignId (dead : List ℤ) (msg : Meta) (v : Van) : Except VanFault (Van × List Node) :=
  if msg.sender = kEmpty then do
    require .isScheduler (v.isScheduler = true)
    match msg.control.node with
    | [node] =>
      if v.nodes.length < po.numServers + po.numWorkers then
        return ({ v with nodes := v.nodes ++ [node] }, [node])
      else do
        require .ready (v.ready = true)
        let (v, node) := v.recover dead node
        return (v, [node])
    | _ => .error .nodeSize
  else .ok (v, msg.control.node)

/-- One round of the second part, which updates `my_node_`. -/
def updateMyNode (v : Van) (node : Node) : Van :=
  if (v.myNode.hostname = node.hostname ∧ v.myNode.port = node.port) ∧
      (v.rank = none ∨ v.myNode.id = kEmpty) then
    { v with myNode := node, rank := some (idToRank node.id) }
  else v

/-- `UpdateLocalID`: the van and the nodes of the message after it. -/
def updateLocalID (dead : List ℤ) (msg : Meta) (v : Van) : Except VanFault (Van × List Node) := do
  let (v, nodes) ← v.assignId po dead msg
  return (nodes.foldl updateMyNode v, nodes)

/-! ## The scheduler -/

def nextId (node : Node) (v : Van) : ℤ :=
  if node.role = .server then serverRankToID v.numServers else workerRankToID v.numWorkers

def countRole (node : Node) (v : Van) : Van :=
  { v with
    numServers := v.numServers + if node.role = .server then 1 else 0
    numWorkers := v.numWorkers + if node.role = .worker then 1 else 0 }

def assignRank (t : ℤ) (node : Node) (v : Van) : Except VanFault (Van × Node) :=
  let id := v.nextId node
  match v.connectedNodes node.hostIp with
  | none => do
    require .nodeId (node.id = kEmpty)
    let v := { v with connectedNodes := Function.update v.connectedNodes node.hostIp (some id) }
    return ((v.updateHeartbeat id t).countRole node, { node with id })
  | some other =>
    let v := { v with sharedNodeMapping := Function.update v.sharedNodeMapping id (some other) }
    .ok (v.countRole node, { node with id := other })

def assignRanks (t : ℤ) : List Node → Van → Except VanFault (Van × List Node)
  | [], v => .ok (v, [])
  | node :: nodes, v => do
    let (v, node) ← v.assignRank t node
    let (v, nodes) ← assignRanks t nodes v
    return (v, node :: nodes)

/-- An `ADD_NODE` message to a node. -/
def addNodeMeta (nodes : List Node) (recver timestamp : ℤ) : Meta :=
  { recver, timestamp, control := { cmd := .addNode, node := nodes } }

/-- `ProcessAddNodeCommandAtScheduler`: the van and the messages it sends. -/
def processAddNodeCommandAtScheduler (clock : Clock) (v : Van) :
    Except VanFault (Van × List Meta) :=
  if v.nodes.length = po.numServers + po.numWorkers then do
    let (v, nodes) ← assignRanks clock.process (sortNodes v.nodes) v
    let nodes := nodes ++ [v.myNode]
    let ids ← po.getNodeIDs (kWorkerGroup + kServerGroup)
    let recvers := ids.filter fun r => (v.sharedNodeMapping r).isNone
    return ({ v with nodes, timestamp := v.timestamp + recvers.length, ready := true },
      recvers.zipIdx.map fun r => addNodeMeta nodes r.1 (v.timestamp + r.2))
  else
    match v.recoveryNodes with
    | [] => .ok (v, [])
    | node :: rest => do
      let dead ← v.getDeadNodes po timeout clock.deadAgain
      require .recoverySize (rest = [])
      let v := v.updateHeartbeat node.id clock.process
      let ids ← po.getNodeIDs (kWorkerGroup + kServerGroup)
      let recvers := ids.filter fun r => ¬(r ≠ node.id ∧ r ∈ dead)
      return ({ v with timestamp := v.timestamp + recvers.length },
        recvers.zipIdx.map fun r =>
          addNodeMeta (if r.1 = node.id then v.nodes else v.recoveryNodes) r.1 (v.timestamp + r.2))

/-! ## All vans -/

def connectNode (v : Van) (node : Node) : Van :=
  { v with
    connectedNodes := if (v.connectedNodes node.hostIp).isNone then
      Function.update v.connectedNodes node.hostIp (some node.id) else v.connectedNodes
    numServers := v.numServers + if !node.isRecovery ∧ node.role = .server then 1 else 0
    numWorkers := v.numWorkers + if !node.isRecovery ∧ node.role = .worker then 1 else 0 }

/-- `ProcessAddNodeCommand`: the van and the messages it sends. -/
def processAddNodeCommand (clock : Clock) (msg : Meta) (v : Van) :
    Except VanFault (Van × List Meta) := do
  let dead ← v.getDeadNodes po timeout clock.dead
  let (v, nodes) ← v.updateLocalID po dead msg
  if v.isScheduler then v.processAddNodeCommandAtScheduler po timeout clock
  else return ({ nodes.foldl connectNode v with ready := true }, [])

end Van

/-- The message with which a node registers. The scheduler does not know its sender. -/
def registration (node : Node) : Meta :=
  { recver := kScheduler, control := { cmd := .addNode, node := [node] } }

def Van.registerAll (po : Postoffice) (timeout : ℤ) :
    List (Clock × Node) → Van → Except VanFault (Van × List Meta)
  | [], v => .ok (v, [])
  | a :: arrivals, v => do
    let (v, out) ← v.processAddNodeCommand po timeout a.1 (registration a.2)
    let (v, outs) ← registerAll po timeout arrivals v
    return (v, out ++ outs)

end Ps
