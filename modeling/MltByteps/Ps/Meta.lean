import Mathlib.Tactic.Ring

/-! Nodes, control information and the meta data of messages. An `int` is an integer; the range
of its type is stated where it matters. Members that a constructor leaves uninitialised are 0. -/

namespace Ps

/-- `Node::kEmpty` and `Meta::kEmpty`. -/
def kEmpty : ℤ := 2 ^ 31 - 1

inductive Role where
  | server
  | worker
  | scheduler
deriving DecidableEq, Repr

structure Node where
  role : Role
  id : ℤ := kEmpty
  customerId : ℤ := 0
  hostname : List UInt8 := []
  port : ℤ := kEmpty
  isRecovery : Bool := false
deriving DecidableEq, Repr

inductive Command where
  | empty
  | terminate
  | addNode
  | barrier
  | ack
  | heartbeat
deriving DecidableEq, Repr

structure Control where
  cmd : Command := .empty
  node : List Node := []
  barrierGroup : ℤ := 0
  msgSig : ℕ := 0
deriving DecidableEq, Repr

inductive DataType where
  | char
  | int8
  | int16
  | int32
  | int64
  | uint8
  | uint16
  | uint32
  | uint64
  | float
  | double
  | other
deriving DecidableEq, Repr

structure Meta where
  head : ℤ := kEmpty
  appId : ℤ := kEmpty
  customerId : ℤ := kEmpty
  timestamp : ℤ := kEmpty
  sender : ℤ := kEmpty
  recver : ℤ := kEmpty
  request : Bool := false
  push : Bool := false
  simpleApp : Bool := false
  body : List UInt8 := []
  dataType : List DataType := []
  control : Control := {}
  dataSize : ℤ := 0
  key : ℕ := 0
  addr : ℕ := 0
  valLen : ℤ := 0
  option : ℤ := 0
deriving DecidableEq, Repr

/-- The message as its receiver gets it from `RecvMsg`. -/
def Meta.from (node : ℤ) (msg : Meta) : Meta := { msg with sender := node }

/-- Where a `CHECK` of the van, the resender or the post office can abort. -/
inductive VanFault where
  -- `GetNodeIDs`: "node doesn't exist".
  | nodeGroup
  -- `Barrier`: the node is not in the group.
  | barrierGroup
  -- `barrier_count_[group]` is read outside of the vector.
  | barrierCount
  -- `Manage`: `!recv.meta.control.empty()`.
  | emptyControl
  -- `AddOutgoing`, `GetKey`: `msg.meta.timestamp != Meta::kEmpty`.
  | timestamp
  -- `Monitoring`: `num_retry < max_num_retry_`.
  | numRetry
  -- `UpdateLocalID`: `is_scheduler_`.
  | isScheduler
  -- `UpdateLocalID`: `ctrl.node.size() == 1`.
  | nodeSize
  -- `UpdateLocalID`: `ready_`.
  | ready
  -- `ProcessAddNodeCommandAtScheduler`: `node.id == Node::kEmpty`.
  | nodeId
  -- `ProcessAddNodeCommandAtScheduler`: `recovery_nodes->control.node.size() == 1`.
  | recoverySize
  -- `AddCustomer`: "customer_id already exists".
  | customerExists
  -- `ProcessDataMsg`: the sender, the receiver and the app are given.
  | dataMeta
  -- `ProcessDataMsg`: "timeout (5 sec) to wait App".
  | customerTimeout
  -- `GetCustomer`: `timeout * 1000 + 1` overflows.
  | timeoutOverflow
deriving DecidableEq, Repr

end Ps
