import MltByteps.Mlt.Framing
import MltByteps.Mlt.Packetizer
import Mathlib.Data.List.AList
import Mathlib.Data.List.MinMax

/-! A communicator with one connection: the queues between its threads, the
tables of the connection and what the application sees of it. `log` and the `use`
numbers record history for the specification; the program reads neither. -/

namespace Mlt

/-- `std::map<int, V>` and `std::unordered_map<int, V>`, keyed by the message id before its
conversion to `int`. -/
abbrev IntMap (V : Type) := AList fun _ : UInt32 => V

namespace IntMap

variable {V : Type}

/-- `*begin()`: the entry of the least `int`. -/
def begin? (m : IntMap V) : Option (UInt32 × V) := do
  -- The order is named: `ℤ` has it along several paths, not all of them computable.
  let k ← @List.argmin UInt32 ℤ Int.instLinearOrder.toPreorder Int.decLt msgInt m.keys
  let v ← m.lookup k
  return (k, v)

/-- `insert` of a node: an entry of the same key stays. -/
def insertNode (m : IntMap V) (k : UInt32) (v : V) : IntMap V :=
  if (m.lookup k).isSome then m else m.insert k v

theorem lookup_insert_ite (m : IntMap V) (k : UInt32) (v : V) (x : UInt32) :
    (m.insert k v).lookup x = if x = k then some v else m.lookup x := by
  split_ifs with h
  · subst h
    exact AList.lookup_insert m
  · exact AList.lookup_insert_ne h

theorem lookup_erase_ite (m : IntMap V) (k x : UInt32) :
    (m.erase k).lookup x = if x = k then none else m.lookup x := by
  split_ifs with h
  · subst h
    exact AList.lookup_erase x m
  · exact AList.lookup_erase_ne h

theorem lookup_insertNode (m : IntMap V) (k : UInt32) (v : V) (x : UInt32) :
    (m.insertNode k v).lookup x = if x = k then some ((m.lookup k).getD v) else m.lookup x := by
  unfold insertNode
  rcases hk : m.lookup k with _ | w
  · exact lookup_insert_ite m k v x
  · simp only [Option.isSome_some, if_true, Option.getD_some]
    split_ifs with h
    · rw [h, hk]
    · rfl

theorem lookup_of_begin? {m : IntMap V} {k : UInt32} {v : V} (h : m.begin? = some (k, v)) :
    m.lookup k = some v := by
  unfold begin? at h
  obtain ⟨k', -, h⟩ := Option.bind_eq_some_iff.mp h
  obtain ⟨v', hv, h⟩ := Option.bind_eq_some_iff.mp h
  cases h
  exact hv

def Forall (R : UInt32 → V → Prop) (m : IntMap V) : Prop := ∀ k v, m.lookup k = some v → R k v

section

variable {R : UInt32 → V → Prop} {m : IntMap V} {key : UInt32} {v : V}

theorem Forall.insert (h : Forall R m) (hv : R key v) : Forall R (m.insert key v) := by
  intro k v' hk
  rw [lookup_insert_ite] at hk
  split_ifs at hk with heq
  · cases hk
    exact heq ▸ hv
  · exact h k v' hk

theorem Forall.erase (h : Forall R m) (key : UInt32) : Forall R (m.erase key) := by
  intro k v hk
  rw [lookup_erase_ite] at hk
  split_ifs at hk
  exact h k v hk

theorem Forall.insertNode (h : Forall R m) (hv : R key v) : Forall R (m.insertNode key v) := by
  unfold IntMap.insertNode
  split_ifs
  · exact h
  · exact h.insert hv

end

end IntMap

structure RetransmitState where
  blockNum : ℕ
  seqNum : ℕ
deriving DecidableEq, Repr

inductive PriorityNotification where
  | stopFlow (flowId : ℕ)
  | requestRetransmit (req : RetransmitRequest)
deriving DecidableEq, Repr

inductive ReceivingNotification where
  | finishFlow (msgId : UInt32) (maxSeqNum : ℕ)
  | confirmStop (msgId : UInt32)
deriving DecidableEq, Repr

inductive Completion where
  | send (msgId : UInt32) (remoteCommId : ℤ)
  | recv (msgId : UInt32) (remoteCommId : ℤ) (bytesReceived : ℕ)
deriving DecidableEq, Repr

inductive Event where
  -- A signal was given to the reliable channel.
  | enqueue (dest : ℤ) (signal : Signal)
  -- `StopFlow` ran for this message.
  | stopFlow (msgId : UInt32)
  -- `CopyGradients` copied the packet `seq` of the posting `pktUse` into the posting `use`.
  | accept (msgId : UInt32) (use pktUse seq bytes : ℕ)
deriving DecidableEq, Repr

/-- What the handlers of one side know about the connection. `buf` is the buffer of the
receiving loop. -/
structure Host where
  packetizer : Packetizer
  destCommId : ℤ
  prioFunc : PktPrioFunc
  buf : ℕ

structure Communicator where
  srQueue : List LtMessageExt
  priorityQueue : List PriorityNotification
  -- The packets in the `tx_queue`s of the UDP endpoints in the order they were routed: the queue
  -- of one endpoint is the part of it with the endpoint's `tos`.
  txPackets : List (GradPacket × ℕ)
  sendingMsgs : IntMap LtMessageExt
  retransmittingMsgs : IntMap LtMessageExt
  retransmitReqs : IntMap (RetransmitRequest × RetransmitState)
  txMeter : ℕ
  -- Messages with the size left after the losses `loss_ratio` allows.
  rrQueue : List (LtMessage × ℕ)
  receivingQueue : List ReceivingNotification
  recvMsgs : IntMap LtMessageExt
  backlogFreeList : List ℕ
  backlogUsedMap : IntMap (List (ℕ × ℕ))
  -- `tx_queue_` of the reliable channel.
  txQueue : List (ℤ × Signal)
  msgMaxSeq : IntMap ℕ
  -- The endpoint has closed its socket.
  isDead : Bool
  metaQueue : List (ℤ × List UInt8)
  -- Every completion pushed so far.
  cq : List Completion
  mem : Memory
  log : List Event

namespace Communicator

def init : Communicator where
  srQueue := []
  priorityQueue := []
  txPackets := []
  sendingMsgs := ∅
  retransmittingMsgs := ∅
  retransmitReqs := ∅
  txMeter := 0
  rrQueue := []
  receivingQueue := []
  recvMsgs := ∅
  backlogFreeList := []
  backlogUsedMap := ∅
  txQueue := []
  msgMaxSeq := ∅
  isDead := false
  metaQueue := []
  cq := []
  mem := fun _ => 0
  log := []

def enqueue (c : Communicator) (dest : ℤ) (signal : Signal) : Communicator :=
  { c with txQueue := c.txQueue ++ [(dest, signal)], log := c.log ++ [.enqueue dest signal] }

/-- The payload is taken to be shorter than `2^32 - 8` bytes, so that `set_msg_length` keeps its
length. -/
def sendMetaAsync (h : Host) (payload : List UInt8) (c : Communicator) : Communicator :=
  c.enqueue h.destCommId (.userData payload)

def postSend (h : Host) (msg : LtMessage) (c : Communicator) : Communicator :=
  let c := c.enqueue h.destCommId
    (.flowStart msg.msgId (u32 msg.size) (h.packetizer.getMaxSeqNum msg.size))
  { c with srQueue := c.srQueue ++ [.new msg] }

def postRecv (msg : LtMessage) (target : ℕ) (c : Communicator) : Communicator :=
  { c with rrQueue := c.rrQueue ++ [(msg, target)] }

/-- One round of the routing loop of `ReliableChannel::Run`: a signal to a communicator
without an endpoint is dropped. -/
def routeSignal (h : Host) (c : Communicator) : Communicator × Option Signal :=
  match c.txQueue with
  | [] => (c, none)
  | (dest, signal) :: txQueue =>
    ({ c with txQueue }, if dest = h.destCommId then some signal else none)

/-- `RdEndpoint::HandleReceivedData`. A request is read from the bytes that the stream has carried
of it. The sending rate is not modelled: any poll may be throttled. -/
def handleReceivedData (h : Host) (signal : Signal) (c : Communicator) :
    Except Fault Communicator :=
  match signal with
  | .userData payload => .ok { c with metaQueue := c.metaQueue ++ [(h.destCommId, payload)] }
  | .flowStart msgId _ maxSeqNum => .ok { c with msgMaxSeq := c.msgMaxSeq.insert msgId maxSeqNum }
  | .flowFinish msgId =>
    match c.msgMaxSeq.lookup msgId with
    | none => .error .maxSeq
    | some maxSeqNum =>
      .ok { c with receivingQueue := c.receivingQueue ++ [.finishFlow msgId maxSeqNum] }
  | .rateAdjustment _ => .ok c
  | .retransmitRequest req =>
    match receiveFrame (sentBytes req.outBuffer) with
    | none => .ok { c with isDead := true }
    | some body => do
      let req ← RetransmitRequest.decode body
      return { c with priorityQueue := c.priorityQueue ++ [.requestRetransmit req] }
  | .stopRequest msgId commId => do
    require .stopCommId (commId = h.destCommId)
    return { c with
      priorityQueue := c.priorityQueue ++ [.stopFlow (encodeFlow h.destCommId (msgInt msgId))] }
  | .stopConfirm msgId =>
    .ok { c with
      receivingQueue := c.receivingQueue ++ [.confirmStop msgId]
      msgMaxSeq := c.msgMaxSeq.erase msgId }

end Communicator

end Mlt
