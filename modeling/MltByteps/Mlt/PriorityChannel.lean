import MltByteps.Mlt.Communicator

/-! The sending thread. Each function is one round of a loop of the source over the only
connection. -/

namespace Mlt.Communicator

/-- `RoutePacket`: the packet goes to the endpoint of its `tos`. -/
def routePacket (pkt : GradPacket) (use : ℕ) (isFinished : Bool) (c : Communicator) :
    Communicator :=
  let c := { c with txPackets := c.txPackets ++ [(pkt, use)] }
  if isFinished then c.enqueue pkt.dstCommId.toNat (.flowFinish pkt.msgId) else c

/-- `PriorityChannel::Run` takes a send request. -/
def popSendRequest (c : Communicator) : Except Fault Communicator :=
  match c.srQueue with
  | [] => .ok c
  | msg :: srQueue => do
    require .sending (c.sendingMsgs.lookup msg.msgId = none)
    return { c with srQueue, sendingMsgs := c.sendingMsgs.insert msg.msgId msg }

/-- `tx_meter.Clear()` if its interval is over, and `tx_meter.Update(nbytes)`. -/
def meter (elapsed : Bool) (nbytes : ℕ) (c : Communicator) : Communicator :=
  { c with txMeter := (if elapsed then 0 else c.txMeter) + nbytes }

/-- A message that has been sent completely moves to `retransmitting_msgs`. -/
def putSending (key : UInt32) (msg : LtMessageExt) (c : Communicator) : Communicator :=
  if msg.size ≤ msg.bytes then
    { c with
      sendingMsgs := c.sendingMsgs.erase msg.msgId
      retransmittingMsgs := c.retransmittingMsgs.insertNode msg.msgId msg }
  else { c with sendingMsgs := c.sendingMsgs.insert key msg }

/-- `throttled` says that the rate of the connection is used up, `elapsed` that the
interval of the meter is over. -/
def pollSendingMessages (h : Host) (throttled elapsed : Bool) (c : Communicator) : Communicator :=
  match c.sendingMsgs.begin? with
  | none => c
  | some (key, msg) =>
    if throttled then c
    else
      let (pkt, msg') := h.packetizer.partitionOne h.destCommId msg h.prioFunc
      ((c.routePacket pkt msg.use (pkt.isLast != 0)).meter elapsed
        (h.packetizer.getBytes msg)).putSending key msg'

/-- The cursor of a request behind the packet at `state`. -/
def advance (hdr : RetransmitRequest) (state : RetransmitState) (block : Block) :
    Except Fault RetransmitState :=
  let seqNum := u32 (state.seqNum + 1)
  if seqNum = block.last then
    let blockNum := u32 (state.blockNum + 1)
    if blockNum < hdr.numBlocks then do
      let next ← hdr.block blockNum
      return ⟨blockNum, next.first⟩
    else return ⟨blockNum, seqNum⟩
  else return ⟨state.blockNum, seqNum⟩

def putRequest (key msgId : UInt32) (hdr : RetransmitRequest) (state : RetransmitState)
    (c : Communicator) : Communicator :=
  let retransmitReqs := c.retransmitReqs.insert key (hdr, state)
  { c with retransmitReqs :=
      if state.blockNum = hdr.numBlocks then retransmitReqs.erase msgId else retransmitReqs }

def pollRetransmitRequest (h : Host) (throttled elapsed : Bool) (c : Communicator) :
    Except Fault Communicator :=
  match c.retransmitReqs.begin? with
  | none => .ok c
  | some (key, hdr, state) => do
    require .retransmitCommId (h.destCommId = hdr.commId)
    match c.retransmittingMsgs.lookup hdr.msgId with
    | none => .error .retransmitting
    | some msg =>
      if throttled then return c
      else
        require .blockNum (state.blockNum < hdr.numBlocks)
        let block ← hdr.block state.blockNum
        require .blockRange (block.first ≤ state.seqNum ∧ state.seqNum < block.last)
        let pkt := h.packetizer.partitionOneBySeq hdr.commId msg h.prioFunc (toInt32 state.seqNum)
        let isFinished : Bool :=
          u32 (state.blockNum + 1) = hdr.numBlocks ∧ u32 (state.seqNum + 1) = block.last
        let state ← advance hdr state block
        return ((c.routePacket pkt msg.use isFinished).meter elapsed
          (h.packetizer.getBytes msg)).putRequest key msg.msgId hdr state

/-- `REQUEST_RETRANSMIT`. `FindConnMetaById` finds the only connection whatever the id is. -/
def requestRetransmit (hdr : RetransmitRequest) (c : Communicator) : Except Fault Communicator := do
  require .numBlocks (0 < hdr.numBlocks)
  let block ← hdr.block 0
  return { c with retransmitReqs := c.retransmitReqs.insert hdr.msgId (hdr, ⟨0, block.first⟩) }

/-- What `StopFlow` removes: a message that is still being sent, or else its requests and the
message itself. -/
def eraseFlow (msgId : UInt32) (c : Communicator) : Communicator :=
  if c.sendingMsgs.lookup msgId = none then
    { c with
      retransmitReqs := c.retransmitReqs.erase msgId
      retransmittingMsgs := c.retransmittingMsgs.erase msgId }
  else { c with sendingMsgs := c.sendingMsgs.erase msgId }

def completeSend (msgId : UInt32) (commId : ℤ) (c : Communicator) : Communicator :=
  { c with cq := c.cq ++ [.send msgId commId], log := c.log ++ [.stopFlow msgId] }

/-- `StopFlow` on the only connection, which `FindConnMetaById` finds for every id. -/
def stopFlow (flowId : ℕ) (c : Communicator) : Communicator :=
  let commId := (decodeFlow flowId).1
  let msgId := UInt32.ofInt (decodeFlow flowId).2
  ((c.eraseFlow msgId).enqueue commId (.stopConfirm msgId)).completeSend msgId commId

def pollPriorityNotification (c : Communicator) : Except Fault Communicator :=
  match c.priorityQueue with
  | [] => .ok c
  | .stopFlow flowId :: priorityQueue => .ok (stopFlow flowId { c with priorityQueue })
  | .requestRetransmit hdr :: priorityQueue => requestRetransmit hdr { c with priorityQueue }

end Mlt.Communicator

namespace Mlt

/-- A datagram as `OnSendReady` gives it to the socket: the header and the bytes behind
`grad_ptr`. -/
structure Datagram where
  pkt : GradPacket
  payload : List UInt8
  use : ℕ

def Datagram.bytes (d : Datagram) : List UInt8 := d.pkt.header ++ d.payload

namespace Communicator

/-- One round of the loop of `UdpEndpoint::OnSendReady`. The packet has left the queue when
the socket is asked to take it. -/
def onSendReady (tos : UInt8) (accepted : Bool) (c : Communicator) :
    Communicator × Option Datagram :=
  match c.txPackets.find? (·.1.tos = tos) with
  | none => (c, none)
  | some (pkt, use) =>
    ({ c with txPackets := c.txPackets.eraseP (·.1.tos = tos) },
      if accepted then
        some ⟨pkt, c.mem.read pkt.gradPtr.toNat (sub64 pkt.len.toNat kGradPacketHeader), use⟩
      else none)

end Communicator

end Mlt
