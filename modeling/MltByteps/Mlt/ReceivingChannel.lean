import MltByteps.Mlt.Communicator

/-! The receiving thread. -/

namespace Mlt

def alignUp (alignment value : ℕ) : ℕ := (value + alignment - 1) / alignment * alignment

def sizeofFloat : ℕ := 4

namespace Communicator
open LittleEndian

def putRecv (msgId : UInt32) (msg : LtMessageExt) (c : Communicator) : Communicator :=
  { c with recvMsgs := c.recvMsgs.insert msgId msg }

/-- `CopyGradients` on the entry of a message, with the packet recorded if it was new. -/
def acceptPacket (msgId : UInt32) (msg : LtMessageExt) (pkt : GradPacket) (pktUse : ℕ)
    (c : Communicator) : Except Fault (ℕ × LtMessageExt × Communicator) := do
  let (copied, msg', mem) ← msg.copyGradients pkt c.mem
  let log := if 0 < copied then c.log ++ [.accept msgId msg.use pktUse pkt.seq.toNat copied]
    else c.log
  return (copied, msg', putRecv msgId msg' { c with mem, log })

def keepInBacklog (h : Host) (msgId : UInt32) (size pktUse : ℕ) (c : Communicator) : Communicator :=
  let vec := (c.backlogUsedMap.lookup msgId).getD []
  match c.backlogFreeList.getLast? with
  | none => { c with backlogUsedMap := c.backlogUsedMap.insert msgId vec }
  | some slot =>
    { c with
      backlogUsedMap := c.backlogUsedMap.insert msgId (vec ++ [(slot, pktUse)])
      backlogFreeList := c.backlogFreeList.dropLast
      mem := c.mem.copy slot h.buf size }

/-- `rate` is the speed to report if the interval of the meter is over. -/
def reportRate (dest : ℤ) (rate : Option UInt32) (c : Communicator) : Communicator :=
  match rate with
  | none => c
  | some speed => c.enqueue dest (.rateAdjustment speed)

/-- The part of `HandleReceive` behind the meter: the packet goes to the entry of its message
or to the backlog, and a receive that has enough is stopped once. -/
def deliver (h : Host) (pkt : GradPacket) (size pktUse : ℕ) (c : Communicator) :
    Except Fault Communicator :=
  match c.recvMsgs.lookup pkt.msgId with
  | none => .ok (c.keepInBacklog h pkt.msgId size pktUse)
  | some msg => do
    let (copied, msg, c) ← c.acceptPacket pkt.msgId msg pkt pktUse
    if 0 < copied ∧ msg.finishReceiving ∧ ¬msg.stopped then
      return (c.putRecv pkt.msgId { msg with stopped := true }).enqueue pkt.srcCommId.toNat
        (.stopRequest pkt.msgId h.packetizer.commId)
    else return c

/-- The buffer of the receiving loop after `RecvFrom`, and after `HandleReceive` has set
`grad_ptr`. The struct is laid over the buffer, so this writes to the eight bytes behind the
header. The buffer has the length of a segment: with segments shorter than 28 bytes the last of
these lie behind its end, in memory that the program may use for something else. -/
def receiveInto (h : Host) (bytes : List UInt8) (mem : Memory) : Memory :=
  let gradPtr := h.buf + kGradPacketHeader
  (mem.write h.buf bytes).write gradPtr (leBytes 8 gradPtr)

/-- `RecvFrom` of a datagram into the buffer of the loop, and `HandleReceive`. -/
def handleReceive (h : Host) (bytes : List UInt8) (pktUse : ℕ) (rate : Option UInt32)
    (c : Communicator) : Except Fault Communicator := do
  let bytes := bytes.take h.packetizer.maxSegment
  let c := { c with mem := receiveInto h bytes c.mem }
  let pkt := GradPacket.ofMemory c.mem h.buf
  require .dstCommId (pkt.dstCommId = UInt16.ofInt h.packetizer.commId)
  let dest : ℤ := pkt.srcCommId.toNat
  if dest ≠ h.destCommId then return c
  else (c.reportRate dest rate).deliver h pkt bytes.length pktUse

def copyBacklog (msgId : UInt32) : List (ℕ × ℕ) → LtMessageExt → Communicator →
    Except Fault (LtMessageExt × Communicator)
  | [], msg, c => .ok (msg, c)
  | (slot, pktUse) :: vec, msg, c => do
    let (_, msg, c) ← c.acceptPacket msgId msg (GradPacket.ofMemory c.mem slot) pktUse
    copyBacklog msgId vec msg { c with backlogFreeList := c.backlogFreeList ++ [slot] }

def newRecvMsg (ltmsg : LtMessage) (c : Communicator) :
    Except Fault (LtMessageExt × Communicator) :=
  match c.backlogUsedMap.lookup ltmsg.msgId with
  | none => .ok (.new ltmsg, c)
  | some vec => do
    let (msg, c) ← copyBacklog ltmsg.msgId vec (.new ltmsg) c
    return (msg, { c with backlogUsedMap := c.backlogUsedMap.insert ltmsg.msgId [] })

def pollReceiveRequest (c : Communicator) : Except Fault Communicator :=
  match c.rrQueue with
  | [] => .ok c
  | (ltmsg, target) :: rrQueue => do
    require .recvPosted (c.recvMsgs.lookup ltmsg.msgId = none)
    let (msg, c) ← newRecvMsg ltmsg { c with rrQueue }
    let bound := alignUp sizeofFloat target
    return c.putRecv ltmsg.msgId { msg with bound }

/-- `FinishFlow`. Without a posted receive every packet is asked for again. The request is kept
whole here; `set_msg_length` cuts its length to a `uint32_t`, so only a part of it may arrive, which
is what `sentBytes` and `receiveFrame` say. -/
def finishFlow (h : Host) (msgId : UInt32) (maxSeqNum : ℕ) (c : Communicator) :
    Except Fault Communicator :=
  let commId := h.packetizer.commId
  match c.recvMsgs.lookup msgId with
  | none =>
    .ok (c.enqueue h.destCommId (.retransmitRequest
      ⟨msgId, commId, u32 (sizeofBlock / sizeofBlock), (Block.mk 0 (u32 (maxSeqNum + 1))).bytes⟩))
  | some msg =>
    if msg.finishReceiving then .ok c
    else do
      let blockMgr ← msg.blockMgr.growTo maxSeqNum
      let c := c.putRecv msgId { msg with blockMgr }
      let payloadSize := blockMgr.byteSize
      if payloadSize = 0 then return c
      let payload ← blockMgr.serializeToBuffer payloadSize
      return c.enqueue h.destCommId (.retransmitRequest
        ⟨msgId, commId, u32 (payloadSize / sizeofBlock), payload⟩)

def confirmStop (h : Host) (msgId : UInt32) (c : Communicator) : Except Fault Communicator :=
  match c.recvMsgs.lookup msgId with
  | none => .error .confirmStop
  | some msg =>
    .ok { c with
      cq := c.cq ++ [.recv msgId h.destCommId msg.bytes]
      recvMsgs := c.recvMsgs.erase msgId }

def pollReceivingNotification (h : Host) (c : Communicator) : Except Fault Communicator :=
  match c.receivingQueue with
  | [] => .ok c
  | .finishFlow msgId maxSeqNum :: receivingQueue =>
    finishFlow h msgId maxSeqNum { c with receivingQueue }
  | .confirmStop msgId :: receivingQueue => confirmStop h msgId { c with receivingQueue }

end Communicator

end Mlt
