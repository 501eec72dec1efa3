import MltByteps.Mlt.FlowSteps

/-! The flow that a state of the connection holds for a side and an id: what its sender
and its receiver have of it, what is on the wires and what is in the network. -/

namespace Mlt

/-! ## The parts of a flow -/

def Signal.fwd (m : UInt32) : Signal → Option Fwd
  | .flowStart k _ ms => if k = m then some (.start ms) else none
  | .flowFinish k => if k = m then some .finish else none
  | .stopConfirm k => if k = m then some .confirm else none
  | _ => none

def RetransmitRequest.arrival (req : RetransmitRequest) : Bwd :=
  match receiveFrame (sentBytes req.outBuffer) with
  | none => .broken
  | some body =>
    match decode body with
    | .ok req => .request req
    | .error _ => .broken

section

variable {req req' : RetransmitRequest} {body : List UInt8}

theorem RetransmitRequest.arrival_eq (hbody : receiveFrame (sentBytes req.outBuffer) = some body)
    (h : decode body = .ok req') : req.arrival = .request req' := by
  simp only [arrival, hbody, h]

theorem RetransmitRequest.msgId_eq_of_decode
    (hbody : receiveFrame (sentBytes req.outBuffer) = some body) (h : decode body = .ok req') :
    req'.msgId = req.msgId := by
  obtain ⟨n, rfl⟩ := receiveFrame_eq_take hbody
  obtain ⟨k, hk⟩ := decode_take h
  cases hk.symm.trans (decode_header_append req _)
  rfl

/-- A request that is cut loses blocks, but those that arrive are its first ones. -/
theorem RetransmitRequest.Fits.arrival_cases (hfits : req.Fits) :
    req.arrival = .broken ∨
      ∃ n, req.arrival = .request { req with payload := req.payload.take n } := by
  rcases hbody : receiveFrame (sentBytes req.outBuffer) with _ | body
  · left
    simp only [arrival, hbody]
  rcases hdec : decode body with e | req'
  · left
    simp only [arrival, hbody, hdec]
  · right
    obtain ⟨n, rfl⟩ := receiveFrame_eq_take hbody
    obtain ⟨k, hk⟩ := decode_take hdec
    cases hk.symm.trans (hfits.decode_header_append _)
    exact ⟨k, arrival_eq hbody hdec⟩

theorem RetransmitRequest.Fits.arrival_asks (hfits : req.Fits) {blocks : List Block}
    (hcar : req.Carries False blocks) : req.arrival.Asks req.commId req.msgId blocks := by
  by_cases hlong : TooLong blocks.length
  · rcases hfits.arrival_cases with harr | ⟨n, harr⟩
    · rw [harr]
      exact hlong
    · rw [harr]
      exact ⟨hcar.take fun hn => absurd hlong hn, rfl, rfl⟩
  · have hlen : 4 + (headerSize + req.payload.length) < 2 ^ 32 := by
      rw [hcar.payload_eq not_false, TreeBlockMgr.length_flatMap_bytes]
      exact Nat.lt_of_not_le hlong
    rw [arrival_eq (receiveFrame_sentBytes hlen) (hfits.decode_header_append _)]
    exact ⟨hcar.mono False.elim, rfl, rfl⟩

end

/-- `self` is the communicator that sends the signal. -/
def Signal.bwd (self : ℤ) (m : UInt32) : Signal → Option Bwd
  | .retransmitRequest req => if req.msgId = m then some req.arrival else none
  | .stopRequest k _ =>
    if k = m then some (.stop (decodeFlow (encodeFlow self (msgInt m))).1) else none
  | _ => none

def PriorityNotification.bwd (m : UInt32) : PriorityNotification → Option Bwd
  | .stopFlow flowId =>
    if UInt32.ofInt (decodeFlow flowId).2 = m then some (.stop (decodeFlow flowId).1) else none
  | .requestRetransmit req => if req.msgId = m then some (.request req) else none

theorem PriorityNotification.bwd_ne_broken (m : UInt32) (x : PriorityNotification) :
    x.bwd m ≠ some .broken := by
  cases x <;> simp only [bwd] <;> split_ifs <;> simp

def Bwd.order : Bwd → Option Bwd
  | .broken => none
  | b => some b

def ReceivingNotification.note (m : UInt32) : ReceivingNotification → Option Note
  | .finishFlow k ms => if k = m then some (.finish ms) else none
  | .confirmStop k => if k = m then some .confirm else none

def Event.isStopRequest (m : UInt32) : Event → Bool
  | .enqueue _ (.stopRequest k _) => k = m
  | _ => false

def Event.isStopConfirm (m : UInt32) : Event → Bool
  | .enqueue _ (.stopConfirm k) => k = m
  | _ => false

def Event.isStopFlow (m : UInt32) : Event → Bool
  | .stopFlow k => k = m
  | _ => false

def Event.accepted (m : UInt32) : Event → Option Accepted
  | .accept k use pktUse seq bytes => if k = m then some ⟨use, pktUse, seq, bytes⟩ else none
  | _ => none

def Completion.isSend (m : UInt32) : Completion → Bool
  | .send k _ => k = m
  | .recv .. => false

def Completion.recvBytes (m : UInt32) : Completion → Option ℕ
  | .send .. => none
  | .recv k _ bytes => if k = m then some bytes else none

/-- What a signal in the queue of the reliable channel will be on the wire. -/
def routed {τ : Type} (dest : ℤ) (sel : Signal → Option τ) (x : ℤ × Signal) : Option τ :=
  if x.1 = dest then sel x.2 else none

@[ext] structure SendSide where
  queued : List LtMessageExt
  sending : Option LtMessageExt
  retransmitting : Option LtMessageExt
  request : Option (RetransmitRequest × RetransmitState)
  orders : List Bwd
  out : List Fwd
  packets : Set (GradPacket × ℕ)
  stopFlows : ℕ
  stopConfirms : ℕ
  completions : ℕ

@[ext] structure RecvSide where
  posted : List (LtMessage × ℕ)
  recv : Option LtMessageExt
  maxSeq : Option ℕ
  notes : List Note
  out : List Bwd
  stopRequests : ℕ
  completions : List ℕ
  accepted : List Accepted

namespace Communicator

def sendSide (h : Host) (m : UInt32) (c : Communicator) : SendSide where
  queued := c.srQueue.filter (·.msgId = m)
  sending := c.sendingMsgs.lookup m
  retransmitting := c.retransmittingMsgs.lookup m
  request := c.retransmitReqs.lookup m
  orders := c.priorityQueue.filterMap (PriorityNotification.bwd m)
  out := c.txQueue.filterMap (routed h.destCommId (Signal.fwd m))
  packets := {x | x ∈ c.txPackets ∧ x.1.msgId = m}
  stopFlows := c.log.countP (Event.isStopFlow m)
  stopConfirms := c.log.countP (Event.isStopConfirm m)
  completions := c.cq.countP (Completion.isSend m)

def recvSide (h : Host) (m : UInt32) (c : Communicator) : RecvSide where
  posted := c.rrQueue.filter (·.1.msgId = m)
  recv := c.recvMsgs.lookup m
  maxSeq := c.msgMaxSeq.lookup m
  notes := c.receivingQueue.filterMap (ReceivingNotification.note m)
  out := c.txQueue.filterMap (routed h.destCommId (Signal.bwd h.packetizer.commId m))
  stopRequests := c.log.countP (Event.isStopRequest m)
  completions := c.cq.filterMap (Completion.recvBytes m)
  accepted := c.log.filterMap (Event.accepted m)

variable (h : Host) (m : UInt32) (c : Communicator) (dest : ℤ) (signal : Signal)

theorem sendSide_enqueue : (c.enqueue dest signal).sendSide h m =
    { c.sendSide h m with
      out := (c.sendSide h m).out ++ (routed h.destCommId (Signal.fwd m) (dest, signal)).toList
      stopConfirms := (c.sendSide h m).stopConfirms +
        (Event.isStopConfirm m (.enqueue dest signal)).toNat } := by
  simp only [sendSide, enqueue, List.filterMap_append, List.countP_append, SendSide.mk.injEq,
    true_and]
  refine ⟨?_, by simp [Event.isStopFlow], ?_⟩
  · rcases hr : routed h.destCommId (Signal.fwd m) (dest, signal) with _ | x <;> simp [hr]
  · cases hs : Event.isStopConfirm m (.enqueue dest signal) <;> simp [hs]

theorem recvSide_enqueue : (c.enqueue dest signal).recvSide h m =
    { c.recvSide h m with
      out := (c.recvSide h m).out ++
        (routed h.destCommId (Signal.bwd h.packetizer.commId m) (dest, signal)).toList
      stopRequests := (c.recvSide h m).stopRequests +
        (Event.isStopRequest m (.enqueue dest signal)).toNat } := by
  simp only [recvSide, enqueue, List.filterMap_append, List.countP_append, RecvSide.mk.injEq,
    true_and]
  refine ⟨?_, ?_, by simp [Event.accepted]⟩
  · rcases hr : routed h.destCommId (Signal.bwd h.packetizer.commId m) (dest, signal) with
      _ | x <;> simp [hr]
  · cases hs : Event.isStopRequest m (.enqueue dest signal) <;> simp [hs]

end Communicator

/-! ## The flow of a state -/

def flying (m : UInt32) (net : List Datagram) : Set (GradPacket × ℕ) :=
  {x | ∃ d ∈ net, (d.pkt, d.use) = x ∧ x.1.msgId = m}

section

variable (cfg : Config)

/-- A flow put together from its two sides and what is between them in `s`. -/
def State.assemble (s : State) (p : Bool) (m : UInt32) (x : SendSide) (y : RecvSide) : Flow where
  queued := x.queued
  sending := x.sending
  retransmitting := x.retransmitting
  request := x.request
  fwd := (s.wire p).filterMap (Signal.fwd m) ++ x.out
  notes := y.notes
  bwd := x.orders ++ ((s.wire (!p)).filterMap (Signal.bwd (cfg.host p).destCommId m) ++ y.out)
  maxSeq := y.maxSeq
  posted := y.posted
  recv := y.recv
  data := x.packets ∪ flying m (s.net p)
  sends := s.sends p m
  recvs := s.recvs p m
  stopRequests := y.stopRequests
  stopFlows := x.stopFlows
  stopConfirms := x.stopConfirms
  sendCompletions := x.completions
  recvCompletions := y.completions
  accepted := y.accepted

def State.sender (s : State) (p : Bool) (m : UInt32) : SendSide :=
  (s.comm p).sendSide (cfg.host p) m

def State.receiver (s : State) (p : Bool) (m : UInt32) : RecvSide :=
  (s.comm (!p)).recvSide (cfg.host (!p)) m

def State.flow (s : State) (p : Bool) (m : UInt32) : Flow :=
  s.assemble cfg p m (s.sender cfg p m) (s.receiver cfg p m)

end

end Mlt
