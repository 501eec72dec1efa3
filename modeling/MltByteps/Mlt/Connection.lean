import MltByteps.Lib.Machine
import MltByteps.Mlt.PriorityChannel
import MltByteps.Mlt.ReceivingChannel

/-! Two connected communicators. Signals travel in order and none is lost; a datagram may
be lost, delivered again and delivered out of order. Every step is one round of a loop of one
thread, and the threads of both sides interleave in any way. -/

namespace Mlt

/-- A connection and the messages posted on it: `size p m k` is the size of the message that
side `p` sends as posting `k` of the id `m`. The ids of the communicators are `int`s in the source;
those from `2^16` on, which a packet header cannot hold, are left out. -/
structure Config where
  maxSegment : ℕ
  commId : Bool → UInt16
  prioFunc : Bool → PktPrioFunc
  loopBuf : Bool → ℕ
  size : Bool → UInt32 → ℕ → ℕ
  sendBuf : Bool → UInt32 → ℕ → ℕ
  recvBuf : Bool → UInt32 → ℕ → ℕ
  target : Bool → UInt32 → ℕ → ℕ
  segment_lo : 22 ≤ maxSegment
  segment_hi : maxSegment ≤ 65535
  size_pos : ∀ p m k, 0 < size p m k
  size_lt : ∀ p m k, size p m k < 2 ^ 32

namespace Config

variable (cfg : Config)

def packetizer (p : Bool) : Packetizer := ⟨cfg.maxSegment, (cfg.commId p).toNat⟩

/-- A segment has no room for the header and the eight bytes of `grad_ptr`. Messages of such
segments can also have so many packets that a request for them is cut. -/
def Short : Prop := cfg.maxSegment < kGradPacketHeader + 8

theorem packetizer_valid (p : Bool) : (cfg.packetizer p).Valid := ⟨cfg.segment_lo, cfg.segment_hi⟩

def host (p : Bool) : Host :=
  ⟨cfg.packetizer p, (cfg.commId !p).toNat, cfg.prioFunc p, cfg.loopBuf p⟩

/-- The bound of the receive that matches posting `k` of the id `m` by side `p`. -/
def bound (p : Bool) (m : UInt32) (k : ℕ) : ℕ := alignUp sizeofFloat (cfg.target p m k)

def sendMsg (p : Bool) (m : UInt32) (k : ℕ) : LtMessage := ⟨m, cfg.sendBuf p m k, cfg.size p m k, k⟩

def recvMsg (p : Bool) (m : UInt32) (k : ℕ) : LtMessage := ⟨m, cfg.recvBuf p m k, cfg.size p m k, k⟩

end Config

/-- `wire p` and `net p` hold what side `p` has sent: signals in order, datagrams in any.
`sends p m` and `recvs p m` count the postings of the flow from side `p` with the id `m`. -/
structure State where
  comm : Bool → Communicator
  wire : Bool → List Signal
  net : Bool → List Datagram
  sends : Bool → UInt32 → ℕ
  recvs : Bool → UInt32 → ℕ

inductive Action where
  | postSend (p : Bool) (m : UInt32)
  | postRecv (p : Bool) (m : UInt32)
  | sendMeta (p : Bool) (payload : List UInt8)
  -- The application writes to memory.
  | write (p : Bool) (addr : ℕ) (bytes : List UInt8)
  | popSendRequest (p : Bool)
  | pollSendingMessages (p throttled elapsed : Bool)
  | pollRetransmitRequest (p throttled elapsed : Bool)
  | pollPriorityNotification (p : Bool)
  | onSendReady (p : Bool) (tos : UInt8) (accepted : Bool)
  | routeSignal (p : Bool)
  | handleReceivedData (p : Bool)
  -- The `i`-th datagram of the peer arrives; it may arrive again.
  | handleReceive (p : Bool) (i : ℕ) (rate : Option UInt32)
  -- The `i`-th datagram of this side is lost.
  | lose (p : Bool) (i : ℕ)
  | pollReceiveRequest (p : Bool)
  | pollReceivingNotification (p : Bool)
deriving DecidableEq, Repr

namespace State

def init : State where
  comm _ := .init
  wire _ := []
  net _ := []
  sends _ _ := 0
  recvs _ _ := 0

def setComm (s : State) (p : Bool) (c : Communicator) : State :=
  { s with comm := Function.update s.comm p c }

def setWire (s : State) (p : Bool) (l : List Signal) : State :=
  { s with wire := Function.update s.wire p l }

def setNet (s : State) (p : Bool) (l : List Datagram) : State :=
  { s with net := Function.update s.net p l }

def countSend (s : State) (p : Bool) (m : UInt32) : State :=
  { s with sends := Function.update s.sends p (Function.update (s.sends p) m (s.sends p m + 1)) }

def countRecv (s : State) (p : Bool) (m : UInt32) : State :=
  { s with recvs := Function.update s.recvs p (Function.update (s.recvs p) m (s.recvs p m + 1)) }

end State

/-- An action that finds its queue empty changes nothing, as a poll that pops nothing. -/
def step (cfg : Config) (s : State) : Action → Except Fault State
  | .postSend p m =>
    .ok ((s.setComm p ((s.comm p).postSend (cfg.host p) (cfg.sendMsg p m (s.sends p m)))).countSend
      p m)
  | .postRecv p m =>
    .ok ((s.setComm p ((s.comm p).postRecv (cfg.recvMsg (!p) m (s.recvs (!p) m))
      (cfg.target (!p) m (s.recvs (!p) m)))).countRecv (!p) m)
  | .sendMeta p payload => .ok (s.setComm p ((s.comm p).sendMetaAsync (cfg.host p) payload))
  | .write p addr bytes =>
    .ok (s.setComm p { s.comm p with mem := (s.comm p).mem.write addr bytes })
  | .popSendRequest p => do return s.setComm p (← (s.comm p).popSendRequest)
  | .pollSendingMessages p throttled elapsed =>
    .ok (s.setComm p ((s.comm p).pollSendingMessages (cfg.host p) throttled elapsed))
  | .pollRetransmitRequest p throttled elapsed => do
    return s.setComm p (← (s.comm p).pollRetransmitRequest (cfg.host p) throttled elapsed)
  | .pollPriorityNotification p => do return s.setComm p (← (s.comm p).pollPriorityNotification)
  | .onSendReady p tos accepted =>
    let (c, datagram) := (s.comm p).onSendReady tos accepted
    .ok ((s.setComm p c).setNet p (s.net p ++ datagram.toList))
  | .routeSignal p =>
    -- What is routed to a dead endpoint is never sent: it stays where it is.
    if (s.comm p).isDead then .ok s
    else
      let (c, signal) := (s.comm p).routeSignal (cfg.host p)
      .ok ((s.setComm p c).setWire p (s.wire p ++ signal.toList))
  | .handleReceivedData p =>
    if (s.comm p).isDead then .ok s
    else
      match s.wire (!p) with
      | [] => .ok s
      | signal :: wire => do
        let c ← (s.comm p).handleReceivedData (cfg.host p) signal
        return (s.setComm p c).setWire (!p) wire
  | .handleReceive p i rate =>
    match (s.net (!p))[i]? with
    | none => .ok s
    | some d => do return s.setComm p (← (s.comm p).handleReceive (cfg.host p) d.bytes d.use rate)
  | .lose p i => .ok (s.setNet p ((s.net p).eraseIdx i))
  | .pollReceiveRequest p => do return s.setComm p (← (s.comm p).pollReceiveRequest)
  | .pollReceivingNotification p => do
    return s.setComm p (← (s.comm p).pollReceivingNotification (cfg.host p))

def machine (cfg : Config) : Machine State Action Fault := ⟨.init, step cfg⟩

namespace State

/-- The completions of the flow from side `p` with the id `m`. -/
def sendCompletions (s : State) (p : Bool) (m : UInt32) : ℕ :=
  (s.comm p).cq.countP fun
    | .send k _ => k = m
    | .recv .. => false

def recvCompletions (s : State) (p : Bool) (m : UInt32) : ℕ :=
  (s.comm (!p)).cq.countP fun
    | .send .. => false
    | .recv k _ _ => k = m

end State

def Once (s : State) : Action → Prop
  | .postSend p m => s.sends p m = 0
  | .postRecv p m => s.recvs (!p) m = 0
  | _ => True

instance (s : State) : (a : Action) → Decidable (Once s a)
  | .postSend .. | .postRecv .. => inferInstanceAs (Decidable (_ = _))
  | .sendMeta .. | .write .. | .popSendRequest .. | .pollSendingMessages ..
  | .pollRetransmitRequest .. | .pollPriorityNotification .. | .onSendReady .. | .routeSignal ..
  | .handleReceivedData .. | .handleReceive .. | .lose .. | .pollReceiveRequest ..
  | .pollReceivingNotification .. => isTrue trivial

/-- An id is used again only after the flow that used it before has produced both its
completions. -/
def Reuse (s : State) : Action → Prop
  | .postSend p m => s.sendCompletions p m = s.sends p m ∧ s.recvCompletions p m = s.sends p m
  | .postRecv p m =>
    s.sendCompletions (!p) m = s.recvs (!p) m ∧ s.recvCompletions (!p) m = s.recvs (!p) m
  | _ => True

instance (s : State) : (a : Action) → Decidable (Reuse s a)
  | .postSend .. | .postRecv .. => inferInstanceAs (Decidable (_ ∧ _))
  | .sendMeta .. | .write .. | .popSendRequest .. | .pollSendingMessages ..
  | .pollRetransmitRequest .. | .pollPriorityNotification .. | .onSendReady .. | .routeSignal ..
  | .handleReceivedData .. | .handleReceive .. | .lose .. | .pollReceiveRequest ..
  | .pollReceivingNotification .. => isTrue trivial

end Mlt
