import MltByteps.Mlt.Connection
import MltByteps.Mlt.Retransmission
import Mathlib.Algebra.BigOperators.Group.Finset.Basic

/-! One flow: what the two communicators, the control channels and the network hold of the
messages that side `p` sends under the id `m`, and the protocol it follows. A flow is closed
between two postings. While it is active a single token drives it: the unsent part of the
message, its `FlowFinish`, or a request to send packets again. The receiver ends it with a
`StopRequest`, which the sender answers and the receiver then completes. -/

namespace Mlt

inductive Fwd where
  | start (maxSeqNum : ℕ)
  | finish
  | confirm
deriving DecidableEq, Repr

inductive Note where
  | finish (maxSeqNum : ℕ)
  | confirm
deriving DecidableEq, Repr

/-- Signals of a flow on their way to the sending thread, as they will be received. `dest` is the
communicator that `DecodeFlow` will find. -/
inductive Bwd where
  | request (req : RetransmitRequest)
  -- A request whose header does not arrive completely.
  | broken
  | stop (dest : ℤ)
deriving DecidableEq, Repr

def Bwd.Asks (commId : ℤ) (m : UInt32) (blocks : List Block) : Bwd → Prop
  | .request req => req.Carries (RetransmitRequest.TooLong blocks.length) blocks ∧
      req.commId = commId ∧ req.msgId = m
  | .broken => RetransmitRequest.TooLong blocks.length
  | .stop _ => False

@[ext] structure Control where
  queued : List LtMessageExt
  sending : Option LtMessageExt
  retransmitting : Option LtMessageExt
  request : Option (RetransmitRequest × RetransmitState)
  fwd : List Fwd
  notes : List Note
  bwd : List Bwd
  maxSeq : Option ℕ

/-- A packet copied by `CopyGradients`: the posting it was copied into, the posting it was
emitted for, its number and its bytes. -/
structure Accepted where
  use : ℕ
  pktUse : ℕ
  seq : ℕ
  bytes : ℕ
deriving DecidableEq, Repr

structure Flow extends Control where
  posted : List (LtMessage × ℕ)
  recv : Option LtMessageExt
  data : Set (GradPacket × ℕ)
  sends : ℕ
  recvs : ℕ
  stopRequests : ℕ
  stopFlows : ℕ
  stopConfirms : ℕ
  sendCompletions : ℕ
  recvCompletions : List ℕ
  accepted : List Accepted

/-! ## The protocol -/

/-- What will make an active flow go on. `lost` and `settled` are the absence of a token. -/
inductive Token where
  | queued
  | sending (q : ℕ)
  | finish
  | note
  | request (req : RetransmitRequest) (l : List ℕ)
  | resending (req : RetransmitRequest) (state : RetransmitState) (l : List ℕ)
  | broken
  | lost
  | settled

/-- Where the last `FlowFinish` of a stopped flow is. -/
inductive Late where
  | gone
  | flying
  | noted

/-- `start` says that the `FlowStart` is still on its way, `stop` that a `StopRequest` is. -/
inductive Phase where
  | closed
  | active (tok : Token) (start stop : Bool)
  | stopping (start : Bool) (late : Late)
  | confirmed (late : Bool)

inductive Receiver where
  | idle
  | posted
  | opened (taken : Finset ℕ) (stopped : Bool)

def Receiver.taken : Receiver → Finset ℕ
  | .opened taken _ => taken
  | _ => ∅

def Receiver.stopped : Receiver → Bool
  | .opened _ stopped => stopped
  | _ => false

def Receiver.IsOpen : Receiver → Prop
  | .opened .. => True
  | _ => False

/-- Postings of a flow whose first `k` uses are complete, in each phase. -/
def Phase.sends (k : ℕ) : Phase → ℕ
  | .closed => k
  | _ => k + 1

def Phase.started (k : ℕ) : Phase → ℕ
  | .closed => k
  | .active .queued _ _ => k
  | _ => k + 1

def Phase.stops (k : ℕ) : Phase → ℕ
  | .closed => k
  | .active .. => k
  | _ => k + 1

/-- Postings whose `StopConfirm` the receiver has got. -/
def Phase.confirms (k : ℕ) : Phase → ℕ
  | .confirmed _ => k + 1
  | _ => k

section

variable (cfg : Config) (p : Bool) (m : UInt32)

def Config.maxSeq (k : ℕ) : ℕ := (cfg.packetizer p).getMaxSeqNum (cfg.size p m k)

def Config.total (k : ℕ) (taken : Finset ℕ) : ℕ :=
  ∑ q ∈ taken, (cfg.packetizer p).payloadLen (cfg.size p m k) q

/-- The communicator to which `StopFlow` addresses its `StopConfirm`. -/
def Config.stopDest : ℤ := (decodeFlow (encodeFlow (cfg.host p).destCommId (msgInt m))).1

def Config.confirmFwd : List Fwd :=
  if cfg.stopDest p m = (cfg.host p).destCommId then [.confirm] else []

variable (k : ℕ)

def Config.startFwd (start : Bool) : List Fwd :=
  if start then [.start (cfg.maxSeq p m k)] else []

def Config.stopBwd (stop : Bool) : List Bwd := if stop then [.stop (cfg.stopDest p m)] else []

@[simp] theorem Config.startFwd_true :
    cfg.startFwd p m k true = [.start (cfg.maxSeq p m k)] := rfl

@[simp] theorem Config.startFwd_false : cfg.startFwd p m k false = [] := rfl

@[simp] theorem Config.stopBwd_true : cfg.stopBwd p m true = [.stop (cfg.stopDest p m)] := rfl

@[simp] theorem Config.stopBwd_false : cfg.stopBwd p m false = [] := rfl

@[simp] def Config.sentControl (start stop : Bool) : Control where
  queued := []
  sending := none
  retransmitting := some { LtMessageExt.new (cfg.sendMsg p m k) with bytes := cfg.size p m k }
  request := none
  fwd := cfg.startFwd p m k start
  notes := []
  bwd := cfg.stopBwd p m stop
  maxSeq := if start then none else some (cfg.maxSeq p m k)

@[simp] def Token.control (start stop : Bool) : Token → Control
  | .queued =>
    { cfg.sentControl p m k start stop with
      queued := [.new (cfg.sendMsg p m k)], retransmitting := none }
  | .sending q =>
    { cfg.sentControl p m k start stop with
      sending := some { LtMessageExt.new (cfg.sendMsg p m k) with
        bytes := q * (cfg.packetizer p).bound }
      retransmitting := none }
  | .finish =>
    { cfg.sentControl p m k start stop with fwd := cfg.startFwd p m k start ++ [.finish] }
  | .note => { cfg.sentControl p m k start stop with notes := [.finish (cfg.maxSeq p m k)] }
  | .request req _ =>
    { cfg.sentControl p m k start stop with bwd := .request req :: cfg.stopBwd p m stop }
  | .resending req state _ =>
    { cfg.sentControl p m k start stop with request := some (req, state) }
  | .broken => { cfg.sentControl p m k start stop with bwd := .broken :: cfg.stopBwd p m stop }
  | .lost => cfg.sentControl p m k start stop
  | .settled => cfg.sentControl p m k start stop

@[simp] def Late.fwd : Late → List Fwd
  | .flying => [.finish]
  | _ => []

@[simp] def Late.notes : Late → List Note
  | .noted => [.finish (cfg.maxSeq p m k)]
  | _ => []

@[simp] def Phase.control : Phase → Control
  | .closed => ⟨[], none, none, none, [], [], [], none⟩
  | .active tok start stop => tok.control cfg p m k start stop
  | .stopping start late =>
    { cfg.sentControl p m k start false with
      retransmitting := none
      fwd := cfg.startFwd p m k start ++ late.fwd ++ cfg.confirmFwd p m
      notes := late.notes cfg p m k }
  | .confirmed late =>
    ⟨[], none, none, none, [], (if late then [.finish (cfg.maxSeq p m k)] else []) ++ [.confirm],
      [], none⟩

def Config.Satisfied (taken : Finset ℕ) : Prop :=
  cfg.bound p m k ≤ cfg.total p m k taken ∨ ∀ q ≤ cfg.maxSeq p m k, q ∈ taken

def Token.Valid : Token → Receiver → Prop
  | .queued, rcv => rcv.taken = ∅
  | .sending q, _ => q ≤ cfg.maxSeq p m k
  | .request req l, _ => (∃ b blocks, req.Carries cfg.Short (b :: blocks) ∧
      l = IntervalList.points Block.first Block.last (b :: blocks)) ∧
      req.commId = (cfg.host p).destCommId ∧ req.msgId = m ∧ ∀ q ∈ l, q ≤ cfg.maxSeq p m k
  | .resending req state l, _ => req.Cursor cfg.Short state l ∧
      req.commId = (cfg.host p).destCommId ∧ req.msgId = m ∧ ∀ q ∈ l, q ≤ cfg.maxSeq p m k
  | .broken, _ | .lost, _ => cfg.Short
  | .settled, rcv => rcv.IsOpen ∧ cfg.Satisfied p m k rcv.taken
  | _, _ => True

def Phase.Fits : Phase → Receiver → Prop
  | .closed, rcv => rcv.taken = ∅ ∧ rcv.stopped = false
  | .active tok _ stop, rcv => stop = rcv.stopped ∧ tok.Valid cfg p m k rcv
  | .stopping .., rcv | .confirmed _, rcv => rcv.stopped = true

/-- The entry of a receive into which the packets `taken` have been copied. -/
structure Entry (e : LtMessageExt) (taken : Finset ℕ) (stopped : Bool) : Prop where
  toLtMessage_eq : e.toLtMessage = cfg.recvMsg p m k
  bound_eq : e.bound = cfg.bound p m k
  stopped_eq : e.stopped = stopped
  holds : e.blockMgr.Holds taken
  size_le : e.blockMgr.size ≤ cfg.maxSeq p m k + 1
  bytes_eq : e.bytes = cfg.total p m k taken
  taken_le : ∀ q ∈ taken, q ≤ cfg.maxSeq p m k
  stopped_iff : stopped = true ↔ taken.Nonempty ∧ cfg.bound p m k ≤ cfg.total p m k taken

def Receiver.Matches (f : Flow) : Receiver → Prop
  | .idle => f.posted = [] ∧ f.recv = none ∧ f.recvs = k
  | .posted => f.posted = [(cfg.recvMsg p m k, cfg.target p m k)] ∧ f.recv = none ∧ f.recvs = k + 1
  | .opened taken stopped => f.posted = [] ∧ f.recvs = k + 1 ∧
      ∃ e, f.recv = some e ∧ Entry cfg p m k e taken stopped

/-- A packet that the sender has routed for posting `u` of the id. -/
structure Emitted (pkt : GradPacket) (u : ℕ) : Prop where
  isPacket : ∃ q ≤ cfg.maxSeq p m u, (cfg.packetizer p).IsPacket (cfg.size p m u) q pkt
  dst_eq : pkt.dstCommId = cfg.commId !p
  src_eq : pkt.srcCommId = cfg.commId p

/-- The packets accepted for posting `u`, each once. -/
def Logged (f : Flow) (u : ℕ) (taken : Finset ℕ) : Prop :=
  let acc := f.accepted.filter (·.use = u)
  (acc.map Accepted.seq).Nodup ∧ (acc.map Accepted.seq).toFinset = taken ∧
    ∀ a ∈ acc, a.bytes = (cfg.packetizer p).payloadLen (cfg.size p m u) a.seq

/-- A flow of which `k` postings are complete, in the given phase. -/
structure Flow.Inv (f : Flow) (phase : Phase) (rcv : Receiver) : Prop where
  completions : f.recvCompletions.length = k
  control : f.toControl = phase.control cfg p m k
  sends : f.sends = phase.sends k
  sendCompletions : f.sendCompletions = phase.stops k
  stopFlows : f.stopFlows = phase.stops k
  stopConfirms : f.stopConfirms = phase.stops k
  stopRequests : f.stopRequests = k + rcv.stopped.toNat
  routable : 0 < phase.confirms k → cfg.stopDest p m = (cfg.host p).destCommId
  matches_rcv : rcv.Matches cfg p m k f
  fits : phase.Fits cfg p m k rcv
  emitted : ∀ x ∈ f.data, x.2 < phase.started k ∧ Emitted cfg p m x.1 x.2
  current : rcv.IsOpen → ∀ x ∈ f.data, x.2 = k
  logged : Logged cfg p m f k rcv.taken
  accepted : ∀ a ∈ f.accepted, a.pktUse = a.use ∧ a.use ≤ k
  completed : ∀ j < k, ∃ taken, Logged cfg p m f j taken ∧
    f.recvCompletions[j]? = some (cfg.total p m j taken) ∧ cfg.bound p m j ≤ cfg.total p m j taken

def Flow.Ok (f : Flow) : Prop := ∃ k phase rcv, f.Inv cfg p m k phase rcv

end

end Mlt
