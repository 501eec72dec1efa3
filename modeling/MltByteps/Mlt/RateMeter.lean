import MltByteps.Lib.Machine
import MltByteps.Mlt.SenderView

/-! The rate meter of a connection, and what the two polls of the sending thread charge to it
for each packet they route. -/

namespace Mlt

/-- Times are in nanoseconds. `bytes` is a `size_t` in the source: fewer than `2^64` bytes are taken
to be charged between two calls of `Clear`. -/
structure RateMeter where
  sample : ℤ
  scnt : ℤ
  bytes : ℕ
  msgs : ℕ
  tp : ℤ
  interval : ℤ
deriving DecidableEq

namespace RateMeter

def new (intervalUs now : ℤ) : RateMeter := ⟨0, 0, 0, 0, now, intervalUs * 1000⟩

def update (add : ℕ) (m : RateMeter) : RateMeter :=
  { m with bytes := m.bytes + add, msgs := m.msgs + 1, scnt := m.scnt + 1 }

def elapsed (now : ℤ) (m : RateMeter) : Bool × RateMeter :=
  if m.sample ≤ m.scnt + 1 then (decide (m.interval ≤ now - m.tp), { m with scnt := 0 })
  else (false, { m with scnt := m.scnt + 1 })

def clear (now : ℤ) (m : RateMeter) : RateMeter := { m with bytes := 0, msgs := 0, tp := now }

/-- `Elapsed`, `Clear` and `Update` as the polls call them; `now` and `now'` are what the clock
says in the first two. -/
def charge (now now' : ℤ) (nbytes : ℕ) (m : RateMeter) : RateMeter :=
  let (expired, m) := m.elapsed now
  (if expired then m.clear now' else m).update nbytes

theorem bytes_charge (now now' : ℤ) (nbytes : ℕ) (m : RateMeter) :
    (m.charge now now' nbytes).bytes = (if (m.elapsed now).1 then 0 else m.bytes) + nbytes := by
  have hbytes : (m.elapsed now).2.bytes = m.bytes := by
    unfold elapsed
    split_ifs <;> rfl
  unfold charge
  generalize m.elapsed now = r at hbytes ⊢
  obtain ⟨expired, m'⟩ := r
  cases expired
  · exact congrArg (· + nbytes) hbytes
  · rfl

end RateMeter

/-- A packet that was routed, what had been passed to `TryBytesPerSecond` before and what was
passed to `Update` for it. -/
structure Charge where
  pkt : GradPacket
  tried : ℕ
  charged : ℕ

def Charge.Exact (x : Charge) : Prop :=
  x.tried = x.pkt.len.toNat ∧ x.charged = x.pkt.len.toNat

/-- The sending side of a connection with its meter, which stands for the count in `conn`.
`charges` has all packets routed so far. `sinceClear` has those routed since the last `Clear`;
the packet of the poll that clears the meter is the first of them, as its bytes are added
after the `Clear`. The program reads neither. -/
structure MeteredConn where
  conn : Communicator
  txMeter : RateMeter
  charges : List Charge
  sinceClear : List GradPacket

namespace MeteredConn

def init (intervalUs now : ℤ) : MeteredConn := ⟨.init, .new intervalUs now, [], []⟩

def sent (now now' : ℤ) (x : Charge) (conn : Communicator) (s : MeteredConn) : MeteredConn where
  conn := conn
  txMeter := s.txMeter.charge now now' x.charged
  charges := s.charges ++ [x]
  sinceClear := (if (s.txMeter.elapsed now).1 then [] else s.sinceClear) ++ [x.pkt]

/-- `throttled` is the outcome of `TryBytesPerSecond(nbytes) > sending_rate`. -/
def pollSendingMessages (h : Host) (throttled : Bool) (now now' : ℤ) (s : MeteredConn) :
    MeteredConn :=
  match s.conn.sendingMsgs.begin? with
  | none => s
  | some (key, msg) =>
    let nbytes := h.packetizer.getBytes msg
    if throttled then s
    else
      let (pkt, msg') := h.packetizer.partitionOne h.destCommId msg h.prioFunc
      s.sent now now' ⟨pkt, nbytes, nbytes⟩
        ((s.conn.routePacket pkt msg.use (pkt.isLast != 0)).putSending key msg')

def pollRetransmitRequest (h : Host) (throttled : Bool) (now now' : ℤ) (s : MeteredConn) :
    Except Fault MeteredConn :=
  match s.conn.retransmitReqs.begin? with
  | none => .ok s
  | some (key, hdr, state) => do
    require .retransmitCommId (h.destCommId = hdr.commId)
    match s.conn.retransmittingMsgs.lookup hdr.msgId with
    | none => .error .retransmitting
    | some msg =>
      let nbytes := h.packetizer.getBytes msg
      if throttled then return s
      else
        require .blockNum (state.blockNum < hdr.numBlocks)
        let block ← hdr.block state.blockNum
        require .blockRange (block.first ≤ state.seqNum ∧ state.seqNum < block.last)
        let pkt := h.packetizer.partitionOneBySeq hdr.commId msg h.prioFunc (toInt32 state.seqNum)
        let isFinished : Bool :=
          u32 (state.blockNum + 1) = hdr.numBlocks ∧ u32 (state.seqNum + 1) = block.last
        let state ← Communicator.advance hdr state block
        return s.sent now now' ⟨pkt, nbytes, nbytes⟩
          ((s.conn.routePacket pkt msg.use isFinished).putRequest key msg.msgId hdr state)

inductive Action where
  | post (msg : LtMessage) (hsize : msg.size < 2 ^ 64)
  | popSendRequest
  | requestRetransmit (hdr : RetransmitRequest)
  | stopFlow (flowId : ℕ)
  | pollSendingMessages (prio : PktPrioFunc) (throttled : Bool) (now now' : ℤ)
  | pollRetransmitRequest (prio : PktPrioFunc) (throttled : Bool) (now now' : ℤ)

def step (p : Packetizer) (dest : ℤ) (s : MeteredConn) : Action → Except Fault MeteredConn
  | .post msg _ => .ok { s with conn.srQueue := s.conn.srQueue ++ [.new msg] }
  | .popSendRequest => do
    let conn ← s.conn.popSendRequest
    return { s with conn }
  | .requestRetransmit hdr => do
    let conn ← s.conn.requestRetransmit hdr
    return { s with conn }
  | .stopFlow flowId => .ok { s with conn := s.conn.stopFlow flowId }
  | .pollSendingMessages prio throttled now now' =>
    .ok (s.pollSendingMessages ⟨p, dest, prio, 0⟩ throttled now now')
  | .pollRetransmitRequest prio throttled now now' =>
    s.pollRetransmitRequest ⟨p, dest, prio, 0⟩ throttled now now'

/-! ## The polls of the thread -/

def withMeter (n : ℕ) (c : Communicator) : Communicator := { c with txMeter := n }

def comm (s : MeteredConn) : Communicator := withMeter s.txMeter.bytes s.conn

section

variable (n : ℕ) (c : Communicator)

theorem routePacket_withMeter (pkt : GradPacket) (use : ℕ) (isFinished : Bool) :
    (withMeter n c).routePacket pkt use isFinished =
      withMeter n (c.routePacket pkt use isFinished) := by
  unfold Communicator.routePacket
  split_ifs <;> rfl

theorem meter_withMeter (elapsed : Bool) (nbytes : ℕ) :
    (withMeter n c).meter elapsed nbytes = withMeter ((if elapsed then 0 else n) + nbytes) c := rfl

theorem putSending_withMeter (key : UInt32) (msg : LtMessageExt) :
    (withMeter n c).putSending key msg = withMeter n (c.putSending key msg) := by
  unfold Communicator.putSending
  split_ifs <;> rfl

theorem putRequest_withMeter (key msgId : UInt32) (hdr : RetransmitRequest)
    (state : RetransmitState) : (withMeter n c).putRequest key msgId hdr state =
      withMeter n (c.putRequest key msgId hdr state) := rfl

end

variable {h : Host} {throttled : Bool} {now now' : ℤ} {s s' : MeteredConn}

theorem comm_sent (x : Charge) (conn : Communicator) : (s.sent now now' x conn).comm =
    withMeter ((if (s.txMeter.elapsed now).1 then 0 else s.txMeter.bytes) + x.charged) conn := by
  rw [comm, sent, RateMeter.bytes_charge]

theorem comm_pollSendingMessages :
    (s.pollSendingMessages h throttled now now').comm =
      s.comm.pollSendingMessages h throttled (s.txMeter.elapsed now).1 := by
  unfold pollSendingMessages Communicator.pollSendingMessages
  have hb : s.comm.sendingMsgs.begin? = s.conn.sendingMsgs.begin? := rfl
  rw [hb]
  rcases s.conn.sendingMsgs.begin? with _ | ⟨key, msg⟩
  · rfl
  cases throttled
  case true => rfl
  rcases h.packetizer.partitionOne h.destCommId msg h.prioFunc with ⟨pkt, msg'⟩
  generalize h.packetizer.getBytes msg = nbytes
  dsimp only
  rw [if_neg (by simp), if_neg (by simp), comm_sent, comm, routePacket_withMeter, meter_withMeter,
    putSending_withMeter]

theorem comm_pollRetransmitRequest :
    (s.pollRetransmitRequest h throttled now now').map comm =
      s.comm.pollRetransmitRequest h throttled (s.txMeter.elapsed now).1 := by
  unfold pollRetransmitRequest Communicator.pollRetransmitRequest
  have hb : s.comm.retransmitReqs.begin? = s.conn.retransmitReqs.begin? := rfl
  have hl : s.comm.retransmittingMsgs = s.conn.retransmittingMsgs := rfl
  rw [hb, hl]
  rcases s.conn.retransmitReqs.begin? with _ | ⟨key, hdr, state⟩
  · rfl
  dsimp only
  by_cases hcomm : h.destCommId = hdr.commId
  case neg =>
    simp only [require, if_neg hcomm]
    rfl
  rw [require_bind _ hcomm, require_bind _ hcomm]
  rcases s.conn.retransmittingMsgs.lookup hdr.msgId with _ | msg
  · rfl
  cases throttled
  case true => rfl
  generalize h.packetizer.partitionOneBySeq hdr.commId msg h.prioFunc (toInt32 state.seqNum) = pkt
  generalize h.packetizer.getBytes msg = nbytes
  dsimp only
  rw [if_neg (by simp), if_neg (by simp)]
  by_cases hnum : state.blockNum < hdr.numBlocks
  case neg =>
    simp only [require, if_neg hnum]
    rfl
  rw [require_bind _ hnum, require_bind _ hnum]
  rcases hdr.block state.blockNum with e | block
  · rfl
  rw [ok_bind, ok_bind]
  by_cases hrange : block.first ≤ state.seqNum ∧ state.seqNum < block.last
  case neg =>
    simp only [require, if_neg hrange]
    rfl
  rw [require_bind _ hrange, require_bind _ hrange]
  rcases Communicator.advance hdr state block with e | state'
  · rfl
  rw [ok_bind, ok_bind, comm, routePacket_withMeter, meter_withMeter, putRequest_withMeter]
  exact congrArg Except.ok (comm_sent _ _)

/-! ## What is charged -/

/-- Every packet was tried and charged with its own length, and the meter has the total since
its last `Clear`. -/
structure Exact (s : MeteredConn) : Prop where
  charges : ∀ x ∈ s.charges, x.Exact
  bytes_eq : s.txMeter.bytes = (s.sinceClear.map (·.len.toNat)).sum

theorem Exact.sent_iff (hs : s.Exact) (x : Charge) (conn : Communicator) :
    (s.sent now now' x conn).Exact ↔ x.Exact := by
  constructor
  · intro hs'
    exact hs'.charges x (List.mem_append_right _ (List.mem_singleton.mpr rfl))
  · intro hx
    constructor
    · intro y hy
      rcases List.mem_append.mp hy with hy | hy
      · exact hs.charges y hy
      · exact List.mem_singleton.mp hy ▸ hx
    · rw [sent, RateMeter.bytes_charge, hx.2]
      split_ifs
      · simp
      · simp [hs.bytes_eq]

def resendOffset (p : Packetizer) (seqNum : ℕ) : ℕ := ((p.bound * toInt32 seqNum) % 2 ^ 64).toNat

/-- A packet of a message that is being sent has a length of 16 bits, and a packet that is
resent carries no payload. -/
def ChargesLen (p : Packetizer) (s : MeteredConn) : Action → Prop
  | .pollSendingMessages _ throttled _ _ => throttled = false →
    ∀ x ∈ s.conn.sendingMsgs.begin?, p.getBytes x.2 < 2 ^ 16
  | .pollRetransmitRequest _ throttled _ _ => throttled = false →
    ∀ x ∈ s.conn.retransmitReqs.begin?, ∀ msg ∈ s.conn.retransmittingMsgs.lookup x.2.1.msgId,
      p.segmentLen msg.size (resendOffset p x.2.2.seqNum) % 2 ^ 16 = kGradPacketHeader
  | _ => True

instance (p : Packetizer) (s : MeteredConn) : DecidablePred (s.ChargesLen p)
  | .post _ _ => .isTrue trivial
  | .popSendRequest => .isTrue trivial
  | .requestRetransmit _ => .isTrue trivial
  | .stopFlow _ => .isTrue trivial
  | .pollSendingMessages _ throttled _ _ => inferInstanceAs (Decidable (throttled = false →
      ∀ x ∈ s.conn.sendingMsgs.begin?, p.getBytes x.2 < 2 ^ 16))
  | .pollRetransmitRequest _ throttled _ _ => inferInstanceAs (Decidable (throttled = false →
      ∀ x ∈ s.conn.retransmitReqs.begin?, ∀ msg ∈ s.conn.retransmittingMsgs.lookup x.2.1.msgId,
        p.segmentLen msg.size (resendOffset p x.2.2.seqNum) % 2 ^ 16 = kGradPacketHeader))

end MeteredConn

/-! ## Lengths -/

namespace Packetizer

variable {p : Packetizer} {dest : ℤ} {msg : LtMessageExt} {prio : PktPrioFunc}

theorem partitionOne_len :
    (p.partitionOne dest msg prio).1.len.toNat = p.getBytes msg % 2 ^ 16 := rfl

theorem partitionOneBySeq_len {seqNum : ℕ} :
    (p.partitionOneBySeq dest msg prio (toInt32 seqNum)).len.toNat =
      p.segmentLen msg.size (MeteredConn.resendOffset p seqNum) % 2 ^ 16 := rfl

theorem size_withBytes (msg : LtMessageExt) (bytes : ℕ) : { msg with bytes }.size = msg.size := rfl

theorem partitionOne_size : (p.partitionOne dest msg prio).2.size = msg.size := by
  unfold partitionOne
  exact size_withBytes msg _

theorem partitionOne_bytes_le (hbytes : msg.bytes ≤ msg.size) (hsize : msg.size < 2 ^ 64)
    (hlen : p.getBytes msg < 2 ^ 16) : (p.partitionOne dest msg prio).2.bytes ≤ msg.size := by
  have hget : p.getBytes msg = min p.bound (msg.size - msg.bytes) + kGradPacketHeader := by
    rw [getBytes, segmentLen, sub64_of_le hbytes hsize]
    split_ifs <;> omega
  have hb : (p.partitionOne dest msg prio).2.bytes =
      sub64 (msg.bytes + p.getBytes msg % 2 ^ 16) kGradPacketHeader := rfl
  rw [hb, Nat.mod_eq_of_lt hlen, hget]
  unfold sub64 kGradPacketHeader
  omega

theorem getBytes_of_sent (hbytes : msg.bytes = msg.size) (hsize : msg.size < 2 ^ 64) :
    p.getBytes msg = kGradPacketHeader := by
  rw [getBytes, segmentLen, hbytes, sub64_of_le le_rfl hsize, Nat.sub_self]
  simp

end Packetizer

namespace Communicator

/-- `bytes_sent` stays within the message, and a message is retransmitted once it has been sent
to its end. -/
structure BytesOk (c : Communicator) : Prop where
  queued : ∀ e ∈ c.srQueue, e.bytes ≤ e.size ∧ e.size < 2 ^ 64
  sending : IntMap.Forall (fun _ e => e.bytes ≤ e.size ∧ e.size < 2 ^ 64) c.sendingMsgs
  retransmitting : IntMap.Forall (fun _ e => e.bytes = e.size ∧ e.size < 2 ^ 64)
    c.retransmittingMsgs

variable {c c' : Communicator}

theorem bytesOk_init : init.BytesOk := by
  refine ⟨fun e he => ?_, fun k e he => ?_, fun k e he => ?_⟩ <;> simp [init] at he

theorem BytesOk.routePacket (h : c.BytesOk) (pkt : GradPacket) (use : ℕ) (isFinished : Bool) :
    (c.routePacket pkt use isFinished).BytesOk := by
  unfold Communicator.routePacket
  split_ifs
  · exact ⟨h.queued, h.sending, h.retransmitting⟩
  · exact ⟨h.queued, h.sending, h.retransmitting⟩

theorem BytesOk.putSending (h : c.BytesOk) (key : UInt32) {msg : LtMessageExt}
    (hbytes : msg.bytes ≤ msg.size) (hsize : msg.size < 2 ^ 64) :
    (c.putSending key msg).BytesOk := by
  unfold Communicator.putSending
  split_ifs with hdone
  · exact ⟨h.queued, h.sending.erase _, h.retransmitting.insertNode ⟨hbytes.antisymm hdone, hsize⟩⟩
  · exact ⟨h.queued, h.sending.insert ⟨hbytes, hsize⟩, h.retransmitting⟩

theorem BytesOk.popSendRequest (h : c.BytesOk) (hpop : c.popSendRequest = .ok c') :
    c'.BytesOk := by
  unfold Communicator.popSendRequest at hpop
  rcases hq : c.srQueue with _ | ⟨msg, srQueue⟩ <;> rw [hq] at hpop
  · cases hpop
    exact h
  · obtain ⟨-, hpop⟩ := require_bind_eq_ok.mp hpop
    cases hpop
    have hmem : ∀ e ∈ msg :: srQueue, e.bytes ≤ e.size ∧ e.size < 2 ^ 64 := hq ▸ h.queued
    exact ⟨fun e he => hmem e (List.mem_cons_of_mem _ he),
      h.sending.insert (hmem msg List.mem_cons_self), h.retransmitting⟩

theorem BytesOk.stopFlow (h : c.BytesOk) (flowId : ℕ) : (c.stopFlow flowId).BytesOk := by
  unfold Communicator.stopFlow eraseFlow
  dsimp only
  split_ifs
  · exact ⟨h.queued, h.sending, h.retransmitting.erase _⟩
  · exact ⟨h.queued, h.sending.erase _, h.retransmitting⟩

end Communicator

namespace MeteredConn

variable {p : Packetizer} {dest : ℤ} {s s' : MeteredConn} {prio : PktPrioFunc} {throttled : Bool}
  {now now' : ℤ}

/-! ## Runs -/

theorem Exact.pollSendingMessages_iff (hs : s.Exact) :
    (s.pollSendingMessages ⟨p, dest, prio, 0⟩ throttled now now').Exact ↔
      s.ChargesLen p (.pollSendingMessages prio throttled now now') := by
  unfold pollSendingMessages ChargesLen
  rcases s.conn.sendingMsgs.begin? with _ | ⟨key, msg⟩
  · simpa using hs
  cases throttled
  case true => simpa using hs
  have hlen := @Packetizer.partitionOne_len p dest msg prio
  dsimp only
  generalize p.partitionOne dest msg prio = r at hlen ⊢
  rw [if_neg (by simp), hs.sent_iff, Charge.Exact, hlen]
  simp only [Option.mem_some_iff, forall_eq', forall_const, and_self]
  omega

theorem BytesOk.pollSendingMessages (hs : s.conn.BytesOk)
    (hlen : s.ChargesLen p (.pollSendingMessages prio throttled now now')) :
    (s.pollSendingMessages ⟨p, dest, prio, 0⟩ throttled now now').conn.BytesOk := by
  unfold MeteredConn.pollSendingMessages
  unfold ChargesLen at hlen
  rcases hb : s.conn.sendingMsgs.begin? with _ | ⟨key, msg⟩
  · exact hs
  cases throttled
  case true => exact hs
  obtain ⟨hbytes, hsize⟩ := hs.sending key msg (IntMap.lookup_of_begin? hb)
  have hle := @Packetizer.partitionOne_bytes_le p dest msg prio hbytes hsize
    (hlen rfl _ (by rw [hb]; rfl))
  have hsz := @Packetizer.partitionOne_size p dest msg prio
  dsimp only
  generalize p.partitionOne dest msg prio = r at hle hsz ⊢
  rw [if_neg (by simp)]
  exact (hs.routePacket _ _ _).putSending _ (hle.trans_eq hsz.symm) (hsz ▸ hsize)

theorem pollRetransmitRequest_cases
    (h : s.pollRetransmitRequest ⟨p, dest, prio, 0⟩ throttled now now' = .ok s') :
    s' = s ∧ s.ChargesLen p (.pollRetransmitRequest prio throttled now now') ∨
    throttled = false ∧ ∃ key hdr state msg isFinished state',
      s.conn.retransmitReqs.begin? = some (key, hdr, state) ∧
      s.conn.retransmittingMsgs.lookup hdr.msgId = some msg ∧
      s' = s.sent now now' ⟨p.partitionOneBySeq hdr.commId msg prio (toInt32 state.seqNum),
          p.getBytes msg, p.getBytes msg⟩
        ((s.conn.routePacket (p.partitionOneBySeq hdr.commId msg prio (toInt32 state.seqNum))
          msg.use isFinished).putRequest key msg.msgId hdr state') := by
  unfold pollRetransmitRequest at h
  rcases hb : s.conn.retransmitReqs.begin? with _ | ⟨key, hdr, state⟩
  · rw [hb] at h
    cases h
    exact .inl ⟨rfl, by simp [ChargesLen, hb]⟩
  rw [hb] at h
  obtain ⟨-, h⟩ := require_bind_eq_ok.mp h
  rcases hmsg : s.conn.retransmittingMsgs.lookup hdr.msgId with _ | msg
  · rw [hmsg] at h
    cases h
  rw [hmsg] at h
  cases throttled
  case true =>
    cases h
    exact .inl ⟨rfl, by simp [ChargesLen]⟩
  obtain ⟨-, h⟩ := require_bind_eq_ok.mp h
  obtain ⟨block, -, h⟩ := bind_eq_ok.mp h
  obtain ⟨-, h⟩ := require_bind_eq_ok.mp h
  obtain ⟨state', -, h⟩ := bind_eq_ok.mp h
  cases h
  exact .inr ⟨rfl, key, hdr, state, msg, _, state', rfl, hmsg, rfl⟩

theorem Exact.pollRetransmitRequest_iff (hs : s.Exact) (hok : s.conn.BytesOk)
    (h : s.pollRetransmitRequest ⟨p, dest, prio, 0⟩ throttled now now' = .ok s') :
    s'.Exact ↔ s.ChargesLen p (.pollRetransmitRequest prio throttled now now') := by
  rcases pollRetransmitRequest_cases h with
    ⟨rfl, hlen⟩ | ⟨rfl, key, hdr, state, msg, fin, state', hb, hmsg, rfl⟩
  · exact iff_of_true hs hlen
  · obtain ⟨hbytes, hsize⟩ := hok.retransmitting _ msg hmsg
    rw [hs.sent_iff, Charge.Exact, Packetizer.partitionOneBySeq_len,
      Packetizer.getBytes_of_sent hbytes hsize, and_self, ChargesLen, hb]
    simp only [Option.mem_some_iff, forall_eq', forall_const, hmsg]
    exact eq_comm

theorem BytesOk.pollRetransmitRequest (hs : s.conn.BytesOk)
    (h : s.pollRetransmitRequest ⟨p, dest, prio, 0⟩ throttled now now' = .ok s') :
    s'.conn.BytesOk := by
  rcases pollRetransmitRequest_cases h with
    ⟨rfl, -⟩ | ⟨-, key, hdr, state, msg, fin, state', hb, hmsg, rfl⟩
  · exact hs
  · have hr := hs.routePacket
      (p.partitionOneBySeq hdr.commId msg prio (toInt32 state.seqNum)) msg.use fin
    exact ⟨hr.queued, hr.sending, hr.retransmitting⟩

def machine (p : Packetizer) (dest intervalUs now : ℤ) : Machine MeteredConn Action Fault where
  init := init intervalUs now
  step := step p dest

theorem BytesOk.step {a : Action} (hs : s.conn.BytesOk) (hlen : s.ChargesLen p a)
    (h : s.step p dest a = .ok s') : s'.conn.BytesOk := by
  cases a with
  | post msg hsize =>
    cases h
    refine ⟨fun e he => ?_, hs.sending, hs.retransmitting⟩
    rcases List.mem_append.mp he with he | he
    · exact hs.queued e he
    · rw [List.mem_singleton.mp he]
      exact ⟨Nat.zero_le _, hsize⟩
  | popSendRequest =>
    obtain ⟨c, hpop, h⟩ := bind_eq_ok.mp h
    cases h
    exact hs.popSendRequest hpop
  | requestRetransmit hdr =>
    obtain ⟨c, hreq, h⟩ := bind_eq_ok.mp h
    cases h
    obtain ⟨-, hreq⟩ := require_bind_eq_ok.mp hreq
    obtain ⟨block, -, hreq⟩ := bind_eq_ok.mp hreq
    cases hreq
    exact ⟨hs.queued, hs.sending, hs.retransmitting⟩
  | stopFlow flowId =>
    cases h
    exact hs.stopFlow flowId
  | pollSendingMessages prio throttled now now' =>
    cases h
    exact BytesOk.pollSendingMessages hs hlen
  | pollRetransmitRequest prio throttled now now' => exact BytesOk.pollRetransmitRequest hs h

theorem Exact.step_iff {a : Action} (hs : s.Exact) (hok : s.conn.BytesOk)
    (h : s.step p dest a = .ok s') : s'.Exact ↔ s.ChargesLen p a := by
  cases a with
  | post msg hsize =>
    cases h
    exact iff_of_true ⟨hs.charges, hs.bytes_eq⟩ trivial
  | popSendRequest =>
    obtain ⟨c, -, h⟩ := bind_eq_ok.mp h
    cases h
    exact iff_of_true ⟨hs.charges, hs.bytes_eq⟩ trivial
  | requestRetransmit hdr =>
    obtain ⟨c, -, h⟩ := bind_eq_ok.mp h
    cases h
    exact iff_of_true ⟨hs.charges, hs.bytes_eq⟩ trivial
  | stopFlow flowId =>
    cases h
    exact iff_of_true ⟨hs.charges, hs.bytes_eq⟩ trivial
  | pollSendingMessages prio throttled now now' =>
    cases h
    exact hs.pollSendingMessages_iff
  | pollRetransmitRequest prio throttled now now' => exact hs.pollRetransmitRequest_iff hok h

/-- As long as only packets without payload are resent, the meter is charged what is sent; the
next step keeps it so if and only if it is of that kind too. -/
theorem meter_exact_iff (p : Packetizer) (dest intervalUs now : ℤ) {s : MeteredConn}
    (h : (machine p dest intervalUs now).Reachable (ChargesLen p) s) :
    s.Exact ∧ ∀ a s', s.step p dest a = .ok s' → (s'.Exact ↔ s.ChargesLen p a) := by
  have hinv : s.Exact ∧ s.conn.BytesOk := by
    have hinit : (init intervalUs now).Exact := ⟨fun x hx => absurd hx List.not_mem_nil, rfl⟩
    refine h.invariant (P := fun s => s.Exact ∧ s.conn.BytesOk)
      ⟨hinit, Communicator.bytesOk_init⟩ ?_
    rintro s a s' ⟨hs, hok⟩ hlen hstep
    exact ⟨(hs.step_iff hok hstep).mpr hlen, BytesOk.step hok hlen hstep⟩
  exact ⟨hinv.1, fun a s' hstep => hinv.1.step_iff hinv.2 hstep⟩

def sendHundred : List Action :=
  [.post ⟨1, 0, 100, 0⟩ (by decide), .popSendRequest, .pollSendingMessages (fun _ => 0) false 5 5,
    .pollSendingMessages (fun _ => 0) true 6 6, .pollSendingMessages (fun _ => 0) false 7000 7001,
    .pollSendingMessages (fun _ => 0) false 7002 7002]

theorem meter_exact_iff_hundred :
    ∃ s, (machine ⟨60, 1⟩ 2 5 0).Reachable (ChargesLen ⟨60, 1⟩) s ∧
      s.charges.map (·.charged) = [60, 60, 40] ∧ s.txMeter.bytes = 100 ∧ s.Exact := by
  obtain ⟨s, hreach, hcharged, hbytes⟩ := Machine.exists_reachable_of_run (machine ⟨60, 1⟩ 2 5 0)
    (ChargesLen ⟨60, 1⟩) sendHundred
    (fun s => s.charges.map (·.charged) = [60, 60, 40] ∧ s.txMeter.bytes = 100)
    (by decide +kernel)
  exact ⟨s, hreach, hcharged, hbytes, (meter_exact_iff ⟨60, 1⟩ 2 5 0 hreach).1⟩

/-- The first packet is asked for again: it is charged as a header. -/
theorem resent_packet_undercharged :
    ∃ s, (machine ⟨60, 1⟩ 2 5 0).Reachable (fun _ _ => True) s ∧
      s.charges.map (fun x => (x.tried, x.charged, x.pkt.len)) =
        [(60, 60, 60), (60, 60, 60), (40, 40, 40), (20, 20, 60)] ∧
      s.txMeter.bytes = 120 ∧ (s.sinceClear.map (·.len.toNat)).sum = 160 :=
  Machine.exists_reachable_of_run (machine ⟨60, 1⟩ 2 5 0) (fun _ _ => True)
    (sendHundred ++ [.requestRetransmit ⟨1, 2, 1, [0, 0, 0, 0, 1, 0, 0, 0]⟩,
      .pollRetransmitRequest (fun _ => 0) false 7003 7003]) _ (by decide +kernel)

end MeteredConn

end Mlt
