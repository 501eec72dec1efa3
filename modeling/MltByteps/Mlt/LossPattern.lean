import MltByteps.Mlt.Drain
import Mathlib.Algebra.Order.BigOperators.Group.Finset

/-! Losses in the first pass of a message. Any of its packets may be lost, so every set of them that
leaves the receiver short of its bound is asked for in some run. -/

namespace Mlt
open Communicator RetransmitRequest

theorem IntMap.begin?_singleton {V : Type} (k : UInt32) (v : V) :
    IntMap.begin? ((∅ : IntMap V).insert k v) = some (k, v) := by
  have hkeys : ((∅ : IntMap V).insert k v).keys = [k] := by simp
  have hlook : ((∅ : IntMap V).insert k v).lookup k = some v := AList.lookup_insert _
  simp only [begin?, hkeys, List.argmin_singleton, Option.bind_eq_bind, Option.bind_some, hlook]
  rfl

/-! ## Arrival of a new packet -/

theorem Communicator.handleReceive_more {h : Host} {c : Communicator} {pkt : GradPacket}
    {e : LtMessageExt} {taken : Finset ℕ} {bytes : List UInt8}
    (hseg : kGradPacketHeader ≤ h.packetizer.maxSegment)
    (hhead : bytes.take kGradPacketHeader = pkt.header)
    (hdst : pkt.dstCommId = UInt16.ofInt h.packetizer.commId)
    (hsrc : (pkt.srcCommId.toNat : ℤ) = h.destCommId)
    (hlook : c.recvMsgs.lookup pkt.msgId = some e) (hholds : e.blockMgr.Holds taken)
    (hseq : pkt.seq.toNat + 1 < 2 ^ 32) (hnew : pkt.seq.toNat ∉ taken)
    (hfit : u32 (pkt.offset.toNat + LtMessageExt.gradBytes pkt) ≤ e.size)
    (hmore : e.bytes + LtMessageExt.gradBytes pkt < e.bound) (pktUse : ℕ) :
    ∃ mgr mem log, mgr.Rep (insert pkt.seq.toNat taken) ∧
      mgr.size = max e.blockMgr.size (pkt.seq.toNat + 1) ∧
      c.handleReceive h bytes pktUse none = .ok (putRecv pkt.msgId
        { e with blockMgr := mgr, bytes := e.bytes + LtMessageExt.gradBytes pkt }
        { c with mem, log }) := by
  have hhead' : (bytes.take h.packetizer.maxSegment).take kGradPacketHeader = pkt.header := by
    rw [List.take_take, Nat.min_eq_left hseg, hhead]
  generalize hptr : UInt64.ofNat (h.buf + kGradPacketHeader) = gradPtr
  obtain ⟨mgr, hrep, hsize, hcopy⟩ := @LtMessageExt.copyGradients_fresh _ { pkt with gradPtr } _
    hholds (receiveInto h (bytes.take h.packetizer.maxSegment) c.mem) hseq hnew hfit
  have hgrad : LtMessageExt.gradBytes { pkt with gradPtr } = LtMessageExt.gradBytes pkt := rfl
  rw [hgrad] at hcopy
  have hunfinished : ({ e with
      blockMgr := mgr
      bytes := e.bytes + LtMessageExt.gradBytes pkt } : LtMessageExt).finishReceiving = false :=
    decide_eq_false hmore.not_ge
  refine ⟨mgr, (receiveInto h (bytes.take h.packetizer.maxSegment) c.mem).copy
      (e.buf + pkt.offset.toNat) gradPtr.toNat (LtMessageExt.gradBytes pkt),
    if 0 < LtMessageExt.gradBytes pkt then c.log ++ [.accept pkt.msgId e.use pktUse pkt.seq.toNat
      (LtMessageExt.gradBytes pkt)] else c.log, hrep, hsize, ?_⟩
  unfold handleReceive
  dsimp only
  rw [ofMemory_receiveInto hhead', require_bind _ hdst, if_neg (not_not.mpr hsrc), hptr]
  simp only [reportRate, deliver, hlook, acceptPacket, hcopy, ok_bind, pure_bind, hunfinished,
    Bool.false_eq_true, false_and, and_false, if_false]
  rfl

/-! ## The first pass -/

section

variable {cfg : Config} {s : State} {p : Bool} {c : Communicator}

theorem step_pollReceivingNotification
    (hc : (s.comm p).pollReceivingNotification (cfg.host p) = .ok c) :
    step cfg s (.pollReceivingNotification p) = .ok (s.setComm p c) := by
  simp only [step, hc]
  rfl

theorem step_handleReceive (cfg : Config) (i : ℕ) (rate : Option UInt32) {d : Datagram}
    (hd : (s.net !p)[i]? = some d)
    (hc : (s.comm p).handleReceive (cfg.host p) d.bytes d.use rate = .ok c) :
    step cfg s (.handleReceive p i rate) = .ok (s.setComm p c) := by
  simp only [step, hd, hc]
  rfl

theorem reachable_carry {signal : Signal}
    (hr : (machine cfg).Reachable Once s) (halive : ∀ p, (s.comm p).isDead = false)
    (hwire : s.wire p = [])
    (htx : (s.comm p).txQueue = [((cfg.host p).destCommId, signal)])
    (hc : (s.comm !p).handleReceivedData (cfg.host !p) signal = .ok c) :
    (machine cfg).Reachable Once
      ((s.setComm p { s.comm p with txQueue := [] }).setComm (!p) c) := by
  have hroute : step cfg s (.routeSignal p) =
      .ok ((s.setComm p { s.comm p with txQueue := [] }).setWire p [signal]) := by
    simp [step, routeSignal, halive, hwire, htx]
  have hback : Function.update s.wire p [] = s.wire := by rw [← hwire, Function.update_eq_self]
  have hhandle : step cfg ((s.setComm p { s.comm p with txQueue := [] }).setWire p [signal])
      (.handleReceivedData !p) =
      .ok ((s.setComm p { s.comm p with txQueue := [] }).setComm (!p) c) := by
    simp [step, State.setComm, State.setWire, halive, hc, hback]
  exact .step (.step hr (a := .routeSignal p) trivial hroute) (a := .handleReceivedData !p)
    trivial hhandle

end

/-- The entry of a message in `sending_msgs` of which `bytes` have been sent. -/
def Config.partlySent (cfg : Config) (m : UInt32) (bytes : ℕ) : LtMessageExt :=
  { LtMessageExt.new (cfg.sendMsg false m 0) with bytes }

@[simp] theorem Config.partlySent_size (cfg : Config) (m : UInt32) (bytes : ℕ) :
    (cfg.partlySent m bytes).size = cfg.size false m 0 := rfl

@[simp] theorem Config.partlySent_bytes (cfg : Config) (m : UInt32) (bytes : ℕ) :
    (cfg.partlySent m bytes).bytes = bytes := rfl

/-- The sender has routed the packets of the message `m` below `q`, and `packets` have not left it
yet. -/
structure SenderPass (cfg : Config) (m : UInt32) (q : ℕ) (packets : List (GradPacket × ℕ))
    (c : Communicator) : Prop where
  alive : c.isDead = false
  txPackets : c.txPackets = packets
  priorityQueue : c.priorityQueue = []
  progress : q ≤ cfg.maxSeq false m 0 ∧ c.txQueue = [] ∧
      c.sendingMsgs = (∅ : IntMap LtMessageExt).insert m
        (cfg.partlySent m (q * (cfg.packetizer false).bound)) ∨
    q = cfg.maxSeq false m 0 + 1 ∧ c.txQueue = [((cfg.host false).destCommId, .flowFinish m)]

/-- The receiver has taken the packets `taken` of the message `m`. -/
structure ReceiverPass (cfg : Config) (m : UInt32) (taken : Finset ℕ) (c : Communicator) :
    Prop where
  alive : c.isDead = false
  maxSeq : c.msgMaxSeq.lookup m = some (cfg.maxSeq false m 0)
  receivingQueue : c.receivingQueue = []
  txQueue : c.txQueue = []
  entry : ∃ e, c.recvMsgs.lookup m = some e ∧ Entry cfg false m 0 e taken false

/-- The first pass of the message `m` from side `false` to side `true`. -/
structure FirstPass (cfg : Config) (m : UInt32) (q : ℕ) (taken : Finset ℕ)
    (packets : List (GradPacket × ℕ)) (s : State) : Prop where
  reachable : (machine cfg).Reachable Once s
  wire : ∀ p, s.wire p = []
  net : s.net false = []
  sender : SenderPass cfg m q packets (s.comm false)
  receiver : ReceiverPass cfg m taken (s.comm true)

namespace FirstPass

variable {cfg : Config} {m : UInt32} {q : ℕ} {taken : Finset ℕ} {s : State}
  {packets : List (GradPacket × ℕ)} {c : Communicator}

theorem alive (h : FirstPass cfg m q taken packets s) (p : Bool) : (s.comm p).isDead = false := by
  cases p with
  | false => exact h.sender.alive
  | true => exact h.receiver.alive

theorem init (cfg : Config) (m : UInt32) : ∃ s, FirstPass cfg m 0 ∅ [] s := by
  have hr : (machine cfg).Reachable Once _ := .step (.step (.step (.step .init
    (a := .postSend false m) rfl rfl) (a := .postRecv true m) rfl rfl)
    (a := .popSendRequest false) trivial rfl) (a := .pollReceiveRequest true) trivial rfl
  have hr' := reachable_carry (p := false) hr (by intro p; cases p <;> rfl) rfl rfl rfl
  refine ⟨_, hr', fun _ => rfl, rfl, ⟨rfl, rfl, rfl, .inl ⟨Nat.zero_le _, rfl, ?_⟩⟩,
    rfl, AList.lookup_insert _, rfl, rfl, _, AList.lookup_insert _, ?_⟩
  · rw [Nat.zero_mul]
    rfl
  · exact ⟨rfl, rfl, rfl, .inr ⟨rfl, rfl⟩, Nat.zero_le _, rfl, by simp, by simp⟩

theorem sender_poll (h : SenderPass cfg m q [] c) (hq : q ≤ cfg.maxSeq false m 0) :
    ∃ pkt, pkt.msgId = m ∧ IsPacketTo (cfg.host false) (cfg.size false m 0) q pkt ∧
      SenderPass cfg m (q + 1) [(pkt, 0)] (c.pollSendingMessages (cfg.host false) false false) := by
  obtain ⟨-, htx, hmsgs⟩ | ⟨hend, -⟩ := h.progress
  case inr => omega
  have hv := cfg.packetizer_valid false
  have hmax := fun q => Packetizer.le_getMaxSeqNum_iff (q := q) hv (cfg.size_pos false m 0)
    (cfg.size_lt false m 0)
  have hun : Unsent (cfg.host false) m (cfg.partlySent m (q * (cfg.packetizer false).bound)) q :=
    ⟨rfl, cfg.size_lt false m 0, rfl, (hmax q).mp hq⟩
  obtain ⟨pkt, hid, hto, hpoll⟩ := pollSendingMessages_eq (c := c) hv hun
    (by rw [hmsgs, IntMap.begin?_singleton]) false
  refine ⟨pkt, hid, hto, ?_⟩
  rw [hpoll]
  generalize (cfg.host false).packetizer.getBytes _ = nbytes
  change SenderPass cfg m (q + 1) [(pkt, 0)]
    (((c.routePacket pkt 0 (decide (q = cfg.maxSeq false m 0))).meter false nbytes).putSending m
      (cfg.partlySent m (min ((q + 1) * (cfg.packetizer false).bound) (cfg.size false m 0))))
  have hnext := hmax (q + 1)
  rcases Nat.lt_or_eq_of_le hq with hlt | rfl
  · have hlt' := hnext.mp hlt
    rw [decide_eq_false hlt.ne, Nat.min_eq_left hlt'.le, putSending,
      Config.partlySent_size, Config.partlySent_bytes, if_neg hlt'.not_ge]
    refine ⟨h.alive, ?_, h.priorityQueue, .inl ⟨hlt, htx, ?_⟩⟩
    · simp [routePacket, meter, h.txPackets]
    · simp [routePacket, meter, hmsgs]
  · have hge : ¬(cfg.maxSeq false m 0 + 1) * (cfg.packetizer false).bound < cfg.size false m 0 :=
      fun hlt => absurd (hnext.mpr hlt) (Nat.not_succ_le_self _)
    rw [decide_eq_true rfl, Nat.min_eq_right (Nat.le_of_not_lt hge), putSending,
      Config.partlySent_size, Config.partlySent_bytes, if_pos le_rfl]
    refine ⟨h.alive, ?_, h.priorityQueue, .inr ⟨rfl, ?_⟩⟩
    · simp [routePacket, meter, enqueue, h.txPackets]
    · simp [routePacket, meter, enqueue, htx, hid, hto.dst_eq, State.Good.dest_eq]

theorem send (h : FirstPass cfg m q taken [] s) (hq : q ≤ cfg.maxSeq false m 0) :
    ∃ pkt s', pkt.msgId = m ∧ IsPacketTo (cfg.host false) (cfg.size false m 0) q pkt ∧
      FirstPass cfg m (q + 1) taken [(pkt, 0)] s' := by
  obtain ⟨pkt, hid, hto, hc⟩ := sender_poll h.sender hq
  exact ⟨pkt, _, hid, hto, .step h.reachable (a := .pollSendingMessages false false false) trivial
    rfl, h.wire, h.net, hc, h.receiver⟩

theorem ready {pkt : GradPacket} {u : ℕ} (h : FirstPass cfg m q taken [(pkt, u)] s)
    (accepted : Bool) :
    ∃ payload, (machine cfg).Reachable Once
      ((s.setComm false { s.comm false with txPackets := [] }).setNet false
        (if accepted then [⟨pkt, payload, u⟩] else [])) := by
  let payload := (s.comm false).mem.read pkt.gradPtr.toNat
    (sub64 pkt.len.toNat kGradPacketHeader)
  have hstep : step cfg s (.onSendReady false pkt.tos accepted) =
      .ok ((s.setComm false { s.comm false with txPackets := [] }).setNet false
        (if accepted then [⟨pkt, payload, u⟩] else [])) := by
    cases accepted <;> simp [step, onSendReady, h.sender.txPackets, h.net, payload]
  exact ⟨payload, .step h.reachable (a := .onSendReady false pkt.tos accepted) trivial hstep⟩

theorem sender_empty {pkt : GradPacket} {u : ℕ} (h : SenderPass cfg m q [(pkt, u)] c) :
    SenderPass cfg m q [] { c with txPackets := [] } :=
  ⟨h.alive, rfl, h.priorityQueue, h.progress⟩

theorem drop {pkt : GradPacket} {u : ℕ} (h : FirstPass cfg m q taken [(pkt, u)] s) :
    ∃ s', FirstPass cfg m q taken [] s' := by
  obtain ⟨payload, hr⟩ := h.ready false
  exact ⟨_, hr, h.wire, rfl, sender_empty h.sender, h.receiver⟩

theorem receiver_take (h : ReceiverPass cfg m taken c) {x : ℕ} (hx : x ≤ cfg.maxSeq false m 0)
    (hnew : x ∉ taken) (hmore : cfg.total false m 0 (insert x taken) < cfg.bound false m 0)
    {pkt : GradPacket} (hid : pkt.msgId = m)
    (hto : IsPacketTo (cfg.host false) (cfg.size false m 0) x pkt) (payload : List UInt8) (u : ℕ) :
    ∃ c', c.handleReceive (cfg.host true) (pkt.header ++ payload) u none = .ok c' ∧
      ReceiverPass cfg m (insert x taken) c' := by
  subst hid
  obtain ⟨e, hlook, hentry⟩ := h.entry
  have hpkt := hto.isPacket
  have hmax := Flow.Inv.maxSeq_lt cfg false pkt.msgId 0
  have hlt := (Packetizer.le_getMaxSeqNum_iff (cfg.packetizer_valid false)
    (cfg.size_pos false pkt.msgId 0) (cfg.size_lt false pkt.msgId 0)).mp hx
  have hem := State.Good.emitted hx hto
  have hsize : e.size = cfg.size false pkt.msgId 0 :=
    congrArg LtMessage.size hentry.toLtMessage_eq
  have hgrad := hpkt.gradBytes_eq
  have htotal : cfg.total false pkt.msgId 0 (insert x taken) = _ := Flow.Inv.total_insert hnew
  obtain ⟨mgr, mem, log, hrep, hmgr, hrun⟩ := handleReceive_more (h := cfg.host true) (c := c)
    (show kGradPacketHeader ≤ cfg.maxSegment from le_trans (by decide) cfg.segment_lo)
    (show (pkt.header ++ payload).take _ = _ from List.take_left' (GradPacket.length_header pkt))
    (by rw [hem.dst_eq]; exact (State.Good.toNat_ofInt _).symm) (by rw [hem.src_eq]; rfl) hlook
    hentry.holds (by rw [hpkt.seq_eq]; omega) (hpkt.seq_eq ▸ hnew)
    (hsize ▸ hpkt.end_le (cfg.size_lt false pkt.msgId 0) hlt)
    (by rw [hentry.bound_eq, hentry.bytes_eq, hgrad]; exact htotal ▸ hmore) u
  refine ⟨_, hrun, h.alive, h.maxSeq, h.receivingQueue, h.txQueue, _, AList.lookup_insert _, ?_⟩
  have hlen : mgr.size ≤ cfg.maxSeq false pkt.msgId 0 + 1 := by
    have hold := hentry.size_le
    rw [hmgr, hpkt.seq_eq]
    omega
  have hins := Flow.Inv.entry_insert hentry hnew hx (hpkt.seq_eq ▸ hrep) hlen
    (show false = true ↔ _ from ⟨fun h => absurd h (by simp), fun h => absurd h hmore.not_ge⟩)
  rw [hgrad, hentry.stopped_eq]
  exact hins

theorem deliver {pkt : GradPacket} {u x : ℕ} (h : FirstPass cfg m q taken [(pkt, u)] s)
    (hx : x ≤ cfg.maxSeq false m 0) (hnew : x ∉ taken)
    (hmore : cfg.total false m 0 (insert x taken) < cfg.bound false m 0) (hid : pkt.msgId = m)
    (hto : IsPacketTo (cfg.host false) (cfg.size false m 0) x pkt) :
    ∃ s', FirstPass cfg m q (insert x taken) [] s' := by
  obtain ⟨payload, hr⟩ := h.ready true
  obtain ⟨c, hc, hpass⟩ := receiver_take h.receiver hx hnew hmore hid hto payload u
  have hstep := step_handleReceive cfg 0 none (p := true) (c := c)
    (s := (s.setComm false { s.comm false with txPackets := [] }).setNet false
      [⟨pkt, payload, u⟩]) rfl hc
  exact ⟨_, .step (.step hr (a := .handleReceive true 0 none) trivial hstep) (a := .lose false 0)
    trivial rfl, h.wire, rfl, sender_empty h.sender, hpass⟩

theorem of_losses (hmore : cfg.total false m 0 taken < cfg.bound false m 0) (q : ℕ)
    (hq : q ≤ cfg.maxSeq false m 0 + 1) :
    ∃ s, FirstPass cfg m q (taken.filter (· < q)) [] s := by
  induction q with
  | zero => simpa using init cfg m
  | succ q ih =>
    obtain ⟨s, hs⟩ := ih (by omega)
    obtain ⟨pkt, s₁, hid, hto, hs₁⟩ := hs.send (by omega)
    by_cases hmem : q ∈ taken
    · have hins : taken.filter (· < q + 1) = insert q (taken.filter (· < q)) := by
        ext x
        simp only [Finset.mem_filter, Finset.mem_insert]
        constructor
        · rintro ⟨hx, hlt⟩
          by_cases hxq : x = q
          · exact .inl hxq
          · exact .inr ⟨hx, by omega⟩
        · rintro (rfl | ⟨hx, hlt⟩)
          · exact ⟨hmem, Nat.lt_succ_self x⟩
          · exact ⟨hx, by omega⟩
      rw [hins]
      refine hs₁.deliver (by omega) (by simp) ?_ hid hto
      rw [← hins]
      exact (Finset.sum_le_sum_of_subset (Finset.filter_subset _ _)).trans_lt hmore
    · have hsame : taken.filter (· < q + 1) = taken.filter (· < q) := by
        refine Finset.filter_congr fun x hx => ?_
        have hne : x ≠ q := fun h => hmem (h ▸ hx)
        omega
      rw [hsame]
      exact hs₁.drop

end FirstPass

/-! ## The request after the first pass -/

/-- Only the request `req` is under way, from side `true`. -/
structure Asking (cfg : Config) (req : RetransmitRequest) (s : State) : Prop where
  reachable : (machine cfg).Reachable Once s
  alive : ∀ p, (s.comm p).isDead = false
  wire : ∀ p, s.wire p = []
  priorityQueue : (s.comm false).priorityQueue = []
  txQueue : (s.comm true).txQueue = [((cfg.host true).destCommId, .retransmitRequest req)]

section

variable {cfg : Config} {m : UInt32} {taken : Finset ℕ}

theorem total_lt_size (htaken : ∀ q ∈ taken, q ≤ cfg.maxSeq false m 0) {x : ℕ}
    (hx : x ≤ cfg.maxSeq false m 0) (hnew : x ∉ taken) :
    cfg.total false m 0 taken < cfg.size false m 0 := by
  have hlt := (Packetizer.le_getMaxSeqNum_iff (cfg.packetizer_valid false)
    (cfg.size_pos false m 0) (cfg.size_lt false m 0)).mp hx
  calc cfg.total false m 0 taken
      < cfg.total false m 0 (insert x taken) := by
        rw [Flow.Inv.total_insert hnew]
        exact Nat.lt_add_of_pos_right
          (Packetizer.payloadLen_pos (cfg.packetizer_valid false) hlt)
    _ ≤ cfg.total false m 0 (Finset.range (cfg.maxSeq false m 0 + 1)) := by
        refine Finset.sum_le_sum_of_subset fun q hq => Finset.mem_range_succ_iff.mpr ?_
        rcases Finset.mem_insert.mp hq with rfl | hq
        · exact hx
        · exact htaken q hq
    _ = cfg.size false m 0 := Config.total_of_all (by simp) (by simp)

theorem exists_asking (htaken : ∀ q ∈ taken, q ≤ cfg.maxSeq false m 0)
    (hmore : cfg.total false m 0 taken < cfg.bound false m 0)
    (hmissing : missing (cfg.maxSeq false m 0) taken ≠ []) :
    ∃ (s : State) (mgr : TreeBlockMgr), mgr.Rep taken ∧ mgr.size = cfg.maxSeq false m 0 + 1 ∧
      Asking cfg ⟨m, (cfg.host true).packetizer.commId, u32 (mgr.byteSize / sizeofBlock),
        mgr.tree.flatMap Block.bytes⟩ s := by
  obtain ⟨s, hs⟩ := FirstPass.of_losses hmore (cfg.maxSeq false m 0 + 1) le_rfl
  have hall : taken.filter (· < cfg.maxSeq false m 0 + 1) = taken :=
    Finset.filter_true_of_mem fun q hq => Nat.lt_succ_of_le (htaken q hq)
  rw [hall] at hs
  obtain ⟨hle, -⟩ | ⟨-, htx⟩ := hs.sender.progress
  case inl => omega
  have hmax := Flow.Inv.maxSeq_lt cfg false m 0
  obtain ⟨e, hlook, hentry⟩ := hs.receiver.entry
  -- the `FlowFinish` reaches the receiving thread
  have hfinish : (s.comm true).handleReceivedData (cfg.host true) (.flowFinish m) =
      .ok { s.comm true with receivingQueue := [.finishFlow m (cfg.maxSeq false m 0)] } := by
    simp [handleReceivedData, hs.receiver.maxSeq, hs.receiver.receivingQueue]
  have hr := reachable_carry (p := false) hs.reachable hs.alive (hs.wire false) htx hfinish
  -- the receiving thread asks
  obtain ⟨mgr, hrep, hsize, hask⟩ := finishFlow_found (h := cfg.host true)
    (c := { s.comm true with receivingQueue := [] }) hlook
    (by rw [hentry.bytes_eq, hentry.bound_eq]; exact hmore) hentry.holds hentry.size_le (by omega)
    hmissing
  refine ⟨_, mgr, hrep, hsize, .step hr (a := .pollReceivingNotification true) trivial
    (step_pollReceivingNotification hask), fun p => ?_, hs.wire, hs.sender.priorityQueue, ?_⟩
  · cases p with
    | false => exact hs.sender.alive
    | true => exact hs.receiver.alive
  · change (s.comm true).txQueue ++ _ = _
    rw [hs.receiver.txQueue]
    rfl

theorem Asking.arrives_bare {req : RetransmitRequest} {s : State} (h : Asking cfg req s)
    (hfits : req.Fits) (hlen : req.payload.length = 2 ^ 32) :
    ∃ s', (machine cfg).Reachable Once s' ∧
      (s'.comm false).priorityQueue = [.requestRetransmit { req with payload := [] }] := by
  have hdec := hfits.decode_header_append []
  rw [List.append_nil] at hdec
  have hdata : (s.comm false).handleReceivedData (cfg.host false) (.retransmitRequest req) =
      .ok { s.comm false with
        priorityQueue := [.requestRetransmit { req with payload := [] }] } := by
    simp only [handleReceivedData, receiveFrame_bare hlen, hdec, ok_bind, h.priorityQueue,
      List.nil_append]
    rfl
  exact ⟨_, reachable_carry (p := true) h.reachable h.alive (h.wire true) h.txQueue hdata, rfl⟩

/-- A request for `2^29` runs arrives as a header that announces them without any block, and the
sending thread reads the first block behind the end of the buffer. -/
theorem bare_request_faults (htaken : ∀ q ∈ taken, q ≤ cfg.maxSeq false m 0)
    (hmore : cfg.total false m 0 taken < cfg.bound false m 0)
    (hruns : missingRuns (cfg.maxSeq false m 0) taken = 2 ^ 29) :
    ∃ s hdr, (machine cfg).Reachable Once s ∧
      (s.comm false).priorityQueue = [.requestRetransmit hdr] ∧ hdr.numBlocks = 2 ^ 29 ∧
      hdr.payload = [] ∧ step cfg s (.pollPriorityNotification false) = .error .outOfBounds := by
  have hmissing : missing (cfg.maxSeq false m 0) taken ≠ [] := by
    intro hnil
    rw [missingRuns, hnil] at hruns
    simp at hruns
  obtain ⟨s, mgr, hrep, hsize, hs⟩ := exists_asking htaken hmore hmissing
  have hlen : mgr.tree.length = 2 ^ 29 := (length_tree_eq_missingRuns hrep hsize).trans hruns
  have hnum : u32 (mgr.byteSize / sizeofBlock) = 2 ^ 29 := by
    unfold TreeBlockMgr.byteSize
    rw [hlen]
    decide
  rw [hnum] at hs
  have hlt := (cfg.commId true).toNat_lt
  have hcomm : (cfg.host true).packetizer.commId = ((cfg.commId true).toNat : ℤ) := rfl
  obtain ⟨s', hr, hqueue⟩ := hs.arrives_bare
    ⟨by dsimp only; omega, by dsimp only; omega, by dsimp only; omega⟩ (by
      rw [TreeBlockMgr.length_flatMap_bytes, hlen]
      rfl)
  refine ⟨s', _, hr, hqueue, rfl, rfl, ?_⟩
  simp only [step, pollPriorityNotification, hqueue]
  rfl

end

/-- A message of `2^30 - 1` packets of four bytes each. -/
def manyPacketsConfig : Config :=
  { onePacketConfig with
    size := fun _ _ _ => 2 ^ 32 - 4
    target := fun _ _ _ => 2 ^ 32 - 4
    size_pos := by intros; decide
    size_lt := by intros; decide }

/-- Every other packet of a message of `2^30 - 1` packets is lost. -/
theorem bare_request_faults_odds : ∃ s hdr, (machine manyPacketsConfig).Reachable Once s ∧
    (s.comm false).priorityQueue = [.requestRetransmit hdr] ∧ hdr.numBlocks = 2 ^ 29 ∧
    hdr.payload = [] ∧
    step manyPacketsConfig s (.pollPriorityNotification false) = .error .outOfBounds := by
  have hmax : manyPacketsConfig.maxSeq false 7 0 = 2 * 2 ^ 29 - 2 := by decide +kernel
  have htaken : ∀ q ∈ odds (2 ^ 29), q ≤ manyPacketsConfig.maxSeq false 7 0 := fun q hq => by
    have := mem_odds.mp hq
    omega
  have hbound : manyPacketsConfig.bound false 7 0 = manyPacketsConfig.size false 7 0 := by
    decide +kernel
  refine bare_request_faults htaken ?_ ?_
  · rw [hbound]
    exact total_lt_size htaken (Nat.zero_le _) fun h => by simpa using (mem_odds.mp h).2
  · rw [hmax]
    exact missingRuns_odds (by decide) (by decide)

end Mlt
