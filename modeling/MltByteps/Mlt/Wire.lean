import MltByteps.Mlt.Guarantees

/-! The gradients of a packet, from the memory of the sender to the receive buffer. -/

namespace Mlt
open Communicator LittleEndian

/-- The packets that `PartitionOne` and `PartitionOneBySeq` build of a message. -/
inductive Packetizer.Builds (p : Packetizer) (dest : ℤ) (prio : PktPrioFunc) (msg : LtMessage) :
    GradPacket → Prop
  | partitionOne (e : LtMessageExt) (q : ℕ) : e.toLtMessage = msg → e.bytes = q * p.bound →
      e.bytes < msg.size → Builds p dest prio msg (p.partitionOne dest e prio).1
  | partitionOneBySeq (e : LtMessageExt) (q : ℕ) : e.toLtMessage = msg →
      q ≤ p.getMaxSeqNum msg.size → Builds p dest prio msg (p.partitionOneBySeq dest e prio q)

namespace Packetizer.Builds

variable {p : Packetizer} {dest : ℤ} {prio : PktPrioFunc} {msg : LtMessage} {pkt : GradPacket}

theorem eq_packet (h : p.Builds dest prio msg pkt) (hv : p.Valid) (hpos : 0 < msg.size)
    (hlt : msg.size < 2 ^ 32) :
    ∃ q tos, q * p.bound < msg.size ∧ pkt = (p.packet dest msg q).withTos tos := by
  cases h with
  | partitionOne e q he hb hq =>
    subst he
    rw [hb] at hq
    exact ⟨q, _, hq, by rw [partitionOne_eq hv dest e prio hlt hq hb]⟩
  | partitionOneBySeq e q he hq =>
    subst he
    have hq' := (le_getMaxSeqNum_iff hv hpos hlt).mp hq
    exact ⟨q, _, hq', partitionOneBySeq_eq dest e prio hlt hq'⟩

theorem fields (h : p.Builds dest prio msg pkt) (hv : p.Valid) (hpos : 0 < msg.size)
    (hlt : msg.size < 2 ^ 32) :
    ∃ q, q * p.bound < msg.size ∧ p.IsPacket msg.size q pkt ∧
      pkt.gradPtr = UInt64.ofNat (msg.buf + q * p.bound) ∧
      pkt.dstCommId = UInt16.ofInt dest ∧ pkt.srcCommId = UInt16.ofInt p.commId := by
  obtain ⟨q, tos, hq, rfl⟩ := h.eq_packet hv hpos hlt
  obtain ⟨h1, h2, h3, h4⟩ := isPacket_packet hv dest hlt hq
  exact ⟨q, hq, ⟨h1, h2, h3, h4⟩, rfl, rfl, rfl⟩

end Packetizer.Builds

/-- A packet of `msg` that side `p` sends to a receive of the same size, which has not got
this packet yet. The receive buffer lies outside the buffer of the receiving loop, of which the
struct of a packet takes 28 bytes. -/
structure Transfer (cfg : Config) (p : Bool) (receiver : Communicator) (msg : LtMessage)
    (pkt : GradPacket) (e : LtMessageExt) : Prop where
  size_pos : 0 < msg.size
  size_lt : msg.size < 2 ^ 32
  sendBuf_le : msg.buf + msg.size ≤ 2 ^ 64
  builds : (cfg.packetizer p).Builds (cfg.host p).destCommId (cfg.prioFunc p) msg pkt
  posted : receiver.recvMsgs.lookup pkt.msgId = some e
  size_eq : e.size = msg.size
  fresh : ∃ taken, e.blockMgr.Holds taken ∧ pkt.seq.toNat ∉ taken
  loopBuf_le : cfg.loopBuf (!p) + 28 ≤ 2 ^ 64
  disjoint : e.buf + e.size ≤ cfg.loopBuf (!p) ∨
    cfg.loopBuf (!p) + max 28 cfg.maxSegment ≤ e.buf

section

variable {h : Host} {bytes : List UInt8} {mem : Memory}

theorem receiveInto_ptr {i : ℕ} (hi : i < 8) :
    receiveInto h bytes mem (h.buf + kGradPacketHeader + i) =
      (leBytes 8 (h.buf + kGradPacketHeader)).getD i 0 := by
  unfold receiveInto
  rw [Memory.write_add _ _ _ (by simpa using hi), List.getD_eq_getElem?_getD,
    List.getElem?_eq_getElem (by simpa using hi), Option.getD_some]

theorem receiveInto_payload {header payload : List UInt8}
    (hlen : header.length = kGradPacketHeader) {i : ℕ} (hi : 8 ≤ i) (hlt : i < payload.length) :
    receiveInto h (header ++ payload) mem (h.buf + kGradPacketHeader + i) = payload[i] := by
  unfold receiveInto
  rw [Memory.write_of_ge _ _ (by simpa using hi), Nat.add_assoc,
    Memory.write_add _ _ _ (by rw [List.length_append]; omega)]
  simp [List.getElem_append_right, hlen]

theorem receiveInto_outside {x : ℕ} (hlen : bytes.length ≤ h.packetizer.maxSegment)
    (hx : x < h.buf ∨ h.buf + max 28 h.packetizer.maxSegment ≤ x) :
    receiveInto h bytes mem x = mem x := by
  unfold receiveInto
  rcases hx with hx | hx
  · rw [Memory.write_of_lt _ _ (by omega), Memory.write_of_lt _ _ hx]
  · rw [Memory.write_of_ge _ _ (by simp [kGradPacketHeader]; omega),
      Memory.write_of_ge _ _ (by omega)]

/-- How many bytes an event says that `CopyGradients` has copied. -/
def Event.copied : Event → Option ℕ
  | .accept _ _ _ _ copied => some copied
  | _ => none

theorem deliver_of_copy {c : Communicator} {pkt : GradPacket} {e e' : LtMessageExt} {copied : ℕ}
    {mem' : Memory} (hposted : c.recvMsgs.lookup pkt.msgId = some e)
    (hcopy : e.copyGradients pkt c.mem = .ok (copied, e', mem')) (n use : ℕ) :
    ∃ c', c.deliver h pkt n use = .ok c' ∧ c'.mem = mem' ∧ ∃ events, c'.log = c.log ++ events ∧
      events.filterMap Event.copied = if 0 < copied then [copied] else [] := by
  simp only [deliver, hposted, acceptPacket, hcopy, ok_bind, pure_bind]
  by_cases hpos : 0 < copied
  · simp only [hpos, true_and, if_true]
    split_ifs
    · exact ⟨_, rfl, rfl, [_, _], (List.append_assoc ..), rfl⟩
    · exact ⟨_, rfl, rfl, [_], rfl, rfl⟩
  · simp only [hpos, false_and, if_false]
    exact ⟨_, rfl, rfl, [], (List.append_nil _).symm, rfl⟩

theorem deliver_mem (c : Communicator) (pkt : GradPacket) {e : LtMessageExt} {taken : Finset ℕ}
    (hposted : c.recvMsgs.lookup pkt.msgId = some e) (hholds : e.blockMgr.Holds taken)
    (hnew : pkt.seq.toNat ∉ taken) (hseq : pkt.seq.toNat + 1 < 2 ^ 32)
    (hfit : u32 (pkt.offset.toNat + LtMessageExt.gradBytes pkt) ≤ e.size) (size use : ℕ) :
    ∃ c', c.deliver h pkt size use = .ok c' ∧ c'.mem =
      c.mem.copy (e.buf + pkt.offset.toNat) pkt.gradPtr.toNat (LtMessageExt.gradBytes pkt) := by
  obtain ⟨mgr, -, -, hcopy⟩ := LtMessageExt.copyGradients_fresh hholds c.mem hseq hnew hfit
  obtain ⟨c', hc', hmem, -⟩ := deliver_of_copy (h := h) hposted hcopy size use
  exact ⟨c', hc', hmem⟩

theorem reportRate_mem (c : Communicator) (dest : ℤ) (rate : Option UInt32) :
    (c.reportRate dest rate).mem = c.mem := by
  cases rate <;> rfl

theorem reportRate_recvMsgs (c : Communicator) (dest : ℤ) (rate : Option UInt32) :
    (c.reportRate dest rate).recvMsgs = c.recvMsgs := by
  cases rate <;> rfl

end

namespace Transfer

variable {cfg : Config} {p : Bool} {sender receiver : Communicator} {msg : LtMessage}
  {pkt : GradPacket} {e : LtMessageExt}

theorem range (h : Transfer cfg p receiver msg pkt e) :
    pkt.offset.toNat + LtMessageExt.gradBytes pkt ≤ msg.size ∧
      LtMessageExt.gradBytes pkt + kGradPacketHeader ≤ cfg.maxSegment ∧
      pkt.len.toNat = LtMessageExt.gradBytes pkt + kGradPacketHeader ∧
      pkt.gradPtr.toNat = msg.buf + pkt.offset.toNat ∧ pkt.seq.toNat + 1 < 2 ^ 32 := by
  have hv := cfg.packetizer_valid p
  obtain ⟨q, hq, hpkt, hptr, -⟩ := h.builds.fields hv h.size_pos h.size_lt
  have hend := Packetizer.add_payloadLen hq
  have hmax := (Packetizer.le_getMaxSeqNum_iff hv h.size_pos h.size_lt).mpr hq
  have hmlt := Packetizer.getMaxSeqNum_lt hv h.size_pos h.size_lt
  have hseg : (cfg.packetizer p).bound + kGradPacketHeader = cfg.maxSegment :=
    Nat.sub_add_cancel (le_trans (by decide) cfg.segment_lo)
  have hnle := (cfg.packetizer p).payloadLen_le msg.size q
  have hsendBuf := h.sendBuf_le
  rw [hpkt.gradBytes_eq, hpkt.offset_eq, hpkt.len_eq, hpkt.seq_eq, hptr,
    UInt64.toNat_ofNat', Nat.mod_eq_of_lt (by omega)]
  exact ⟨by omega, by omega, rfl, rfl, by omega⟩

theorem onSendReady_eq (h : Transfer cfg p receiver msg pkt e) {use : ℕ}
    (htx : sender.txPackets.find? (·.1.tos = pkt.tos) = some (pkt, use)) :
    (sender.onSendReady pkt.tos true).2 = some ⟨pkt,
      sender.mem.read (msg.buf + pkt.offset.toNat) (LtMessageExt.gradBytes pkt), use⟩ := by
  obtain ⟨-, -, hlen, hptr, -⟩ := h.range
  have hlt := pkt.len.toNat_lt
  unfold onSendReady
  simp only [htx, if_true, hptr]
  rw [sub64_of_le (by omega) (by omega), hlen, Nat.add_sub_cancel]

theorem handleReceive_mem (h : Transfer cfg p receiver msg pkt e) {payload : List UInt8}
    (hp : payload.length = LtMessageExt.gradBytes pkt) (use : ℕ) (rate : Option UInt32) :
    ∃ c', receiver.handleReceive (cfg.host !p) (pkt.header ++ payload) use rate = .ok c' ∧
      c'.mem = (receiveInto (cfg.host !p) (pkt.header ++ payload) receiver.mem).copy
        (e.buf + pkt.offset.toNat) (cfg.loopBuf (!p) + kGradPacketHeader)
        (LtMessageExt.gradBytes pkt) := by
  obtain ⟨hle, hseg, -, -, hseq⟩ := h.range
  obtain ⟨taken, hholds, hnew⟩ := h.fresh
  obtain ⟨-, -, -, -, hdst, hsrc⟩ :=
    h.builds.fields (cfg.packetizer_valid p) h.size_pos h.size_lt
  have htake : (pkt.header ++ payload).take cfg.maxSegment = pkt.header ++ payload := by
    apply List.take_of_length_le
    rw [List.length_append, GradPacket.length_header]
    omega
  have hhead : (pkt.header ++ payload).take kGradPacketHeader = pkt.header :=
    List.take_left' (GradPacket.length_header _)
  have hptr : (UInt64.ofNat ((cfg.host !p).buf + kGradPacketHeader)).toNat =
      cfg.loopBuf (!p) + kGradPacketHeader := by
    have hloop := h.loopBuf_le
    rw [UInt64.toNat_ofNat']
    exact Nat.mod_eq_of_lt (by unfold kGradPacketHeader; simp only [Config.host]; omega)
  unfold handleReceive
  dsimp only
  rw [show (cfg.host !p).packetizer.maxSegment = cfg.maxSegment from rfl, htake,
    ofMemory_receiveInto hhead]
  generalize receiveInto (cfg.host !p) (pkt.header ++ payload) receiver.mem = mem
  have hsrc' : (pkt.srcCommId.toNat : ℤ) = (cfg.host !p).destCommId := by
    rw [hsrc]
    simp [Config.host, Config.packetizer, State.Good.toNat_ofInt]
  obtain ⟨c', hc', hmem⟩ := deliver_mem (h := cfg.host !p)
    (({ receiver with mem } : Communicator).reportRate pkt.srcCommId.toNat rate)
    { pkt with gradPtr := UInt64.ofNat ((cfg.host !p).buf + kGradPacketHeader) }
    (by rw [reportRate_recvMsgs]; exact h.posted) hholds hnew hseq
    (show u32 (pkt.offset.toNat + LtMessageExt.gradBytes pkt) ≤ e.size by
      have hlt := h.size_lt
      rw [h.size_eq, u32_of_lt (by omega)]
      exact hle) (pkt.header ++ payload).length use
  have hdst' : pkt.dstCommId = UInt16.ofInt (cfg.host !p).packetizer.commId := hdst
  rw [require_bind _ hdst', if_neg (not_not.mpr hsrc')]
  refine ⟨c', hc', ?_⟩
  rw [hmem, reportRate_mem, hptr]
  rfl

end Transfer

/-- The gradients of a packet arrive, and nothing else of the receive buffer changes, exactly
if their first eight bytes spell the address at which `HandleReceive` finds them: setting
`grad_ptr` in the datagram overwrites these bytes before they are copied. -/
theorem gradients_survive_iff (cfg : Config) (p : Bool) (sender receiver : Communicator)
    (msg : LtMessage) (pkt : GradPacket) (e : LtMessageExt)
    (h : Transfer cfg p receiver msg pkt e) (use : ℕ)
    (htx : sender.txPackets.find? (·.1.tos = pkt.tos) = some (pkt, use)) (rate : Option UInt32) :
    ∃ d c', (sender.onSendReady pkt.tos true).2 = some d ∧
      receiver.handleReceive (cfg.host !p) d.bytes d.use rate = .ok c' ∧
      ((∀ i < LtMessageExt.gradBytes pkt, c'.mem (e.buf + pkt.offset.toNat + i) =
          sender.mem (msg.buf + pkt.offset.toNat + i)) ∧
        (∀ i < e.size, i < pkt.offset.toNat ∨ pkt.offset.toNat + LtMessageExt.gradBytes pkt ≤ i →
          c'.mem (e.buf + i) = receiver.mem (e.buf + i)) ↔
        ∀ i < min 8 (LtMessageExt.gradBytes pkt), sender.mem (msg.buf + pkt.offset.toNat + i) =
          (leBytes 8 (cfg.loopBuf (!p) + kGradPacketHeader)).getD i 0) := by
  obtain ⟨hle, hseg, -, -, -⟩ := h.range
  obtain ⟨c', hc', hmem⟩ := h.handleReceive_mem
    (Memory.length_read sender.mem (msg.buf + pkt.offset.toNat) (LtMessageExt.gradBytes pkt))
    use rate
  refine ⟨_, c', h.onSendReady_eq htx, hc', ?_⟩
  generalize LtMessageExt.gradBytes pkt = n at *
  have hlen : (pkt.header ++ sender.mem.read (msg.buf + pkt.offset.toNat) n).length ≤
      cfg.maxSegment := by
    rw [List.length_append, GradPacket.length_header, Memory.length_read]
    omega
  have hcopied : ∀ i < n, c'.mem (e.buf + pkt.offset.toNat + i) =
      if i < 8 then (leBytes 8 (cfg.loopBuf (!p) + kGradPacketHeader)).getD i 0
      else sender.mem (msg.buf + pkt.offset.toNat + i) := by
    intro i hi
    rw [hmem, Memory.copy_add _ hi]
    split_ifs with h8
    · exact receiveInto_ptr h8
    · refine (receiveInto_payload (GradPacket.length_header _) (Nat.le_of_not_lt h8)
        (by simpa using hi)).trans ?_
      simp [Memory.read]
  have hkept : ∀ i < e.size, i < pkt.offset.toNat ∨ pkt.offset.toNat + n ≤ i →
      c'.mem (e.buf + i) = receiver.mem (e.buf + i) := by
    intro i hi hout
    rw [hmem, Memory.copy_of_outside _ (by omega)]
    apply receiveInto_outside hlen
    have hdisj := h.disjoint
    change _ < cfg.loopBuf (!p) ∨ cfg.loopBuf (!p) + max 28 cfg.maxSegment ≤ _
    omega
  constructor
  · rintro ⟨hall, -⟩ i hi
    rw [← hall i (by omega), hcopied i (by omega), if_pos (by omega)]
  · refine fun hcond => ⟨fun i hi => ?_, hkept⟩
    rw [hcopied i hi]
    split_ifs with h8
    · exact (hcond i (by omega)).symm
    · rfl

def onePacket : GradPacket :=
  (onePacketConfig.packetizer false).partitionOneBySeq (onePacketConfig.host false).destCommId
    (.new ⟨7, 65536, 4, 0⟩) (onePacketConfig.prioFunc false) (0 : ℕ)

/-- A message that spells the address 4116 arrives. -/
theorem gradients_survive_iff_onePacket :
    ∃ d c', (onSendReady 0 true { Communicator.init with
        txPackets := [(onePacket, 0)]
        mem := fun x => (leBytes 8 4116).getD (x - 65536) 0 }).2 = some d ∧
      handleReceive (onePacketConfig.host true) d.bytes d.use none
        (Communicator.init.putRecv 7 (.new ⟨7, 131072, 4, 0⟩)) = .ok c' ∧
      ∀ i < 4, c'.mem (131072 + i) = (leBytes 8 4116).getD (65536 + i - 65536) 0 := by
  obtain ⟨d, c', hd, hc', hiff⟩ := gradients_survive_iff onePacketConfig false
    { Communicator.init with
      txPackets := [(onePacket, 0)]
      mem := fun x => (leBytes 8 4116).getD (x - 65536) 0 }
    (Communicator.init.putRecv 7 (.new ⟨7, 131072, 4, 0⟩)) ⟨7, 65536, 4, 0⟩ onePacket
    (.new ⟨7, 131072, 4, 0⟩)
    { size_pos := by decide
      size_lt := by decide
      sendBuf_le := by decide
      builds := .partitionOneBySeq _ 0 rfl (Nat.zero_le _)
      posted := by decide +kernel
      size_eq := rfl
      fresh := ⟨∅, .inr ⟨rfl, rfl⟩, by simp⟩
      loopBuf_le := by decide
      disjoint := .inr (by decide) } 0 (by decide +kernel) none
  have hoff : onePacket.offset.toNat = 0 := by decide +kernel
  have hgrad : LtMessageExt.gradBytes onePacket = 4 := by decide +kernel
  have htos : onePacket.tos = 0 := by decide +kernel
  rw [htos] at hd
  simp only [hoff, hgrad, Nat.add_zero] at hiff
  exact ⟨d, c', hd, hc', (hiff.mpr (by decide +kernel)).1⟩

/-- The first bytes received are those of the address 4116. -/
theorem gradients_overwritten : ∃ s, (machine onePacketConfig).Reachable Once s ∧
    .accept 7 0 0 0 4 ∈ (s.comm true).log ∧
    (s.comm false).mem.read 65536 4 = [0, 0, 0, 0] ∧
    (s.comm true).mem.read 131072 4 = [20, 16, 0, 0] :=
  (machine onePacketConfig).exists_reachable_of_run Once (stopRun 7)
    (fun s => .accept 7 0 0 0 4 ∈ (s.comm true).log ∧
      (s.comm false).mem.read 65536 4 = [0, 0, 0, 0] ∧
      (s.comm true).mem.read 131072 4 = [20, 16, 0, 0]) (by decide +kernel)

end Mlt
