import MltByteps.Mlt.ReceivingThread

/-! Packets that come before their receive is posted. They wait in the slots of the backlog, with
the pointer into the buffer of the receiving loop that `HandleReceive` has put into them. -/

namespace Mlt
open Communicator LittleEndian

namespace Shipment

/-! ## Packets copied one after the other -/

def seqsOf (pkts : List GradPacket) : Finset ℕ := (pkts.map fun pkt => pkt.seq.toNat).toFinset

/-- The memory after `CopyGradients` of a packet, if the packets `taken` came before. -/
def copied (s : Shipment) (taken : Finset ℕ) (pkt : GradPacket) (mem : Memory) : Memory :=
  if pkt.seq.toNat ∈ taken then mem
  else mem.copy (s.recv.buf + pkt.seq.toNat * s.packetizer.bound) pkt.gradPtr.toNat
    (s.packetizer.payloadLen s.sent.size pkt.seq.toNat)

def replayed (s : Shipment) : Finset ℕ → List GradPacket → Memory → Memory
  | _, [], mem => mem
  | taken, pkt :: pkts, mem =>
    s.replayed (insert pkt.seq.toNat taken) pkts (s.copied taken pkt mem)

/-- When it is the turn of a packet that is new, its payload lies behind its `grad_ptr`. -/
def Faithful (s : Shipment) : Finset ℕ → List GradPacket → Memory → Prop
  | _, [], _ => True
  | taken, pkt :: pkts, mem =>
    (pkt.seq.toNat ∉ taken → ∀ i < s.packetizer.payloadLen s.sent.size pkt.seq.toNat,
        mem (pkt.gradPtr.toNat + i) = (s.payload pkt.seq.toNat).getD i 0) ∧
      s.Faithful (insert pkt.seq.toNat taken) pkts (s.copied taken pkt mem)

variable {s : Shipment} {mem mem₀ : Memory} {taken : Finset ℕ} {pkt : GradPacket}
  {pkts : List GradPacket}

theorem seqsOf_cons_union (pkt : GradPacket) (pkts : List GradPacket) (taken : Finset ℕ) :
    seqsOf (pkt :: pkts) ∪ taken = seqsOf pkts ∪ insert pkt.seq.toNat taken := by
  simp [seqsOf, Finset.insert_union]

theorem Valid.copied_outside (hv : s.Valid) (hq : pkt.seq.toNat ≤ s.maxSeq) {x : ℕ}
    (hx : x < s.recv.buf ∨ s.recv.buf + s.recv.size ≤ x) : s.copied taken pkt mem x = mem x := by
  have hend := Packetizer.add_payloadLen (hv.le_maxSeq_iff.mp hq)
  have hsize := hv.recv_size
  unfold copied
  split_ifs
  · rfl
  · exact Memory.copy_of_outside _ (by omega)

theorem Valid.copied_taken (hv : s.Valid) {i : ℕ} (hi : i < s.recv.size)
    (hmem : i / s.packetizer.bound ∈ taken) :
    s.copied taken pkt mem (s.recv.buf + i) = mem (s.recv.buf + i) := by
  unfold copied
  split_ifs with hq
  · rfl
  · exact hv.copy_other hi fun hiq => hq (hiq ▸ hmem)

theorem Filled.copied (h : s.Filled mem₀ taken mem) (hv : s.Valid)
    (hsrc : pkt.seq.toNat ∉ taken → ∀ i < s.packetizer.payloadLen s.sent.size pkt.seq.toNat,
      mem (pkt.gradPtr.toNat + i) = (s.payload pkt.seq.toNat).getD i 0) :
    s.Filled mem₀ (insert pkt.seq.toNat taken) (s.copied taken pkt mem) := by
  unfold Shipment.copied
  split_ifs with hmem
  · rwa [Finset.insert_eq_of_mem hmem]
  · exact h.copy hv (hsrc hmem)

theorem Valid.replayed_taken (hv : s.Valid) {i : ℕ} (hi : i < s.recv.size)
    (hmem : i / s.packetizer.bound ∈ taken) :
    s.replayed taken pkts mem (s.recv.buf + i) = mem (s.recv.buf + i) := by
  induction pkts generalizing taken mem with
  | nil => rfl
  | cons pkt pkts ih =>
    rw [replayed, ih (Finset.mem_insert_of_mem hmem), hv.copied_taken hi hmem]

theorem Valid.byte_div (hv : s.Valid) {q i : ℕ} (hq : q ≤ s.maxSeq)
    (hi : i < s.packetizer.payloadLen s.sent.size q) :
    q * s.packetizer.bound + i < s.recv.size ∧
      (q * s.packetizer.bound + i) / s.packetizer.bound = q ∧
      (q * s.packetizer.bound + i) % s.packetizer.bound = i := by
  have hend := Packetizer.add_payloadLen (hv.le_maxSeq_iff.mp hq)
  have hsize := hv.recv_size
  have hlt : q * s.packetizer.bound + i < s.recv.size := by omega
  have hdiv := (hv.div_bound_iff hlt (q := q)).mpr ⟨by omega, by omega⟩
  exact ⟨hlt, hdiv,
    Nat.mul_add_mod_of_lt (Nat.lt_of_lt_of_le hi (Packetizer.payloadLen_le _ _ _))⟩

theorem Filled.replayed_iff (h : s.Filled mem₀ taken mem) (hv : s.Valid)
    (hle : ∀ pkt ∈ pkts, pkt.seq.toNat ≤ s.maxSeq) :
    s.Filled mem₀ (seqsOf pkts ∪ taken) (s.replayed taken pkts mem) ↔
      s.Faithful taken pkts mem := by
  induction pkts generalizing taken mem with
  | nil => simpa [seqsOf, replayed, Faithful] using h
  | cons pkt pkts ih =>
    obtain ⟨hq, hle⟩ := List.forall_mem_cons.mp hle
    rw [seqsOf_cons_union, replayed, Faithful]
    constructor
    · intro hfilled
      have hsrc : pkt.seq.toNat ∉ taken →
          ∀ i < s.packetizer.payloadLen s.sent.size pkt.seq.toNat,
            mem (pkt.gradPtr.toNat + i) = (s.payload pkt.seq.toNat).getD i 0 := by
        intro hmem i hi
        -- The byte is written by this packet only, so it shows in the end what was copied now.
        obtain ⟨hlt, hdiv, hmod⟩ := hv.byte_div hq hi
        have hmem' := Finset.mem_insert_self pkt.seq.toNat taken
        have hbyte := hfilled _ hlt
        rw [hv.replayed_taken hlt (hdiv.symm ▸ hmem'),
          show s.copied taken pkt mem = mem.copy _ _ _ from if_neg hmem, hv.copy_own hlt hdiv,
          contentAt, hdiv, hmod, if_pos (Finset.mem_union_right _ hmem')] at hbyte
        exact hbyte
      exact ⟨hsrc, (ih (h.copied hv hsrc) hle).mp hfilled⟩
    · rintro ⟨hsrc, hfaithful⟩
      exact (ih (h.copied hv hsrc) hle).mpr hfaithful

theorem Valid.faithful_iff_of_ptr (hv : s.Valid) {ptr : ℕ}
    (hptr : ∀ pkt ∈ pkts, pkt.gradPtr.toNat = ptr)
    (hle : ∀ pkt ∈ pkts, pkt.seq.toNat ≤ s.maxSeq)
    (hout : ∀ i < s.packetizer.bound, ptr + i < s.recv.buf ∨
      s.recv.buf + s.recv.size ≤ ptr + i) :
    s.Faithful taken pkts mem ↔ ∀ pkt ∈ pkts, pkt.seq.toNat ∉ taken →
      ∀ i < s.packetizer.payloadLen s.sent.size pkt.seq.toNat,
        mem (ptr + i) = (s.payload pkt.seq.toNat).getD i 0 := by
  induction pkts generalizing taken mem with
  | nil => simp [Faithful]
  | cons pkt pkts ih =>
    obtain ⟨hp, hptr⟩ := List.forall_mem_cons.mp hptr
    obtain ⟨hq, hle⟩ := List.forall_mem_cons.mp hle
    have hsame : ∀ q, ∀ i < s.packetizer.payloadLen s.sent.size q,
        s.copied taken pkt mem (ptr + i) = mem (ptr + i) := fun q i hi =>
      hv.copied_outside hq (hout i (Nat.lt_of_lt_of_le hi (Packetizer.payloadLen_le _ _ _)))
    rw [Faithful, List.forall_mem_cons, ih hptr hle, hp]
    refine and_congr_right fun hhead => forall₂_congr fun pkt' _ => ⟨fun h hnot i hi => ?_,
      fun h hnot i hi => ?_⟩
    · by_cases heq : pkt'.seq.toNat = pkt.seq.toNat
      · rw [heq] at hnot hi ⊢
        exact hhead hnot i hi
      · rw [← hsame _ i hi]
        exact h (by simp [heq, hnot]) i hi
    · rw [hsame _ i hi]
      exact h (fun hmem => hnot (Finset.mem_insert_of_mem hmem)) i hi

end Shipment

/-! ## The buffer of the loop -/

/-- A payload in the buffer of the loop: its first bytes lie under `grad_ptr`. -/
def Host.overlay (h : Host) (payload : List UInt8) : List UInt8 :=
  (leBytes 8 (h.buf + kGradPacketHeader) ++ payload.drop 8).take payload.length

theorem Host.length_overlay (h : Host) (payload : List UInt8) :
    (h.overlay payload).length = payload.length := by
  simp only [overlay, List.length_take, List.length_append, length_leBytes, List.length_drop]
  omega

theorem Host.overlay_getD (h : Host) {payload : List UInt8} {i : ℕ} (hi : i < payload.length) :
    (h.overlay payload).getD i 0 =
      if i < 8 then (leBytes 8 (h.buf + kGradPacketHeader)).getD i 0 else payload.getD i 0 := by
  unfold overlay
  simp only [List.getD_eq_getElem?_getD, List.getElem?_take_of_lt hi]
  split_ifs with h8
  · rw [List.getElem?_append_left (by simpa using h8)]
  · rw [List.getElem?_append_right (by simpa using h8), length_leBytes, List.getElem?_drop,
      Nat.add_sub_cancel' (Nat.le_of_not_lt h8)]

theorem receiveInto_overlay {h : Host} {header payload : List UInt8} {mem : Memory}
    (hlen : header.length = kGradPacketHeader) {i : ℕ} (hi : i < payload.length) :
    receiveInto h (header ++ payload) mem (h.buf + kGradPacketHeader + i) =
      (h.overlay payload).getD i 0 := by
  rw [h.overlay_getD hi]
  split_ifs with h8
  · exact receiveInto_ptr h8
  · rw [receiveInto_payload hlen (Nat.le_of_not_lt h8) hi, List.getD_eq_getElem?_getD,
      List.getElem?_eq_getElem hi, Option.getD_some]

theorem receiveInto_read {h : Host} {header payload : List UInt8} {mem : Memory}
    (hlen : header.length = kGradPacketHeader) :
    (receiveInto h (header ++ payload) mem).read h.buf (kGradPacketHeader + payload.length) =
      header ++ h.overlay payload := by
  rw [Memory.read_append]
  congr 1
  · unfold receiveInto
    rw [Memory.read_write_disjoint _ _ (.inl le_rfl), ← hlen]
    simpa using Memory.read_write_sub mem h.buf 0 header.length (header ++ payload) (by simp)
  · apply List.ext_getElem?
    intro i
    rw [Memory.getElem?_read]
    split_ifs with hi
    · rw [receiveInto_overlay hlen hi, List.getD_eq_getElem?_getD,
        List.getElem?_eq_getElem (by rwa [h.length_overlay]), Option.getD_some]
    · rw [List.getElem?_eq_none (by rw [h.length_overlay]; omega)]

namespace Shipment

def inLoop (s : Shipment) (h : Host) : Shipment :=
  { s with payload := fun q => h.overlay (s.payload q) }

theorem Valid.inLoop {s : Shipment} (hv : s.Valid) (h : Host) : (s.inLoop h).Valid where
  packetizer := hv.packetizer
  size_pos := hv.size_pos
  size_lt := hv.size_lt
  recv_size := hv.recv_size
  payload_length q hq := (h.length_overlay _).trans (hv.payload_length q hq)

/-! ## Packets of a shipment -/

structure Carries (s : Shipment) (h : Host) (pkt : GradPacket) : Prop where
  isPacket : s.packetizer.IsPacket s.sent.size pkt.seq.toNat pkt
  seq_le : pkt.seq.toNat ≤ s.maxSeq
  msgId_eq : pkt.msgId = s.recv.msgId
  dst_eq : pkt.dstCommId = UInt16.ofInt h.packetizer.commId
  src_eq : (pkt.srcCommId.toNat : ℤ) = h.destCommId

/-- The shipment is for the communicator of `h` and comes from the one it is connected to. -/
structure Reaches (s : Shipment) (h : Host) : Prop where
  maxSegment_eq : s.packetizer.maxSegment = h.packetizer.maxSegment
  dest_eq : s.dest = h.packetizer.commId
  source_eq : ((UInt16.ofInt s.packetizer.commId).toNat : ℤ) = h.destCommId
  msgId_eq : s.recv.msgId = s.sent.msgId

variable {s : Shipment} {h : Host} {c : Communicator} {e : LtMessageExt} {mem : Memory}
  {taken : Finset ℕ} {pkt : GradPacket}

theorem Reaches.carries (hr : s.Reaches h) (hv : s.Valid) {prio : PktPrioFunc}
    (hb : s.packetizer.Builds s.dest prio s.sent pkt) : s.Carries h pkt := by
  obtain ⟨q, hq, hpkt, -, hdst, hsrc⟩ := hb.fields hv.packetizer hv.size_pos hv.size_lt
  obtain ⟨q', tos, -, hpacket⟩ := hb.eq_packet hv.packetizer hv.size_pos hv.size_lt
  have hseq := hpkt.seq_eq
  subst hseq
  refine ⟨hpkt, hv.le_maxSeq_iff.mpr hq, ?_, hdst.trans (by rw [hr.dest_eq]), ?_⟩
  · rw [hr.msgId_eq, hpacket]
    rfl
  · rw [hsrc]
    exact hr.source_eq

theorem Carries.withPtr (hc : s.Carries h pkt) (gradPtr : UInt64) :
    s.Carries h { pkt with gradPtr } := by
  obtain ⟨⟨hseq, hoff, hlen, hlast⟩, hle, hid, hdst, hsrc⟩ := hc
  exact ⟨⟨hseq, hoff, hlen, hlast⟩, hle, hid, hdst, hsrc⟩

theorem acceptPacket_counted (hv : s.Valid) (hc : s.Counted taken e) (hcar : s.Carries h pkt)
    (c : Communicator) (m : UInt32) (use : ℕ) :
    ∃ n e' c', c.acceptPacket m e pkt use = .ok (n, e', c') ∧
      s.Counted (insert pkt.seq.toNat taken) e' ∧ (0 < n ↔ pkt.seq.toNat ∉ taken) ∧
      c'.mem = s.copied taken pkt c.mem ∧ c'.backlogFreeList = c.backlogFreeList := by
  obtain ⟨e', hc', -, -, hcopy⟩ := hc.copyGradients hv hcar.seq_le hcar.isPacket c.mem
  have hpos := Packetizer.payloadLen_pos hv.packetizer (hv.le_maxSeq_iff.mp hcar.seq_le)
  unfold acceptPacket copied
  rw [hcopy, ok_bind]
  split_ifs with hmem
  · exact ⟨_, e', _, rfl, hc', by simp [hmem], rfl, rfl⟩
  · exact ⟨_, e', _, rfl, hc', by simp [hmem, hpos], rfl, rfl⟩

theorem deliver_counted (hv : s.Valid) (hlook : c.recvMsgs.lookup pkt.msgId = some e)
    (hc : s.Counted taken e) (hcar : s.Carries h pkt) (size use : ℕ) :
    ∃ e' c', c.deliver h pkt size use = .ok c' ∧ c'.recvMsgs.lookup pkt.msgId = some e' ∧
      s.Counted (insert pkt.seq.toNat taken) e' ∧ e'.bound = e.bound ∧
      c'.mem = s.copied taken pkt c.mem ∧
      (e'.stopped = true ↔ e.stopped = true ∨ pkt.seq.toNat ∉ taken ∧
        e.bound ≤ s.total (insert pkt.seq.toNat taken)) ∧
      c'.stopRequests pkt.msgId + e.stopped.toNat =
        c.stopRequests pkt.msgId + e'.stopped.toNat := by
  obtain ⟨n, e', c', haccept, hc', hpos, hmem, -⟩ := acceptPacket_counted hv hc hcar c pkt.msgId use
  obtain ⟨hrecv, hcount, hbound, hstopped, -⟩ := acceptPacket_entry haccept
  have hfinish : e'.finishReceiving = true ↔
      e.bound ≤ s.total (insert pkt.seq.toNat taken) := by
    rw [LtMessageExt.finishReceiving, decide_eq_true_iff, hbound, hc'.bytes_eq]
  unfold deliver
  rw [hlook]
  dsimp only
  rw [haccept, ok_bind]
  dsimp only
  split_ifs with hstop
  · obtain ⟨hn, hfin, hst⟩ := hstop
    refine ⟨{ e' with stopped := true }, _, rfl, ?_, ?_, hbound, hmem, ?_, ?_⟩
    · exact AList.lookup_insert _
    · exact hc'.withFlags _ true
    · exact iff_of_true rfl (.inr ⟨hpos.mp hn, hfinish.mp hfin⟩)
    · rw [stopRequests_enqueue, ← hstopped, Bool.eq_false_iff.mpr hst]
      show c'.stopRequests _ + _ + _ = _
      rw [hcount]
      simp [Event.isStopRequest]
  · refine ⟨e', c', rfl, ?_, hc', hbound, hmem, ?_, ?_⟩
    · rw [hrecv]
      exact AList.lookup_insert _
    · rw [hstopped]
      refine ⟨.inl, fun hor => ?_⟩
      by_contra hst
      obtain ⟨hnew, hle⟩ := hor.resolve_left hst
      exact hstop ⟨hpos.mpr hnew, hfinish.mpr hle, hstopped ▸ hst⟩
    · rw [hcount, hstopped]

end Shipment

/-! ## Datagrams of a shipment -/

/-- A datagram that reaches the receiving thread, and the rate to report if the meter is due. -/
structure Delivery where
  pkt : GradPacket
  pktUse : ℕ
  rate : Option UInt32

def Delivery.loopPacket (d : Delivery) (h : Host) : GradPacket :=
  { d.pkt with gradPtr := UInt64.ofNat (h.buf + kGradPacketHeader) }

theorem Communicator.reportRate_eq (c : Communicator) (dest : ℤ) (rate : Option UInt32) :
    ∃ txQueue log, c.reportRate dest rate = { c with txQueue, log } ∧
      ∀ m, List.countP (Event.isStopRequest m) log = c.stopRequests m := by
  have hcount := fun m => stopRequests_reportRate (m := m) c dest rate
  cases rate with
  | none => exact ⟨_, _, rfl, hcount⟩
  | some speed => exact ⟨_, _, rfl, hcount⟩

namespace Shipment

def handle (s : Shipment) (h : Host) (c : Communicator) (d : Delivery) :
    Except Fault Communicator :=
  c.handleReceive h (d.pkt.header ++ s.payload d.pkt.seq.toNat) d.pktUse d.rate

variable {s : Shipment} {h : Host} {c c₀ : Communicator} {e : LtMessageExt} {mem : Memory}
  {taken : Finset ℕ} {d : Delivery} {ds : List Delivery}

theorem Reaches.datagram_le (hr : s.Reaches h) (hv : s.Valid) (q : ℕ) :
    kGradPacketHeader + s.packetizer.payloadLen s.sent.size q ≤ h.packetizer.maxSegment := by
  have hle := s.packetizer.payloadLen_le s.sent.size q
  have hlo := hv.packetizer.lo
  rw [← hr.maxSegment_eq]
  unfold Packetizer.bound kGradPacketHeader at *
  omega

theorem length_datagram (hv : s.Valid) (hcar : s.Carries h d.pkt) :
    (d.pkt.header ++ s.payload d.pkt.seq.toNat).length =
      kGradPacketHeader + s.packetizer.payloadLen s.sent.size d.pkt.seq.toNat := by
  rw [List.length_append, GradPacket.length_header, hv.payload_length _ hcar.seq_le]

theorem handle_eq (hv : s.Valid) (hr : s.Reaches h) (hcar : s.Carries h d.pkt) (c : Communicator) :
    ∃ txQueue log, (∀ m, List.countP (Event.isStopRequest m) log = c.stopRequests m) ∧
      s.handle h c d = deliver h (d.loopPacket h)
        (kGradPacketHeader + s.packetizer.payloadLen s.sent.size d.pkt.seq.toNat) d.pktUse
        { c with
          mem := receiveInto h (d.pkt.header ++ s.payload d.pkt.seq.toNat) c.mem
          txQueue, log } := by
  have hlen := length_datagram hv hcar
  have hhead : (d.pkt.header ++ s.payload d.pkt.seq.toNat).take kGradPacketHeader =
      d.pkt.header := List.take_left' d.pkt.length_header
  obtain ⟨txQueue, log, hrate, hcount⟩ := reportRate_eq
    { c with mem := receiveInto h (d.pkt.header ++ s.payload d.pkt.seq.toNat) c.mem }
    h.destCommId d.rate
  refine ⟨txQueue, log, hcount, ?_⟩
  unfold handle handleReceive
  dsimp only
  rw [List.take_of_length_le (hlen.trans_le (hr.datagram_le hv _)), ofMemory_receiveInto hhead,
    require_bind _ hcar.dst_eq, if_neg (not_not.mpr hcar.src_eq), hcar.src_eq, hrate, hlen]
  rfl

/-- The receive buffer, the buffer of the loop, of which the struct of a packet takes 28 bytes, and
the slots of the backlog lie apart. A slot has the length of a segment. -/
structure Layout (s : Shipment) (h : Host) (slots : List ℕ) : Prop where
  loopBuf_le : h.buf + 28 ≤ 2 ^ 64
  recv_loop : s.recv.buf + s.recv.size ≤ h.buf ∨
    h.buf + max 28 h.packetizer.maxSegment ≤ s.recv.buf
  recv_slot : ∀ slot ∈ slots, s.recv.buf + s.recv.size ≤ slot ∨
    slot + max 28 h.packetizer.maxSegment ≤ s.recv.buf
  loop_slot : ∀ slot ∈ slots, h.buf + max 28 h.packetizer.maxSegment ≤ slot ∨
    slot + h.packetizer.maxSegment ≤ h.buf
  slots_apart : slots.Pairwise fun a b =>
    a + h.packetizer.maxSegment ≤ b ∨ b + h.packetizer.maxSegment ≤ a

theorem Layout.recv_outside {slots : List ℕ} (hl : s.Layout h slots) {i : ℕ}
    (hi : i < s.recv.size) : s.recv.buf + i < h.buf ∨
      h.buf + max 28 h.packetizer.maxSegment ≤ s.recv.buf + i := by
  have := hl.recv_loop
  omega

theorem Layout.toNat_loopPtr {slots : List ℕ} (hl : s.Layout h slots) :
    (UInt64.ofNat (h.buf + kGradPacketHeader)).toNat = h.buf + kGradPacketHeader := by
  have := hl.loopBuf_le
  rw [UInt64.toNat_ofNat', Nat.mod_eq_of_lt (by unfold kGradPacketHeader; omega)]

theorem Carries.inLoop {pkt : GradPacket} (hcar : s.Carries h pkt) (gradPtr : UInt64) :
    (s.inLoop h).Carries h { pkt with gradPtr } := by
  obtain ⟨hpkt, hle, hid, hdst, hsrc⟩ := hcar.withPtr gradPtr
  exact ⟨hpkt, hle, hid, hdst, hsrc⟩

theorem Filled.receiveInto {slots : List ℕ} {mem₀ : Memory}
    (hf : (s.inLoop h).Filled mem₀ taken mem) (hl : s.Layout h slots) {bytes : List UInt8}
    (hlen : bytes.length ≤ h.packetizer.maxSegment) :
    (s.inLoop h).Filled mem₀ taken (receiveInto h bytes mem) := by
  intro i hi
  rw [← hf i hi]
  exact receiveInto_outside hlen (hl.recv_outside hi)

/-! ## On time -/

/-- The communicator `c` after the packets `taken` for a receive that was taken up in `c₀`. -/
structure OnTime (s : Shipment) (h : Host) (c₀ : Communicator) (bound : ℕ) (taken : Finset ℕ)
    (c : Communicator) (e : LtMessageExt) : Prop where
  posted : c.recvMsgs.lookup s.recv.msgId = some e
  counted : (s.inLoop h).Counted taken e
  bound_eq : e.bound = bound
  stopped_iff : e.stopped = true ↔ taken.Nonempty ∧ bound ≤ s.total taken
  stopRequests_eq : c.stopRequests s.recv.msgId =
    c₀.stopRequests s.recv.msgId + e.stopped.toNat
  filled : (s.inLoop h).Filled c₀.mem taken c.mem

theorem total_mono {taken' : Finset ℕ} (hsub : taken ⊆ taken') : s.total taken ≤ s.total taken' :=
  Finset.sum_le_sum_of_subset hsub

theorem OnTime.handle {slots : List ℕ} {bound : ℕ} (ht : s.OnTime h c₀ bound taken c e)
    (hv : s.Valid) (hr : s.Reaches h) (hl : s.Layout h slots) (hcar : s.Carries h d.pkt) :
    ∃ c' e', s.handle h c d = .ok c' ∧
      s.OnTime h c₀ bound (insert d.pkt.seq.toNat taken) c' e' := by
  obtain ⟨txQueue, log, hcount, heq⟩ := handle_eq hv hr hcar c
  have hid : (d.loopPacket h).msgId = s.recv.msgId := hcar.msgId_eq
  have hlen := length_datagram hv hcar
  have hptr : (d.loopPacket h).gradPtr.toNat = h.buf + kGradPacketHeader := hl.toNat_loopPtr
  have hcar' : (s.inLoop h).Carries h (d.loopPacket h) := hcar.inLoop _
  rw [heq]
  obtain ⟨e', c', hdeliver, hlook, hc', hbound, hmem, hstopped, hstops⟩ :=
    deliver_counted (c := { c with mem := receiveInto h _ c.mem, txQueue, log }) (hv.inLoop h)
      (hid.symm ▸ ht.posted) ht.counted hcar' _ _
  rw [hid] at hlook hstops
  refine ⟨c', e', hdeliver, hlook, hc', hbound.trans ht.bound_eq, ?_, ?_, ?_⟩
  · have hsub := Finset.subset_insert d.pkt.seq.toNat taken
    rw [hstopped, ht.stopped_iff, ht.bound_eq]
    constructor
    · rintro (⟨-, hle⟩ | ⟨-, hle⟩)
      · exact ⟨Finset.insert_nonempty _ _, hle.trans (total_mono hsub)⟩
      · exact ⟨Finset.insert_nonempty _ _, hle⟩
    · rintro ⟨-, hle⟩
      by_cases hmem : d.pkt.seq.toNat ∈ taken
      · exact .inl ⟨⟨_, hmem⟩, by rwa [Finset.insert_eq_of_mem hmem] at hle⟩
      · exact .inr ⟨hmem, hle⟩
  · have := ht.stopRequests_eq
    have := hcount s.recv.msgId
    change _ = List.countP _ log + _ at hstops
    omega
  · have hf := ht.filled.receiveInto hl (hlen.trans_le (hr.datagram_le hv _))
    rw [hmem]
    have hsrc : (d.loopPacket h).seq.toNat ∉ taken →
        ∀ i < s.packetizer.payloadLen s.sent.size (d.loopPacket h).seq.toNat,
          receiveInto h (d.pkt.header ++ s.payload d.pkt.seq.toNat) c.mem
              ((d.loopPacket h).gradPtr.toNat + i) =
            ((s.inLoop h).payload (d.loopPacket h).seq.toNat).getD i 0 := by
      intro _ i hi
      rw [hptr]
      exact receiveInto_overlay d.pkt.length_header
        (by rw [hv.payload_length _ hcar.seq_le]; exact hi)
    have hcopied := Filled.copied hf (hv.inLoop h) hsrc
    exact hcopied

theorem seqsOf_map_cons (d : Delivery) (ds : List Delivery) (taken : Finset ℕ) :
    seqsOf ((d :: ds).map Delivery.pkt) ∪ taken =
      seqsOf (ds.map Delivery.pkt) ∪ insert d.pkt.seq.toNat taken :=
  seqsOf_cons_union d.pkt (ds.map Delivery.pkt) taken

theorem OnTime.handleAll {slots : List ℕ} {bound : ℕ} (ht : s.OnTime h c₀ bound taken c e)
    (hv : s.Valid) (hr : s.Reaches h) (hl : s.Layout h slots)
    (hds : ∀ d ∈ ds, s.Carries h d.pkt) :
    ∃ c' e', ds.foldlM (s.handle h) c = .ok c' ∧
      s.OnTime h c₀ bound (seqsOf (ds.map Delivery.pkt) ∪ taken) c' e' := by
  induction ds generalizing c e taken with
  | nil => exact ⟨c, e, rfl, by simpa [seqsOf] using ht⟩
  | cons d ds ih =>
    obtain ⟨hd, hds⟩ := List.forall_mem_cons.mp hds
    obtain ⟨c₁, e₁, hstep, ht₁⟩ := ht.handle hv hr hl hd
    obtain ⟨c', e', hrun, ht'⟩ := ih ht₁ hds
    rw [seqsOf_map_cons]
    exact ⟨c', e', by rw [List.foldlM_cons, hstep]; exact hrun, ht'⟩

/-! ## Early -/

/-- The slot `x` holds the datagram of `d` as it was in the buffer of the loop. -/
def Kept (s : Shipment) (h : Host) (mem : Memory) (x : ℕ × ℕ) (d : Delivery) : Prop :=
  mem.read x.1 (kGradPacketHeader + s.packetizer.payloadLen s.sent.size d.pkt.seq.toNat) =
    d.pkt.header ++ (s.inLoop h).payload d.pkt.seq.toNat

/-- The communicator `c` after the packets `ds`, which wait for their receive in the slots `vec`. -/
structure Waits (s : Shipment) (h : Host) (c₀ : Communicator) (ds : List Delivery)
    (vec : List (ℕ × ℕ)) (c : Communicator) : Prop where
  used : (c.backlogUsedMap.lookup s.recv.msgId).getD [] = vec
  free : c.backlogFreeList ++ (vec.map Prod.fst).reverse = c₀.backlogFreeList
  kept : List.Forall₂ (s.Kept h c.mem) vec ds
  recvMsgs_eq : c.recvMsgs = c₀.recvMsgs
  rrQueue_eq : c.rrQueue = c₀.rrQueue
  stopRequests_eq : c.stopRequests s.recv.msgId = c₀.stopRequests s.recv.msgId
  filled : (s.inLoop h).Filled c₀.mem ∅ c.mem
  loop_ptr : ds ≠ [] → ∀ i < 8, c.mem (h.buf + kGradPacketHeader + i) =
    (leBytes 8 (h.buf + kGradPacketHeader)).getD i 0

theorem Kept.congr {mem' : Memory} {x : ℕ × ℕ} (hk : s.Kept h mem x d) (hv : s.Valid)
    (hr : s.Reaches h)
    (hsame : ∀ i < h.packetizer.maxSegment, mem' (x.1 + i) = mem (x.1 + i)) :
    s.Kept h mem' x d := by
  rw [Kept, ← hk]
  exact Memory.read_congr fun i hi => hsame i (Nat.lt_of_lt_of_le hi (hr.datagram_le hv _))

def stored (s : Shipment) (h : Host) (d : Delivery) (slot : ℕ) (mem : Memory) : Memory :=
  (receiveInto h (d.pkt.header ++ s.payload d.pkt.seq.toNat) mem).copy slot h.buf
    (kGradPacketHeader + s.packetizer.payloadLen s.sent.size d.pkt.seq.toNat)

theorem kept_stored (hv : s.Valid) (hcar : s.Carries h d.pkt) (slot use : ℕ) (mem : Memory) :
    s.Kept h (s.stored h d slot mem) (slot, use) d := by
  rw [Kept, stored, Memory.read_copy_self, ← hv.payload_length _ hcar.seq_le]
  exact receiveInto_read d.pkt.length_header

theorem stored_outside (hv : s.Valid) (hr : s.Reaches h) (hcar : s.Carries h d.pkt)
    {slot x : ℕ} (hslot : x < slot ∨ slot + h.packetizer.maxSegment ≤ x)
    (hloop : x < h.buf ∨ h.buf + max 28 h.packetizer.maxSegment ≤ x) :
    s.stored h d slot mem x = mem x := by
  have hle := hr.datagram_le hv d.pkt.seq.toNat
  rw [stored, Memory.copy_of_outside _ (by omega),
    receiveInto_outside ((length_datagram hv hcar).trans_le hle) hloop]

theorem handle_early {free : List ℕ} {slot : ℕ} (hv : s.Valid) (hr : s.Reaches h)
    (hcar : s.Carries h d.pkt) (hnone : c.recvMsgs.lookup s.recv.msgId = none)
    (hfree : c.backlogFreeList = free ++ [slot]) :
    ∃ txQueue log, (∀ m, List.countP (Event.isStopRequest m) log = c.stopRequests m) ∧
      s.handle h c d = .ok { c with
        backlogUsedMap := c.backlogUsedMap.insert s.recv.msgId
          ((c.backlogUsedMap.lookup s.recv.msgId).getD [] ++ [(slot, d.pktUse)])
        backlogFreeList := free
        mem := s.stored h d slot c.mem
        txQueue, log } := by
  obtain ⟨txQueue, log, hcount, heq⟩ := handle_eq hv hr hcar c
  have hid : (d.loopPacket h).msgId = s.recv.msgId := hcar.msgId_eq
  refine ⟨txQueue, log, hcount, ?_⟩
  rw [heq, deliver, hid, hnone]
  simp [keepInBacklog, hfree, stored]

theorem Waits.handle {vec : List (ℕ × ℕ)} (hw : s.Waits h c₀ ds vec c) (hv : s.Valid)
    (hr : s.Reaches h) (hl : s.Layout h c₀.backlogFreeList)
    (hnone : c₀.recvMsgs.lookup s.recv.msgId = none) (hcar : s.Carries h d.pkt)
    (hroom : ds.length < c₀.backlogFreeList.length) :
    ∃ x c', s.handle h c d = .ok c' ∧ s.Waits h c₀ (ds ++ [d]) (vec ++ [x]) c' := by
  obtain ⟨free, slot, hfree⟩ : ∃ free slot, c.backlogFreeList = free ++ [slot] := by
    rcases List.eq_nil_or_concat' c.backlogFreeList with hnil | hcons
    · have hlen := congrArg List.length hw.free
      have := hw.kept.length_eq
      simp only [hnil, List.nil_append, List.length_reverse, List.length_map] at hlen
      omega
    · exact hcons
  have hslots := hw.free
  rw [hfree] at hslots
  have hmem : slot ∈ c₀.backlogFreeList := by
    rw [← hslots]
    simp
  have hapart : ∀ x ∈ vec, (x.1 ∈ c₀.backlogFreeList ∧ (slot + h.packetizer.maxSegment ≤ x.1 ∨
      x.1 + h.packetizer.maxSegment ≤ slot)) := by
    intro x hx
    have hx' : x.1 ∈ (vec.map Prod.fst).reverse := List.mem_reverse.mpr (List.mem_map_of_mem hx)
    have hpair := List.pairwise_append.mp (hslots.symm ▸ hl.slots_apart)
    exact ⟨hslots ▸ List.mem_append_right _ hx', hpair.2.2 slot (by simp) x.1 hx'⟩
  obtain ⟨txQueue, log, hcount, heq⟩ :=
    handle_early hv hr hcar (hw.recvMsgs_eq ▸ hnone) hfree
  refine ⟨(slot, d.pktUse), _, heq, ?_, ?_, ?_, hw.recvMsgs_eq, hw.rrQueue_eq,
    (hcount _).trans hw.stopRequests_eq, fun i hi => ?_, fun _ i hi => ?_⟩
  · rw [IntMap.lookup_insert_ite, if_pos rfl, Option.getD_some, hw.used]
  · rw [← hslots]
    simp
  · refine List.rel_append (((List.forall₂_and_left vec ds).mpr ⟨hapart, hw.kept⟩).imp ?_)
      (.cons (kept_stored hv hcar _ _ _) .nil)
    rintro x d' ⟨⟨hx, hsep⟩, hk⟩
    refine hk.congr hv hr fun i hi => ?_
    have := hl.loop_slot x.1 hx
    exact stored_outside hv hr hcar (by omega) (by omega)
  · have hsize : i < s.recv.size := hi
    have := hl.recv_slot slot hmem
    rw [← hw.filled i hi]
    exact stored_outside hv hr hcar
      (show s.recv.buf + i < slot ∨ _ ≤ s.recv.buf + i by omega) (hl.recv_outside hi)
  · have := hl.loop_slot slot hmem
    have := hr.datagram_le hv d.pkt.seq.toNat
    show s.stored h d slot c.mem _ = _
    rw [stored, Memory.copy_of_outside _ (by unfold kGradPacketHeader at *; omega)]
    exact receiveInto_ptr hi

theorem Waits.handleAll {vec : List (ℕ × ℕ)} (hw : s.Waits h c₀ ds vec c) (hv : s.Valid)
    (hr : s.Reaches h) (hl : s.Layout h c₀.backlogFreeList)
    (hnone : c₀.recvMsgs.lookup s.recv.msgId = none) {ds' : List Delivery}
    (hds : ∀ d ∈ ds', s.Carries h d.pkt)
    (hroom : ds.length + ds'.length ≤ c₀.backlogFreeList.length) :
    ∃ vec' c', ds'.foldlM (s.handle h) c = .ok c' ∧ s.Waits h c₀ (ds ++ ds') vec' c' := by
  induction ds' generalizing c ds vec with
  | nil => exact ⟨vec, c, rfl, by rwa [List.append_nil]⟩
  | cons d ds' ih =>
    obtain ⟨hd, hds⟩ := List.forall_mem_cons.mp hds
    rw [List.length_cons] at hroom
    obtain ⟨x, c₁, hstep, hw₁⟩ := hw.handle hv hr hl hnone hd (by omega)
    obtain ⟨vec', c', hrun, hw'⟩ := ih hw₁ hds (by rw [List.length_append]; simp; omega)
    rw [List.append_assoc] at hw'
    exact ⟨vec', c', by rw [List.foldlM_cons, hstep]; exact hrun, hw'⟩

/-! ## The receive is taken up -/

theorem Kept.ofMemory {x : ℕ × ℕ} (hk : s.Kept h mem x d) (hv : s.Valid)
    (hcar : s.Carries h d.pkt) :
    ∃ gradPtr, GradPacket.ofMemory mem x.1 = { d.pkt with gradPtr } ∧
      (8 ≤ s.packetizer.payloadLen s.sent.size d.pkt.seq.toNat →
        gradPtr = UInt64.ofNat (h.buf + kGradPacketHeader)) := by
  rw [Kept, Memory.read_append] at hk
  obtain ⟨hhead, hrest⟩ := List.append_inj hk (by simp)
  refine ⟨_, GradPacket.ofMemory_of_header d.pkt hhead, fun h8 => ?_⟩
  have hptr : mem.read (x.1 + 20) 8 = leBytes 8 (h.buf + kGradPacketHeader) := by
    have hsub := Memory.read_sub mem (x.1 + kGradPacketHeader)
      (s.packetizer.payloadLen s.sent.size d.pkt.seq.toNat) 0 8 (by omega)
    rw [hrest] at hsub
    refine hsub.symm.trans ?_
    show List.take 8 (h.overlay _) = _
    rw [Host.overlay, List.take_take, Nat.min_eq_left
      (by rwa [hv.payload_length _ hcar.seq_le]), List.take_left' (length_leBytes _ _)]
  rw [hptr, ofLeBytes_leBytes]
  apply UInt64.toNat_inj.mp
  rw [UInt64.toNat_ofNat', UInt64.toNat_ofNat', show 256 ^ 8 = 2 ^ 64 by decide, Nat.mod_mod]

variable {s : Shipment} {h : Host} {c c₀ : Communicator} {e : LtMessageExt} {taken : Finset ℕ}
  {ds : List Delivery}

theorem copyBacklog_counted (hv : s.Valid) {vec : List (ℕ × ℕ)}
    (hslot : ∀ x ∈ vec, s.recv.buf + s.recv.size ≤ x.1 ∨ x.1 + 28 ≤ s.recv.buf)
    (hcar : ∀ x ∈ vec, s.Carries h (GradPacket.ofMemory c.mem x.1)) (hc : s.Counted taken e)
    (m : UInt32) :
    ∃ e' c', copyBacklog m vec e c = .ok (e', c') ∧
      s.Counted (seqsOf (vec.map fun x => GradPacket.ofMemory c.mem x.1) ∪ taken) e' ∧
      c'.mem = s.replayed taken (vec.map fun x => GradPacket.ofMemory c.mem x.1) c.mem ∧
      c'.backlogFreeList = c.backlogFreeList ++ vec.map Prod.fst := by
  induction vec generalizing c e taken with
  | nil => exact ⟨e, c, rfl, by simpa [seqsOf] using hc, rfl, by simp⟩
  | cons x vec ih =>
    obtain ⟨hx, hslot⟩ := List.forall_mem_cons.mp hslot
    obtain ⟨hcx, hcar⟩ := List.forall_mem_cons.mp hcar
    obtain ⟨n, e₁, c₁, haccept, hc₁, -, hmem, hfree⟩ :=
      acceptPacket_counted hv hc hcx c m x.2
    -- Only the receive buffer has changed, so the other slots hold the same packets.
    have hsame : ∀ y ∈ vec, GradPacket.ofMemory c₁.mem y.1 = GradPacket.ofMemory c.mem y.1 := by
      intro y hy
      refine GradPacket.ofMemory_congr fun i hi => ?_
      rw [hmem]
      have := hslot y hy
      exact hv.copied_outside hcx.seq_le (by omega)
    obtain ⟨e', c', hcopy, hc', hmem', hfree'⟩ :=
      ih (c := { c₁ with backlogFreeList := c₁.backlogFreeList ++ [x.1] }) hslot
        (fun y hy => (hsame y hy).symm ▸ hcar y hy) hc₁
    have hmap : (vec.map fun y => GradPacket.ofMemory c₁.mem y.1) =
        vec.map fun y => GradPacket.ofMemory c.mem y.1 := List.map_congr_left hsame
    dsimp only at hc' hmem' hfree'
    rw [hmap] at hc' hmem'
    refine ⟨e', c', ?_, ?_, ?_, ?_⟩
    · rw [copyBacklog, haccept]
      exact hcopy
    · rw [List.map_cons, seqsOf_cons_union]
      exact hc'
    · rw [hmem', hmem]
      rfl
    · rw [hfree', hfree, List.append_assoc]
      rfl

theorem newRecvMsg_counted (hv : s.Valid)
    (hslot : ∀ x ∈ (c.backlogUsedMap.lookup s.recv.msgId).getD [],
      s.recv.buf + s.recv.size ≤ x.1 ∨ x.1 + 28 ≤ s.recv.buf)
    (hcar : ∀ pkt ∈ c.waiting s.recv.msgId, s.Carries h pkt) :
    ∃ e c', newRecvMsg s.recv c = .ok (e, c') ∧ s.Counted (seqsOf (c.waiting s.recv.msgId)) e ∧
      c'.mem = s.replayed ∅ (c.waiting s.recv.msgId) c.mem ∧
      c'.backlogFreeList = c.backlogFreeList ++
        ((c.backlogUsedMap.lookup s.recv.msgId).getD []).map Prod.fst ∧
      (c'.backlogUsedMap.lookup s.recv.msgId).getD [] = [] := by
  have hstart : s.Counted ∅ (.new s.recv) := counted_start rfl rfl rfl
  unfold newRecvMsg waiting at *
  rcases hvec : c.backlogUsedMap.lookup s.recv.msgId with _ | vec
  · exact ⟨_, c, rfl, hstart, rfl, by simp, by simp [hvec]⟩
  · rw [hvec, Option.getD_some] at hslot hcar
    obtain ⟨e, c', hcopy, hc, hmem, hfree⟩ := copyBacklog_counted hv hslot
      (fun x hx => hcar _ (List.mem_map_of_mem hx)) hstart s.recv.msgId
    rw [Finset.union_empty] at hc
    dsimp only
    rw [hcopy]
    exact ⟨e, _, rfl, hc, hmem, hfree, by simp⟩

theorem takeUp_counted (hv : s.Valid) (hqueue : c.rrQueue = [])
    (hnone : c.recvMsgs.lookup s.recv.msgId = none)
    (hslot : ∀ x ∈ (c.backlogUsedMap.lookup s.recv.msgId).getD [],
      s.recv.buf + s.recv.size ≤ x.1 ∨ x.1 + 28 ≤ s.recv.buf)
    (hcar : ∀ pkt ∈ c.waiting s.recv.msgId, s.Carries h pkt) (target : ℕ) :
    ∃ c' e, (c.postRecv s.recv target).pollReceiveRequest = .ok c' ∧
      c'.recvMsgs.lookup s.recv.msgId = some e ∧
      s.Counted (seqsOf (c.waiting s.recv.msgId)) e ∧ e.bound = alignUp sizeofFloat target ∧
      e.stopped = false ∧ c'.mem = s.replayed ∅ (c.waiting s.recv.msgId) c.mem ∧
      c'.backlogFreeList = c.backlogFreeList ++
        ((c.backlogUsedMap.lookup s.recv.msgId).getD []).map Prod.fst ∧
      (c'.backlogUsedMap.lookup s.recv.msgId).getD [] = [] ∧
      c'.stopRequests s.recv.msgId = c.stopRequests s.recv.msgId := by
  obtain ⟨e, c₁, hnew, hc, hmem, hfree, hused⟩ := newRecvMsg_counted hv hslot hcar
  obtain ⟨hstopped, htakes⟩ := newRecvMsg_entry hnew
  have hpost : { c with rrQueue := [] } = c := by rw [← hqueue]
  have hpoll : (c.postRecv s.recv target).pollReceiveRequest = _ := pollReceiveRequest_of_new
    (show c.rrQueue ++ [(s.recv, target)] = _ by rw [hqueue]; rfl) hnone
    (show newRecvMsg s.recv { c with rrQueue := [] } = _ by rw [hpost]; exact hnew)
  exact ⟨_, _, hpoll, AList.lookup_insert _, hc.withFlags _ _, rfl, hstopped, hmem, hfree, hused,
    htakes.stopRequests _⟩

theorem Waits.start (hused : (c.backlogUsedMap.lookup s.recv.msgId).getD [] = []) :
    s.Waits h c [] [] c :=
  ⟨hused, by simp, .nil, rfl, rfl, rfl, filled_start _ _, fun hne => absurd rfl hne⟩

theorem Waits.waiting {vec : List (ℕ × ℕ)} (hw : s.Waits h c₀ ds vec c) (hv : s.Valid)
    (hds : ∀ d ∈ ds, s.Carries h d.pkt) :
    List.Forall₂ (fun pkt d => (s.inLoop h).Carries h pkt ∧ pkt.seq = d.pkt.seq ∧
        (8 ≤ s.packetizer.payloadLen s.sent.size d.pkt.seq.toNat →
          pkt.gradPtr = UInt64.ofNat (h.buf + kGradPacketHeader)))
      (c.waiting s.recv.msgId) ds := by
  rw [Communicator.waiting, hw.used, List.forall₂_map_left_iff]
  refine ((List.forall₂_and_left ds vec).mpr ⟨hds, hw.kept.flip⟩).flip.imp ?_
  rintro x d ⟨hcar, hk⟩
  obtain ⟨gradPtr, hpkt, hptr⟩ := Kept.ofMemory hk hv hcar
  rw [hpkt]
  exact ⟨hcar.inLoop gradPtr, rfl, hptr⟩

theorem Waits.carries {vec : List (ℕ × ℕ)} (hw : s.Waits h c₀ ds vec c) (hv : s.Valid)
    (hds : ∀ d ∈ ds, s.Carries h d.pkt) :
    ∀ pkt ∈ c.waiting s.recv.msgId, (s.inLoop h).Carries h pkt :=
  ((List.forall₂_and_left _ _).mp (hw.waiting hv hds)).1

theorem Waits.map_seq {vec : List (ℕ × ℕ)} (hw : s.Waits h c₀ ds vec c) (hv : s.Valid)
    (hds : ∀ d ∈ ds, s.Carries h d.pkt) :
    (c.waiting s.recv.msgId).map (fun pkt => pkt.seq.toNat) =
      (ds.map Delivery.pkt).map fun pkt => pkt.seq.toNat := by
  rw [List.map_map, ← List.forall₂_eq_eq_eq, List.forall₂_map_left_iff,
    List.forall₂_map_right_iff]
  exact (hw.waiting hv hds).imp fun pkt d hpd => congrArg UInt32.toNat hpd.2.1

theorem Waits.forall_seq {vec : List (ℕ × ℕ)} (hw : s.Waits h c₀ ds vec c) (hv : s.Valid)
    (hds : ∀ d ∈ ds, s.Carries h d.pkt) (P : ℕ → Prop) :
    (∀ pkt ∈ c.waiting s.recv.msgId, P pkt.seq.toNat) ↔ ∀ d ∈ ds, P d.pkt.seq.toNat := by
  have hmap := hw.map_seq hv hds
  have hall := List.forall_mem_map (P := P) (l := c.waiting s.recv.msgId)
    (f := fun pkt : GradPacket => pkt.seq.toNat)
  rw [hmap, List.map_map] at hall
  exact hall.symm.trans List.forall_mem_map

/-- If every early datagram has at least eight bytes of payload, the replay is faithful exactly if
the buffer of the loop agrees with all of them behind the pointer. -/
theorem Waits.faithful_iff {vec : List (ℕ × ℕ)} (hw : s.Waits h c₀ ds vec c) (hv : s.Valid)
    (hr : s.Reaches h) (hl : s.Layout h c₀.backlogFreeList) (hds : ∀ d ∈ ds, s.Carries h d.pkt)
    (hlong : ∀ d ∈ ds, 8 ≤ s.packetizer.payloadLen s.sent.size d.pkt.seq.toNat) :
    (s.inLoop h).Faithful ∅ (c.waiting s.recv.msgId) c.mem ↔
      ∀ d ∈ ds, ∀ i, 8 ≤ i → i < s.packetizer.payloadLen s.sent.size d.pkt.seq.toNat →
        c.mem (h.buf + kGradPacketHeader + i) = (s.payload d.pkt.seq.toNat).getD i 0 := by
  have hptr : ∀ pkt ∈ c.waiting s.recv.msgId,
      pkt.gradPtr.toNat = h.buf + kGradPacketHeader := by
    have hall := (List.forall₂_and_left _ _).mpr ⟨hlong, (hw.waiting hv hds).flip⟩
    refine ((List.forall₂_and_left _ ds).mp (hall.flip.imp fun pkt d hpd => ⟨?_, hpd⟩)).1
    rw [hpd.2.2.2 hpd.1, hl.toNat_loopPtr]
  have hout : ∀ i < (s.inLoop h).packetizer.bound,
      h.buf + kGradPacketHeader + i < (s.inLoop h).recv.buf ∨
        (s.inLoop h).recv.buf + (s.inLoop h).recv.size ≤ h.buf + kGradPacketHeader + i := by
    intro i hi
    change i < s.packetizer.maxSegment - kGradPacketHeader at hi
    change _ < s.recv.buf ∨ s.recv.buf + s.recv.size ≤ _
    have := hl.recv_loop
    have := hr.maxSegment_eq
    omega
  rw [(hv.inLoop h).faithful_iff_of_ptr hptr
    (fun pkt hpkt => (hw.carries hv hds pkt hpkt).seq_le) hout]
  have hbyte : ∀ d ∈ ds, (d.pkt.seq.toNat ∉ (∅ : Finset ℕ) →
      ∀ i < s.packetizer.payloadLen s.sent.size d.pkt.seq.toNat,
        c.mem (h.buf + kGradPacketHeader + i) =
          ((s.inLoop h).payload d.pkt.seq.toNat).getD i 0) ↔
      ∀ i, 8 ≤ i → i < s.packetizer.payloadLen s.sent.size d.pkt.seq.toNat →
        c.mem (h.buf + kGradPacketHeader + i) = (s.payload d.pkt.seq.toNat).getD i 0 := by
    intro d hd
    have hlen := hv.payload_length _ (hds d hd).seq_le
    rw [imp_iff_right (Finset.notMem_empty _)]
    constructor
    · intro hall i h8 hi
      rw [hall i hi]
      exact (h.overlay_getD (hlen.symm ▸ hi)).trans (if_neg (Nat.not_lt.mpr h8))
    · intro hall i hi
      refine Eq.trans ?_ (h.overlay_getD (hlen.symm ▸ hi)).symm
      split_ifs with h8
      · exact hw.loop_ptr (List.ne_nil_of_mem hd) i h8
      · exact hall i (Nat.le_of_not_lt h8) hi
  rw [← forall₂_congr hbyte]
  exact hw.forall_seq hv hds fun q => q ∉ (∅ : Finset ℕ) →
    ∀ i < s.packetizer.payloadLen s.sent.size q,
      c.mem (h.buf + kGradPacketHeader + i) = ((s.inLoop h).payload q).getD i 0

theorem Waits.slot_apart {vec : List (ℕ × ℕ)} (hw : s.Waits h c₀ ds vec c)
    (hl : s.Layout h c₀.backlogFreeList) :
    ∀ x ∈ (c.backlogUsedMap.lookup s.recv.msgId).getD [],
      s.recv.buf + s.recv.size ≤ x.1 ∨ x.1 + 28 ≤ s.recv.buf := by
  intro x hx
  rw [hw.used] at hx
  have hmem : x.1 ∈ c₀.backlogFreeList := by
    rw [← hw.free]
    exact List.mem_append_right _ (List.mem_reverse.mpr (List.mem_map_of_mem hx))
  have := hl.recv_slot x.1 hmem
  omega

theorem Waits.takeUp {vec : List (ℕ × ℕ)} (hw : s.Waits h c₀ ds vec c) (hv : s.Valid)
    (hl : s.Layout h c₀.backlogFreeList) (hqueue : c₀.rrQueue = [])
    (hnone : c₀.recvMsgs.lookup s.recv.msgId = none) (hds : ∀ d ∈ ds, s.Carries h d.pkt)
    (target : ℕ) :
    ∃ c' e, (c.postRecv s.recv target).pollReceiveRequest = .ok c' ∧
      c'.recvMsgs.lookup s.recv.msgId = some e ∧
      (s.inLoop h).Counted (seqsOf (ds.map Delivery.pkt)) e ∧
      e.bound = alignUp sizeofFloat target ∧ e.stopped = false ∧
      ((s.inLoop h).Filled c₀.mem (seqsOf (ds.map Delivery.pkt)) c'.mem ↔
        (s.inLoop h).Faithful ∅ (c.waiting s.recv.msgId) c.mem) ∧
      c'.backlogFreeList.Perm c₀.backlogFreeList ∧
      (c'.backlogUsedMap.lookup s.recv.msgId).getD [] = [] ∧
      c'.stopRequests s.recv.msgId = c₀.stopRequests s.recv.msgId := by
  have hcar := hw.carries hv hds
  have hseqs : seqsOf (c.waiting s.recv.msgId) = seqsOf (ds.map Delivery.pkt) :=
    congrArg List.toFinset (hw.map_seq hv hds)
  obtain ⟨c', e, hpoll, hlook, hc, hbound, hstopped, hmem, hfree, hused, hstops⟩ :=
    takeUp_counted (s := s.inLoop h) (hv.inLoop h) (hw.rrQueue_eq.trans hqueue)
      (hw.recvMsgs_eq.symm ▸ hnone) (hw.slot_apart hl) hcar target
  refine ⟨c', e, hpoll, hlook, hseqs ▸ hc, hbound, hstopped, ?_, ?_, hused,
    hstops.trans hw.stopRequests_eq⟩
  · have hiff := hw.filled.replayed_iff (hv.inLoop h) fun pkt hpkt => (hcar pkt hpkt).seq_le
    rw [Finset.union_empty, hseqs] at hiff
    rw [hmem]
    exact hiff
  · change c'.backlogFreeList = c.backlogFreeList ++
      ((c.backlogUsedMap.lookup s.recv.msgId).getD []).map Prod.fst at hfree
    rw [hfree, hw.used, ← hw.free]
    exact (List.reverse_perm _).symm.append_left _

theorem onTime_run (hv : s.Valid) (hr : s.Reaches h) (hl : s.Layout h c.backlogFreeList)
    (hqueue : c.rrQueue = []) (hnone : c.recvMsgs.lookup s.recv.msgId = none)
    (hused : (c.backlogUsedMap.lookup s.recv.msgId).getD [] = [])
    (hds : ∀ d ∈ ds, s.Carries h d.pkt) (target : ℕ) :
    ∃ c' e, ((c.postRecv s.recv target).pollReceiveRequest >>= ds.foldlM (s.handle h)) = .ok c' ∧
      s.OnTime h c (alignUp sizeofFloat target) (seqsOf (ds.map Delivery.pkt)) c' e := by
  have hnil : ∀ d ∈ ([] : List Delivery), s.Carries h d.pkt := by simp
  obtain ⟨c₁, e, hpoll, hlook, hc, hbound, hstopped, hfilled, -, -, hstops⟩ :=
    (Waits.start hused).takeUp hv hl hqueue hnone hnil target
  have hwait : c.waiting s.recv.msgId = [] := by
    rw [Communicator.waiting, hused]
    rfl
  have ht : s.OnTime h c (alignUp sizeofFloat target) ∅ c₁ e := by
    refine ⟨hlook, hc, hbound, ?_, ?_, hfilled.mpr (by rw [hwait]; trivial)⟩
    · simp [hstopped]
    · rw [hstops, hstopped]
      rfl
  obtain ⟨c', e', hrun, ht'⟩ := ht.handleAll hv hr hl hds
  rw [Finset.union_empty] at ht'
  exact ⟨c', e', by rw [hpoll]; exact hrun, ht'⟩

/-- Packets that come before their receive is posted leave the same entry as packets that come
after it, and give their slots back. The receive buffer and the stop are the same exactly if less
than the bound has come early and the payloads are still behind the pointers that were kept. -/
theorem early_as_on_time_iff (s : Shipment) (h : Host) (hv : s.Valid) (hr : s.Reaches h)
    (c : Communicator) (hqueue : c.rrQueue = [])
    (hnone : c.recvMsgs.lookup s.recv.msgId = none)
    (hused : (c.backlogUsedMap.lookup s.recv.msgId).getD [] = [])
    (hl : s.Layout h c.backlogFreeList) (ds : List Delivery)
    (hds : ∀ d ∈ ds, ∃ prio, s.packetizer.Builds s.dest prio s.sent d.pkt)
    (hroom : ds.length ≤ c.backlogFreeList.length) (target : ℕ) :
    ∃ c₁ early onTime e e', ds.foldlM (s.handle h) c = .ok c₁ ∧
      (c₁.postRecv s.recv target).pollReceiveRequest = .ok early ∧
      ((c.postRecv s.recv target).pollReceiveRequest >>= ds.foldlM (s.handle h)) = .ok onTime ∧
      early.recvMsgs.lookup s.recv.msgId = some e ∧
      onTime.recvMsgs.lookup s.recv.msgId = some e' ∧
      e.blockMgr = e'.blockMgr ∧ e.bytes = e'.bytes ∧ e.bound = e'.bound ∧
      early.backlogFreeList.Perm c.backlogFreeList ∧
      (early.backlogUsedMap.lookup s.recv.msgId).getD [] = [] ∧
      (early.mem.read s.recv.buf s.recv.size = onTime.mem.read s.recv.buf s.recv.size ∧
          early.stopRequests s.recv.msgId = onTime.stopRequests s.recv.msgId ↔
        (ds = [] ∨ s.total (seqsOf (ds.map Delivery.pkt)) < alignUp sizeofFloat target) ∧
          (s.inLoop h).Faithful ∅ (c₁.waiting s.recv.msgId) c₁.mem) ∧
      ((∀ d ∈ ds, 8 ≤ s.packetizer.payloadLen s.sent.size d.pkt.seq.toNat) →
        ((s.inLoop h).Faithful ∅ (c₁.waiting s.recv.msgId) c₁.mem ↔
          ∀ d ∈ ds, ∀ i, 8 ≤ i → i < s.packetizer.payloadLen s.sent.size d.pkt.seq.toNat →
            c₁.mem (h.buf + kGradPacketHeader + i) = (s.payload d.pkt.seq.toNat).getD i 0)) := by
  have hcar : ∀ d ∈ ds, s.Carries h d.pkt := by
    intro d hd
    obtain ⟨prio, hbuilds⟩ := hds d hd
    exact hr.carries hv hbuilds
  obtain ⟨vec, c₁, hrun, hw⟩ :=
    (Waits.start hused).handleAll hv hr hl hnone hcar (by simpa using hroom)
  rw [List.nil_append] at hw
  obtain ⟨early, e, hearly, hlook, hc, hbound, -, hfilled, hfree, hused', hstops⟩ :=
    hw.takeUp hv hl hqueue hnone hcar target
  obtain ⟨onTime, e', hontime, ht⟩ := onTime_run hv hr hl hqueue hnone hused hcar target
  refine ⟨c₁, early, onTime, e, e', hrun, hearly, hontime, hlook, ht.posted,
    hc.blockMgr_eq ht.counted, hc.bytes_eq.trans ht.counted.bytes_eq.symm,
    hbound.trans ht.bound_eq.symm, hfree, hused', ?_,
    fun hlong => hw.faithful_iff hv hr hl hcar hlong⟩
  rw [and_comm]
  refine and_congr ?_ ?_
  · -- Only the run on time ever asks the sender to stop.
    have hne : (seqsOf (ds.map Delivery.pkt)).Nonempty ↔ ds ≠ [] := by
      rw [seqsOf, List.toFinset_nonempty_iff]
      simp
    rw [hstops, ht.stopRequests_eq]
    rcases hst : e'.stopped with _ | _
    · have hnot := mt ht.stopped_iff.mpr (by simp [hst])
      rw [hne] at hnot
      refine iff_of_true rfl ?_
      by_contra hcon
      rw [not_or, Nat.not_lt] at hcon
      exact hnot hcon
    · obtain ⟨hnonempty, hle⟩ := ht.stopped_iff.mp hst
      refine iff_of_false (by simp) ?_
      rintro (hnil | hlt)
      · exact hne.mp hnonempty hnil
      · omega
  · -- The run on time has the payloads in the receive buffer, whatever they are.
    rw [← hfilled, Memory.read_eq_read_iff]
    refine forall₂_congr fun i hi => ?_
    have hbyte : onTime.mem (s.recv.buf + i) = _ := ht.filled i hi
    rw [hbyte]
    rfl

def twoPackets : Shipment where
  packetizer := ⟨32, 1⟩
  dest := 2
  sent := ⟨7, 65536, 24, 0⟩
  payload := fun q => List.replicate (Packetizer.payloadLen ⟨32, 1⟩ 24 q) (UInt8.ofNat (q + 1))
  recv := ⟨7, 131072, 24, 0⟩

def twoPacketsHost : Host := ⟨⟨32, 2⟩, 1, fun _ => 0, 4096⟩

def twoPacketsDelivery (q : ℕ) : Delivery :=
  ⟨twoPackets.packetizer.partitionOneBySeq 2 (.new twoPackets.sent) (fun _ => 0) q, 0, none⟩

def twoSlots : Communicator := { Communicator.init with backlogFreeList := [8192, 12288] }

theorem twoPackets_valid : twoPackets.Valid :=
  ⟨⟨by decide, by decide⟩, by decide, by decide, rfl, fun _ _ => List.length_replicate⟩

theorem twoPackets_layout : twoPackets.Layout twoPacketsHost twoSlots.backlogFreeList :=
  ⟨by decide, by decide, by decide, by decide, by decide⟩

theorem twoPackets_builds {q : ℕ} (hq : q ≤ 1) : ∃ prio, twoPackets.packetizer.Builds
    twoPackets.dest prio twoPackets.sent (twoPacketsDelivery q).pkt := by
  have hmax : twoPackets.packetizer.getMaxSeqNum twoPackets.sent.size = 1 := by decide +kernel
  refine ⟨fun _ => 0, ?_⟩
  exact Packetizer.Builds.partitionOneBySeq (.new twoPackets.sent) q rfl (hmax.symm ▸ hq)

theorem early_as_on_time_iff_one :
    ∃ c₁ early onTime, [twoPacketsDelivery 1].foldlM (twoPackets.handle twoPacketsHost) twoSlots =
        .ok c₁ ∧
      (c₁.postRecv twoPackets.recv 24).pollReceiveRequest = .ok early ∧
      ((twoSlots.postRecv twoPackets.recv 24).pollReceiveRequest >>=
        [twoPacketsDelivery 1].foldlM (twoPackets.handle twoPacketsHost)) = .ok onTime ∧
      early.mem.read 131072 24 = onTime.mem.read 131072 24 ∧
      early.stopRequests 7 = onTime.stopRequests 7 := by
  obtain ⟨c₁, early, onTime, e, e', hrun, hearly, honTime, -, -, -, -, -, -, -, hiff, hlong⟩ :=
    early_as_on_time_iff twoPackets twoPacketsHost twoPackets_valid
      ⟨rfl, rfl, by decide +kernel, rfl⟩ twoSlots rfl rfl rfl twoPackets_layout
      [twoPacketsDelivery 1] (by simpa using twoPackets_builds le_rfl) (by decide) 24
  have hloop : ([twoPacketsDelivery 1].foldlM (twoPackets.handle twoPacketsHost) twoSlots).map
      (fun c => c.mem.read 4124 4) = .ok [2, 2, 2, 2] := by decide +kernel
  rw [hrun] at hloop
  have hbytes : c₁.mem.read 4124 4 = Memory.read (fun _ => 2) 4124 4 := Except.ok.inj hloop
  have hfaithful := (hlong (by decide +kernel)).mpr (by
    intro d hd i h8 hi
    obtain rfl := List.mem_singleton.mp hd
    have hseq : (twoPacketsDelivery 1).pkt.seq.toNat = 1 := by decide +kernel
    have hlt : i < 12 := by rwa [hseq] at hi
    have hbyte := Memory.read_eq_read_iff.mp hbytes (i - 8) (by omega)
    rw [show 4124 + (i - 8) = 4096 + kGradPacketHeader + i by
      unfold kGradPacketHeader; omega] at hbyte
    rw [hseq]
    refine hbyte.trans ?_
    show 2 = (List.replicate 12 2).getD i 0
    rw [List.getD_eq_getElem?_getD, List.getElem?_replicate, if_pos hlt, Option.getD_some])
  exact ⟨c₁, early, onTime, hrun, hearly, honTime,
    hiff.mpr ⟨.inr (by decide +kernel), hfaithful⟩⟩

/-- Both packets of a message come early: the receive buffer gets the bytes of the last one twice,
and the sender is not asked to stop. -/
theorem early_packets_differ :
    (([0, 1].map twoPacketsDelivery).foldlM (twoPackets.handle twoPacketsHost) twoSlots >>=
      fun c => (c.postRecv twoPackets.recv 24).pollReceiveRequest).map
        (fun c => (c.mem.read 131072 24, c.stopRequests 7)) =
      .ok ([20, 16, 0, 0, 0, 0, 0, 0, 2, 2, 2, 2, 20, 16, 0, 0, 0, 0, 0, 0, 2, 2, 2, 2], 0) ∧
    ((twoSlots.postRecv twoPackets.recv 24).pollReceiveRequest >>=
      ([0, 1].map twoPacketsDelivery).foldlM (twoPackets.handle twoPacketsHost)).map
        (fun c => (c.mem.read 131072 24, c.stopRequests 7)) =
      .ok ([20, 16, 0, 0, 0, 0, 0, 0, 1, 1, 1, 1, 20, 16, 0, 0, 0, 0, 0, 0, 2, 2, 2, 2], 1) := by
  exact ⟨by decide +kernel, by decide +kernel⟩

end Shipment

end Mlt
