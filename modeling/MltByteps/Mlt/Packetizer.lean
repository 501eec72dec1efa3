import MltByteps.Mlt.LtMessage

/-! The packetizer. A message is cut into packets in three places: by a running
count of the bytes sent, by a loop of its own, and by sequence number. -/

namespace Mlt

structure Packetizer where
  maxSegment : ℕ
  commId : ℤ

abbrev PktPrioFunc := GradPacket → ℤ

namespace Packetizer

def bound (p : Packetizer) : ℕ := p.maxSegment - kGradPacketHeader

/-- `(size + bound - 1) / bound - 1` in `size_t`, returned as a `uint32_t`. -/
@[irreducible] def getMaxSeqNum (p : Packetizer) (size : ℕ) : ℕ :=
  u32 ((size + p.bound - 1) / p.bound + (2 ^ 64 - 1))

/-- `((size - accumulated) > bound ? bound : (size - accumulated)) + kGradPacketHeader` -/
def segmentLen (p : Packetizer) (size accumulated : ℕ) : ℕ :=
  (if p.bound < sub64 size accumulated then p.bound else sub64 size accumulated) + kGradPacketHeader

/-- The packet of the bytes from `accumulated` on, before its `tos` is chosen. -/
def packetAt (p : Packetizer) (dest : ℤ) (msg : LtMessage) (accumulated : ℕ) (seq : UInt32) :
    GradPacket :=
  let len := UInt16.ofNat (p.segmentLen msg.size accumulated)
  { msgId := msg.msgId
    offset := UInt32.ofNat accumulated
    seq := seq
    len := len
    dstCommId := UInt16.ofInt dest
    srcCommId := UInt16.ofInt p.commId
    isLast := if sub64 (accumulated + len.toNat) kGradPacketHeader = msg.size then 1 else 0
    gradPtr := UInt64.ofNat (msg.buf + accumulated)
    tos := 0 }

/-- The loop of `PartitionAndRoute`: each packet with the `is_finished` flag it is routed
with. `tos` stands for the random numbers; `none` if the fuel runs out. -/
def partitionLoop (p : Packetizer) (dest : ℤ) (msg : LtMessage) (tos : ℕ → UInt8) :
    ℕ → ℕ → ℕ → Option (List (GradPacket × Bool))
  | 0, accumulated, _ => if accumulated < msg.size then none else some []
  | fuel + 1, accumulated, seq =>
    if accumulated < msg.size then
      let pkt := (p.packetAt dest msg accumulated (UInt32.ofNat seq)).withTos (tos seq)
      (partitionLoop p dest msg tos fuel
        (sub64 (accumulated + pkt.len.toNat) kGradPacketHeader) (seq + 1)).map
          ((pkt, pkt.isLast == 1) :: ·)
    else some []

def partitionAndRoute (p : Packetizer) (dest : ℤ) (msg : LtMessage) (tos : ℕ → UInt8) (fuel : ℕ) :
    Option (List (GradPacket × Bool)) := p.partitionLoop dest msg tos fuel 0 0

def getBytes (p : Packetizer) (msg : LtMessageExt) : ℕ := p.segmentLen msg.size msg.bytes

def partitionOne (p : Packetizer) (dest : ℤ) (msg : LtMessageExt) (prio : PktPrioFunc) :
    GradPacket × LtMessageExt :=
  let pkt := p.packetAt dest msg.toLtMessage msg.bytes (UInt32.ofNat (msg.bytes / p.bound))
  (pkt.withTos (UInt8.ofInt (prio pkt)),
    { msg with bytes := sub64 (msg.bytes + pkt.len.toNat) kGradPacketHeader })

/-- `seq` is an `int`, multiplied by the bound in `size_t`. -/
def partitionOneBySeq (p : Packetizer) (dest : ℤ) (msg : LtMessageExt) (prio : PktPrioFunc)
    (seq : ℤ) : GradPacket :=
  let pkt := p.packetAt dest msg.toLtMessage ((p.bound * seq) % 2 ^ 64).toNat (UInt32.ofInt seq)
  pkt.withTos (UInt8.ofInt (prio pkt))

/-- `PartitionOne` until `bytes_sent >= size`: what `GetBytes` says before each call, and
the packet the call makes. -/
def partitionAll (p : Packetizer) (dest : ℤ) (prio : PktPrioFunc) :
    ℕ → LtMessageExt → Option (List (ℕ × GradPacket))
  | 0, msg => if msg.bytes < msg.size then none else some []
  | fuel + 1, msg =>
    if msg.bytes < msg.size then
      let (pkt, msg') := p.partitionOne dest msg prio
      (partitionAll p dest prio fuel msg').map ((p.getBytes msg, pkt) :: ·)
    else some []

/-! ## Closed forms -/

/-- The bounds under which the 16-bit length holds every segment and a sequence number
fits an `int`. -/
structure Valid (p : Packetizer) : Prop where
  lo : 22 ≤ p.maxSegment
  hi : p.maxSegment ≤ 65535

variable {p : Packetizer} {size q : ℕ}

theorem Valid.two_le_bound (h : p.Valid) : 2 ≤ p.bound := by
  have := h.lo
  unfold bound kGradPacketHeader
  omega

theorem Valid.bound_le (h : p.Valid) : p.bound + kGradPacketHeader ≤ 65535 := by
  have := h.hi
  have := h.lo
  unfold bound kGradPacketHeader
  omega

/-- The payload bytes of packet `q` of a message of `size` bytes. -/
def payloadLen (p : Packetizer) (size q : ℕ) : ℕ := min p.bound (size - q * p.bound)

theorem getMaxSeqNum_eq (h : p.Valid) (hpos : 0 < size) (hlt : size < 2 ^ 32) :
    p.getMaxSeqNum size = (size - 1) / p.bound := by
  have hb := h.two_le_bound
  have hdiv : (size + p.bound - 1) / p.bound = (size - 1) / p.bound + 1 := by
    rw [show size + p.bound - 1 = size - 1 + p.bound by omega, Nat.add_div_right _ (by omega)]
  have hle : (size - 1) / p.bound ≤ size - 1 := Nat.div_le_self _ _
  unfold getMaxSeqNum u32
  rw [hdiv]
  generalize (size - 1) / p.bound = k at hle ⊢
  omega

theorem le_getMaxSeqNum_iff (h : p.Valid) (hpos : 0 < size) (hlt : size < 2 ^ 32) :
    q ≤ p.getMaxSeqNum size ↔ q * p.bound < size := by
  have hb := h.two_le_bound
  rw [getMaxSeqNum_eq h hpos hlt, Nat.le_div_iff_mul_le (by omega)]
  omega

theorem getMaxSeqNum_lt (h : p.Valid) (hpos : 0 < size) (hlt : size < 2 ^ 32) :
    p.getMaxSeqNum size < 2 ^ 31 := by
  have hb := h.two_le_bound
  have hmul := (le_getMaxSeqNum_iff h hpos hlt).mp le_rfl
  have := Nat.mul_le_mul_left (p.getMaxSeqNum size) hb
  omega

theorem segmentLen_eq (hlt : size < 2 ^ 32) (hq : q * p.bound < size) :
    p.segmentLen size (q * p.bound) = p.payloadLen size q + kGradPacketHeader := by
  rw [segmentLen, sub64_of_le hq.le (by omega), payloadLen]
  split_ifs <;> omega

theorem payloadLen_pos (h : p.Valid) (hq : q * p.bound < size) : 0 < p.payloadLen size q := by
  have := h.two_le_bound
  unfold payloadLen
  omega

theorem payloadLen_le (p : Packetizer) (size q : ℕ) : p.payloadLen size q ≤ p.bound :=
  Nat.min_le_left _ _

theorem add_payloadLen (hq : q * p.bound < size) :
    q * p.bound + p.payloadLen size q = min ((q + 1) * p.bound) size := by
  rw [Nat.succ_mul, payloadLen]
  omega

theorem segment_toNat (h : p.Valid) (hlt : size < 2 ^ 32) (hq : q * p.bound < size) :
    (UInt16.ofNat (p.segmentLen size (q * p.bound))).toNat =
      p.payloadLen size q + kGradPacketHeader := by
  have := p.payloadLen_le size q
  have := h.bound_le
  rw [segmentLen_eq hlt hq, UInt16.toNat_ofNat', Nat.mod_eq_of_lt (by omega)]

theorem segment_end (h : p.Valid) (hlt : size < 2 ^ 32) (hq : q * p.bound < size) :
    sub64 (q * p.bound + (UInt16.ofNat (p.segmentLen size (q * p.bound))).toNat)
      kGradPacketHeader = min ((q + 1) * p.bound) size := by
  have hlen := add_payloadLen hq
  rw [segment_toNat h hlt hq, sub64_of_le (by omega) (by unfold kGradPacketHeader; omega)]
  omega

/-- Packet `q` of a message, before its `tos` is chosen. -/
def packet (p : Packetizer) (dest : ℤ) (msg : LtMessage) (q : ℕ) : GradPacket :=
  p.packetAt dest msg (q * p.bound) (UInt32.ofNat q)

theorem packet_isLast (dest : ℤ) (msg : LtMessage) (q : ℕ) : (p.packet dest msg q).isLast =
    if sub64 (q * p.bound + (UInt16.ofNat (p.segmentLen msg.size (q * p.bound))).toNat)
      kGradPacketHeader = msg.size then 1 else 0 := by
  simp only [packet, packetAt]

/-- What tells packet `q` of a message from the others. -/
structure IsPacket (p : Packetizer) (size q : ℕ) (pkt : GradPacket) : Prop where
  seq_eq : pkt.seq.toNat = q
  offset_eq : pkt.offset.toNat = q * p.bound
  len_eq : pkt.len.toNat = p.payloadLen size q + kGradPacketHeader
  isLast_eq : pkt.isLast = if q = p.getMaxSeqNum size then 1 else 0

theorem IsPacket.gradBytes_eq {pkt : GradPacket} (h : p.IsPacket size q pkt) :
    LtMessageExt.gradBytes pkt = p.payloadLen size q := by
  rw [LtMessageExt.gradBytes_eq (by rw [h.len_eq]; omega), h.len_eq]
  omega

theorem IsPacket.end_le {pkt : GradPacket} (h : p.IsPacket size q pkt) (hlt : size < 2 ^ 32)
    (hq : q * p.bound < size) :
    u32 (pkt.offset.toNat + LtMessageExt.gradBytes pkt) ≤ size := by
  have hend := add_payloadLen hq
  rw [h.gradBytes_eq, h.offset_eq, u32_of_lt (by omega)]
  omega

theorem isPacket_packet (h : p.Valid) (dest : ℤ) {msg : LtMessage} (hlt : msg.size < 2 ^ 32)
    (hq : q * p.bound < msg.size) : p.IsPacket msg.size q (p.packet dest msg q) := by
  have hpos : 0 < msg.size := by omega
  have hmax := (le_getMaxSeqNum_iff h hpos hlt).mpr hq
  have hmlt := getMaxSeqNum_lt h hpos hlt
  have hend : min ((q + 1) * p.bound) msg.size = msg.size ↔ q = p.getMaxSeqNum msg.size := by
    have hnext := le_getMaxSeqNum_iff (q := q + 1) h hpos hlt
    omega
  refine ⟨?_, ?_, segment_toNat h hlt hq, ?_⟩
  · change (UInt32.ofNat q).toNat = q
    rw [UInt32.toNat_ofNat', Nat.mod_eq_of_lt (by omega)]
  · change (UInt32.ofNat (q * p.bound)).toNat = _
    rw [UInt32.toNat_ofNat', Nat.mod_eq_of_lt (by omega)]
  · rw [packet_isLast, segment_end h hlt hq]
    simp only [hend]

theorem partitionOne_eq (h : p.Valid) (dest : ℤ) (msg : LtMessageExt) (prio : PktPrioFunc)
    (hlt : msg.size < 2 ^ 32) (hq : q * p.bound < msg.size) (hbytes : msg.bytes = q * p.bound) :
    p.partitionOne dest msg prio =
      ((p.packet dest msg.toLtMessage q).withTos
          (UInt8.ofInt (prio (p.packet dest msg.toLtMessage q))),
        { msg with bytes := min ((q + 1) * p.bound) msg.size }) := by
  have hb := h.two_le_bound
  unfold partitionOne
  rw [hbytes, Nat.mul_div_cancel _ (by omega)]
  refine Prod.ext rfl ?_
  change { msg with bytes := sub64 _ _ } = _
  rw [show (p.packetAt dest msg.toLtMessage (q * p.bound) (UInt32.ofNat q)).len.toNat =
    (UInt16.ofNat (p.segmentLen msg.size (q * p.bound))).toNat from rfl, segment_end h hlt hq]

theorem partitionOneBySeq_eq (dest : ℤ) (msg : LtMessageExt) (prio : PktPrioFunc)
    (hlt : msg.size < 2 ^ 32) (hq : q * p.bound < msg.size) :
    p.partitionOneBySeq dest msg prio q =
      (p.packet dest msg.toLtMessage q).withTos
        (UInt8.ofInt (prio (p.packet dest msg.toLtMessage q))) := by
  have hoff : (((p.bound : ℤ) * q) % 2 ^ 64).toNat = q * p.bound := by
    rw [← Int.natCast_mul, Nat.mul_comm]
    omega
  have hseq : UInt32.ofInt (q : ℤ) = UInt32.ofNat q := by
    apply UInt32.toNat_inj.mp
    rw [UInt32.ofInt, UInt32.toNat_ofNat', UInt32.toNat_ofNat']
    omega
  unfold partitionOneBySeq
  rw [hoff, hseq]
  rfl

/-! ## The loops -/

section

variable (dest : ℤ) (prio : PktPrioFunc) (tos : ℕ → UInt8)

theorem min_succ_lt_iff (h : p.Valid) (hpos : 0 < size) (hlt : size < 2 ^ 32) :
    min ((q + 1) * p.bound) size < size ↔ q + 1 ≤ p.getMaxSeqNum size := by
  have := le_getMaxSeqNum_iff (q := q + 1) h hpos hlt
  omega

theorem min_succ_eq (h : p.Valid) (hpos : 0 < size) (hlt : size < 2 ^ 32)
    (hq : q + 1 ≤ p.getMaxSeqNum size) : min ((q + 1) * p.bound) size = (q + 1) * p.bound := by
  have := (le_getMaxSeqNum_iff (q := q + 1) h hpos hlt).mp hq
  omega

theorem partitionAll_eq (h : p.Valid) (k q fuel : ℕ) (msg : LtMessageExt) (hpos : 0 < msg.size)
    (hlt : msg.size < 2 ^ 32) (hk : q + k = p.getMaxSeqNum msg.size) (hfuel : k < fuel)
    (hbytes : msg.bytes = q * p.bound) :
    p.partitionAll dest prio fuel msg = some ((List.range' q (k + 1)).map fun j =>
      (p.segmentLen msg.size (j * p.bound), (p.packet dest msg.toLtMessage j).withTos
        (UInt8.ofInt (prio (p.packet dest msg.toLtMessage j))))) := by
  induction k generalizing q fuel msg with
  | zero =>
    obtain ⟨fuel, rfl⟩ := Nat.exists_eq_succ_of_ne_zero (by omega : fuel ≠ 0)
    have hq : q * p.bound < msg.size := (le_getMaxSeqNum_iff h hpos hlt).mp (by omega)
    have hend : ¬ min ((q + 1) * p.bound) msg.size < msg.size := by
      rw [min_succ_lt_iff h hpos hlt]
      omega
    rw [partitionAll, if_pos (by omega), partitionOne_eq h dest msg prio hlt hq hbytes]
    cases fuel <;> simp [partitionAll, hend, getBytes, hbytes]
  | succ k ih =>
    obtain ⟨fuel, rfl⟩ := Nat.exists_eq_succ_of_ne_zero (by omega : fuel ≠ 0)
    have hq : q * p.bound < msg.size := (le_getMaxSeqNum_iff h hpos hlt).mp (by omega)
    have hnext := min_succ_eq h hpos hlt (by omega : q + 1 ≤ p.getMaxSeqNum msg.size)
    rw [partitionAll, if_pos (by omega), partitionOne_eq h dest msg prio hlt hq hbytes]
    dsimp only
    rw [ih (q + 1) fuel { msg with bytes := min ((q + 1) * p.bound) msg.size } hpos hlt
      (by dsimp only; omega) (by omega) hnext, getBytes, hbytes]
    rfl

theorem partitionLoop_succ (h : p.Valid) (fuel : ℕ) (msg : LtMessage) (hlt : msg.size < 2 ^ 32)
    (hq : q * p.bound < msg.size) :
    p.partitionLoop dest msg tos (fuel + 1) (q * p.bound) q =
      (p.partitionLoop dest msg tos fuel (min ((q + 1) * p.bound) msg.size) (q + 1)).map
        (((p.packet dest msg q).withTos (tos q), (p.packet dest msg q).isLast == 1) :: ·) := by
  have hend := segment_end h hlt hq
  rw [partitionLoop, if_pos hq, ← hend]
  rfl

theorem partitionLoop_eq (h : p.Valid) (k q fuel : ℕ) (msg : LtMessage) (hpos : 0 < msg.size)
    (hlt : msg.size < 2 ^ 32) (hk : q + k = p.getMaxSeqNum msg.size) (hfuel : k < fuel) :
    p.partitionLoop dest msg tos fuel (q * p.bound) q =
      some ((List.range' q (k + 1)).map fun j => ((p.packet dest msg j).withTos (tos j),
        (p.packet dest msg j).isLast == 1)) := by
  induction k generalizing q fuel with
  | zero =>
    obtain ⟨fuel, rfl⟩ := Nat.exists_eq_succ_of_ne_zero (by omega : fuel ≠ 0)
    have hq : q * p.bound < msg.size := (le_getMaxSeqNum_iff h hpos hlt).mp (by omega)
    have hend : ¬ min ((q + 1) * p.bound) msg.size < msg.size := by
      rw [min_succ_lt_iff h hpos hlt]
      omega
    rw [partitionLoop_succ dest tos h fuel msg hlt hq]
    cases fuel <;> simp [partitionLoop, hend]
  | succ k ih =>
    obtain ⟨fuel, rfl⟩ := Nat.exists_eq_succ_of_ne_zero (by omega : fuel ≠ 0)
    have hq : q * p.bound < msg.size := (le_getMaxSeqNum_iff h hpos hlt).mp (by omega)
    have hnext := min_succ_eq h hpos hlt (by omega : q + 1 ≤ p.getMaxSeqNum msg.size)
    rw [partitionLoop_succ dest tos h fuel msg hlt hq, hnext,
      ih (q + 1) fuel (by omega) (by omega)]
    rfl

end

theorem flatMap_payload (h : p.Valid) (hpos : 0 < size) (hlt : size < 2 ^ 32) (k q : ℕ)
    (hk : q + k = p.getMaxSeqNum size) :
    ((List.range' q (k + 1)).flatMap fun j => List.range' (j * p.bound) (p.payloadLen size j)) =
      List.range' (q * p.bound) (size - q * p.bound) := by
  have hq : q * p.bound < size := (le_getMaxSeqNum_iff h hpos hlt).mp (by omega)
  have hend := add_payloadLen hq
  induction k generalizing q with
  | zero =>
    have hlast := min_succ_lt_iff (q := q) h hpos hlt
    rw [List.range'_one, List.flatMap_singleton]
    congr 1
    omega
  | succ k ih =>
    have hnext := min_succ_eq h hpos hlt (by omega : q + 1 ≤ p.getMaxSeqNum size)
    have hq' : (q + 1) * p.bound < size := (le_getMaxSeqNum_iff h hpos hlt).mp (by omega)
    rw [List.range'_succ, List.flatMap_cons, ih (q + 1) (by omega) hq' (add_payloadLen hq'),
      ← hnext, ← hend, List.range'_append_1]
    congr 1
    omega

theorem isPacket_of_mem_range (h : p.Valid) (dest : ℤ) {msg : LtMessage} (hpos : 0 < msg.size)
    (hlt : msg.size < 2 ^ 32) (hq : q ∈ List.range' 0 (p.getMaxSeqNum msg.size + 1)) :
    q * p.bound < msg.size ∧ p.IsPacket msg.size q (p.packet dest msg q) := by
  rw [List.mem_range'_1] at hq
  have hq' := (le_getMaxSeqNum_iff h hpos hlt).mp (by omega : q ≤ p.getMaxSeqNum msg.size)
  exact ⟨hq', isPacket_packet h dest hlt hq'⟩

theorem packets_tile (h : p.Valid) (dest : ℤ) {msg : LtMessage} (hpos : 0 < msg.size)
    (hlt : msg.size < 2 ^ 32) :
    ((List.range' 0 (p.getMaxSeqNum msg.size + 1)).flatMap fun q =>
      List.range' (p.packet dest msg q).offset.toNat
        ((p.packet dest msg q).len.toNat - kGradPacketHeader)) = List.range msg.size := by
  have htile := flatMap_payload h hpos hlt (p.getMaxSeqNum msg.size) 0 (by omega)
  rw [Nat.zero_mul, Nat.sub_zero, ← List.range_eq_range' (n := msg.size)] at htile
  rw [← htile]
  apply List.flatMap_congr
  intro q hq
  have hp := (isPacket_of_mem_range h dest hpos hlt hq).2
  rw [hp.offset_eq, hp.len_eq, Nat.add_sub_cancel]

theorem packets_isLast (h : p.Valid) (dest : ℤ) {msg : LtMessage} (hpos : 0 < msg.size)
    (hlt : msg.size < 2 ^ 32) :
    ((List.range' 0 (p.getMaxSeqNum msg.size + 1)).map fun q => (p.packet dest msg q).isLast) =
      List.replicate (p.getMaxSeqNum msg.size) 0 ++ [1] := by
  have hlast : ∀ q ∈ List.range' 0 (p.getMaxSeqNum msg.size + 1), (p.packet dest msg q).isLast =
      if q = p.getMaxSeqNum msg.size then 1 else 0 :=
    fun q hq => (isPacket_of_mem_range h dest hpos hlt hq).2.isLast_eq
  rw [List.map_congr_left hlast]
  generalize p.getMaxSeqNum msg.size = k
  rw [List.range'_concat, List.map_append, Nat.zero_add, Nat.one_mul, List.map_singleton,
    if_pos rfl]
  refine congrArg (· ++ [1]) (List.eq_replicate_iff.mpr ⟨by simp, ?_⟩)
  intro b hb
  obtain ⟨q, hq, rfl⟩ := List.mem_map.mp hb
  rw [List.mem_range'_1] at hq
  exact if_neg (by omega)

/-- The three ways to cut a message make the same packets, and these tile it. -/
theorem packetizers_agree (p : Packetizer) (h : p.Valid) (dest : ℤ) (msg : LtMessage)
    (prio : PktPrioFunc) (tos : ℕ → UInt8) (hpos : 0 < msg.size) (hlt : msg.size < 2 ^ 32) :
    ∃ sent routed,
      (∀ fuel, msg.size ≤ fuel → p.partitionAll dest prio fuel (.new msg) = some sent) ∧
      (∀ fuel, msg.size ≤ fuel → p.partitionAndRoute dest msg tos fuel = some routed) ∧
      (sent.map fun x => x.2.withTos 0) = (routed.map fun x => x.1.withTos 0) ∧
      (sent.map fun x => x.2.withTos 0) = ((List.range (p.getMaxSeqNum msg.size + 1)).map
        fun q : ℕ => (p.partitionOneBySeq dest (.new msg) prio q).withTos 0) ∧
      (sent.flatMap fun x => List.range' x.2.offset.toNat (x.2.len.toNat - kGradPacketHeader)) =
        List.range msg.size ∧
      (∀ x ∈ sent, 0 < x.2.len.toNat - kGradPacketHeader ∧
        x.2.len.toNat - kGradPacketHeader ≤ p.maxSegment - kGradPacketHeader) ∧
      (sent.map fun x => x.2.isLast) = List.replicate (p.getMaxSeqNum msg.size) 0 ++ [1] ∧
      ∀ x ∈ sent, x.1 = x.2.len.toNat := by
  have hfuel : ∀ fuel, msg.size ≤ fuel → p.getMaxSeqNum msg.size < fuel := by
    intro fuel hle
    have := getMaxSeqNum_eq h hpos hlt
    have := Nat.div_le_self (msg.size - 1) p.bound
    omega
  have hsent := fun fuel (hle : msg.size ≤ fuel) =>
    partitionAll_eq dest prio h (p.getMaxSeqNum msg.size) 0 fuel (.new msg) hpos hlt
      (Nat.zero_add _) (hfuel fuel hle) (Nat.zero_mul _).symm
  have hrouted := fun fuel (hle : msg.size ≤ fuel) =>
    partitionLoop_eq dest tos h (p.getMaxSeqNum msg.size) 0 fuel msg hpos hlt (Nat.zero_add _)
      (hfuel fuel hle)
  rw [Nat.zero_mul] at hrouted
  simp only [LtMessageExt.toLtMessage_new] at hsent
  refine ⟨_, _, hsent, hrouted, ?_, ?_, ?_, ?_, ?_, ?_⟩
  · simp only [List.map_map, Function.comp_def, GradPacket.withTos_withTos]
  · rw [List.range_eq_range', List.map_map]
    apply List.map_congr_left
    intro q hq
    have hq' := (isPacket_of_mem_range h dest hpos hlt hq).1
    rw [partitionOneBySeq_eq dest (.new msg) prio hlt hq', LtMessageExt.toLtMessage_new]
    simp only [Function.comp_apply, GradPacket.withTos_withTos]
  · rw [List.flatMap_map]
    simp only [GradPacket.withTos_offset, GradPacket.withTos_len]
    exact packets_tile h dest hpos hlt
  · intro x hx
    obtain ⟨q, hq, rfl⟩ := List.mem_map.mp hx
    obtain ⟨hlt', hp⟩ := isPacket_of_mem_range h dest hpos hlt hq
    simp only [GradPacket.withTos_len]
    rw [hp.len_eq, Nat.add_sub_cancel]
    exact ⟨payloadLen_pos h hlt', payloadLen_le p _ _⟩
  · rw [List.map_map]
    simp only [Function.comp_def, GradPacket.withTos_isLast]
    exact packets_isLast h dest hpos hlt
  · intro x hx
    obtain ⟨q, hq, rfl⟩ := List.mem_map.mp hx
    obtain ⟨hlt', hp⟩ := isPacket_of_mem_range h dest hpos hlt hq
    simp only [GradPacket.withTos_len]
    rw [segmentLen_eq hlt hlt', hp.len_eq]

theorem packetizers_agree_five :
    ∃ sent,
      (⟨22, 1⟩ : Packetizer).partitionAll 2 (fun _ => 0) 5 (.new ⟨7, 4096, 5, 0⟩) = some sent ∧
      (sent.map fun x => x.2.isLast) = [0, 0, 1] := by
  obtain ⟨sent, routed, hsent, -, -, -, -, -, hlast, -⟩ :=
    packetizers_agree ⟨22, 1⟩ ⟨by decide, by decide⟩ 2 ⟨7, 4096, 5, 0⟩ (fun _ => 0) (fun _ => 0)
      (by decide) (by decide)
  rw [getMaxSeqNum_eq ⟨by decide, by decide⟩ (by decide) (by decide)] at hlast
  exact ⟨sent, hsent 5 (by decide), hlast⟩

end Packetizer

end Mlt
