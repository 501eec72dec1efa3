import MltByteps.Mlt.Basic

/-! The gradient packet: a packed struct of 28 bytes in memory, of which the first
20 travel ahead of the payload. The receiver lays the same struct over the datagram. -/

namespace Mlt
open LittleEndian

def kGradPacketHeader : ℕ := 20

structure GradPacket where
  msgId : UInt32
  offset : UInt32
  seq : UInt32
  len : UInt16
  dstCommId : UInt16
  srcCommId : UInt16
  tos : UInt8
  isLast : UInt8
  gradPtr : UInt64
deriving DecidableEq, Repr

namespace GradPacket

def header (pkt : GradPacket) : List UInt8 :=
  leBytes 4 pkt.msgId.toNat ++ leBytes 4 pkt.offset.toNat ++ leBytes 4 pkt.seq.toNat ++
    leBytes 2 pkt.len.toNat ++ leBytes 2 pkt.dstCommId.toNat ++ leBytes 2 pkt.srcCommId.toNat ++
    [pkt.tos, pkt.isLast]

@[simp] theorem length_header (pkt : GradPacket) : pkt.header.length = kGradPacketHeader := rfl

def withTos (pkt : GradPacket) (tos : UInt8) : GradPacket := { pkt with tos }

section

variable (pkt : GradPacket) (tos : UInt8)

@[simp] theorem withTos_msgId : (pkt.withTos tos).msgId = pkt.msgId := rfl

@[simp] theorem withTos_offset : (pkt.withTos tos).offset = pkt.offset := rfl

@[simp] theorem withTos_seq : (pkt.withTos tos).seq = pkt.seq := rfl

@[simp] theorem withTos_len : (pkt.withTos tos).len = pkt.len := rfl

@[simp] theorem withTos_dstCommId : (pkt.withTos tos).dstCommId = pkt.dstCommId := rfl

@[simp] theorem withTos_srcCommId : (pkt.withTos tos).srcCommId = pkt.srcCommId := rfl

@[simp] theorem withTos_isLast : (pkt.withTos tos).isLast = pkt.isLast := rfl

@[simp] theorem withTos_gradPtr : (pkt.withTos tos).gradPtr = pkt.gradPtr := rfl

@[simp] theorem withTos_withTos (tos' : UInt8) :
    (pkt.withTos tos).withTos tos' = pkt.withTos tos' := rfl

end

/-- The packet that lies at address `a`. -/
def ofMemory (m : Memory) (a : ℕ) : GradPacket where
  msgId := UInt32.ofNat (ofLeBytes (m.read a 4))
  offset := UInt32.ofNat (ofLeBytes (m.read (a + 4) 4))
  seq := UInt32.ofNat (ofLeBytes (m.read (a + 8) 4))
  len := UInt16.ofNat (ofLeBytes (m.read (a + 12) 2))
  dstCommId := UInt16.ofNat (ofLeBytes (m.read (a + 14) 2))
  srcCommId := UInt16.ofNat (ofLeBytes (m.read (a + 16) 2))
  tos := m (a + 18)
  isLast := m (a + 19)
  gradPtr := UInt64.ofNat (ofLeBytes (m.read (a + 20) 8))

theorem ofNat_ofLeBytes_u32 (x : UInt32) : UInt32.ofNat (ofLeBytes (leBytes 4 x.toNat)) = x := by
  rw [ofLeBytes_leBytes_of_lt (by simpa using x.toNat_lt), UInt32.ofNat_toNat]

theorem ofNat_ofLeBytes_u16 (x : UInt16) : UInt16.ofNat (ofLeBytes (leBytes 2 x.toNat)) = x := by
  rw [ofLeBytes_leBytes_of_lt (by simpa using x.toNat_lt), UInt16.ofNat_toNat]

theorem ofMemory_of_header {m : Memory} {a : ℕ} (pkt : GradPacket)
    (h : m.read a kGradPacketHeader = pkt.header) :
    ofMemory m a = { pkt with gradPtr := UInt64.ofNat (ofLeBytes (m.read (a + 20) 8)) } := by
  have hsub : ∀ k j, k + j ≤ kGradPacketHeader → m.read (a + k) j = (pkt.header.drop k).take j :=
    fun k j hk => by rw [← h, Memory.read_sub _ _ _ _ _ hk]
  have h0 : m.read a 4 = leBytes 4 pkt.msgId.toNat := hsub 0 4 (by decide)
  have h4 : m.read (a + 4) 4 = leBytes 4 pkt.offset.toNat := hsub 4 4 (by decide)
  have h8 : m.read (a + 8) 4 = leBytes 4 pkt.seq.toNat := hsub 8 4 (by decide)
  have h12 : m.read (a + 12) 2 = leBytes 2 pkt.len.toNat := hsub 12 2 (by decide)
  have h14 : m.read (a + 14) 2 = leBytes 2 pkt.dstCommId.toNat := hsub 14 2 (by decide)
  have h16 : m.read (a + 16) 2 = leBytes 2 pkt.srcCommId.toNat := hsub 16 2 (by decide)
  have h18 : [m (a + 18)] = [pkt.tos] := hsub 18 1 (by decide)
  have h19 : [m (a + 19)] = [pkt.isLast] := hsub 19 1 (by decide)
  unfold ofMemory
  rw [h0, h4, h8, h12, h14, h16, List.singleton_inj.mp h18, List.singleton_inj.mp h19]
  simp only [ofNat_ofLeBytes_u32, ofNat_ofLeBytes_u16]

theorem ofMemory_congr {m m' : Memory} {a : ℕ} (h : ∀ i < 28, m (a + i) = m' (a + i)) :
    ofMemory m a = ofMemory m' a := by
  have hread : ∀ k n, k + n ≤ 28 → m.read (a + k) n = m'.read (a + k) n := by
    intro k n hk
    refine Memory.read_congr fun i hi => ?_
    rw [Nat.add_assoc]
    exact h (k + i) (by omega)
  unfold ofMemory
  rw [hread 4 4 (by decide), hread 8 4 (by decide), hread 12 2 (by decide),
    hread 14 2 (by decide), hread 16 2 (by decide), hread 20 8 (by decide), h 18 (by decide),
    h 19 (by decide), show m.read a 4 = m'.read a 4 from hread 0 4 (by decide)]

end GradPacket

end Mlt
