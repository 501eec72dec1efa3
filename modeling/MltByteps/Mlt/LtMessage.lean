import MltByteps.Mlt.TreeBlockMgr
import MltByteps.Mlt.GradPacket

/-! Loss-tolerant messages, flow ids and the signals of the reliable channel. -/

namespace Mlt
open LittleEndian

/-! ## Flow ids -/

/-- `(static_cast<FlowId>(dest) << 32) + msg_id`, where `msg_id` is an `int` and is sign
extended before the sum. -/
def encodeFlow (dest msgId : ℤ) : ℕ :=
  (((dest % 2 ^ 64 * 2 ^ 32) % 2 ^ 64 + msgId % 2 ^ 64) % 2 ^ 64).toNat

def decodeFlow (flowId : ℕ) : ℤ × ℤ := (toInt32 (flowId / 2 ^ 32), toInt32 (flowId % 2 ^ 32))

/-- A message id as the `int` that the signals and the maps hold it as. -/
def msgInt (m : UInt32) : ℤ := toInt32 m.toNat

theorem ofInt_msgInt (m : UInt32) : UInt32.ofInt (msgInt m) = m := by
  have h := m.toNat_lt
  apply UInt32.toNat_inj.mp
  rw [UInt32.ofInt, UInt32.toNat_ofNat']
  unfold msgInt toInt32
  split_ifs <;> omega

theorem decodeFlow_snd (dest : ℤ) (m : UInt32) :
    (decodeFlow (encodeFlow dest (msgInt m))).2 = msgInt m := by
  have h := m.toNat_lt
  simp only [decodeFlow, encodeFlow, msgInt, toInt32]
  split_ifs <;> omega

theorem decodeFlow_fst {dest : ℤ} (hlo : -2 ^ 31 ≤ dest) (hhi : dest < 2 ^ 31) {m : UInt32}
    (hm : m.toNat < 2 ^ 31) : (decodeFlow (encodeFlow dest (msgInt m))).1 = dest := by
  simp only [decodeFlow, encodeFlow, msgInt, toInt32]
  split_ifs <;> omega

/-- The sign extension of an id from `2^31` on borrows from the destination. -/
theorem decodeFlow_fst_ne (dest : ℤ) {m : UInt32}
    (hm : 2 ^ 31 ≤ m.toNat) : (decodeFlow (encodeFlow dest (msgInt m))).1 ≠ dest := by
  have h := m.toNat_lt
  simp only [decodeFlow, encodeFlow, msgInt, toInt32]
  split_ifs <;> omega

/-! ## Messages -/

/-- `use` counts the postings of one id. The program does not read it. -/
structure LtMessage where
  msgId : UInt32
  buf : ℕ
  size : ℕ
  use : ℕ
deriving DecidableEq, Repr

/-- `bytes` is the union of `bytes_received` and `bytes_sent`. -/
structure LtMessageExt extends LtMessage where
  bytes : ℕ
  bound : ℕ
  stopped : Bool
  blockMgr : TreeBlockMgr
deriving DecidableEq, Repr

def LtMessageExt.new (m : LtMessage) : LtMessageExt :=
  { m with bytes := 0, bound := m.size, stopped := false, blockMgr := .new 0 }

@[simp] theorem LtMessageExt.toLtMessage_new (m : LtMessage) : (new m).toLtMessage = m := rfl

namespace TreeBlockMgr

/-- `if (seq >= Size()) Resize(seq + 1)`, with the sum taken in 32 bits. -/
def growTo (t : TreeBlockMgr) (seq : ℕ) : Except Fault TreeBlockMgr :=
  if t.size ≤ seq then t.resize (u32 (seq + 1)) else pure t

def Holds (t : TreeBlockMgr) (taken : Finset ℕ) : Prop := t.Rep taken ∨ t = new 0 ∧ taken = ∅

variable {t : TreeBlockMgr} {taken : Finset ℕ}

theorem Holds.growTo (h : t.Holds taken) {seq : ℕ} (hseq : seq + 1 < 2 ^ 32) :
    ∃ t', t.growTo seq = .ok t' ∧ t'.Rep taken ∧ t'.size = max t.size (seq + 1) := by
  unfold TreeBlockMgr.growTo
  rw [u32_of_lt hseq]
  rcases h with h | ⟨rfl, rfl⟩
  · split_ifs with hle
    · obtain ⟨t', ht', hsize, hrep⟩ := h.resize (by omega : t.size < seq + 1) hseq
      exact ⟨t', ht', hrep, by omega⟩
    · exact ⟨t, rfl, h, by omega⟩
  · have hsize : (new 0).size = 0 := rfl
    have hu : u32 (seq + 1) = seq + 1 := u32_of_lt hseq
    refine ⟨new (seq + 1), ?_, new_rep (by omega), ?_⟩
    · rw [if_pos (by omega), new_zero_resize (by omega)]
    · rw [hsize]
      exact hu.trans (by omega)

end TreeBlockMgr

namespace LtMessageExt

/-- `pkt->len - kGradPacketHeader`, an `int` stored in a `uint32_t`. -/
def gradBytes (pkt : GradPacket) : ℕ :=
  (((pkt.len.toNat : ℤ) - kGradPacketHeader) % 2 ^ 32).toNat

def copyGradients (e : LtMessageExt) (pkt : GradPacket) (mem : Memory) :
    Except Fault (ℕ × LtMessageExt × Memory) := do
  let seq := pkt.seq.toNat
  let mgr ← e.blockMgr.growTo seq
  if mgr.check seq then
    return (0, { e with blockMgr := mgr }, mem)
  let mgr ← mgr.take seq
  require .copyGradients (u32 (pkt.offset.toNat + gradBytes pkt) ≤ e.size)
  return (gradBytes pkt, { e with blockMgr := mgr, bytes := e.bytes + gradBytes pkt },
    mem.copy (e.buf + pkt.offset.toNat) pkt.gradPtr.toNat (gradBytes pkt))

def finishReceiving (e : LtMessageExt) : Bool := e.bound ≤ e.bytes

theorem gradBytes_eq {pkt : GradPacket} (h : kGradPacketHeader ≤ pkt.len.toNat) :
    gradBytes pkt = pkt.len.toNat - kGradPacketHeader := by
  have := pkt.len.toNat_lt
  unfold gradBytes
  omega

variable {e : LtMessageExt} {pkt : GradPacket} {taken : Finset ℕ}

theorem copyGradients_taken (h : e.blockMgr.Holds taken) (mem : Memory)
    (hseq : pkt.seq.toNat + 1 < 2 ^ 32) (hmem : pkt.seq.toNat ∈ taken) :
    ∃ mgr : TreeBlockMgr, mgr.Rep taken ∧ mgr.size = max e.blockMgr.size (pkt.seq.toNat + 1) ∧
      e.copyGradients pkt mem = .ok (0, { e with blockMgr := mgr }, mem) := by
  obtain ⟨mgr, hgrow, hrep, hsize⟩ := h.growTo hseq
  refine ⟨mgr, hrep, hsize, ?_⟩
  unfold copyGradients
  dsimp only
  rw [hgrow, ok_bind, if_pos ((hrep.check_iff (by omega)).mpr hmem)]
  rfl

theorem copyGradients_fresh (h : e.blockMgr.Holds taken) (mem : Memory)
    (hseq : pkt.seq.toNat + 1 < 2 ^ 32) (hmem : pkt.seq.toNat ∉ taken)
    (hfit : u32 (pkt.offset.toNat + gradBytes pkt) ≤ e.size) :
    ∃ mgr : TreeBlockMgr, mgr.Rep (insert pkt.seq.toNat taken) ∧
      mgr.size = max e.blockMgr.size (pkt.seq.toNat + 1) ∧
      e.copyGradients pkt mem = .ok (gradBytes pkt,
        { e with blockMgr := mgr, bytes := e.bytes + gradBytes pkt },
        mem.copy (e.buf + pkt.offset.toNat) pkt.gradPtr.toNat (gradBytes pkt)) := by
  obtain ⟨mgr, hgrow, hrep, hsize⟩ := h.growTo hseq
  have hlt : pkt.seq.toNat < mgr.size := by omega
  obtain ⟨mgr', htake, hsize', hrep'⟩ := hrep.take hlt hmem
  refine ⟨mgr', hrep', hsize'.trans hsize, ?_⟩
  unfold copyGradients
  dsimp only
  rw [hgrow, ok_bind, if_neg (by rw [hrep.check_iff hlt]; exact hmem), htake, ok_bind,
    require_bind _ hfit]
  rfl

end LtMessageExt

/-! ## Signals -/

/-- `payload` is what the buffer holds behind the header, `blocks[0]` on. -/
structure RetransmitRequest where
  msgId : UInt32
  commId : ℤ
  numBlocks : ℕ
  payload : List UInt8
deriving DecidableEq, Repr

/-- `blocks[i]`, if it lies inside the buffer. -/
def RetransmitRequest.block (req : RetransmitRequest) (i : ℕ) : Except Fault Block := do
  require .outOfBounds ((i + 1) * sizeofBlock ≤ req.payload.length)
  let bytes := req.payload.drop (i * sizeofBlock)
  return ⟨ofLeBytes (bytes.take 4), ofLeBytes ((bytes.drop 4).take 4)⟩

inductive Signal where
  | userData (payload : List UInt8)
  | flowStart (msgId : UInt32) (flowSize maxSeqNum : ℕ)
  | rateAdjustment (sendingRate : UInt32)
  | flowFinish (msgId : UInt32)
  | retransmitRequest (req : RetransmitRequest)
  | stopRequest (msgId : UInt32) (commId : ℤ)
  | stopConfirm (msgId : UInt32)
deriving DecidableEq, Repr

end Mlt
