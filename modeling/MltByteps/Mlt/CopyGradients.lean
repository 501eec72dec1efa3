import MltByteps.Mlt.Wire
import Mathlib.Algebra.Order.BigOperators.Group.Finset
import Mathlib.Data.Rat.Floor

/-! `CopyGradients` over the packets of a message in any order, and over headers that nobody
vouches for. -/

namespace Mlt
open Communicator

namespace TreeBlockMgr

variable {t t' : TreeBlockMgr} {taken : Finset ℕ} {seq : ℕ}

theorem Rep.eq_of_size_eq (h : t.Rep taken) (h' : t'.Rep taken) (hsize : t.size = t'.size) :
    t = t' := by
  have htree : t.tree = t'.tree := by
    refine h.separated.eq_of_covers_iff h'.separated ?_ fun x => ?_
    · rintro ⟨a, b⟩ ⟨c, d⟩ hfirst hlast
      exact congrArg₂ Block.mk hfirst hlast
    · rw [h.covers_iff, h'.covers_iff, hsize]
  have hused : t.used = t'.used := h.used_eq.trans h'.used_eq.symm
  cases t
  cases t'
  simp only [mk.injEq]
  exact ⟨hsize, hused, htree⟩

theorem Holds.eq_of_size_eq (h : t.Holds taken) (h' : t'.Holds taken)
    (hsize : t.size = t'.size) : t = t' := by
  have hzero : (new 0).size = 0 := rfl
  rcases h with h | ⟨rfl, rfl⟩ <;> rcases h' with h' | ⟨rfl, -⟩
  · exact h.eq_of_size_eq h' hsize
  · have := h.size_pos
    omega
  · have := h'.size_pos
    omega
  · rfl

theorem growTo_of_lt (h : seq < t.size) : t.growTo seq = .ok t := by
  rw [growTo, if_neg (Nat.not_le.mpr h)]
  rfl

end TreeBlockMgr

namespace LtMessageExt

theorem copyGradients_repeat {e : LtMessageExt} {pkt : GradPacket} {taken : Finset ℕ}
    (h : e.blockMgr.Holds taken) (hmem : pkt.seq.toNat ∈ taken) (mem : Memory) :
    e.copyGradients pkt mem = .ok (0, e, mem) := by
  have hrep : e.blockMgr.Rep taken := by
    rcases h with h | ⟨-, rfl⟩
    · exact h
    · simp at hmem
  have hlt := hrep.taken_lt _ hmem
  unfold copyGradients
  dsimp only
  rw [TreeBlockMgr.growTo_of_lt hlt, ok_bind, if_pos ((hrep.check_iff hlt).mpr hmem)]
  rfl

end LtMessageExt

/-! ## Packets of one message in any order -/

/-- A packet as `CopyGradients` finds it: `payload` are the bytes behind its `grad_ptr`. -/
structure Arrival where
  pkt : GradPacket
  payload : List UInt8

def LtMessageExt.receive (r : LtMessageExt × Memory) (a : Arrival) :
    Except Fault (LtMessageExt × Memory) := do
  let (_, e, mem) ← r.1.copyGradients a.pkt (r.2.write a.pkt.gradPtr.toNat a.payload)
  return (e, mem)

/-- A message on its way: how it is cut into packets, the message at the sender, what the packets
carry, and the buffer it is received into. -/
structure Shipment where
  packetizer : Packetizer
  dest : ℤ
  sent : LtMessage
  payload : ℕ → List UInt8
  recv : LtMessage

namespace Shipment

def maxSeq (s : Shipment) : ℕ := s.packetizer.getMaxSeqNum s.sent.size

structure Valid (s : Shipment) : Prop where
  packetizer : s.packetizer.Valid
  size_pos : 0 < s.sent.size
  size_lt : s.sent.size < 2 ^ 32
  recv_size : s.recv.size = s.sent.size
  payload_length : ∀ q ≤ s.maxSeq, (s.payload q).length = s.packetizer.payloadLen s.sent.size q

/-- A packet that the packetizer makes of the message, with a `grad_ptr` to its payload outside
the receive buffer. -/
structure Arrives (s : Shipment) (a : Arrival) : Prop where
  built : ∃ prio pkt, s.packetizer.Builds s.dest prio s.sent pkt ∧
    a.pkt = { pkt with gradPtr := a.pkt.gradPtr }
  payload_eq : a.payload = s.payload a.pkt.seq.toNat
  apart : a.pkt.gradPtr.toNat + a.payload.length ≤ s.recv.buf ∨
    s.recv.buf + s.recv.size ≤ a.pkt.gradPtr.toNat

def seqs (as : List Arrival) : Finset ℕ := (as.map fun a => a.pkt.seq.toNat).toFinset

def total (s : Shipment) (taken : Finset ℕ) : ℕ :=
  ∑ q ∈ taken, s.packetizer.payloadLen s.sent.size q

/-- The byte `i` of the receive buffer after the packets `taken`. -/
def contentAt (s : Shipment) (mem₀ : Memory) (taken : Finset ℕ) (i : ℕ) : UInt8 :=
  if i / s.packetizer.bound ∈ taken then
    (s.payload (i / s.packetizer.bound)).getD (i % s.packetizer.bound) 0
  else mem₀ (s.recv.buf + i)

/-- The receive buffer after the packets `taken`, if it had the memory `mem₀` before. -/
def Filled (s : Shipment) (mem₀ : Memory) (taken : Finset ℕ) (mem : Memory) : Prop :=
  ∀ i < s.recv.size, mem (s.recv.buf + i) = s.contentAt mem₀ taken i

/-- The entry of the receive after the packets `taken`. -/
structure Counted (s : Shipment) (taken : Finset ℕ) (e : LtMessageExt) : Prop where
  message : e.toLtMessage = s.recv
  holds : e.blockMgr.Holds taken
  size_le_iff : ∀ n, e.blockMgr.size ≤ n ↔ ∀ q ∈ taken, q < n
  bytes_eq : e.bytes = s.total taken
  taken_le : ∀ q ∈ taken, q ≤ s.maxSeq

variable {s : Shipment} {a : Arrival} {e e' : LtMessageExt} {mem mem₀ : Memory} {taken : Finset ℕ}
  {q : ℕ} {pkt : GradPacket}

theorem Valid.maxSeq_lt (hv : s.Valid) : s.maxSeq < 2 ^ 31 :=
  Packetizer.getMaxSeqNum_lt hv.packetizer hv.size_pos hv.size_lt

theorem Valid.le_maxSeq_iff (hv : s.Valid) :
    q ≤ s.maxSeq ↔ q * s.packetizer.bound < s.sent.size :=
  Packetizer.le_getMaxSeqNum_iff hv.packetizer hv.size_pos hv.size_lt

theorem Valid.div_bound_iff (hv : s.Valid) {i : ℕ} (hi : i < s.recv.size) :
    i / s.packetizer.bound = q ↔ q * s.packetizer.bound ≤ i ∧
      i < q * s.packetizer.bound + s.packetizer.payloadLen s.sent.size q := by
  have hb := hv.packetizer.two_le_bound
  have hsize := hv.recv_size
  rw [Nat.div_eq_iff (by omega), Packetizer.payloadLen]
  omega

theorem Valid.total_of_all (hv : s.Valid) (hall : ∀ q, q ∈ taken ↔ q ≤ s.maxSeq) :
    s.total taken = s.sent.size :=
  Packetizer.sum_payloadLen_of_all hv.packetizer hv.size_pos hv.size_lt hall

theorem counted_start (hmsg : e.toLtMessage = s.recv) (hmgr : e.blockMgr = .new 0)
    (hbytes : e.bytes = 0) : s.Counted ∅ e := by
  refine ⟨hmsg, .inr ⟨hmgr, rfl⟩, fun n => ?_, hbytes, fun q hq => by simp at hq⟩
  rw [hmgr]
  exact iff_of_true (Nat.zero_le n) fun q hq => by simp at hq

theorem Counted.withFlags (h : s.Counted taken e) (bound : ℕ) (stopped : Bool) :
    s.Counted taken { e with bound, stopped } :=
  ⟨h.message, h.holds, h.size_le_iff, h.bytes_eq, h.taken_le⟩

theorem filled_start (s : Shipment) (mem₀ : Memory) : s.Filled mem₀ ∅ mem₀ := by
  intro i _
  rw [contentAt, if_neg (Finset.notMem_empty _)]

theorem Counted.blockMgr_eq (h : s.Counted taken e) (h' : s.Counted taken e') :
    e.blockMgr = e'.blockMgr := by
  apply h.holds.eq_of_size_eq h'.holds
  apply Nat.le_antisymm
  · exact (h.size_le_iff _).mpr ((h'.size_le_iff _).mp le_rfl)
  · exact (h'.size_le_iff _).mpr ((h.size_le_iff _).mp le_rfl)

theorem Counted.unique (h : s.Counted taken e) (h' : s.Counted taken e')
    (hbound : e.bound = e'.bound) (hstopped : e.stopped = e'.stopped) : e = e' := by
  have hmgr := h.blockMgr_eq h'
  have hbytes := h.bytes_eq.trans h'.bytes_eq.symm
  have hmsg := h.message.trans h'.message.symm
  cases e
  cases e'
  simp only [LtMessageExt.mk.injEq]
  exact ⟨hmsg, hbytes, hbound, hstopped, hmgr⟩

theorem Counted.bytes_le (h : s.Counted taken e) (hv : s.Valid) : e.bytes ≤ s.sent.size := by
  have hall : ∀ q, q ∈ Finset.range (s.maxSeq + 1) ↔ q ≤ s.maxSeq := fun q =>
    Finset.mem_range.trans Nat.lt_succ_iff
  rw [h.bytes_eq, ← hv.total_of_all hall]
  exact Finset.sum_le_sum_of_subset fun q hq => (hall q).mpr (h.taken_le q hq)

/-- `CopyGradients` of packet `q`, wherever its `grad_ptr` leads. -/
theorem Counted.copyGradients (h : s.Counted taken e) (hv : s.Valid) (hq : q ≤ s.maxSeq)
    (hpkt : s.packetizer.IsPacket s.sent.size q pkt) (mem : Memory) :
    ∃ e', s.Counted (insert q taken) e' ∧ e'.bound = e.bound ∧ e'.stopped = e.stopped ∧
      e.copyGradients pkt mem = .ok (if q ∈ taken then (0, e', mem) else
        (s.packetizer.payloadLen s.sent.size q, e',
          mem.copy (s.recv.buf + q * s.packetizer.bound) pkt.gradPtr.toNat
            (s.packetizer.payloadLen s.sent.size q))) := by
  have hseq := hpkt.seq_eq
  by_cases hmem : q ∈ taken
  · simp only [if_pos hmem, Finset.insert_eq_of_mem hmem]
    exact ⟨e, h, rfl, rfl, LtMessageExt.copyGradients_repeat h.holds (hseq.symm ▸ hmem) mem⟩
  · have hgrad := hpkt.gradBytes_eq
    have hmlt := hv.maxSeq_lt
    have hend := Packetizer.add_payloadLen (hv.le_maxSeq_iff.mp hq)
    have hsize : e.size = s.sent.size := by rw [h.message, hv.recv_size]
    have hlt := hv.size_lt
    obtain ⟨mgr, hrep, hmsize, hcopy⟩ := LtMessageExt.copyGradients_fresh h.holds mem
      (by omega) (hseq.symm ▸ hmem)
      (by rw [hgrad, hpkt.offset_eq, hsize, u32_of_lt (by omega)]; omega)
    rw [hseq] at hrep hmsize
    rw [hgrad, hpkt.offset_eq, show e.buf = s.recv.buf by rw [h.message]] at hcopy
    simp only [if_neg hmem]
    refine ⟨{ e with bytes := e.bytes + s.packetizer.payloadLen s.sent.size q, blockMgr := mgr },
      ⟨h.message, .inl hrep, ?_, ?_, fun q' hq' => ?_⟩, rfl, rfl, hcopy⟩
    · intro n
      show mgr.size ≤ n ↔ _
      rw [hmsize, max_le_iff, h.size_le_iff, Finset.forall_mem_insert, Nat.succ_le_iff]
      exact and_comm
    · show e.bytes + _ = _
      rw [total, Finset.sum_insert hmem, Nat.add_comm]
      exact congrArg _ h.bytes_eq
    · rcases Finset.mem_insert.mp hq' with rfl | hq'
      · exact hq
      · exact h.taken_le q' hq'

theorem Valid.copy_own (hv : s.Valid) {src i : ℕ} (hi : i < s.recv.size)
    (hiq : i / s.packetizer.bound = q) :
    mem.copy (s.recv.buf + q * s.packetizer.bound) src (s.packetizer.payloadLen s.sent.size q)
      (s.recv.buf + i) = mem (src + i % s.packetizer.bound) := by
  obtain ⟨hlo, hhi⟩ := (hv.div_bound_iff hi).mp hiq
  have hmod : i % s.packetizer.bound = i - q * s.packetizer.bound := by
    have := Nat.div_add_mod i s.packetizer.bound
    rw [hiq, Nat.mul_comm] at this
    omega
  rw [hmod, show s.recv.buf + i = s.recv.buf + q * s.packetizer.bound +
    (i - q * s.packetizer.bound) by omega, Memory.copy_add _ (by omega)]

theorem Valid.copy_other (hv : s.Valid) {src i : ℕ} (hi : i < s.recv.size)
    (hiq : i / s.packetizer.bound ≠ q) :
    mem.copy (s.recv.buf + q * s.packetizer.bound) src (s.packetizer.payloadLen s.sent.size q)
      (s.recv.buf + i) = mem (s.recv.buf + i) := by
  have hout := (hv.div_bound_iff hi).not.mp hiq
  exact Memory.copy_of_outside _ (by omega)

theorem Filled.copy (h : s.Filled mem₀ taken mem) (hv : s.Valid) {src : ℕ}
    (hsrc : ∀ i < s.packetizer.payloadLen s.sent.size q,
      mem (src + i) = (s.payload q).getD i 0) :
    s.Filled mem₀ (insert q taken) (mem.copy (s.recv.buf + q * s.packetizer.bound) src
      (s.packetizer.payloadLen s.sent.size q)) := by
  intro i hi
  by_cases hiq : i / s.packetizer.bound = q
  · have hlt : i % s.packetizer.bound < s.packetizer.payloadLen s.sent.size q := by
      have hrange := (hv.div_bound_iff hi).mp hiq
      have := Nat.div_add_mod i s.packetizer.bound
      rw [hiq, Nat.mul_comm] at this
      omega
    rw [hv.copy_own hi hiq, hsrc _ hlt, contentAt, hiq, if_pos (Finset.mem_insert_self _ _)]
  · rw [hv.copy_other hi hiq, h i hi]
    simp only [contentAt, Finset.mem_insert, hiq, false_or]

theorem Arrives.isPacket (h : s.Arrives a) (hv : s.Valid) :
    ∃ q ≤ s.maxSeq, s.packetizer.IsPacket s.sent.size q a.pkt := by
  obtain ⟨prio, pkt, hbuilds, hpkt⟩ := h.built
  obtain ⟨q, hq, ⟨hseq, hoff, hlen, hlast⟩, -⟩ :=
    hbuilds.fields hv.packetizer hv.size_pos hv.size_lt
  refine ⟨q, hv.le_maxSeq_iff.mpr hq, ?_⟩
  rw [hpkt]
  exact ⟨hseq, hoff, hlen, hlast⟩

theorem Arrives.filled (h : s.Arrives a) (hfilled : s.Filled mem₀ taken mem) :
    s.Filled mem₀ taken (mem.write a.pkt.gradPtr.toNat a.payload) := by
  intro i hi
  rw [← hfilled i hi]
  rcases h.apart with hap | hap
  · exact Memory.write_of_ge _ _ (by omega)
  · exact Memory.write_of_lt _ _ (by omega)

theorem Arrives.receive (ha : s.Arrives a) (hv : s.Valid) (h : s.Counted taken e)
    (hfilled : s.Filled mem₀ taken mem) :
    ∃ e' mem', LtMessageExt.receive (e, mem) a = .ok (e', mem') ∧
      s.Counted (insert a.pkt.seq.toNat taken) e' ∧
      s.Filled mem₀ (insert a.pkt.seq.toNat taken) mem' ∧ e'.bound = e.bound ∧
      e'.stopped = e.stopped := by
  obtain ⟨q, hq, hpkt⟩ := ha.isPacket hv
  obtain ⟨e', h', hbound, hstopped, hcopy⟩ := h.copyGradients hv hq hpkt
    (mem.write a.pkt.gradPtr.toNat a.payload)
  have hfilled' := ha.filled hfilled
  rw [hpkt.seq_eq]
  unfold LtMessageExt.receive
  rw [hcopy, ok_bind]
  split_ifs with hmem
  · exact ⟨e', _, rfl, h', (Finset.insert_eq_of_mem hmem).symm ▸ hfilled', hbound, hstopped⟩
  · refine ⟨e', _, rfl, h', hfilled'.copy hv fun i hi => ?_, hbound, hstopped⟩
    have hpayload : s.payload q = a.payload := by rw [ha.payload_eq, hpkt.seq_eq]
    have hlen : i < a.payload.length := by rwa [← hpayload, hv.payload_length q hq]
    rw [Memory.write_add _ _ _ hlen, hpayload, List.getD_eq_getElem?_getD,
      List.getElem?_eq_getElem hlen, Option.getD_some]

theorem Counted.foldlM (h : s.Counted taken e) (hv : s.Valid)
    (hfilled : s.Filled mem₀ taken mem) {as : List Arrival} (has : ∀ a ∈ as, s.Arrives a) :
    ∃ e' mem', as.foldlM LtMessageExt.receive (e, mem) = .ok (e', mem') ∧
      s.Counted (seqs as ∪ taken) e' ∧ s.Filled mem₀ (seqs as ∪ taken) mem' ∧
      e'.bound = e.bound ∧ e'.stopped = e.stopped := by
  induction as generalizing e mem taken with
  | nil => exact ⟨e, mem, rfl, by simpa [seqs] using h, by simpa [seqs] using hfilled, rfl, rfl⟩
  | cons a as ih =>
    obtain ⟨ha, has⟩ := List.forall_mem_cons.mp has
    obtain ⟨e₁, mem₁, hr₁, h₁, hfilled₁, hbound₁, hstopped₁⟩ := ha.receive hv h hfilled
    obtain ⟨e', mem', hr', h', hfilled', hbound, hstopped⟩ := ih h₁ hfilled₁ has
    have hseqs : seqs (a :: as) ∪ taken = seqs as ∪ insert a.pkt.seq.toNat taken := by
      simp [seqs, Finset.insert_union]
    rw [hseqs]
    exact ⟨e', mem', by rw [List.foldlM_cons, hr₁]; exact hr', h', hfilled',
      hbound.trans hbound₁, hstopped.trans hstopped₁⟩

theorem received_all (hv : s.Valid) (mem : Memory) {as : List Arrival}
    (has : ∀ a ∈ as, s.Arrives a) (bound : ℕ) :
    ∃ e mem', as.foldlM LtMessageExt.receive ({ LtMessageExt.new s.recv with bound }, mem) =
        .ok (e, mem') ∧ s.Counted (seqs as) e ∧ s.Filled mem (seqs as) mem' ∧
      e.bound = bound ∧ e.stopped = false := by
  have hstart : s.Counted ∅ { LtMessageExt.new s.recv with bound } := counted_start rfl rfl rfl
  have hall := hstart.foldlM hv (filled_start s mem) has
  rwa [Finset.union_empty] at hall

/-- After the packets in `as`, in whatever order and how often they came, the message is the one
entry `e`, and `CopyGradients` of a packet that has come before leaves it alone. -/
theorem receive_order_independent (s : Shipment) (hv : s.Valid) (mem : Memory)
    (as bs : List Arrival) (has : ∀ a ∈ as, s.Arrives a) (hbs : ∀ b ∈ bs, s.Arrives b)
    (hsame : seqs as = seqs bs) :
    ∃ e ma mb, as.foldlM LtMessageExt.receive (.new s.recv, mem) = .ok (e, ma) ∧
      bs.foldlM LtMessageExt.receive (.new s.recv, mem) = .ok (e, mb) ∧
      ma.read s.recv.buf s.recv.size = mb.read s.recv.buf s.recv.size ∧
      (∀ q < e.blockMgr.size, e.blockMgr.check q = decide (q ∈ seqs as)) ∧
      (∃ mgr out, e.blockMgr.growTo s.maxSeq = .ok mgr ∧ mgr.size = s.maxSeq + 1 ∧
        mgr.serializeToBuffer mgr.byteSize = .ok out) ∧
      (∀ pkt : GradPacket, pkt.seq.toNat ∈ seqs as →
        ∀ mem, e.copyGradients pkt mem = .ok (0, e, mem)) ∧
      e.bytes = ∑ q ∈ seqs as, s.packetizer.payloadLen s.sent.size q ∧ e.bytes ≤ s.sent.size := by
  obtain ⟨e, ma, hma, ha, hfa, hbound, hstopped⟩ := received_all hv mem has s.recv.size
  obtain ⟨e', mb, hmb, hb, hfb, hbound', hstopped'⟩ := received_all hv mem hbs s.recv.size
  rw [← hsame] at hb hfb
  obtain rfl : e = e' :=
    ha.unique hb (hbound.trans hbound'.symm) (hstopped.trans hstopped'.symm)
  refine ⟨e, ma, mb, hma, hmb, Memory.read_congr fun i hi => ?_, fun q hq => ?_, ?_,
    fun pkt hmem mem => LtMessageExt.copyGradients_repeat ha.holds hmem mem, ha.bytes_eq,
    ha.bytes_le hv⟩
  · exact (hfa i hi).trans (hfb i hi).symm
  · rcases ha.holds with hrep | ⟨hnew, -⟩
    · rw [Bool.eq_iff_iff, hrep.check_iff hq, decide_eq_true_iff]
    · rw [hnew] at hq
      exact absurd hq (Nat.not_lt_zero q)
  · have hmlt := hv.maxSeq_lt
    obtain ⟨mgr, hgrow, -, hsize⟩ := ha.holds.growTo (show s.maxSeq + 1 < 2 ^ 32 by omega)
    refine ⟨mgr, _, hgrow, ?_, TreeBlockMgr.serializeToBuffer_byteSize mgr⟩
    rw [hsize]
    refine Nat.max_eq_right ((ha.size_le_iff _).mpr fun q hq => ?_)
    exact Nat.lt_succ_of_le (ha.taken_le q hq)

def fiveBytes : Shipment where
  packetizer := ⟨22, 1⟩
  dest := 2
  sent := ⟨7, 4096, 5, 0⟩
  payload := fun q => List.replicate (Packetizer.payloadLen ⟨22, 1⟩ 5 q) (UInt8.ofNat q)
  recv := ⟨7, 131072, 5, 0⟩

def fiveBytesArrival (q : ℕ) : Arrival where
  pkt := { fiveBytes.packetizer.partitionOneBySeq 2 (.new fiveBytes.sent) (fun _ => 0) q with
    gradPtr := 65556 }
  payload := fiveBytes.payload q

theorem fiveBytes_maxSeq : fiveBytes.maxSeq = 2 := by decide +kernel

theorem fiveBytes_valid : fiveBytes.Valid :=
  ⟨⟨by decide, by decide⟩, by decide, by decide, rfl, fun _ _ => List.length_replicate⟩

theorem fiveBytes_arrives {q : ℕ} (hq : q ≤ 2) : fiveBytes.Arrives (fiveBytesArrival q) := by
  have hmax : q ≤ fiveBytes.packetizer.getMaxSeqNum fiveBytes.sent.size :=
    hq.trans fiveBytes_maxSeq.ge
  refine ⟨⟨_, _, .partitionOneBySeq _ q rfl hmax, rfl⟩, ?_, .inl ?_⟩
  · obtain rfl | rfl | rfl : q = 0 ∨ q = 1 ∨ q = 2 := by omega
    all_goals decide +kernel
  · obtain rfl | rfl | rfl : q = 0 ∨ q = 1 ∨ q = 2 := by omega
    all_goals decide +kernel

theorem fiveBytes_arrive {qs : List ℕ} (hqs : ∀ q ∈ qs, q ≤ 2) :
    ∀ a ∈ qs.map fiveBytesArrival, fiveBytes.Arrives a := by
  intro a ha
  obtain ⟨q, hq, rfl⟩ := List.mem_map.mp ha
  exact fiveBytes_arrives (hqs q hq)

theorem receive_order_independent_fiveBytes :
    ∃ e ma mb,
      ([2, 0, 2].map fiveBytesArrival).foldlM LtMessageExt.receive
        (.new fiveBytes.recv, fun _ => 0) = .ok (e, ma) ∧
      ([0, 2].map fiveBytesArrival).foldlM LtMessageExt.receive
        (.new fiveBytes.recv, fun _ => 0) = .ok (e, mb) ∧ ma.read 131072 5 = mb.read 131072 5 := by
  obtain ⟨e, ma, mb, hma, hmb, hread, -⟩ := receive_order_independent fiveBytes fiveBytes_valid
    (fun _ => 0) ([2, 0, 2].map fiveBytesArrival) ([0, 2].map fiveBytesArrival)
    (fiveBytes_arrive (by decide)) (fiveBytes_arrive (by decide)) (by decide +kernel)
  exact ⟨e, ma, mb, hma, hmb, hread⟩

/-! ## The bound of a receive -/

/-- `static_cast<size_t>(ltmsg.size * (1 - loss_ratio))` for an exact product. -/
def lossTarget (size : ℕ) (lossRatio : ℚ) : ℕ := ⌊(size : ℚ) * (1 - lossRatio)⌋₊

theorem alignUp_le_iff (target size : ℕ) :
    alignUp sizeofFloat target ≤ size ↔ target ≤ size / 4 * 4 := by
  unfold alignUp sizeofFloat
  omega

theorem pollReceiveRequest_of_new {c c' : Communicator} {msg : LtMessage} {e : LtMessageExt}
    {target : ℕ} {rest : List (LtMessage × ℕ)} (hqueue : c.rrQueue = (msg, target) :: rest)
    (hfree : c.recvMsgs.lookup msg.msgId = none)
    (hnew : newRecvMsg msg { c with rrQueue := rest } = .ok (e, c')) :
    c.pollReceiveRequest =
      .ok (c'.putRecv msg.msgId { e with bound := alignUp sizeofFloat target }) := by
  unfold pollReceiveRequest
  rw [hqueue]
  dsimp only
  rw [require_bind _ hfree, hnew]
  rfl

theorem pollReceiveRequest_fresh {c : Communicator} {msg : LtMessage} {target : ℕ}
    {rest : List (LtMessage × ℕ)} (hqueue : c.rrQueue = (msg, target) :: rest)
    (hfree : c.recvMsgs.lookup msg.msgId = none)
    (hbacklog : (c.backlogUsedMap.lookup msg.msgId).getD [] = []) :
    ∃ c', c.pollReceiveRequest = .ok c' ∧ c'.mem = c.mem ∧ c'.recvMsgs.lookup msg.msgId =
      some { LtMessageExt.new msg with bound := alignUp sizeofFloat target } := by
  obtain ⟨c', hnew, hmem⟩ : ∃ c', newRecvMsg msg { c with rrQueue := rest } =
      .ok (.new msg, c') ∧ c'.mem = c.mem := by
    unfold newRecvMsg
    dsimp only
    rcases hvec : c.backlogUsedMap.lookup msg.msgId with _ | vec
    · exact ⟨_, rfl, rfl⟩
    · obtain rfl : vec = [] := by simpa [hvec] using hbacklog
      exact ⟨_, rfl, rfl⟩
  exact ⟨_, pollReceiveRequest_of_new hqueue hfree hnew, hmem, AList.lookup_insert _⟩

/-- A receive that has got every packet of its message is finished exactly if its bound is at most
the size of the message. The bound is rounded up to a multiple of four and the size need not be
one. -/
theorem fully_received_finished_iff (s : Shipment) (hv : s.Valid) (lossRatio : ℚ)
    (c : Communicator) (rest : List (LtMessage × ℕ))
    (hqueue : c.rrQueue = (s.recv, lossTarget s.recv.size lossRatio) :: rest)
    (hfree : c.recvMsgs.lookup s.recv.msgId = none)
    (hbacklog : (c.backlogUsedMap.lookup s.recv.msgId).getD [] = [])
    (as : List Arrival) (has : ∀ a ∈ as, s.Arrives a) (hall : ∀ q ≤ s.maxSeq, q ∈ seqs as) :
    ∃ c' e e' mem, c.pollReceiveRequest = .ok c' ∧
      c'.recvMsgs.lookup s.recv.msgId = some e ∧
      as.foldlM LtMessageExt.receive (e, c'.mem) = .ok (e', mem) ∧
      (e'.finishReceiving = true ↔ lossTarget s.recv.size lossRatio ≤ s.recv.size / 4 * 4) ∧
      (e.bound ≤ s.recv.size ↔ lossTarget s.recv.size lossRatio ≤ s.recv.size / 4 * 4) := by
  obtain ⟨c', hc', -, he⟩ := pollReceiveRequest_fresh hqueue hfree hbacklog
  obtain ⟨e', mem, hr, h, -, hbound, -⟩ := received_all hv c'.mem has
    (alignUp sizeofFloat (lossTarget s.recv.size lossRatio))
  refine ⟨c', _, e', mem, hc', he, hr, ?_, alignUp_le_iff _ _⟩
  have hbytes : e'.bytes = s.recv.size := by
    rw [h.bytes_eq, hv.total_of_all fun q => ⟨h.taken_le q, hall q⟩, hv.recv_size]
  rw [LtMessageExt.finishReceiving, decide_eq_true_iff, hbytes, hbound]
  exact alignUp_le_iff _ _

theorem fully_received_finished_iff_half :
    ∃ c' e e' mem, pollReceiveRequest { Communicator.init with
        rrQueue := [(fiveBytes.recv, lossTarget 5 (1 / 2))] } = .ok c' ∧
      c'.recvMsgs.lookup 7 = some e ∧
      ([2, 0, 1].map fiveBytesArrival).foldlM LtMessageExt.receive (e, c'.mem) = .ok (e', mem) ∧
      e'.finishReceiving = true := by
  obtain ⟨c', e, e', mem, hc', he, hfold, hfinish, -⟩ := fully_received_finished_iff fiveBytes
    fiveBytes_valid (1 / 2) { Communicator.init with
      rrQueue := [(fiveBytes.recv, lossTarget 5 (1 / 2))] } [] rfl rfl rfl
    ([2, 0, 1].map fiveBytesArrival) (fiveBytes_arrive (by decide)) (by
      rw [fiveBytes_maxSeq]
      decide +kernel)
  exact ⟨c', e, e', mem, hc', he, hfold, hfinish.mpr (by decide +kernel)⟩

/-- A message of five bytes of which nothing may be lost: the bound is eight, and with all packets
there the receive is not finished. -/
theorem five_bytes_never_finish :
    fiveBytes.maxSeq = 2 ∧ seqs ([0, 1, 2].map fiveBytesArrival) = {0, 1, 2} ∧
    (do
      let c ← pollReceiveRequest { Communicator.init with
        rrQueue := [(fiveBytes.recv, lossTarget 5 0)] }
      let e ← (c.recvMsgs.lookup 7).elim (.error .confirmStop) .ok
      let (e, _) ← ([0, 1, 2].map fiveBytesArrival).foldlM LtMessageExt.receive (e, c.mem)
      return (e.bytes, e.bound, e.finishReceiving)) = .ok (5, 8, false) := by
  decide +kernel

end Shipment

/-! ## Any header -/

/-- The packet that `HandleReceive` sees in the buffer of the loop. -/
def Host.packetOf (h : Host) (bytes : List UInt8) (mem : Memory) : GradPacket :=
  GradPacket.ofMemory (receiveInto h bytes mem) h.buf

/-- `copied` bytes from the `grad_ptr` of the packet to its offset lie inside the receive buffer
and inside the `n` bytes of the datagram. -/
structure CopyInside (h : Host) (pkt : GradPacket) (size n copied : ℕ) : Prop where
  dst : ∀ i < copied, pkt.offset.toNat + i < size
  src : ∀ i < copied, h.buf ≤ pkt.gradPtr.toNat + i ∧ pkt.gradPtr.toNat + i < h.buf + n

/-- The length counts the header and no more than the datagram, and the end of the range does not
wrap around in 32 bits. -/
structure HeaderFine (pkt : GradPacket) (n : ℕ) : Prop where
  header_le : kGradPacketHeader ≤ pkt.len.toNat
  len_le : pkt.len.toNat ≤ n
  end_lt : pkt.offset.toNat + (pkt.len.toNat - kGradPacketHeader) < 2 ^ 32

section

variable {h : Host} {bytes : List UInt8} {mem : Memory} {e : LtMessageExt} {pkt : GradPacket}
  {taken : Finset ℕ}

theorem gradPtr_packetOf (hbuf : h.buf + 28 ≤ 2 ^ 64) :
    (h.packetOf bytes mem).gradPtr.toNat = h.buf + kGradPacketHeader := by
  have hread : (receiveInto h bytes mem).read (h.buf + 20) 8 =
      LittleEndian.leBytes 8 (h.buf + kGradPacketHeader) :=
    Memory.read_write_self (mem.write h.buf bytes) (h.buf + kGradPacketHeader)
      (LittleEndian.leBytes 8 (h.buf + kGradPacketHeader))
  show (UInt64.ofNat (LittleEndian.ofLeBytes _)).toNat = _
  rw [hread, LittleEndian.ofLeBytes_leBytes_of_lt, UInt64.toNat_ofNat', Nat.mod_eq_of_lt]
  all_goals
    unfold kGradPacketHeader
    omega

/-- The last sequence number would need a manager of `2^32` numbers. -/
theorem growTo_max (hholds : e.blockMgr.Holds taken) {seq : ℕ} (hseq : seq + 1 = 2 ^ 32) :
    e.blockMgr.growTo seq = .error .resize := by
  have hle : e.blockMgr.size ≤ seq := by
    rcases hholds with hrep | ⟨hnew, -⟩
    · have := hrep.size_lt
      omega
    · rw [hnew]
      exact Nat.zero_le _
  have hzero : u32 (seq + 1) = 0 := by rw [hseq]; rfl
  rw [TreeBlockMgr.growTo, if_pos hle, hzero]
  unfold TreeBlockMgr.resize
  rw [require, if_neg (Nat.not_lt_zero _)]
  rfl

theorem copyGradients_cases (hholds : e.blockMgr.Holds taken) {copied : ℕ} {e' : LtMessageExt}
    {mem' : Memory} (hcopy : e.copyGradients pkt mem = .ok (copied, e', mem')) :
    pkt.seq.toNat ∈ taken ∧ copied = 0 ∧ e' = e ∧ mem' = mem ∨
      pkt.seq.toNat ∉ taken ∧ pkt.seq.toNat + 1 < 2 ^ 32 ∧
        u32 (pkt.offset.toNat + LtMessageExt.gradBytes pkt) ≤ e.size ∧
        copied = LtMessageExt.gradBytes pkt ∧ e'.toLtMessage = e.toLtMessage ∧
        e'.blockMgr.Holds (insert pkt.seq.toNat taken) ∧
        mem' = mem.copy (e.buf + pkt.offset.toNat) pkt.gradPtr.toNat
          (LtMessageExt.gradBytes pkt) := by
  have hlt := pkt.seq.toNat_lt
  by_cases hmem : pkt.seq.toNat ∈ taken
  · rw [LtMessageExt.copyGradients_repeat hholds hmem] at hcopy
    cases hcopy
    exact .inl ⟨hmem, rfl, rfl, rfl⟩
  by_cases hmax : pkt.seq.toNat + 1 = 2 ^ 32
  · unfold LtMessageExt.copyGradients at hcopy
    dsimp only at hcopy
    rw [growTo_max hholds hmax] at hcopy
    cases hcopy
  have hseq : pkt.seq.toNat + 1 < 2 ^ 32 := by omega
  by_cases hfit : u32 (pkt.offset.toNat + LtMessageExt.gradBytes pkt) ≤ e.size
  · obtain ⟨mgr, hrep, -, heq⟩ := LtMessageExt.copyGradients_fresh hholds mem hseq hmem hfit
    rw [heq] at hcopy
    cases hcopy
    exact .inr ⟨hmem, hseq, hfit, rfl, rfl, .inl hrep, rfl⟩
  · obtain ⟨mgr, hgrow, hrep, hsize⟩ := hholds.growTo hseq
    have hlt' : pkt.seq.toNat < mgr.size := by omega
    obtain ⟨mgr', htake, -⟩ := hrep.take hlt' hmem
    unfold LtMessageExt.copyGradients at hcopy
    dsimp only at hcopy
    rw [hgrow, ok_bind, if_neg (by rw [hrep.check_iff hlt']; exact hmem), htake, ok_bind,
      require_bind_eq_ok] at hcopy
    exact absurd hcopy.1 hfit

theorem gradBytes_of_short (hlen : pkt.len.toNat < kGradPacketHeader) :
    2 ^ 32 - kGradPacketHeader ≤ LtMessageExt.gradBytes pkt := by
  unfold LtMessageExt.gradBytes
  unfold kGradPacketHeader at *
  omega

variable (hptr : pkt.gradPtr.toNat = h.buf + kGradPacketHeader)
include hptr

theorem HeaderFine.copyInside {size n : ℕ} (hfine : HeaderFine pkt n)
    (hfit : u32 (pkt.offset.toNat + LtMessageExt.gradBytes pkt) ≤ size) :
    CopyInside h pkt size n (LtMessageExt.gradBytes pkt) := by
  obtain ⟨hlo, hhi, hend⟩ := hfine
  rw [LtMessageExt.gradBytes_eq hlo] at hfit ⊢
  rw [u32_of_lt hend] at hfit
  constructor
  · intro i hi
    omega
  · intro i hi
    omega

theorem headerFine_of_copyInside {size n : ℕ} (hsize : size < 2 ^ 32)
    (hlo : kGradPacketHeader ≤ n) (hhi : n < 2 ^ 31)
    (hinside : CopyInside h pkt size n (LtMessageExt.gradBytes pkt)) : HeaderFine pkt n := by
  have hheader : kGradPacketHeader ≤ pkt.len.toNat := by
    by_contra hshort
    have hgrad := gradBytes_of_short (Nat.lt_of_not_le hshort)
    have := hinside.src n (by unfold kGradPacketHeader at *; omega)
    omega
  have hgrad := LtMessageExt.gradBytes_eq hheader
  rw [hgrad] at hinside
  refine ⟨hheader, ?_, ?_⟩
  · by_contra hlong
    have := hinside.src (n - kGradPacketHeader) (by omega)
    omega
  · by_contra hwrap
    have hoff := pkt.offset.toNat_lt
    have := hinside.dst (pkt.len.toNat - kGradPacketHeader - 1) (by omega)
    omega

end

/-- The copies that were made on the way from `c` to `c'`. -/
def Communicator.copiedSince (c c' : Communicator) : List ℕ :=
  (c'.log.drop c.log.length).filterMap Event.copied

theorem copiedSince_self (c : Communicator) : c.copiedSince c = [] := by
  simp [copiedSince]

theorem copiedSince_of_log {c c' : Communicator} {events : List Event}
    (hlog : c'.log = c.log ++ events) : c.copiedSince c' = events.filterMap Event.copied := by
  rw [copiedSince, hlog, List.drop_left]

theorem reportRate_log (c : Communicator) (dest : ℤ) (rate : Option UInt32) :
    ∃ events, (c.reportRate dest rate).log = c.log ++ events ∧
      events.filterMap Event.copied = [] := by
  cases rate with
  | none => exact ⟨[], (List.append_nil _).symm, rfl⟩
  | some speed => exact ⟨[_], rfl, rfl⟩

section

variable {h : Host} {bytes : List UInt8} (hhi : bytes.length ≤ h.packetizer.maxSegment)
  {c c' : Communicator} {pkt : GradPacket} (hpkt : h.packetOf bytes c.mem = pkt) {e : LtMessageExt}
include hhi hpkt

theorem handleReceive_eq (use : ℕ) (rate : Option UInt32) :
    c.handleReceive h bytes use rate = (do
      require .dstCommId (pkt.dstCommId = UInt16.ofInt h.packetizer.commId)
      if (pkt.srcCommId.toNat : ℤ) ≠ h.destCommId then
        return { c with mem := receiveInto h bytes c.mem }
      else (({ c with mem := receiveInto h bytes c.mem } : Communicator).reportRate
        pkt.srcCommId.toNat rate).deliver h pkt bytes.length use) := by
  unfold handleReceive
  dsimp only
  rw [List.take_of_length_le hhi,
    show GradPacket.ofMemory (receiveInto h bytes c.mem) h.buf = pkt from hpkt]

theorem handleReceive_of_copy (hposted : c.recvMsgs.lookup pkt.msgId = some e)
    (hdst : pkt.dstCommId = UInt16.ofInt h.packetizer.commId)
    (hsrc : (pkt.srcCommId.toNat : ℤ) = h.destCommId) {copied : ℕ} {e' : LtMessageExt}
    {mem' : Memory}
    (hcopy : e.copyGradients pkt (receiveInto h bytes c.mem) = .ok (copied, e', mem')) (use : ℕ)
    (rate : Option UInt32) :
    ∃ c', c.handleReceive h bytes use rate = .ok c' ∧ c'.mem = mem' ∧
      c.copiedSince c' = if 0 < copied then [copied] else [] := by
  obtain ⟨events, hlog, hnone⟩ := reportRate_log
    { c with mem := receiveInto h bytes c.mem } pkt.srcCommId.toNat rate
  obtain ⟨c', hc', hmem, events', hlog', hcopied⟩ := deliver_of_copy (h := h)
    (c := ({ c with mem := receiveInto h bytes c.mem } : Communicator).reportRate
      pkt.srcCommId.toNat rate)
    (by rw [reportRate_recvMsgs]; exact hposted) (by rw [reportRate_mem]; exact hcopy)
    bytes.length use
  refine ⟨c', ?_, hmem, ?_⟩
  · rw [handleReceive_eq hhi hpkt, require_bind _ hdst, if_neg (not_not.mpr hsrc)]
    exact hc'
  · have hall : c'.log = c.log ++ (events ++ events') := by
      rw [hlog', hlog]
      exact List.append_assoc ..
    rw [copiedSince_of_log hall, List.filterMap_append, hnone, hcopied, List.nil_append]

theorem dstCommId_of_handleReceive {use : ℕ} {rate : Option UInt32}
    (hstep : c.handleReceive h bytes use rate = .ok c') :
    pkt.dstCommId = UInt16.ofInt h.packetizer.commId := by
  rw [handleReceive_eq hhi hpkt] at hstep
  exact (require_bind_eq_ok.mp hstep).1

theorem copiedSince_of_stranger (hsrc : (pkt.srcCommId.toNat : ℤ) ≠ h.destCommId) {use : ℕ}
    {rate : Option UInt32} (hstep : c.handleReceive h bytes use rate = .ok c') :
    c.copiedSince c' = [] := by
  rw [handleReceive_eq hhi hpkt] at hstep
  obtain ⟨-, hstep⟩ := require_bind_eq_ok.mp hstep
  rw [if_pos hsrc] at hstep
  cases hstep
  exact copiedSince_self c

theorem copy_of_handleReceive (hposted : c.recvMsgs.lookup pkt.msgId = some e)
    (hsrc : (pkt.srcCommId.toNat : ℤ) = h.destCommId) {use : ℕ} {rate : Option UInt32}
    (hstep : c.handleReceive h bytes use rate = .ok c') :
    ∃ copied e', e.copyGradients pkt (receiveInto h bytes c.mem) = .ok (copied, e', c'.mem) ∧
      c.copiedSince c' = if 0 < copied then [copied] else [] := by
  have hdst := dstCommId_of_handleReceive hhi hpkt hstep
  rcases hcopy : e.copyGradients pkt (receiveInto h bytes c.mem) with f | ⟨copied, e', mem'⟩
  · rw [handleReceive_eq hhi hpkt, require_bind _ hdst, if_neg (not_not.mpr hsrc), deliver,
      reportRate_recvMsgs] at hstep
    dsimp only at hstep
    rw [hposted] at hstep
    dsimp only at hstep
    rw [acceptPacket, reportRate_mem, hcopy] at hstep
    cases hstep
  · obtain ⟨c₁, hc₁, rfl, hcopied⟩ :=
      handleReceive_of_copy hhi hpkt hposted hdst hsrc hcopy use rate
    cases hc₁.symm.trans hstep
    exact ⟨copied, e', rfl, hcopied⟩

end

/-- Handling a datagram fails a check, or copies from inside the datagram to inside the buffer of
the posted message `e`. -/
def HandledInside (h : Host) (bytes : List UInt8) (c : Communicator) (e : LtMessageExt) : Prop :=
  ∀ use rate c', c.handleReceive h bytes use rate = .ok c' → ∀ copied ∈ c.copiedSince c',
    CopyInside h (h.packetOf bytes c.mem) e.size bytes.length copied

/-- A datagram is handled without leaving the two ranges exactly if it is for somebody else, of
somebody unknown, refused by a check of `CopyGradients`, a duplicate, or has a header whose length
and end are those of the datagram. What is copied is what `CopyGradients` copies. -/
theorem copy_inside_iff (h : Host) (hseg : h.packetizer.maxSegment < 2 ^ 31)
    (hbuf : h.buf + 28 ≤ 2 ^ 64) (bytes : List UInt8) (hlo : kGradPacketHeader ≤ bytes.length)
    (hhi : bytes.length ≤ h.packetizer.maxSegment) (c : Communicator) (pkt : GradPacket)
    (hpkt : h.packetOf bytes c.mem = pkt) (e : LtMessageExt)
    (hposted : c.recvMsgs.lookup pkt.msgId = some e) (taken : Finset ℕ)
    (hholds : e.blockMgr.Holds taken) (hsize : e.size < 2 ^ 32) :
    (HandledInside h bytes c e ↔
      pkt.dstCommId ≠ UInt16.ofInt h.packetizer.commId ∨
        (pkt.srcCommId.toNat : ℤ) ≠ h.destCommId ∨
        pkt.seq.toNat = 2 ^ 32 - 1 ∨ pkt.seq.toNat ∈ taken ∨
        e.size < u32 (pkt.offset.toNat + LtMessageExt.gradBytes pkt) ∨
        HeaderFine pkt bytes.length) ∧
    ∀ use rate c', c.handleReceive h bytes use rate = .ok c' →
      (pkt.srcCommId.toNat : ℤ) = h.destCommId →
      ∃ copied e', e.copyGradients pkt (receiveInto h bytes c.mem) = .ok (copied, e', c'.mem) ∧
        c.copiedSince c' = if 0 < copied then [copied] else [] := by
  have hptr : pkt.gradPtr.toNat = h.buf + kGradPacketHeader := hpkt ▸ gradPtr_packetOf hbuf
  have hlt := pkt.seq.toNat_lt
  refine ⟨⟨fun hall => ?_, fun hcond use rate c' hstep copied hcopied => ?_⟩,
    fun use rate c' hstep hsrc => copy_of_handleReceive hhi hpkt hposted hsrc hstep⟩
  · by_cases hdst : pkt.dstCommId = UInt16.ofInt h.packetizer.commId
    case neg => exact .inl hdst
    by_cases hsrc : (pkt.srcCommId.toNat : ℤ) = h.destCommId
    case neg => exact .inr (.inl hsrc)
    by_cases hmax : pkt.seq.toNat = 2 ^ 32 - 1
    case pos => exact .inr (.inr (.inl hmax))
    by_cases hmem : pkt.seq.toNat ∈ taken
    case pos => exact .inr (.inr (.inr (.inl hmem)))
    by_cases hfit : u32 (pkt.offset.toNat + LtMessageExt.gradBytes pkt) ≤ e.size
    case neg => exact .inr (.inr (.inr (.inr (.inl (Nat.lt_of_not_le hfit)))))
    obtain ⟨mgr, -, -, hcopy⟩ := LtMessageExt.copyGradients_fresh hholds
      (receiveInto h bytes c.mem) (by omega) hmem hfit
    obtain ⟨c', hstep, -, hcopied⟩ :=
      handleReceive_of_copy hhi hpkt hposted hdst hsrc hcopy 0 none
    refine .inr (.inr (.inr (.inr (.inr (headerFine_of_copyInside hptr hsize hlo (by omega) ?_)))))
    by_cases hpos : 0 < LtMessageExt.gradBytes pkt
    · rw [if_pos hpos] at hcopied
      have hin := hall 0 none c' hstep _ (by rw [hcopied]; exact List.mem_singleton_self _)
      rwa [hpkt] at hin
    · exact ⟨fun i hi => absurd hi (by omega), fun i hi => absurd hi (by omega)⟩
  · have hdst := dstCommId_of_handleReceive hhi hpkt hstep
    by_cases hsrc : (pkt.srcCommId.toNat : ℤ) = h.destCommId
    case neg =>
      rw [copiedSince_of_stranger hhi hpkt hsrc hstep] at hcopied
      cases hcopied
    obtain ⟨n, e', hcopy, hn⟩ := copy_of_handleReceive hhi hpkt hposted hsrc hstep
    rw [hn] at hcopied
    split_ifs at hcopied with hpos
    case neg => cases hcopied
    obtain rfl := List.mem_singleton.mp hcopied
    rcases copyGradients_cases hholds hcopy with
      ⟨-, rfl, -, -⟩ | ⟨hmem, hseq, hfit, rfl, -, -, -⟩
    · exact absurd hpos (Nat.lt_irrefl 0)
    · rw [hpkt]
      rcases hcond with hne | hne | hmax | hmem' | hbig | hfine
      · exact absurd hdst hne
      · exact absurd hsrc hne
      · omega
      · exact absurd hmem' hmem
      · omega
      · exact hfine.copyInside hptr hfit

def smallHost : Host := ⟨⟨28, 2⟩, 1, fun _ => 0, 4096⟩

def postedFour : Communicator := Communicator.init.putRecv 7 (.new ⟨7, 131072, 4, 0⟩)

def forgedBytes (offset : UInt32) (len : UInt16) : List UInt8 :=
  (GradPacket.mk 7 offset 0 len 2 1 0 1 0).header ++ [1, 2, 3, 4]

theorem copy_inside_iff_small :
    ∃ c', postedFour.handleReceive smallHost (forgedBytes 0 24) 0 none = .ok c' ∧
      postedFour.copiedSince c' = [4] ∧
      CopyInside smallHost (smallHost.packetOf (forgedBytes 0 24) postedFour.mem) 4 24 4 := by
  obtain ⟨hiff, -⟩ := copy_inside_iff smallHost (by decide) (by decide) (forgedBytes 0 24)
    (by decide) (by decide) postedFour _ rfl (.new ⟨7, 131072, 4, 0⟩) (by decide +kernel) ∅
    (.inr ⟨rfl, rfl⟩) (by decide)
  have hinside := hiff.mpr
    (.inr (.inr (.inr (.inr (.inr ⟨by decide +kernel, by decide +kernel, by decide +kernel⟩)))))
  have hcopied : (postedFour.handleReceive smallHost (forgedBytes 0 24) 0 none).map
      postedFour.copiedSince = .ok [4] := by
    decide +kernel
  rcases hres : postedFour.handleReceive smallHost (forgedBytes 0 24) 0 none with fault | c'
  · rw [hres] at hcopied
    cases hcopied
  · rw [hres] at hcopied
    have hfour := Except.ok.inj hcopied
    exact ⟨c', rfl, hfour, hinside 0 none c' hres 4 (hfour ▸ List.mem_singleton_self 4)⟩

/-- A length of 0 counts as 4294967276 bytes of gradients; from the offset 20 on their end is 0
in 32 bits, and all of them are copied. -/
theorem short_length_overruns :
    (postedFour.handleReceive smallHost (forgedBytes 20 0) 0 none).map postedFour.copiedSince =
      .ok [4294967276] ∧
    ¬CopyInside smallHost (smallHost.packetOf (forgedBytes 20 0) postedFour.mem) 4 24
      4294967276 := by
  refine ⟨by decide +kernel, fun hinside => ?_⟩
  have hoff : (smallHost.packetOf (forgedBytes 20 0) postedFour.mem).offset.toNat = 20 := by
    decide +kernel
  have := hinside.dst 0 (by decide)
  omega

end Mlt
