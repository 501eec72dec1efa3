import MltByteps.Lib.Loop
import MltByteps.Mlt.TreeBlockMgr

/-! The bitmap block manager: one bit for each sequence number, set once it is taken, and a
count of the free runs. Writing the runs out scans the words with `ctz`, which of 0 is 64. -/

namespace Mlt
open IntervalList

/-- `Bitmap<long>`. -/
structure Bitmap where
  size : ℕ
  vec : List (BitVec 64)
deriving DecidableEq, Repr

namespace Bitmap

def typeSize : ℕ := 64

def roundUp (x d : ℕ) : ℕ := (x + d - 1) / d

def new (size : ℕ) : Bitmap := ⟨size, .replicate (roundUp size typeSize) 0⟩

/-- New words of the vector are 0. -/
def resize (b : Bitmap) (size : ℕ) : Bitmap :=
  ⟨size, b.vec.take (roundUp size typeSize) ++
    .replicate (roundUp size typeSize - b.vec.length) 0⟩

def underlayValue (b : Bitmap) (pos : ℕ) : BitVec 64 := b.vec.getD pos 0

def test (b : Bitmap) (pos : ℕ) : BitVec 64 :=
  let offset := pos &&& (typeSize - 1)
  let val := b.underlayValue (pos / typeSize)
  val.sshiftRight offset &&& 1

def set (b : Bitmap) (pos : ℕ) (value : BitVec 64 := 1) : Bitmap :=
  let offset := pos &&& (typeSize - 1)
  { b with
    vec := b.vec.modify (pos / typeSize) fun val =>
      if value ≠ 0 then val ||| 1#64 <<< offset else val &&& ~~~(1#64 <<< offset) }

end Bitmap

structure BitmapBlockMgr where
  size : ℕ
  used : ℕ
  segments : ℕ
  bitmap : Bitmap
deriving DecidableEq, Repr

structure BitmapScan where
  seg : BitVec 64
  first : ℕ
  blocks : List Block
deriving DecidableEq, Repr

namespace BitmapBlockMgr

def new (size : ℕ) : BitmapBlockMgr := ⟨u32 size, 0, 1, .new size⟩

def resize (m : BitmapBlockMgr) (size : ℕ) : Except Fault BitmapBlockMgr := do
  require .bitmapResize (m.size < size)
  let bitmap := m.bitmap.resize size
  let size := u32 size
  let segments := if bitmap.test (u32 (size + 2 ^ 32 - 1)) ≠ 0 then u32 (m.segments + 1)
    else m.segments
  return { m with size, segments, bitmap }

def check (m : BitmapBlockMgr) (seq : ℕ) : Except Fault Bool := do
  require .bitmapSeq (seq < m.size)
  return m.bitmap.test seq ≠ 0

/-- `segments_--` -/
def decSegments (segments : ℕ) : ℕ := u32 (segments + 2 ^ 32 - 1)

def take (m : BitmapBlockMgr) (seq : ℕ) : Except Fault BitmapBlockMgr := do
  require .bitmapSeq (seq < m.size)
  if m.bitmap.test seq = 0 then
    let segments := u32 (m.segments + 1)
    let segments := if seq = 0 ∨ m.bitmap.test (seq - 1) ≠ 0 then decSegments segments
      else segments
    let segments := if u32 (seq + 1) = m.size ∨ m.bitmap.test (seq + 1) ≠ 0 then
      decSegments segments else segments
    return { m with used := u32 (m.used + 1), segments, bitmap := m.bitmap.set seq }
  else return m

def freeLength (m : BitmapBlockMgr) : ℕ := u32 (m.size + 2 ^ 32 - m.used)

def byteSize (m : BitmapBlockMgr) : ℕ := m.segments * sizeofBlock

def lastBitNotZero (n : BitVec 64) : ℕ := n.ctz.toNat

/-- `~0l << n`, where a shift by the width of the type or more yields `wide`. -/
def onesFrom (wide : BitVec 64) (n : ℕ) : BitVec 64 :=
  if n < 64 then BitVec.allOnes 64 <<< n else wide

/-- The inner loop of `SerializeToBuffer` runs while this holds. -/
def scanning (i : ℕ) (s : BitmapScan) : Bool := s.seg ≠ 0 ∧ s.first < u32 (i + Bitmap.typeSize)

/-- `if (first < last) strm->Write(Block(first, last))`, with the blocks written so far. -/
def writeRun (blocks : List Block) (first last : ℕ) : List Block :=
  if first < last then blocks ++ [⟨first, last⟩] else blocks

def scanRun (wide : BitVec 64) (i : ℕ) (s : BitmapScan) : BitmapScan :=
  let trailingZeros := lastBitNotZero s.seg
  let last := u32 (i + trailingZeros)
  let blocks := writeRun s.blocks s.first last
  let mask := onesFrom wide trailingZeros
  let first := u32 (i + lastBitNotZero (~~~(s.seg ||| ~~~mask)))
  let mask := onesFrom wide (u32 (first + 2 ^ 32 - i))
  { seg := s.seg &&& mask, first, blocks }

def scanWord (wide : BitVec 64) (i : ℕ) (s : BitmapScan) : Option BitmapScan :=
  Loop.run (scanning i) (fun s => some (scanRun wide i s)) Bitmap.typeSize s

/-- The outer loop, over the words of the bitmap. At most one shift for a word is too wide, as
the scan of the word ends with it. -/
def scanWords (wide : ℕ → BitVec 64) (m : BitmapBlockMgr) : Option (ℕ × BitmapScan) :=
  Loop.run (fun (i, _) => i < m.size)
    (fun (i, s) => do
      let seg := m.bitmap.underlayValue (i / Bitmap.typeSize)
      let s ← scanWord (wide i) i { s with seg }
      return (u32 (i + Bitmap.typeSize), s))
    m.bitmap.vec.length (0, ⟨0, 0, []⟩)

/-- The blocks that `SerializeToBuffer` writes, if its loops end. -/
def freeBlocks (wide : ℕ → BitVec 64) (m : BitmapBlockMgr) : Option (List Block) := do
  let (_, s) ← m.scanWords wide
  return writeRun s.blocks s.first m.size

def serializeToBuffer (wide : ℕ → BitVec 64) (m : BitmapBlockMgr) (bufSize : ℕ) :
    Option (Except Fault (List UInt8)) := do
  let blocks ← m.freeBlocks wide
  return do
    let out ← blocks.foldlM (TreeBlockMgr.writeBlock bufSize) []
    require .streamTell (out.length = m.byteSize)
    return out

end BitmapBlockMgr

namespace Bitmap

def Taken (b : Bitmap) (x : ℕ) : Prop := (b.underlayValue (x / 64)).getLsbD (x % 64) = true

variable {b : Bitmap} {x pos : ℕ}

theorem offset_eq (pos : ℕ) : pos &&& (typeSize - 1) = pos % 64 :=
  Nat.and_two_pow_sub_one_eq_mod pos 6

theorem test_ne_zero : b.test pos ≠ 0 ↔ b.Taken pos := by
  have hlt : pos % 64 < 64 := Nat.mod_lt _ (by decide)
  rw [test, Taken, offset_eq]
  show (b.underlayValue (pos / 64)).sshiftRight (pos % 64) &&& 1#64 ≠ 0#64 ↔ _
  rw [BitVec.and_one_eq_setWidth_ofBool_getLsbD, BitVec.getLsbD_sshiftRight, Nat.add_zero,
    if_pos hlt]
  rcases (b.underlayValue (pos / 64)).getLsbD (pos % 64) with _ | _ <;> decide

theorem not_taken_new (n x : ℕ) : ¬(new n).Taken x := by
  have hzero : (new n).underlayValue (x / 64) = 0#64 := by
    rw [underlayValue, new, List.getD_eq_getElem?_getD, List.getElem?_replicate]
    split_ifs <;> rfl
  rw [Taken, hzero, BitVec.getLsbD_zero]
  exact Bool.false_ne_true

theorem taken_set (hpos : pos / 64 < b.vec.length) :
    (b.set pos).Taken x ↔ x = pos ∨ b.Taken x := by
  have hlt : pos % 64 < 64 := Nat.mod_lt _ (by decide)
  have hbit : ((1#64 <<< (pos % 64)).getLsbD (x % 64) = true) ↔ x % 64 = pos % 64 := by
    rw [BitVec.getLsbD_shiftLeft, BitVec.getLsbD_one]
    simp only [Bool.and_eq_true, Bool.not_eq_true', decide_eq_true_eq, decide_eq_false_iff_not]
    omega
  have hword : (b.set pos).underlayValue (x / 64) =
      if pos / 64 = x / 64 then b.underlayValue (x / 64) ||| 1#64 <<< (pos % 64)
      else b.underlayValue (x / 64) := by
    rw [set, underlayValue, underlayValue, offset_eq, List.getD_eq_getElem?_getD,
      List.getD_eq_getElem?_getD]
    show ((b.vec.modify (pos / 64) fun val => val ||| 1#64 <<< (pos % 64))[x / 64]?).getD 0 = _
    rw [List.getElem?_modify]
    split_ifs with heq
    · rw [← heq, List.getElem?_eq_getElem hpos]
      rfl
    · rcases b.vec[x / 64]? with _ | val <;> rfl
  rw [Taken, Taken, hword]
  split_ifs with heq
  · rw [BitVec.getLsbD_or, Bool.or_eq_true, hbit, or_comm]
    refine or_congr_left ⟨fun hmod => ?_, fun h => by rw [h]⟩
    omega
  · refine ⟨.inr, fun h => h.resolve_left fun hx => heq (by rw [hx])⟩

end Bitmap

namespace BitmapBlockMgr

section Bits

variable {seg n wide : BitVec 64} {j k : ℕ}

theorem lastBitNotZero_lt (h : n ≠ 0#64) : lastBitNotZero n < 64 := by
  have hlt := BitVec.ctz_lt_iff_ne_zero.mpr h
  rwa [BitVec.lt_def] at hlt

theorem lastBitNotZero_zero : lastBitNotZero 0#64 = 64 := by decide +kernel

theorem lastBitNotZero_le (n : BitVec 64) : lastBitNotZero n ≤ 64 := by
  by_cases h : n = 0#64
  · rw [h, lastBitNotZero_zero]
  · exact (lastBitNotZero_lt h).le

theorem getLsbD_onesFrom (wide : BitVec 64) (hk : k < 64) (hj : j < 64) :
    (onesFrom wide k).getLsbD j = true ↔ k ≤ j := by
  rw [onesFrom, if_pos hk, BitVec.getLsbD_shiftLeft, BitVec.getLsbD_allOnes]
  simp only [Bool.and_eq_true, Bool.not_eq_true', decide_eq_true_eq, decide_eq_false_iff_not]
  omega

variable (wide) in
theorem lastBitNotZero_ones (hk : k < 64) (hbit : seg.getLsbD k = true) :
    let f := lastBitNotZero (~~~(seg ||| ~~~onesFrom wide k))
    k < f ∧ f ≤ 64 ∧ (∀ j, k ≤ j → j < f → seg.getLsbD j = true) ∧
      (f < 64 → seg.getLsbD f = false) := by
  intro f
  have hnot : ∀ j < 64, (~~~(seg ||| ~~~onesFrom wide k)).getLsbD j = true ↔
      seg.getLsbD j = false ∧ k ≤ j := by
    intro j hj
    have hones := getLsbD_onesFrom wide hk hj
    rw [BitVec.getLsbD_not, BitVec.getLsbD_or, BitVec.getLsbD_not, ← hones]
    simp [hj]
  have hle : f ≤ 64 := lastBitNotZero_le _
  have hend : f < 64 → seg.getLsbD f = false ∧ k ≤ f := by
    intro hf
    refine (hnot f hf).mp (BitVec.getLsbD_true_ctz_of_ne_zero fun hzero => ?_)
    exact absurd hf (by rw [show f = lastBitNotZero _ from rfl, hzero, lastBitNotZero_zero]; decide)
  refine ⟨?_, hle, fun j hkj hj => ?_, fun hf => (hend hf).1⟩
  · rcases Nat.lt_or_eq_of_le hle with hf | hf
    · obtain ⟨hfalse, hkf⟩ := hend hf
      refine Nat.lt_of_le_of_ne hkf fun heq => ?_
      rw [← heq, hbit] at hfalse
      exact Bool.false_ne_true hfalse.symm
    · omega
  · have hzero := BitVec.getLsbD_false_of_lt_ctz hj
    by_contra hseg
    rw [(hnot j (by omega)).mpr ⟨Bool.eq_false_of_not_eq_true hseg, hkj⟩] at hzero
    exact Bool.false_ne_true hzero.symm

end Bits

section Scan

/-- All positions below `i` have been looked at: the free ones below `first` are in the blocks
written, those from there on are free. -/
structure Scanned (taken : Finset ℕ) (i : ℕ) (s : BitmapScan) : Prop where
  separated : Separated Block.first Block.last s.blocks
  before : ∀ b ∈ s.blocks, b.last < s.first
  covers : ∀ x, Covers Block.first Block.last s.blocks x ↔ x < s.first ∧ x ∉ taken
  free : ∀ x, s.first ≤ x → x < i → x ∉ taken
  start : s.first = 0 ∨ s.first - 1 ∈ taken

/-- The word at `i` is being scanned; what is left of it are its bits from `first` on. -/
structure ScansWord (taken : Finset ℕ) (i : ℕ) (s : BitmapScan) : Prop
    extends Scanned taken i s where
  first_le : s.first ≤ i + 64
  seg_iff : s.first < i + 64 → ∀ j < 64, s.seg.getLsbD j = true ↔ i + j ∈ taken ∧ s.first ≤ i + j

variable {taken : Finset ℕ} {i : ℕ} {s s' : BitmapScan} {wide : BitVec 64}

theorem Scanned.writeRun (h : Scanned taken i s) (last : ℕ) :
    Separated Block.first Block.last (writeRun s.blocks s.first last) ∧
      (∀ b ∈ writeRun s.blocks s.first last, b.last < s.first ∨ b.last = last) ∧
      ∀ x, Covers Block.first Block.last (writeRun s.blocks s.first last) x ↔
        x < s.first ∧ x ∉ taken ∨ s.first ≤ x ∧ x < last := by
  unfold BitmapBlockMgr.writeRun
  split_ifs with hrun
  · refine ⟨separated_append.mpr ⟨h.separated, separated_singleton hrun, fun a ha b hb => ?_⟩,
      fun b hb => ?_, fun x => ?_⟩
    · rw [List.mem_singleton.mp hb]
      exact h.before a ha
    · rcases List.mem_append.mp hb with hb | hb
      · exact .inl (h.before b hb)
      · rw [List.mem_singleton.mp hb]
        exact .inr rfl
    · rw [covers_append, covers_cons, h.covers]
      simp
  · refine ⟨h.separated, fun b hb => .inl (h.before b hb), fun x => ?_⟩
    rw [h.covers]
    refine ⟨.inl, fun hx => hx.resolve_right fun hx' => ?_⟩
    omega

theorem Scanned.skip (h : Scanned taken i s) {last first : ℕ} (hle : s.first ≤ last)
    (hlt : last < first) (hi : i ≤ first) (hfree : ∀ x, s.first ≤ x → x < last → x ∉ taken)
    (htaken : ∀ x, last ≤ x → x < first → x ∈ taken) (seg : BitVec 64) :
    Scanned taken i ⟨seg, first, BitmapBlockMgr.writeRun s.blocks s.first last⟩ := by
  obtain ⟨hsep, hbefore, hcovers⟩ := h.writeRun last
  refine ⟨hsep, fun b hb => ?_, fun x => ?_, fun x hx hxi => ?_, .inr (htaken _ ?_ ?_)⟩
  · dsimp only
    rcases hbefore b hb with hb | hb <;> omega
  · rw [hcovers]
    have h₁ := hfree x
    have h₂ := htaken x
    constructor
    · rintro (⟨hx, hn⟩ | ⟨hx, hx'⟩)
      · exact ⟨by dsimp only; omega, hn⟩
      · exact ⟨by dsimp only; omega, h₁ hx hx'⟩
    · rintro ⟨hx, hn⟩
      rcases Nat.lt_or_ge x s.first with hx' | hx'
      · exact .inl ⟨hx', hn⟩
      · exact .inr ⟨hx', Nat.lt_of_not_le fun hge => hn (h₂ hge hx)⟩
  · exact absurd (Nat.lt_of_lt_of_le hxi hi) (Nat.not_lt.mpr hx)
  · dsimp only
    omega
  · dsimp only
    omega

theorem scanning_iff (hi : i + 64 < 2 ^ 32) :
    scanning i s = true ↔ s.seg ≠ 0#64 ∧ s.first < i + 64 := by
  rw [scanning, Bitmap.typeSize, u32_of_lt hi, decide_eq_true_iff]
  rfl

theorem ScansWord.scanRun (h : ScansWord taken i s) (hi : i + 64 < 2 ^ 32)
    (hc : scanning i s = true) :
    ScansWord taken i (scanRun wide i s) ∧ max s.first i < (scanRun wide i s).first := by
  obtain ⟨hne, hfirst⟩ := (scanning_iff hi).mp hc
  have hseg := h.seg_iff hfirst
  have htz : lastBitNotZero s.seg < 64 := lastBitNotZero_lt hne
  have hbit : s.seg.getLsbD (lastBitNotZero s.seg) = true :=
    BitVec.getLsbD_true_ctz_of_ne_zero hne
  have hlow : ∀ j < lastBitNotZero s.seg, s.seg.getLsbD j = false :=
    fun j hj => BitVec.getLsbD_false_of_lt_ctz hj
  obtain ⟨hlt, hle, hones, hzero⟩ := lastBitNotZero_ones wide htz hbit
  generalize htz' : lastBitNotZero s.seg = tz at *
  generalize hf : lastBitNotZero (~~~(s.seg ||| ~~~onesFrom wide tz)) = f at *
  have hstart := ((hseg tz htz).mp hbit).2
  have hrun : BitmapBlockMgr.scanRun wide i s = ⟨s.seg &&& onesFrom wide f, i + f,
      BitmapBlockMgr.writeRun s.blocks s.first (i + tz)⟩ := by
    rw [BitmapBlockMgr.scanRun, htz', hf, u32_of_lt (by omega : i + tz < 2 ^ 32),
      u32_of_lt (by omega : i + f < 2 ^ 32),
      show u32 (i + f + 2 ^ 32 - i) = f by rw [u32]; omega]
  rw [hrun]
  -- The bits of the word, as positions.
  have hpos : ∀ x, i ≤ x → x < i + 64 →
      (s.seg.getLsbD (x - i) = true ↔ x ∈ taken ∧ s.first ≤ x) := by
    intro x hx hx'
    have := hseg (x - i) (by omega)
    rwa [Nat.add_sub_cancel' hx] at this
  refine ⟨⟨h.toScanned.skip hstart (by omega) (by omega) ?_ ?_ _, ?_, ?_⟩, ?_⟩
  · intro x hx hx' hmem
    rcases Nat.lt_or_ge x i with hxi | hxi
    · exact h.free x hx hxi hmem
    · have hfalse := hlow (x - i) (by omega)
      rw [(hpos x hxi (by omega)).mpr ⟨hmem, hx⟩] at hfalse
      exact Bool.false_ne_true hfalse.symm
  · intro x hx hx'
    exact ((hpos x (by omega) (by omega)).mp (hones (x - i) (by omega) (by omega))).1
  · exact Nat.add_le_add_left hle i
  · intro hf' j hj
    dsimp only at hf' ⊢
    rw [BitVec.getLsbD_and, Bool.and_eq_true, hseg j hj, getLsbD_onesFrom wide (by omega) hj]
    constructor
    · rintro ⟨⟨hmem, -⟩, hfj⟩
      exact ⟨hmem, Nat.add_le_add_left hfj i⟩
    · rintro ⟨hmem, hfj⟩
      exact ⟨⟨hmem, by omega⟩, by omega⟩
  · show max s.first i < i + f
    omega

theorem Scanned.scanWord (h : Scanned taken i s) (wide : BitVec 64) (hfirst : s.first ≤ i)
    (hi : i + 64 < 2 ^ 32) (hseg : ∀ j < 64, s.seg.getLsbD j = true ↔ i + j ∈ taken) :
    ∃ s', scanWord wide i s = some s' ∧ Scanned taken (i + 64) s' ∧ s'.first ≤ i + 64 := by
  have hstart : ScansWord taken i s := by
    refine ⟨h, by omega, fun _ j hj => ?_⟩
    rw [hseg j hj, and_iff_left (by omega)]
  obtain ⟨s', hrun, hinv, hc⟩ : ∃ s', BitmapBlockMgr.scanWord wide i s = some s' ∧
      ScansWord taken i s' ∧ scanning i s' = false := by
    refine Loop.run_spec _ (fun s => i + 64 - max s.first i) (fun s hs hc => ?_) hstart ?_
    · obtain ⟨hs', hlt⟩ := hs.scanRun hi hc
      have := (scanning_iff hi).mp hc
      exact ⟨_, rfl, hs', by omega⟩
    · show i + 64 - max s.first i ≤ 64
      omega
  refine ⟨s', hrun, ⟨hinv.separated, hinv.before, hinv.covers, fun x hx hx' hmem => ?_,
    hinv.start⟩, hinv.first_le⟩
  rcases Nat.lt_or_ge x i with hxi | hxi
  · exact hinv.free x hx hxi hmem
  · have hbit := hinv.seg_iff (by omega) (x - i) (by omega)
    rw [Nat.add_sub_cancel' hxi] at hbit
    -- Below the end of the word the loop can only have ended because no bit was left.
    have hzero : s'.seg = 0#64 := by
      by_contra hne
      rw [(scanning_iff hi).mpr ⟨hne, by omega⟩] at hc
      exact Bool.false_ne_true hc.symm
    have htrue := hbit.mpr ⟨hmem, hx⟩
    rw [hzero, BitVec.getLsbD_zero] at htrue
    exact Bool.false_ne_true htrue

end Scan

/-- `m` represents the numbers below its size of which `taken` have been taken. -/
structure Rep (m : BitmapBlockMgr) (taken : Finset ℕ) : Prop where
  size_pos : 0 < m.size
  size_le : m.size ≤ 2 ^ 32 - 64
  words : m.bitmap.vec.length = (m.size + 63) / 64
  taken_iff : ∀ x, m.bitmap.Taken x ↔ x ∈ taken
  used_eq : m.used = taken.card
  taken_lt : ∀ x ∈ taken, x < m.size

variable {m : BitmapBlockMgr} {taken : Finset ℕ} {seq : ℕ}

theorem Rep.getLsbD_iff (h : m.Rep taken) {i j : ℕ} (hi : i % 64 = 0) (hj : j < 64) :
    (m.bitmap.underlayValue (i / Bitmap.typeSize)).getLsbD j = true ↔ i + j ∈ taken := by
  have hdiv : (i + j) / 64 = i / 64 := by omega
  have hmod : (i + j) % 64 = j := by omega
  rw [← h.taken_iff, Bitmap.Taken, hdiv, hmod]
  rfl

theorem Rep.scanWords (h : m.Rep taken) (wide : ℕ → BitVec 64) :
    ∃ i s, m.scanWords wide = some (i, s) ∧ m.size ≤ i ∧ Scanned taken i s := by
  have hsize := h.size_le
  obtain ⟨⟨i, s⟩, hrun, ⟨-, hscanned, -⟩, hend⟩ : ∃ r, m.scanWords wide = some r ∧
      (r.1 % 64 = 0 ∧ Scanned taken r.1 r.2 ∧ r.2.first ≤ r.1) ∧ decide (r.1 < m.size) = false := by
    refine Loop.run_spec
      (fun r : ℕ × BitmapScan => r.1 % 64 = 0 ∧ Scanned taken r.1 r.2 ∧ r.2.first ≤ r.1)
      (fun r => (m.size + 63 - r.1) / 64) ?_ ?_ (by rw [h.words]; exact le_rfl)
    · rintro ⟨i, s⟩ ⟨hi, hs, hle⟩ hc
      have hlt : i < m.size := of_decide_eq_true hc
      have hs₀ : Scanned taken i { s with seg := m.bitmap.underlayValue (i / Bitmap.typeSize) } :=
        ⟨hs.separated, hs.before, hs.covers, hs.free, hs.start⟩
      obtain ⟨s', hword, hs', hle'⟩ := hs₀.scanWord (wide i) hle (by omega)
        fun j hj => h.getLsbD_iff hi hj
      have hu : u32 (i + Bitmap.typeSize) = i + 64 := u32_of_lt (by rw [Bitmap.typeSize]; omega)
      dsimp only at hi ⊢
      refine ⟨(i + 64, s'), ?_, ⟨?_, hs', hle'⟩, ?_⟩
      · rw [hword, hu]
        rfl
      · dsimp only
        omega
      · dsimp only
        omega
    · refine ⟨rfl, ⟨separated_nil, fun b hb => (nomatch hb), fun x => ?_, fun x _ hx => ?_,
        .inl rfl⟩, le_rfl⟩
      · simp
      · exact absurd hx (Nat.not_lt_zero x)
  exact ⟨i, s, hrun, Nat.le_of_not_lt (of_decide_eq_false hend), hscanned⟩

theorem Rep.freeBlocks (h : m.Rep taken) (wide : ℕ → BitVec 64) :
    ∃ blocks, m.freeBlocks wide = some blocks ∧ Separated Block.first Block.last blocks ∧
      ∀ x, Covers Block.first Block.last blocks x ↔ x < m.size ∧ x ∉ taken := by
  obtain ⟨i, s, hrun, hge, hs⟩ := h.scanWords wide
  -- The last run that was skipped ends at a taken number, so below the size.
  have hfirst : s.first ≤ m.size := by
    rcases hs.start with hzero | hmem
    · rw [hzero]
      exact Nat.zero_le _
    · have := h.taken_lt _ hmem
      omega
  obtain ⟨hsep, -, hcovers⟩ := hs.writeRun m.size
  refine ⟨_, by rw [BitmapBlockMgr.freeBlocks, hrun]; rfl, hsep, fun x => ?_⟩
  rw [hcovers]
  constructor
  · rintro (⟨hx, hn⟩ | ⟨hx, hx'⟩)
    · exact ⟨by omega, hn⟩
    · exact ⟨hx', hs.free x hx (by omega)⟩
  · rintro ⟨hx, hn⟩
    rcases Nat.lt_or_ge x s.first with hx' | hx'
    · exact .inl ⟨hx', hn⟩
    · exact .inr ⟨hx', hx⟩

theorem Rep.freeBlocks_eq (h : m.Rep taken) {blocks : List Block}
    (hsep : Separated Block.first Block.last blocks)
    (hcovers : ∀ x, Covers Block.first Block.last blocks x ↔ x < m.size ∧ x ∉ taken)
    (wide : ℕ → BitVec 64) : m.freeBlocks wide = some blocks := by
  obtain ⟨blocks', hblocks, hsep', hcovers'⟩ := h.freeBlocks wide
  rw [hblocks]
  refine congrArg some (hsep'.eq_of_covers_iff hsep ?_ fun x => ?_)
  · rintro ⟨a, b⟩ ⟨c, d⟩ hfirst hlast
    exact congrArg₂ Block.mk hfirst hlast
  · rw [hcovers', hcovers]

theorem new_rep {n : ℕ} (hpos : 1 ≤ n) (hle : n ≤ 2 ^ 32 - 64) : (new n).Rep ∅ := by
  have hu : u32 n = n := u32_of_lt (by omega)
  refine ⟨by show 0 < u32 n; omega, by show u32 n ≤ _; omega, ?_, fun x => ?_, rfl, by simp⟩
  · show (List.replicate ((n + 64 - 1) / 64) _).length = (u32 n + 63) / 64
    rw [List.length_replicate, hu]
    omega
  · exact iff_of_false (Bitmap.not_taken_new n x) (Finset.notMem_empty x)

theorem Rep.check_eq (h : m.Rep taken) (hs : seq < m.size) :
    m.check seq = .ok (decide (seq ∈ taken)) := by
  rw [check, require_bind _ hs]
  refine congrArg Except.ok (decide_eq_decide.mpr ?_)
  rw [Bitmap.test_ne_zero, h.taken_iff]

theorem decSegments_ite {p : Prop} [Decidable p] {k : ℕ} (hpos : 1 ≤ k) (hlt : k < 2 ^ 32) :
    (if p then decSegments k else k) + (if p then 1 else 0) = k := by
  unfold decSegments u32
  split_ifs <;> omega

theorem Rep.test_iff (h : m.Rep taken) (x : ℕ) : m.bitmap.test x ≠ 0 ↔ x ∈ taken :=
  Bitmap.test_ne_zero.trans (h.taken_iff x)

theorem Rep.take_of_mem (h : m.Rep taken) (hs : seq < m.size) (hmem : seq ∈ taken) :
    m.take seq = .ok m := by
  rw [BitmapBlockMgr.take, require_bind _ hs, if_neg ((h.test_iff seq).mpr hmem)]
  rfl

theorem Rep.take_rep (h : m.Rep taken) (hs : seq < m.size) (hn : seq ∉ taken) :
    ∃ m', m.take seq = .ok m' ∧ m'.size = m.size ∧ m'.Rep (insert seq taken) := by
  have hsize := h.size_le
  have hzero : m.bitmap.test seq = 0 := not_not.mp fun hne => hn ((h.test_iff seq).mp hne)
  have hcard : (insert seq taken).card ≤ m.size := by
    have hsub : insert seq taken ⊆ Finset.range m.size := by
      intro x hx
      rcases Finset.mem_insert.mp hx with rfl | hx
      · exact Finset.mem_range.mpr hs
      · exact Finset.mem_range.mpr (h.taken_lt x hx)
    simpa using Finset.card_le_card hsub
  rw [Finset.card_insert_of_notMem hn] at hcard
  rw [BitmapBlockMgr.take, require_bind _ hs, if_pos hzero]
  refine ⟨_, rfl, rfl, ⟨h.size_pos, h.size_le, ?_, fun x => ?_, ?_, fun x hx => ?_⟩⟩
  · show (m.bitmap.vec.modify _ _).length = _
    rw [List.length_modify, h.words]
  · show (m.bitmap.set seq).Taken x ↔ _
    rw [Bitmap.taken_set (by rw [h.words]; omega), h.taken_iff, Finset.mem_insert]
  · show u32 (m.used + 1) = _
    rw [Finset.card_insert_of_notMem hn, h.used_eq]
    exact u32_of_lt (by omega)
  · rcases Finset.mem_insert.mp hx with rfl | hx
    · exact hs
    · exact h.taken_lt x hx

theorem Rep.take (h : m.Rep taken) (hs : seq < m.size) (hn : seq ∉ taken)
    (hpos : 1 ≤ m.segments) (hlt : m.segments + 1 < 2 ^ 32) :
    ∃ m', m.take seq = .ok m' ∧ m'.size = m.size ∧ m'.Rep (insert seq taken) ∧
      m'.segments + (if seq = 0 ∨ seq - 1 ∈ taken then 1 else 0) +
        (if seq + 1 = m.size ∨ seq + 1 ∈ taken then 1 else 0) = m.segments + 1 := by
  have hsize := h.size_le
  have hzero : m.bitmap.test seq = 0 := not_not.mp fun hne => hn ((h.test_iff seq).mp hne)
  obtain ⟨m', hm', hsize', hrep⟩ := h.take_rep hs hn
  refine ⟨m', hm', hsize', hrep, ?_⟩
  rw [BitmapBlockMgr.take, require_bind _ hs, if_pos hzero] at hm'
  cases hm'
  simp only [h.test_iff, u32_of_lt hlt, u32_of_lt (show seq + 1 < 2 ^ 32 by omega)]
  have hleft := decSegments_ite (p := seq = 0 ∨ seq - 1 ∈ taken) (by omega) hlt
  have hright := decSegments_ite (p := seq + 1 = m.size ∨ seq + 1 ∈ taken)
    (show 1 ≤ if seq = 0 ∨ seq - 1 ∈ taken then decSegments (m.segments + 1)
      else m.segments + 1 by split_ifs at hleft ⊢ <;> omega) (by omega)
  omega

end BitmapBlockMgr

namespace TreeBlockMgr

variable {t : TreeBlockMgr} {taken : Finset ℕ} {s : ℕ}

theorem length_keep (b : Block) : (keep b).length = if b.first = b.last then 0 else 1 := by
  rw [keep]
  split_ifs <;> rfl

theorem Rep.take_length (h : t.Rep taken) (hs : s < t.size) (hn : s ∉ taken) :
    ∃ t', t.take s = .ok t' ∧ t'.size = t.size ∧ t'.Rep (insert s taken) ∧
      t'.tree.length + (if s = 0 ∨ s - 1 ∈ taken then 1 else 0) +
        (if s + 1 = t.size ∨ s + 1 ∈ taken then 1 else 0) = t.tree.length + 1 := by
  obtain ⟨t', htake', hsize, hrep⟩ := h.take hs hn
  obtain ⟨pre, it, post, heq, hlo, hhi, htake⟩ := h.take_eq hs hn
  cases htake'.symm.trans htake
  have hmem : it ∈ t.tree := heq ▸ List.mem_append_right _ (List.mem_cons_self ..)
  obtain ⟨-, hin, hleft, hright⟩ := (h.mem_tree_iff it.first it.last).mp hmem
  have hlast := h.last_le hmem
  have hfirst_iff : it.first = s ↔ s = 0 ∨ s - 1 ∈ taken := by
    constructor
    · rintro rfl
      refine hleft.imp id fun hu => ?_
      by_contra hfree
      exact hu ⟨by omega, hfree⟩
    · rintro (hzero | hprev)
      · omega
      · by_contra hne
        exact (hin (s - 1) (by omega) (by omega)).2 hprev
  have hlast_iff : s + 1 = it.last ↔ s + 1 = t.size ∨ s + 1 ∈ taken := by
    constructor
    · intro heq'
      rw [← heq'] at hright hlast
      by_cases hend : s + 1 = t.size
      · exact .inl hend
      · right
        by_contra hfree
        exact hright ⟨by omega, hfree⟩
    · rintro (hend | hnext)
      · omega
      · by_contra hne
        exact (hin (s + 1) (by omega) (by omega)).2 hnext
  refine ⟨_, htake, rfl, hrep, ?_⟩
  rw [heq, cut]
  simp only [List.length_append, List.length_cons, length_keep, ← hfirst_iff, ← hlast_iff]
  split_ifs <;> omega

end TreeBlockMgr

/-- A take that is guarded by `Check`. -/
def BitmapBlockMgr.checkAndTake (m : BitmapBlockMgr) (seq : ℕ) : Except Fault BitmapBlockMgr := do
  if ← m.check seq then return m else m.take seq

def TreeBlockMgr.checkAndTake (t : TreeBlockMgr) (seq : ℕ) : Except Fault TreeBlockMgr :=
  if t.check seq then .ok t else t.take seq

/-- Two managers that no caller can tell apart, whatever a shift that is too wide yields. -/
structure Interchangeable (m : BitmapBlockMgr) (t : TreeBlockMgr) : Prop where
  size : m.size = t.size
  check : ∀ s < t.size, m.check s = .ok (t.check s)
  freeLength : m.freeLength = t.freeLength
  byteSize : m.byteSize = t.byteSize
  serialize : ∀ wide, ∃ out, m.serializeToBuffer wide m.byteSize = some (.ok out) ∧
    t.serializeToBuffer t.byteSize = .ok out

structure Twins (taken : Finset ℕ) (m : BitmapBlockMgr) (t : TreeBlockMgr) : Prop where
  bitmap : m.Rep taken
  tree : t.Rep taken
  size : m.size = t.size
  segments : m.segments = t.tree.length

namespace Twins

variable {taken : Finset ℕ} {m : BitmapBlockMgr} {t : TreeBlockMgr} {s n : ℕ}

theorem new (hpos : 1 ≤ n) (hle : n ≤ 2 ^ 32 - 64) : Twins ∅ (.new n) (.new n) :=
  ⟨BitmapBlockMgr.new_rep hpos hle, TreeBlockMgr.new_rep (by rw [u32_of_lt (by omega)]; omega),
    rfl, rfl⟩

theorem take (h : Twins taken m t) (hs : s < t.size) (hmem : s ∉ taken) :
    ∃ m' t', m.take s = .ok m' ∧ t.take s = .ok t' ∧ Twins (insert s taken) m' t' ∧
      t'.size = t.size := by
  -- A number that is free lies in some block, and there are no more blocks than numbers.
  have hle := h.tree.separated.two_mul_length_le fun b hb => h.tree.last_le hb
  have hpos : 1 ≤ t.tree.length := by
    obtain ⟨b, hb, -⟩ := (h.tree.covers_iff s).mpr ⟨hs, hmem⟩
    exact List.length_pos_of_mem hb
  have hsize := h.bitmap.size_le
  rw [h.size] at hsize
  obtain ⟨m', hm', hsize', hrep, hsegments⟩ := h.bitmap.take (h.size.symm ▸ hs) hmem
    (by rw [h.segments]; exact hpos) (by rw [h.segments]; omega)
  obtain ⟨t', ht', htsize, htrep, hlength⟩ := h.tree.take_length hs hmem
  refine ⟨m', t', hm', ht', ⟨hrep, htrep, by rw [hsize', htsize, h.size], ?_⟩, htsize⟩
  rw [h.segments, h.size] at hsegments
  omega

theorem checkAndTake (h : Twins taken m t) (hs : s < t.size) :
    ∃ taken' m' t', m.checkAndTake s = .ok m' ∧ t.checkAndTake s = .ok t' ∧ Twins taken' m' t' ∧
      t'.size = t.size := by
  have hm := h.bitmap.check_eq (h.size.symm ▸ hs)
  have ht := h.tree.check_iff hs
  rw [BitmapBlockMgr.checkAndTake, TreeBlockMgr.checkAndTake, hm, ok_bind]
  by_cases hmem : s ∈ taken
  · rw [decide_eq_true hmem, if_pos rfl, if_pos (ht.mpr hmem)]
    exact ⟨taken, m, t, rfl, rfl, h, rfl⟩
  · rw [decide_eq_false hmem, if_neg Bool.false_ne_true, if_neg (fun hc => hmem (ht.mp hc))]
    exact ⟨_, h.take hs hmem⟩

theorem interchangeable (h : Twins taken m t) : Interchangeable m t := by
  have hbytes : m.byteSize = t.byteSize := by
    rw [BitmapBlockMgr.byteSize, TreeBlockMgr.byteSize, h.segments]
  refine ⟨h.size, fun s hs => ?_, ?_, hbytes, fun wide => ?_⟩
  · rw [h.bitmap.check_eq (h.size.symm ▸ hs)]
    refine congrArg Except.ok ?_
    rw [Bool.eq_iff_iff, decide_eq_true_iff, h.tree.check_iff hs]
  · rw [BitmapBlockMgr.freeLength, TreeBlockMgr.freeLength, h.size, h.bitmap.used_eq,
      h.tree.used_eq]
  · have hblocks := h.bitmap.freeBlocks_eq h.tree.separated
      (fun x => by rw [h.tree.covers_iff, h.size]) wide
    refine ⟨_, ?_, TreeBlockMgr.serializeToBuffer_byteSize t⟩
    rw [BitmapBlockMgr.serializeToBuffer, hblocks, hbytes]
    exact congrArg some (TreeBlockMgr.serializeToBuffer_byteSize t)

theorem foldlM (h : Twins taken m t) {seqs : List ℕ} (hseqs : ∀ s ∈ seqs, s < t.size) :
    ∃ taken' m' t', seqs.foldlM BitmapBlockMgr.checkAndTake m = .ok m' ∧
      seqs.foldlM TreeBlockMgr.checkAndTake t = .ok t' ∧ Twins taken' m' t' ∧
      t'.size = t.size := by
  induction seqs generalizing taken m t with
  | nil => exact ⟨taken, m, t, rfl, rfl, h, rfl⟩
  | cons s seqs ih =>
    obtain ⟨taken₁, m₁, t₁, hm, ht, h₁, hsize⟩ := h.checkAndTake (hseqs s (.head _))
    obtain ⟨taken₂, m₂, t₂, hm', ht', h₂, hsize'⟩ :=
      ih h₁ fun s hs => hsize ▸ hseqs s (.tail _ hs)
    refine ⟨taken₂, m₂, t₂, ?_, ?_, h₂, hsize'.trans hsize⟩
    · rw [List.foldlM_cons, hm]
      exact hm'
    · rw [List.foldlM_cons, ht]
      exact ht'

end Twins

/-- At a fixed size the bitmap and the tree answer and write the same, after any guarded takes. -/
theorem block_mgrs_interchangeable {n : ℕ} (hpos : 1 ≤ n) (hle : n ≤ 2 ^ 32 - 64)
    {seqs : List ℕ} (hseqs : ∀ s ∈ seqs, s < n) :
    ∃ m t, seqs.foldlM BitmapBlockMgr.checkAndTake (.new n) = .ok m ∧
      seqs.foldlM TreeBlockMgr.checkAndTake (.new n) = .ok t ∧ t.size = n ∧
      Interchangeable m t := by
  have hsize : (TreeBlockMgr.new n).size = n := u32_of_lt (by omega)
  obtain ⟨_, m, t, hm, ht, htwins, htsize⟩ := (Twins.new hpos hle).foldlM (hsize.symm ▸ hseqs)
  exact ⟨m, t, hm, ht, htsize.trans hsize, htwins.interchangeable⟩

theorem block_mgrs_interchangeable_seventy :
    ∃ m t, [0, 63, 64, 63, 69].foldlM BitmapBlockMgr.checkAndTake (.new 70) = .ok m ∧
      [0, 63, 64, 63, 69].foldlM TreeBlockMgr.checkAndTake (.new 70) = .ok t ∧ t.size = 70 ∧
      Interchangeable m t :=
  block_mgrs_interchangeable (by decide) (by decide) (by decide)

-- A run that ends with the first word and one that starts within the second.
example : ([0, 63, 64].foldlM BitmapBlockMgr.checkAndTake (.new 70)).map
    (fun m => m.freeBlocks fun _ => 5) = .ok (some [⟨1, 63⟩, ⟨65, 70⟩]) := by decide +kernel

end Mlt
