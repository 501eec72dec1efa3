import MltByteps.Mlt.BitmapGrowth

/-! The bit operations that `SerializeToBuffer` performs on the words of the bitmap: `ctz` is
defined for arguments other than 0, a shift of a `long` for amounts below 64. -/

namespace Mlt

inductive BitOp where
  | ctz (arg : BitVec 64)
  | shl (amount : ℕ)
deriving DecidableEq, Repr

def BitOp.Defined : BitOp → Prop
  | .ctz arg => arg ≠ 0#64
  | .shl amount => amount < 64

namespace BitmapBlockMgr

def scanRunOps (wide : BitVec 64) (i : ℕ) (s : BitmapScan) : List BitOp :=
  let trailingZeros := lastBitNotZero s.seg
  let mask := onesFrom wide trailingZeros
  let first := u32 (i + lastBitNotZero (~~~(s.seg ||| ~~~mask)))
  [.ctz s.seg, .shl trailingZeros, .ctz (~~~(s.seg ||| ~~~mask)),
    .shl (u32 (first + 2 ^ 32 - i))]

/-- `scanWord` with the operations so far. -/
def tracedWord (wide : BitVec 64) (i : ℕ) (r : BitmapScan × List BitOp) :
    Option (BitmapScan × List BitOp) :=
  Loop.run (fun r => scanning i r.1)
    (fun r => some (scanRun wide i r.1, r.2 ++ scanRunOps wide i r.1)) Bitmap.typeSize r

/-- `scanWords` with the operations so far. -/
def tracedWords (wide : ℕ → BitVec 64) (m : BitmapBlockMgr) :
    Option (ℕ × BitmapScan × List BitOp) :=
  Loop.run (fun r => r.1 < m.size)
    (fun r => do
      let seg := m.bitmap.underlayValue (r.1 / Bitmap.typeSize)
      let scan ← tracedWord (wide r.1) r.1 ({ r.2.1 with seg }, r.2.2)
      return (u32 (r.1 + Bitmap.typeSize), scan))
    m.bitmap.vec.length (0, ⟨0, 0, []⟩, [])

/-- All bit operations of `SerializeToBuffer`, if its loops end. -/
def serializeOps (wide : ℕ → BitVec 64) (m : BitmapBlockMgr) : Option (List BitOp) :=
  (m.tracedWords wide).map (·.2.2)

theorem tracedWord_fst (wide : BitVec 64) (i : ℕ) (r : BitmapScan × List BitOp) :
    (tracedWord wide i r).map (·.1) = scanWord wide i r.1 :=
  Loop.run_map Prod.fst (fun _ => rfl) (fun _ => rfl) _ r

theorem tracedWords_fst (wide : ℕ → BitVec 64) (m : BitmapBlockMgr) :
    (m.tracedWords wide).map (fun r => (r.1, r.2.1)) = m.scanWords wide := by
  unfold tracedWords scanWords
  refine Loop.run_map (fun r : ℕ × BitmapScan × List BitOp => (r.1, r.2.1)) (fun r => ?_)
    (fun r => ?_) _ _
  · rfl
  dsimp only
  rw [← tracedWord_fst _ _
    ({ r.2.1 with seg := m.bitmap.underlayValue (r.1 / Bitmap.typeSize) }, r.2.2)]
  rcases tracedWord (wide r.1) r.1 _ with _ | scan <;> rfl

/-! ## One word -/

variable {taken : Finset ℕ} {i : ℕ} {s : BitmapScan} {ops : List BitOp}

/-- The operations so far are defined unless a taken number below `first` is the last of its
word. -/
def TracedTo (taken : Finset ℕ) (first : ℕ) (ops : List BitOp) : Prop :=
  (∀ op ∈ ops, op.Defined) ↔ ∀ x ∈ taken, x < first → x % 64 ≠ 63

theorem lastBitNotZero_lt_iff {n : BitVec 64} : lastBitNotZero n < 64 ↔ n ≠ 0#64 := by
  refine ⟨fun h hzero => ?_, lastBitNotZero_lt⟩
  rw [hzero, lastBitNotZero_zero] at h
  exact absurd h (by decide)

theorem scanRunOps_defined_iff (wide : BitVec 64) (hi : i + 64 < 2 ^ 32)
    (hne : s.seg ≠ 0#64) :
    (∀ op ∈ scanRunOps wide i s, op.Defined) ↔ (scanRun wide i s).first < i + 64 := by
  have htz := lastBitNotZero_lt hne
  have hle := lastBitNotZero_le (~~~(s.seg ||| ~~~onesFrom wide (lastBitNotZero s.seg)))
  have hiff := @lastBitNotZero_lt_iff (~~~(s.seg ||| ~~~onesFrom wide (lastBitNotZero s.seg)))
  rw [scanRunOps, scanRun]
  generalize ~~~(s.seg ||| ~~~onesFrom wide (lastBitNotZero s.seg)) = arg at hle hiff ⊢
  have hfirst : u32 (i + lastBitNotZero arg) = i + lastBitNotZero arg := u32_of_lt (by omega)
  have hshift : u32 (i + lastBitNotZero arg + 2 ^ 32 - i) = lastBitNotZero arg := by
    unfold u32
    omega
  simp only [List.mem_cons, List.not_mem_nil, or_false, forall_eq_or_imp, forall_eq,
    BitOp.Defined, hfirst, hshift, ← hiff]
  constructor
  · rintro ⟨-, -, -, h⟩
    omega
  · intro h
    exact ⟨hne, htz, by omega, by omega⟩

theorem ScansWord.tracedTo (h : ScansWord taken i s) (wide : BitVec 64) (hi : i + 64 < 2 ^ 32)
    (hmod : i % 64 = 0) (hc : scanning i s = true) (hops : TracedTo taken s.first ops) :
    TracedTo taken (BitmapBlockMgr.scanRun wide i s).first (ops ++ scanRunOps wide i s) := by
  obtain ⟨hne, hfirst⟩ := (scanning_iff hi).mp hc
  obtain ⟨h', hlt⟩ := @ScansWord.scanRun taken i s wide h hi hc
  have hround := scanRunOps_defined_iff wide hi hne
  have hle := h'.first_le
  have hstart := h'.start
  generalize (BitmapBlockMgr.scanRun wide i s).first = first at hlt hround hle hstart ⊢
  unfold TracedTo at hops ⊢
  rw [List.forall_mem_append, hops, hround]
  constructor
  · rintro ⟨hold, hnew⟩ x hx hxlt
    rcases Nat.lt_or_ge x s.first with hxs | hxs
    · exact hold x hx hxs
    · have hxi : i ≤ x := Nat.le_of_not_lt fun hxi => h.free x hxs hxi hx
      omega
  · intro hall
    refine ⟨fun x hx hxs => hall x hx (by omega), Nat.lt_of_le_of_ne hle fun heq => ?_⟩
    have hmem := hstart.resolve_left (by omega)
    exact hall _ hmem (by omega) (by omega)

theorem Scanned.tracedWord (h : Scanned taken i s) (wide : BitVec 64) (hfirst : s.first ≤ i)
    (hi : i + 64 < 2 ^ 32) (hmod : i % 64 = 0)
    (hseg : ∀ j < 64, s.seg.getLsbD j = true ↔ i + j ∈ taken) (hops : TracedTo taken s.first ops) :
    ∃ r, tracedWord wide i (s, ops) = some r ∧ Scanned taken (i + 64) r.1 ∧
      r.1.first ≤ i + 64 ∧ TracedTo taken r.1.first r.2 := by
  obtain ⟨s', hword, hs', hle⟩ := h.scanWord wide hfirst hi hseg
  have hstart : ScansWord taken i s := by
    refine ⟨h, by omega, fun _ j hj => ?_⟩
    rw [hseg j hj, and_iff_left (by omega)]
  obtain ⟨r, hrun, ⟨-, hinv⟩, -⟩ : ∃ r, BitmapBlockMgr.tracedWord wide i (s, ops) = some r ∧
      (ScansWord taken i r.1 ∧ TracedTo taken r.1.first r.2) ∧ scanning i r.1 = false := by
    refine Loop.run_spec (fun r : BitmapScan × List BitOp => ScansWord taken i r.1 ∧
      TracedTo taken r.1.first r.2) (fun r => i + 64 - max r.1.first i) ?_ ⟨hstart, hops⟩ ?_
    · rintro ⟨s, ops⟩ ⟨hs, hops⟩ hc
      obtain ⟨hs', hlt⟩ := @ScansWord.scanRun taken i s wide hs hi hc
      have hlt' : s.first < i + 64 := ((scanning_iff hi).mp hc).2
      exact ⟨_, rfl, ⟨hs', hs.tracedTo wide hi hmod hc hops⟩, by dsimp only; omega⟩
    · show i + 64 - max s.first i ≤ 64
      omega
  have hfst := tracedWord_fst wide i (s, ops)
  rw [hrun, hword] at hfst
  cases hfst
  exact ⟨r, hrun, hs', hle, hinv⟩

/-! ## All words -/

variable {m : BitmapBlockMgr}

theorem Rep.tracedWords (h : m.Rep taken) (wide : ℕ → BitVec 64) :
    ∃ r, m.tracedWords wide = some r ∧ m.size ≤ r.1 ∧ Scanned taken r.1 r.2.1 ∧
      TracedTo taken r.2.1.first r.2.2 := by
  have hsize := h.size_le
  obtain ⟨r, hrun, ⟨-, hscanned, -, hops⟩, hend⟩ : ∃ r, m.tracedWords wide = some r ∧
      (r.1 % 64 = 0 ∧ Scanned taken r.1 r.2.1 ∧ r.2.1.first ≤ r.1 ∧
        TracedTo taken r.2.1.first r.2.2) ∧ decide (r.1 < m.size) = false := by
    refine Loop.run_spec (fun r : ℕ × BitmapScan × List BitOp => r.1 % 64 = 0 ∧
      Scanned taken r.1 r.2.1 ∧ r.2.1.first ≤ r.1 ∧ TracedTo taken r.2.1.first r.2.2)
      (fun r => (m.size + 63 - r.1) / 64) ?_ ?_ (by rw [h.words]; exact le_rfl)
    · rintro ⟨i, s, ops⟩ ⟨hi, hs, hle, hops⟩ hc
      have hlt : i < m.size := of_decide_eq_true hc
      have hs₀ : Scanned taken i { s with seg := m.bitmap.underlayValue (i / Bitmap.typeSize) } :=
        ⟨hs.separated, hs.before, hs.covers, hs.free, hs.start⟩
      obtain ⟨r', hword, hs', hle', hops'⟩ := hs₀.tracedWord (wide i) hle (by omega) hi
        (fun j hj => h.getLsbD_iff hi hj) hops
      have hu : u32 (i + Bitmap.typeSize) = i + 64 := u32_of_lt (by rw [Bitmap.typeSize]; omega)
      dsimp only at hi ⊢
      refine ⟨(i + 64, r'), ?_, ⟨?_, hs', hle', hops'⟩, ?_⟩
      · rw [hword, hu]
        rfl
      · dsimp only
        omega
      · dsimp only
        omega
    · refine ⟨rfl, ⟨IntervalList.separated_nil, fun b hb => absurd hb List.not_mem_nil, fun x => ?_,
        fun x _ hx => ?_, .inl rfl⟩, le_rfl, ?_⟩
      · simp
      · exact absurd hx (Nat.not_lt_zero x)
      · exact iff_of_true (fun op hop => absurd hop List.not_mem_nil)
          fun x _ hx => absurd hx (Nat.not_lt_zero x)
  exact ⟨r, hrun, Nat.le_of_not_lt (of_decide_eq_false hend), hscanned, hops⟩

/-- The loops of `SerializeToBuffer` end, and their bit operations are all defined if and only if
no taken number is the last one of its word. -/
theorem serialize_ops_defined_iff (h : History Fits (fun _ => Fits) m taken)
    (wide : ℕ → BitVec 64) :
    ∃ ops, m.serializeOps wide = some ops ∧
      ((∀ op ∈ ops, op.Defined) ↔ ∀ x ∈ taken, x % 64 ≠ 63) := by
  have hrep := h.rep
  obtain ⟨r, hrun, hge, hscanned, hops⟩ := hrep.tracedWords wide
  refine ⟨r.2.2, by rw [serializeOps, hrun]; rfl, hops.trans ?_⟩
  -- A taken number is below the size, so it has been passed.
  have hpassed : ∀ x ∈ taken, x < r.2.1.first := by
    intro x hx
    by_contra hle
    exact hscanned.free x (Nat.le_of_not_lt hle) ((hrep.taken_lt x hx).trans_le hge) hx
  exact forall₂_congr fun x hx => imp_iff_right (hpassed x hx)

theorem serialize_ops_defined_iff_seventy :
    ∃ m, History Fits (fun _ => Fits) m {65} ∧ ∃ ops, m.serializeOps (fun _ => 0) = some ops ∧
      ∀ op ∈ ops, op.Defined := by
  have hist : History Fits (fun _ => Fits) ⟨70, 1, 2, ⟨70, [0, 2]⟩⟩ (insert 65 ∅) :=
    .take (m := .new 70) (.new (by decide)) (by decide) (by decide +kernel)
  obtain ⟨ops, hops, hiff⟩ := serialize_ops_defined_iff hist fun _ => 0
  exact ⟨_, hist, ops, hops, hiff.mpr (by decide)⟩

/-- The last number of a word is taken: the bit behind the run is looked for in a word of 0, and
`~0l` is shifted by its width. -/
theorem taken_word_end_undefined :
    ∃ m, History Fits (fun _ => Fits) m {63} ∧ m.serializeOps (fun _ => 0) =
      some [.ctz 0x8000000000000000#64, .shl 63, .ctz 0#64, .shl 64] :=
  ⟨⟨64, 1, 1, ⟨64, [0x8000000000000000#64]⟩⟩,
    .take (m := .new 64) (.new (by decide)) (by decide) (by decide +kernel), by decide +kernel⟩

end BitmapBlockMgr

end Mlt
