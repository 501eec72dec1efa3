import MltByteps.Lib.Check
import MltByteps.Lib.Loop
import MltByteps.Lib.LowBit
import MltByteps.Mlt.SpscQueue

/-! Sizes that are rounded up to a power of two: the slots of `SpscQueue` and the sampling interval
of `Meter`. An overflow of signed arithmetic is a fault. -/

namespace Mlt

inductive SizeFault where
  | overflow
  -- The loop has not ended.
  | timeout
  -- `SpscQueue`: `capacity_ == Lowbit(capacity_)`.
  | capacity
  -- `Meter`: `sample + 1 == Lowbit(sample + 1)`.
  | sample
deriving DecidableEq, Repr

/-- `x + y` for two `long`s. -/
def addLong (x y : Int64) : Except SizeFault Int64 := do
  require .overflow (-2 ^ 63 ≤ x.toInt + y.toInt ∧ x.toInt + y.toInt < 2 ^ 63)
  return x + y

/-- `x + 1` for an `int`. -/
def incInt (x : Int32) : Except SizeFault Int32 := do
  require .overflow (x.toInt + 1 < 2 ^ 31)
  return x + 1

/-- `Lowbit` of `SpscQueue` and of `Meter`. -/
def lowbit (x : Int64) : Except SizeFault Int64 := do
  require .overflow (x ≠ Int64.minValue)
  return x &&& -x

/-- `x != Lowbit(x)` -/
def hasMoreBits (x : Int64) : Except SizeFault Bool := do
  return decide (x ≠ (← lowbit x))

/-- `x += Lowbit(x)` -/
def addLowbit (x : Int64) : Except SizeFault Int64 := do
  addLong x (← lowbit x)

/-- `RoundUpPower2` of `SpscQueue` and of `Meter`. -/
def roundUpPower2 (rounds : ℕ) (x : Int64) : Except SizeFault Int64 :=
  Loop.exec .timeout hasMoreBits addLowbit rounds x

/-- `capacity_` and `mask_` of a new queue. -/
def SpscQueue.new (rounds : ℕ) (count : Int32) : Except SizeFault (UInt64 × UInt64) := do
  let capacity := (← roundUpPower2 rounds count.toInt64).toUInt64
  let low ← lowbit capacity.toInt64
  require .capacity (capacity = low.toUInt64)
  return (capacity, capacity - 1)

structure Meter where
  sample : Int32
  cnt : Int32
  bytes : UInt64
  msgs : UInt64
  tp : ℤ
  interval : ℤ
deriving DecidableEq

namespace Meter

/-- The value that the constructor gives to `sample`. -/
def sampleMask (rounds : ℕ) (sample : Int32) : Except SizeFault Int32 := do
  let size ← incInt sample
  let size ← roundUpPower2 rounds size.toInt64
  let mask ← addLong size (-1)
  return mask.toInt32

def new (rounds : ℕ) (intervalMs now : ℤ) (sample : Int32) : Except SizeFault Meter := do
  let mask ← sampleMask rounds sample
  let size ← incInt mask
  let low ← lowbit size.toInt64
  require .sample (size.toInt64 = low)
  return ⟨mask, 0, 0, 0, now, intervalMs * 1000000⟩

/-- Whether the next `Add` reads the clock. -/
def samples (m : Meter) : Bool := (m.cnt + 1) &&& m.sample = m.sample

def add (nbytes : UInt64) (now : ℤ) (m : Meter) :
    Except SizeFault (Meter × Option (UInt64 × UInt64 × ℤ)) := do
  let bytes := m.bytes + nbytes
  let msgs := m.msgs + 1
  let cnt ← incInt m.cnt
  return (if m.samples ∧ m.interval ≤ now - m.tp then
    ({ m with cnt, bytes := 0, msgs := 0, tp := now }, some (bytes, msgs, now - m.tp))
  else ({ m with cnt, bytes, msgs }, none))

end Meter

/-! ## The loop -/

theorem toNat_eq_of_toInt {w n : ℕ} {x : BitVec w} (h : x.toInt = n) : x.toNat = n := by
  have hlt := x.isLt
  rw [BitVec.toInt_eq_toNat_cond] at h
  split_ifs at h <;> omega

/-- A positive `long`. -/
structure IsLong (x : Int64) (n : ℕ) : Prop where
  toInt : x.toInt = n
  pos : 0 < n

namespace IsLong

variable {x y : Int64} {n n' : ℕ}

theorem lt (h : IsLong x n) : n < 2 ^ 63 := by
  have := x.toInt_lt
  rw [h.toInt] at this
  exact_mod_cast this

theorem toNat (h : IsLong x n) : x.toBitVec.toNat = n :=
  toNat_eq_of_toInt (x.toInt_toBitVec.trans h.toInt)

theorem eq_iff (h : IsLong x n) (h' : IsLong y n') : x = y ↔ n = n' := by
  rw [← Int64.toInt_inj, h.toInt, h'.toInt, Nat.cast_inj]

theorem ofInt {z : ℤ} (hz : 0 < z) (hlt : z < 2 ^ 63) : IsLong (.ofInt z) z.toNat :=
  ⟨by rw [Int64.toInt_ofInt_of_le (by omega) hlt]; omega, by omega⟩

theorem eq_ofInt (h : IsLong x n) : x = .ofInt n := by
  have hlt := h.lt
  rw [← Int64.toInt_inj, h.toInt, Int64.toInt_ofInt_of_le (by omega) (by omega)]

end IsLong

variable {x : Int64} {n a m : ℕ}

theorem lowbit_eq (hm : Odd m) (hx : IsLong x (2 ^ a * m)) :
    ∃ low, lowbit x = .ok low ∧ IsLong low (2 ^ a) := by
  have hne : x ≠ Int64.minValue := by
    rintro rfl
    have := hx.toInt
    rw [Int64.toInt_minValue] at this
    omega
  have ha : 2 ^ a < 2 ^ 63 := lt_of_le_of_lt (Nat.le_mul_of_pos_right _ hm.pos) hx.lt
  refine ⟨x &&& -x, ?_, ?_, Nat.two_pow_pos a⟩
  · rw [lowbit, require_bind _ hne]
    rfl
  · rw [← Int64.toInt_toBitVec, Int64.toBitVec_and, Int64.toBitVec_neg,
      LowBit.and_neg_eq_twoPow hm hx.toNat, BitVec.toInt_eq_toNat_of_lt] <;>
    rw [BitVec.toNat_twoPow, Nat.mod_eq_of_lt (by omega)]
    omega

theorem addLong_eq {x y : Int64} (h : -2 ^ 63 ≤ x.toInt + y.toInt ∧ x.toInt + y.toInt < 2 ^ 63) :
    addLong x y = .ok (x + y) ∧ (x + y).toInt = x.toInt + y.toInt := by
  refine ⟨?_, ?_⟩
  · rw [addLong, require_bind _ h]
    rfl
  · rw [Int64.toInt_add]
    exact Int.bmod_eq_of_le (by omega) (by omega)

theorem incInt_eq {x : Int32} (h : x.toInt + 1 < 2 ^ 31) :
    incInt x = .ok (x + 1) ∧ (x + 1).toInt = x.toInt + 1 := by
  have hle := x.le_toInt
  refine ⟨?_, ?_⟩
  · rw [incInt, require_bind _ h]
    rfl
  · rw [Int32.toInt_add, Int32.toInt_one]
    exact Int.bmod_eq_of_le (by omega) (by omega)

theorem IsLong.add {y : Int64} {n' : ℕ} (hx : IsLong x n) (hy : IsLong y n')
    (hlt : n + n' < 2 ^ 63) : addLong x y = .ok (x + y) ∧ IsLong (x + y) (n + n') := by
  have hx' := hx.toInt
  have hy' := hy.toInt
  obtain ⟨hadd, hsum⟩ := @addLong_eq x y (by omega)
  exact ⟨hadd, by omega, Nat.add_pos_left hx.pos n'⟩

theorem round_step (hx : IsLong x n) (hc : Nat.clog 2 n ≤ 62) :
    (hasMoreBits x = .ok false ∧ n = 2 ^ Nat.clog 2 n) ∨
      hasMoreBits x = .ok true ∧ ∃ x' n', addLowbit x = .ok x' ∧ IsLong x' n' ∧
        Nat.clog 2 n' = Nat.clog 2 n ∧ n.factorization 2 < n'.factorization 2 := by
  obtain ⟨a, m, hm, rfl⟩ := Nat.exists_eq_two_pow_mul_odd hx.pos.ne'
  obtain ⟨low, hlow, hlong⟩ := lowbit_eq hm hx
  have hend : x = low ↔ m = 1 := by rw [hx.eq_iff hlong, LowBit.eq_two_pow_iff]
  rw [hasMoreBits, addLowbit, hlow, ok_bind, ok_bind]
  by_cases h1 : m = 1
  · refine .inl ⟨congrArg Except.ok (decide_eq_false (not_not.mpr (hend.mpr h1))), ?_⟩
    rw [h1, mul_one, Nat.clog_pow 2 a (by decide)]
  · have hle := LowBit.add_le_pow hm h1 (Nat.le_pow_clog (by decide : 1 < 2) (2 ^ a * m))
    have hpow := Nat.pow_le_pow_right (by decide : 0 < 2) hc
    obtain ⟨hadd, hx'⟩ := hx.add hlong (by omega)
    exact .inr ⟨congrArg Except.ok (decide_eq_true fun h => h1 (hend.mp h)), _, _, hadd, hx',
      LowBit.clog_add hm h1, LowBit.factorization_lt_add hm⟩

/-- The loop stays below the power of two that it returns, and each round clears the lowest bit. -/
theorem roundUpPower2_eq {rounds : ℕ} (hx : IsLong x n) (hc : Nat.clog 2 n ≤ 62)
    (hr : Nat.clog 2 n ≤ rounds) :
    roundUpPower2 rounds x = .ok (.ofInt (2 ^ Nat.clog 2 n)) := by
  have hloop : ∃ y, roundUpPower2 rounds x = .ok y ∧
      (∃ k, IsLong y k ∧ Nat.clog 2 k = Nat.clog 2 n) ∧ hasMoreBits y = .ok false := by
    refine Loop.exec_spec _ (fun y => Nat.clog 2 n - y.toInt.toNat.factorization 2) ?_
      ⟨n, hx, rfl⟩ ((Nat.sub_le _ _).trans hr)
    rintro y ⟨k, hk, hclog⟩
    rcases round_step hk (hclog ▸ hc) with ⟨hend, -⟩ | ⟨hgo, y', k', hy', hk', hclog', hlt⟩
    · exact .inl hend
    · refine .inr ⟨hgo, y', hy', ⟨k', hk', hclog'.trans hclog⟩, ?_⟩
      have hle := LowBit.factorization_le_clog hk'.pos.ne'
      rw [hk.toInt, hk'.toInt, Int.toNat_natCast, Int.toNat_natCast]
      omega
  obtain ⟨y, hy, ⟨k, hk, hclog⟩, htest⟩ := hloop
  rw [hy]
  rcases round_step hk (hclog ▸ hc) with ⟨-, hpow⟩ | ⟨hgo, -⟩
  · rw [hk.eq_ofInt, hpow, hclog]
    push_cast
    rfl
  · rw [hgo] at htest
    cases htest

theorem lowbit_two_pow (hx : IsLong x (2 ^ a)) : lowbit x = .ok x := by
  rw [← mul_one (2 ^ a)] at hx
  obtain ⟨low, hlow, hlong⟩ := lowbit_eq odd_one hx
  rw [hlow, (hx.eq_iff hlong).mpr (mul_one _)]

def powersFrom (x : ℤ) : Set ℤ := {p | (∃ k : ℕ, p = 2 ^ k) ∧ x ≤ p}

theorem isLeast_powersFrom {z : ℤ} (hz : 0 ≤ z) :
    IsLeast (powersFrom z) (2 ^ Nat.clog 2 z.toNat) := by
  obtain ⟨⟨-, hle⟩, hleast⟩ := LowBit.isLeast_two_pow_clog z.toNat
  refine ⟨⟨⟨_, rfl⟩, ?_⟩, ?_⟩
  · have : ((2 ^ Nat.clog 2 z.toNat : ℕ) : ℤ) = 2 ^ Nat.clog 2 z.toNat := by push_cast; rfl
    omega
  · rintro p ⟨⟨k, rfl⟩, hk⟩
    have hk' : ((2 ^ k : ℕ) : ℤ) = 2 ^ k := by push_cast; rfl
    exact_mod_cast hleast ⟨⟨k, rfl⟩, by omega⟩

theorem isLong_two_pow {k : ℕ} (hk : k ≤ 62) : IsLong (.ofInt (2 ^ k)) (2 ^ k) := by
  have hlt : 2 ^ k < 2 ^ 63 := Nat.pow_lt_pow_right (by decide) (by omega)
  have hpos := Nat.two_pow_pos k
  have hcast : ((2 ^ k : ℕ) : ℤ) = 2 ^ k := by push_cast; rfl
  refine ⟨?_, hpos⟩
  rw [← hcast, Int64.toInt_ofInt_of_le (by omega) (by omega)]

theorem roundUpPower2_ofInt {z : ℤ} {c : ℕ} (hz : 0 < z) (hle : z ≤ 2 ^ c) (hc : c ≤ 62) :
    ∃ k ≤ c, (∀ rounds, c ≤ rounds → roundUpPower2 rounds (.ofInt z) = .ok (.ofInt (2 ^ k))) ∧
      IsLeast (powersFrom z) (2 ^ k) := by
  have hcast : ((2 ^ c : ℕ) : ℤ) = 2 ^ c := by push_cast; rfl
  have hclog : Nat.clog 2 z.toNat ≤ c := Nat.clog_le_of_le_pow (by omega)
  have hlt : 2 ^ c < 2 ^ 63 := Nat.pow_lt_pow_right (by decide) (by omega)
  refine ⟨Nat.clog 2 z.toNat, hclog, fun rounds hr => ?_, isLeast_powersFrom hz.le⟩
  exact roundUpPower2_eq (IsLong.ofInt hz (by omega)) (hclog.trans hc) (hclog.trans hr)

/-! ## The queue -/

namespace SpscQueue

theorem toUInt64_ofInt_two_pow (k : Fin 64) :
    (Int64.ofInt (2 ^ k.val)).toUInt64 = capacity k := by
  rw [show (2 : ℤ) ^ k.val = ((2 ^ k.val : ℕ) : ℤ) by push_cast; rfl]
  rfl

theorem new_eq {count : Int32} (hcount : 0 < count.toInt) :
    ∃ k : Fin 64, (∀ rounds, 31 ≤ rounds → new rounds count = .ok (capacity k, mask k)) ∧
      IsLeast (powersFrom count.toInt) (2 ^ k.val) := by
  have hlt := count.toInt_lt
  obtain ⟨k, hk, hround, hleast⟩ := @roundUpPower2_ofInt count.toInt 31 hcount (by omega)
    (by decide)
  refine ⟨⟨k, by omega⟩, fun rounds hr => ?_, hleast⟩
  have hround := hround rounds hr
  rw [Int64.ofInt_int32ToInt] at hround
  rw [new, hround, ok_bind]
  dsimp only
  rw [Int64.toInt64_toUInt64, lowbit_two_pow (isLong_two_pow (by omega)),
    ok_bind, require_bind _ rfl, toUInt64_ofInt_two_pow ⟨k, by omega⟩]
  rfl

end SpscQueue

/-! ## The meter -/

namespace Meter

theorem and_mask_iff {cnt mask : Int32} {k : ℕ} (hcnt : 0 ≤ cnt.toInt)
    (hmask : mask.toInt = 2 ^ k - 1) : cnt &&& mask = mask ↔ (2 ^ k : ℤ) ∣ cnt.toInt + 1 := by
  have hpos := Nat.two_pow_pos k
  have hcast : ((2 ^ k : ℕ) : ℤ) = 2 ^ k := by push_cast; rfl
  have hc : cnt.toBitVec.toNat = cnt.toInt.toNat :=
    toNat_eq_of_toInt (by rw [Int32.toInt_toBitVec]; omega)
  have hm : mask.toBitVec.toNat = 2 ^ k - 1 :=
    toNat_eq_of_toInt (by rw [Int32.toInt_toBitVec]; omega)
  have hsucc : cnt.toInt + 1 = ((cnt.toInt.toNat + 1 : ℕ) : ℤ) := by omega
  rw [← Int32.toBitVec_inj, Int32.toBitVec_and, BitVec.toNat_eq, BitVec.toNat_and, hc, hm,
    Nat.and_two_pow_sub_one_eq_mod, hsucc, ← hcast, Int.natCast_dvd_natCast]
  constructor
  · intro h
    have hdiv := Nat.div_add_mod cnt.toInt.toNat (2 ^ k)
    exact ⟨cnt.toInt.toNat / 2 ^ k + 1, by rw [Nat.mul_add]; omega⟩
  · rintro ⟨q, hq⟩
    obtain ⟨q, rfl⟩ : ∃ r, q = r + 1 := Nat.exists_eq_succ_of_ne_zero (by rintro rfl; omega)
    rw [show cnt.toInt.toNat = 2 ^ k * q + (2 ^ k - 1) by rw [Nat.mul_add] at hq; omega,
      Nat.mul_add_mod, Nat.mod_eq_of_lt (by omega)]

theorem sampleMask_eq {sample : Int32} (h0 : 0 ≤ sample.toInt) (hlt : sample.toInt + 1 < 2 ^ 31) :
    ∃ (mask : Int32) (k : ℕ), (∀ rounds, 31 ≤ rounds → sampleMask rounds sample = .ok mask) ∧
      mask.toInt = 2 ^ k - 1 ∧ IsLeast (powersFrom (sample.toInt + 1)) (2 ^ k) := by
  obtain ⟨hinc, hsum⟩ := incInt_eq hlt
  obtain ⟨k, hk, hround, hleast⟩ := @roundUpPower2_ofInt (sample.toInt + 1) 31 (by omega)
    (by omega) (by decide)
  have hle : 2 ^ k ≤ 2 ^ 31 := Nat.pow_le_pow_right (by decide) hk
  have hcast : ((2 ^ k : ℕ) : ℤ) = 2 ^ k := by push_cast; rfl
  have hpos := Nat.two_pow_pos k
  have hsize := (isLong_two_pow (k := k) (by omega)).toInt
  have hone : (-1 : Int64).toInt = -1 := rfl
  obtain ⟨hadd, hdiff⟩ := @addLong_eq (.ofInt (2 ^ k)) (-1) (by omega)
  refine ⟨(.ofInt (2 ^ k) + -1 : Int64).toInt32, k, fun rounds hr => ?_, ?_, hleast⟩
  · have hround := hround rounds hr
    rw [← hsum, Int64.ofInt_int32ToInt] at hround
    rw [sampleMask, hinc, ok_bind, hround, ok_bind, hadd, ok_bind]
    rfl
  · rw [Int64.toInt_toInt32, hdiff, hsize, hone, hcast]
    exact Int.bmod_eq_of_le (by omega) (by omega)

theorem incInt_eq_ok {x y : Int32} (h : incInt x = .ok y) :
    x.toInt + 1 < 2 ^ 31 ∧ y.toInt = x.toInt + 1 := by
  have hlt := (require_bind_eq_ok.mp h).1
  obtain ⟨hinc, hsum⟩ := incInt_eq hlt
  rw [hinc] at h
  cases h
  exact ⟨hlt, hsum⟩

theorem new_ok_iff {sample : Int32} {rounds : ℕ} {intervalMs now : ℤ} (h0 : 0 ≤ sample.toInt)
    (hr : 31 ≤ rounds) :
    (∃ m, new rounds intervalMs now sample = .ok m) ↔ sample.toInt < 2 ^ 30 := by
  constructor
  · rintro ⟨m, h⟩
    obtain ⟨mask, hmask, h⟩ := bind_eq_ok.mp h
    obtain ⟨size, hsize, -⟩ := bind_eq_ok.mp h
    obtain ⟨inc, hinc, -⟩ := bind_eq_ok.mp hmask
    obtain ⟨mask', k, hmask', hval, ⟨-, hle⟩, -⟩ := sampleMask_eq h0 (incInt_eq_ok hinc).1
    cases (hmask' rounds hr).symm.trans hmask
    have hlt := (incInt_eq_ok hsize).1
    have hk : k < 31 := by
      refine (Nat.pow_lt_pow_iff_right (by decide : 1 < 2)).mp ?_
      exact_mod_cast (by omega : (2 : ℤ) ^ k < 2 ^ 31)
    have hpow : (2 : ℤ) ^ k ≤ 2 ^ 30 := by
      exact_mod_cast Nat.pow_le_pow_right (by decide : 0 < 2) (by omega : k ≤ 30)
    omega
  · intro hlt
    obtain ⟨mask, k, hmask, hval, -, hleast⟩ := sampleMask_eq h0 (by omega)
    have hpow : (2 : ℤ) ^ k ≤ 2 ^ 30 := hleast ⟨⟨30, rfl⟩, by omega⟩
    obtain ⟨hinc, hsum⟩ := @incInt_eq mask (by omega)
    have hlong : IsLong (mask + 1).toInt64 (2 ^ k) := by
      refine ⟨?_, Nat.two_pow_pos k⟩
      rw [Int32.toInt_toInt64, hsum, hval]
      push_cast
      exact sub_add_cancel _ _
    refine ⟨⟨mask, 0, 0, 0, now, intervalMs * 1000000⟩, ?_⟩
    rw [new, hmask rounds hr, ok_bind, hinc, ok_bind, lowbit_two_pow hlong, ok_bind,
      require_bind _ rfl]
    rfl

theorem add_eq_ok {m m' : Meter} {nbytes : UInt64} {now : ℤ}
    {line : Option (UInt64 × UInt64 × ℤ)} (h : m.add nbytes now = .ok (m', line)) :
    m'.sample = m.sample ∧ m'.cnt.toInt = m.cnt.toInt + 1 := by
  obtain ⟨cnt, hcnt, h⟩ := bind_eq_ok.mp h
  have hsum := (incInt_eq_ok hcnt).2
  split_ifs at h <;> cases h <;> exact ⟨rfl, hsum⟩

def run (m : Meter) : List (UInt64 × ℤ) → Except SizeFault Meter
  | [] => .ok m
  | x :: xs => do
    let (m, _) ← m.add x.1 x.2
    m.run xs

theorem run_eq_ok {m m' : Meter} {xs : List (UInt64 × ℤ)} (h : m.run xs = .ok m') :
    m'.sample = m.sample ∧ m'.cnt.toInt = m.cnt.toInt + xs.length := by
  induction xs generalizing m with
  | nil =>
    cases h
    exact ⟨rfl, (add_zero _).symm⟩
  | cons x xs ih =>
    obtain ⟨⟨m₁, line⟩, hadd, h⟩ := bind_eq_ok.mp h
    obtain ⟨hsample, hcnt⟩ := add_eq_ok hadd
    obtain ⟨hsample', hcnt'⟩ := ih h
    refine ⟨hsample'.trans hsample, ?_⟩
    rw [hcnt', hcnt, List.length_cons]
    push_cast
    ring

theorem exists_run {m : Meter} {xs : List (UInt64 × ℤ)} (h : m.cnt.toInt + xs.length < 2 ^ 31) :
    ∃ m', m.run xs = .ok m' := by
  induction xs generalizing m with
  | nil => exact ⟨m, rfl⟩
  | cons x xs ih =>
    rw [List.length_cons] at h
    push_cast at h
    obtain ⟨hinc, -⟩ := @incInt_eq m.cnt (by omega)
    obtain ⟨⟨m₁, line⟩, hadd⟩ : ∃ r, m.add x.1 x.2 = .ok r := by
      rw [add, hinc]
      exact ⟨_, rfl⟩
    have hcnt := (add_eq_ok hadd).2
    obtain ⟨m', hrun⟩ := @ih m₁ (by omega)
    refine ⟨m', ?_⟩
    rw [run, hadd]
    exact hrun

/-- The constructor's check holds for sizes below `2^30`. The meter then reads the clock once in as
many calls as the size, rounded up, until its count of calls overflows. -/
theorem samples_iff {sample : Int32} {rounds : ℕ} {intervalMs now : ℤ} (h0 : 0 ≤ sample.toInt)
    (hr : 31 ≤ rounds) :
    ((∃ m, new rounds intervalMs now sample = .ok m) ↔ sample.toInt < 2 ^ 30) ∧
    ∀ m, new rounds intervalMs now sample = .ok m → ∃ k : ℕ,
      IsLeast (powersFrom (sample.toInt + 1)) (2 ^ k) ∧
      ∀ xs : List (UInt64 × ℤ), xs.length + 1 < 2 ^ 31 →
        ∃ m', m.run xs = .ok m' ∧ (m'.samples ↔ 2 ^ k ∣ xs.length + 2) := by
  refine ⟨new_ok_iff h0 hr, fun m hnew => ?_⟩
  obtain ⟨mask, hmask, h⟩ := bind_eq_ok.mp hnew
  obtain ⟨inc, hinc, -⟩ := bind_eq_ok.mp hmask
  obtain ⟨mask', k, hmask', hval, hleast⟩ := sampleMask_eq h0 (incInt_eq_ok hinc).1
  cases (hmask' rounds hr).symm.trans hmask
  obtain ⟨size, -, h⟩ := bind_eq_ok.mp h
  obtain ⟨low, -, h⟩ := bind_eq_ok.mp h
  obtain ⟨-, h⟩ := require_bind_eq_ok.mp h
  cases h
  refine ⟨k, hleast, fun xs hlen => ?_⟩
  obtain ⟨m', hrun⟩ := @exists_run ⟨mask, 0, 0, 0, now, intervalMs * 1000000⟩ xs (by
    rw [Int32.toInt_zero]
    omega)
  obtain ⟨hsample, hcnt⟩ := run_eq_ok hrun
  have hcnt' : m'.cnt.toInt = xs.length := hcnt.trans (zero_add _)
  obtain ⟨-, hsum⟩ := @incInt_eq m'.cnt (by omega)
  refine ⟨m', hrun, ?_⟩
  rw [samples, hsample, decide_eq_true_iff, and_mask_iff (by omega) hval, hsum, hcnt']
  norm_cast

/-- A size of 5 is rounded up to 8: the seventh call reads the clock. -/
theorem samples_iff_five : ∃ m m' : Meter, new 31 1000 0 5 = .ok m ∧
    m.run (List.replicate 6 (100, 0)) = .ok m' ∧ m'.samples := by
  obtain ⟨hok, hsamples⟩ := @samples_iff 5 31 1000 0 (by decide) (by decide)
  obtain ⟨m, hnew⟩ := hok.mpr (by decide)
  obtain ⟨k, hleast, hruns⟩ := hsamples m hnew
  obtain ⟨m', hrun, hiff⟩ := hruns (List.replicate 6 (100, 0)) (by decide)
  have hk : (2 : ℤ) ^ k ≤ 2 ^ 3 := hleast.2 ⟨⟨3, rfl⟩, by decide⟩
  have hk3 : k ≤ 3 := (Nat.pow_le_pow_iff_right (by decide : 1 < 2)).mp (by exact_mod_cast hk)
  exact ⟨m, m', hnew, hrun, hiff.mpr (pow_dvd_pow 2 hk3)⟩

end Meter

/-- For every size that a `long` power of two bounds; the sizes of queues and meters are such. -/
theorem round_up_power2 :
    (∀ x : ℤ, 1 ≤ x → x ≤ 2 ^ 62 → ∃ y : Int64,
      (∀ rounds, 62 ≤ rounds → roundUpPower2 rounds (.ofInt x) = .ok y) ∧
        IsLeast (powersFrom x) y.toInt) ∧
    (∀ count : Int32, 0 < count.toInt → ∃ k : Fin 64,
      (∀ rounds, 62 ≤ rounds →
        SpscQueue.new rounds count = .ok (SpscQueue.capacity k, SpscQueue.mask k)) ∧
      IsLeast (powersFrom count.toInt) (2 ^ k.val) ∧
      ∀ i : UInt64, (i &&& SpscQueue.mask k).toNat = i.toNat % 2 ^ k.val) ∧
    ∀ sample : Int32, 0 ≤ sample.toInt → sample.toInt + 1 < 2 ^ 31 → ∃ (mask : Int32) (k : ℕ),
      (∀ rounds, 62 ≤ rounds → Meter.sampleMask rounds sample = .ok mask) ∧
      mask.toInt = 2 ^ k - 1 ∧ IsLeast (powersFrom (sample.toInt + 1)) (2 ^ k) ∧
      ∀ cnt : Int32, 0 ≤ cnt.toInt → (cnt &&& mask = mask ↔ (2 ^ k : ℤ) ∣ cnt.toInt + 1) := by
  refine ⟨fun x h1 h2 => ?_, fun count hcount => ?_, fun sample h0 hlt => ?_⟩
  · obtain ⟨k, hk, hround, hleast⟩ := roundUpPower2_ofInt (by omega) h2 le_rfl
    refine ⟨.ofInt (2 ^ k), hround, ?_⟩
    rw [(isLong_two_pow hk).toInt]
    push_cast
    exact hleast
  · obtain ⟨k, hnew, hleast⟩ := SpscQueue.new_eq hcount
    refine ⟨k, fun rounds hr => hnew rounds (by omega), hleast, fun i => ?_⟩
    have := SpscQueue.toNat_slot k i.toNat
    rwa [UInt64.ofNat_toNat] at this
  · obtain ⟨mask, k, hmask, hval, hleast⟩ := Meter.sampleMask_eq h0 hlt
    exact ⟨mask, k, fun rounds hr => hmask rounds (by omega), hval, hleast,
      fun cnt hcnt => Meter.and_mask_iff hcnt hval⟩

theorem round_up_power2_hundred :
    (roundUpPower2 62 (.ofInt 100) = .ok 128 ∧ IsLeast (powersFrom 100) 128) ∧
    (∃ k, SpscQueue.new 62 100 = .ok (SpscQueue.capacity k, SpscQueue.mask k) ∧
      IsLeast (powersFrom 100) (2 ^ k.val)) ∧
    ∃ (mask : Int32) (k : ℕ), Meter.sampleMask 62 0xf0 = .ok mask ∧ mask.toInt = 2 ^ k - 1 ∧
      IsLeast (powersFrom 0xf1) (2 ^ k) := by
  obtain ⟨hround, hqueue, hmeter⟩ := round_up_power2
  obtain ⟨y, hy, hleast⟩ := hround 100 (by decide) (by decide)
  obtain ⟨k, hk, hslots, -⟩ := hqueue 100 (by decide)
  obtain ⟨mask, k', hmask, hval, hsize, -⟩ := hmeter 0xf0 (by decide) (by decide)
  have heval : roundUpPower2 62 (.ofInt 100) = .ok 128 := by decide +kernel
  cases (hy 62 le_rfl).symm.trans heval
  exact ⟨⟨heval, hleast⟩, ⟨k, hk 62 le_rfl, hslots⟩, mask, k', hmask 62 le_rfl, hval, hsize⟩

end Mlt
