import Mathlib.Data.Nat.Factorization.Basic
import Mathlib.Data.Nat.Log
import Mathlib.Order.Bounds.Basic
import Mathlib.Tactic.Ring

/-! The lowest set bit of a number, and what becomes of a number to which it is added. A number is
given as `2 ^ a * m` with an odd `m`, so that its lowest bit is `2 ^ a`. -/

namespace LowBit

variable {a m n w : ℕ}

theorem testBit_of_lt {i : ℕ} (hi : i < a) : (2 ^ a * m).testBit i = false := by
  rw [Nat.testBit_two_pow_mul, decide_eq_false (Nat.not_le.mpr hi), Bool.false_and]

theorem testBit_self (hm : Odd m) : (2 ^ a * m).testBit a = true := by
  rw [Nat.testBit_two_pow_mul, decide_eq_true le_rfl, Nat.sub_self, Nat.testBit_zero,
    Nat.odd_iff.mp hm]
  rfl

theorem and_neg_eq_twoPow {x : BitVec w} (hm : Odd m) (hx : x.toNat = 2 ^ a * m) :
    x &&& -x = BitVec.twoPow w a := by
  have hbit : ∀ i, x.getLsbD i = (2 ^ a * m).testBit i := fun i => by rw [← hx]; rfl
  refine BitVec.eq_of_getLsbD_eq fun i hi => ?_
  rw [BitVec.getLsbD_and, BitVec.getLsbD_neg, BitVec.getLsbD_twoPow, decide_eq_true hi,
    Bool.true_and]
  rcases Nat.lt_trichotomy i a with hlt | rfl | hgt
  · rw [hbit, testBit_of_lt hlt, Bool.false_and, decide_eq_false (Nat.ne_of_gt hlt), Bool.and_false]
  · have hbelow : ¬∃ j < i, x.getLsbD j = true := by
      rintro ⟨j, hj, hset⟩
      rw [hbit, testBit_of_lt hj] at hset
      cases hset
    rw [hbit, testBit_self hm, decide_eq_false hbelow, decide_eq_true hi, decide_eq_true rfl]
    rfl
  · have hbelow : ∃ j < i, x.getLsbD j = true := ⟨a, hgt, by rw [hbit, testBit_self hm]⟩
    rw [decide_eq_true hbelow, decide_eq_false (Nat.ne_of_lt hgt), Bool.xor_true,
      Bool.and_not_self, Bool.and_false]

theorem eq_two_pow_iff : 2 ^ a * m = 2 ^ a ↔ m = 1 := by
  rw [Nat.mul_eq_left (Nat.two_pow_pos a).ne']

theorem add_le_pow {c : ℕ} (hm : Odd m) (h1 : m ≠ 1) (hle : 2 ^ a * m ≤ 2 ^ c) :
    2 ^ a * m + 2 ^ a ≤ 2 ^ c := by
  have hm2 : 2 ≤ m := by
    have := hm.pos
    omega
  have hac : a < c := by
    refine (Nat.pow_lt_pow_iff_right (by decide : 1 < 2)).mp (lt_of_lt_of_le ?_ hle)
    have := Nat.mul_le_mul_left (2 ^ a) hm2
    have := Nat.two_pow_pos a
    omega
  obtain ⟨d, rfl⟩ : ∃ d, c = a + (d + 1) := ⟨c - a - 1, by omega⟩
  rw [pow_add] at hle ⊢
  have hmd : m ≤ 2 ^ (d + 1) := Nat.le_of_mul_le_mul_left hle (Nat.two_pow_pos a)
  -- An odd number is not the even power that bounds it.
  have hne : m ≠ 2 ^ (d + 1) := by
    rintro rfl
    rw [Nat.odd_iff, pow_succ, Nat.mul_mod_left] at hm
    cases hm
  calc 2 ^ a * m + 2 ^ a = 2 ^ a * (m + 1) := by ring
    _ ≤ 2 ^ a * 2 ^ (d + 1) := Nat.mul_le_mul_left _ (lt_of_le_of_ne hmd hne)

theorem clog_add (hm : Odd m) (h1 : m ≠ 1) :
    Nat.clog 2 (2 ^ a * m + 2 ^ a) = Nat.clog 2 (2 ^ a * m) := by
  refine le_antisymm ?_ (Nat.clog_mono_right 2 (Nat.le_add_right _ _))
  exact (Nat.clog_le_iff_le_pow (by decide)).mpr
    (add_le_pow hm h1 (Nat.le_pow_clog (by decide) _))

theorem factorization_two (hm : Odd m) : (2 ^ a * m).factorization 2 = a := by
  have hm2 : m.factorization 2 = 0 := Nat.factorization_eq_zero_of_not_dvd fun h =>
    Nat.not_even_iff_odd.mpr hm (even_iff_two_dvd.mpr h)
  rw [Nat.factorization_mul (Nat.two_pow_pos a).ne' hm.pos.ne', Finsupp.add_apply, hm2,
    Nat.Prime.factorization_pow Nat.prime_two, Finsupp.single_eq_same, Nat.add_zero]

theorem factorization_lt_add (hm : Odd m) :
    (2 ^ a * m).factorization 2 < (2 ^ a * m + 2 ^ a).factorization 2 := by
  have hpos := Nat.two_pow_pos a
  rw [factorization_two hm, ← Nat.add_one_le_iff,
    ← Nat.prime_two.pow_dvd_iff_le_factorization (by omega)]
  obtain ⟨q, rfl⟩ := hm
  exact ⟨q + 1, by ring⟩

theorem factorization_le_clog (hn : n ≠ 0) : n.factorization 2 ≤ Nat.clog 2 n :=
  (Nat.pow_le_pow_iff_right (by decide : 1 < 2)).mp
    ((Nat.ordProj_le 2 hn).trans (Nat.le_pow_clog (by decide) n))

theorem isLeast_two_pow_clog (n : ℕ) :
    IsLeast {p : ℕ | (∃ k, p = 2 ^ k) ∧ n ≤ p} (2 ^ Nat.clog 2 n) := by
  refine ⟨⟨⟨_, rfl⟩, Nat.le_pow_clog (by decide) n⟩, ?_⟩
  rintro p ⟨⟨k, rfl⟩, hk⟩
  exact Nat.pow_le_pow_right (by decide) (Nat.clog_le_of_le_pow hk)

end LowBit
