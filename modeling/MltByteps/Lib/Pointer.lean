import Mathlib.Algebra.Order.Ring.Nat

/-! Pointers into an array of `size` bytes at the address `base`. -/

/-- What an implementation makes of `p + n`. Up to the end of the array the sum is defined. Beyond
it may be undefined, or any address, but it does not wrap round near the array. -/
structure PtrArith (base size : ℕ) where
  add : ℕ → ℕ → Option ℕ
  add_inside : ∀ p n, base ≤ p → p + n ≤ base + size → add p n = some (p + n)
  add_near : ∀ p n q, p + n ≤ base + 2 * size → add p n = some q → q = p + n

namespace PtrArith

variable {base size : ℕ}

/-- The rule of the language: a sum beyond the end of the array is not defined. -/
def strict (base size : ℕ) : PtrArith base size where
  add p n := if p + n ≤ base + size then some (p + n) else none
  add_inside := fun _ _ _ h => if_pos h
  add_near := fun _ _ _ _ h => (Option.some.inj (Option.ite_none_right_eq_some.mp h).2).symm

def unbounded (base size : ℕ) : PtrArith base size where
  add p n := some (p + n)
  add_inside := fun _ _ _ _ => rfl
  add_near := fun _ _ _ _ h => (Option.some.inj h).symm

def wrapping (base size : ℕ) (h : base + 2 * size < 2 ^ 64) : PtrArith base size where
  add p n := some ((p + n) % 2 ^ 64)
  add_inside := fun p n _ hle => congrArg some (Nat.mod_eq_of_lt (by omega))
  add_near := fun p n q hle hq => by
    rw [← Option.some.inj hq, Nat.mod_eq_of_lt (by omega)]

def Exact (arith : PtrArith base size) : Prop := ∀ p n q, arith.add p n = some q → q = p + n

theorem strict_add_eq_none {p n : ℕ} (h : base + size < p + n) :
    (strict base size).add p n = none := if_neg (Nat.not_le.mpr h)

end PtrArith
