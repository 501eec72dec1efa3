import Mathlib.Data.List.Basic
import Mathlib.Data.Nat.ModEq
import Mathlib.Logic.Function.Basic

/-! A sequence of values that passes through a ring of slots: position `i` has slot `i % cap`.
The ends of the part in the ring are counted by machine words that run over. -/

namespace Ring

section Slots

variable {α : Type} {cap lo : ℕ} {vec : ℕ → Option α} {xs : List α}

/-- From position `lo` on, the ring holds the sequence; the slots behind its end are free. -/
def Holds (cap : ℕ) (vec : ℕ → Option α) (xs : List α) (lo : ℕ) : Prop :=
  ∀ i, lo ≤ i → i < lo + cap → vec (i % cap) = xs[i]?

theorem eq_of_mod_eq {i j : ℕ} (hi : lo ≤ i ∧ i < lo + cap) (hj : lo ≤ j ∧ j < lo + cap)
    (h : i % cap = j % cap) : i = j := by
  wlog hle : i ≤ j generalizing i j
  · exact (this hj hi h.symm (Nat.le_of_not_le hle)).symm
  have hdvd : cap ∣ j - i := (Nat.modEq_iff_dvd' hle).mp h
  have := Nat.eq_zero_of_dvd_of_lt hdvd (by omega)
  omega

theorem Holds.empty : Holds cap (fun _ => none) ([] : List α) lo := fun _ _ _ => rfl

theorem Holds.push (h : Holds cap vec xs lo) (hlo : lo ≤ xs.length) (hlt : xs.length < lo + cap)
    (v : α) : Holds cap (Function.update vec (xs.length % cap) (some v)) (xs ++ [v]) lo := by
  intro i hi hi'
  by_cases heq : i = xs.length
  · rw [heq, Function.update_self, List.getElem?_concat_length]
  rw [Function.update_of_ne (fun hmod => heq (eq_of_mod_eq ⟨hi, hi'⟩ ⟨hlo, hlt⟩ hmod)),
    h i hi hi', List.getElem?_append]
  split
  · rfl
  · rw [List.getElem?_eq_none (by omega), List.getElem?_eq_none (by simp; omega)]

theorem Holds.pop (h : Holds cap vec xs lo) (hle : xs.length ≤ lo + cap) :
    Holds cap (Function.update vec (lo % cap) none) xs (lo + 1) := by
  intro i hi hi'
  by_cases heq : i = lo + cap
  -- The slot that becomes free is the one of the first position of the next turn.
  · rw [heq, Nat.add_mod_right, Function.update_self, List.getElem?_eq_none hle]
  · have hslot : i % cap ≠ lo % cap := fun hmod => by
      have : i = lo := eq_of_mod_eq ⟨by omega, by omega⟩ ⟨le_rfl, by omega⟩ hmod
      omega
    rw [Function.update_of_ne hslot]
    exact h i (by omega) (by omega)

end Slots

section Counters

variable {k n lo hi : ℕ}

theorem toNat_sub_ofNat (hle : lo ≤ hi) (hlt : hi - lo < 2 ^ 64) :
    (UInt64.ofNat hi - UInt64.ofNat lo).toNat = hi - lo := by
  rw [UInt64.toNat_sub, UInt64.toNat_ofNat', UInt64.toNat_ofNat']
  omega

theorem toNat_ofNat_two_pow (hk : k < 64) : (UInt64.ofNat (2 ^ k)).toNat = 2 ^ k := by
  rw [UInt64.toNat_ofNat']
  exact Nat.mod_eq_of_lt (Nat.pow_lt_pow_right (by decide) hk)

theorem toNat_and_mask (hk : k < 64) :
    (UInt64.ofNat n &&& (UInt64.ofNat (2 ^ k) - 1)).toNat = n % 2 ^ k := by
  have hone : (1 : UInt64) ≤ UInt64.ofNat (2 ^ k) := by
    rw [UInt64.le_iff_toNat_le, toNat_ofNat_two_pow hk]
    exact Nat.one_le_two_pow
  rw [UInt64.toNat_and, UInt64.toNat_sub_of_le _ _ hone, toNat_ofNat_two_pow hk,
    UInt64.toNat_ofNat']
  show n % 2 ^ 64 &&& (2 ^ k - 1) = n % 2 ^ k
  rw [Nat.and_two_pow_sub_one_eq_mod, Nat.mod_mod_of_dvd _ (Nat.pow_dvd_pow 2 hk.le)]

end Counters

end Ring
