import MltByteps.Lib.Memory

/-! A memory whose addresses are set aside for different uses. Two blocks that are set aside for
different uses do not overlap, so that what is written to one of them is not seen in the other. -/

namespace Lots

variable {L : Type} {lots lots' : ℕ → Option L} {m : Memory} {a b n : ℕ} {l l' : L}

def Holds (lots : ℕ → Option L) (a n : ℕ) (l : L) : Prop := ∀ i < n, lots (a + i) = some l

def give (lots : ℕ → Option L) (a n : ℕ) (l : L) : ℕ → Option L :=
  fun x => if a ≤ x ∧ x < a + n then some l else lots x

theorem give_holds (lots : ℕ → Option L) (a n : ℕ) (l : L) : Holds (give lots a n l) a n l :=
  fun i hi => if_pos ⟨Nat.le_add_right a i, Nat.add_lt_add_left hi a⟩

theorem give_outside {x : ℕ} (h : x < a ∨ a + n ≤ x) : give lots a n l x = lots x :=
  if_neg fun hx => by omega

theorem give_eq_some {x : ℕ} (h : give lots a n l x = some l') :
    lots x = some l' ∨ a ≤ x ∧ x < a + n := by
  unfold give at h
  split_ifs at h with hx
  · exact .inr hx
  · exact .inl h

theorem give_of_below {x : ℕ} (hbelow : ∀ x l, lots x = some l → x < a) (h : lots x = some l') :
    give lots a n l x = some l' :=
  (give_outside (.inl (hbelow x l' h))).trans h

theorem Holds.mono (h : Holds lots a n l) (hlots : ∀ x l, lots x = some l → lots' x = some l) :
    Holds lots' a n l :=
  fun i hi => hlots _ _ (h i hi)

theorem Holds.shorten {k : ℕ} (h : Holds lots a n l) (hk : k ≤ n) : Holds lots a k l :=
  fun i hi => h i (Nat.lt_of_lt_of_le hi hk)

theorem Holds.read_eq {m' : Memory} {touched : L → Prop} (h : Holds lots a n l)
    (hframe : ∀ x l, lots x = some l → ¬touched l → m' x = m x) (hl : ¬touched l) :
    m'.read a n = m.read a n :=
  Memory.read_congr fun i hi => hframe _ l (h i hi) hl

theorem Holds.write_frame {bs : List UInt8} (h : Holds lots b bs.length l) (m : Memory) {x : ℕ}
    (hx : lots x = some l') (hne : l' ≠ l) : m.write b bs x = m x := by
  by_cases hlo : x < b
  · exact Memory.write_of_lt m bs hlo
  by_cases hhi : b + bs.length ≤ x
  · exact Memory.write_of_ge m bs hhi
  obtain ⟨i, rfl⟩ := Nat.exists_eq_add_of_le (Nat.le_of_not_lt hlo)
  have hsame := h i (by omega)
  rw [hx] at hsame
  exact absurd (Option.some.inj hsame) hne

theorem write_free {bs : List UInt8} (h : ∀ i < bs.length, lots (b + i) = none) (m : Memory) {x : ℕ}
    (hx : lots x = some l) : m.write b bs x = m x := by
  by_cases hlo : x < b
  · exact Memory.write_of_lt m bs hlo
  by_cases hhi : b + bs.length ≤ x
  · exact Memory.write_of_ge m bs hhi
  obtain ⟨i, rfl⟩ := Nat.exists_eq_add_of_le (Nat.le_of_not_lt hlo)
  rw [h i (by omega)] at hx
  cases hx

end Lots
