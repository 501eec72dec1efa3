import Mathlib.Init

/-! Checks that abort a computation in `Except`. -/

def require {ε : Type} (f : ε) (p : Prop) [Decidable p] : Except ε Unit :=
  if p then .ok () else .error f

section

variable {ε α β : Type} {f : ε} {p : Prop} [Decidable p]

theorem require_bind (k : Unit → Except ε α) (h : p) : (require f p >>= k) = k () := by
  simp only [require, if_pos h]
  rfl

theorem require_bind_eq_ok {k : Unit → Except ε α} {r : α} :
    (require f p >>= k) = .ok r ↔ p ∧ k () = .ok r := by
  by_cases h : p
  · rw [require_bind k h, and_iff_right h]
  · simp only [require, if_neg h]
    exact ⟨fun he => (nomatch he), fun he => absurd he.1 h⟩

theorem bind_eq_ok {x : Except ε α} {k : α → Except ε β} {r : β} :
    (x >>= k) = .ok r ↔ ∃ a, x = .ok a ∧ k a = .ok r := by
  cases x with
  | error e => exact ⟨fun h => (nomatch h), fun ⟨_, h, _⟩ => (nomatch h)⟩
  | ok a => exact ⟨fun h => ⟨a, rfl, h⟩, fun ⟨_, h, hk⟩ => by cases h; exact hk⟩

theorem ok_bind (a : α) (k : α → Except ε β) : (Except.ok a >>= k) = k a := rfl

/-- The computation returns a value in `P`; it may fault only if `bad` holds. -/
def Yields (bad : Prop) (x : Except ε α) (P : α → Prop) : Prop :=
  (∃ a, x = .ok a ∧ P a) ∨ bad ∧ ∃ e, x = .error e

namespace Yields

variable {bad bad' : Prop} {x : Except ε α} {P Q : α → Prop}

theorem of_ok {a : α} (hx : x = .ok a) (ha : P a) : Yields bad x P := .inl ⟨a, hx, ha⟩

theorem exists_ok (h : Yields bad x P) (hb : ¬bad) : ∃ a, x = .ok a ∧ P a :=
  h.resolve_right fun hbad => hb hbad.1

theorem of_eq_ok (h : Yields bad x P) {a : α} (hx : x = .ok a) : P a := by
  rcases h with ⟨b, hb, hP⟩ | ⟨-, e, he⟩
  · cases hx.symm.trans hb
    exact hP
  · cases hx.symm.trans he

theorem mono (h : Yields bad x P) (hbad : bad → bad') (hP : ∀ a, P a → Q a) : Yields bad' x Q :=
  Or.imp (fun ⟨a, hx, ha⟩ => ⟨a, hx, hP a ha⟩) (fun ⟨hb, he⟩ => ⟨hbad hb, he⟩) h

theorem bind {k : α → Except ε β} {R : β → Prop} (h : Yields bad x P)
    (hk : ∀ a, P a → Yields bad (k a) R) : Yields bad (x >>= k) R := by
  rcases h with ⟨a, rfl, ha⟩ | ⟨hb, e, rfl⟩
  · exact hk a ha
  · exact .inr ⟨hb, e, rfl⟩

end Yields

end
