import Mathlib.Algebra.BigOperators.Group.Finset.Basic
import MltByteps.Lib.Machine

/-! Machines whose steps of one kind lower a rank: they take only so many of them, and end in a
state in which none is left to take. -/

namespace Machine

variable {σ α ε : Type} {M : Machine σ α ε} {allowed : σ → α → Prop} {kind : α → Prop}
  {P : σ → Prop} {rank : σ → ℕ}

/-- From every state with `P`, an allowed step of the kind succeeds, keeps `P` and lowers the
rank. -/
def Lowers (M : Machine σ α ε) (allowed : σ → α → Prop) (kind : α → Prop) (P : σ → Prop)
    (rank : σ → ℕ) : Prop :=
  ∀ s a, P s → kind a → allowed s a → ∃ s', M.step s a = .ok s' ∧ P s' ∧ rank s' < rank s

def Stuck (allowed : σ → α → Prop) (kind : α → Prop) (s : σ) : Prop := ∀ a, kind a → ¬ allowed s a

theorem Lowers.exists_stuck (h : M.Lowers allowed kind P rank) (s : σ) (hs : P s) :
    ∃ s', M.Steps (fun s a => kind a ∧ allowed s a) s s' ∧ P s' ∧ Stuck allowed kind s' := by
  suffices hmain : ∀ n s₁, rank s₁ ≤ n → P s₁ →
      M.Steps (fun s a => kind a ∧ allowed s a) s s₁ →
      ∃ s', M.Steps (fun s a => kind a ∧ allowed s a) s s' ∧ P s' ∧ Stuck allowed kind s' from
    hmain _ s (Nat.le_refl _) hs .refl
  intro n
  induction n with
  | zero =>
    intro s₁ hn hs₁ hsteps
    refine ⟨s₁, hsteps, hs₁, fun a hkind ha => ?_⟩
    obtain ⟨s₂, -, -, hlt⟩ := h s₁ a hs₁ hkind ha
    omega
  | succ n ih =>
    intro s₁ hn hs₁ hsteps
    by_cases hstuck : Stuck allowed kind s₁
    · exact ⟨s₁, hsteps, hs₁, hstuck⟩
    · simp only [Stuck, not_forall, not_not] at hstuck
      obtain ⟨a, hkind, ha⟩ := hstuck
      obtain ⟨s₂, hstep, hs₂, hlt⟩ := h s₁ a hs₁ hkind ha
      exact ih s₂ (by omega) hs₂ (.tail hsteps ⟨hkind, ha⟩ hstep)

variable [∀ s a, Decidable (allowed s a)]

theorem Lowers.countP_le [DecidablePred kind] (h : M.Lowers allowed kind P rank) {s s' : σ}
    {as : List α} (hs : P s)
    (hother : ∀ a ∈ as, ¬kind a → ∀ s s', P s → allowed s a → M.step s a = .ok s' →
      P s' ∧ rank s' ≤ rank s)
    (hrun : M.run allowed s as = some s') : P s' ∧ as.countP kind + rank s' ≤ rank s := by
  induction as generalizing s with
  | nil =>
    cases hrun
    exact ⟨hs, by simp⟩
  | cons a as ih =>
    rw [Machine.run] at hrun
    split_ifs at hrun with ha
    have hrest := fun b hb => hother b (List.mem_cons_of_mem a hb)
    by_cases hkind : kind a
    · obtain ⟨s₁, hstep, hs₁, hlt⟩ := h s a hs hkind ha
      rw [hstep] at hrun
      obtain ⟨hs', hle⟩ := ih hs₁ hrest hrun
      refine ⟨hs', ?_⟩
      rw [List.countP_cons, if_pos (decide_eq_true hkind)]
      omega
    · split at hrun
      · next s₁ hstep =>
        obtain ⟨hs₁, hle₁⟩ := hother a List.mem_cons_self hkind s s₁ hs ha hstep
        obtain ⟨hs', hle⟩ := ih hs₁ hrest hrun
        refine ⟨hs', ?_⟩
        rw [List.countP_cons, if_neg (by simpa using hkind)]
        omega
      · cases hrun

theorem Lowers.length_le (h : M.Lowers allowed kind P rank) {s s' : σ} {as : List α} (hs : P s)
    (has : ∀ a ∈ as, kind a) (hrun : M.run allowed s as = some s') :
    P s' ∧ as.length + rank s' ≤ rank s := by
  classical
  have hcount : as.countP kind = as.length := List.countP_eq_length.mpr fun a ha =>
    decide_eq_true (has a ha)
  exact hcount ▸ h.countP_le hs (fun a ha hnot => absurd (has a ha) hnot) hrun

end Machine

theorem sum_add_of_eq_off {ι : Type} [DecidableEq ι] {s : Finset ι} {f g : ι → ℕ} {a : ι}
    (ha : a ∈ s) (h : ∀ b, b ≠ a → g b = f b) : (∑ b ∈ s, g b) + f a = (∑ b ∈ s, f b) + g a := by
  have hrest : ∑ b ∈ s.erase a, g b = ∑ b ∈ s.erase a, f b :=
    Finset.sum_congr rfl fun b hb => h b (Finset.ne_of_mem_erase hb)
  rw [← Finset.add_sum_erase s g ha, ← Finset.add_sum_erase s f ha, hrest]
  omega
