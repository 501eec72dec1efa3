import Mathlib.Data.List.Basic

/-! Machines that take labelled steps and may fault, and the states they reach when an
environment chooses the labels under a discipline of its own. -/

structure Machine (σ α ε : Type) where
  init : σ
  step : σ → α → Except ε σ

namespace Machine

variable {σ α ε : Type} (M : Machine σ α ε)

/-- The states reached by labels that `allowed` lets the environment choose. -/
inductive Reachable (allowed : σ → α → Prop) : σ → Prop
  | init : Reachable allowed M.init
  | step {s s' : σ} {a : α} : Reachable allowed s → allowed s a → M.step s a = .ok s' →
      Reachable allowed s'

variable {M} {allowed allowed' : σ → α → Prop} {s : σ}

theorem Reachable.invariant {P : σ → Prop} (hinit : P M.init)
    (hstep : ∀ s a s', P s → allowed s a → M.step s a = .ok s' → P s')
    (h : M.Reachable allowed s) : P s := by
  induction h with
  | init => exact hinit
  | step _ ha hs ih => exact hstep _ _ _ ih ha hs

theorem Reachable.mono
    (hle : ∀ s a, M.Reachable allowed s → M.Reachable allowed' s → allowed s a → allowed' s a)
    (h : M.Reachable allowed s) : M.Reachable allowed' s := by
  induction h with
  | init => exact .init
  | step hr ha hs ih => exact .step ih (hle _ _ hr ih ha) hs

variable (M) (allowed) in
inductive Steps (s : σ) : σ → Prop
  | refl : Steps s s
  | tail {s' s'' : σ} {a : α} : Steps s s' → allowed s' a → M.step s' a = .ok s'' → Steps s s''

theorem Steps.invariant {P : σ → Prop} {s' : σ} (h : M.Steps allowed s s') (hs : P s)
    (hstep : ∀ s a s', P s → allowed s a → M.step s a = .ok s' → P s') : P s' := by
  induction h with
  | refl => exact hs
  | tail _ ha hs ih => exact hstep _ _ _ ih ha hs

variable (M) (allowed) [∀ s a, Decidable (allowed s a)]

def run : σ → List α → Option σ
  | s, [] => some s
  | s, a :: as =>
    if allowed s a then
      match M.step s a with
      | .ok s' => run s' as
      | .error _ => none
    else none

variable {M allowed}

theorem Reachable.run {s s' : σ} {as : List α} (h : M.Reachable allowed s)
    (hrun : M.run allowed s as = some s') : M.Reachable allowed s' := by
  induction as generalizing s with
  | nil =>
    cases hrun
    exact h
  | cons a as ih =>
    rw [Machine.run] at hrun
    split_ifs at hrun with ha
    rcases hs : M.step s a with e | s₁
    · rw [hs] at hrun
      cases hrun
    · rw [hs] at hrun
      exact ih (.step h ha hs) hrun

theorem Steps.run {s s' : σ} {as : List α} (hrun : M.run allowed s as = some s') :
    M.Steps allowed s s' := by
  suffices ∀ s₀, M.Steps allowed s₀ s → M.Steps allowed s₀ s' from this s .refl
  intro s₀ h
  induction as generalizing s with
  | nil =>
    cases hrun
    exact h
  | cons a as ih =>
    rw [Machine.run] at hrun
    split_ifs at hrun with ha
    rcases hs : M.step s a with e | s₁
    · rw [hs] at hrun
      cases hrun
    · rw [hs] at hrun
      exact ih hrun (.tail h ha hs)

theorem run_countP {f : σ → ℕ} {p : α → Bool} {s s' : σ} {as : List α}
    (hstep : ∀ s a s', M.step s a = .ok s' → f s' = f s + if p a then 1 else 0)
    (hrun : M.run allowed s as = some s') : f s' = f s + as.countP p := by
  induction as generalizing s with
  | nil =>
    cases hrun
    rfl
  | cons a as ih =>
    rw [Machine.run] at hrun
    split_ifs at hrun with ha
    rcases hs : M.step s a with e | s₁
    · rw [hs] at hrun
      cases hrun
    · rw [hs] at hrun
      rw [ih hrun, hstep s a s₁ hs, List.countP_cons]
      omega

variable (M allowed)

theorem exists_reachable_of_run (as : List α) (P : σ → Prop) [DecidablePred P]
    (h : (M.run allowed M.init as).any (fun s => decide (P s)) = true) :
    ∃ s, M.Reachable allowed s ∧ P s := by
  rcases hrun : M.run allowed M.init as with _ | s
  · rw [hrun] at h
    cases h
  · rw [hrun] at h
    exact ⟨s, Reachable.run .init hrun, of_decide_eq_true h⟩

end Machine
