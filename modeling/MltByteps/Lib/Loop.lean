import MltByteps.Lib.Check
import Mathlib.Data.Nat.Notation

/-! `while` loops with a bound on the number of rounds, and the rule by which an invariant and
a measure show that a loop ends. -/

namespace Loop

variable {σ : Type} {cond : σ → Bool} {body : σ → Option σ}

/-- `while (cond) body`; `none` if the rounds do not suffice. -/
def run (cond : σ → Bool) (body : σ → Option σ) : ℕ → σ → Option σ
  | 0, s => if cond s then none else some s
  | rounds + 1, s => if cond s then (body s).bind (run cond body rounds) else some s

theorem run_of_not (rounds : ℕ) {s : σ} (h : cond s = false) :
    run cond body rounds s = some s := by
  cases rounds <;> simp [run, h]

theorem run_spec (inv : σ → Prop) (measure : σ → ℕ)
    (hbody : ∀ s, inv s → cond s = true →
      ∃ s', body s = some s' ∧ inv s' ∧ measure s' < measure s)
    {rounds : ℕ} {s : σ} (hs : inv s) (hm : measure s ≤ rounds) :
    ∃ s', run cond body rounds s = some s' ∧ inv s' ∧ cond s' = false := by
  induction rounds generalizing s with
  | zero =>
    rcases hc : cond s with _ | _
    · exact ⟨s, run_of_not 0 hc, hs, hc⟩
    · obtain ⟨s', -, -, hlt⟩ := hbody s hs hc
      omega
  | succ rounds ih =>
    rcases hc : cond s with _ | _
    · exact ⟨s, run_of_not _ hc, hs, hc⟩
    · obtain ⟨s', hs', hinv, hlt⟩ := hbody s hs hc
      obtain ⟨s'', hrun, hinv', hc'⟩ := ih hinv (by omega)
      refine ⟨s'', ?_, hinv', hc'⟩
      rw [run, hc, if_pos rfl, hs']
      exact hrun

theorem run_map {τ : Type} {cond' : τ → Bool} {body' : τ → Option τ} (π : τ → σ)
    (hcond : ∀ t, cond' t = cond (π t)) (hbody : ∀ t, (body' t).map π = body (π t))
    (rounds : ℕ) (t : τ) : (run cond' body' rounds t).map π = run cond body rounds (π t) := by
  induction rounds generalizing t with
  | zero =>
    rw [run, run, hcond]
    cases cond (π t) <;> rfl
  | succ rounds ih =>
    rw [run, run, hcond, ← hbody]
    cases cond (π t) with
    | false => rfl
    | true =>
      cases body' t with
      | none => rfl
      | some t' => exact ih t'

/-! ## Loops whose test may fail -/

section Fallible

variable {ε : Type} {timeout : ε} {test : σ → Except ε Bool} {act : σ → Except ε σ}

/-- `while (test) act`; `timeout` if the rounds do not suffice. -/
def exec (timeout : ε) (test : σ → Except ε Bool) (act : σ → Except ε σ) : ℕ → σ → Except ε σ
  | 0, s => test s >>= fun c => if c then .error timeout else .ok s
  | rounds + 1, s => test s >>= fun c =>
    if c then act s >>= exec timeout test act rounds else .ok s

theorem exec_of_not (rounds : ℕ) {s : σ} (h : test s = .ok false) :
    exec timeout test act rounds s = .ok s := by
  cases rounds <;> rw [exec, h] <;> rfl

theorem exec_succ (rounds : ℕ) {s : σ} (h : test s = .ok true) :
    exec timeout test act (rounds + 1) s = act s >>= exec timeout test act rounds := by
  rw [exec, h]
  rfl

theorem exec_spec (inv : σ → Prop) (measure : σ → ℕ)
    (hstep : ∀ s, inv s → test s = .ok false ∨
      test s = .ok true ∧ ∃ s', act s = .ok s' ∧ inv s' ∧ measure s' < measure s)
    {rounds : ℕ} {s : σ} (hs : inv s) (hm : measure s ≤ rounds) :
    ∃ s', exec timeout test act rounds s = .ok s' ∧ inv s' ∧ test s' = .ok false := by
  induction rounds generalizing s with
  | zero =>
    rcases hstep s hs with hc | ⟨-, s', -, -, hlt⟩
    · exact ⟨s, exec_of_not 0 hc, hs, hc⟩
    · omega
  | succ rounds ih =>
    rcases hstep s hs with hc | ⟨hc, s', hs', hinv, hlt⟩
    · exact ⟨s, exec_of_not _ hc, hs, hc⟩
    · obtain ⟨s'', hrun, hinv', hc'⟩ := ih hinv (by omega)
      refine ⟨s'', ?_, hinv', hc'⟩
      rw [exec_succ rounds hc, hs']
      exact hrun

theorem exec_ok (inv : σ → Prop)
    (hstep : ∀ s s', inv s → test s = .ok true → act s = .ok s' → inv s')
    {rounds : ℕ} {s s' : σ} (hs : inv s) (h : exec timeout test act rounds s = .ok s') :
    inv s' ∧ test s' = .ok false := by
  induction rounds generalizing s with
  | zero =>
    obtain ⟨c, hc, h⟩ := bind_eq_ok.mp h
    cases c
    · cases h
      exact ⟨hs, hc⟩
    · cases h
  | succ rounds ih =>
    obtain ⟨c, hc, h⟩ := bind_eq_ok.mp h
    cases c
    · cases h
      exact ⟨hs, hc⟩
    · obtain ⟨s₁, hs₁, h⟩ := bind_eq_ok.mp h
      exact ih (hstep s s₁ hs hc hs₁) h

theorem exec_timeout (inv : σ → Prop)
    (hstep : ∀ s, inv s → test s = .ok true ∧ ∃ s', act s = .ok s' ∧ inv s')
    (rounds : ℕ) {s : σ} (hs : inv s) : exec timeout test act rounds s = .error timeout := by
  induction rounds generalizing s with
  | zero =>
    rw [exec, (hstep s hs).1]
    rfl
  | succ rounds ih =>
    obtain ⟨hc, s', hs', hinv⟩ := hstep s hs
    rw [exec_succ rounds hc, hs']
    exact ih hinv

end Fallible

end Loop
