import Mathlib.Algebra.Order.Field.Rat
import Mathlib.Logic.Relation
import Mathlib.Tactic.Linarith

/-! A limit on a rate that is kept by windows: within a window no more is used than its age
allows, and a window that has grown old enough gives way to a new one, which starts with the
amount that was asked for last. -/

structure RateWindow where
  start : ℚ
  clock : ℚ
  used : ℚ
  total : ℚ

namespace RateWindow

/-- Windows of age `interval` or more are renewed; amounts are at most `largest`. -/
inductive Step (rate interval largest : ℚ) (w : RateWindow) : RateWindow → Prop
  | idle {t : ℚ} : w.clock ≤ t → Step rate interval largest w { w with clock := t }
  | keep {n t t' : ℚ} : w.clock ≤ t → t ≤ t' → 0 ≤ n → w.used + n ≤ rate * (t - w.start) →
      t - w.start ≤ interval →
      Step rate interval largest w ⟨w.start, t', w.used + n, w.total + n⟩
  | renew {n t t' : ℚ} : w.clock ≤ t → t ≤ t' → 0 ≤ n → n ≤ largest →
      w.used + n ≤ rate * (t - w.start) →
      Step rate interval largest w ⟨t', t', n, w.total + n⟩

variable {rate interval largest : ℚ} {w w' : RateWindow}

/-- What has been used since `w₀`: at first in the window of `w₀`, and from the first renewal
on in the windows before the present one and in the present one. -/
inductive Since (rate interval largest : ℚ) (w₀ w : RateWindow) : Prop
  | first : w₀.clock ≤ w.clock → w.start = w₀.start →
      w.total - w₀.total = w.used - w₀.used →
      w.used = w₀.used ∨ w.used ≤ rate * interval → Since rate interval largest w₀ w
  | later {before past : ℚ} : w₀.clock ≤ w.start → w.start ≤ w.clock →
      w.total - w₀.total = before + past + w.used →
      before ≤ rate * interval → past ≤ rate * (w.start - w₀.clock) →
      w.used ≤ largest ∨ w.used ≤ rate * (w.clock - w.start) → Since rate interval largest w₀ w

theorem Since.step {w₀ : RateWindow} (hrate : 0 ≤ rate) (hinterval : 0 ≤ interval)
    (hused : 0 ≤ w₀.used) (h : Since rate interval largest w₀ w)
    (hstep : Step rate interval largest w w') : Since rate interval largest w₀ w' := by
  cases hstep with
  | @idle t ht =>
    cases h with
    | first hclock hstart htotal hle => exact .first (hclock.trans ht) hstart htotal hle
    | later hclock hstart htotal hbefore hpast hle =>
      refine .later hclock (hstart.trans ht) htotal hbefore hpast (hle.imp_right fun hle => ?_)
      exact hle.trans (mul_le_mul_of_nonneg_left (by dsimp only; linarith) hrate)
  | @keep n t t' ht ht' hn hcheck hage =>
    cases h with
    | first hclock hstart htotal hle =>
      refine .first (by dsimp only; linarith) hstart (by dsimp only; linarith) (.inr ?_)
      exact hcheck.trans (mul_le_mul_of_nonneg_left hage hrate)
    | later hclock hstart htotal hbefore hpast hle =>
      refine .later hclock (by dsimp only; linarith) (by dsimp only; linarith) hbefore hpast
        (.inr ?_)
      exact hcheck.trans (mul_le_mul_of_nonneg_left (by dsimp only; linarith) hrate)
  | @renew n t t' ht ht' hn hlargest hcheck =>
    have hzero := mul_nonneg hrate hinterval
    cases h with
    | first hclock hstart htotal hle =>
      refine @later _ _ _ _ _ (w.used - w₀.used) 0 (by dsimp only; linarith) le_rfl
        (by dsimp only; linarith) ?_ (mul_nonneg hrate (by dsimp only; linarith)) (.inl hlargest)
      rcases hle with hle | hle <;> linarith
    | @later before past hclock hstart htotal hbefore hpast hle =>
      refine @later _ _ _ _ _ before (past + w.used) (by dsimp only; linarith) le_rfl
        (by dsimp only; linarith) hbefore ?_ (.inl hlargest)
      have hmono : rate * (t - w.start) ≤ rate * (t' - w.start) :=
        mul_le_mul_of_nonneg_left (by linarith) hrate
      dsimp only
      linarith

theorem Since.total_le {w₀ : RateWindow} (hrate : 0 ≤ rate) (hlargest : 0 ≤ largest)
    (hinterval : 0 ≤ interval) (hused : 0 ≤ w₀.used) (h : Since rate interval largest w₀ w) :
    w.total - w₀.total ≤ rate * (w.clock - w₀.clock + interval) + largest := by
  have hzero := mul_nonneg hrate hinterval
  cases h with
  | first hclock hstart htotal hle =>
    have hpos : 0 ≤ rate * (w.clock - w₀.clock) := mul_nonneg hrate (by linarith)
    rcases hle with hle | hle <;> linarith
  | later hclock hstart htotal hbefore hpast hle =>
    have hpos : 0 ≤ rate * (w.clock - w.start) := mul_nonneg hrate (by linarith)
    rcases hle with hle | hle <;> linarith

/-- Between any two moments no more is used than the rate allows in that time and one interval
more, and one amount. -/
theorem total_le_of_steps (hrate : 0 ≤ rate) (hlargest : 0 ≤ largest) (hinterval : 0 ≤ interval)
    (hused : 0 ≤ w.used) (h : Relation.ReflTransGen (Step rate interval largest) w w') :
    w'.total - w.total ≤ rate * (w'.clock - w.clock + interval) + largest := by
  refine Since.total_le hrate hlargest hinterval hused ?_
  induction h with
  | refl => exact .first le_rfl rfl (by simp) (.inl rfl)
  | tail _ hstep ih => exact ih.step hrate hinterval hused hstep

end RateWindow
