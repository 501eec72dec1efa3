import MltByteps.Ps.Postoffice
import MltByteps.Ps.Resender
import Mathlib.Data.Nat.Bitwise
import Mathlib.Tactic.Ring

/-! Which messages the keys of the resender tell apart. -/

namespace Ps

/-! ## The bits of a key -/

theorem shiftLeft_or (a b c d : ℕ) (hb : b < 2 ^ 8) (hc : c < 2 ^ 8) (hd : d < 2 ^ 32) :
    a <<< 48 ||| b <<< 40 ||| c <<< 32 ||| d = ((a * 2 ^ 8 + b) * 2 ^ 8 + c) * 2 ^ 32 + d := by
  have hc' : c <<< 32 ||| d = c * 2 ^ 32 + d := by
    rw [← Nat.shiftLeft_add_eq_or_of_lt hd, Nat.shiftLeft_eq]
  have hb' : b <<< 40 ||| (c * 2 ^ 32 + d) = b * 2 ^ 40 + (c * 2 ^ 32 + d) := by
    rw [← Nat.shiftLeft_add_eq_or_of_lt (by omega), Nat.shiftLeft_eq]
  rw [Nat.or_assoc, Nat.or_assoc, hc', hb', ← Nat.shiftLeft_add_eq_or_of_lt (by omega),
    Nat.shiftLeft_eq]
  ring

theorem or_ones (h d : ℕ) (hh : h < 2 ^ 32) :
    h <<< 32 ||| (2 ^ 32 - 1) <<< 32 ||| d = (2 ^ 32 - 1) <<< 32 ||| d := by
  have hones : h ||| (2 ^ 32 - 1) = 2 ^ 32 - 1 := by
    refine Nat.eq_of_testBit_eq fun i => ?_
    rw [Nat.testBit_or, Nat.testBit_two_pow_sub_one]
    by_cases hi : i < 32
    · simp [hi]
    · rw [Nat.testBit_lt_two_pow (hh.trans_le (Nat.pow_le_pow_right (by omega) (by omega)))]
      rfl
  rw [← Nat.shiftLeft_or_distrib, hones]

/-- The timestamps that `NewRequest` and the van hand out. -/
def Meta.Timestamped (m : Meta) : Prop := 0 ≤ m.timestamp ∧ m.timestamp < 2 ^ 31 - 1

instance (m : Meta) : Decidable m.Timestamped := inferInstanceAs (Decidable (_ ∧ _))

theorem shiftLeft_one_or (t : ℕ) (q : Bool) : t * 2 ||| q.toNat = t * 2 + q.toNat := by
  have h := Nat.shiftLeft_add_eq_or_of_lt (i := 1) (Bool.toNat_lt q) t
  rw [Nat.shiftLeft_eq] at h
  exact h.symm

/-- From `2 ^ 30` on the shifted timestamp is negative, and its sign covers the ids. -/
theorem keyBits_eq {m : Meta} (hm : m.Timestamped) (v : ℤ) :
    keyBits v m =
      (if m.timestamp < 2 ^ 30 then
        ((m.appId % 2 ^ 16).toNat * 2 ^ 8 + (v % 2 ^ 8).toNat) * 2 ^ 8 + (m.recver % 2 ^ 8).toNat
      else 2 ^ 32 - 1) * 2 ^ 32 + (m.timestamp.toNat * 2 + m.request.toNat) := by
  obtain ⟨h0, h1⟩ := hm
  have hq := Bool.toNat_lt m.request
  unfold keyBits
  split_ifs with hts
  · have hT : (Int.bmod (m.timestamp * 2) (2 ^ 32) % 2 ^ 64).toNat = m.timestamp.toNat * 2 := by
      rw [Int.bmod_def]
      split_ifs <;> omega
    rw [hT, Nat.or_assoc, shiftLeft_one_or]
    exact shiftLeft_or _ _ _ _ (by omega) (by omega) (by omega)
  · have hT : (Int.bmod (m.timestamp * 2) (2 ^ 32) % 2 ^ 64).toNat =
        (2 ^ 32 - 1) <<< 32 ||| m.timestamp.toNat * 2 := by
      rw [← Nat.shiftLeft_add_eq_or_of_lt (by omega), Int.bmod_def]
      split_ifs <;> omega
    have hH : (m.appId % 2 ^ 16).toNat <<< 48 ||| (v % 2 ^ 8).toNat <<< 40 |||
        (m.recver % 2 ^ 8).toNat <<< 32 =
        (((m.appId % 2 ^ 16).toNat * 2 ^ 8 + (v % 2 ^ 8).toNat) * 2 ^ 8 +
          (m.recver % 2 ^ 8).toNat) <<< 32 := by
      have h := shiftLeft_or (m.appId % 2 ^ 16).toNat (v % 2 ^ 8).toNat (m.recver % 2 ^ 8).toNat 0
        (by omega) (by omega) (by omega)
      rw [Nat.or_zero, Nat.add_zero] at h
      rw [h, Nat.shiftLeft_eq]
    rw [hT, hH, Nat.or_assoc, Nat.or_assoc, shiftLeft_one_or, ← Nat.or_assoc,
      or_ones _ _ (by omega), ← Nat.shiftLeft_add_eq_or_of_lt (by omega), Nat.shiftLeft_eq]

/-! ## Messages that are told apart -/

def Apart (myId : ℤ) (m m' : Meta) : Prop :=
  m.timestamp ≠ m'.timestamp ∨ m.request ≠ m'.request ∨
    m.timestamp < 2 ^ 30 ∧ (m.appId % 2 ^ 16 ≠ m'.appId % 2 ^ 16 ∨
      m.senderAt myId % 2 ^ 8 ≠ m'.senderAt myId % 2 ^ 8 ∨ m.recver % 2 ^ 8 ≠ m'.recver % 2 ^ 8)

theorem mul_add_ne_iff {k a a' d d' : ℕ} (hd : d < k) (hd' : d' < k) :
    a * k + d ≠ a' * k + d' ↔ a ≠ a' ∨ d ≠ d' := by
  have hdiv : ∀ {a d : ℕ}, d < k → (a * k + d) / k = a := by
    intro a d hd
    rw [Nat.add_comm, Nat.add_mul_div_right _ _ (Nat.zero_lt_of_lt hd), Nat.div_eq_of_lt hd,
      Nat.zero_add]
  rw [← not_and_or, not_iff_not]
  constructor
  · intro heq
    have ha : a = a' := (hdiv hd).symm.trans ((congrArg (· / k) heq).trans (hdiv hd'))
    subst ha
    exact ⟨rfl, Nat.add_left_cancel heq⟩
  · rintro ⟨rfl, rfl⟩
    rfl

theorem keyBits_ne_iff {m m' : Meta} (hm : m.Timestamped) (hm' : m'.Timestamped) (myId : ℤ) :
    keyBits (m.senderAt myId) m ≠ keyBits (m'.senderAt myId) m' ↔ Apart myId m m' := by
  have hq := Bool.toNat_lt m.request
  have hq' := Bool.toNat_lt m'.request
  have hreq : m.request ≠ m'.request ↔ m.request.toNat ≠ m'.request.toNat := by
    cases m.request <;> cases m'.request <;> decide
  have hmod : ∀ k (x y : ℤ), (x % 2 ^ k).toNat ≠ (y % 2 ^ k).toNat ↔ x % 2 ^ k ≠ y % 2 ^ k := by
    intro k x y
    have hk : (2 ^ k : ℤ) ≠ 0 := by positivity
    have := Int.emod_nonneg x hk
    have := Int.emod_nonneg y hk
    omega
  rw [keyBits_eq hm, keyBits_eq hm', Apart, hreq]
  obtain ⟨h0, h1⟩ := hm
  obtain ⟨h0', h1'⟩ := hm'
  rw [mul_add_ne_iff (by omega) (by omega)]
  by_cases hts : m.timestamp = m'.timestamp
  · -- The upper half tells the messages apart only while the timestamp is not negative.
    rw [← hts, mul_add_ne_iff hq hq']
    split_ifs with hlt
    · rw [mul_add_ne_iff (by omega) (by omega), mul_add_ne_iff (by omega) (by omega), hmod, hmod,
        hmod, or_comm]
      simp only [ne_eq, not_true_eq_false, false_or, hlt, true_and, or_assoc]
    · simp only [ne_eq, not_true_eq_false, false_or, hlt, false_and, or_false]
  · exact iff_of_true (.inr (by omega)) (.inl hts)

theorem getKey_eq {m : Meta} (hm : m.Timestamped) (myId : ℤ) :
    getKey myId m = .ok (keyBits (m.senderAt myId) m) := by
  obtain ⟨h0, h1⟩ := hm
  unfold getKey kEmpty
  rw [require_bind _ (by omega)]
  rfl

def Meta.IsData (m : Meta) : Prop := m.control.cmd ≠ .terminate ∧ m.control.cmd ≠ .ack

instance (m : Meta) : Decidable m.IsData := inferInstanceAs (Decidable (_ ∧ _))

namespace Resender

/-- `AddIncomming` for one message after the other. -/
def addAllIncomming (myId : ℤ) (ms : List Meta) (r : Resender) : Except VanFault Resender :=
  ms.foldlM (fun r m => do
    let (_, r, _) ← r.addIncomming myId m
    return r) r

variable {myId : ℤ}

theorem addIncomming_of_isData {m : Meta} (hm : m.Timestamped) (hdata : m.IsData) (r : Resender) :
    ∃ dropped r' ack, r.addIncomming myId m = .ok (dropped, r', ack) ∧
      (dropped = true ↔ keyBits (m.senderAt myId) m ∈ r.acked) := by
  unfold addIncomming
  rw [if_neg hdata.1, if_neg hdata.2, getKey_eq hm, ok_bind]
  dsimp only
  split_ifs with hmem
  · exact ⟨_, _, _, rfl, iff_of_true rfl hmem⟩
  · exact ⟨_, _, _, rfl, iff_of_false Bool.false_ne_true hmem⟩

theorem addIncomming_acked {m : Meta} (hm : m.IsData → m.Timestamped) (r : Resender) :
    ∃ dropped r' ack, r.addIncomming myId m = .ok (dropped, r', ack) ∧
      ∀ k, k ∈ r'.acked ↔ k ∈ r.acked ∨ m.IsData ∧ k = keyBits (m.senderAt myId) m := by
  by_cases hdata : m.IsData
  · obtain ⟨dropped, r', ack, h, -⟩ := addIncomming_of_isData (hm hdata) hdata r
    refine ⟨dropped, r', ack, h, fun k => ?_⟩
    rcases addIncomming_spec h with ⟨hterm, -⟩ | ⟨hack, -⟩ | ⟨-, -, -, hcase⟩
    · exact absurd hterm hdata.1
    · exact absurd hack hdata.2
    · rcases hcase with ⟨hmem, -, hacked⟩ | ⟨-, -, hacked⟩
      · rw [hacked, and_iff_right hdata, iff_self_or]
        rintro rfl
        exact hmem
      · rw [hacked, List.mem_append, List.mem_singleton, and_iff_right hdata]
  · have hsame : ∃ dropped r' ack, r.addIncomming myId m = .ok (dropped, r', ack) ∧
        r'.acked = r.acked := by
      unfold addIncomming
      split_ifs with hterm hack
      · exact ⟨_, _, _, rfl, rfl⟩
      · exact ⟨_, _, _, rfl, rfl⟩
      · exact absurd ⟨hterm, hack⟩ hdata
    obtain ⟨dropped, r', ack, h, hacked⟩ := hsame
    exact ⟨dropped, r', ack, h, fun k => by rw [hacked]; simp [hdata]⟩

variable (myId) in
theorem addAllIncomming_acked {ms : List Meta} (hms : ∀ m ∈ ms, m.IsData → m.Timestamped)
    (r : Resender) : ∃ r', r.addAllIncomming myId ms = .ok r' ∧
      ∀ k, k ∈ r'.acked ↔
        k ∈ r.acked ∨ ∃ m ∈ ms, m.IsData ∧ k = keyBits (m.senderAt myId) m := by
  induction ms generalizing r with
  | nil => exact ⟨r, rfl, fun k => by simp⟩
  | cons m ms ih =>
    obtain ⟨dropped, r₁, ack, h, hacked⟩ := addIncomming_acked (hms m (by simp)) r
    obtain ⟨r₂, h₂, hacked₂⟩ := ih (fun m hm => hms m (by simp [hm])) r₁
    refine ⟨r₂, ?_, fun k => ?_⟩
    · unfold addAllIncomming at h₂ ⊢
      rw [List.foldlM_cons, h]
      exact h₂
    · rw [hacked₂, hacked, or_assoc]
      simp

end Resender

/-- The keys tell two messages apart exactly if the messages are `Apart`, and a message is dropped
exactly if some message that came before is not `Apart` from it. -/
theorem addIncomming_drops_iff (myId : ℤ) :
    (∀ m m' : Meta, m.Timestamped → m'.Timestamped →
      (getKey myId m ≠ getKey myId m' ↔ Apart myId m m')) ∧
    ∀ (ms : List Meta) (m : Meta), (∀ m' ∈ ms, m'.IsData → m'.Timestamped) →
      m.Timestamped → m.IsData →
      ∃ r dropped r' ack, Resender.init.addAllIncomming myId ms = .ok r ∧
        r.addIncomming myId m = .ok (dropped, r', ack) ∧
        (dropped = true ↔ ∃ m' ∈ ms, m'.IsData ∧ ¬Apart myId m m') := by
  refine ⟨fun m m' hm hm' => ?_, fun ms m hms hm hdata => ?_⟩
  · rw [getKey_eq hm, getKey_eq hm', ← keyBits_ne_iff hm hm']
    simp
  · obtain ⟨r, hr, hacked⟩ := Resender.addAllIncomming_acked myId hms .init
    obtain ⟨dropped, r', ack, h, hdropped⟩ := Resender.addIncomming_of_isData hm hdata r
    refine ⟨r, dropped, r', ack, hr, h, ?_⟩
    rw [hdropped, hacked]
    constructor
    · rintro (hk | ⟨m', hm', hdata', hk⟩)
      · exact nomatch hk
      · refine ⟨m', hm', hdata', ?_⟩
        rw [← keyBits_ne_iff hm (hms m' hm' hdata')]
        exact not_not_intro hk
    · rintro ⟨m', hm', hdata', hapart⟩
      rw [← keyBits_ne_iff hm (hms m' hm' hdata'), not_not] at hapart
      exact .inr ⟨m', hm', hdata', hapart⟩

/-- The push of a customer of the worker `rank` to the first server. -/
def pushOf (rank : ℕ) (customerId : ℤ) : Meta :=
  { sender := workerRankToID rank, recver := serverRankToID 0, appId := 0, customerId,
    timestamp := 0, request := true, push := true }

theorem addIncomming_drops_iff_pushOf : ∃ r dropped r' ack,
    Resender.init.addAllIncomming 8 [pushOf 0 0] = .ok r ∧
    r.addIncomming 8 (pushOf 1 0) = .ok (dropped, r', ack) ∧
    (dropped = true ↔ ∃ m' ∈ [pushOf 0 0], m'.IsData ∧ ¬Apart 8 (pushOf 1 0) m') :=
  (addIncomming_drops_iff 8).2 [pushOf 0 0] (pushOf 1 0) (by decide) (by decide) (by decide)

/-- Two customers of one worker, and two workers whose ids differ by 256, send messages with one
key; the second of them is dropped although it has not come before. -/
theorem push_dropped_by_other :
    ((pushOf 0 0).customerId ≠ (pushOf 0 1).customerId ∧
      getKey 8 (pushOf 0 0) = getKey 8 (pushOf 0 1) ∧
      (Resender.init.addAllIncomming 8 [pushOf 0 0] >>= (·.addIncomming 8 (pushOf 0 1))).map
        (·.1) = .ok true) ∧
    (pushOf 0 0).sender ≠ (pushOf 128 0).sender ∧
      getKey 8 (pushOf 0 0) = getKey 8 (pushOf 128 0) ∧
      (Resender.init.addAllIncomming 8 [pushOf 0 0] >>= (·.addIncomming 8 (pushOf 128 0))).map
        (·.1) = .ok true := by
  decide +kernel

end Ps
