import Mathlib.Data.Rat.Floor
import Mathlib.Tactic.FieldSimp
import MltByteps.Lib.RateWindow
import MltByteps.Mlt.RateMeter

/-! The sending rate of a connection: the reliable channel adjusts it to what the receiver
reports, and the polls of the sending thread ask the meter before each packet. Rates are
rational numbers here. -/

namespace Mlt

/-- `TryBytesPerSecond(extra) > rate`. Over no time at all the quotient is infinite. -/
def RateMeter.tryExceeds (now : ℤ) (extra : ℕ) (rate : ℚ) (m : RateMeter) : Bool :=
  if now = m.tp then 0 < m.bytes + extra
  else rate < 10 ^ 9 * ((m.bytes + extra : ℕ) : ℚ) / ((now - m.tp : ℤ) : ℚ)

/-- The `kRateAdjustment` case of `OnSignal`. -/
def adjustRate (initialSendingRate hdrRate rate : ℚ) : ℚ :=
  let throttle := max hdrRate initialSendingRate
  if throttle < rate then throttle else rate * 2

/-- A connection with its sending rate; `clock` is what the polls have read last. -/
structure RateLimit where
  metered : MeteredConn
  sendingRate : ℚ
  clock : ℤ

namespace RateLimit

def init (intervalUs : ℤ) (initialSendingRate : ℚ) (now : ℤ) : RateLimit :=
  ⟨.init intervalUs now, initialSendingRate, now⟩

def sendThrottled (p : Packetizer) (t : ℤ) (s : RateLimit) : Bool :=
  match s.metered.conn.sendingMsgs.begin? with
  | none => false
  | some (_, msg) => s.metered.txMeter.tryExceeds t (p.getBytes msg) s.sendingRate

def resendThrottled (p : Packetizer) (t : ℤ) (s : RateLimit) : Bool :=
  match s.metered.conn.retransmitReqs.begin? with
  | none => false
  | some (_, hdr, _) =>
    match s.metered.conn.retransmittingMsgs.lookup hdr.msgId with
    | none => false
    | some msg => s.metered.txMeter.tryExceeds t (p.getBytes msg) s.sendingRate

/-- A poll reads the clock in `TryBytesPerSecond`, in `Elapsed` and in `Clear`. -/
inductive Action where
  | post (msg : LtMessage) (hsize : msg.size < 2 ^ 64)
  | popSendRequest
  | requestRetransmit (hdr : RetransmitRequest)
  | stopFlow (flowId : ℕ)
  | pollSendingMessages (prio : PktPrioFunc) (t t' t'' : ℤ)
  | pollRetransmitRequest (prio : PktPrioFunc) (t t' t'' : ℤ)
  | rateAdjustment (hdrRate : ℚ)

def meteredAction (p : Packetizer) (s : RateLimit) : Action → Option MeteredConn.Action
  | .post msg hsize => some (.post msg hsize)
  | .popSendRequest => some .popSendRequest
  | .requestRetransmit hdr => some (.requestRetransmit hdr)
  | .stopFlow flowId => some (.stopFlow flowId)
  | .pollSendingMessages prio t t' t'' =>
    some (.pollSendingMessages prio (s.sendThrottled p t) t' t'')
  | .pollRetransmitRequest prio t t' t'' =>
    some (.pollRetransmitRequest prio (s.resendThrottled p t) t' t'')
  | .rateAdjustment _ => none

def rateAfter (initialSendingRate : ℚ) (s : RateLimit) : Action → ℚ
  | .rateAdjustment hdrRate => adjustRate initialSendingRate hdrRate s.sendingRate
  | _ => s.sendingRate

def clockAfter (s : RateLimit) : Action → ℤ
  | .pollSendingMessages _ _ _ t'' => t''
  | .pollRetransmitRequest _ _ _ t'' => t''
  | _ => s.clock

def meteredStep (p : Packetizer) (dest : ℤ) (s : RateLimit) (a : Action) :
    Except Fault MeteredConn :=
  match s.meteredAction p a with
  | some b => s.metered.step p dest b
  | none => .ok s.metered

def step (p : Packetizer) (dest : ℤ) (initialSendingRate : ℚ) (s : RateLimit) (a : Action) :
    Except Fault RateLimit := do
  let metered ← s.meteredStep p dest a
  return ⟨metered, s.rateAfter initialSendingRate a, s.clockAfter a⟩

def machine (p : Packetizer) (dest intervalUs : ℤ) (initialSendingRate : ℚ) (now : ℤ) :
    Machine RateLimit Action Fault where
  init := init intervalUs initialSendingRate now
  step := step p dest initialSendingRate

/-- The clock does not go back, and the receiver reports at most `reported`. -/
def Timely (reported : ℚ) (s : RateLimit) : Action → Prop
  | .pollSendingMessages _ t t' t'' => s.clock ≤ t ∧ t ≤ t' ∧ t' ≤ t''
  | .pollRetransmitRequest _ t t' t'' => s.clock ≤ t ∧ t ≤ t' ∧ t' ≤ t''
  | .rateAdjustment hdrRate => hdrRate ≤ reported
  | _ => True

instance (reported : ℚ) (s : RateLimit) : DecidablePred (s.Timely reported)
  | .post _ _ => .isTrue trivial
  | .popSendRequest => .isTrue trivial
  | .requestRetransmit _ => .isTrue trivial
  | .stopFlow _ => .isTrue trivial
  | .pollSendingMessages _ t t' t'' => inferInstanceAs (Decidable (s.clock ≤ t ∧ t ≤ t' ∧ t' ≤ t''))
  | .pollRetransmitRequest _ t t' t'' =>
    inferInstanceAs (Decidable (s.clock ≤ t ∧ t ≤ t' ∧ t' ≤ t''))
  | .rateAdjustment hdrRate => inferInstanceAs (Decidable (hdrRate ≤ reported))

def charged (s : RateLimit) : ℕ := (s.metered.charges.map (·.charged)).sum

variable {p : Packetizer} {dest intervalUs now : ℤ} {initialSendingRate reported : ℚ}
  {s s' : RateLimit}

/-! ## The rate -/

theorem adjustRate_le {hdrRate rate : ℚ} (hhdr : hdrRate ≤ reported)
    (hinit : 0 ≤ initialSendingRate) :
    adjustRate initialSendingRate hdrRate rate ≤ 2 * max reported initialSendingRate := by
  have hle := max_le_max_right initialSendingRate hhdr
  have hpos : 0 ≤ max reported initialSendingRate := hinit.trans (le_max_right _ _)
  unfold adjustRate
  dsimp only
  split_ifs with h
  · linarith
  · linarith [not_lt.mp h]

theorem le_adjustRate {hdrRate rate : ℚ} (hinit : 0 ≤ initialSendingRate)
    (hrate : initialSendingRate ≤ rate) :
    initialSendingRate ≤ adjustRate initialSendingRate hdrRate rate := by
  unfold adjustRate
  dsimp only
  split_ifs
  · exact le_max_right _ _
  · linarith

structure RateOk (initialSendingRate reported : ℚ) (s : RateLimit) : Prop where
  le_rate : initialSendingRate ≤ s.sendingRate
  rate_le : s.sendingRate ≤ 2 * max reported initialSendingRate

theorem RateOk.step {a : Action} (hinit : 0 ≤ initialSendingRate)
    (h : s.RateOk initialSendingRate reported) (ha : s.Timely reported a)
    (hstep : s.step p dest initialSendingRate a = .ok s') :
    s'.RateOk initialSendingRate reported := by
  obtain ⟨m, -, hstep⟩ := bind_eq_ok.mp hstep
  cases hstep
  cases a with
  | rateAdjustment hdrRate =>
    exact ⟨le_adjustRate hinit h.le_rate, adjustRate_le ha hinit⟩
  | _ => exact ⟨h.le_rate, h.rate_le⟩

/-! ## What one step charges -/

theorem charged_sent {t t' : ℤ} {x : Charge} {conn : Communicator} {m : MeteredConn} {r : ℚ}
    {c : ℤ} : charged ⟨m.sent t t' x conn, r, c⟩ = charged ⟨m, r, c⟩ + x.charged := by
  simp [charged, MeteredConn.sent]

/-- The check has let a packet of `n` bytes pass at `t`, and the meter is charged with it. -/
structure Passed (largest : ℕ) (s s' : RateLimit) (n : ℕ) (t t' : ℤ) : Prop where
  times : s.clock ≤ t ∧ t ≤ t' ∧ t' ≤ s'.clock
  allowed : s.metered.txMeter.tryExceeds t n s.sendingRate = false
  le_largest : n ≤ largest
  meter : s'.metered.txMeter = s.metered.txMeter.charge t' s'.clock n
  charged_eq : s'.charged = s.charged + n

theorem getBytes_le_largest {msg : LtMessageExt} :
    p.getBytes msg ≤ max p.maxSegment kGradPacketHeader := by
  unfold Packetizer.getBytes Packetizer.segmentLen Packetizer.bound
  split_ifs <;> omega

theorem pollSendingMessages_cases {m : MeteredConn} {prio : PktPrioFunc} {throttled : Bool}
    {t t' : ℤ} : m.pollSendingMessages ⟨p, dest, prio, 0⟩ throttled t t' = m ∨
      throttled = false ∧ ∃ key msg pkt conn, m.conn.sendingMsgs.begin? = some (key, msg) ∧
        m.pollSendingMessages ⟨p, dest, prio, 0⟩ throttled t t' =
          m.sent t t' ⟨pkt, p.getBytes msg, p.getBytes msg⟩ conn := by
  unfold MeteredConn.pollSendingMessages
  rcases m.conn.sendingMsgs.begin? with _ | ⟨key, msg⟩
  · exact .inl rfl
  cases throttled
  · exact .inr ⟨rfl, key, msg, _, _, rfl, rfl⟩
  · exact .inl rfl

theorem charge_of_step {a : Action} (ha : s.Timely reported a)
    (hstep : s.step p dest initialSendingRate a = .ok s') :
    s.clock ≤ s'.clock ∧ s'.metered.txMeter = s.metered.txMeter ∧ s'.charged = s.charged ∨
      ∃ n t t', Passed (max p.maxSegment kGradPacketHeader) s s' n t t' := by
  obtain ⟨m, hm, hstep⟩ := bind_eq_ok.mp hstep
  cases hstep
  cases a with
  | post msg hsize =>
    cases hm
    exact .inl ⟨le_rfl, rfl, rfl⟩
  | popSendRequest =>
    obtain ⟨c, -, hm⟩ := bind_eq_ok.mp hm
    cases hm
    exact .inl ⟨le_rfl, rfl, rfl⟩
  | requestRetransmit hdr =>
    obtain ⟨c, -, hm⟩ := bind_eq_ok.mp hm
    cases hm
    exact .inl ⟨le_rfl, rfl, rfl⟩
  | stopFlow flowId =>
    cases hm
    exact .inl ⟨le_rfl, rfl, rfl⟩
  | rateAdjustment hdrRate =>
    cases hm
    exact .inl ⟨le_rfl, rfl, rfl⟩
  | pollSendingMessages prio t t' t'' =>
    obtain ⟨ht, ht', ht''⟩ := ha
    cases hm
    rcases pollSendingMessages_cases with heq | ⟨hcheck, key, msg, pkt, conn, hb, heq⟩
    · exact .inl ⟨by dsimp only [clockAfter]; omega, by rw [heq], by rw [heq]; rfl⟩
    · simp only [sendThrottled, hb] at hcheck
      refine .inr ⟨p.getBytes msg, t, t', ⟨ht, ht', ht''⟩, hcheck, getBytes_le_largest, ?_, ?_⟩
      · rw [heq]
        rfl
      · rw [heq]
        exact charged_sent
  | pollRetransmitRequest prio t t' t'' =>
    obtain ⟨ht, ht', ht''⟩ := ha
    rcases MeteredConn.pollRetransmitRequest_cases hm with
      ⟨rfl, -⟩ | ⟨hcheck, key, hdr, state, msg, fin, state', hb, hmsg, rfl⟩
    · exact .inl ⟨by dsimp only [clockAfter]; omega, rfl, rfl⟩
    · simp only [resendThrottled, hb, hmsg] at hcheck
      exact .inr ⟨p.getBytes msg, t, t', ⟨ht, ht', ht''⟩, hcheck, getBytes_le_largest, rfl,
        charged_sent⟩

/-! ## The limit -/

/-- The meter reads the clock before every new packet, and its window began in the past. -/
structure MeterOk (intervalUs : ℤ) (s : RateLimit) : Prop where
  sample : s.metered.txMeter.sample = 0
  scnt : 0 ≤ s.metered.txMeter.scnt
  interval : s.metered.txMeter.interval = intervalUs * 1000
  tp_le : s.metered.txMeter.tp ≤ s.clock

end RateLimit

namespace RateMeter

variable {m : RateMeter} {t t' : ℤ} {n : ℕ}

theorem charge_of_sample (hsample : m.sample = 0) (hscnt : 0 ≤ m.scnt) :
    m.charge t t' n = if m.interval ≤ t - m.tp then ⟨0, 1, n, 1, t', m.interval⟩
      else ⟨0, 1, m.bytes + n, m.msgs + 1, m.tp, m.interval⟩ := by
  have hread : m.sample ≤ m.scnt + 1 := by omega
  unfold charge elapsed
  rw [if_pos hread]
  by_cases hold : m.interval ≤ t - m.tp <;> simp [hold, clear, update, hsample]

theorem le_of_not_tryExceeds {rate : ℚ} (htp : m.tp ≤ t)
    (h : m.tryExceeds t n rate = false) :
    ((m.bytes + n : ℕ) : ℚ) ≤ rate / 10 ^ 9 * ((t : ℚ) - m.tp) := by
  unfold tryExceeds at h
  split_ifs at h with heq
  · have hzero : m.bytes + n = 0 := by simpa using h
    rw [hzero, heq]
    simp
  · have hpos : (0 : ℚ) < t - m.tp := by
      rw [sub_pos, Int.cast_lt]
      omega
    have hle := not_lt.mp (of_decide_eq_false h)
    push_cast at hle ⊢
    rw [div_le_iff₀ hpos] at hle
    linarith

end RateMeter

namespace RateLimit

variable {p : Packetizer} {dest intervalUs now : ℤ} {initialSendingRate reported : ℚ}
  {s s' : RateLimit}

theorem MeterOk.step {a : Action} (h : s.MeterOk intervalUs) (ha : s.Timely reported a)
    (hstep : s.step p dest initialSendingRate a = .ok s') : s'.MeterOk intervalUs := by
  rcases charge_of_step ha hstep with ⟨hclock, hmeter, -⟩ | ⟨n, t, t', hpass⟩
  · constructor <;> rw [hmeter]
    · exact h.sample
    · exact h.scnt
    · exact h.interval
    · exact h.tp_le.trans hclock
  · obtain ⟨ht, ht', ht''⟩ := hpass.times
    have htp := h.tp_le
    constructor <;> rw [hpass.meter, RateMeter.charge_of_sample h.sample h.scnt] <;> split_ifs
    · rfl
    · rfl
    · exact zero_le_one
    · exact zero_le_one
    · exact h.interval
    · exact h.interval
    · exact le_rfl
    · dsimp only
      omega

def window (s : RateLimit) : RateWindow :=
  ⟨s.metered.txMeter.tp, s.clock, s.metered.txMeter.bytes, s.charged⟩

theorem window_step {a : Action} (hmeter : s.MeterOk intervalUs)
    (hrate : s.RateOk initialSendingRate reported) (ha : s.Timely reported a)
    (hstep : s.step p dest initialSendingRate a = .ok s') :
    RateWindow.Step (2 * max reported initialSendingRate / 10 ^ 9) (intervalUs * 1000 : ℤ)
      (max p.maxSegment kGradPacketHeader : ℕ) s.window s'.window := by
  rcases charge_of_step ha hstep with ⟨hclock, hm, hc⟩ | ⟨n, t, t', hpass⟩
  · have hw : s'.window = { s.window with clock := s'.clock } := by
      rw [window, window, hm, hc]
    rw [hw]
    exact .idle (Int.cast_le.mpr hclock)
  · obtain ⟨ht, ht', ht''⟩ := hpass.times
    have htp := hmeter.tp_le.trans ht
    have hle := RateMeter.le_of_not_tryExceeds htp hpass.allowed
    have hused : s.window.used + n ≤
        2 * max reported initialSendingRate / 10 ^ 9 * ((t : ℚ) - s.window.start) := by
      push_cast at hle
      refine hle.trans (mul_le_mul_of_nonneg_right ?_ ?_)
      · exact div_le_div_of_nonneg_right hrate.rate_le (by norm_num)
      · exact sub_nonneg.mpr (Int.cast_le.mpr htp)
    have hn : (0 : ℚ) ≤ n := Nat.cast_nonneg n
    have hcharged : (s'.charged : ℚ) = s.charged + n := by
      rw [hpass.charged_eq]
      push_cast
      rfl
    have hch := hpass.meter
    rw [RateMeter.charge_of_sample hmeter.sample hmeter.scnt] at hch
    split_ifs at hch with hold
    · have hw : s'.window = ⟨s'.clock, s'.clock, n, s.window.total + n⟩ := by
        rw [window, hch, hcharged]
        rfl
      rw [hw]
      exact .renew (Int.cast_le.mpr ht) (Int.cast_le.mpr (ht'.trans ht'')) hn
        (Nat.cast_le.mpr hpass.le_largest) hused
    · have hw : s'.window = ⟨s.window.start, s'.clock, s.window.used + n, s.window.total + n⟩ := by
        rw [window, hch, hcharged]
        push_cast
        rfl
      rw [hw]
      refine .keep (Int.cast_le.mpr ht) (Int.cast_le.mpr (ht'.trans ht'')) hn hused ?_
      rw [hmeter.interval] at hold
      have hage : t - s.metered.txMeter.tp ≤ intervalUs * 1000 := by omega
      calc (t : ℚ) - s.window.start
        _ = ((t - s.metered.txMeter.tp : ℤ) : ℚ) := (Int.cast_sub _ _).symm
        _ ≤ _ := Int.cast_le.mpr hage

structure Inv (intervalUs : ℤ) (initialSendingRate reported : ℚ) (s : RateLimit) : Prop where
  meter : s.MeterOk intervalUs
  rate : s.RateOk initialSendingRate reported

theorem Inv.step {a : Action} (hinit : 0 ≤ initialSendingRate)
    (h : s.Inv intervalUs initialSendingRate reported) (ha : s.Timely reported a)
    (hstep : s.step p dest initialSendingRate a = .ok s') :
    s'.Inv intervalUs initialSendingRate reported :=
  ⟨h.meter.step ha hstep, h.rate.step hinit ha hstep⟩

theorem inv_init (hinit : 0 ≤ initialSendingRate) :
    (init intervalUs initialSendingRate now).Inv intervalUs initialSendingRate reported := by
  refine ⟨⟨rfl, le_rfl, rfl, le_rfl⟩, le_rfl, ?_⟩
  have hle := le_max_right reported initialSendingRate
  dsimp only [init]
  linarith

theorem windows_of_steps (hinit : 0 ≤ initialSendingRate)
    (h : s.Inv intervalUs initialSendingRate reported)
    (hs : (machine p dest intervalUs initialSendingRate now).Steps (Timely reported) s s') :
    s'.Inv intervalUs initialSendingRate reported ∧
      Relation.ReflTransGen (RateWindow.Step (2 * max reported initialSendingRate / 10 ^ 9)
        (intervalUs * 1000 : ℤ) (max p.maxSegment kGradPacketHeader : ℕ)) s.window s'.window := by
  induction hs with
  | refl => exact ⟨h, .refl⟩
  | tail _ ha hstep ih =>
    exact ⟨ih.1.step hinit ha hstep, ih.2.tail (window_step ih.1.meter ih.1.rate ha hstep)⟩

def slowMessage : LtMessage := ⟨1, 0, 100, 0⟩

theorem slowMessage_size : slowMessage.size < 2 ^ 64 := by decide

/-- A message of 100 bytes at one byte in a nanosecond: the first packet waits for its time, and
the rate doubles after the report. -/
def sendSlowly : List Action :=
  [.post slowMessage slowMessage_size, .popSendRequest, .pollSendingMessages (fun _ => 0) 5 5 5,
    .pollSendingMessages (fun _ => 0) 60 60 60, .rateAdjustment 1000000000,
    .pollSendingMessages (fun _ => 0) 61 61 62]

end RateLimit

end Mlt
