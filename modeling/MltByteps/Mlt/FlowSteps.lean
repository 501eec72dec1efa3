import MltByteps.Mlt.Flow

/-! The moves of a flow: each one is possible only in certain phases, and leads from there
to another phase. -/

namespace Mlt.Flow
open IntervalList

variable {cfg : Config} {p : Bool} {m : UInt32} {k : ℕ} {f : Flow} {phase : Phase}
  {rcv : Receiver} {q : ℕ} {start stop : Bool} {taken : Finset ℕ}
  {stopped : Bool}

namespace Inv

/-! ## What the head of a queue tells about the phase -/

theorem of_queued (h : f.Inv cfg p m k phase rcv) {e : LtMessageExt} {rest : List LtMessageExt}
    (hq : f.queued = e :: rest) :
    ∃ start stop, phase = .active .queued start stop ∧ e = .new (cfg.sendMsg p m k) ∧
      rest = [] := by
  have hc := congrArg Control.queued h.control
  rw [hq] at hc
  rcases phase with _ | ⟨tok, start, stop⟩ | ⟨start, late⟩ | late
  case active =>
    cases tok <;> simp at hc
    exact ⟨start, stop, rfl, hc.1, hc.2⟩
  all_goals simp at hc

theorem of_sending (h : f.Inv cfg p m k phase rcv) {e : LtMessageExt} (hs : f.sending = some e) :
    ∃ q start stop, phase = .active (.sending q) start stop ∧ q ≤ cfg.maxSeq p m k ∧
      e = { LtMessageExt.new (cfg.sendMsg p m k) with bytes := q * (cfg.packetizer p).bound } := by
  have hc := congrArg Control.sending h.control
  have hf := h.fits
  rw [hs] at hc
  rcases phase with _ | ⟨tok, start, stop⟩ | ⟨start, late⟩ | late
  case active =>
    cases tok <;> simp at hc
    exact ⟨_, start, stop, rfl, hf.2, hc⟩
  all_goals simp at hc

theorem of_request (h : f.Inv cfg p m k phase rcv) {req : RetransmitRequest}
    {state : RetransmitState} (hr : f.request = some (req, state)) :
    ∃ l start stop, phase = .active (.resending req state l) start stop ∧
      req.Cursor cfg.Short state l ∧ req.commId = (cfg.host p).destCommId ∧ req.msgId = m ∧
      ∀ q ∈ l, q ≤ cfg.maxSeq p m k := by
  have hc := congrArg Control.request h.control
  have hf := h.fits
  rw [hr] at hc
  rcases phase with _ | ⟨tok, start, stop⟩ | ⟨start, late⟩ | late
  case active =>
    cases tok <;> simp at hc
    obtain ⟨rfl, rfl⟩ := hc
    exact ⟨_, start, stop, rfl, hf.2⟩
  all_goals simp at hc

theorem of_bwd_request (h : f.Inv cfg p m k phase rcv) {req : RetransmitRequest} {rest : List Bwd}
    (hb : f.bwd = .request req :: rest) :
    ∃ l start stop, phase = .active (.request req l) start stop ∧
      rest = (if stop then [.stop (cfg.stopDest p m)] else []) := by
  have hc := congrArg Control.bwd h.control
  rw [hb] at hc
  rcases phase with _ | ⟨tok, start, stop⟩ | ⟨start, late⟩ | late
  case active =>
    cases tok <;> cases stop <;> simp at hc <;>
      exact ⟨_, start, _, by rw [hc.1], by simpa using hc.2⟩
  all_goals simp at hc

theorem of_broken (h : f.Inv cfg p m k phase rcv) (hb : .broken ∈ f.bwd) :
    cfg.Short ∧ ∃ start stop, phase = .active .broken start stop ∧
      f.bwd = .broken :: cfg.stopBwd p m stop := by
  have hc := congrArg Control.bwd h.control
  have hf := h.fits
  rw [hc] at hb
  rcases phase with _ | ⟨tok, start, stop⟩ | ⟨start, late⟩ | late
  case active =>
    obtain rfl : tok = .broken := by
      cases tok <;> cases stop <;> simp at hb <;> rfl
    exact ⟨hf.2, start, stop, rfl, hc⟩
  all_goals simp at hb

theorem of_bwd_stop (h : f.Inv cfg p m k phase rcv) {dest : ℤ} {rest : List Bwd}
    (hb : f.bwd = .stop dest :: rest) :
    dest = cfg.stopDest p m ∧ rest = [] ∧ ∃ tok start, phase = .active tok start true ∧
      tok ≠ .broken ∧ ∀ req l, tok ≠ .request req l := by
  have hc := congrArg Control.bwd h.control
  rw [hb] at hc
  rcases phase with _ | ⟨tok, start, stop⟩ | ⟨start, late⟩ | late
  case active =>
    cases tok <;> cases stop <;> simp at hc <;>
      exact ⟨hc.1, hc.2, _, start, rfl, by simp, by simp⟩
  all_goals simp at hc

theorem mem_confirmFwd {x : Fwd} (hx : x ∈ cfg.confirmFwd p m) : x = .confirm := by
  unfold Config.confirmFwd at hx
  split_ifs at hx
  · exact List.mem_singleton.mp hx
  · simp at hx

theorem of_fwd_start (h : f.Inv cfg p m k phase rcv) {ms : ℕ} {rest : List Fwd}
    (hf : f.fwd = .start ms :: rest) :
    ms = cfg.maxSeq p m k ∧
      ((∃ tok stop, phase = .active tok true stop) ∨ ∃ late, phase = .stopping true late) := by
  have hc := congrArg Control.fwd h.control
  rw [hf] at hc
  rcases phase with _ | ⟨tok, start, stop⟩ | ⟨start, late⟩ | late
  case active =>
    cases start <;> cases tok <;> simp at hc <;> exact ⟨hc.1, .inl ⟨_, stop, rfl⟩⟩
  case stopping =>
    cases start <;> cases late <;> simp at hc
    case true.gone | true.flying | true.noted => exact ⟨hc.1, .inr ⟨_, rfl⟩⟩
    all_goals exact absurd (mem_confirmFwd (hc ▸ List.mem_cons_self ..)) (by simp)
  all_goals simp at hc

theorem of_fwd_finish (h : f.Inv cfg p m k phase rcv) {rest : List Fwd}
    (hf : f.fwd = .finish :: rest) :
    f.maxSeq = some (cfg.maxSeq p m k) ∧
      ((∃ stop, phase = .active .finish false stop) ∨ phase = .stopping false .flying) := by
  have hc := congrArg Control.fwd h.control
  have hm := congrArg Control.maxSeq h.control
  rw [hf] at hc
  rcases phase with _ | ⟨tok, start, stop⟩ | ⟨start, late⟩ | late
  case active =>
    cases start <;> cases tok <;> simp at hc
    exact ⟨hm, .inl ⟨stop, rfl⟩⟩
  case stopping =>
    cases start <;> cases late <;> simp at hc
    case false.flying => exact ⟨hm, .inr rfl⟩
    all_goals exact absurd (mem_confirmFwd (hc ▸ List.mem_cons_self ..)) (by simp)
  all_goals simp at hc

theorem of_fwd_confirm (h : f.Inv cfg p m k phase rcv) {rest : List Fwd}
    (hf : f.fwd = .confirm :: rest) :
    rest = [] ∧ cfg.stopDest p m = (cfg.host p).destCommId ∧
      (phase = .stopping false .gone ∨ phase = .stopping false .noted) := by
  have hc := congrArg Control.fwd h.control
  rw [hf] at hc
  rcases phase with _ | ⟨tok, start, stop⟩ | ⟨start, late⟩ | late
  case active => cases start <;> cases tok <;> simp at hc
  case stopping =>
    cases start <;> cases late <;> simp [Config.confirmFwd] at hc
    · split_ifs at hc with hd
      simp only [List.cons.injEq, true_and] at hc
      exact ⟨hc, hd, .inl rfl⟩
    · split_ifs at hc with hd
      simp only [List.cons.injEq, true_and] at hc
      exact ⟨hc, hd, .inr rfl⟩
  all_goals simp at hc

theorem of_note_finish (h : f.Inv cfg p m k phase rcv) {ms : ℕ} {rest : List Note}
    (hn : f.notes = .finish ms :: rest) :
    ms = cfg.maxSeq p m k ∧ ((∃ start stop, phase = .active .note start stop ∧ rest = []) ∨
      (∃ start, phase = .stopping start .noted ∧ rest = []) ∨
      phase = .confirmed true ∧ rest = [.confirm]) := by
  have hc := congrArg Control.notes h.control
  rw [hn] at hc
  rcases phase with _ | ⟨tok, start, stop⟩ | ⟨start, late⟩ | late
  case active =>
    cases tok <;> simp at hc
    exact ⟨hc.1, .inl ⟨start, stop, rfl, hc.2⟩⟩
  case stopping =>
    cases late <;> simp at hc
    exact ⟨hc.1, .inr (.inl ⟨start, rfl, hc.2⟩)⟩
  case confirmed =>
    cases late <;> simp at hc
    exact ⟨hc.1, .inr (.inr ⟨rfl, hc.2⟩)⟩
  all_goals simp at hc

theorem of_note_confirm (h : f.Inv cfg p m k phase rcv) {rest : List Note}
    (hn : f.notes = .confirm :: rest) : rest = [] ∧ phase = .confirmed false := by
  have hc := congrArg Control.notes h.control
  rw [hn] at hc
  rcases phase with _ | ⟨tok, start, stop⟩ | ⟨start, late⟩ | late
  case active => cases tok <;> simp at hc
  case stopping => cases late <;> simp at hc
  case confirmed =>
    cases late <;> simp at hc
    exact ⟨hc, rfl⟩
  all_goals simp at hc

theorem of_posted (h : f.Inv cfg p m k phase rcv) {x : LtMessage × ℕ} {rest : List (LtMessage × ℕ)}
    (hp : f.posted = x :: rest) :
    rcv = .posted ∧ x = (cfg.recvMsg p m k, cfg.target p m k) ∧ rest = [] ∧ f.recv = none := by
  have hm := h.matches_rcv
  cases rcv with
  | idle => simp [Receiver.Matches, hp] at hm
  | posted =>
    simp only [Receiver.Matches, hp, List.cons.injEq] at hm
    exact ⟨rfl, hm.1.1, hm.1.2, hm.2.1⟩
  | opened taken stopped => simp [Receiver.Matches, hp] at hm

theorem of_recv (h : f.Inv cfg p m k phase rcv) {e : LtMessageExt} (hr : f.recv = some e) :
    ∃ taken stopped, rcv = .opened taken stopped ∧ Entry cfg p m k e taken stopped := by
  have hm := h.matches_rcv
  cases rcv with
  | idle => simp [Receiver.Matches, hr] at hm
  | posted => simp [Receiver.Matches, hr] at hm
  | opened taken stopped =>
    obtain ⟨-, -, e', he', hentry⟩ := hm
    rw [hr] at he'
    cases he'
    exact ⟨taken, stopped, rfl, hentry⟩

theorem recv_of_stopped (h : f.Inv cfg p m k phase rcv) (hs : rcv.stopped = true) :
    ∃ taken e, rcv = .opened taken true ∧ f.recv = some e ∧ Entry cfg p m k e taken true := by
  have hm := h.matches_rcv
  cases rcv with
  | idle => cases hs
  | posted => cases hs
  | opened taken stopped =>
    obtain ⟨-, -, e, he, hentry⟩ := hm
    cases hs
    exact ⟨taken, e, rfl, he, hentry⟩

theorem stopped_eq_false (h : f.Inv cfg p m k phase rcv) (hr : f.recv = none) :
    rcv.stopped = false := by
  by_contra hs
  obtain ⟨-, e, -, he, -⟩ := h.recv_of_stopped (Bool.not_eq_false _ ▸ hs)
  simp [hr] at he

/-! ## The moves of the sender -/

theorem postSend (h : f.Inv cfg p m k phase rcv) (hr : f.recvCompletions.length = f.sends) :
    ∃ phase', Flow.Inv cfg p m k { f with
      sends := f.sends + 1
      fwd := f.fwd ++ [.start (cfg.maxSeq p m f.sends)]
      queued := f.queued ++ [.new (cfg.sendMsg p m f.sends)] } phase' rcv := by
  have hk : f.sends = k := hr.symm.trans h.completions
  have hsends := h.sends
  have hc := Control.ext_iff.mp h.control
  have hfits := h.fits
  rw [hk] at hsends
  cases phase with
  | closed =>
    refine ⟨.active .queued true false, { h with control := ?_, sends := ?_, fits := ?_ }⟩
    · simp [hc, hk]
    · simp [hk, Phase.sends]
    · exact ⟨hfits.2.symm, hfits.1⟩
  | active | stopping | confirmed => simp [Phase.sends] at hsends

theorem popSend (h : f.Inv cfg p m k phase rcv) {e : LtMessageExt} {rest : List LtMessageExt}
    (hq : f.queued = e :: rest) :
    f.sending = none ∧
      ∃ phase', Flow.Inv cfg p m k { f with queued := rest, sending := some e } phase' rcv := by
  obtain ⟨start, stop, rfl, rfl, rfl⟩ := h.of_queued hq
  have hc := Control.ext_iff.mp h.control
  refine ⟨hc.2.1, .active (.sending 0) start stop,
    { h with control := ?_, fits := ?_, emitted := ?_ }⟩
  · simp [hc, LtMessageExt.new]
  · exact ⟨h.fits.1, Nat.zero_le _⟩
  · intro x hx
    obtain ⟨hlt, he⟩ := h.emitted x hx
    exact ⟨hlt.trans (Nat.lt_succ_self k), he⟩

theorem emitted_insert (h : f.Inv cfg p m k phase rcv) {pkt : GradPacket}
    (hstart : phase.started k = k + 1) (he : Emitted cfg p m pkt k) :
    ∀ x ∈ insert (pkt, k) f.data, x.2 < k + 1 ∧ Emitted cfg p m x.1 x.2 := by
  rintro x (rfl | hx)
  · exact ⟨Nat.lt_succ_self k, he⟩
  · exact hstart ▸ h.emitted x hx

theorem current_insert (h : f.Inv cfg p m k phase rcv) (pkt : GradPacket) :
    rcv.IsOpen → ∀ x ∈ insert (pkt, k) f.data, x.2 = k := by
  rintro ho x (rfl | hx)
  · rfl
  · exact h.current ho x hx

theorem sendNext (h : f.Inv cfg p m k (.active (.sending q) start stop) rcv)
    (hq : q < cfg.maxSeq p m k) {pkt : GradPacket} (he : Emitted cfg p m pkt k) :
    Flow.Inv cfg p m k { f with
      sending := some { LtMessageExt.new (cfg.sendMsg p m k) with
        bytes := (q + 1) * (cfg.packetizer p).bound }
      data := insert (pkt, k) f.data } (.active (.sending (q + 1)) start stop) rcv := by
  have hc := Control.ext_iff.mp h.control
  refine { h with
    control := ?_, fits := ?_, emitted := h.emitted_insert rfl he, current := h.current_insert pkt }
  · simp [hc]
  · exact ⟨h.fits.1, hq⟩

theorem sendLast (h : f.Inv cfg p m k (.active (.sending q) start stop) rcv)
    {pkt : GradPacket} (he : Emitted cfg p m pkt k) :
    f.retransmitting = none ∧ Flow.Inv cfg p m k { f with
      sending := none
      retransmitting := some { LtMessageExt.new (cfg.sendMsg p m k) with bytes := cfg.size p m k }
      fwd := f.fwd ++ [.finish]
      data := insert (pkt, k) f.data } (.active .finish start stop) rcv := by
  have hc := Control.ext_iff.mp h.control
  refine ⟨hc.2.2.1, { h with
    control := ?_, fits := ?_, emitted := h.emitted_insert rfl he
    current := h.current_insert pkt }⟩
  · simp [hc]
  · exact ⟨h.fits.1, trivial⟩

theorem resendNext {req : RetransmitRequest} {state state' : RetransmitState} {l l' : List ℕ}
    (h : f.Inv cfg p m k (.active (.resending req state l) start stop) rcv)
    (hcur : req.Cursor cfg.Short state' l') (hle : ∀ q ∈ l', q ≤ cfg.maxSeq p m k)
    {pkt : GradPacket} (he : Emitted cfg p m pkt k) :
    Flow.Inv cfg p m k { f with
      request := some (req, state')
      data := insert (pkt, k) f.data } (.active (.resending req state' l') start stop) rcv := by
  have hc := Control.ext_iff.mp h.control
  obtain ⟨hstop, -, hcomm, hmsg, -⟩ := h.fits
  refine { h with
    control := ?_, fits := ?_, emitted := h.emitted_insert rfl he, current := h.current_insert pkt }
  · simp [hc]
  · exact ⟨hstop, hcur, hcomm, hmsg, hle⟩

theorem resendLast {req : RetransmitRequest} {state : RetransmitState} {l : List ℕ}
    (h : f.Inv cfg p m k (.active (.resending req state l) start stop) rcv)
    {pkt : GradPacket} (he : Emitted cfg p m pkt k) :
    Flow.Inv cfg p m k { f with
      request := none
      fwd := f.fwd ++ [.finish]
      data := insert (pkt, k) f.data } (.active .finish start stop) rcv := by
  have hc := Control.ext_iff.mp h.control
  refine { h with
    control := ?_, fits := ?_, emitted := h.emitted_insert rfl he, current := h.current_insert pkt }
  · simp [hc]
  · exact ⟨h.fits.1, trivial⟩

theorem takeRequest (h : f.Inv cfg p m k phase rcv) {req : RetransmitRequest} {rest : List Bwd}
    (hb : f.bwd = .request req :: rest) :
    0 < req.numBlocks ∧ Yields cfg.Short (req.block 0) fun b => ∃ phase',
      Flow.Inv cfg p m k { f with
        bwd := rest, request := some (req, ⟨0, b.first⟩) } phase' rcv := by
  obtain ⟨l, start, stop, rfl, rfl⟩ := h.of_bwd_request hb
  have hc := Control.ext_iff.mp h.control
  obtain ⟨hstop, ⟨b, blocks, hcar, rfl⟩, hcomm, hmsg, hle⟩ := h.fits
  have hblock := @RetransmitRequest.Carries.block _ _ [] _ _ hcar
  refine ⟨?_, hblock.mono id ?_⟩
  · rw [hcar.numBlocks_eq, List.length_cons]
    exact Nat.succ_pos _
  · rintro _ rfl
    exact ⟨.active (.resending req ⟨0, _⟩ _) start stop, { h with
      control := by simp [hc, Config.stopBwd]
      fits := ⟨hstop, hcar.cursor, hcomm, hmsg, hle⟩ }⟩

/-- Where `StopFlow` leaves the `FlowFinish` of a flow. -/
def lateOf : Token → Late
  | .finish => .flying
  | .note => .noted
  | _ => .gone

theorem loseRequest (h : f.Inv cfg p m k phase rcv) {rest : List Bwd}
    (hb : f.bwd = .broken :: rest) :
    ∃ phase', Flow.Inv cfg p m k { f with bwd := rest } phase' rcv := by
  have hc := Control.ext_iff.mp h.control
  obtain ⟨-, start, stop, rfl, hbwd⟩ := h.of_broken (hb ▸ List.mem_cons_self ..)
  obtain ⟨-, rfl⟩ := List.cons.inj (hb.symm.trans hbwd)
  exact ⟨.active .lost start stop, { h with control := by simp [hc], fits := h.fits }⟩

theorem stopFlow (h : f.Inv cfg p m k phase rcv) {dest : ℤ} {rest : List Bwd}
    (hb : f.bwd = .stop dest :: rest) :
    ∃ phase', Flow.Inv cfg p m k { f with
      bwd := rest
      sending := none
      retransmitting := if f.sending = none then none else f.retransmitting
      request := if f.sending = none then none else f.request
      fwd := f.fwd ++ if dest = (cfg.host p).destCommId then [.confirm] else []
      stopFlows := f.stopFlows + 1
      stopConfirms := f.stopConfirms + 1
      sendCompletions := f.sendCompletions + 1 } phase' rcv := by
  obtain ⟨rfl, rfl, tok, start, rfl, hbroken, htok⟩ := h.of_bwd_stop hb
  have hc := Control.ext_iff.mp h.control
  obtain ⟨hstop, hval⟩ := h.fits
  -- the receiver has stopped, so packets of this posting exist and it has left the send queue
  have hq : tok ≠ .queued := by
    rintro rfl
    obtain ⟨taken, e, rfl, -, hentry⟩ := h.recv_of_stopped hstop.symm
    have hne := (hentry.stopped_iff.mp rfl).1
    rw [show taken = ∅ from hval] at hne
    exact Finset.not_nonempty_empty hne
  refine ⟨.stopping start (lateOf tok), { h with
    control := ?_, sendCompletions := congrArg (· + 1) h.sendCompletions
    stopFlows := congrArg (· + 1) h.stopFlows, stopConfirms := congrArg (· + 1) h.stopConfirms
    fits := hstop.symm, emitted := ?_ }⟩
  · cases tok <;> simp [hc, lateOf, Config.confirmFwd] at hbroken htok hq ⊢
  · intro x hx
    have hx' := h.emitted x hx
    cases tok <;> first | exact absurd rfl hq | exact hx'

/-! ## The moves of the receiver -/

theorem handleStart (h : f.Inv cfg p m k phase rcv) {ms : ℕ} {rest : List Fwd}
    (hf : f.fwd = .start ms :: rest) :
    ∃ phase', Flow.Inv cfg p m k { f with fwd := rest, maxSeq := some ms } phase' rcv := by
  have hc := Control.ext_iff.mp h.control
  obtain ⟨rfl, ⟨tok, stop, rfl⟩ | ⟨late, rfl⟩⟩ := h.of_fwd_start hf
  · refine ⟨.active tok false stop, { h with control := ?_, emitted := ?_ }⟩
    · cases tok <;> simp [Control.ext_iff, hc] <;> simpa [hf] using hc.2.2.2.2.1
    · cases tok <;> exact h.emitted
  · refine ⟨.stopping false late, { h with control := ?_ }⟩
    simp [hc]
    simpa [hf] using hc.2.2.2.2.1

theorem handleFinish (h : f.Inv cfg p m k phase rcv) {rest : List Fwd}
    (hf : f.fwd = .finish :: rest) :
    ∃ ms, f.maxSeq = some ms ∧ ∃ phase', Flow.Inv cfg p m k { f with
      fwd := rest, notes := f.notes ++ [.finish ms] } phase' rcv := by
  have hc := Control.ext_iff.mp h.control
  obtain ⟨hmax, ⟨stop, rfl⟩ | rfl⟩ := h.of_fwd_finish hf
  · refine ⟨_, hmax, .active .note false stop, { h with control := ?_ }⟩
    simp [hc]
    simpa [hf] using hc.2.2.2.2.1
  · refine ⟨_, hmax, .stopping false .noted, { h with control := ?_ }⟩
    simp [hc]
    simpa [hf] using hc.2.2.2.2.1

theorem handleConfirm (h : f.Inv cfg p m k phase rcv) {rest : List Fwd}
    (hf : f.fwd = .confirm :: rest) :
    ∃ phase', Flow.Inv cfg p m k { f with
      fwd := rest, notes := f.notes ++ [.confirm], maxSeq := none } phase' rcv := by
  have hc := Control.ext_iff.mp h.control
  obtain ⟨rfl, hd, rfl | rfl⟩ := h.of_fwd_confirm hf
  · exact ⟨.confirmed false, { h with control := by simp [hc], routable := fun _ => hd }⟩
  · exact ⟨.confirmed true, { h with control := by simp [hc], routable := fun _ => hd }⟩

theorem confirmStop (h : f.Inv cfg p m k phase rcv) {rest : List Note}
    (hn : f.notes = .confirm :: rest) :
    ∃ e, f.recv = some e ∧ ∃ phase' rcv', Flow.Inv cfg p m (k + 1) { f with
      notes := rest, recv := none, recvCompletions := f.recvCompletions ++ [e.bytes] }
      phase' rcv' := by
  have hc := Control.ext_iff.mp h.control
  obtain ⟨rfl, rfl⟩ := h.of_note_confirm hn
  obtain ⟨taken, e, rfl, he, hentry⟩ := h.recv_of_stopped h.fits
  obtain ⟨hposted, hrecvs, -⟩ := h.matches_rcv
  have hlen := h.completions
  refine ⟨e, he, .closed, .idle, {
    completions := by simp [hlen]
    control := by simp [hc]
    sends := h.sends
    sendCompletions := h.sendCompletions
    stopFlows := h.stopFlows
    stopConfirms := h.stopConfirms
    stopRequests := h.stopRequests
    routable := h.routable
    matches_rcv := ⟨hposted, rfl, hrecvs⟩
    fits := ⟨rfl, rfl⟩
    emitted := h.emitted
    current := fun ho => ho.elim
    logged := ?_
    accepted := fun a ha => ⟨(h.accepted a ha).1, (h.accepted a ha).2.trans (Nat.le_succ k)⟩
    completed := ?_ }⟩
  · have hnil : f.accepted.filter (·.use = k + 1) = [] := by
      rw [List.filter_eq_nil_iff]
      intro a ha
      have := (h.accepted a ha).2
      simp only [decide_eq_true_eq]
      omega
    simp [Logged, hnil, Receiver.taken]
  · intro j hj
    dsimp only
    by_cases hjk : j = k
    · subst hjk
      refine ⟨taken, h.logged, ?_, (hentry.stopped_iff.mp rfl).2⟩
      rw [List.getElem?_append_right (by omega), hlen, Nat.sub_self, hentry.bytes_eq]
      rfl
    · obtain ⟨t, hlog, hget, hle⟩ := h.completed j (by omega)
      refine ⟨t, hlog, ?_, hle⟩
      rw [List.getElem?_append_left (by omega), hget]

theorem fits_of_not_open {rcv' : Receiver} (hfits : phase.Fits cfg p m k rcv) (ho : ¬rcv.IsOpen)
    (ht : rcv'.taken = ∅) (hs : rcv'.stopped = false) : phase.Fits cfg p m k rcv' := by
  have hs' : rcv.stopped = false := by
    cases rcv <;> first | rfl | exact absurd trivial ho
  rcases phase with _ | ⟨tok, start, stop⟩ | _ | _
  · exact ⟨ht, hs⟩
  · refine ⟨hfits.1.trans (hs'.trans hs.symm), ?_⟩
    have hval := hfits.2
    cases tok <;> first | exact ht | exact hval | exact absurd hval.1 ho
  · exact absurd (hs'.symm.trans hfits) (by simp)
  · exact absurd (hs'.symm.trans hfits) (by simp)

theorem postRecv (h : f.Inv cfg p m k phase rcv) (hr : f.recvCompletions.length = f.recvs) :
    ∃ rcv', Flow.Inv cfg p m k { f with
      recvs := f.recvs + 1
      posted := f.posted ++ [(cfg.recvMsg p m f.recvs, cfg.target p m f.recvs)] } phase rcv' := by
  have hk : f.recvs = k := hr.symm.trans h.completions
  have hm := h.matches_rcv
  cases rcv with
  | idle =>
    obtain ⟨hposted, hrecv, -⟩ := hm
    exact ⟨.posted, { h with
      matches_rcv := ⟨by simp [hposted, hk], hrecv, by simp [hk]⟩
      fits := fits_of_not_open h.fits id rfl rfl
      stopRequests := h.stopRequests
      current := fun ho => ho.elim
      logged := h.logged }⟩
  | posted => simp [Receiver.Matches, hk] at hm
  | opened => simp [Receiver.Matches, hk] at hm

theorem popRecv (h : f.Inv cfg p m k phase rcv) {msg : LtMessage} {target : ℕ}
    {rest : List (LtMessage × ℕ)} (hp : f.posted = (msg, target) :: rest)
    (hdata : ∀ x ∈ f.data, x.2 = msg.use) :
    f.recv = none ∧ ∃ rcv', Flow.Inv cfg p m k { f with
      posted := rest
      recv := some { LtMessageExt.new msg with bound := alignUp sizeofFloat target } }
      phase rcv' := by
  obtain ⟨rfl, hx, rfl, hnone⟩ := h.of_posted hp
  obtain ⟨rfl, rfl⟩ := Prod.mk.inj hx
  obtain ⟨-, -, hrecvs⟩ := h.matches_rcv
  refine ⟨hnone, .opened ∅ false, { h with
    matches_rcv := ⟨rfl, hrecvs, _, rfl, ?_⟩
    fits := fits_of_not_open h.fits id rfl rfl
    stopRequests := h.stopRequests
    current := fun _ => hdata
    logged := h.logged }⟩
  exact {
    toLtMessage_eq := rfl
    bound_eq := rfl
    stopped_eq := rfl
    holds := .inr ⟨rfl, rfl⟩
    size_le := Nat.zero_le _
    bytes_eq := rfl
    taken_le := by simp
    stopped_iff := by simp }

theorem lose (h : f.Inv cfg p m k phase rcv) {data : Set (GradPacket × ℕ)} (hsub : data ⊆ f.data) :
    Flow.Inv cfg p m k { f with data := data } phase rcv :=
  { h with
    emitted := fun x hx => h.emitted x (hsub hx)
    current := fun ho x hx => h.current ho x (hsub hx) }

/-! ## The end of a round -/

theorem maxSeq_lt (cfg : Config) (p : Bool) (m : UInt32) (k : ℕ) : cfg.maxSeq p m k < 2 ^ 31 :=
  Packetizer.getMaxSeqNum_lt (cfg.packetizer_valid p) (cfg.size_pos p m k) (cfg.size_lt p m k)

/-- Only messages of short segments have enough runs of packets for a request to be cut. -/
theorem short_of_tooLong {mgr : TreeBlockMgr} (hrep : mgr.Rep taken)
    (hsize : mgr.size ≤ cfg.maxSeq p m k + 1)
    (hlong : RetransmitRequest.TooLong mgr.tree.length) : cfg.Short := by
  by_contra hshort
  have hlen := hrep.separated.two_mul_length_le fun b hb => hrep.last_le hb
  have hmax := (Packetizer.le_getMaxSeqNum_iff (cfg.packetizer_valid p) (cfg.size_pos p m k)
    (cfg.size_lt p m k)).mp (le_refl (cfg.maxSeq p m k))
  have hbound : 8 ≤ (cfg.packetizer p).bound :=
    Nat.le_sub_of_add_le ((Nat.add_comm ..).trans_le (Nat.le_of_not_lt hshort))
  have hmul := Nat.mul_le_mul_left (cfg.maxSeq p m k) hbound
  have hlt := cfg.size_lt p m k
  unfold RetransmitRequest.TooLong RetransmitRequest.headerSize sizeofBlock at hlong
  omega

theorem ask (h : f.Inv cfg p m k (.active .note start false) rcv) {b : Block} {blocks : List Block}
    (hlong : RetransmitRequest.TooLong (b :: blocks).length → cfg.Short)
    (hle : ∀ q ∈ points Block.first Block.last (b :: blocks), q ≤ cfg.maxSeq p m k) {x : Bwd}
    (hx : x.Asks (cfg.host p).destCommId m (b :: blocks)) :
    ∃ phase', Flow.Inv cfg p m k { f with notes := [], bwd := f.bwd ++ [x] } phase' rcv := by
  have hc := Control.ext_iff.mp h.control
  cases x with
  | request req =>
    obtain ⟨hcar, hcomm, hmsg⟩ := hx
    exact ⟨.active (.request req _) start false, { h with
      control := by simp [hc]
      fits := ⟨h.fits.1, ⟨b, blocks, hcar.mono hlong, rfl⟩, hcomm, hmsg, hle⟩ }⟩
  | broken =>
    exact ⟨.active .broken start false, { h with
      control := by simp [hc], fits := ⟨h.fits.1, hlong hx⟩ }⟩
  | stop => exact hx.elim

theorem finishAbsent (h : f.Inv cfg p m k phase rcv) {ms : ℕ} {rest : List Note}
    (hn : f.notes = .finish ms :: rest) (hr : f.recv = none) :
    ms + 1 < 2 ^ 32 ∧ ∀ x : Bwd, x.Asks (cfg.host p).destCommId m [⟨0, ms + 1⟩] →
      ∃ phase', Flow.Inv cfg p m k { f with notes := rest, bwd := f.bwd ++ [x] } phase' rcv := by
  have hs := h.stopped_eq_false hr
  have hlt := maxSeq_lt cfg p m k
  have hfits := h.fits
  obtain ⟨rfl, ⟨start, stop, rfl, rfl⟩ | ⟨start, rfl, rfl⟩ | ⟨rfl, rfl⟩⟩ := h.of_note_finish hn
  · refine ⟨by omega, fun x hx => ?_⟩
    obtain rfl : stop = false := hfits.1.trans hs
    have hfit : ¬RetransmitRequest.TooLong [Block.mk 0 (cfg.maxSeq p m k + 1)].length :=
      show ¬RetransmitRequest.TooLong 1 by decide
    refine h.ask (fun hlong => absurd hlong hfit) (fun q hq => ?_) hx
    rw [mem_points] at hq
    obtain ⟨b, hb, -, hlt⟩ := hq
    rw [List.mem_singleton.mp hb] at hlt
    exact Nat.lt_succ_iff.mp hlt
  · exact absurd (hs.symm.trans hfits) (by simp)
  · exact absurd (hs.symm.trans hfits) (by simp)

theorem finishEnough (h : f.Inv cfg p m k phase rcv) {ms : ℕ} {rest : List Note}
    (hn : f.notes = .finish ms :: rest) {e : LtMessageExt} (hr : f.recv = some e)
    (hb : e.bound ≤ e.bytes) :
    ∃ phase', Flow.Inv cfg p m k { f with notes := rest } phase' rcv := by
  have hc := Control.ext_iff.mp h.control
  obtain ⟨taken, stopped, rfl, hentry⟩ := h.of_recv hr
  rw [hentry.bound_eq, hentry.bytes_eq] at hb
  obtain ⟨rfl, ⟨start, stop, rfl, rfl⟩ | ⟨start, rfl, rfl⟩ | ⟨rfl, rfl⟩⟩ := h.of_note_finish hn
  · exact ⟨.active .settled start stop, { h with
      control := by simp [hc], fits := ⟨h.fits.1, trivial, .inl hb⟩ }⟩
  · exact ⟨.stopping start .gone, { h with control := by simp [hc], fits := h.fits }⟩
  · exact ⟨.confirmed false, { h with control := by simp [hc], fits := h.fits }⟩

theorem regrow (h : f.Inv cfg p m k phase (.opened taken stopped)) {e : LtMessageExt}
    (hentry : Entry cfg p m k e taken stopped) {mgr : TreeBlockMgr} (hrep : mgr.Rep taken)
    (hsize : mgr.size ≤ cfg.maxSeq p m k + 1) :
    Flow.Inv cfg p m k { f with recv := some { e with blockMgr := mgr } } phase
      (.opened taken stopped) := by
  obtain ⟨hposted, hrecvs, -⟩ := h.matches_rcv
  exact { h with
    matches_rcv := ⟨hposted, hrecvs, _, rfl,
      { hentry with holds := .inl hrep, size_le := hsize }⟩ }

theorem finishShort (h : f.Inv cfg p m k phase rcv) {ms : ℕ} {rest : List Note}
    (hn : f.notes = .finish ms :: rest) {e : LtMessageExt} (hr : f.recv = some e)
    (hb : e.bytes < e.bound) :
    ms + 1 < 2 ^ 32 ∧ ∃ taken, e.blockMgr.Holds taken ∧
      ∀ mgr : TreeBlockMgr, mgr.Rep taken → mgr.size = max e.blockMgr.size (ms + 1) →
        (mgr.tree = [] → ∃ phase', Flow.Inv cfg p m k { f with
          notes := rest, recv := some { e with blockMgr := mgr } } phase' rcv) ∧
        (mgr.tree ≠ [] → ∀ x : Bwd, x.Asks (cfg.host p).destCommId m mgr.tree →
          ∃ phase', Flow.Inv cfg p m k { f with
            notes := rest, recv := some { e with blockMgr := mgr }
            bwd := f.bwd ++ [x] } phase' rcv) := by
  have hlt := maxSeq_lt cfg p m k
  have hfits := h.fits
  obtain ⟨taken, stopped, rfl, hentry⟩ := h.of_recv hr
  -- an unfinished receive has not been stopped, so only the active phase is left
  have hs : stopped = false := by
    rw [hentry.bound_eq, hentry.bytes_eq] at hb
    have := hentry.stopped_iff
    by_contra hne
    have := (this.mp (Bool.eq_true_of_not_eq_false hne)).2
    omega
  subst hs
  obtain ⟨rfl, ⟨start, stop, rfl, rfl⟩ | ⟨start, rfl, rfl⟩ | ⟨rfl, rfl⟩⟩ := h.of_note_finish hn
  · refine ⟨by omega, taken, hentry.holds, fun mgr hrep hsize => ?_⟩
    obtain rfl : stop = false := hfits.1
    have hmgr : mgr.size = cfg.maxSeq p m k + 1 := by
      have := hentry.size_le
      omega
    have hgrow := h.regrow hentry hrep hmgr.le
    have hc := Control.ext_iff.mp h.control
    constructor
    · intro htree
      refine ⟨.active .settled start false, { hgrow with
        control := by simp [hc], fits := ⟨rfl, trivial, .inr ?_⟩ }⟩
      intro q hq
      have hcov := (hrep.covers_iff q).not.mp (by rw [htree]; exact not_covers_nil q)
      by_contra hmem
      exact hcov ⟨by omega, hmem⟩
    · intro htree x hx
      have hlong := short_of_tooLong hrep hmgr.le
      obtain ⟨b, blocks, htree⟩ := List.exists_cons_of_ne_nil htree
      rw [htree] at hlong hx
      refine hgrow.ask hlong (fun q hq => ?_) hx
      rw [mem_points, ← htree, hrep.covers_iff] at hq
      omega
  · exact absurd hfits (by simp [Phase.Fits, Receiver.stopped])
  · exact absurd hfits (by simp [Phase.Fits, Receiver.stopped])

/-! ## Arrival of a packet -/

theorem of_data (h : f.Inv cfg p m k phase rcv) {e : LtMessageExt} (hr : f.recv = some e)
    {pkt : GradPacket} {u : ℕ} (hx : (pkt, u) ∈ f.data) :
    ∃ taken stopped q, rcv = .opened taken stopped ∧ Entry cfg p m k e taken stopped ∧ u = k ∧
      q ≤ cfg.maxSeq p m k ∧ (cfg.packetizer p).IsPacket (cfg.size p m k) q pkt ∧
      phase.started k = k + 1 := by
  obtain ⟨taken, stopped, rfl, hentry⟩ := h.of_recv hr
  obtain rfl : u = k := h.current trivial _ hx
  obtain ⟨hlt, ⟨q, hq, hpkt⟩, -⟩ := h.emitted _ hx
  refine ⟨taken, stopped, q, rfl, hentry, rfl, hq, hpkt, ?_⟩
  dsimp only at hlt
  unfold Phase.started at hlt ⊢
  split at hlt <;> simp_all

theorem total_insert {taken : Finset ℕ} (hq : q ∉ taken) :
    cfg.total p m k (insert q taken) =
      cfg.total p m k taken + (cfg.packetizer p).payloadLen (cfg.size p m k) q := by
  rw [Config.total, Finset.sum_insert hq, Nat.add_comm]
  rfl

theorem satisfied_insert {taken : Finset ℕ} (hq : q ∉ taken) (h : cfg.Satisfied p m k taken) :
    cfg.Satisfied p m k (insert q taken) := by
  rcases h with h | h
  · left
    rw [total_insert hq]
    omega
  · exact .inr fun x hx => Finset.mem_insert_of_mem (h x hx)

theorem logged_append (hlog : Logged cfg p m f k taken) (hq : q ∉ taken) :
    Logged cfg p m { f with accepted := f.accepted ++
      [⟨k, k, q, (cfg.packetizer p).payloadLen (cfg.size p m k) q⟩] } k (insert q taken) := by
  obtain ⟨hnd, hset, hbytes⟩ := hlog
  have hmem : q ∉ (f.accepted.filter (·.use = k)).map Accepted.seq := by
    rwa [← hset, List.mem_toFinset] at hq
  simp only [Logged, List.filter_append, List.filter_cons, decide_true, if_true, List.filter_nil,
    List.map_append, List.map_cons, List.map_nil]
  refine ⟨?_, ?_, ?_⟩
  · rw [List.nodup_append]
    refine ⟨hnd, List.nodup_singleton q, ?_⟩
    intro a ha b hb hab
    rw [List.mem_singleton.mp hb] at hab
    exact hmem (hab ▸ ha)
  · rw [List.toFinset_append, hset]
    ext x
    simp
  · intro a ha
    rcases List.mem_append.mp ha with ha | ha
    · exact hbytes a ha
    · rw [List.mem_singleton.mp ha]

theorem logged_append_ne {j : ℕ} (hlog : Logged cfg p m f j taken) {a : Accepted}
    (ha : a.use ≠ j) : Logged cfg p m { f with accepted := f.accepted ++ [a] } j taken := by
  simpa [Logged, List.filter_append, ha] using hlog

theorem accept_log (h : f.Inv cfg p m k phase (.opened taken stopped)) (hq : q ∉ taken) :
    let f' := { f with accepted := f.accepted ++
      [⟨k, k, q, (cfg.packetizer p).payloadLen (cfg.size p m k) q⟩] }
    Logged cfg p m f' k (insert q taken) ∧
      (∀ a ∈ f'.accepted, a.pktUse = a.use ∧ a.use ≤ k) ∧
      ∀ j < k, ∃ taken, Logged cfg p m f' j taken ∧
        f'.recvCompletions[j]? = some (cfg.total p m j taken) ∧
        cfg.bound p m j ≤ cfg.total p m j taken := by
  refine ⟨logged_append h.logged hq, ?_, ?_⟩
  · intro a ha
    rcases List.mem_append.mp ha with ha | ha
    · exact h.accepted a ha
    · rw [List.mem_singleton.mp ha]
      exact ⟨rfl, le_rfl⟩
  · intro j hj
    obtain ⟨t, hlog, hrest⟩ := h.completed j hj
    exact ⟨t, logged_append_ne hlog (by simp; omega), hrest⟩

theorem valid_insert {tok : Token} {stopped' : Bool} (htok : tok ≠ .queued) (hq : q ∉ taken)
    (h : tok.Valid cfg p m k (.opened taken stopped)) :
    tok.Valid cfg p m k (.opened (insert q taken) stopped') := by
  cases tok <;>
    first | exact absurd rfl htok | exact h | exact ⟨trivial, satisfied_insert hq h.2⟩

theorem entry_insert {e : LtMessageExt} (hentry : Entry cfg p m k e taken stopped) (hq : q ∉ taken)
    (hle : q ≤ cfg.maxSeq p m k) {mgr : TreeBlockMgr} (hrep : mgr.Rep (insert q taken))
    (hsize : mgr.size ≤ cfg.maxSeq p m k + 1) {stopped' : Bool}
    (hstop : stopped' = true ↔ cfg.bound p m k ≤ cfg.total p m k (insert q taken)) :
    Entry cfg p m k { e with
      blockMgr := mgr
      bytes := e.bytes + (cfg.packetizer p).payloadLen (cfg.size p m k) q
      stopped := stopped' } (insert q taken) stopped' where
  toLtMessage_eq := hentry.toLtMessage_eq
  bound_eq := hentry.bound_eq
  stopped_eq := rfl
  holds := .inl hrep
  size_le := hsize
  bytes_eq := by rw [total_insert hq, hentry.bytes_eq]
  taken_le := by
    intro x hx
    rcases Finset.mem_insert.mp hx with rfl | hx
    · exact hle
    · exact hentry.taken_le x hx
  stopped_iff := by simp [hstop]

theorem acceptMore (h : f.Inv cfg p m k phase (.opened taken stopped)) {e : LtMessageExt}
    (hentry : Entry cfg p m k e taken stopped) (hstart : phase.started k = k + 1) (hq : q ∉ taken)
    (hle : q ≤ cfg.maxSeq p m k) {mgr : TreeBlockMgr} (hrep : mgr.Rep (insert q taken))
    (hsize : mgr.size ≤ cfg.maxSeq p m k + 1)
    (hstop : stopped = true ↔ cfg.bound p m k ≤ cfg.total p m k (insert q taken)) :
    Flow.Inv cfg p m k { f with
      recv := some { e with
        blockMgr := mgr
        bytes := e.bytes + (cfg.packetizer p).payloadLen (cfg.size p m k) q }
      accepted := f.accepted ++ [⟨k, k, q, (cfg.packetizer p).payloadLen (cfg.size p m k) q⟩] }
      phase (.opened (insert q taken) stopped) := by
  obtain ⟨hposted, hrecvs, -⟩ := h.matches_rcv
  obtain ⟨hlog, hacc, hcomp⟩ := h.accept_log hq
  have hentry' := entry_insert hentry hq hle hrep hsize hstop
  rw [← hentry.stopped_eq] at hentry'
  refine { h with
    matches_rcv := ⟨hposted, hrecvs, _, rfl, hentry.stopped_eq ▸ hentry'⟩
    stopRequests := h.stopRequests, current := fun _ => h.current trivial
    logged := hlog, accepted := hacc, completed := hcomp, fits := ?_ }
  have hfits := h.fits
  rcases phase with _ | ⟨tok, start, stop⟩ | _ | _
  · simp [Phase.started] at hstart
  · exact ⟨hfits.1, valid_insert (by rintro rfl; simp [Phase.started] at hstart) hq hfits.2⟩
  · exact hfits
  · exact hfits

theorem acceptStop (h : f.Inv cfg p m k phase (.opened taken false)) {e : LtMessageExt}
    (hentry : Entry cfg p m k e taken false) (hstart : phase.started k = k + 1) (hq : q ∉ taken)
    (hle : q ≤ cfg.maxSeq p m k) {mgr : TreeBlockMgr} (hrep : mgr.Rep (insert q taken))
    (hsize : mgr.size ≤ cfg.maxSeq p m k + 1)
    (hstop : cfg.bound p m k ≤ cfg.total p m k (insert q taken)) :
    ∃ phase', Flow.Inv cfg p m k { f with
      recv := some { e with
        blockMgr := mgr
        bytes := e.bytes + (cfg.packetizer p).payloadLen (cfg.size p m k) q
        stopped := true }
      accepted := f.accepted ++ [⟨k, k, q, (cfg.packetizer p).payloadLen (cfg.size p m k) q⟩]
      bwd := f.bwd ++ [.stop (cfg.stopDest p m)]
      stopRequests := f.stopRequests + 1 } phase' (.opened (insert q taken) true) := by
  have hc := Control.ext_iff.mp h.control
  obtain ⟨hposted, hrecvs, -⟩ := h.matches_rcv
  obtain ⟨hlog, hacc, hcomp⟩ := h.accept_log hq
  have hfits := h.fits
  rcases phase with _ | ⟨tok, start, stop⟩ | _ | _
  · simp [Phase.started] at hstart
  · obtain rfl : stop = false := hfits.1
    have htok : tok ≠ .queued := by
      rintro rfl
      simp [Phase.started] at hstart
    refine ⟨.active tok start true, { h with
      control := ?_
      matches_rcv := ⟨hposted, hrecvs, _, rfl, entry_insert hentry hq hle hrep hsize (by simpa)⟩
      stopRequests := by simpa [Receiver.stopped] using h.stopRequests
      current := fun _ => h.current trivial, emitted := ?_
      logged := hlog, accepted := hacc, completed := hcomp
      fits := ⟨rfl, valid_insert htok hq hfits.2⟩ }⟩
    · cases tok <;> simp [hc]
    · cases tok <;> exact h.emitted
  · exact absurd hfits (by simp [Phase.Fits, Receiver.stopped])
  · exact absurd hfits (by simp [Phase.Fits, Receiver.stopped])

end Inv

end Mlt.Flow
