import MltByteps.Mlt.FlowRefinement
import Mathlib.Data.UInt

/-! What the handshake guarantees of every flow of a connection: no internal check fires, the
completions of the two sides agree, and where a flow comes to rest. -/

namespace Mlt
open Communicator

variable {cfg : Config} {s : State} {p : Bool} {m : UInt32}

def onePacketConfig : Config where
  maxSegment := 24
  commId p := if p then 2 else 1
  prioFunc _ _ := 0
  loopBuf _ := 4096
  size _ _ _ := 4
  sendBuf _ _ _ := 65536
  recvBuf _ _ _ := 131072
  target _ _ _ := 4
  segment_lo := by decide
  segment_hi := by decide
  size_pos := by intros; decide
  size_lt := by intros; decide

/-- The same connection with the shortest segments that have room for `grad_ptr`. -/
def roomyConfig : Config :=
  { onePacketConfig with maxSegment := 28, segment_lo := by decide, segment_hi := by decide }

/-- Side `false` sends one message, and its packet stops the flow. -/
def stopRun (m : UInt32) : List Action :=
  [.postSend false m, .postRecv true m, .popSendRequest false, .pollReceiveRequest true,
    .pollSendingMessages false false false, .onSendReady false 0 true, .handleReceive true 0 none,
    .routeSignal false, .routeSignal false, .handleReceivedData true, .handleReceivedData true,
    .pollReceivingNotification true, .routeSignal true, .handleReceivedData false,
    .pollPriorityNotification false, .routeSignal false]

/-- The rest of the run, if the `StopConfirm` arrives. -/
def confirmRun (m : UInt32) : List Action :=
  stopRun m ++ [.handleReceivedData true, .pollReceivingNotification true]

/-! ## Checks -/

/-- With one message for each id no step faults, and only packets of the message are asked
for, if the segments are long enough. -/
theorem no_check_fails (cfg : Config) (hseg : 28 ≤ cfg.maxSegment) {s : State}
    (h : (machine cfg).Reachable Once s) :
    (∀ a, Once s a → ∃ s', step cfg s a = .ok s') ∧
      ∀ p key hdr state msg, (s.comm p).retransmitReqs.lookup key = some (hdr, state) →
        (s.comm p).retransmittingMsgs.lookup hdr.msgId = some msg →
        0 ≤ toInt32 state.seqNum ∧
          toInt32 state.seqNum ≤ (cfg.packetizer p).getMaxSeqNum msg.size := by
  have hg := State.good_of_reachable (reachable_clean h)
  refine ⟨fun a ha => ?_, fun p key hdr state msg hreq hmsg => ?_⟩
  · obtain ⟨s', hs', -⟩ := (hg.step (clean_of_once hg (once_counts h).2 ha)).exists_ok
      (Nat.not_lt.mpr hseg)
    exact ⟨s', hs'⟩
  · obtain ⟨k, phase, rcv, hinv⟩ := hg.flows p key
    obtain ⟨l, start, stop, rfl, hcur, -, hid, hle⟩ := hinv.of_request hreq
    obtain ⟨rest, -, rfl, -⟩ := hcur.next
    have hmax := hle _ (List.mem_cons_self ..)
    have hlt := Flow.Inv.maxSeq_lt cfg p key k
    rw [hid] at hmsg
    have hsize : msg.size = cfg.size p key k := by
      have he := hmsg.symm.trans (congrArg Control.retransmitting hinv.control)
      cases he
      rfl
    rw [toInt32_of_lt (by omega), hsize]
    exact ⟨Int.natCast_nonneg _, Int.ofNat_le.mpr hmax⟩

theorem no_check_fails_stopRun : ∃ s, (machine roomyConfig).Reachable Once s ∧
    s.sendCompletions false 7 = 1 ∧ ∀ a, Once s a → ∃ s', step roomyConfig s a = .ok s' := by
  obtain ⟨s, hs, hc⟩ := (machine roomyConfig).exists_reachable_of_run Once (stopRun 7)
    (fun s => s.sendCompletions false 7 = 1) (by decide +kernel)
  exact ⟨s, hs, hc, (no_check_fails roomyConfig (by decide) hs).1⟩

/-! ## Completions -/

/-- The numbers of the packets that `CopyGradients` has accepted for a flow. -/
def State.acceptedSeqs (s : State) (p : Bool) (m : UInt32) : Finset ℕ :=
  (((s.comm (!p)).log.filterMap (Event.accepted m)).map Accepted.seq).toFinset

theorem Phase.stops_le_sends (k : ℕ) (phase : Phase) : phase.stops k ≤ phase.sends k := by
  cases phase <;> simp [Phase.stops, Phase.sends]

theorem Phase.le_stops (k : ℕ) (phase : Phase) : k ≤ phase.stops k := by
  cases phase <;> simp [Phase.stops]

namespace Flow.Inv

variable {k : ℕ} {f : Flow} {phase : Phase} {rcv : Receiver}

theorem stopRequests_le (h : f.Inv cfg p m k phase rcv) : f.stopRequests ≤ phase.sends k := by
  rw [h.stopRequests]
  have hfits := h.fits
  cases phase with
  | closed => simp [Phase.sends, hfits.2]
  | active | stopping | confirmed =>
    have := Bool.toNat_le rcv.stopped
    simp only [Phase.sends]
    omega

theorem accepted_use_lt (h : f.Inv cfg p m k .closed rcv) {a : Accepted} (ha : a ∈ f.accepted) :
    a.use < k := by
  have hle := (h.accepted a ha).2
  by_contra hge
  obtain ⟨-, hset, -⟩ := h.logged
  have hmem : a.seq ∈ ((f.accepted.filter (·.use = k)).map Accepted.seq).toFinset := by
    rw [List.mem_toFinset]
    exact List.mem_map_of_mem (List.mem_filter.mpr ⟨ha, by simpa using (by omega : a.use = k)⟩)
  rw [hset, h.fits.1] at hmem
  simp at hmem

end Flow.Inv

/-- Each flow is stopped and completed at most once on either side, the receiver completes
only after the sender has stopped, and reports what the packets it has accepted carried. -/
theorem completions_agree (cfg : Config) {s : State} (h : (machine cfg).Reachable Once s)
    (p : Bool) (m : UInt32) :
    (s.comm (!p)).log.countP (Event.isStopRequest m) ≤ 1 ∧
      s.sendCompletions p m ≤ 1 ∧ (s.comm p).log.countP (Event.isStopConfirm m) ≤ 1 ∧
      s.recvCompletions p m ≤ 1 ∧
      ∀ commId bytes, .recv m commId bytes ∈ (s.comm (!p)).cq →
        .stopFlow m ∈ (s.comm p).log ∧
        bytes = ∑ q ∈ s.acceptedSeqs p m, (cfg.packetizer p).payloadLen (cfg.size p m 0) q ∧
        cfg.bound p m 0 ≤ bytes := by
  obtain ⟨k, phase, rcv, hinv⟩ := (State.good_of_reachable (reachable_clean h)).flows p m
  have hone : phase.sends k ≤ 1 := hinv.sends.symm.trans_le ((once_counts h).1 p m)
  have hstops := phase.stops_le_sends k
  have hk := phase.le_stops k
  refine ⟨hinv.stopRequests_le.trans hone, ?_, ?_, ?_, fun commId bytes hc => ?_⟩
  · exact hinv.sendCompletions.le.trans (hstops.trans hone)
  · exact hinv.stopConfirms.le.trans (hstops.trans hone)
  · rw [recvCompletions_eq cfg, hinv.completions]
    exact hk.trans (hstops.trans hone)
  · have hmem : bytes ∈ (s.flow cfg p m).recvCompletions :=
      List.mem_filterMap.mpr ⟨_, hc, by simp [Completion.recvBytes]⟩
    have hpos := List.length_pos_of_mem hmem
    rw [hinv.completions] at hpos
    obtain rfl : k = 1 := by omega
    obtain rfl : phase = .closed := by
      cases phase with
      | closed => rfl
      | active | stopping | confirmed => simp [Phase.sends] at hone
    have hall : (s.flow cfg p m).accepted.filter (·.use = 0) = (s.flow cfg p m).accepted := by
      rw [List.filter_eq_self]
      intro a ha
      have := hinv.accepted_use_lt ha
      simpa using (by omega : a.use = 0)
    obtain ⟨taken, ⟨-, hset, -⟩, hget, hle⟩ := hinv.completed 0 (Nat.lt_succ_self 0)
    rw [hall] at hset
    obtain ⟨x, hx⟩ := List.length_eq_one_iff.mp hinv.completions
    rw [hx] at hmem hget
    cases hget
    rw [List.mem_singleton.mp hmem]
    refine ⟨?_, by rw [State.acceptedSeqs, Config.total, ← hset]; rfl, hle⟩
    have hpos : 0 < (s.comm p).log.countP (Event.isStopFlow m) := by
      rw [show (s.comm p).log.countP (Event.isStopFlow m) = 1 from hinv.stopFlows]
      exact Nat.one_pos
    obtain ⟨ev, hev, hstop⟩ := List.countP_pos_iff.mp hpos
    rcases ev with _ | k | _
    · cases hstop
    · obtain rfl : k = m := of_decide_eq_true hstop
      exact hev
    · cases hstop

theorem completions_agree_confirmRun : ∃ s, (machine onePacketConfig).Reachable Once s ∧
    .recv 7 1 4 ∈ (s.comm true).cq ∧ .stopFlow 7 ∈ (s.comm false).log ∧
    4 = ∑ q ∈ s.acceptedSeqs false 7, (onePacketConfig.packetizer false).payloadLen 4 q := by
  obtain ⟨s, hs, hc⟩ := (machine onePacketConfig).exists_reachable_of_run Once (confirmRun 7)
    (fun s => .recv 7 1 4 ∈ (s.comm true).cq) (by decide +kernel)
  obtain ⟨-, -, -, -, hrecv⟩ := completions_agree onePacketConfig hs false 7
  obtain ⟨hstop, hbytes, -⟩ := hrecv 1 4 hc
  exact ⟨s, hs, hc, hstop, hbytes⟩

/-! ## Rest -/

/-- Both postings have left their queues and nothing of the flow is on its way: no signal, no
notification, no datagram, no packet still to be sent. -/
def State.Quiescent (cfg : Config) (s : State) (p : Bool) (m : UInt32) : Prop :=
  s.sends p m = 1 ∧ (∀ e ∈ (s.comm p).srQueue, e.msgId ≠ m) ∧
    s.recvs p m = 1 ∧ (∀ x ∈ (s.comm (!p)).rrQueue, x.1.msgId ≠ m) ∧
    (∀ x ∈ (s.comm p).txQueue, x.2.fwd m = none) ∧ (∀ x ∈ s.wire p, x.fwd m = none) ∧
    (∀ x ∈ (s.comm (!p)).receivingQueue, x.note m = none) ∧
    (∀ x ∈ (s.comm (!p)).txQueue, x.2.bwd (cfg.host p).destCommId m = none) ∧
    (∀ x ∈ s.wire (!p), x.bwd (cfg.host p).destCommId m = none) ∧
    (∀ x ∈ (s.comm p).priorityQueue, x.bwd m = none) ∧
    (∀ x ∈ (s.comm p).txPackets, x.1.msgId ≠ m) ∧ (∀ d ∈ s.net p, d.pkt.msgId ≠ m) ∧
    (s.comm p).sendingMsgs.lookup m = none ∧ (s.comm p).retransmitReqs.lookup m = none

instance : Decidable (s.Quiescent cfg p m) := by
  unfold State.Quiescent
  infer_instance

structure Flow.Silent (f : Flow) : Prop where
  queued : f.queued = []
  sending : f.sending = none
  request : f.request = none
  fwd : f.fwd = []
  notes : f.notes = []
  bwd : f.bwd = []

theorem filterMap_routed_eq_nil {τ : Type} {l : List (ℤ × Signal)} {sel : Signal → Option τ}
    (h : ∀ x ∈ l, sel x.2 = none) (dest : ℤ) : l.filterMap (routed dest sel) = [] := by
  rw [List.filterMap_eq_nil_iff]
  intro x hx
  unfold routed
  split_ifs
  · exact h x hx
  · rfl

theorem State.Quiescent.silent (h : s.Quiescent cfg p m) : (s.flow cfg p m).Silent := by
  obtain ⟨-, hsr, -, -, htx, hwire, hnotes, htx', hwire', horders, -, -, hsending, hrequest⟩ := h
  have hself : (cfg.host (!p)).packetizer.commId = (cfg.host p).destCommId := rfl
  refine ⟨?_, hsending, hrequest, ?_, ?_, ?_⟩
  · exact List.filter_eq_nil_iff.mpr fun e he => by simpa using hsr e he
  · exact List.append_eq_nil_iff.mpr
      ⟨List.filterMap_eq_nil_iff.mpr hwire, filterMap_routed_eq_nil htx _⟩
  · exact List.filterMap_eq_nil_iff.mpr hnotes
  · refine List.append_eq_nil_iff.mpr ⟨List.filterMap_eq_nil_iff.mpr horders,
      List.append_eq_nil_iff.mpr ⟨List.filterMap_eq_nil_iff.mpr hwire', ?_⟩⟩
    exact filterMap_routed_eq_nil (hself ▸ htx') _

theorem Packetizer.sum_payloadLen (p : Packetizer) (size n : ℕ) :
    ∑ q ∈ Finset.range n, p.payloadLen size q = min (n * p.bound) size := by
  induction n with
  | zero => simp
  | succ n ih =>
    rw [Finset.sum_range_succ, ih, payloadLen, Nat.succ_mul]
    omega

theorem Packetizer.sum_payloadLen_of_all {p : Packetizer} {size : ℕ} (hv : p.Valid)
    (hpos : 0 < size) (hlt : size < 2 ^ 32) {taken : Finset ℕ}
    (hall : ∀ q, q ∈ taken ↔ q ≤ p.getMaxSeqNum size) :
    ∑ q ∈ taken, p.payloadLen size q = size := by
  have hrange : taken = Finset.range (p.getMaxSeqNum size + 1) := by
    ext q
    rw [Finset.mem_range, Nat.lt_succ_iff, hall]
  rw [hrange, sum_payloadLen]
  apply Nat.min_eq_right
  by_contra hless
  have hmax := (le_getMaxSeqNum_iff hv hpos hlt).mpr (Nat.lt_of_not_le hless)
  exact absurd hmax (Nat.not_succ_le_self _)

theorem Config.total_of_all {k : ℕ} {taken : Finset ℕ} (hle : ∀ q ∈ taken, q ≤ cfg.maxSeq p m k)
    (hall : ∀ q ≤ cfg.maxSeq p m k, q ∈ taken) : cfg.total p m k taken = cfg.size p m k :=
  Packetizer.sum_payloadLen_of_all (cfg.packetizer_valid p) (cfg.size_pos p m k)
    (cfg.size_lt p m k) fun q => ⟨hle q, hall q⟩

namespace Flow.Inv

variable {k : ℕ} {f : Flow} {phase : Phase} {rcv : Receiver}

/-- A silent flow is closed, or its `StopConfirm` has been dropped: while the flow is active
and the receiver not satisfied, a token exists. -/
theorem of_silent (hseg : ¬cfg.Short) (h : f.Inv cfg p m k phase rcv) (hs : f.Silent)
    (hpos : 0 < cfg.bound p m k) (hle : cfg.bound p m k ≤ cfg.size p m k) :
    phase = .closed ∨ phase = .stopping false .gone ∧
      cfg.stopDest p m ≠ (cfg.host p).destCommId := by
  have hc := Control.ext_iff.mp h.control
  simp only [hs.queued, hs.sending, hs.request, hs.fwd, hs.notes, hs.bwd] at hc
  rcases phase with _ | ⟨tok, start, stop⟩ | ⟨start, late⟩ | late
  · exact .inl rfl
  · exfalso
    cases tok with
    | settled =>
      obtain rfl : stop = false := by
        cases stop
        · rfl
        · simp at hc
      obtain ⟨hstop, hopen, hsat⟩ := h.fits
      cases rcv with
      | idle | posted => exact hopen
      | opened taken stopped =>
        obtain ⟨-, -, e, -, hentry⟩ := h.matches_rcv
        have henough : cfg.bound p m k ≤ cfg.total p m k taken := by
          rcases hsat with hsat | hsat
          · exact hsat
          · rw [Config.total_of_all hentry.taken_le hsat]
            exact hle
        have hne : taken.Nonempty := by
          rw [Finset.nonempty_iff_ne_empty]
          rintro rfl
          simp [Config.total] at henough
          omega
        exact absurd (hstop.trans (hentry.stopped_iff.mpr ⟨hne, henough⟩)) (by simp)
    | lost => exact hseg h.fits.2
    | _ => simp at hc
  · right
    cases start <;> cases late <;> simp [Config.confirmFwd] at hc
    exact ⟨rfl, hc.2.1⟩
  · simp at hc

end Flow.Inv

theorem stopDest_eq_iff (cfg : Config) (p : Bool) (m : UInt32) :
    cfg.stopDest p m = (cfg.host p).destCommId ↔ m.toNat < 2 ^ 31 := by
  constructor
  · intro h
    by_contra hge
    exact decodeFlow_fst_ne _ (Nat.le_of_not_lt hge) h
  · have hlt := (cfg.commId !p).toNat_lt
    have hdest : (cfg.host p).destCommId = ((cfg.commId !p).toNat : ℤ) := rfl
    exact decodeFlow_fst (by omega) (by omega)

/-- A flow that has come to rest has completed on both sides exactly if its id is not negative
as an `int`: `EncodeFlow` lets the sign of the id borrow from the destination. -/
theorem quiescent_complete_iff (cfg : Config) (hseg : 28 ≤ cfg.maxSegment) {s : State}
    (h : (machine cfg).Reachable Once s) {p : Bool} {m : UInt32} (hq : s.Quiescent cfg p m)
    (hpos : 0 < cfg.bound p m 0) (hle : cfg.bound p m 0 ≤ cfg.size p m 0) :
    (s.sendCompletions p m = 1 ∧ s.recvCompletions p m = 1) ↔ m.toNat < 2 ^ 31 := by
  obtain ⟨k, phase, rcv, hinv⟩ := (State.good_of_reachable (reachable_clean h)).flows p m
  have hsends : phase.sends k = 1 := hinv.sends.symm.trans hq.1
  have hsend : s.sendCompletions p m = phase.stops k := hinv.sendCompletions
  have hrecv : s.recvCompletions p m = k :=
    (recvCompletions_eq cfg s p m).trans hinv.completions
  rw [← stopDest_eq_iff cfg p m, hsend, hrecv]
  cases k with
  | zero =>
    rcases hinv.of_silent (Nat.not_lt.mpr hseg) hq.silent hpos hle with rfl | ⟨-, hne⟩
    · simp [Phase.sends] at hsends
    · simp [hne]
  | succ k =>
    obtain rfl : phase = .closed := by
      cases phase with
      | closed => rfl
      | active | stopping | confirmed => simp [Phase.sends] at hsends
    obtain rfl : k = 0 := by simpa [Phase.sends] using hsends
    simpa [Phase.stops] using hinv.routable (Nat.lt_succ_self 0)

theorem quiescent_complete_iff_confirmRun : ∃ s, (machine roomyConfig).Reachable Once s ∧
    s.Quiescent roomyConfig false 7 ∧
    s.sendCompletions false 7 = 1 ∧ s.recvCompletions false 7 = 1 := by
  obtain ⟨s, hs, hq⟩ := (machine roomyConfig).exists_reachable_of_run Once
    (confirmRun 7 ++ [.lose false 0]) (fun s => s.Quiescent roomyConfig false 7)
    (by decide +kernel)
  exact ⟨s, hs, hq, (quiescent_complete_iff roomyConfig (by decide) hs hq (by decide)
    (by decide)).mpr (by decide)⟩

/-- The `StopConfirm` of the id `2^31` goes to the communicator 1 instead of 2. -/
theorem stuck_two_pow : ∃ s, (machine roomyConfig).Reachable Once s ∧
    s.Quiescent roomyConfig false (2 ^ 31) ∧
    0 < roomyConfig.bound false (2 ^ 31) 0 ∧
    roomyConfig.bound false (2 ^ 31) 0 ≤ roomyConfig.size false (2 ^ 31) 0 ∧
    s.sendCompletions false (2 ^ 31) = 1 ∧ s.recvCompletions false (2 ^ 31) = 0 := by
  obtain ⟨s, hs, hq, hsend, hrecv⟩ := (machine roomyConfig).exists_reachable_of_run Once
    (stopRun (2 ^ 31) ++ [.lose false 0])
    (fun s => s.Quiescent roomyConfig false (2 ^ 31) ∧
      s.sendCompletions false (2 ^ 31) = 1 ∧ s.recvCompletions false (2 ^ 31) = 0)
    (by decide +kernel)
  exact ⟨s, hs, hq, by decide, by decide, hsend, hrecv⟩

/-! ## Ids that are used again -/

def reuseRun : List Action :=
  confirmRun 7 ++ [.postSend false 7, .postRecv true 7, .pollReceiveRequest true]

/-- The datagram of the first message is copied into the second one. -/
theorem stale_datagram_accepted : ∃ s, (machine onePacketConfig).Reachable Reuse s ∧
    .accept 7 1 0 0 4 ∈ (s.comm true).log :=
  (machine onePacketConfig).exists_reachable_of_run Reuse (reuseRun ++ [.handleReceive true 0 none])
    (fun s => .accept 7 1 0 0 4 ∈ (s.comm true).log) (by decide +kernel)

/-- If no datagram of an id is left when a receive of that id is taken, every packet copied
into a receive was emitted for the matching send. -/
theorem accepted_of_matching_send (cfg : Config) {s : State}
    (h : (machine cfg).Reachable Clean s) (p : Bool) (m : UInt32) (use pktUse seq bytes : ℕ)
    (ha : .accept m use pktUse seq bytes ∈ (s.comm p).log) : pktUse = use := by
  obtain ⟨k, phase, rcv, hinv⟩ := (State.good_of_reachable h).flows (!p) m
  have hmem : (⟨use, pktUse, seq, bytes⟩ : Accepted) ∈ (s.flow cfg (!p) m).accepted := by
    change _ ∈ (s.receiver cfg (!p) m).accepted
    rw [receiver_not]
    exact List.mem_filterMap.mpr ⟨_, ha, by simp [Event.accepted]⟩
  exact (hinv.accepted _ hmem).1

theorem accepted_of_matching_send_reuseRun : ∃ s, (machine onePacketConfig).Reachable Clean s ∧
    .accept 7 1 1 0 4 ∈ (s.comm true).log ∧
    ∀ use pktUse seq bytes, .accept 7 use pktUse seq bytes ∈ (s.comm true).log →
      pktUse = use := by
  obtain ⟨s, hs, hacc⟩ := (machine onePacketConfig).exists_reachable_of_run Clean
    (confirmRun 7 ++ .lose false 0 :: stopRun 7)
    (fun s => .accept 7 1 1 0 4 ∈ (s.comm true).log) (by decide +kernel)
  exact ⟨s, hs, hacc, accepted_of_matching_send onePacketConfig hs true 7⟩

end Mlt
