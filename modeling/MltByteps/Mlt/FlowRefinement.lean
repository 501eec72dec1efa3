import MltByteps.Mlt.ReceiverView

/-! Every step of the connection is a move of its flows, so the protocol holds in every
state that is reached. -/

namespace Mlt
open Communicator

/-- Datagrams of a flow are gone when the next receive of its id is taken, and ids are not
used again too early. -/
def Clean (s : State) : Action → Prop
  | .pollReceiveRequest p => ∀ x ∈ (s.comm p).rrQueue.head?,
      (∀ y ∈ (s.comm (!p)).txPackets, y.1.msgId = x.1.msgId → y.2 = x.1.use) ∧
      ∀ d ∈ s.net (!p), d.pkt.msgId = x.1.msgId → d.use = x.1.use
  | a => Reuse s a

instance (s : State) : (a : Action) → Decidable (Clean s a)
  | .pollReceiveRequest p => by
    unfold Clean
    infer_instance
  | .postSend p m => inferInstanceAs (Decidable (Reuse s (.postSend p m)))
  | .postRecv p m => inferInstanceAs (Decidable (Reuse s (.postRecv p m)))
  | .sendMeta .. | .write .. | .popSendRequest .. | .pollSendingMessages ..
  | .pollRetransmitRequest .. | .pollPriorityNotification .. | .onSendReady .. | .routeSignal ..
  | .handleReceivedData .. | .handleReceive .. | .lose .. | .pollReceivingNotification .. =>
    isTrue trivial

variable {cfg : Config} {s : State} {p : Bool} {m : UInt32} {c : Communicator}

theorem Flow.Inv.ok {f f' : Flow} {k : ℕ} {phase : Phase} {rcv : Receiver}
    (h : f.Inv cfg p m k phase rcv) (heq : f' = f) : f'.Ok cfg p m :=
  ⟨k, phase, rcv, heq ▸ h⟩

/-! ## Flows of a changed state -/

theorem flow_setComm : (s.setComm p c).flow cfg p m =
    s.assemble cfg p m (c.sendSide (cfg.host p) m) (s.receiver cfg p m) := by
  simp [State.flow, State.sender, State.receiver, State.setComm, State.assemble]

theorem flow_setComm_not : (s.setComm p c).flow cfg (!p) m =
    s.assemble cfg (!p) m (s.sender cfg (!p) m) (c.recvSide (cfg.host p) m) := by
  simp [State.flow, State.sender, State.receiver, State.setComm, State.assemble]

theorem flow_countSend (k : UInt32) (p' : Bool) : (s.countSend p m).flow cfg p' k =
    { s.flow cfg p' k with
      sends := if p' = p ∧ k = m then s.sends p m + 1 else s.sends p' k } := by
  rcases Bool.eq_or_eq_not p' p with rfl | rfl
  · by_cases hk : k = m
    · subst hk
      simp [State.countSend, State.flow, State.assemble, State.sender, State.receiver]
    · simp [State.countSend, State.flow, State.assemble, State.sender, State.receiver, hk]
  · simp [State.countSend, State.flow, State.assemble, State.sender, State.receiver]

theorem flow_countRecv (k : UInt32) (p' : Bool) : (s.countRecv p m).flow cfg p' k =
    { s.flow cfg p' k with
      recvs := if p' = p ∧ k = m then s.recvs p m + 1 else s.recvs p' k } := by
  rcases Bool.eq_or_eq_not p' p with rfl | rfl
  · by_cases hk : k = m
    · subst hk
      simp [State.countRecv, State.flow, State.assemble, State.sender, State.receiver]
    · simp [State.countRecv, State.flow, State.assemble, State.sender, State.receiver, hk]
  · simp [State.countRecv, State.flow, State.assemble, State.sender, State.receiver]

theorem receiver_not : s.receiver cfg (!p) m = (s.comm p).recvSide (cfg.host p) m := by
  simp [State.receiver]

/-- The protocol holds for every flow, and the side conditions of the communicators. -/
structure State.Good (cfg : Config) (s : State) : Prop where
  flows : ∀ p m, (s.flow cfg p m).Ok cfg p m
  sound : ∀ p, (s.comm p).Sound (cfg.host p)
  tagged : ∀ p, ∀ x ∈ s.wire p, x.Tagged (cfg.host p).packetizer.commId

namespace State.Good

theorem setComm (hg : s.Good cfg) (hsound : c.Sound (cfg.host p))
    (hsend : ∀ m, (s.assemble cfg p m (c.sendSide (cfg.host p) m)
      (s.receiver cfg p m)).Ok cfg p m)
    (hrecv : ∀ m, (s.assemble cfg (!p) m (s.sender cfg (!p) m)
      (c.recvSide (cfg.host p) m)).Ok cfg (!p) m) : (s.setComm p c).Good cfg where
  flows p' m := by
    rcases Bool.eq_or_eq_not p' p with rfl | rfl
    · rw [flow_setComm]
      exact hsend m
    · rw [flow_setComm_not]
      exact hrecv m
  sound p' := by
    rcases Bool.eq_or_eq_not p' p with rfl | rfl
    · simpa [State.setComm] using hsound
    · simpa [State.setComm] using hg.sound (!p)
  tagged := hg.tagged

theorem sendStep (hg : s.Good cfg) {R : UInt32 → SendSide → SendSide → Prop}
    (hstep : SendStep (cfg.host p) R (s.comm p) c)
    (hR : ∀ m x', R m (s.sender cfg p m) x' →
      (s.assemble cfg p m x' (s.receiver cfg p m)).Ok cfg p m) : (s.setComm p c).Good cfg := by
  refine hg.setComm (hstep.sound (hg.sound p)) (fun m => ?_) (fun m => ?_)
  · rcases hstep.sendSide_eq m with heq | hr
    · rw [heq]
      exact hg.flows p m
    · exact hR m _ hr
  · rw [hstep.recvSide_eq, ← receiver_not]
    exact hg.flows (!p) m

theorem recvStep (hg : s.Good cfg) {R : UInt32 → RecvSide → RecvSide → Prop}
    (hstep : RecvStep (cfg.host p) R (s.comm p) c)
    (hR : ∀ m y', R m (s.receiver cfg (!p) m) y' →
      (s.assemble cfg (!p) m (s.sender cfg (!p) m) y').Ok cfg (!p) m) :
    (s.setComm p c).Good cfg := by
  refine hg.setComm (hstep.sound (hg.sound p)) (fun m => ?_) (fun m => ?_)
  · rw [hstep.sendSide_eq]
    exact hg.flows p m
  · have hm := hstep.recvSide_eq m
    rw [← receiver_not] at hm
    rcases hm with heq | hr
    · rw [heq]
      exact hg.flows (!p) m
    · exact hR m _ hr

/-! ## The sending thread -/

theorem toNat_ofInt (x : UInt16) : UInt16.ofInt (x.toNat : ℤ) = x := by
  apply UInt16.toNat_inj.mp
  have := x.toNat_lt
  rw [UInt16.ofInt, UInt16.toNat_ofNat']
  omega

theorem dest_eq (cfg : Config) (p : Bool) :
    ((UInt16.ofInt (cfg.host p).destCommId).toNat : ℤ) = (cfg.host p).destCommId := by
  simp only [Config.host, toNat_ofInt]

theorem emitted {k q : ℕ} {pkt : GradPacket} (hq : q ≤ cfg.maxSeq p m k)
    (h : IsPacketTo (cfg.host p) (cfg.size p m k) q pkt) : Emitted cfg p m pkt k where
  isPacket := ⟨q, hq, h.isPacket⟩
  dst_eq := h.dst_eq.trans (toNat_ofInt _)
  src_eq := h.src_eq.trans (toNat_ofInt _)

theorem popSendRequest (hg : s.Good cfg) :
    ∃ c, (s.comm p).popSendRequest = .ok c ∧ (s.setComm p c).Good cfg := by
  obtain ⟨c, hc, hstep⟩ := popSendRequest_spec (h := cfg.host p) (c := s.comm p)
      fun m e rest hq => by
    obtain ⟨k, phase, rcv, hinv⟩ := hg.flows p m
    exact (hinv.popSend hq).1
  refine ⟨c, hc, hg.sendStep hstep ?_⟩
  rintro m _ ⟨e, rest, hq, rfl⟩
  obtain ⟨k, phase, rcv, hinv⟩ := hg.flows p m
  obtain ⟨-, phase', hinv'⟩ := hinv.popSend hq
  exact ⟨k, phase', rcv, hinv'⟩

theorem pollSendingMessages (hg : s.Good cfg) (throttled elapsed : Bool) :
    (s.setComm p ((s.comm p).pollSendingMessages (cfg.host p) throttled elapsed)).Good cfg := by
  have hv := cfg.packetizer_valid p
  have hb := hv.two_le_bound
  refine hg.sendStep (pollSendingMessages_spec hv (dest_eq cfg p) throttled elapsed ?_) ?_
  · intro m e hlook
    obtain ⟨k, phase, rcv, hinv⟩ := hg.flows p m
    obtain ⟨q, start, stop, -, hq, rfl⟩ := hinv.of_sending hlook
    exact ⟨q, rfl, cfg.size_lt p m k, rfl,
      (Packetizer.le_getMaxSeqNum_iff hv (cfg.size_pos p m k) (cfg.size_lt p m k)).mp hq⟩
  · rintro m _ ⟨e, q, pkt, hs, hun, hto, hx'⟩
    obtain ⟨k, phase, rcv, hinv⟩ := hg.flows p m
    obtain ⟨q', start, stop, rfl, hq, rfl⟩ := hinv.of_sending hs
    obtain rfl : q' = q := Nat.eq_of_mul_eq_mul_right (by omega) hun.bytes_eq
    rcases hx' with ⟨hlt, rfl⟩ | ⟨-, rfl⟩
    · have hinv' := hinv.sendNext hlt (emitted hq hto)
      exact hinv'.ok (by simp only [State.flow, State.assemble, Set.insert_union]; rfl)
    · obtain ⟨hnone, hinv'⟩ := hinv.sendLast (emitted hq hto)
      have hnone' : (s.sender cfg p m).retransmitting = none := hnone
      exact hinv'.ok (by
        simp only [State.flow, State.assemble, Set.insert_union, List.append_assoc, hnone']; rfl)

theorem pollRetransmitRequest (hg : s.Good cfg) (throttled elapsed : Bool) :
    Yields cfg.Short ((s.comm p).pollRetransmitRequest (cfg.host p) throttled elapsed)
      fun c => (s.setComm p c).Good cfg := by
  have hpoll := pollRetransmitRequest_spec (c := s.comm p) (cfg.packetizer_valid p)
    (dest_eq cfg p) throttled elapsed fun m hdr state hlook => by
      obtain ⟨k, phase, rcv, hinv⟩ := hg.flows p m
      obtain ⟨l, start, stop, rfl, hcur, hcomm, hmsg, hle⟩ := hinv.of_request hlook
      exact ⟨_, l, congrArg Control.retransmitting hinv.control,
        ⟨hcomm, hmsg, rfl, cfg.size_pos p m k, cfg.size_lt p m k, hcur, hle⟩⟩
  refine hpoll.mono id fun c hstep => hg.sendStep hstep ?_
  rintro m _ ⟨hdr, state, e, rest, pkt, hr, he, hres, hto, hx'⟩
  obtain ⟨k, phase, rcv, hinv⟩ := hg.flows p m
  obtain ⟨l, start, stop, rfl, -⟩ := hinv.of_request hr
  have he' : some e = some _ := he.symm.trans (congrArg Control.retransmitting hinv.control)
  cases he'
  have hle : ∀ q ∈ state.seqNum :: rest, q ≤ cfg.maxSeq p m k := hres.le_max
  have hem := emitted (hle _ (List.mem_cons_self ..)) hto
  rcases hx' with ⟨-, state', hcur, rfl⟩ | ⟨-, rfl⟩
  · have hinv' := hinv.resendNext hcur (fun q hq => hle q (.tail _ hq)) hem
    exact hinv'.ok (by simp only [State.flow, State.assemble, Set.insert_union]; rfl)
  · have hinv' := hinv.resendLast hem
    exact hinv'.ok (by
      simp only [State.flow, State.assemble, Set.insert_union, List.append_assoc]; rfl)

theorem pollPriorityNotification (hg : s.Good cfg) :
    Yields cfg.Short (s.comm p).pollPriorityNotification
      fun c => (s.setComm p c).Good cfg := by
  have hbwd : ∀ m b rest, (s.sender cfg p m).orders = b :: rest →
      (s.flow cfg p m).bwd = b :: (rest ++ ((s.wire (!p)).filterMap
        (Signal.bwd (cfg.host p).destCommId m) ++ (s.receiver cfg p m).out)) := by
    intro m b rest ho
    simp only [State.flow, State.assemble, ho, List.cons_append]
  have hpoll := pollPriorityNotification_spec (h := cfg.host p) (c := s.comm p)
    fun m req rest ho => by
      obtain ⟨k, phase, rcv, hinv⟩ := hg.flows p m
      obtain ⟨hpos, hb⟩ := hinv.takeRequest (hbwd m _ _ ho)
      exact ⟨hpos, hb.mono id fun _ _ => trivial⟩
  refine hpoll.mono id fun c hstep => hg.sendStep hstep ?_
  rintro m _ (⟨dest, rest, ho, rfl⟩ | ⟨req, b, rest, ho, hb, rfl⟩)
  · obtain ⟨k, phase, rcv, hinv⟩ := hg.flows p m
    obtain ⟨phase', hinv'⟩ := hinv.stopFlow (hbwd m _ _ ho)
    exact hinv'.ok (by simp only [State.flow, State.assemble, List.append_assoc]; rfl)
  · obtain ⟨k, phase, rcv, hinv⟩ := hg.flows p m
    obtain ⟨-, hb'⟩ := hinv.takeRequest (hbwd m _ _ ho)
    obtain ⟨phase', hinv'⟩ := hb'.of_eq_ok hb
    exact ⟨k, phase', rcv, hinv'⟩

/-! ## The receiving thread -/

theorem pollReceiveRequest (hg : s.Good cfg) (hclean : Clean s (.pollReceiveRequest p)) :
    ∃ c, (s.comm p).pollReceiveRequest = .ok c ∧ (s.setComm p c).Good cfg := by
  -- the data of the flow whose receive is taken belongs to that posting
  have hdata : ∀ m x, (s.comm p).rrQueue.head? = some x → x.1.msgId = m →
      ∀ y ∈ (s.flow cfg (!p) m).data, y.2 = x.1.use := by
    rintro m x hx rfl y (⟨hy, hm⟩ | ⟨d, hd, rfl, hm⟩)
    · exact (hclean x hx).1 y hy hm
    · exact (hclean x hx).2 d hd hm
  obtain ⟨c, hc, hstep⟩ := pollReceiveRequest_spec (hg.sound p) fun m x rest hp => by
    obtain ⟨k, phase, rcv, hinv⟩ := hg.flows (!p) m
    rw [← receiver_not] at hp ⊢
    exact (hinv.of_posted hp).2.2.2
  refine ⟨c, hc, hg.recvStep hstep ?_⟩
  rintro m _ ⟨msg, target, rest, hhead, hm, hp, rfl⟩
  obtain ⟨k, phase, rcv, hinv⟩ := hg.flows (!p) m
  obtain ⟨-, rcv', hinv'⟩ := hinv.popRecv hp (hdata m _ hhead hm)
  exact hinv'.ok rfl

theorem commId_eq (cfg : Config) (p : Bool) :
    (cfg.host p).packetizer.commId = (cfg.host (!p)).destCommId := by
  simp [Config.host, Config.packetizer]

theorem pollReceivingNotification (hg : s.Good cfg) :
    ∃ c, (s.comm p).pollReceivingNotification (cfg.host p) = .ok c ∧
      (s.setComm p c).Good cfg := by
  have hlt := (cfg.commId p).toNat_lt
  have hid : (cfg.host p).packetizer.commId = ((cfg.commId p).toNat : ℤ) := rfl
  obtain ⟨c, hc, hstep⟩ := pollReceivingNotification_spec (h := cfg.host p) (c := s.comm p)
    (by omega) (by omega)
    (fun m ms rest hn => by
      obtain ⟨k, phase, rcv, hinv⟩ := hg.flows (!p) m
      rw [← receiver_not] at hn ⊢
      refine ⟨?_, fun e he hlt => ?_⟩
      · have := Flow.Inv.maxSeq_lt cfg (!p) m k
        obtain ⟨rfl, -⟩ := hinv.of_note_finish hn
        omega
      · obtain ⟨taken, stopped, -, hentry⟩ := hinv.of_recv he
        exact ⟨taken, hentry.holds⟩)
    (fun m rest hn => by
      obtain ⟨k, phase, rcv, hinv⟩ := hg.flows (!p) m
      rw [← receiver_not] at hn ⊢
      obtain ⟨e, he, -⟩ := hinv.confirmStop hn
      exact ⟨e, he⟩)
  have hcomm := commId_eq cfg p
  refine ⟨c, hc, hg.recvStep hstep ?_⟩
  rintro m _ (⟨ms, rest, hn, hend⟩ | ⟨rest, hn, e, he, rfl⟩)
  · obtain ⟨k, phase, rcv, hinv⟩ := hg.flows (!p) m
    rcases hend with ⟨hr, x, hx, rfl⟩ | ⟨e, hr, ⟨hle, rfl⟩ | ⟨hlt, hshort⟩⟩
    · obtain ⟨-, hask⟩ := hinv.finishAbsent hn hr
      obtain ⟨phase', hinv'⟩ := hask x (hcomm ▸ hx)
      exact hinv'.ok (by simp only [State.flow, State.assemble, List.append_assoc])
    · obtain ⟨phase', hinv'⟩ := hinv.finishEnough hn hr hle
      exact hinv'.ok rfl
    · obtain ⟨-, taken, hholds, hmgr⟩ := hinv.finishShort hn hr hlt
      obtain ⟨mgr, hrep, hsize, ⟨htree, rfl⟩ | ⟨htree, x, hx, rfl⟩⟩ := hshort
      · obtain ⟨phase', hinv'⟩ := (hmgr mgr (hrep taken hholds) hsize).1 htree
        exact hinv'.ok rfl
      · obtain ⟨phase', hinv'⟩ := (hmgr mgr (hrep taken hholds) hsize).2 htree x (hcomm ▸ hx)
        exact hinv'.ok (by simp only [State.flow, State.assemble, List.append_assoc])
  · obtain ⟨k, phase, rcv, hinv⟩ := hg.flows (!p) m
    obtain ⟨e', he', phase', rcv', hinv'⟩ := hinv.confirmStop hn
    cases he.symm.trans he'
    exact hinv'.ok rfl

theorem takesPacket {d : Datagram} (hd : d ∈ s.net (!p)) {k : ℕ} {phase : Phase} {rcv : Receiver}
    {y' : RecvSide}
    (hinv : (s.flow cfg (!p) d.pkt.msgId).Inv cfg (!p) d.pkt.msgId k phase rcv)
    (ht : TakesPacket (cfg.host p) d.pkt d.use rcv.taken (s.receiver cfg (!p) d.pkt.msgId) y') :
    (s.assemble cfg (!p) d.pkt.msgId (s.sender cfg (!p) d.pkt.msgId) y').Ok cfg (!p)
      d.pkt.msgId := by
  obtain ⟨e, mgr, he, hsize, ht⟩ := ht
  have hmem : (d.pkt, d.use) ∈ (s.flow cfg (!p) d.pkt.msgId).data := .inr ⟨d, hd, rfl, rfl⟩
  obtain ⟨taken, stopped, q, rfl, hentry, huse, hq, hpkt, hstart⟩ := hinv.of_data he hmem
  have hmgr : mgr.size ≤ cfg.maxSeq (!p) d.pkt.msgId k + 1 := by
    have := hentry.size_le
    rw [hpkt.seq_eq] at hsize
    omega
  have hek : e.use = k := congrArg LtMessage.use hentry.toLtMessage_eq
  rw [hpkt.seq_eq, hpkt.gradBytes_eq, huse, hek] at ht
  have hstop := hentry.stopped_iff
  rcases ht with ⟨-, hrep, rfl⟩ | ⟨hnew, hrep, hrest⟩
  · exact (hinv.regrow hentry hrep hmgr).ok rfl
  · have hnew' : q ∉ taken := hnew
    have htot : cfg.total (!p) d.pkt.msgId k (insert q taken) = cfg.total (!p) d.pkt.msgId k taken +
        (cfg.packetizer !p).payloadLen (cfg.size (!p) d.pkt.msgId k) q :=
      Flow.Inv.total_insert hnew'
    have hb := hentry.bound_eq
    have hbytes := hentry.bytes_eq
    have hst := hentry.stopped_eq
    rcases hrest with ⟨hno, rfl⟩ | ⟨hle, hst', rfl⟩
    · refine (hinv.acceptMore hentry hstart hnew' hq hrep hmgr ?_).ok rfl
      rw [hst, hb, hbytes, ← htot] at hno
      cases stopped with
      | false => simpa using hno
      | true =>
        have := (hstop.mp rfl).2
        simp only [true_iff]
        omega
    · obtain rfl : stopped = false := hst.symm.trans hst'
      obtain ⟨phase', hinv'⟩ := hinv.acceptStop hentry hstart hnew' hq hrep hmgr (by omega)
      refine hinv'.ok ?_
      simp only [State.flow, State.assemble, List.append_assoc, Config.stopDest, commId_eq]

theorem handleReceive (hg : s.Good cfg) {d : Datagram} (hd : d ∈ s.net (!p))
    (rate : Option UInt32) :
    ∃ c, (s.comm p).handleReceive (cfg.host p) d.bytes d.use rate = .ok c ∧
      (s.setComm p c).Good cfg := by
  obtain ⟨k, phase, rcv, hinv⟩ := hg.flows (!p) d.pkt.msgId
  have hmem : (d.pkt, d.use) ∈ (s.flow cfg (!p) d.pkt.msgId).data := .inr ⟨d, hd, rfl, rfl⟩
  obtain ⟨-, ⟨q, hq, hpkt⟩, hdst, hsrc⟩ := hinv.emitted _ hmem
  dsimp only at hq hpkt hdst hsrc
  have hv := cfg.packetizer_valid (!p)
  have hlt := cfg.size_lt (!p) d.pkt.msgId d.use
  have hqlt := (Packetizer.le_getMaxSeqNum_iff hv (cfg.size_pos (!p) d.pkt.msgId d.use) hlt).mp hq
  have hmax := Flow.Inv.maxSeq_lt cfg (!p) d.pkt.msgId d.use
  obtain ⟨c, hc, hstep⟩ := handleReceive_spec (h := cfg.host p) (c := s.comm p) rcv.taken d.pkt
    d.bytes (hg.sound p)
    (show kGradPacketHeader ≤ cfg.maxSegment from le_trans (by decide) cfg.segment_lo)
    (List.take_left' (GradPacket.length_header _))
    (by rw [hdst, Bool.not_not]; exact (toNat_ofInt _).symm) (by rw [hsrc]; rfl)
    (by rw [hpkt.seq_eq]; omega)
    (by rw [hpkt.gradBytes_eq]; exact Packetizer.payloadLen_pos hv hqlt)
    (fun e he => by
      rw [← receiver_not] at he
      obtain ⟨taken, stopped, -, rfl, hentry, huse, -⟩ := hinv.of_data he hmem
      refine ⟨hentry.holds, ?_⟩
      have hsize : e.size = cfg.size (!p) d.pkt.msgId d.use := by
        rw [huse]
        exact congrArg LtMessage.size hentry.toLtMessage_eq
      rw [hsize]
      exact hpkt.end_le hlt hqlt) d.use rate
  refine ⟨c, hc, hg.recvStep hstep ?_⟩
  rintro m y' ⟨rfl, ht⟩
  exact takesPacket hd hinv ht

/-! ## The network and the wires -/

theorem setNet (hg : s.Good cfg) {l : List Datagram}
    (hl : ∀ d ∈ l, d ∈ s.net p ∨ (d.pkt, d.use) ∈ (s.comm p).txPackets) :
    (s.setNet p l).Good cfg where
  flows p' m := by
    obtain ⟨k, phase, rcv, hinv⟩ := hg.flows p' m
    have hsub : ((s.setNet p l).flow cfg p' m).data ⊆ (s.flow cfg p' m).data := by
      rintro x (hx | ⟨d, hd, rfl, hm⟩)
      · exact .inl hx
      · rcases Bool.eq_or_eq_not p' p with rfl | rfl
        · simp only [State.setNet, Function.update_self] at hd
          rcases hl d hd with hd | hd
          · exact .inr ⟨d, hd, rfl, hm⟩
          · exact .inl ⟨hd, hm⟩
        · simp only [State.setNet, Function.update_of_ne (Bool.not_ne_self p)] at hd
          exact .inr ⟨d, hd, rfl, hm⟩
    exact (hinv.lose hsub).ok rfl
  sound := hg.sound
  tagged := hg.tagged

theorem onSendReady (hg : s.Good cfg) (tos : UInt8) (accepted : Bool) :
    let r := (s.comm p).onSendReady tos accepted
    ((s.setComm p r.1).setNet p (s.net p ++ r.2.toList)).Good cfg := by
  obtain ⟨hstep, hmem⟩ := onSendReady_spec (h := cfg.host p) (c := s.comm p) tos accepted
  -- the datagram joins the network before its packet leaves the queue
  have hnet : (s.setNet p (s.net p ++ ((s.comm p).onSendReady tos accepted).2.toList)).Good cfg :=
    hg.setNet fun d hd => by
      rcases List.mem_append.mp hd with hd | hd
      · exact .inl hd
      · exact .inr (hmem d (Option.mem_toList.mp hd))
  refine hnet.sendStep hstep ?_
  rintro m _ ⟨packets, hsub, rfl⟩
  obtain ⟨k, phase, rcv, hinv⟩ := hnet.flows p m
  exact (hinv.lose (Set.union_subset_union_left _ hsub)).ok rfl

theorem toList_filterMap {α β : Type} (x : Option α) (f : α → Option β) :
    x.toList.filterMap f = (x.bind f).toList := by
  rcases x with _ | a
  · rfl
  · rcases h : f a with _ | b <;> simp [h]

theorem routeSignal (hg : s.Good cfg) :
    let r := (s.comm p).routeSignal (cfg.host p)
    ((s.setComm p r.1).setWire p (s.wire p ++ r.2.toList)).Good cfg := by
  rcases hr : (s.comm p).routeSignal (cfg.host p) with ⟨c, signal⟩
  obtain ⟨hsound, hside⟩ := routeSignal_spec hr
  dsimp only
  refine ⟨fun p' m => ?_, fun p' => ?_, fun p' => ?_⟩
  · obtain ⟨⟨out, hout, hsend⟩, out', hout', hrecv⟩ := hside m
    suffices heq : ((s.setComm p c).setWire p (s.wire p ++ signal.toList)).flow cfg p' m =
        s.flow cfg p' m by
      rw [heq]
      exact hg.flows p' m
    rcases Bool.eq_or_eq_not p' p with rfl | rfl
    · simp [State.flow, State.sender, State.receiver, State.setComm, State.setWire, State.assemble,
        hsend, hout, toList_filterMap]
    · rw [commId_eq] at hout'
      simp [State.flow, State.sender, State.receiver, State.setComm, State.setWire, State.assemble,
        hrecv, hout', toList_filterMap]
  · rcases Bool.eq_or_eq_not p' p with rfl | rfl
    · simpa [State.setComm, State.setWire] using (hsound (hg.sound p')).1
    · simpa [State.setComm, State.setWire] using hg.sound (!p)
  · rcases Bool.eq_or_eq_not p' p with rfl | rfl
    · intro x hx
      simp only [State.setWire, Function.update_self, List.mem_append, Option.mem_toList] at hx
      rcases hx with hx | hx
      · exact hg.tagged p' x hx
      · exact (hsound (hg.sound p')).2 x hx
    · simpa [State.setComm, State.setWire] using hg.tagged (!p)

theorem orders_eq_nil {k : ℕ} {phase : Phase} {rcv : Receiver}
    (hinv : (s.flow cfg p m).Inv cfg p m k phase rcv) (hb : .broken ∈ (s.flow cfg p m).bwd) :
    (s.sender cfg p m).orders = [] := by
  obtain ⟨-, start, stop, -, hbwd⟩ := hinv.of_broken hb
  rcases ho : (s.sender cfg p m).orders with _ | ⟨b, orders⟩
  · rfl
  · have hhead : b = .broken := by
      simp only [State.flow, State.assemble, ho, List.cons_append] at hbwd
      exact (List.cons.inj hbwd).1
    have hmem : b ∈ (s.sender cfg p m).orders := ho ▸ List.mem_cons_self ..
    obtain ⟨x, -, hx⟩ := List.mem_filterMap.mp hmem
    exact absurd (hhead ▸ hx) (x.bwd_ne_broken m)

theorem handleReceivedData (hg : s.Good cfg) {signal : Signal} {wire : List Signal}
    (hw : s.wire (!p) = signal :: wire) :
    Yields cfg.Short ((s.comm p).handleReceivedData (cfg.host p) signal)
      fun c => ((s.setComm p c).setWire (!p) wire).Good cfg := by
  have hfwd : ∀ m x, signal.fwd m = some x → (s.flow cfg (!p) m).fwd =
      x :: (wire.filterMap (Signal.fwd m) ++ (s.sender cfg (!p) m).out) := by
    intro m x hx
    simp [State.flow, State.assemble, hw, hx]
  have ht : signal.Tagged (cfg.host p).destCommId := hg.tagged (!p) signal (by simp [hw])
  have hdata := handleReceivedData_spec (c := s.comm p) signal ht fun m hx => by
    obtain ⟨k, phase, rcv, hinv⟩ := hg.flows (!p) m
    obtain ⟨ms, hms, -⟩ := hinv.handleFinish (hfwd m _ hx)
    rw [← receiver_not]
    exact ⟨ms, hms⟩
  have hmem : ∀ m, signal.bwd (cfg.host p).destCommId m = some .broken →
      .broken ∈ (s.flow cfg p m).bwd := fun m hm => by
    simp [State.flow, State.assemble, hw, hm]
  refine hdata.mono ?_ fun c ⟨hsound, hside⟩ => ⟨fun p' m => ?_, fun p' => ?_, fun p' => ?_⟩
  · rintro ⟨m, hm⟩
    obtain ⟨k, phase, rcv, hinv⟩ := hg.flows p m
    exact (hinv.of_broken (hmem m hm)).1
  · obtain ⟨hsend, hrecv⟩ := hside m
    rcases Bool.eq_or_eq_not p' p with rfl | rfl
    · obtain ⟨k, phase, rcv, hinv⟩ := hg.flows p' m
      by_cases hb : signal.bwd (cfg.host p').destCommId m = some .broken
      · -- the request was the token, so no order can stand before it
        have hnil : (s.sender cfg p' m).orders = [] := orders_eq_nil hinv (hmem m hb)
        have hbwd : (s.flow cfg p' m).bwd = .broken :: (wire.filterMap
            (Signal.bwd (cfg.host p').destCommId m) ++ (s.receiver cfg p' m).out) := by
          simp [State.flow, State.assemble, hw, hb, hnil]
        obtain ⟨phase', hinv'⟩ := hinv.loseRequest hbwd
        refine hinv'.ok ?_
        have hnil' : ((s.comm p').sendSide (cfg.host p') m).orders = [] := hnil
        simp [State.flow, State.sender, State.receiver, State.setComm, State.setWire,
          State.assemble, hsend, hb, Bwd.order, hnil']
      · refine hinv.ok ?_
        rcases hb' : signal.bwd (cfg.host p').destCommId m with _ | (req | _ | dest)
        case some.broken => exact absurd hb' hb
        all_goals simp [State.flow, State.sender, State.receiver, State.setComm, State.setWire,
          State.assemble, hsend, hw, hb', Bwd.order]
    · obtain ⟨k, phase, rcv, hinv⟩ := hg.flows (!p) m
      rw [← receiver_not] at hrecv
      have heq : ((s.setComm p c).setWire (!p) wire).flow cfg (!p) m =
          { s.assemble cfg (!p) m (s.sender cfg (!p) m)
              ((s.receiver cfg (!p) m).receive (signal.fwd m)) with
            fwd := wire.filterMap (Signal.fwd m) ++ (s.sender cfg (!p) m).out } := by
        rw [← hrecv]
        simp [State.flow, State.sender, State.receiver, State.setComm, State.setWire,
          State.assemble]
      rw [heq]
      rcases hx : signal.fwd m with _ | ⟨ms⟩ | _ | _
      · exact hinv.ok (by simp [State.flow, State.assemble, RecvSide.receive, hw, hx])
      · obtain ⟨phase', hinv'⟩ := hinv.handleStart (hfwd m _ hx)
        exact hinv'.ok rfl
      · obtain ⟨ms, hms, phase', hinv'⟩ := hinv.handleFinish (hfwd m _ hx)
        have hms' : (s.receiver cfg (!p) m).maxSeq = some ms := hms
        exact hinv'.ok (by simp [State.flow, State.assemble, RecvSide.receive, hms'])
      · obtain ⟨phase', hinv'⟩ := hinv.handleConfirm (hfwd m _ hx)
        exact hinv'.ok rfl
  · rcases Bool.eq_or_eq_not p' p with rfl | rfl
    · simpa [State.setComm, State.setWire] using hsound (hg.sound p')
    · simpa [State.setComm, State.setWire] using hg.sound (!p)
  · rcases Bool.eq_or_eq_not p' p with rfl | rfl
    · simpa [State.setComm, State.setWire] using hg.tagged p'
    · intro x hx
      simp only [State.setWire, Function.update_self] at hx
      exact hg.tagged (!p) x (hw ▸ .tail _ hx)

/-! ## The application -/

theorem setComm_frame (hg : s.Good cfg) (hsound : c.Sound (cfg.host p))
    (hsend : ∀ m, c.sendSide (cfg.host p) m = (s.comm p).sendSide (cfg.host p) m)
    (hrecv : ∀ m, c.recvSide (cfg.host p) m = (s.comm p).recvSide (cfg.host p) m) :
    (s.setComm p c).Good cfg := by
  refine hg.setComm hsound (fun m => ?_) fun m => ?_
  · rw [hsend]
    exact hg.flows p m
  · rw [hrecv, ← receiver_not]
    exact hg.flows (!p) m

theorem sendMeta (hg : s.Good cfg) (payload : List UInt8) :
    (s.setComm p ((s.comm p).sendMetaAsync (cfg.host p) payload)).Good cfg := by
  refine hg.setComm_frame ((hg.sound p).enqueue trivial) (fun m => ?_) fun m => ?_
  · rw [sendMetaAsync, sendSide_enqueue]
    simp [routed, Signal.fwd, Event.isStopConfirm]
  · rw [sendMetaAsync, recvSide_enqueue]
    simp [routed, Signal.bwd, Event.isStopRequest]

theorem postSend (hg : s.Good cfg) (m : UInt32)
    (hfree : (s.flow cfg p m).recvCompletions.length = s.sends p m) :
    ((s.setComm p ((s.comm p).postSend (cfg.host p) (cfg.sendMsg p m (s.sends p m)))).countSend
      p m).Good cfg := by
  refine ⟨fun p' k => ?_, fun p' => ?_, hg.tagged⟩
  · rw [flow_countSend]
    rcases Bool.eq_or_eq_not p' p with rfl | rfl
    · rw [flow_setComm, sendSide_postSend]
      by_cases hk : k = m
      · subst hk
        obtain ⟨j, phase, rcv, hinv⟩ := hg.flows p' k
        obtain ⟨phase', hinv'⟩ := hinv.postSend hfree
        refine hinv'.ok ?_
        rw [if_pos (by rfl), if_pos ⟨rfl, rfl⟩]
        simp only [State.flow, State.assemble, List.append_assoc]
        rfl
      · rw [if_neg fun h => hk h.symm, if_neg fun h => hk h.2]
        exact hg.flows p' k
    · rw [flow_setComm_not, recvSide_postSend, ← receiver_not, if_neg (by simp)]
      exact hg.flows (!p) k
  · rcases Bool.eq_or_eq_not p' p with rfl | rfl
    · simpa [State.setComm, State.countSend] using (hg.sound p').postSend _
    · simpa [State.setComm, State.countSend] using hg.sound (!p)

theorem postRecv (hg : s.Good cfg) (m : UInt32)
    (hfree : (s.flow cfg (!p) m).recvCompletions.length = s.recvs (!p) m) :
    ((s.setComm p ((s.comm p).postRecv (cfg.recvMsg (!p) m (s.recvs (!p) m))
      (cfg.target (!p) m (s.recvs (!p) m)))).countRecv (!p) m).Good cfg := by
  refine ⟨fun p' k => ?_, fun p' => ?_, hg.tagged⟩
  · rw [flow_countRecv]
    rcases Bool.eq_or_eq_not p' p with rfl | rfl
    · rw [flow_setComm, sendSide_postRecv, if_neg (by simp)]
      exact hg.flows p' k
    · rw [flow_setComm_not, recvSide_postRecv, ← receiver_not]
      by_cases hk : k = m
      · subst hk
        obtain ⟨j, phase, rcv, hinv⟩ := hg.flows (!p) k
        obtain ⟨rcv', hinv'⟩ := hinv.postRecv hfree
        refine hinv'.ok ?_
        rw [if_pos (by rfl), if_pos ⟨rfl, rfl⟩]
        rfl
      · rw [if_neg fun h => hk h.symm, if_neg fun h => hk h.2]
        exact hg.flows (!p) k
  · rcases Bool.eq_or_eq_not p' p with rfl | rfl
    · simpa [State.setComm, State.countRecv] using (hg.sound p').postRecv _ _
    · simpa [State.setComm, State.countRecv] using hg.sound (!p)

end State.Good

/-! ## Runs -/

theorem recvCompletions_eq (cfg : Config) (s : State) (p : Bool) (m : UInt32) :
    s.recvCompletions p m = (s.flow cfg p m).recvCompletions.length := by
  change _ = ((s.comm (!p)).cq.filterMap (Completion.recvBytes m)).length
  rw [List.length_filterMap_eq_countP]
  apply List.countP_congr
  intro x _
  cases x with
  | send => rfl
  | recv k _ _ => by_cases hk : k = m <;> simp [Completion.recvBytes, hk]

theorem sendCompletions_eq (cfg : Config) (s : State) (p : Bool) (m : UInt32) :
    s.sendCompletions p m = (s.flow cfg p m).sendCompletions := rfl

theorem State.init_good (cfg : Config) : State.init.Good cfg where
  flows p m := by
    have hempty : (State.init.flow cfg p m).data = ∅ := by
      ext x
      simp [State.flow, State.assemble, State.sender, sendSide, State.init, Communicator.init,
        flying]
    refine ⟨0, .closed, .idle, {
      completions := rfl
      control := rfl
      sends := rfl
      sendCompletions := rfl
      stopFlows := rfl
      stopConfirms := rfl
      stopRequests := rfl
      routable := fun h => absurd h (Nat.lt_irrefl 0)
      matches_rcv := ⟨rfl, rfl, rfl⟩
      fits := ⟨rfl, rfl⟩
      emitted := by simp [hempty]
      current := fun ho => ho.elim
      logged := ⟨List.nodup_nil, rfl, by simp [State.flow, State.assemble, State.receiver, recvSide,
        State.init, Communicator.init]⟩
      accepted := by simp [State.flow, State.assemble, State.receiver, recvSide, State.init,
        Communicator.init]
      completed := by simp }⟩
  sound p := ⟨rfl, by simp [State.init, Communicator.init], by simp [State.init, Communicator.init]⟩
  tagged p := by simp [State.init]

/-- The protocol holds again behind every step, and a step faults only with short segments. -/
theorem State.Good.step (hg : s.Good cfg) {a : Action} (ha : Clean s a) :
    Yields cfg.Short (step cfg s a) (State.Good cfg) := by
  cases a with
  | postSend p m =>
    refine .of_ok rfl (hg.postSend m ?_)
    rw [← recvCompletions_eq]
    exact ha.2
  | postRecv p m =>
    refine .of_ok rfl (hg.postRecv m ?_)
    rw [← recvCompletions_eq]
    exact ha.2
  | sendMeta p payload => exact .of_ok rfl (hg.sendMeta payload)
  | write p addr bytes =>
    exact .of_ok rfl (hg.setComm_frame { hg.sound p with } (fun _ => rfl) fun _ => rfl)
  | popSendRequest p =>
    obtain ⟨c, hc, hg'⟩ := hg.popSendRequest (p := p)
    exact .of_ok (by simp only [Mlt.step, hc]; rfl) hg'
  | pollSendingMessages p throttled elapsed => exact .of_ok rfl (hg.pollSendingMessages _ _)
  | pollRetransmitRequest p throttled elapsed =>
    exact (hg.pollRetransmitRequest throttled elapsed).bind fun _ hg' => .of_ok rfl hg'
  | pollPriorityNotification p =>
    exact hg.pollPriorityNotification.bind fun _ hg' => .of_ok rfl hg'
  | onSendReady p tos accepted => exact .of_ok rfl (hg.onSendReady tos accepted)
  | routeSignal p =>
    rw [Mlt.step]
    split_ifs
    · exact .of_ok rfl hg
    · exact .of_ok rfl hg.routeSignal
  | handleReceivedData p =>
    rw [Mlt.step]
    split_ifs
    · exact .of_ok rfl hg
    rcases hw : s.wire (!p) with _ | ⟨signal, wire⟩
    · exact .of_ok rfl hg
    · exact (hg.handleReceivedData hw).bind fun _ hg' => .of_ok rfl hg'
  | handleReceive p i rate =>
    rcases hd : (s.net (!p))[i]? with _ | d
    · exact .of_ok (by simp only [Mlt.step, hd]) hg
    · obtain ⟨c, hc, hg'⟩ := hg.handleReceive (List.mem_of_getElem? hd) rate
      exact .of_ok (by simp only [Mlt.step, hd, hc]; rfl) hg'
  | lose p i =>
    exact .of_ok rfl (hg.setNet fun d hd => .inl (List.mem_of_mem_eraseIdx hd))
  | pollReceiveRequest p =>
    obtain ⟨c, hc, hg'⟩ := hg.pollReceiveRequest ha
    exact .of_ok (by simp only [Mlt.step, hc]; rfl) hg'
  | pollReceivingNotification p =>
    obtain ⟨c, hc, hg'⟩ := hg.pollReceivingNotification (p := p)
    exact .of_ok (by simp only [Mlt.step, hc]; rfl) hg'

theorem State.good_of_reachable (h : (machine cfg).Reachable Clean s) : s.Good cfg :=
  h.invariant (State.init_good cfg) fun _ _ _ hg ha hs => (hg.step ha).of_eq_ok hs

theorem step_counts {s' : State} {a : Action} (h : step cfg s a = .ok s') :
    (s'.sends = match a with
      | .postSend p m => Function.update s.sends p (Function.update (s.sends p) m (s.sends p m + 1))
      | _ => s.sends) ∧
    s'.recvs = match a with
      | .postRecv p m =>
        Function.update s.recvs (!p) (Function.update (s.recvs (!p)) m (s.recvs (!p) m + 1))
      | _ => s.recvs := by
  cases a with
  | postSend | postRecv | sendMeta | write | pollSendingMessages | onSendReady | lose =>
    cases h
    exact ⟨rfl, rfl⟩
  | routeSignal p =>
    rw [step] at h
    split_ifs at h <;> cases h <;> exact ⟨rfl, rfl⟩
  | popSendRequest | pollRetransmitRequest | pollPriorityNotification | pollReceiveRequest
  | pollReceivingNotification =>
    obtain ⟨c, -, hs'⟩ := bind_eq_ok.mp h
    cases hs'
    exact ⟨rfl, rfl⟩
  | handleReceivedData p =>
    rw [step] at h
    split_ifs at h
    · cases h
      exact ⟨rfl, rfl⟩
    split at h
    · cases h
      exact ⟨rfl, rfl⟩
    · obtain ⟨c, -, hs'⟩ := bind_eq_ok.mp h
      cases hs'
      exact ⟨rfl, rfl⟩
  | handleReceive p i rate =>
    rw [step] at h
    split at h
    · cases h
      exact ⟨rfl, rfl⟩
    · obtain ⟨c, -, hs'⟩ := bind_eq_ok.mp h
      cases hs'
      exact ⟨rfl, rfl⟩

theorem update_count_le {f : Bool → UInt32 → ℕ} (hf : ∀ p m, f p m ≤ 1) {p' : Bool} {m' : UInt32}
    (h0 : f p' m' = 0) (p : Bool) (m : UInt32) :
    Function.update f p' (Function.update (f p') m' (f p' m' + 1)) p m ≤ 1 := by
  by_cases hp : p = p'
  · subst hp
    rw [Function.update_self]
    by_cases hm : m = m'
    · subst hm
      rw [Function.update_self, h0]
    · rw [Function.update_of_ne hm]
      exact hf p m
  · rw [Function.update_of_ne hp]
    exact hf p m

theorem once_counts (h : (machine cfg).Reachable Once s) :
    (∀ p m, s.sends p m ≤ 1) ∧ ∀ p m, s.recvs p m ≤ 1 := by
  refine h.invariant (P := fun s => (∀ p m, s.sends p m ≤ 1) ∧ ∀ p m, s.recvs p m ≤ 1)
    ⟨fun _ _ => Nat.zero_le 1, fun _ _ => Nat.zero_le 1⟩ fun s a s' hle ha hs => ?_
  obtain ⟨hsends, hrecvs⟩ := step_counts hs
  rw [hsends, hrecvs]
  cases a with
  | postSend => exact ⟨update_count_le hle.1 ha, hle.2⟩
  | postRecv => exact ⟨hle.1, update_count_le hle.2 ha⟩
  | _ => exact hle

theorem Phase.started_le (k : ℕ) (phase : Phase) : phase.started k ≤ k + 1 := by
  unfold Phase.started
  split <;> omega

/-- With one message for each id nothing can be mistaken for a part of another message. -/
theorem clean_of_once (hg : s.Good cfg) (hrecvs : ∀ p m, s.recvs p m ≤ 1) {a : Action}
    (ha : Once s a) : Clean s a := by
  cases a with
  | postSend p m =>
    obtain ⟨k, phase, rcv, hinv⟩ := hg.flows p m
    have hs : phase.sends k = 0 := hinv.sends.symm.trans ha
    have hc := hinv.sendCompletions
    have hl := hinv.completions
    refine ⟨?_, ?_⟩
    · rw [sendCompletions_eq cfg, hc, show s.sends p m = 0 from ha]
      cases phase <;> simp_all [Phase.sends, Phase.stops]
    · rw [recvCompletions_eq cfg, hl, show s.sends p m = 0 from ha]
      cases phase <;> simp_all [Phase.sends]
  | postRecv p m =>
    obtain ⟨k, phase, rcv, hinv⟩ := hg.flows (!p) m
    have ha' : s.recvs (!p) m = 0 := ha
    have hm := hinv.matches_rcv
    have hc := hinv.sendCompletions
    have hl := hinv.completions
    have hfits := hinv.fits
    cases rcv with
    | idle =>
      obtain rfl : k = 0 := hm.2.2.symm.trans ha'
      refine ⟨?_, ?_⟩
      · rw [sendCompletions_eq cfg, hc, ha']
        cases phase with
        | closed | active => rfl
        | stopping | confirmed => cases hfits
      · rw [recvCompletions_eq cfg, hl, ha']
    | posted => exact absurd (hm.2.2.symm.trans ha') (by simp)
    | opened => exact absurd (hm.2.1.symm.trans ha') (by simp)
  | pollReceiveRequest p =>
    rintro ⟨msg, target⟩ hx
    obtain ⟨k, phase, rcv, hinv⟩ := hg.flows (!p) msg.msgId
    have hdata : ∀ x ∈ (s.flow cfg (!p) msg.msgId).data, x.2 = msg.use := by
      obtain ⟨rest, hq⟩ := List.head?_eq_some_iff.mp hx
      have hp : (s.flow cfg (!p) msg.msgId).posted =
          (msg, target) :: rest.filter (·.1.msgId = msg.msgId) := by
        change (s.receiver cfg (!p) msg.msgId).posted = _
        rw [receiver_not]
        simp [recvSide, hq]
      obtain ⟨rfl, hmsg, -⟩ := hinv.of_posted hp
      have hk : s.recvs (!p) msg.msgId = k + 1 := hinv.matches_rcv.2.2
      have hle := hrecvs (!p) msg.msgId
      intro x hx
      have hlt := (hinv.emitted x hx).1
      have hstart := phase.started_le k
      have huse : msg.use = k := congrArg (fun y => y.1.use) hmsg
      omega
    exact ⟨fun y hy hm => hdata y (.inl ⟨hy, hm⟩),
      fun d hd hm => hdata (d.pkt, d.use) (.inr ⟨d, hd, rfl, hm⟩)⟩
  | _ => trivial

theorem reachable_clean (h : (machine cfg).Reachable Once s) : (machine cfg).Reachable Clean s :=
  h.mono fun _ _ hr hr' ha =>
    clean_of_once (State.good_of_reachable hr') (once_counts hr).2 ha

end Mlt
