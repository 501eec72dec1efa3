import MltByteps.Mlt.FlowView

/-! What the sending thread does to the flows of its communicator: it leaves their
receivers alone and moves at most one of its own flows at a time. -/

namespace Mlt

/-- A `StopRequest` names the communicator it comes from. -/
def Signal.Tagged (self : ℤ) : Signal → Prop
  | .stopRequest _ commId => commId = self
  | _ => True

namespace Communicator

structure Sound (h : Host) (c : Communicator) : Prop where
  free : c.backlogFreeList = []
  used : ∀ m vec, c.backlogUsedMap.lookup m = some vec → vec = []
  tagged : ∀ x ∈ c.txQueue, x.2.Tagged h.packetizer.commId

variable {h : Host} {c : Communicator} (m : UInt32)

theorem Sound.enqueue (hs : c.Sound h) {dest : ℤ} {signal : Signal}
    (ht : signal.Tagged h.packetizer.commId) : (c.enqueue dest signal).Sound h where
  free := hs.free
  used := hs.used
  tagged x hx := by
    rcases List.mem_append.mp hx with hx | hx
    · exact hs.tagged x hx
    · rw [List.mem_singleton.mp hx]
      exact ht

theorem routed_fwd_flowStart (k : UInt32) (size ms : ℕ) :
    routed h.destCommId (Signal.fwd m) (h.destCommId, .flowStart k size ms) =
      if k = m then some (.start ms) else none := if_pos rfl

theorem sendSide_postSend (msg : LtMessage) : (c.postSend h msg).sendSide h m =
    if msg.msgId = m then
      { c.sendSide h m with
        queued := (c.sendSide h m).queued ++ [.new msg]
        out := (c.sendSide h m).out ++ [.start (h.packetizer.getMaxSeqNum msg.size)] }
    else c.sendSide h m := by
  have hq : (c.postSend h msg).sendSide h m =
      { (c.enqueue h.destCommId (.flowStart msg.msgId (u32 msg.size)
          (h.packetizer.getMaxSeqNum msg.size))).sendSide h m with
        queued := (c.srQueue ++ [LtMessageExt.new msg]).filter (·.msgId = m) } := rfl
  rw [hq, sendSide_enqueue, routed_fwd_flowStart, List.filter_append]
  split_ifs with hm
  · simp [hm, sendSide, Event.isStopConfirm, LtMessageExt.new]
  · simp [hm, sendSide, Event.isStopConfirm, LtMessageExt.new]

theorem recvSide_postSend (msg : LtMessage) :
    (c.postSend h msg).recvSide h m = c.recvSide h m := by
  have hr : (c.postSend h msg).recvSide h m = (c.enqueue h.destCommId (.flowStart msg.msgId
    (u32 msg.size) (h.packetizer.getMaxSeqNum msg.size))).recvSide h m := rfl
  rw [hr, recvSide_enqueue]
  simp [routed, Signal.bwd, Event.isStopRequest]

theorem Sound.postSend (hs : c.Sound h) (msg : LtMessage) : (c.postSend h msg).Sound h :=
  have hs' : (c.enqueue h.destCommId (.flowStart msg.msgId (u32 msg.size)
      (h.packetizer.getMaxSeqNum msg.size))).Sound h := hs.enqueue trivial
  { hs' with }

/-- A step of the sending thread from `c` to `c'` that does to each flow nothing, or what `R`
says. -/
structure SendStep (h : Host) (R : UInt32 → SendSide → SendSide → Prop) (c c' : Communicator) :
    Prop where
  recvSide_eq : ∀ m, c'.recvSide h m = c.recvSide h m
  sound : c.Sound h → c'.Sound h
  sendSide_eq : ∀ m, c'.sendSide h m = c.sendSide h m ∨ R m (c.sendSide h m) (c'.sendSide h m)

theorem SendStep.refl {R : UInt32 → SendSide → SendSide → Prop} : SendStep h R c c :=
  ⟨fun _ => rfl, id, fun _ => .inl rfl⟩

/-! ## Send requests -/

theorem popSendRequest_spec
    (hfree : ∀ m e rest, (c.sendSide h m).queued = e :: rest → (c.sendSide h m).sending = none) :
    ∃ c', c.popSendRequest = .ok c' ∧ SendStep h (fun _ x x' => ∃ e rest, x.queued = e :: rest ∧
      x' = { x with queued := rest, sending := some e }) c c' := by
  unfold popSendRequest
  rcases hq : c.srQueue with _ | ⟨msg, srQueue⟩
  · exact ⟨c, rfl, .refl⟩
  · have hhead : (c.sendSide h msg.msgId).queued =
        msg :: srQueue.filter (·.msgId = msg.msgId) := by
      simp [sendSide, hq]
    have hnone : c.sendingMsgs.lookup msg.msgId = none := hfree _ _ _ hhead
    dsimp only
    rw [require_bind _ hnone]
    refine ⟨_, rfl, fun _ => rfl, fun hs => ⟨hs.free, hs.used, hs.tagged⟩, fun m => ?_⟩
    by_cases hm : msg.msgId = m
    · subst hm
      refine .inr ⟨msg, _, hhead, ?_⟩
      simp [sendSide]
    · left
      simp [sendSide, hq, hm, Ne.symm hm]

/-! ## Routing a packet -/

theorem sendSide_routePacket (pkt : GradPacket) (use : ℕ) (fin : Bool)
    (hdst : (pkt.dstCommId.toNat : ℤ) = h.destCommId) :
    (c.routePacket pkt use fin).sendSide h m =
      if pkt.msgId = m then
        { c.sendSide h m with
          packets := insert (pkt, use) (c.sendSide h m).packets
          out := (c.sendSide h m).out ++ if fin then [.finish] else [] }
      else c.sendSide h m := by
  have hpk : {x | x ∈ c.txPackets ++ [(pkt, use)] ∧ x.1.msgId = m} =
      if pkt.msgId = m then insert (pkt, use) {x | x ∈ c.txPackets ∧ x.1.msgId = m}
      else {x | x ∈ c.txPackets ∧ x.1.msgId = m} := by
    ext x
    split_ifs with hm
    · simp only [List.mem_append, List.mem_singleton, Set.mem_ofPred_eq, Set.mem_insert_iff]
      constructor
      · rintro ⟨hx | rfl, hxm⟩
        · exact .inr ⟨hx, hxm⟩
        · exact .inl rfl
      · rintro (rfl | ⟨hx, hxm⟩)
        · exact ⟨.inr rfl, hm⟩
        · exact ⟨.inl hx, hxm⟩
    · simp only [List.mem_append, List.mem_singleton, Set.mem_ofPred_eq]
      constructor
      · rintro ⟨hx | rfl, hxm⟩
        · exact ⟨hx, hxm⟩
        · exact absurd hxm hm
      · exact fun hx => ⟨.inl hx.1, hx.2⟩
  have hbase : ({ c with txPackets := c.txPackets ++ [(pkt, use)] } : Communicator).sendSide h m =
      { c.sendSide h m with
        packets := if pkt.msgId = m then insert (pkt, use) (c.sendSide h m).packets
          else (c.sendSide h m).packets } := by
    simp only [sendSide, hpk]
  unfold routePacket
  cases fin with
  | false =>
    simp only [Bool.false_eq_true, if_false, hbase, List.append_nil]
    split_ifs <;> rfl
  | true =>
    simp only [if_true, sendSide_enqueue, hbase, hdst, routed, Signal.fwd, Event.isStopConfirm,
      Bool.toNat_false, Nat.add_zero]
    split_ifs with hm <;> simp

theorem recvSide_routePacket (pkt : GradPacket) (use : ℕ) (fin : Bool) :
    (c.routePacket pkt use fin).recvSide h m = c.recvSide h m := by
  unfold routePacket
  cases fin with
  | false => rfl
  | true =>
    simp only [if_true, recvSide_enqueue]
    simp [routed, Signal.bwd, Event.isStopRequest, recvSide]

theorem Sound.routePacket (hs : c.Sound h) (pkt : GradPacket) (use : ℕ) (fin : Bool) :
    (c.routePacket pkt use fin).Sound h := by
  have hbase : ({ c with txPackets := c.txPackets ++ [(pkt, use)] } : Communicator).Sound h :=
    { hs with }
  unfold Communicator.routePacket
  cases fin with
  | false => exact hbase
  | true => exact hbase.enqueue trivial

/-! ## Sending -/

/-- Packet `q` of a message of this host, on its way to the peer. -/
structure IsPacketTo (h : Host) (size q : ℕ) (pkt : GradPacket) : Prop where
  isPacket : h.packetizer.IsPacket size q pkt
  dst_eq : pkt.dstCommId = UInt16.ofInt h.destCommId
  src_eq : pkt.srcCommId = UInt16.ofInt h.packetizer.commId

structure Unsent (h : Host) (key : UInt32) (e : LtMessageExt) (q : ℕ) : Prop where
  msgId_eq : e.msgId = key
  size_lt : e.size < 2 ^ 32
  bytes_eq : e.bytes = q * h.packetizer.bound
  lt_size : q * h.packetizer.bound < e.size

theorem Unsent.partitionOne {key : UInt32} {e : LtMessageExt} {q : ℕ} (hun : Unsent h key e q)
    (hv : h.packetizer.Valid) :
    ∃ pkt, h.packetizer.partitionOne h.destCommId e h.prioFunc =
      (pkt, { e with bytes := min ((q + 1) * h.packetizer.bound) e.size }) ∧
      pkt.msgId = key ∧ IsPacketTo h e.size q pkt := by
  obtain ⟨h1, h2, h3, h4⟩ :=
    Packetizer.isPacket_packet hv h.destCommId hun.size_lt hun.lt_size
  exact ⟨_, Packetizer.partitionOne_eq hv h.destCommId e h.prioFunc hun.size_lt hun.lt_size
    hun.bytes_eq, hun.msgId_eq, ⟨h1, h2, h3, h4⟩, rfl, rfl⟩

/-- One packet of a message in `sending_msgs`; the last one moves the message on. -/
def SendsPacket (h : Host) (m : UInt32) (x x' : SendSide) : Prop :=
  ∃ e q pkt, x.sending = some e ∧ Unsent h m e q ∧ IsPacketTo h e.size q pkt ∧
    (q < h.packetizer.getMaxSeqNum e.size ∧ x' = { x with
        sending := some { e with bytes := (q + 1) * h.packetizer.bound }
        packets := insert (pkt, e.use) x.packets } ∨
      q = h.packetizer.getMaxSeqNum e.size ∧ x' = { x with
        sending := none
        retransmitting := some (x.retransmitting.getD { e with bytes := e.size })
        out := x.out ++ [.finish]
        packets := insert (pkt, e.use) x.packets })

theorem routePacket_sendingMsgs (pkt : GradPacket) (use : ℕ) (fin : Bool) :
    (c.routePacket pkt use fin).sendingMsgs = c.sendingMsgs := by
  cases fin <;> rfl

theorem routePacket_retransmittingMsgs (pkt : GradPacket) (use : ℕ) (fin : Bool) :
    (c.routePacket pkt use fin).retransmittingMsgs = c.retransmittingMsgs := by
  cases fin <;> rfl

theorem routePacket_retransmitReqs (pkt : GradPacket) (use : ℕ) (fin : Bool) :
    (c.routePacket pkt use fin).retransmitReqs = c.retransmitReqs := by
  cases fin <;> rfl

theorem routePacket_txPackets (pkt : GradPacket) (use : ℕ) (fin : Bool) :
    (c.routePacket pkt use fin).txPackets = c.txPackets ++ [(pkt, use)] := by
  cases fin <;> rfl

theorem routePacket_cq (pkt : GradPacket) (use : ℕ) (fin : Bool) :
    (c.routePacket pkt use fin).cq = c.cq := by
  cases fin <;> rfl

theorem sendSide_meter (elapsed : Bool) (nbytes : ℕ) :
    (c.meter elapsed nbytes).sendSide h m = c.sendSide h m := rfl

theorem recvSide_meter (elapsed : Bool) (nbytes : ℕ) :
    (c.meter elapsed nbytes).recvSide h m = c.recvSide h m := rfl

theorem Sound.meter (hs : c.Sound h) (elapsed : Bool) (nbytes : ℕ) :
    (c.meter elapsed nbytes).Sound h := { hs with }

theorem recvSide_putSending (key : UInt32) (msg : LtMessageExt) :
    (c.putSending key msg).recvSide h m = c.recvSide h m := by
  unfold putSending
  split_ifs <;> rfl

theorem Sound.putSending (hs : c.Sound h) (key : UInt32) (msg : LtMessageExt) :
    (c.putSending key msg).Sound h := by
  unfold Communicator.putSending
  split_ifs <;> exact { hs with }

theorem sendSide_putSending (msg : LtMessageExt) : (c.putSending msg.msgId msg).sendSide h m =
    if msg.msgId = m then
      if msg.size ≤ msg.bytes then
        { c.sendSide h m with
          sending := none
          retransmitting := some ((c.sendSide h m).retransmitting.getD msg) }
      else { c.sendSide h m with sending := some msg }
    else c.sendSide h m := by
  unfold putSending
  split_ifs with hle hm hm
  · subst hm
    simp [sendSide, IntMap.lookup_insertNode]
  · simp [sendSide, IntMap.lookup_insertNode, Ne.symm hm]
  · subst hm
    simp [sendSide]
  · simp [sendSide, Ne.symm hm]

theorem pollSendingMessages_eq {key : UInt32} {e : LtMessageExt} {q : ℕ} (hv : h.packetizer.Valid)
    (hun : Unsent h key e q) (hb : c.sendingMsgs.begin? = some (key, e)) (elapsed : Bool) :
    ∃ pkt, pkt.msgId = key ∧ IsPacketTo h e.size q pkt ∧
      c.pollSendingMessages h false elapsed =
        ((c.routePacket pkt e.use (decide (q = h.packetizer.getMaxSeqNum e.size))).meter elapsed
          (h.packetizer.getBytes e)).putSending key
          { e with bytes := min ((q + 1) * h.packetizer.bound) e.size } := by
  obtain ⟨pkt, hpart, hmid, hto⟩ := hun.partitionOne hv
  have hlast : (pkt.isLast != 0) = decide (q = h.packetizer.getMaxSeqNum e.size) := by
    rw [hto.isPacket.isLast_eq]
    split_ifs with hq
    · simp [hq]
    · simp [hq]
  refine ⟨pkt, hmid, hto, ?_⟩
  unfold pollSendingMessages
  rw [hb]
  dsimp only
  rw [if_neg (by simp), hpart, hlast]

theorem pollSendingMessages_spec (hv : h.packetizer.Valid)
    (hdest : ((UInt16.ofInt h.destCommId).toNat : ℤ) = h.destCommId) (throttled elapsed : Bool)
    (hsending : ∀ key e, c.sendingMsgs.lookup key = some e → ∃ q, Unsent h key e q) :
    SendStep h (SendsPacket h) c (c.pollSendingMessages h throttled elapsed) := by
  rcases hb : c.sendingMsgs.begin? with _ | ⟨key, e⟩
  · simp only [pollSendingMessages, hb]
    exact .refl
  cases throttled
  case true =>
    simp only [pollSendingMessages, hb, if_true]
    exact .refl
  have hlook := IntMap.lookup_of_begin? hb
  obtain ⟨q, hun⟩ := hsending key e hlook
  obtain ⟨pkt, hmid, hto, hpoll⟩ := pollSendingMessages_eq hv hun hb elapsed
  obtain rfl := hun.msgId_eq
  have hpos : 0 < e.size := Nat.zero_lt_of_lt hun.lt_size
  have hdst : (pkt.dstCommId.toNat : ℤ) = h.destCommId := by rw [hto.dst_eq, hdest]
  have hmax := (Packetizer.le_getMaxSeqNum_iff hv hpos hun.size_lt).mpr hun.lt_size
  have hnext := Packetizer.min_succ_lt_iff (q := q) hv hpos hun.size_lt
  rw [hpoll]
  generalize h.packetizer.getBytes e = nbytes
  refine ⟨fun m => ?_, fun hs => ((hs.routePacket pkt e.use _).meter elapsed nbytes).putSending _ _,
    fun m => ?_⟩
  · rw [recvSide_putSending, recvSide_meter, recvSide_routePacket]
  have hput := sendSide_putSending (h := h) (c := (c.routePacket pkt e.use
    (decide (q = h.packetizer.getMaxSeqNum e.size))).meter elapsed nbytes) m
    { e with bytes := min ((q + 1) * h.packetizer.bound) e.size }
  dsimp only at hput
  rw [hput, sendSide_meter, sendSide_routePacket m pkt e.use _ hdst, hmid]
  by_cases hm : e.msgId = m
  · right
    simp only [if_pos hm]
    subst hm
    refine ⟨e, q, pkt, hlook, hun, hto, ?_⟩
    by_cases hqm : q = h.packetizer.getMaxSeqNum e.size
    · have hend : min ((q + 1) * h.packetizer.bound) e.size = e.size := by omega
      refine .inr ⟨hqm, ?_⟩
      rw [hend, if_pos le_rfl, decide_eq_true hqm, if_pos rfl]
    · have hend := Packetizer.min_succ_eq hv hpos hun.size_lt
        (by omega : q + 1 ≤ h.packetizer.getMaxSeqNum e.size)
      refine .inl ⟨by omega, ?_⟩
      rw [if_neg (by omega), decide_eq_false hqm, hend, if_neg (by simp), List.append_nil]
  · left
    rw [if_neg hm, if_neg hm]

/-! ## Sending again -/

variable {cut : Prop}

/-- A request with `l` still to go, on a message that has the packets it asks for. -/
structure Resendable (h : Host) (cut : Prop) (key : UInt32) (e : LtMessageExt)
    (hdr : RetransmitRequest) (state : RetransmitState) (l : List ℕ) : Prop where
  commId_eq : hdr.commId = h.destCommId
  hdr_msgId_eq : hdr.msgId = key
  msgId_eq : e.msgId = key
  size_pos : 0 < e.size
  size_lt : e.size < 2 ^ 32
  cursor : hdr.Cursor cut state l
  le_max : ∀ q ∈ l, q ≤ h.packetizer.getMaxSeqNum e.size

theorem toInt32_of_lt {n : ℕ} (hn : n < 2 ^ 31) : toInt32 n = n := by
  unfold toInt32
  rw [if_pos (by omega)]
  omega

theorem partitionOneBySeq_to (hv : h.packetizer.Valid) {e : LtMessageExt} (hpos : 0 < e.size)
    (hlt : e.size < 2 ^ 32) {q : ℕ} (hq : q ≤ h.packetizer.getMaxSeqNum e.size) :
    ∃ pkt, h.packetizer.partitionOneBySeq h.destCommId e h.prioFunc (toInt32 q) = pkt ∧
      pkt.msgId = e.msgId ∧ IsPacketTo h e.size q pkt := by
  have hq' := (Packetizer.le_getMaxSeqNum_iff hv hpos hlt).mp hq
  have hmax := Packetizer.getMaxSeqNum_lt hv hpos hlt
  obtain ⟨h1, h2, h3, h4⟩ := Packetizer.isPacket_packet hv h.destCommId hlt hq'
  rw [toInt32_of_lt (by omega)]
  exact ⟨_, Packetizer.partitionOneBySeq_eq h.destCommId e h.prioFunc hlt hq', rfl,
    ⟨h1, h2, h3, h4⟩, rfl, rfl⟩

theorem recvSide_putRequest (key msgId : UInt32) (hdr : RetransmitRequest)
    (state : RetransmitState) :
    (c.putRequest key msgId hdr state).recvSide h m = c.recvSide h m := rfl

theorem Sound.putRequest (hs : c.Sound h) (key msgId : UInt32) (hdr : RetransmitRequest)
    (state : RetransmitState) : (c.putRequest key msgId hdr state).Sound h := { hs with }

theorem sendSide_putRequest (key : UInt32) (hdr : RetransmitRequest) (state : RetransmitState) :
    (c.putRequest key key hdr state).sendSide h m =
      if key = m then
        { c.sendSide h m with
          request := if state.blockNum = hdr.numBlocks then none else some (hdr, state) }
      else c.sendSide h m := by
  unfold putRequest
  by_cases hm : key = m
  · subst hm
    rw [if_pos rfl]
    split_ifs <;> simp [sendSide]
  · rw [if_neg hm]
    split_ifs <;> simp [sendSide, Ne.symm hm]

def ResendsPacket (h : Host) (cut : Prop) (m : UInt32) (x x' : SendSide) : Prop :=
  ∃ hdr state e rest pkt, x.request = some (hdr, state) ∧ x.retransmitting = some e ∧
    Resendable h cut m e hdr state (state.seqNum :: rest) ∧
    IsPacketTo h e.size state.seqNum pkt ∧
    (rest ≠ [] ∧ (∃ state', hdr.Cursor cut state' rest ∧ x' = { x with
        request := some (hdr, state')
        packets := insert (pkt, e.use) x.packets }) ∨
      rest = [] ∧ x' = { x with
        request := none
        out := x.out ++ [.finish]
        packets := insert (pkt, e.use) x.packets })

theorem pollRetransmitRequest_eq {key : UInt32} {hdr : RetransmitRequest} {state : RetransmitState}
    {e : LtMessageExt} {l : List ℕ} (hb : c.retransmitReqs.begin? = some (key, hdr, state))
    (hcomm : hdr.commId = h.destCommId) (hmsg : c.retransmittingMsgs.lookup hdr.msgId = some e)
    (hcur : hdr.Cursor cut state l) (elapsed : Bool) :
    ∃ rest, l = state.seqNum :: rest ∧
      Yields cut (c.pollRetransmitRequest h false elapsed) fun c' => ∃ state',
        c' = ((c.routePacket (h.packetizer.partitionOneBySeq h.destCommId e h.prioFunc
          (toInt32 state.seqNum)) e.use (decide (rest = []))).meter elapsed
          (h.packetizer.getBytes e)).putRequest key e.msgId hdr state' ∧
        hdr.After cut rest state' := by
  obtain ⟨rest, block, rfl, hnum, hblock, hlo, hhi, hfin, hadv⟩ := hcur.next
  refine ⟨rest, rfl, ?_⟩
  unfold pollRetransmitRequest
  rw [hb]
  dsimp only
  rw [require_bind _ hcomm.symm, hmsg]
  dsimp only
  rw [if_neg (by simp), require_bind _ hnum]
  refine hblock.bind fun b hb => ?_
  subst hb
  rw [require_bind _ ⟨hlo, hhi⟩]
  refine hadv.bind fun state' hafter => .of_ok rfl ⟨state', ?_, hafter⟩
  simp only [hfin, hcomm]

theorem pollRetransmitRequest_spec (hv : h.packetizer.Valid)
    (hdest : ((UInt16.ofInt h.destCommId).toNat : ℤ) = h.destCommId) (throttled elapsed : Bool)
    (hreq : ∀ key hdr state, c.retransmitReqs.lookup key = some (hdr, state) →
      ∃ e l, c.retransmittingMsgs.lookup key = some e ∧ Resendable h cut key e hdr state l) :
    Yields cut (c.pollRetransmitRequest h throttled elapsed)
      (SendStep h (ResendsPacket h cut) c) := by
  rcases hb : c.retransmitReqs.begin? with _ | ⟨key, hdr, state⟩
  · exact .of_ok (by simp only [pollRetransmitRequest, hb]) .refl
  have hlook := IntMap.lookup_of_begin? hb
  obtain ⟨e, l, hmsg, hres⟩ := hreq key hdr state hlook
  obtain rfl := hres.hdr_msgId_eq
  cases throttled
  case true =>
    refine .of_ok ?_ .refl
    unfold pollRetransmitRequest
    rw [hb]
    dsimp only
    rw [require_bind _ hres.commId_eq.symm, hmsg]
    rfl
  obtain ⟨rest, rfl, hpoll⟩ :=
    pollRetransmitRequest_eq hb hres.commId_eq hmsg hres.cursor elapsed
  obtain ⟨pkt, hpkt, hmid, hto⟩ := partitionOneBySeq_to hv hres.size_pos hres.size_lt
    (hres.le_max _ (List.mem_cons_self ..))
  have hdst : (pkt.dstCommId.toNat : ℤ) = h.destCommId := by rw [hto.dst_eq, hdest]
  rw [hpkt, hres.msgId_eq] at hpoll
  rw [hres.msgId_eq] at hmid
  generalize h.packetizer.getBytes e = nbytes at hpoll
  refine hpoll.mono id ?_
  rintro _ ⟨state', rfl, hend, hnext⟩
  refine ⟨fun m => ?_, fun hs =>
    ((hs.routePacket pkt e.use _).meter elapsed nbytes).putRequest _ _ _ _, fun m => ?_⟩
  · rw [recvSide_putRequest, recvSide_meter, recvSide_routePacket]
  rw [sendSide_putRequest, sendSide_meter, sendSide_routePacket m pkt e.use _ hdst, hmid]
  simp only [hend, decide_eq_true_eq]
  by_cases hm : hdr.msgId = m
  · right
    simp only [if_pos hm]
    subst hm
    refine ⟨hdr, state, e, rest, pkt, hlook, hmsg, hres, hto, ?_⟩
    by_cases hrest : rest = []
    · right
      simp [hrest]
    · left
      refine ⟨hrest, state', hnext hrest, ?_⟩
      simp [hrest]
  · left
    rw [if_neg hm, if_neg hm]

/-! ## Notifications -/

def TakesOrder (h : Host) (_ : UInt32) (x x' : SendSide) : Prop :=
  (∃ dest rest, x.orders = .stop dest :: rest ∧ x' = { x with
    orders := rest
    sending := none
    retransmitting := if x.sending = none then none else x.retransmitting
    request := if x.sending = none then none else x.request
    out := x.out ++ if dest = h.destCommId then [.confirm] else []
    stopFlows := x.stopFlows + 1
    stopConfirms := x.stopConfirms + 1
    completions := x.completions + 1 }) ∨
  ∃ req b rest, x.orders = .request req :: rest ∧ req.block 0 = .ok b ∧
    x' = { x with orders := rest, request := some (req, ⟨0, b.first⟩) }

theorem sendSide_eraseFlow (msgId : UInt32) : (c.eraseFlow msgId).sendSide h m =
    if msgId = m then
      { c.sendSide h m with
        sending := none
        retransmitting := if (c.sendSide h m).sending = none then none
          else (c.sendSide h m).retransmitting
        request := if (c.sendSide h m).sending = none then none else (c.sendSide h m).request }
    else c.sendSide h m := by
  unfold eraseFlow
  by_cases hm : msgId = m
  · subst hm
    rw [if_pos rfl]
    by_cases hs : c.sendingMsgs.lookup msgId = none
    · rw [if_pos hs]
      simp [sendSide, hs]
    · rw [if_neg hs]
      simp [sendSide, hs]
  · rw [if_neg hm]
    split_ifs <;> simp [sendSide, Ne.symm hm]

theorem recvSide_eraseFlow (msgId : UInt32) :
    (c.eraseFlow msgId).recvSide h m = c.recvSide h m := by
  unfold eraseFlow
  split_ifs <;> rfl

theorem Sound.eraseFlow (hs : c.Sound h) (msgId : UInt32) : (c.eraseFlow msgId).Sound h := by
  unfold Communicator.eraseFlow
  split_ifs <;> exact { hs with }

theorem sendSide_completeSend (msgId : UInt32) (commId : ℤ) :
    (c.completeSend msgId commId).sendSide h m =
      { c.sendSide h m with
        stopFlows := (c.sendSide h m).stopFlows + (decide (msgId = m)).toNat
        completions := (c.sendSide h m).completions + (decide (msgId = m)).toNat } := by
  by_cases hm : msgId = m <;>
    simp [completeSend, sendSide, List.countP_append, Event.isStopFlow, Event.isStopConfirm,
      Completion.isSend, hm]

theorem recvSide_completeSend (msgId : UInt32) (commId : ℤ) :
    (c.completeSend msgId commId).recvSide h m = c.recvSide h m := by
  simp [completeSend, recvSide, List.countP_append, Event.isStopRequest, Event.accepted,
    Completion.recvBytes]

theorem sendSide_stopFlow (flowId : ℕ) : (c.stopFlow flowId).sendSide h m =
    if UInt32.ofInt (decodeFlow flowId).2 = m then
      { c.sendSide h m with
        sending := none
        retransmitting := if (c.sendSide h m).sending = none then none
          else (c.sendSide h m).retransmitting
        request := if (c.sendSide h m).sending = none then none else (c.sendSide h m).request
        out := (c.sendSide h m).out ++
          if (decodeFlow flowId).1 = h.destCommId then [.confirm] else []
        stopFlows := (c.sendSide h m).stopFlows + 1
        stopConfirms := (c.sendSide h m).stopConfirms + 1
        completions := (c.sendSide h m).completions + 1 }
    else c.sendSide h m := by
  unfold stopFlow
  dsimp only
  rw [sendSide_completeSend, sendSide_enqueue, sendSide_eraseFlow]
  by_cases hm : UInt32.ofInt (decodeFlow flowId).2 = m
  · by_cases hd : (decodeFlow flowId).1 = h.destCommId <;>
      simp [hm, hd, routed, Signal.fwd, Event.isStopConfirm]
  · simp [hm, routed, Signal.fwd, Event.isStopConfirm]

theorem recvSide_stopFlow (flowId : ℕ) :
    (c.stopFlow flowId).recvSide h m = c.recvSide h m := by
  unfold stopFlow
  dsimp only
  rw [recvSide_completeSend, recvSide_enqueue, recvSide_eraseFlow]
  simp [routed, Signal.bwd, Event.isStopRequest]

theorem Sound.stopFlow (hs : c.Sound h) (flowId : ℕ) : (c.stopFlow flowId).Sound h :=
  have hs' : ((c.eraseFlow (UInt32.ofInt (decodeFlow flowId).2)).enqueue (decodeFlow flowId).1
      (.stopConfirm (UInt32.ofInt (decodeFlow flowId).2))).Sound h :=
    (hs.eraseFlow _).enqueue trivial
  { hs' with }

theorem pollPriorityNotification_spec
    (hreq : ∀ m req rest, (c.sendSide h m).orders = .request req :: rest →
      0 < req.numBlocks ∧ Yields cut (req.block 0) fun _ => True) :
    Yields cut c.pollPriorityNotification (SendStep h (TakesOrder h) c) := by
  unfold pollPriorityNotification
  rcases hq : c.priorityQueue with _ | ⟨flowId | req, rest⟩
  · exact .of_ok rfl .refl
  · refine .of_ok rfl ⟨fun m => recvSide_stopFlow m flowId,
      fun hs => Sound.stopFlow (c := { c with priorityQueue := rest }) { hs with } flowId,
      fun m => ?_⟩
    rw [sendSide_stopFlow]
    by_cases hm : UInt32.ofInt (decodeFlow flowId).2 = m
    · right
      left
      refine ⟨(decodeFlow flowId).1, rest.filterMap (PriorityNotification.bwd m), ?_, ?_⟩
      · simp [sendSide, hq, PriorityNotification.bwd, hm]
      · rw [if_pos hm]
        rfl
    · left
      rw [if_neg hm]
      simp [sendSide, hq, PriorityNotification.bwd, hm]
  · have hhead : (c.sendSide h req.msgId).orders =
        .request req :: rest.filterMap (PriorityNotification.bwd req.msgId) := by
      simp [sendSide, hq, PriorityNotification.bwd]
    obtain ⟨hpos, hreads⟩ := hreq _ _ _ hhead
    dsimp only
    unfold requestRetransmit
    rw [require_bind _ hpos]
    rcases hreads.symm with ⟨hcut, e, hfault⟩ | ⟨b, hblock, -⟩
    · exact .inr ⟨hcut, e, by rw [hfault]; rfl⟩
    rw [hblock, ok_bind]
    refine .of_ok rfl ⟨fun _ => rfl, fun hs => { hs with }, fun m => ?_⟩
    by_cases hm : req.msgId = m
    · subst hm
      refine .inr (.inr ⟨req, b, _, hhead, hblock, ?_⟩)
      simp [sendSide]
    · left
      simp [sendSide, hq, PriorityNotification.bwd, hm, Ne.symm hm]

/-! ## The UDP sockets -/

theorem onSendReady_spec (tos : UInt8) (accepted : Bool) :
    SendStep h (fun _ x x' => ∃ packets ⊆ x.packets, x' = { x with packets }) c
        (c.onSendReady tos accepted).1 ∧
      ∀ d ∈ (c.onSendReady tos accepted).2, (d.pkt, d.use) ∈ c.txPackets := by
  unfold onSendReady
  rcases hf : c.txPackets.find? (·.1.tos = tos) with _ | ⟨pkt, use⟩
  · simp only [hf]
    exact ⟨.refl, by simp⟩
  · simp only [hf]
    refine ⟨⟨fun _ => rfl, fun hs => { hs with }, fun m => .inr ⟨_, ?_, rfl⟩⟩, ?_⟩
    · exact fun x hx => ⟨List.mem_of_mem_eraseP hx.1, hx.2⟩
    · intro d hd
      split_ifs at hd
      · cases hd
        exact List.mem_of_find?_eq_some hf
      · simp at hd

end Communicator

end Mlt
