import MltByteps.Mlt.SenderView

/-! What the receiving thread and the reliable channel do to the flows of a communicator. -/

namespace Mlt

def RecvSide.receive : Option Fwd → RecvSide → RecvSide
  | none, y => y
  | some (.start ms), y => { y with maxSeq := some ms }
  | some .finish, y => { y with notes := y.notes ++ [.finish (y.maxSeq.getD 0)] }
  | some .confirm, y => { y with notes := y.notes ++ [.confirm], maxSeq := none }

namespace Communicator

variable {h : Host} {c : Communicator} (m : UInt32)

/-! ## Signals -/

theorem routeSignal_spec {c' : Communicator} {signal : Option Signal}
    (hr : c.routeSignal h = (c', signal)) :
    (c.Sound h → c'.Sound h ∧ ∀ x ∈ signal, x.Tagged h.packetizer.commId) ∧
      ∀ m, (∃ out, (c.sendSide h m).out = (signal.bind (Signal.fwd m)).toList ++ out ∧
          c'.sendSide h m = { c.sendSide h m with out }) ∧
        ∃ out, (c.recvSide h m).out =
            (signal.bind (Signal.bwd h.packetizer.commId m)).toList ++ out ∧
          c'.recvSide h m = { c.recvSide h m with out } := by
  unfold routeSignal at hr
  rcases hq : c.txQueue with _ | ⟨⟨dest, head⟩, txQueue⟩
  · rw [hq] at hr
    cases hr
    exact ⟨fun hs => ⟨hs, by simp⟩, fun m => ⟨⟨_, rfl, rfl⟩, _, rfl, rfl⟩⟩
  · rw [hq] at hr
    cases hr
    have hsel : ∀ (τ : Type) (sel : Signal → Option τ),
        c.txQueue.filterMap (routed h.destCommId sel) =
          ((if dest = h.destCommId then some head else none).bind sel).toList ++
            txQueue.filterMap (routed h.destCommId sel) := by
      intro τ sel
      rw [hq, List.filterMap_cons]
      by_cases hd : dest = h.destCommId
      · rcases hs : sel head with _ | x <;> simp [routed, hd, hs]
      · simp [routed, hd]
    refine ⟨fun hs => ⟨{ hs with tagged := fun x hx => hs.tagged x (hq ▸ .tail _ hx) }, ?_⟩,
      fun m => ⟨⟨_, hsel _ _, rfl⟩, _, hsel _ _, rfl⟩⟩
    intro x hx
    split_ifs at hx
    · cases hx
      exact hs.tagged _ (hq ▸ List.mem_cons_self ..)
    · simp at hx

theorem bwd_stopFlow (k : UInt32) :
    PriorityNotification.bwd m (.stopFlow (encodeFlow h.destCommId (msgInt k))) =
      Signal.bwd h.destCommId m (.stopRequest k h.destCommId) := by
  simp only [PriorityNotification.bwd, Signal.bwd, decodeFlow_snd, ofInt_msgInt]
  split_ifs with hk
  · rw [hk]
  · rfl

theorem handleReceivedData_spec (signal : Signal) (ht : signal.Tagged h.destCommId)
    (hmax : ∀ m, signal.fwd m = some .finish → ∃ ms, (c.recvSide h m).maxSeq = some ms) :
    Yields (∃ m, signal.bwd h.destCommId m = some .broken) (c.handleReceivedData h signal) fun c' =>
      (c.Sound h → c'.Sound h) ∧ ∀ m, c'.sendSide h m = { c.sendSide h m with
          orders := (c.sendSide h m).orders ++
            ((signal.bwd h.destCommId m).bind Bwd.order).toList } ∧
        c'.recvSide h m = (c.recvSide h m).receive (signal.fwd m) := by
  cases signal with
  | userData payload =>
    exact .of_ok rfl ⟨fun hs => { hs with }, fun m => ⟨by simp [sendSide, Signal.bwd], rfl⟩⟩
  | rateAdjustment rate =>
    exact .of_ok rfl ⟨id, fun m => ⟨by simp [Signal.bwd], rfl⟩⟩
  | flowStart k size ms =>
    refine .of_ok rfl ⟨fun hs => { hs with }, fun m => ⟨by simp [sendSide, Signal.bwd], ?_⟩⟩
    by_cases hk : k = m
    · subst hk
      simp [recvSide, Signal.fwd, RecvSide.receive]
    · simp [recvSide, Signal.fwd, RecvSide.receive, hk, Ne.symm hk]
  | flowFinish k =>
    obtain ⟨ms, hms⟩ := hmax k (by simp [Signal.fwd])
    have hlook : c.msgMaxSeq.lookup k = some ms := hms
    unfold handleReceivedData
    simp only [hlook]
    refine .of_ok rfl ⟨fun hs => { hs with }, fun m => ⟨by simp [sendSide, Signal.bwd], ?_⟩⟩
    by_cases hk : k = m
    · subst hk
      simp [recvSide, Signal.fwd, RecvSide.receive, ReceivingNotification.note, hlook]
    · simp [recvSide, Signal.fwd, RecvSide.receive, ReceivingNotification.note, hk]
  | retransmitRequest req =>
    unfold handleReceivedData
    dsimp only
    rcases hbody : receiveFrame (sentBytes req.outBuffer) with _ | body
    · refine .of_ok rfl ⟨fun hs => { hs with }, fun m => ⟨?_, rfl⟩⟩
      have harr : req.arrival = .broken := by simp only [RetransmitRequest.arrival, hbody]
      by_cases hk : req.msgId = m <;> simp [sendSide, Signal.bwd, Bwd.order, harr, hk]
    dsimp only
    rcases hdec : RetransmitRequest.decode body with e | req'
    · refine .inr ⟨⟨req.msgId, ?_⟩, e, rfl⟩
      simp [Signal.bwd, RetransmitRequest.arrival, hbody, hdec]
    · refine .of_ok rfl ⟨fun hs => { hs with }, fun m => ⟨?_, rfl⟩⟩
      have hid := RetransmitRequest.msgId_eq_of_decode hbody hdec
      have harr := RetransmitRequest.arrival_eq hbody hdec
      by_cases hk : req.msgId = m <;>
        simp [sendSide, Signal.bwd, Bwd.order, PriorityNotification.bwd, hid, hk, harr]
  | stopRequest k commId =>
    obtain rfl : commId = h.destCommId := ht
    unfold handleReceivedData
    dsimp only
    rw [require_bind _ rfl]
    refine .of_ok rfl ⟨fun hs => { hs with }, fun m => ⟨?_, rfl⟩⟩
    have hb := bwd_stopFlow (h := h) m k
    by_cases hk : k = m <;> simp [Signal.bwd, hk] at hb ⊢ <;> simp [sendSide, Bwd.order, hb]
  | stopConfirm k =>
    refine .of_ok rfl ⟨fun hs => { hs with }, fun m => ⟨by simp [sendSide, Signal.bwd], ?_⟩⟩
    by_cases hk : k = m
    · subst hk
      simp [recvSide, Signal.fwd, RecvSide.receive, ReceivingNotification.note]
    · simp [recvSide, Signal.fwd, RecvSide.receive, ReceivingNotification.note, hk, Ne.symm hk]

/-! ## Receive requests -/

/-- A step of the receiving thread from `c` to `c'` that does to each flow nothing, or what `R`
says. -/
structure RecvStep (h : Host) (R : UInt32 → RecvSide → RecvSide → Prop) (c c' : Communicator) :
    Prop where
  sendSide_eq : ∀ m, c'.sendSide h m = c.sendSide h m
  sound : c.Sound h → c'.Sound h
  recvSide_eq : ∀ m, c'.recvSide h m = c.recvSide h m ∨ R m (c.recvSide h m) (c'.recvSide h m)

theorem RecvStep.refl {R : UInt32 → RecvSide → RecvSide → Prop} : RecvStep h R c c :=
  ⟨fun _ => rfl, id, fun _ => .inl rfl⟩

theorem sendSide_putRecv (key : UInt32) (e : LtMessageExt) :
    (c.putRecv key e).sendSide h m = c.sendSide h m := rfl

theorem Sound.putRecv (hs : c.Sound h) (key : UInt32) (e : LtMessageExt) :
    (c.putRecv key e).Sound h := { hs with }

theorem recvSide_putRecv (key : UInt32) (e : LtMessageExt) :
    (c.putRecv key e).recvSide h m =
      if key = m then { c.recvSide h m with recv := some e } else c.recvSide h m := by
  unfold putRecv
  split_ifs with hm
  · simp [recvSide, hm]
  · simp [recvSide, Ne.symm hm]

theorem sendSide_postRecv (msg : LtMessage) (target : ℕ) :
    (c.postRecv msg target).sendSide h m = c.sendSide h m := rfl

theorem Sound.postRecv (hs : c.Sound h) (msg : LtMessage) (target : ℕ) :
    (c.postRecv msg target).Sound h := { hs with }

theorem recvSide_postRecv (msg : LtMessage) (target : ℕ) :
    (c.postRecv msg target).recvSide h m =
      if msg.msgId = m then
        { c.recvSide h m with posted := (c.recvSide h m).posted ++ [(msg, target)] }
      else c.recvSide h m := by
  split_ifs with hm <;> simp [postRecv, recvSide, hm]

def TakesReceive (c : Communicator) (m : UInt32) (y y' : RecvSide) : Prop :=
  ∃ msg target rest, c.rrQueue.head? = some (msg, target) ∧ msg.msgId = m ∧
    y.posted = (msg, target) :: rest ∧ y' = { y with
      posted := rest
      recv := some { LtMessageExt.new msg with bound := alignUp sizeofFloat target } }

theorem newRecvMsg_eq (hs : c.Sound h) (msg : LtMessage) :
    ∃ backlogUsedMap, newRecvMsg msg c = .ok (.new msg, { c with backlogUsedMap }) ∧
      ∀ m vec, backlogUsedMap.lookup m = some vec → vec = [] := by
  unfold newRecvMsg
  rcases hb : c.backlogUsedMap.lookup msg.msgId with _ | vec
  · exact ⟨_, rfl, hs.used⟩
  · obtain rfl := hs.used _ _ hb
    refine ⟨_, rfl, fun m vec hvec => ?_⟩
    rw [IntMap.lookup_insert_ite] at hvec
    split_ifs at hvec
    · cases hvec
      rfl
    · exact hs.used m vec hvec

theorem pollReceiveRequest_spec (hs : c.Sound h)
    (hfree : ∀ m x rest, (c.recvSide h m).posted = x :: rest → (c.recvSide h m).recv = none) :
    ∃ c', c.pollReceiveRequest = .ok c' ∧ RecvStep h (TakesReceive c) c c' := by
  unfold pollReceiveRequest
  rcases hq : c.rrQueue with _ | ⟨⟨msg, target⟩, rrQueue⟩
  · exact ⟨c, rfl, .refl⟩
  · have hhead : (c.recvSide h msg.msgId).posted =
        (msg, target) :: rrQueue.filter (·.1.msgId = msg.msgId) := by
      simp [recvSide, hq]
    have hnone : c.recvMsgs.lookup msg.msgId = none := hfree _ _ _ hhead
    have hs' : ({ c with rrQueue } : Communicator).Sound h := { hs with }
    obtain ⟨used, hnew, hused⟩ := newRecvMsg_eq hs' msg
    dsimp only
    rw [require_bind _ hnone, hnew, ok_bind]
    refine ⟨_, rfl, fun _ => rfl, fun _ => ⟨hs.free, hused, hs.tagged⟩, fun m => ?_⟩
    rw [recvSide_putRecv]
    by_cases hm : msg.msgId = m
    · subst hm
      refine .inr ⟨msg, target, _, by rw [hq]; rfl, rfl, hhead, ?_⟩
      rw [if_pos rfl]
      rfl
    · left
      rw [if_neg hm]
      simp [recvSide, hq, hm]

/-! ## The end of a round -/

def Asks (h : Host) (m : UInt32) (blocks : List Block) (y y' : RecvSide) : Prop :=
  ∃ x : Bwd, x.Asks h.packetizer.commId m blocks ∧ y' = { y with out := y.out ++ [x] }

/-- What `FinishFlow` does to its flow. -/
def EndsRound (h : Host) (m : UInt32) (ms : ℕ) (y y' : RecvSide) : Prop :=
  y.recv = none ∧ Asks h m [⟨0, ms + 1⟩] y y' ∨
    ∃ e, y.recv = some e ∧ (e.bound ≤ e.bytes ∧ y' = y ∨
      e.bytes < e.bound ∧ ∃ mgr : TreeBlockMgr, (∀ taken, e.blockMgr.Holds taken → mgr.Rep taken) ∧
        mgr.size = max e.blockMgr.size (ms + 1) ∧
        (mgr.tree = [] ∧ y' = { y with recv := some { e with blockMgr := mgr } } ∨
          mgr.tree ≠ [] ∧
            Asks h m mgr.tree { y with recv := some { e with blockMgr := mgr } } y'))

/-- What `ConfirmStop` does to its flow. -/
def ConfirmsStop (y y' : RecvSide) : Prop :=
  ∃ e, y.recv = some e ∧
    y' = { y with recv := none, completions := y.completions ++ [e.bytes] }

def TakesNote (h : Host) (m : UInt32) (y y' : RecvSide) : Prop :=
  (∃ ms rest, y.notes = .finish ms :: rest ∧ EndsRound h m ms { y with notes := rest } y') ∨
    ∃ rest, y.notes = .confirm :: rest ∧ ConfirmsStop { y with notes := rest } y'

theorem sendSide_ask (req : RetransmitRequest) :
    (c.enqueue h.destCommId (.retransmitRequest req)).sendSide h m = c.sendSide h m := by
  rw [sendSide_enqueue]
  simp [routed, Signal.fwd, Event.isStopConfirm]

theorem Sound.ask (hs : c.Sound h) (req : RetransmitRequest) :
    (c.enqueue h.destCommId (.retransmitRequest req)).Sound h := hs.enqueue trivial

theorem recvSide_ask (req : RetransmitRequest) :
    (c.enqueue h.destCommId (.retransmitRequest req)).recvSide h m =
      if req.msgId = m then
        { c.recvSide h m with out := (c.recvSide h m).out ++ [req.arrival] }
      else c.recvSide h m := by
  rw [recvSide_enqueue]
  split_ifs with hm <;> simp [routed, Signal.bwd, Event.isStopRequest, hm]

theorem carries_all (msgId : UInt32) (commId : ℤ) {ms : ℕ} (hms : ms + 1 < 2 ^ 32) :
    RetransmitRequest.Carries ⟨msgId, commId, u32 (sizeofBlock / sizeofBlock),
      (Block.mk 0 (u32 (ms + 1))).bytes⟩ False [⟨0, ms + 1⟩] := by
  rw [u32_of_lt hms]
  refine ⟨⟨sizeofBlock, ?_⟩, by simp, rfl, by simp [u32, sizeofBlock], by simp, by simpa using hms⟩
  rw [List.flatMap_singleton, List.take_of_length_le (Block.length_bytes _).le]

/-- The receiver of one flow changes as `R` says, and nothing else does. -/
structure Touches (h : Host) (k : UInt32) (R : RecvSide → RecvSide → Prop) (c c' : Communicator) :
    Prop where
  sendSide_eq : ∀ m, c'.sendSide h m = c.sendSide h m
  sound : c.Sound h → c'.Sound h
  other : ∀ m, k ≠ m → c'.recvSide h m = c.recvSide h m
  own : R (c.recvSide h k) (c'.recvSide h k)

theorem finishFlow_spec (hlo : -2 ^ 31 ≤ h.packetizer.commId) (hhi : h.packetizer.commId < 2 ^ 31)
    (msgId : UInt32) {ms : ℕ} (hms : ms + 1 < 2 ^ 32)
    (hrecv : ∀ e, (c.recvSide h msgId).recv = some e → e.bytes < e.bound →
      ∃ taken, e.blockMgr.Holds taken) :
    ∃ c', c.finishFlow h msgId ms = .ok c' ∧ Touches h msgId (EndsRound h msgId ms) c c' := by
  unfold finishFlow
  rcases hlook : c.recvMsgs.lookup msgId with _ | e
  · refine ⟨_, rfl, fun m => sendSide_ask m _, fun hs => hs.ask _, ?_, ?_⟩
    · intro m hm
      rw [recvSide_ask, if_neg hm]
    · have hcar := carries_all msgId h.packetizer.commId hms
      have hfits : RetransmitRequest.Fits _ := ⟨hlo, hhi, hcar.numBlocks_lt⟩
      refine .inl ⟨hlook, _, hfits.arrival_asks hcar, ?_⟩
      rw [recvSide_ask, if_pos rfl]
  · by_cases hfin : e.finishReceiving
    · simp only [if_pos hfin]
      exact ⟨c, rfl, fun _ => rfl, id, fun _ _ => rfl,
        .inr ⟨e, hlook, .inl ⟨of_decide_eq_true hfin, rfl⟩⟩⟩
    · have hlt : e.bytes < e.bound := by simpa [LtMessageExt.finishReceiving] using hfin
      obtain ⟨taken, hholds⟩ := hrecv e hlook hlt
      obtain ⟨mgr, hgrow, hrep, hsize⟩ := hholds.growTo hms
      have hall : ∀ t, e.blockMgr.Holds t → mgr.Rep t := by
        intro t ht
        obtain ⟨mgr', hgrow', hrep', -⟩ := ht.growTo hms
        rw [hgrow] at hgrow'
        cases hgrow'
        exact hrep'
      simp only [if_neg hfin, hgrow, ok_bind]
      by_cases htree : mgr.tree = []
      · rw [if_pos (by simp [TreeBlockMgr.byteSize, htree])]
        refine ⟨_, rfl, fun _ => rfl, fun hs => hs.putRecv _ _, ?_,
          .inr ⟨e, hlook, .inr ⟨hlt, mgr, hall, hsize, .inl ⟨htree, ?_⟩⟩⟩⟩
        · intro m hm
          rw [recvSide_putRecv, if_neg hm]
        · rw [recvSide_putRecv, if_pos rfl]
      · rw [if_neg (by simp [TreeBlockMgr.byteSize, htree, sizeofBlock]),
          TreeBlockMgr.serializeToBuffer_byteSize, ok_bind]
        have hcar := RetransmitRequest.carries_of_rep hrep msgId h.packetizer.commId
        have hfits : RetransmitRequest.Fits _ := ⟨hlo, hhi, hcar.numBlocks_lt⟩
        refine ⟨_, rfl, fun m => (sendSide_ask m _).trans rfl, fun hs => (hs.putRecv _ _).ask _, ?_,
          .inr ⟨e, hlook, .inr ⟨hlt, mgr, hall, hsize, .inr ⟨htree, _,
            hfits.arrival_asks hcar, ?_⟩⟩⟩⟩
        · intro m hm
          rw [recvSide_ask, if_neg hm, recvSide_putRecv, if_neg hm]
        · rw [recvSide_ask, if_pos rfl, recvSide_putRecv, if_pos rfl]

theorem confirmStop_spec (msgId : UInt32) {e : LtMessageExt}
    (hrecv : (c.recvSide h msgId).recv = some e) :
    ∃ c', c.confirmStop h msgId = .ok c' ∧ Touches h msgId ConfirmsStop c c' := by
  unfold confirmStop
  have hlook : c.recvMsgs.lookup msgId = some e := hrecv
  rw [hlook]
  refine ⟨_, rfl, fun m => ?_, fun hs => { hs with }, fun m hm => ?_, e, hrecv, ?_⟩
  · simp [sendSide, List.countP_append, Completion.isSend]
  · simp [recvSide, Completion.recvBytes, hm, Ne.symm hm]
  · simp [recvSide, Completion.recvBytes]

theorem pollReceivingNotification_spec (hlo : -2 ^ 31 ≤ h.packetizer.commId)
    (hhi : h.packetizer.commId < 2 ^ 31)
    (hfinish : ∀ m ms rest, (c.recvSide h m).notes = .finish ms :: rest → ms + 1 < 2 ^ 32 ∧
      ∀ e, (c.recvSide h m).recv = some e → e.bytes < e.bound → ∃ taken, e.blockMgr.Holds taken)
    (hconfirm : ∀ m rest, (c.recvSide h m).notes = .confirm :: rest →
      ∃ e, (c.recvSide h m).recv = some e) :
    ∃ c', c.pollReceivingNotification h = .ok c' ∧ RecvStep h (TakesNote h) c c' := by
  unfold pollReceivingNotification
  rcases hq : c.receivingQueue with _ | ⟨⟨msgId, ms⟩ | msgId, rest⟩
  · exact ⟨c, rfl, .refl⟩
  · have hhead : (c.recvSide h msgId).notes =
        .finish ms :: rest.filterMap (ReceivingNotification.note msgId) := by
      simp [recvSide, hq, ReceivingNotification.note]
    obtain ⟨hms, hrecv⟩ := hfinish _ _ _ hhead
    obtain ⟨c', hc', ht⟩ :=
      finishFlow_spec (c := { c with receivingQueue := rest }) hlo hhi msgId hms hrecv
    refine ⟨c', hc', ht.sendSide_eq, fun hs => ht.sound { hs with }, fun m => ?_⟩
    by_cases hm : msgId = m
    · subst hm
      exact .inr (.inl ⟨ms, _, hhead, ht.own⟩)
    · left
      rw [ht.other m hm]
      simp [recvSide, hq, ReceivingNotification.note, hm]
  · have hhead : (c.recvSide h msgId).notes =
        .confirm :: rest.filterMap (ReceivingNotification.note msgId) := by
      simp [recvSide, hq, ReceivingNotification.note]
    obtain ⟨e, hrecv⟩ := hconfirm _ _ hhead
    obtain ⟨c', hc', ht⟩ :=
      confirmStop_spec (h := h) (c := { c with receivingQueue := rest }) msgId hrecv
    refine ⟨c', hc', ht.sendSide_eq, fun hs => ht.sound { hs with }, fun m => ?_⟩
    by_cases hm : msgId = m
    · subst hm
      exact .inr (.inr ⟨_, hhead, ht.own⟩)
    · left
      rw [ht.other m hm]
      simp [recvSide, hq, ReceivingNotification.note, hm]

/-! ## Datagrams -/

/-- What a packet does to the receiver of its flow, of which the packets `taken` have been
copied. -/
def TakesPacket (h : Host) (pkt : GradPacket) (pktUse : ℕ) (taken : Finset ℕ) (y y' : RecvSide) :
    Prop :=
  ∃ e mgr, y.recv = some e ∧ mgr.size = max e.blockMgr.size (pkt.seq.toNat + 1) ∧
    (pkt.seq.toNat ∈ taken ∧ mgr.Rep taken ∧
        y' = { y with recv := some { e with blockMgr := mgr } } ∨
      pkt.seq.toNat ∉ taken ∧ mgr.Rep (insert pkt.seq.toNat taken) ∧
        let n := LtMessageExt.gradBytes pkt
        let accepted := y.accepted ++ [⟨e.use, pktUse, pkt.seq.toNat, n⟩]
        (¬(e.bound ≤ e.bytes + n ∧ e.stopped = false) ∧ y' = { y with
            recv := some { e with blockMgr := mgr, bytes := e.bytes + n }
            accepted } ∨
          e.bound ≤ e.bytes + n ∧ e.stopped = false ∧ y' = { y with
            recv := some { e with blockMgr := mgr, bytes := e.bytes + n, stopped := true }
            accepted
            out := y.out ++
              [.stop (decodeFlow (encodeFlow h.packetizer.commId (msgInt pkt.msgId))).1]
            stopRequests := y.stopRequests + 1 }))

theorem keepInBacklog_eq (hs : c.Sound h) (msgId : UInt32) (size pktUse : ℕ) :
    c.keepInBacklog h msgId size pktUse =
      { c with backlogUsedMap := c.backlogUsedMap.insert msgId [] } := by
  unfold keepInBacklog
  have hvec : (c.backlogUsedMap.lookup msgId).getD [] = [] := by
    rcases hb : c.backlogUsedMap.lookup msgId with _ | vec
    · rfl
    · exact hs.used _ _ hb
  simp only [hs.free, List.getLast?_nil, hvec]

theorem Sound.keepInBacklog (hs : c.Sound h) (msgId : UInt32) (size pktUse : ℕ) :
    (c.keepInBacklog h msgId size pktUse).Sound h := by
  rw [keepInBacklog_eq hs]
  refine { hs with used := fun m vec hvec => ?_ }
  rw [IntMap.lookup_insert_ite] at hvec
  split_ifs at hvec
  · cases hvec
    rfl
  · exact hs.used m vec hvec

theorem acceptPacket_spec {taken : Finset ℕ} {pkt : GradPacket} {e : LtMessageExt}
    (hseq : pkt.seq.toNat + 1 < 2 ^ 32) (hpos : 0 < LtMessageExt.gradBytes pkt)
    (hholds : e.blockMgr.Holds taken)
    (hfit : u32 (pkt.offset.toNat + LtMessageExt.gradBytes pkt) ≤ e.size) (pktUse : ℕ) :
    ∃ copied e' c' mgr, c.acceptPacket pkt.msgId e pkt pktUse = .ok (copied, e', c') ∧
      mgr.size = max e.blockMgr.size (pkt.seq.toNat + 1) ∧
      (∀ m, c'.sendSide h m = c.sendSide h m) ∧ (c.Sound h → c'.Sound h) ∧
      (∀ m, pkt.msgId ≠ m → c'.recvSide h m = c.recvSide h m) ∧
      (pkt.seq.toNat ∈ taken ∧ mgr.Rep taken ∧ copied = 0 ∧
          c'.recvSide h pkt.msgId = { c.recvSide h pkt.msgId with
            recv := some { e with blockMgr := mgr } } ∨
        pkt.seq.toNat ∉ taken ∧ mgr.Rep (insert pkt.seq.toNat taken) ∧ 0 < copied ∧
          e' = { e with blockMgr := mgr, bytes := e.bytes + LtMessageExt.gradBytes pkt } ∧
          c'.recvSide h pkt.msgId = { c.recvSide h pkt.msgId with
            recv := some e'
            accepted := (c.recvSide h pkt.msgId).accepted ++
              [⟨e.use, pktUse, pkt.seq.toNat, LtMessageExt.gradBytes pkt⟩] }) := by
  unfold acceptPacket
  by_cases hmem : pkt.seq.toNat ∈ taken
  · obtain ⟨mgr, hrep, hsize, hcopy⟩ := LtMessageExt.copyGradients_taken hholds c.mem hseq hmem
    rw [hcopy, ok_bind]
    refine ⟨_, _, _, mgr, rfl, hsize, fun _ => rfl, fun hs => { hs with },
      fun m hm => ?_, .inl ⟨hmem, hrep, rfl, ?_⟩⟩
    · rw [recvSide_putRecv, if_neg hm]
      rfl
    · rw [recvSide_putRecv, if_pos rfl]
      rfl
  · obtain ⟨mgr, hrep, hsize, hcopy⟩ := LtMessageExt.copyGradients_fresh hholds c.mem hseq hmem hfit
    rw [hcopy, ok_bind]
    generalize LtMessageExt.gradBytes pkt = n at *
    dsimp only
    rw [if_pos hpos]
    refine ⟨_, _, _, mgr, rfl, hsize, fun m => ?_, fun hs => { hs with },
      fun m hm => ?_, .inr ⟨hmem, hrep, hpos, rfl, ?_⟩⟩
    · simp [sendSide, putRecv, List.countP_append, Event.isStopFlow, Event.isStopConfirm]
    · rw [recvSide_putRecv, if_neg hm]
      simp [recvSide, List.countP_append, Event.isStopRequest, Event.accepted, hm]
    · rw [recvSide_putRecv, if_pos rfl]
      simp [recvSide, List.countP_append, Event.isStopRequest, Event.accepted]

theorem deliver_spec (taken : Finset ℕ) (pkt : GradPacket) (hs : c.Sound h)
    (hseq : pkt.seq.toNat + 1 < 2 ^ 32) (hpos : 0 < LtMessageExt.gradBytes pkt)
    (hsrc : (pkt.srcCommId.toNat : ℤ) = h.destCommId)
    (hrecv : ∀ e, (c.recvSide h pkt.msgId).recv = some e → e.blockMgr.Holds taken ∧
      u32 (pkt.offset.toNat + LtMessageExt.gradBytes pkt) ≤ e.size) (size pktUse : ℕ) :
    ∃ c', c.deliver h pkt size pktUse = .ok c' ∧
      RecvStep h (fun m y y' => pkt.msgId = m ∧ TakesPacket h pkt pktUse taken y y') c c' := by
  unfold deliver
  rcases hlook : c.recvMsgs.lookup pkt.msgId with _ | e
  · refine ⟨_, rfl, fun m => ?_, fun _ => hs.keepInBacklog _ _ _, fun m => .inl ?_⟩
    · rw [keepInBacklog_eq hs]
      rfl
    · rw [keepInBacklog_eq hs]
      rfl
  · obtain ⟨hholds, hfit⟩ := hrecv e hlook
    obtain ⟨copied, e', c', mgr, hacc, hsize, hsend, hsound, hother, hown⟩ :=
      acceptPacket_spec (h := h) (c := c) hseq hpos hholds hfit pktUse
    dsimp only
    rw [hacc, ok_bind]
    rcases hown with ⟨hmem, hrep, rfl, hown⟩ | ⟨hmem, hrep, hcop, rfl, hown⟩
    · refine ⟨c', rfl, hsend, hsound, fun m => ?_⟩
      by_cases hm : pkt.msgId = m
      · subst hm
        exact .inr ⟨rfl, e, mgr, hlook, hsize, .inl ⟨hmem, hrep, hown⟩⟩
      · exact .inl (hother m hm)
    · dsimp only
      by_cases hstop : e.bound ≤ e.bytes + LtMessageExt.gradBytes pkt ∧ e.stopped = false
      · rw [if_pos ⟨hcop, by simpa [LtMessageExt.finishReceiving] using hstop.1, by simp [hstop.2]⟩]
        refine ⟨_, rfl, fun m => ?_, fun hs => ((hsound hs).putRecv _ _).enqueue rfl, fun m => ?_⟩
        · rw [sendSide_enqueue, sendSide_putRecv, hsend]
          simp [routed, Signal.fwd, Event.isStopConfirm]
        · rw [recvSide_enqueue, recvSide_putRecv, hsrc]
          by_cases hm : pkt.msgId = m
          · subst hm
            refine .inr ⟨rfl, e, mgr, hlook, hsize, .inr ⟨hmem, hrep, .inr ⟨hstop.1, hstop.2, ?_⟩⟩⟩
            rw [if_pos rfl, hown]
            simp [routed, Signal.bwd, Event.isStopRequest]
          · rw [if_neg hm, hother m hm]
            simp [routed, Signal.bwd, Event.isStopRequest, hm]
      · rw [if_neg (by
          rintro ⟨-, hb, hst⟩
          exact hstop ⟨by simpa [LtMessageExt.finishReceiving] using hb, by simpa using hst⟩)]
        refine ⟨c', rfl, hsend, hsound, fun m => ?_⟩
        by_cases hm : pkt.msgId = m
        · subst hm
          exact .inr ⟨rfl, e, mgr, hlook, hsize, .inr ⟨hmem, hrep, .inl ⟨hstop, hown⟩⟩⟩
        · exact .inl (hother m hm)

theorem sendSide_reportRate (dest : ℤ) (rate : Option UInt32) :
    (c.reportRate dest rate).sendSide h m = c.sendSide h m := by
  cases rate with
  | none => rfl
  | some rate =>
    rw [reportRate, sendSide_enqueue]
    simp [routed, Signal.fwd, Event.isStopConfirm]

theorem recvSide_reportRate (dest : ℤ) (rate : Option UInt32) :
    (c.reportRate dest rate).recvSide h m = c.recvSide h m := by
  cases rate with
  | none => rfl
  | some rate =>
    rw [reportRate, recvSide_enqueue]
    simp [routed, Signal.bwd, Event.isStopRequest]

theorem Sound.reportRate (hs : c.Sound h) (dest : ℤ) (rate : Option UInt32) :
    (c.reportRate dest rate).Sound h := by
  cases rate with
  | none => exact hs
  | some rate => exact hs.enqueue trivial

theorem ofMemory_receiveInto {pkt : GradPacket} {bytes : List UInt8}
    (hhead : bytes.take kGradPacketHeader = pkt.header) (mem : Memory) :
    GradPacket.ofMemory (receiveInto h bytes mem) h.buf =
      { pkt with gradPtr := UInt64.ofNat (h.buf + kGradPacketHeader) } := by
  have hlen : kGradPacketHeader ≤ bytes.length := by
    have := congrArg List.length hhead
    simp only [List.length_take, GradPacket.length_header] at this
    omega
  have hptr : (receiveInto h bytes mem).read (h.buf + 20) 8 =
      LittleEndian.leBytes 8 (h.buf + kGradPacketHeader) :=
    Memory.read_write_self (mem.write h.buf bytes) (h.buf + kGradPacketHeader)
      (LittleEndian.leBytes 8 (h.buf + kGradPacketHeader))
  rw [GradPacket.ofMemory_of_header pkt, hptr, LittleEndian.ofLeBytes_leBytes]
  · congr 1
    apply UInt64.toNat_inj.mp
    rw [UInt64.toNat_ofNat', UInt64.toNat_ofNat', show 256 ^ 8 = 2 ^ 64 by decide, Nat.mod_mod]
  · unfold receiveInto
    rw [Memory.read_write_disjoint _ _ (.inl le_rfl)]
    simpa [hhead] using
      Memory.read_write_sub mem h.buf 0 kGradPacketHeader bytes (by simpa using hlen)

theorem handleReceive_spec (taken : Finset ℕ) (pkt : GradPacket) (bytes : List UInt8)
    (hs : c.Sound h) (hseg : kGradPacketHeader ≤ h.packetizer.maxSegment)
    (hhead : bytes.take kGradPacketHeader = pkt.header)
    (hdst : pkt.dstCommId = UInt16.ofInt h.packetizer.commId)
    (hsrc : (pkt.srcCommId.toNat : ℤ) = h.destCommId)
    (hseq : pkt.seq.toNat + 1 < 2 ^ 32) (hpos : 0 < LtMessageExt.gradBytes pkt)
    (hrecv : ∀ e, (c.recvSide h pkt.msgId).recv = some e → e.blockMgr.Holds taken ∧
      u32 (pkt.offset.toNat + LtMessageExt.gradBytes pkt) ≤ e.size)
    (pktUse : ℕ) (rate : Option UInt32) :
    ∃ c', c.handleReceive h bytes pktUse rate = .ok c' ∧
      RecvStep h (fun m y y' => pkt.msgId = m ∧ TakesPacket h pkt pktUse taken y y') c c' := by
  have hhead' : (bytes.take h.packetizer.maxSegment).take kGradPacketHeader = pkt.header := by
    rw [List.take_take, Nat.min_eq_left hseg, hhead]
  unfold handleReceive
  dsimp only
  rw [ofMemory_receiveInto hhead']
  generalize UInt64.ofNat (h.buf + kGradPacketHeader) = gradPtr
  generalize receiveInto h (bytes.take h.packetizer.maxSegment) c.mem = mem
  rw [require_bind _ hdst, if_neg (not_not.mpr hsrc)]
  have hs' : ({ c with mem } : Communicator).Sound h := { hs with }
  obtain ⟨c', hc', ht⟩ := deliver_spec (c := ({ c with mem } : Communicator).reportRate
    pkt.srcCommId.toNat rate) taken { pkt with gradPtr } (hs'.reportRate _ _)
    hseq hpos hsrc (by rw [recvSide_reportRate]; exact hrecv)
    (bytes.take h.packetizer.maxSegment).length pktUse
  refine ⟨c', hc', fun m => ?_, fun _ => ht.sound (hs'.reportRate _ _), fun m => ?_⟩
  · rw [ht.sendSide_eq, sendSide_reportRate]
    rfl
  · have hm := ht.recvSide_eq m
    rw [recvSide_reportRate] at hm
    exact hm

end Communicator

end Mlt
