import MltByteps.Mlt.PriorityThread
import MltByteps.Mlt.Drain

/-! When the thread reports a send as complete it should not refer to the buffer any more. -/

namespace Mlt

namespace IntMap

variable {V : Type} {m : IntMap V} {id : V → UInt32} {key : UInt32} {v : V}

def FiledBy (m : IntMap V) (id : V → UInt32) : Prop := ∀ k v, m.lookup k = some v → id v = k

theorem FiledBy.insert (h : FiledBy m id) (hv : id v = key) : FiledBy (m.insert key v) id :=
  Forall.insert (R := fun k v => id v = k) h hv

theorem FiledBy.erase (h : FiledBy m id) (key : UInt32) : FiledBy (m.erase key) id :=
  Forall.erase (R := fun k v => id v = k) h key

theorem FiledBy.insertNode (h : FiledBy m id) (hv : id v = key) :
    FiledBy (m.insertNode key v) id :=
  Forall.insertNode (R := fun k v => id v = k) h hv

end IntMap

namespace ConnMeta

def Has (conn : ConnMeta) (m : UInt32) : Prop :=
  (conn.sendingMsgs.lookup m).isSome ∨ (conn.retransmittingMsgs.lookup m).isSome ∨
    (conn.retransmitReqs.lookup m).isSome

instance (conn : ConnMeta) (m : UInt32) : Decidable (conn.Has m) :=
  inferInstanceAs (Decidable (_ ∨ _ ∨ _))

structure Filed (conn : ConnMeta) : Prop where
  sending : ∀ k e, conn.sendingMsgs.lookup k = some e → e.msgId = k
  retransmitting : ∀ k e, conn.retransmittingMsgs.lookup k = some e → e.msgId = k
  reqs : ∀ k hdr state, conn.retransmitReqs.lookup k = some (hdr, state) → hdr.msgId = k

/-- What a function that completes nothing may do to a connection: it makes entries for `new`
messages only, and routes packets of messages that have an entry. -/
structure Moves (conn : ConnMeta) (new : UInt32 → Prop) (c : Communicator) : Prop where
  filed : (conn.update c).Filed
  has : ∀ m, (conn.update c).Has m → conn.Has m ∨ new m
  packets : ∀ x ∈ c.txPackets, conn.Has x.1.msgId
  completions : c.cq = []

theorem Filed.reqs_filedBy {conn : ConnMeta} (hfiled : conn.Filed) :
    IntMap.FiledBy conn.retransmitReqs fun x => x.1.msgId :=
  fun k x => hfiled.reqs k x.1 x.2

theorem filed_new (dest : ℤ) : (new dest).Filed :=
  ⟨fun k e h => by simp [new] at h, fun k e h => by simp [new] at h,
    fun k hdr state h => by simp [new] at h⟩

theorem not_has_new (dest : ℤ) (m : UInt32) : ¬(new dest).Has m := by
  simp [Has, new]

variable {conn : ConnMeta} {h : Host} {c : Communicator} {throttled elapsed : Bool}

@[simp] theorem update_view (conn : ConnMeta) : conn.update conn.view = conn := rfl

theorem moves_view (hfiled : conn.Filed) : conn.Moves (fun _ => False) conn.view :=
  ⟨hfiled, fun _ hm => .inl hm, fun x hx => by simp [view, Communicator.init] at hx,
    rfl⟩

theorem moves_putSending (hfiled : conn.Filed) {key : UInt32} {msg msg' : LtMessageExt}
    (hkey : conn.sendingMsgs.lookup key = some msg) (hmsg : msg'.msgId = key)
    (hsending : c.sendingMsgs = conn.sendingMsgs)
    (hretransmitting : c.retransmittingMsgs = conn.retransmittingMsgs)
    (hreqs : c.retransmitReqs = conn.retransmitReqs)
    (hpackets : ∀ x ∈ c.txPackets, x.1.msgId = key) (hcq : c.cq = []) :
    conn.Moves (fun _ => False) (c.putSending key msg') := by
  have hhas : conn.Has key := .inl (by rw [hkey]; rfl)
  unfold Communicator.putSending
  rw [hmsg]
  split_ifs with hdone
  · refine ⟨⟨?_, ?_, fun k hdr state hk => hfiled.reqs k hdr state (hreqs ▸ hk)⟩,
      fun m hm => .inl ?_, fun x hx => hpackets x hx ▸ hhas, hcq⟩
    · rw [update, hsending]
      exact IntMap.FiledBy.erase hfiled.sending key
    · rw [update, hretransmitting]
      exact IntMap.FiledBy.insertNode hfiled.retransmitting hmsg
    · by_cases heq : m = key
      · exact heq ▸ hhas
      · simpa only [Has, update, hsending, hretransmitting, hreqs, IntMap.lookup_erase_ite,
          IntMap.lookup_insertNode, if_neg heq] using hm
  · refine ⟨⟨?_, fun k e hk => hfiled.retransmitting k e (hretransmitting ▸ hk),
      fun k hdr state hk => hfiled.reqs k hdr state (hreqs ▸ hk)⟩, fun m hm => .inl ?_,
      fun x hx => hpackets x hx ▸ hhas, hcq⟩
    · rw [update, hsending]
      exact IntMap.FiledBy.insert hfiled.sending hmsg
    · by_cases heq : m = key
      · exact heq ▸ hhas
      · simpa only [Has, update, hsending, hretransmitting, hreqs, IntMap.lookup_insert_ite,
          if_neg heq] using hm

theorem msgId_withBytes (msg : LtMessageExt) (bytes : ℕ) :
    { msg with bytes }.msgId = msg.msgId := rfl

theorem partitionOne_msgId (p : Packetizer) (dest : ℤ) (msg : LtMessageExt)
    (prio : PktPrioFunc) : (p.partitionOne dest msg prio).1.msgId = msg.msgId ∧
      (p.partitionOne dest msg prio).2.msgId = msg.msgId := by
  unfold Packetizer.partitionOne
  exact ⟨rfl, msgId_withBytes msg _⟩

theorem partitionOneBySeq_msgId (p : Packetizer) (dest : ℤ) (msg : LtMessageExt)
    (prio : PktPrioFunc) (seq : ℤ) :
    (p.partitionOneBySeq dest msg prio seq).msgId = msg.msgId := rfl

theorem moves_pollSendingMessages (hfiled : conn.Filed) (h : Host) (throttled elapsed : Bool) :
    conn.Moves (fun _ => False) (conn.view.pollSendingMessages h throttled elapsed) := by
  unfold Communicator.pollSendingMessages
  rcases hb : conn.view.sendingMsgs.begin? with _ | ⟨key, msg⟩
  · exact moves_view hfiled
  · have hkey : conn.sendingMsgs.lookup key = some msg := IntMap.lookup_of_begin? hb
    cases throttled with
    | true => exact moves_view hfiled
    | false =>
      obtain ⟨hpkt, hmsg⟩ := partitionOne_msgId h.packetizer h.destCommId msg h.prioFunc
      rw [hfiled.sending key msg hkey] at hpkt hmsg
      simp only [Bool.false_eq_true, if_false]
      generalize h.packetizer.partitionOne h.destCommId msg h.prioFunc = r at hpkt hmsg ⊢
      obtain ⟨pkt, msg'⟩ := r
      refine moves_putSending hfiled hkey hmsg
        (Communicator.routePacket_sendingMsgs _ _ _)
        (Communicator.routePacket_retransmittingMsgs _ _ _)
        (Communicator.routePacket_retransmitReqs _ _ _) (fun x hx => ?_)
        (Communicator.routePacket_cq _ _ _)
      rw [Communicator.meter, Communicator.routePacket_txPackets] at hx
      rw [List.mem_singleton.mp hx]
      exact hpkt

theorem moves_pollRetransmitRequest (hfiled : conn.Filed)
    (hpoll : conn.view.pollRetransmitRequest h throttled elapsed = .ok c) :
    conn.Moves (fun _ => False) c := by
  rcases pollRetransmitRequest_cases hpoll with
    rfl | ⟨-, key, hdr, state, e, fin, state', hb, -, he, rfl⟩
  · exact moves_view hfiled
  · have hkey : conn.retransmitReqs.lookup key = some (hdr, state) := IntMap.lookup_of_begin? hb
    have hhdr : hdr.msgId = key := hfiled.reqs key hdr state hkey
    have hmsg : e.msgId = key := (hfiled.retransmitting _ e he).trans hhdr
    have hhas : conn.Has key := .inr (.inr (by rw [hkey]; rfl))
    -- The request is entered again with its new cursor, and removed behind its last packet.
    have hlookup := fun k => @lookup_resent conn.view key
      (h.packetizer.partitionOneBySeq hdr.commId e h.prioFunc (toInt32 state.seqNum)) e.use
      (h.packetizer.getBytes e) fin elapsed hdr state' k
    unfold Communicator.resent at hlookup
    rw [hmsg]
    refine ⟨⟨fun k e' hk => ?_, fun k e' hk => ?_, fun k hdr' state'' hk => ?_⟩, fun m hm => ?_,
      fun x hx => ?_, Communicator.routePacket_cq _ _ _⟩
    · refine hfiled.sending k e' ?_
      revert hk
      cases fin <;> exact id
    · refine hfiled.retransmitting k e' ?_
      revert hk
      cases fin <;> exact id
    · rw [update, hlookup] at hk
      split_ifs at hk with heq
      · cases hk
        exact hhdr.trans heq.symm
      · exact hfiled.reqs k hdr' state'' hk
    · by_cases heq : m = key
      · exact .inl (heq ▸ hhas)
      · left
        rw [Has, update, hlookup, if_neg heq] at hm
        revert hm
        cases fin <;> exact id
    · rw [Communicator.putRequest, Communicator.meter, Communicator.routePacket_txPackets] at hx
      rw [List.mem_singleton.mp hx]
      exact ((partitionOneBySeq_msgId _ _ _ _ _).trans hmsg) ▸ hhas

theorem moves_popSendRequest (hfiled : conn.Filed) {msg : LtMessageExt}
    (hpop : { conn.view with srQueue := [msg] }.popSendRequest = .ok c) :
    conn.Moves (· = msg.msgId) c ∧ (conn.update c).Has msg.msgId := by
  obtain ⟨-, hpop⟩ := require_bind_eq_ok.mp hpop
  cases hpop
  refine ⟨⟨⟨IntMap.FiledBy.insert hfiled.sending rfl, hfiled.retransmitting, hfiled.reqs⟩,
    fun m hm => ?_, fun x hx => by simp [view, Communicator.init] at hx, rfl⟩, .inl ?_⟩
  · by_cases heq : m = msg.msgId
    · exact .inr heq
    · left
      simpa only [Has, update, view, IntMap.lookup_insert_ite, if_neg heq] using hm
  · rw [update, IntMap.lookup_insert_ite, if_pos rfl]
    rfl

theorem moves_requestRetransmit (hfiled : conn.Filed) {hdr : RetransmitRequest}
    (hreq : conn.view.requestRetransmit hdr = .ok c) :
    conn.Moves (· = hdr.msgId) c ∧ (conn.update c).Has hdr.msgId := by
  obtain ⟨-, hreq⟩ := require_bind_eq_ok.mp hreq
  obtain ⟨block, -, hreq⟩ := bind_eq_ok.mp hreq
  cases hreq
  have hid : (hdr, (⟨0, block.first⟩ : RetransmitState)).1.msgId = hdr.msgId := rfl
  have hreqs := hfiled.reqs_filedBy.insert hid
  refine ⟨⟨⟨hfiled.sending, hfiled.retransmitting, fun k hdr' state => hreqs k (hdr', state)⟩,
    fun m hm => ?_, fun x hx => by simp [view, Communicator.init] at hx, rfl⟩, .inr (.inr ?_)⟩
  · by_cases heq : m = hdr.msgId
    · exact .inr heq
    · left
      simpa only [Has, update, view, IntMap.lookup_insert_ite, if_neg heq] using hm
  · rw [update, IntMap.lookup_insert_ite, if_pos rfl]
    rfl

/-- The message still has an entry after `StopFlow`: its branch for a message that is being sent
leaves the other two maps alone. -/
def LeftBehind (conn : ConnMeta) (m : UInt32) : Prop :=
  (conn.sendingMsgs.lookup m).isSome ∧
    ((conn.retransmittingMsgs.lookup m).isSome ∨ (conn.retransmitReqs.lookup m).isSome)

instance (conn : ConnMeta) (m : UInt32) : Decidable (conn.LeftBehind m) :=
  inferInstanceAs (Decidable (_ ∧ (_ ∨ _)))

theorem filed_stopFlow (hfiled : conn.Filed) (flowId : ℕ) :
    (conn.update (conn.view.stopFlow flowId)).Filed := by
  unfold Communicator.stopFlow Communicator.eraseFlow
  dsimp only
  split_ifs with hsending
  · exact ⟨hfiled.sending, IntMap.FiledBy.erase hfiled.retransmitting _,
      fun k hdr state => hfiled.reqs_filedBy.erase _ k (hdr, state)⟩
  · exact ⟨IntMap.FiledBy.erase hfiled.sending _, hfiled.retransmitting, hfiled.reqs⟩

theorem has_stopFlow (flowId : ℕ) (m : UInt32) :
    (conn.update (conn.view.stopFlow flowId)).Has m ↔
      if m = UInt32.ofInt (decodeFlow flowId).2 then conn.LeftBehind m else conn.Has m := by
  unfold Communicator.stopFlow Communicator.eraseFlow
  dsimp only
  split_ifs with hsending hm hm
  · subst hm
    simp only [Has, LeftBehind, update, Communicator.completeSend, Communicator.enqueue,
      IntMap.lookup_erase_ite, if_true, view] at hsending ⊢
    simp [hsending]
  · simp only [Has, update, Communicator.completeSend, Communicator.enqueue,
      IntMap.lookup_erase_ite, if_neg hm, view]
  · subst hm
    simp only [Has, LeftBehind, update, Communicator.completeSend, Communicator.enqueue,
      IntMap.lookup_erase_ite, if_true, view] at hsending ⊢
    simp [Option.isSome_iff_ne_none, hsending]
  · simp only [Has, update, Communicator.completeSend, Communicator.enqueue,
      IntMap.lookup_erase_ite, if_neg hm, view]

end ConnMeta

/-! ## Flows that are complete -/

/-- The flow was completed and has not been posted since. The latest event comes first. -/
def Released (log : List ChannelEvent) (dest : ℤ) (m : UInt32) : Prop :=
  log.find? (fun e => e = .post dest m ∨ e = .complete dest m) = some (.complete dest m)

instance (log : List ChannelEvent) (dest : ℤ) (m : UInt32) : Decidable (Released log dest m) :=
  inferInstanceAs (Decidable (_ = _))

section

variable {log : List ChannelEvent} {dest dest' : ℤ} {m m' : UInt32}

theorem released_post : Released (.post dest' m' :: log) dest m ↔
    ¬(dest' = dest ∧ m' = m) ∧ Released log dest m := by
  by_cases h : dest' = dest ∧ m' = m
  · simp [Released, h]
  · simp [Released, h]

theorem released_complete : Released (.complete dest' m' :: log) dest m ↔
    (dest' = dest ∧ m' = m) ∨ Released log dest m := by
  by_cases h : dest' = dest ∧ m' = m
  · simp [Released, h]
  · simp [Released, h]

theorem released_routes {routes : List ChannelEvent}
    (hroutes : ∀ e ∈ routes, ∃ d k, e = .route d k) :
    Released (routes ++ log) dest m ↔ Released log dest m := by
  rw [Released, List.find?_append, List.find?_eq_none.mpr, Option.none_or, Released]
  intro e he
  obtain ⟨d, k, rfl⟩ := hroutes e he
  simp

end

def Quiet (log : List ChannelEvent) : Prop :=
  ∀ pre dest m rest, log = pre ++ .route dest m :: rest → ¬Released rest dest m

theorem quiet_nil : Quiet [] := by
  intro pre dest m rest heq
  simp at heq

theorem Quiet.cons {log : List ChannelEvent} (h : Quiet log) {e : ChannelEvent}
    (he : ∀ dest m, e = .route dest m → ¬Released log dest m) : Quiet (e :: log) := by
  intro pre dest m rest heq
  cases pre with
  | nil =>
    cases heq
    exact he dest m rfl
  | cons e' pre =>
    rw [List.cons_append] at heq
    exact h pre dest m rest (List.cons.inj heq).2

theorem Quiet.routes {log routes : List ChannelEvent} (h : Quiet log)
    (hroutes : ∀ e ∈ routes, ∃ d k, e = .route d k ∧ ¬Released log d k) :
    Quiet (routes ++ log) := by
  induction routes with
  | nil => exact h
  | cons e routes ih =>
    obtain ⟨he, hrest⟩ := List.forall_mem_cons.mp hroutes
    refine (ih hrest).cons fun dest m heq => ?_
    obtain ⟨d, k, rfl, hfree⟩ := he
    cases heq
    rwa [released_routes fun e he => (hrest e he).imp fun d hd => hd.imp fun k hk => hk.1]

namespace PriorityChannel

/-- Nothing in the thread refers to the message: no packet in a queue, no entry in a map. -/
structure Unused (ch : PriorityChannel) (dest : ℤ) (m : UInt32) : Prop where
  packets : ∀ x ∈ ch.txPackets, x.1 = dest → x.2.msgId ≠ m
  entries : ∀ conn ∈ ch.connMetas, conn.destCommId = dest → ¬conn.Has m

/-- A flow that is complete is no longer in use, and no packet was routed for one. -/
structure ReleaseSafe (ch : PriorityChannel) : Prop where
  unused : ∀ dest m, Released ch.log dest m → ch.Unused dest m
  quiet : Quiet ch.log

structure Sound (ch : PriorityChannel) : Prop where
  indexed : ch.Indexed
  filed : ∀ conn ∈ ch.connMetas, conn.Filed

variable {ch ch' : PriorityChannel} {i : ℕ} {conn : ConnMeta} {c : Communicator}

theorem onConn_eq_ok {f : ConnMeta → Communicator → Except Fault Communicator} :
    ch.onConn i f = .ok ch' ↔
      ∃ conn c, ch.connMetas[i]? = some conn ∧ f conn conn.view = .ok c ∧
        ch' = ch.commit i conn c := by
  unfold onConn
  rcases hget : ch.connMetas[i]? with _ | conn
  · simp
  · simp only [bind_eq_ok, Option.some.injEq, exists_and_left, exists_eq_left']
    refine exists_congr fun c => and_congr_right fun _ => ?_
    exact ⟨fun h => (Except.ok.inj h).symm, fun h => congrArg Except.ok h.symm⟩

theorem mem_connMetas_commit {conn' : ConnMeta}
    (hmem : conn' ∈ (ch.commit i conn c).connMetas) :
    conn' = conn.update c ∨ conn' ∈ ch.connMetas := (List.mem_or_eq_of_mem_set hmem).symm

theorem Indexed.commit (h : ch.Indexed) (hget : ch.connMetas[i]? = some conn)
    (c : Communicator) : (ch.commit i conn c).Indexed := by
  have hdest : ∀ j : ℕ, ((ch.commit i conn c).connMetas[j]?).map ConnMeta.destCommId =
      (ch.connMetas[j]?).map ConnMeta.destCommId := by
    intro j
    by_cases hij : i = j
    · subst hij
      rw [hget, PriorityChannel.commit,
        List.getElem?_set_self (List.getElem?_eq_some_iff.mp hget).1]
      rfl
    · rw [PriorityChannel.commit, List.getElem?_set_ne hij]
  constructor
  · intro j conn' hj
    have hold := hdest j
    rw [hj, Option.map_some] at hold
    obtain ⟨old, hold, heq⟩ := Option.map_eq_some_iff.mp hold.symm
    exact heq ▸ h.index j old hold
  · intro dest j hj
    obtain ⟨old, hold, rfl⟩ := h.entry dest j hj
    have hnew := hdest j
    rw [hold, Option.map_some] at hnew
    exact Option.map_eq_some_iff.mp hnew

theorem Sound.commit (h : ch.Sound) (hget : ch.connMetas[i]? = some conn)
    (hfiled : (conn.update c).Filed) : (ch.commit i conn c).Sound := by
  refine ⟨h.indexed.commit hget c, fun conn' hmem => ?_⟩
  rcases mem_connMetas_commit hmem with rfl | hmem
  · exact hfiled
  · exact h.filed conn' hmem

theorem log_commit_of_moves {new : UInt32 → Prop} (hm : conn.Moves new c) :
    (ch.commit i conn c).log =
      (c.txPackets.map fun x => .route conn.destCommId x.1.msgId) ++ ch.log := by
  rw [PriorityChannel.commit, hm.completions]
  rfl

theorem ReleaseSafe.commit (h : ch.ReleaseSafe) (hget : ch.connMetas[i]? = some conn)
    {new : UInt32 → Prop} (hm : conn.Moves new c)
    (hnew : ∀ m, new m → ¬Released ch.log conn.destCommId m) :
    (ch.commit i conn c).ReleaseSafe := by
  have hmem := List.mem_of_getElem? hget
  have hfree : ∀ m, conn.Has m → ¬Released ch.log conn.destCommId m :=
    fun m hhas hrel => (h.unused _ m hrel).entries conn hmem rfl hhas
  constructor
  · intro dest m hrel
    rw [log_commit_of_moves hm, released_routes] at hrel
    · obtain ⟨hpackets, hentries⟩ := h.unused dest m hrel
      constructor
      · intro x hx hdest
        rcases List.mem_append.mp hx with hx | hx
        · exact hpackets x hx hdest
        · obtain ⟨y, hy, rfl⟩ := List.mem_map.mp hx
          have hdest : conn.destCommId = dest := hdest
          rintro rfl
          exact hfree _ (hm.packets y hy) (hdest ▸ hrel)
      · intro conn' hconn' hdest hhas
        rcases mem_connMetas_commit hconn' with rfl | hconn'
        · have hdest : conn.destCommId = dest := hdest
          subst hdest
          rcases hm.has m hhas with hhas | hhas
          · exact hfree m hhas hrel
          · exact hnew m hhas hrel
        · exact hentries conn' hconn' hdest hhas
    · intro e he
      obtain ⟨y, -, rfl⟩ := List.mem_map.mp he
      exact ⟨_, _, rfl⟩
  · rw [log_commit_of_moves hm]
    refine h.quiet.routes fun e he => ?_
    obtain ⟨y, hy, rfl⟩ := List.mem_map.mp he
    exact ⟨_, _, rfl, hfree _ (hm.packets y hy)⟩

theorem ReleaseSafe.commit_iff (h : ch.ReleaseSafe) (hget : ch.connMetas[i]? = some conn)
    {k : UInt32} (hm : conn.Moves (· = k) c) (hk : (conn.update c).Has k) :
    (ch.commit i conn c).ReleaseSafe ↔ ¬Released ch.log conn.destCommId k := by
  constructor
  · intro hsafe hrel
    have hrel' : Released (ch.commit i conn c).log conn.destCommId k := by
      rw [log_commit_of_moves hm, released_routes]
      · exact hrel
      · intro e he
        obtain ⟨y, -, rfl⟩ := List.mem_map.mp he
        exact ⟨_, _, rfl⟩
    have hmem : conn.update c ∈ (ch.commit i conn c).connMetas :=
      List.mem_set (List.getElem?_eq_some_iff.mp hget).1 _
    exact (hsafe.unused _ k hrel').entries _ hmem rfl hk
  · intro hfree
    refine h.commit hget hm fun m heq => ?_
    subst heq
    exact hfree

/-- The message of a flow is not in use any more once `StopFlow` has run: no packet of it waits
in a queue, and no entry is left behind. -/
structure StopsClean (ch : PriorityChannel) (dest : ℤ) (m : UInt32) : Prop where
  packets : ∀ x ∈ ch.txPackets, x.1 = dest → x.2.msgId ≠ m
  entries : ∀ conn ∈ ch.connMetas, conn.destCommId = dest → ¬conn.LeftBehind m

theorem stopFlow_commit (flowId : ℕ) :
    (ch.commit i conn (conn.view.stopFlow flowId)).txPackets = ch.txPackets ∧
    (ch.commit i conn (conn.view.stopFlow flowId)).log =
      .complete (decodeFlow flowId).1 (UInt32.ofInt (decodeFlow flowId).2) :: ch.log := by
  unfold Communicator.stopFlow Communicator.eraseFlow
  dsimp only
  split_ifs
  · exact ⟨List.append_nil _, rfl⟩
  · exact ⟨List.append_nil _, rfl⟩

theorem ReleaseSafe.stopFlow_iff (h : ch.ReleaseSafe) (hs : ch.Sound)
    (hget : ch.connMetas[i]? = some conn) {flowId : ℕ}
    (hdest : conn.destCommId = (decodeFlow flowId).1) :
    (ch.commit i conn (conn.view.stopFlow flowId)).ReleaseSafe ↔
      ch.StopsClean (decodeFlow flowId).1 (UInt32.ofInt (decodeFlow flowId).2) := by
  obtain ⟨hpackets, hlog⟩ := @stopFlow_commit ch i conn flowId
  have hmem := List.mem_of_getElem? hget
  have hset : conn.update (conn.view.stopFlow flowId) ∈
      (ch.commit i conn (conn.view.stopFlow flowId)).connMetas :=
    List.mem_set (List.getElem?_eq_some_iff.mp hget).1 _
  constructor
  · intro hsafe
    obtain ⟨hp, he⟩ := hsafe.unused (decodeFlow flowId).1 (UInt32.ofInt (decodeFlow flowId).2)
      (by rw [hlog, released_complete]; exact .inl ⟨rfl, rfl⟩)
    rw [hpackets] at hp
    refine ⟨hp, fun conn' hconn' hdest' hleft => ?_⟩
    obtain rfl := hs.indexed.unique hconn' hmem (hdest'.trans hdest.symm)
    refine he _ hset hdest ?_
    rw [ConnMeta.has_stopFlow, if_pos rfl]
    exact hleft
  · intro hclean
    constructor
    · intro dest m hrel
      rw [hlog, released_complete] at hrel
      -- The flow that is stopped now, or one that was complete before.
      have hunused : (dest = (decodeFlow flowId).1 ∧ m = UInt32.ofInt (decodeFlow flowId).2) ∨
          ch.Unused dest m := by
        rcases hrel with ⟨rfl, rfl⟩ | hrel
        · exact .inl ⟨rfl, rfl⟩
        · exact .inr (h.unused dest m hrel)
      constructor
      · rw [hpackets]
        rcases hunused with ⟨rfl, rfl⟩ | hunused
        · exact hclean.packets
        · exact hunused.packets
      · intro conn' hconn' hdest' hhas
        by_cases hd : dest = conn.destCommId
        · obtain rfl := (hs.indexed.commit hget _).unique hconn' hset (hdest'.trans hd)
          rw [ConnMeta.has_stopFlow] at hhas
          split_ifs at hhas with hm
          · exact hclean.entries conn hmem hdest (hm ▸ hhas)
          · rcases hunused with ⟨-, rfl⟩ | hunused
            · exact hm rfl
            · exact hunused.entries conn hmem hd.symm hhas
        · rcases mem_connMetas_commit hconn' with rfl | hconn'
          · exact hd hdest'.symm
          · rcases hunused with ⟨rfl, -⟩ | hunused
            · exact hd hdest.symm
            · exact hunused.entries conn' hconn' hdest' hhas
    · rw [hlog]
      exact h.quiet.cons fun dest m heq => by cases heq

theorem onSendReady_sublist {tos : UInt8} {results : List SendResult}
    (hstep : ch.onSendReady tos results = .ok ch') :
    ∃ txPackets, txPackets.Sublist ch.txPackets ∧ ch' = { ch with txPackets } := by
  have hpop : (ch.popPacket tos).txPackets.Sublist ch.txPackets := List.eraseP_sublist
  induction results generalizing ch with
  | nil =>
    cases hstep
    exact ⟨_, hpop, rfl⟩
  | cons result results ih =>
    rw [onSendReady] at hstep
    rcases hfind : ch.txPackets.find? (·.2.tos = tos) with _ | ⟨dest, pkt⟩
    · rw [hfind] at hstep
      cases hstep
      exact ⟨_, List.Sublist.refl _, rfl⟩
    · rw [hfind] at hstep
      cases result with
      | sent nbytes =>
        obtain ⟨-, hstep⟩ := require_bind_eq_ok.mp hstep
        obtain ⟨txPackets, hsub, rfl⟩ := ih hstep List.eraseP_sublist
        exact ⟨txPackets, hsub.trans hpop, rfl⟩
      | wouldBlock =>
        cases hstep
        exact ⟨_, hpop, rfl⟩
      | failed => cases hstep

theorem ReleaseSafe.mono (h : ch.ReleaseSafe) (hlog : ch'.log = ch.log)
    (hpackets : ∀ x ∈ ch'.txPackets, x ∈ ch.txPackets)
    (hconns : ∀ conn ∈ ch'.connMetas, conn ∈ ch.connMetas ∨ ∀ m, ¬conn.Has m) :
    ch'.ReleaseSafe := by
  refine ⟨fun dest m hrel => ⟨fun x hx => ?_, fun conn hconn hdest hhas => ?_⟩, hlog ▸ h.quiet⟩
  · exact (h.unused dest m (hlog ▸ hrel)).packets x (hpackets x hx)
  · rcases hconns conn hconn with hconn | hnone
    · exact (h.unused dest m (hlog ▸ hrel)).entries conn hconn hdest hhas
    · exact hnone m hhas

/-! ## Runs of the thread -/

inductive ChannelAction where
  | enqueue (dest : ℤ) (msg : LtMessage)
  | notify (n : ChannelNotification)
  | popSendRequest
  | pollSendingMessages (i : ℕ) (prio : PktPrioFunc) (throttled elapsed : Bool)
  | pollRetransmitRequest (i : ℕ) (prio : PktPrioFunc) (throttled elapsed : Bool)
  | pollNotification
  | onSendReady (tos : UInt8) (results : List SendResult)

def step (p : Packetizer) (ch : PriorityChannel) :
    ChannelAction → Except Fault PriorityChannel
  | .enqueue dest msg => .ok (ch.enqueue dest msg)
  | .notify n => .ok { ch with notificationQueue := ch.notificationQueue ++ [n] }
  | .popSendRequest => ch.popSendRequest
  | .pollSendingMessages i prio throttled elapsed =>
    ch.pollSendingMessages p i prio throttled elapsed
  | .pollRetransmitRequest i prio throttled elapsed =>
    ch.pollRetransmitRequest p i prio throttled elapsed
  | .pollNotification => ch.pollNotification
  | .onSendReady tos results => ch.onSendReady tos results

def machine (p : Packetizer) : Machine PriorityChannel ChannelAction Fault where
  init := init
  step := step p

/-- A flow belongs to a connection that is there and is not released, a flow that is stopped is
not in use any more, and connections come and go so that the table stays right. -/
def Accepts (ch : PriorityChannel) : ChannelNotification → Prop
  | .addConnection dest => ¬ch.Present dest
  | .removeConnection dest => ch.Present dest ∧ ch.RemovesLast (.removeConnection dest)
  | .stopFlow flowId => ch.Present (decodeFlow flowId).1 ∧
      ch.StopsClean (decodeFlow flowId).1 (UInt32.ofInt (decodeFlow flowId).2)
  | .requestRetransmit hdr => ch.Present hdr.commId ∧ ¬Released ch.log hdr.commId hdr.msgId

def Admits (ch : PriorityChannel) : ChannelAction → Prop
  | .popSendRequest => ∀ x ∈ ch.srQueue.head?, ch.Present x.1 ∧ ¬Released ch.log x.1 x.2.msgId
  | .pollNotification => ∀ n ∈ ch.notificationQueue.head?, ch.Accepts n
  | _ => True

instance (ch : PriorityChannel) (dest : ℤ) (m : UInt32) : Decidable (ch.StopsClean dest m) :=
  decidable_of_iff ((∀ x ∈ ch.txPackets, x.1 = dest → x.2.msgId ≠ m) ∧
    ∀ conn ∈ ch.connMetas, conn.destCommId = dest → ¬conn.LeftBehind m)
    ⟨fun h => ⟨h.1, h.2⟩, fun h => ⟨h.packets, h.entries⟩⟩

instance (ch : PriorityChannel) : DecidablePred ch.Accepts
  | .addConnection dest => inferInstanceAs (Decidable ¬ch.Present dest)
  | .removeConnection dest =>
    inferInstanceAs (Decidable (ch.Present dest ∧ ch.RemovesLast (.removeConnection dest)))
  | .stopFlow flowId => inferInstanceAs (Decidable (ch.Present (decodeFlow flowId).1 ∧
      ch.StopsClean (decodeFlow flowId).1 (UInt32.ofInt (decodeFlow flowId).2)))
  | .requestRetransmit hdr =>
    inferInstanceAs (Decidable (ch.Present hdr.commId ∧ ¬Released ch.log hdr.commId hdr.msgId))

instance (ch : PriorityChannel) : DecidablePred ch.Admits
  | .popSendRequest => inferInstanceAs (Decidable (∀ x ∈ ch.srQueue.head?,
      ch.Present x.1 ∧ ¬Released ch.log x.1 x.2.msgId))
  | .pollNotification =>
    inferInstanceAs (Decidable (∀ n ∈ ch.notificationQueue.head?, ch.Accepts n))
  | .enqueue .. => .isTrue trivial
  | .notify .. => .isTrue trivial
  | .pollSendingMessages .. => .isTrue trivial
  | .pollRetransmitRequest .. => .isTrue trivial
  | .onSendReady .. => .isTrue trivial

theorem Indexed.find_bind (h : ch.Indexed) {dest : ℤ} (hpresent : ch.Present dest) :
    ∃ i conn, ch.connMetas[i]? = some conn ∧ conn.destCommId = dest ∧
      ∀ k : ℕ × PriorityChannel → Except Fault PriorityChannel,
        (ch.findConnMetaById dest >>= k) = k (i, ch) := by
  obtain ⟨conn, hmem, rfl⟩ := hpresent
  obtain ⟨i, hfind, hget⟩ := h.findConnMetaById hmem
  exact ⟨i, conn, hget, rfl, fun k => by rw [hfind, ok_bind]⟩

theorem Indexed.congr (h : ch.Indexed) (hmap : ch'.connMetaMap = ch.connMetaMap)
    (hconns : ch'.connMetas = ch.connMetas) : ch'.Indexed :=
  ⟨hmap ▸ hconns ▸ h.index, hmap ▸ hconns ▸ h.entry⟩

theorem Sound.congr (h : ch.Sound) (hmap : ch'.connMetaMap = ch.connMetaMap)
    (hconns : ch'.connMetas = ch.connMetas) : ch'.Sound :=
  ⟨h.indexed.congr hmap hconns, hconns ▸ h.filed⟩

structure Ok (ch : PriorityChannel) : Prop where
  sound : ch.Sound
  safe : ch.ReleaseSafe

theorem ok_init : init.Ok := by
  refine ⟨⟨indexed_init, fun conn hconn => by simp [init] at hconn⟩, fun dest m hrel => ?_,
    quiet_nil⟩
  simp [Released, init] at hrel

theorem Ok.queues (h : ch.Ok) (srQueue : List (ℤ × LtMessageExt))
    (notificationQueue : List ChannelNotification) :
    Ok { ch with srQueue, notificationQueue } :=
  ⟨h.sound.congr rfl rfl, h.safe.mono rfl (fun _ hx => hx) fun _ hconn => .inl hconn⟩

theorem Ok.enqueue (h : ch.Ok) (dest : ℤ) (msg : LtMessage) : (ch.enqueue dest msg).Ok := by
  refine ⟨h.sound.congr rfl rfl, fun dest' m hrel => ?_, ?_⟩
  · obtain ⟨hpackets, hentries⟩ := h.safe.unused dest' m (released_post.mp hrel).2
    exact ⟨hpackets, hentries⟩
  · exact h.safe.quiet.cons fun dest' m heq => by cases heq

theorem Ok.popSendRequest_iff (h : ch.Ok) {dest : ℤ} {msg : LtMessageExt}
    {rest : List (ℤ × LtMessageExt)} (hqueue : ch.srQueue = (dest, msg) :: rest)
    (hpresent : ch.Present dest) (hstep : ch.popSendRequest = .ok ch') :
    ch'.Sound ∧ (ch'.ReleaseSafe ↔ ¬Released ch.log dest msg.msgId) := by
  have hrest := h.queues rest ch.notificationQueue
  obtain ⟨i, conn, hget, rfl, hfind⟩ := hrest.sound.indexed.find_bind hpresent
  rw [PriorityChannel.popSendRequest, hqueue] at hstep
  dsimp only at hstep
  rw [hfind] at hstep
  obtain ⟨conn', c, hget', hpop, rfl⟩ := onConn_eq_ok.mp hstep
  obtain rfl := Option.some.inj (hget.symm.trans hget')
  obtain ⟨hm, hhas⟩ := ConnMeta.moves_popSendRequest
    (hrest.sound.filed conn (List.mem_of_getElem? hget)) hpop
  exact ⟨hrest.sound.commit hget hm.filed, hrest.safe.commit_iff hget hm hhas⟩

theorem Ok.requestRetransmit_iff (h : ch.Ok) {hdr : RetransmitRequest}
    (hpresent : ch.Present hdr.commId)
    (hstep : ch.handleNotification (.requestRetransmit hdr) = .ok ch') :
    ch'.Sound ∧ (ch'.ReleaseSafe ↔ ¬Released ch.log hdr.commId hdr.msgId) := by
  obtain ⟨i, conn, hget, hdest, hfind⟩ := h.sound.indexed.find_bind hpresent
  rw [handleNotification] at hstep
  dsimp only at hstep
  rw [hfind] at hstep
  obtain ⟨conn', c, hget', hreq, rfl⟩ := onConn_eq_ok.mp hstep
  obtain rfl := Option.some.inj (hget.symm.trans hget')
  obtain ⟨hm, hhas⟩ := ConnMeta.moves_requestRetransmit
    (h.sound.filed conn (List.mem_of_getElem? hget)) hreq
  exact ⟨h.sound.commit hget hm.filed, hdest ▸ h.safe.commit_iff hget hm hhas⟩

theorem Ok.stopFlow_iff (h : ch.Ok) {flowId : ℕ} (hpresent : ch.Present (decodeFlow flowId).1) :
    ∃ ch', ch.handleNotification (.stopFlow flowId) = .ok ch' ∧ ch'.Sound ∧
      (ch'.ReleaseSafe ↔
        ch.StopsClean (decodeFlow flowId).1 (UInt32.ofInt (decodeFlow flowId).2)) := by
  obtain ⟨i, conn, hget, hdest, hfind⟩ := h.sound.indexed.find_bind hpresent
  refine ⟨_, ?_, h.sound.commit hget ?_, h.safe.stopFlow_iff h.sound hget hdest⟩
  · rw [handleNotification]
    dsimp only
    rw [hfind]
    exact onConn_eq_ok.mpr ⟨conn, _, hget, rfl, rfl⟩
  · exact ConnMeta.filed_stopFlow (h.sound.filed conn (List.mem_of_getElem? hget)) flowId

theorem Ok.handleNotification (h : ch.Ok) {n : ChannelNotification} (hn : ch.Accepts n)
    (hstep : ch.handleNotification n = .ok ch') : ch'.Ok := by
  cases n with
  | addConnection dest =>
    have hindexed := h.sound.indexed.addConnection hn hstep
    cases hstep
    have hconns : ∀ conn ∈ ch.connMetas ++ [.new dest],
        conn ∈ ch.connMetas ∨ conn = .new dest := by simp
    refine ⟨⟨hindexed, fun conn hconn => ?_⟩,
      h.safe.mono rfl (fun _ hx => hx) fun conn hconn => ?_⟩
    · rcases hconns conn hconn with hconn | rfl
      · exact h.sound.filed conn hconn
      · exact ConnMeta.filed_new dest
    · refine (hconns conn hconn).imp_right ?_
      rintro rfl
      exact ConnMeta.not_has_new dest
  | removeConnection dest =>
    obtain ⟨ch'', hstep', hindexed, -⟩ := h.sound.indexed.changes (n := .removeConnection dest) hn.1
    cases hstep.symm.trans hstep'
    have hindexed := hindexed hn.2
    obtain ⟨-, hstep⟩ := require_bind_eq_ok.mp hstep
    cases hstep
    have hsub : ∀ conn ∈ ch.connMetas.eraseP (·.destCommId = dest), conn ∈ ch.connMetas :=
      fun conn hconn => List.mem_of_mem_eraseP hconn
    exact ⟨⟨hindexed, fun conn hconn => h.sound.filed conn (hsub conn hconn)⟩,
      h.safe.mono rfl (fun _ hx => hx) fun conn hconn => .inl (hsub conn hconn)⟩
  | stopFlow flowId =>
    obtain ⟨ch'', hstep', hsound, hsafe⟩ := h.stopFlow_iff hn.1
    cases hstep.symm.trans hstep'
    exact ⟨hsound, hsafe.mpr hn.2⟩
  | requestRetransmit hdr =>
    obtain ⟨hsound, hsafe⟩ := h.requestRetransmit_iff hn.1 hstep
    exact ⟨hsound, hsafe.mpr hn.2⟩

theorem Ok.onConn (h : ch.Ok) {f : ConnMeta → Communicator → Except Fault Communicator}
    (hf : ∀ conn c, conn.Filed → f conn conn.view = .ok c → conn.Moves (fun _ => False) c)
    (hstep : ch.onConn i f = .ok ch') : ch'.Ok := by
  obtain ⟨conn, c, hget, hc, rfl⟩ := onConn_eq_ok.mp hstep
  have hm := hf conn c (h.sound.filed conn (List.mem_of_getElem? hget)) hc
  exact ⟨h.sound.commit hget hm.filed, h.safe.commit hget hm fun _ => False.elim⟩

theorem Ok.step (h : ch.Ok) {p : Packetizer} {a : ChannelAction} (ha : ch.Admits a)
    (hstep : ch.step p a = .ok ch') : ch'.Ok := by
  cases a with
  | enqueue dest msg =>
    cases hstep
    exact h.enqueue dest msg
  | notify n =>
    cases hstep
    exact h.queues ch.srQueue _
  | popSendRequest =>
    rcases hqueue : ch.srQueue with _ | ⟨⟨dest, msg⟩, rest⟩
    · rw [PriorityChannel.step, PriorityChannel.popSendRequest, hqueue] at hstep
      cases hstep
      exact h
    · obtain ⟨hpresent, hfree⟩ := ha (dest, msg) (by rw [hqueue]; rfl)
      obtain ⟨hsound, hsafe⟩ := h.popSendRequest_iff hqueue hpresent hstep
      exact ⟨hsound, hsafe.mpr hfree⟩
  | pollSendingMessages i prio throttled elapsed =>
    rw [PriorityChannel.step, PriorityChannel.pollSendingMessages] at hstep
    refine h.onConn (fun conn c hfiled hc => ?_) hstep
    cases hc
    exact ConnMeta.moves_pollSendingMessages hfiled _ throttled elapsed
  | pollRetransmitRequest i prio throttled elapsed =>
    rw [PriorityChannel.step, PriorityChannel.pollRetransmitRequest] at hstep
    exact h.onConn (fun _ _ hfiled hc => ConnMeta.moves_pollRetransmitRequest hfiled hc) hstep
  | pollNotification =>
    rcases hqueue : ch.notificationQueue with _ | ⟨n, rest⟩
    · rw [PriorityChannel.step, PriorityChannel.pollNotification, hqueue] at hstep
      cases hstep
      exact h
    · have hn := ha n (by rw [hqueue]; rfl)
      rw [PriorityChannel.step, PriorityChannel.pollNotification, hqueue] at hstep
      refine (h.queues ch.srQueue rest).handleNotification ?_ hstep
      cases n with
      | addConnection dest => exact hn
      | removeConnection dest => exact hn
      | stopFlow flowId => exact ⟨hn.1, hn.2.packets, hn.2.entries⟩
      | requestRetransmit hdr => exact hn
  | onSendReady tos results =>
    obtain ⟨txPackets, hsub, rfl⟩ := onSendReady_sublist hstep
    exact ⟨h.sound.congr rfl rfl,
      h.safe.mono rfl (fun _ hx => hsub.subset hx) fun _ hconn => .inl hconn⟩

/-- As long as every flow is stopped only when the thread does not use it any more, and is not
asked for again afterwards, a complete flow stays unused until it is posted again. The three steps
that can break this do so exactly if they do not meet the condition. -/
theorem send_release_iff (p : Packetizer) (h : (machine p).Reachable Admits ch) :
    ch.ReleaseSafe ∧
    (∀ flowId, ch.Present (decodeFlow flowId).1 →
      ∃ ch', ch.handleNotification (.stopFlow flowId) = .ok ch' ∧ (ch'.ReleaseSafe ↔
        ch.StopsClean (decodeFlow flowId).1 (UInt32.ofInt (decodeFlow flowId).2))) ∧
    (∀ hdr ch', ch.Present hdr.commId →
      ch.handleNotification (.requestRetransmit hdr) = .ok ch' →
      (ch'.ReleaseSafe ↔ ¬Released ch.log hdr.commId hdr.msgId)) ∧
    (∀ dest msg rest ch', ch.srQueue = (dest, msg) :: rest → ch.Present dest →
      ch.popSendRequest = .ok ch' → (ch'.ReleaseSafe ↔ ¬Released ch.log dest msg.msgId)) := by
  have hok : ch.Ok := h.invariant ok_init fun _ _ _ hch ha hstep => hch.step ha hstep
  refine ⟨hok.safe, fun flowId hpresent => ?_, fun hdr ch' hpresent hstep => ?_,
    fun dest msg rest ch' hqueue hpresent hstep => ?_⟩
  · obtain ⟨ch', hstep, -, hsafe⟩ := hok.stopFlow_iff hpresent
    exact ⟨ch', hstep, hsafe⟩
  · exact (hok.requestRetransmit_iff hpresent hstep).2
  · exact (hok.popSendRequest_iff hqueue hpresent hstep).2

/-- A message of two packets is posted. The socket takes the first packet; the second one is
routed. -/
def sendRun : List ChannelAction :=
  [.notify (.addConnection 1), .pollNotification, .enqueue 1 ⟨7, 4096, 4, 0⟩, .popSendRequest,
    .pollSendingMessages 0 (fun _ => 0) false false, .onSendReady 0 [.sent 22],
    .pollSendingMessages 0 (fun _ => 0) false false]

def stopRun : List ChannelAction :=
  [.notify (.stopFlow (encodeFlow 1 7)), .pollNotification]

theorem send_release_iff_sendRun :
    ∃ ch, (machine ⟨22, 0⟩).Reachable Admits ch ∧ Released ch.log 1 7 ∧ ch.ReleaseSafe := by
  obtain ⟨ch, hreach, hrel⟩ := Machine.exists_reachable_of_run (machine ⟨22, 0⟩) Admits
    (sendRun ++ [.onSendReady 0 [.sent 22]] ++ stopRun) (fun ch => Released ch.log 1 7)
    (by decide +kernel)
  exact ⟨ch, hreach, hrel, (send_release_iff _ hreach).1⟩

/-- The receiver has enough with the first packet and stops the flow: the completion is there, and
the second packet, which points into the buffer, still waits in its queue. -/
theorem complete_before_sent :
    ∃ ch, (machine ⟨22, 0⟩).Reachable (fun _ _ => True) ch ∧ ch.cq = [.send 7 1] ∧
      Released ch.log 1 7 ∧
      ch.txPackets.map (fun x => (x.1, x.2.msgId, x.2.gradPtr)) = [(1, 7, 4098)] :=
  Machine.exists_reachable_of_run (machine ⟨22, 0⟩) (fun _ _ => True) (sendRun ++ stopRun)
    (fun ch => ch.cq = [.send 7 1] ∧ Released ch.log 1 7 ∧
      ch.txPackets.map (fun x => (x.1, x.2.msgId, x.2.gradPtr)) = [(1, 7, 4098)])
    (by decide +kernel)

end PriorityChannel

end Mlt
