import MltByteps.Lib.Machine
import MltByteps.Mlt.PriorityChannel

/-! The sending thread with all its connections. A function of the thread works on one
connection at a time, the way it does on the only one of a communicator; the queues that the
connections share are put together here. -/

namespace Mlt

/-- The part of `ConnMeta` that the sending thread uses. There is one for each communicator,
so `destCommId` also stands for the pointer. -/
structure ConnMeta where
  destCommId : ℤ
  sendingMsgs : IntMap LtMessageExt
  retransmittingMsgs : IntMap LtMessageExt
  retransmitReqs : IntMap (RetransmitRequest × RetransmitState)
  txMeter : ℕ

namespace ConnMeta

def new (dest : ℤ) : ConnMeta := ⟨dest, ∅, ∅, ∅, 0⟩

def view (conn : ConnMeta) : Communicator :=
  { Communicator.init with
    sendingMsgs := conn.sendingMsgs
    retransmittingMsgs := conn.retransmittingMsgs
    retransmitReqs := conn.retransmitReqs
    txMeter := conn.txMeter }

def update (conn : ConnMeta) (c : Communicator) : ConnMeta where
  destCommId := conn.destCommId
  sendingMsgs := c.sendingMsgs
  retransmittingMsgs := c.retransmittingMsgs
  retransmitReqs := c.retransmitReqs
  txMeter := c.txMeter

end ConnMeta

inductive ChannelNotification where
  | addConnection (dest : ℤ)
  | removeConnection (dest : ℤ)
  | stopFlow (flowId : ℕ)
  | requestRetransmit (req : RetransmitRequest)
deriving DecidableEq, Repr

inductive ChannelEvent where
  | post (dest : ℤ) (msgId : UInt32)
  | route (dest : ℤ) (msgId : UInt32)
  -- `StopFlow` pushed the completion.
  | complete (dest : ℤ) (msgId : UInt32)
deriving DecidableEq, Repr

/-- Each packet in a `tx_queue` is kept with the connection it was routed for, and the queues of
all endpoints are one list, as in `Communicator`. `log` has the latest event first. -/
structure PriorityChannel where
  connMetas : List ConnMeta
  connMetaMap : ℤ → Option ℕ
  srQueue : List (ℤ × LtMessageExt)
  notificationQueue : List ChannelNotification
  txPackets : List (ℤ × GradPacket)
  txQueue : List (ℤ × Signal)
  cq : List Completion
  log : List ChannelEvent

def Completion.sendEvent : Completion → Option ChannelEvent
  | .send msgId commId => some (.complete commId msgId)
  | .recv .. => none

namespace PriorityChannel

def init : PriorityChannel where
  connMetas := []
  connMetaMap := fun _ => none
  srQueue := []
  notificationQueue := []
  txPackets := []
  txQueue := []
  cq := []
  log := []

/-- `conn_metas_[conn_meta_map_[comm_id]]`, as the index of the connection. The map enters an id
that it does not have with index 0. -/
def findConnMetaById (commId : ℤ) (ch : PriorityChannel) :
    Except Fault (ℕ × PriorityChannel) := do
  let i := (ch.connMetaMap commId).getD 0
  require .connMetas (i < ch.connMetas.length)
  return (i, { ch with connMetaMap := Function.update ch.connMetaMap commId (some i) })

def commit (i : ℕ) (conn : ConnMeta) (c : Communicator) (ch : PriorityChannel) :
    PriorityChannel :=
  { ch with
    connMetas := ch.connMetas.set i (conn.update c)
    txPackets := ch.txPackets ++ c.txPackets.map fun x => (conn.destCommId, x.1)
    txQueue := ch.txQueue ++ c.txQueue
    cq := ch.cq ++ c.cq
    log := c.cq.filterMap Completion.sendEvent ++
      (c.txPackets.map fun x => .route conn.destCommId x.1.msgId) ++ ch.log }

def onConn (i : ℕ) (f : ConnMeta → Communicator → Except Fault Communicator)
    (ch : PriorityChannel) : Except Fault PriorityChannel :=
  match ch.connMetas[i]? with
  | none => .error .connMetas
  | some conn => do
    let c ← f conn conn.view
    return ch.commit i conn c

/-- `Enqueue`, called by `PostSend`. -/
def enqueue (dest : ℤ) (msg : LtMessage) (ch : PriorityChannel) : PriorityChannel :=
  { ch with
    srQueue := ch.srQueue ++ [(dest, .new msg)]
    log := .post dest msg.msgId :: ch.log }

/-- `Run` takes a send request. -/
def popSendRequest (ch : PriorityChannel) : Except Fault PriorityChannel :=
  match ch.srQueue with
  | [] => .ok ch
  | (dest, msg) :: srQueue => do
    let (i, ch) ← { ch with srQueue }.findConnMetaById dest
    ch.onConn i fun _ c => { c with srQueue := [msg] }.popSendRequest

/-- The round of `PollSendingMessages` for the connection `i`. The `prio_func` of a message draws
random numbers, so it comes with the step. -/
def pollSendingMessages (p : Packetizer) (i : ℕ) (prio : PktPrioFunc) (throttled elapsed : Bool)
    (ch : PriorityChannel) : Except Fault PriorityChannel :=
  ch.onConn i fun conn c =>
    .ok (c.pollSendingMessages ⟨p, conn.destCommId, prio, 0⟩ throttled elapsed)

def pollRetransmitRequest (p : Packetizer) (i : ℕ) (prio : PktPrioFunc) (throttled elapsed : Bool)
    (ch : PriorityChannel) : Except Fault PriorityChannel :=
  ch.onConn i fun conn c =>
    c.pollRetransmitRequest ⟨p, conn.destCommId, prio, 0⟩ throttled elapsed

/-- The body of the loop of `PollNotification`. `RemoveConnection` also frees the `ConnMeta`. -/
def handleNotification (n : ChannelNotification) (ch : PriorityChannel) :
    Except Fault PriorityChannel :=
  match n with
  | .addConnection dest =>
    .ok { ch with
      connMetaMap := Function.update ch.connMetaMap dest (some ch.connMetas.length)
      connMetas := ch.connMetas ++ [.new dest] }
  | .removeConnection dest => do
    require .removeConnection (∃ conn ∈ ch.connMetas, conn.destCommId = dest)
    return { ch with
      connMetaMap := Function.update ch.connMetaMap dest none
      connMetas := ch.connMetas.eraseP (·.destCommId = dest) }
  | .stopFlow flowId => do
    let (i, ch) ← ch.findConnMetaById (decodeFlow flowId).1
    ch.onConn i fun _ c => .ok (c.stopFlow flowId)
  | .requestRetransmit hdr => do
    let (i, ch) ← ch.findConnMetaById hdr.commId
    ch.onConn i fun _ c => c.requestRetransmit hdr

def pollNotification (ch : PriorityChannel) : Except Fault PriorityChannel :=
  match ch.notificationQueue with
  | [] => .ok ch
  | n :: notificationQueue => { ch with notificationQueue }.handleNotification n

end PriorityChannel

inductive SendResult where
  | sent (nbytes : ℕ)
  | wouldBlock
  | failed
deriving DecidableEq, Repr

namespace PriorityChannel

def popPacket (tos : UInt8) (ch : PriorityChannel) : PriorityChannel :=
  { ch with txPackets := ch.txPackets.eraseP (·.2.tos = tos) }

/-- `UdpEndpoint::OnSendReady` with the results of its calls of `sendmsg`; behind the last of
them the socket blocks. A packet has left the queue when the socket is asked to take it. -/
def onSendReady (tos : UInt8) : List SendResult → PriorityChannel → Except Fault PriorityChannel
  | [], ch => .ok (ch.popPacket tos)
  | result :: results, ch =>
    match ch.txPackets.find? (·.2.tos = tos) with
    | none => .ok ch
    | some (_, pkt) =>
      match result with
      | .sent nbytes => do
        require .sendMsg (nbytes = pkt.len.toNat)
        (ch.popPacket tos).onSendReady tos results
      | .wouldBlock => .ok (ch.popPacket tos)
      | .failed => .error .sendMsg

/-! ## The table of the connections -/

def Present (ch : PriorityChannel) (dest : ℤ) : Prop :=
  ∃ conn ∈ ch.connMetas, conn.destCommId = dest

instance (ch : PriorityChannel) (dest : ℤ) : Decidable (ch.Present dest) :=
  inferInstanceAs (Decidable (∃ conn ∈ ch.connMetas, conn.destCommId = dest))

structure TableOk (ch : PriorityChannel) : Prop where
  keys : ∀ dest, (ch.connMetaMap dest).isSome ↔ ch.Present dest
  find : ∀ dest, ch.Present dest →
    ∃ i ch' conn, ch.findConnMetaById dest = .ok (i, ch') ∧ ch.connMetas[i]? = some conn ∧
      conn.destCommId = dest

structure Indexed (ch : PriorityChannel) : Prop where
  index : ∀ (i : ℕ) (conn : ConnMeta), ch.connMetas[i]? = some conn →
    ch.connMetaMap conn.destCommId = some i
  entry : ∀ (dest : ℤ) (i : ℕ), ch.connMetaMap dest = some i →
    ∃ conn, ch.connMetas[i]? = some conn ∧ conn.destCommId = dest

variable {ch ch' : PriorityChannel} {dest : ℤ}

theorem Indexed.lookup (h : ch.Indexed) {conn : ConnMeta} (hmem : conn ∈ ch.connMetas) :
    ∃ i, ch.connMetaMap conn.destCommId = some i ∧ ch.connMetas[i]? = some conn := by
  obtain ⟨i, hi⟩ := List.mem_iff_getElem?.mp hmem
  exact ⟨i, h.index i conn hi, hi⟩

theorem Indexed.unique (h : ch.Indexed) {conn conn' : ConnMeta} (hmem : conn ∈ ch.connMetas)
    (hmem' : conn' ∈ ch.connMetas) (heq : conn.destCommId = conn'.destCommId) : conn = conn' := by
  obtain ⟨i, hi, hget⟩ := h.lookup hmem
  obtain ⟨j, hj, hget'⟩ := h.lookup hmem'
  rw [heq, hj] at hi
  cases hi
  exact Option.some.inj (hget.symm.trans hget')

theorem Indexed.findConnMetaById (h : ch.Indexed) {conn : ConnMeta}
    (hmem : conn ∈ ch.connMetas) :
    ∃ i, ch.findConnMetaById conn.destCommId = .ok (i, ch) ∧ ch.connMetas[i]? = some conn := by
  obtain ⟨i, hi, hget⟩ := h.lookup hmem
  refine ⟨i, ?_, hget⟩
  have hlt : i < ch.connMetas.length := (List.getElem?_eq_some_iff.mp hget).1
  unfold PriorityChannel.findConnMetaById
  dsimp only
  rw [hi, Option.getD_some, require_bind _ hlt, Function.update_eq_self_iff.mpr hi.symm]
  rfl

theorem Indexed.tableOk (h : ch.Indexed) : ch.TableOk where
  keys dest := by
    rw [Option.isSome_iff_exists]
    constructor
    · rintro ⟨i, hi⟩
      obtain ⟨conn, hget, hdest⟩ := h.entry dest i hi
      exact ⟨conn, List.mem_of_getElem? hget, hdest⟩
    · rintro ⟨conn, hmem, rfl⟩
      obtain ⟨i, hi, -⟩ := h.lookup hmem
      exact ⟨i, hi⟩
  find dest := by
    rintro ⟨conn, hmem, rfl⟩
    obtain ⟨i, hfind, hget⟩ := h.findConnMetaById hmem
    exact ⟨i, ch, conn, hfind, hget, rfl⟩

theorem indexed_init : init.Indexed :=
  ⟨fun i conn hi => by simp [init] at hi, fun dest i hi => by simp [init] at hi⟩

theorem Indexed.addConnection (h : ch.Indexed)
    (habsent : ¬ch.Present dest)
    (hstep : ch.handleNotification (.addConnection dest) = .ok ch') : ch'.Indexed := by
  cases hstep
  constructor
  · intro i conn hi
    dsimp only at hi ⊢
    rcases Nat.lt_or_ge i ch.connMetas.length with hlt | hge
    · rw [List.getElem?_append_left hlt] at hi
      rw [Function.update_of_ne, h.index i conn hi]
      rintro rfl
      exact habsent ⟨conn, List.mem_of_getElem? hi, rfl⟩
    · rw [List.getElem?_append_right hge, List.getElem?_singleton] at hi
      split_ifs at hi with hzero
      cases hi
      rw [ConnMeta.new, Function.update_self, show ch.connMetas.length = i by omega]
  · intro dest' i hi
    dsimp only at hi ⊢
    by_cases heq : dest' = dest
    · subst heq
      rw [Function.update_self] at hi
      cases hi
      exact ⟨.new dest', List.getElem?_concat_length, rfl⟩
    · rw [Function.update_of_ne heq] at hi
      obtain ⟨conn, hget, hdest⟩ := h.entry dest' i hi
      exact ⟨conn, List.getElem?_append_left (List.getElem?_eq_some_iff.mp hget).1 ▸ hget, hdest⟩

theorem Indexed.removeConnection_eq (h : ch.Indexed) {pre post : List ConnMeta} {conn : ConnMeta}
    (hsplit : ch.connMetas = pre ++ conn :: post) :
    ch.handleNotification (.removeConnection conn.destCommId) = .ok { ch with
      connMetaMap := Function.update ch.connMetaMap conn.destCommId none
      connMetas := pre ++ post } := by
  have hmem : conn ∈ ch.connMetas := by simp [hsplit]
  have hpre : ∀ c ∈ pre, ¬(decide (c.destCommId = conn.destCommId) = true) := by
    intro c hc heq
    obtain ⟨i, hi⟩ := List.mem_iff_getElem?.mp hc
    have hlt := (List.getElem?_eq_some_iff.mp hi).1
    have hget : ch.connMetas[i]? = some c := by rw [hsplit, List.getElem?_append_left hlt, hi]
    have hget' : ch.connMetas[pre.length]? = some conn := by simp [hsplit]
    have hindex := h.index i c hget
    rw [of_decide_eq_true heq, h.index _ conn hget'] at hindex
    cases hindex
    omega
  unfold handleNotification
  dsimp only
  rw [require_bind _ ⟨conn, hmem, rfl⟩, hsplit, List.eraseP_append_right _ hpre,
    List.eraseP_cons_of_pos (by simp)]
  rfl

theorem Indexed.removeLast (h : ch.Indexed) {pre : List ConnMeta} {conn : ConnMeta}
    (hsplit : ch.connMetas = pre ++ [conn])
    (hstep : ch.handleNotification (.removeConnection conn.destCommId) = .ok ch') :
    ch'.Indexed := by
  rw [h.removeConnection_eq hsplit, List.append_nil] at hstep
  cases hstep
  have hlast : ch.connMetaMap conn.destCommId = some pre.length :=
    h.index _ conn (by simp [hsplit])
  have hget : ∀ i, i < pre.length → ch.connMetas[i]? = pre[i]? := fun i hi => by
    rw [hsplit, List.getElem?_append_left hi]
  constructor
  · intro i c hi
    dsimp only at hi ⊢
    have hlt := (List.getElem?_eq_some_iff.mp hi).1
    have hindex := h.index i c ((hget i hlt).trans hi)
    rw [Function.update_of_ne, hindex]
    intro heq
    rw [heq, hlast] at hindex
    cases hindex
    omega
  · intro dest' i hi
    dsimp only at hi ⊢
    by_cases heq : dest' = conn.destCommId
    · rw [heq, Function.update_self] at hi
      cases hi
    · rw [Function.update_of_ne heq] at hi
      obtain ⟨c, hc, hdest⟩ := h.entry dest' i hi
      have hi' := (List.getElem?_eq_some_iff.mp hc).1
      rw [hsplit, List.length_append, List.length_singleton] at hi'
      have hlt : i < pre.length := by
        by_contra hge
        obtain rfl : i = pre.length := by omega
        rw [hsplit, List.getElem?_concat_length] at hc
        cases hc
        exact heq hdest.symm
      exact ⟨c, (hget i hlt) ▸ hc, hdest⟩

/-- The index of the last connection is past the end once another one is removed. -/
theorem Indexed.not_tableOk_of_removeOther (h : ch.Indexed) {pre post : List ConnMeta}
    {conn last : ConnMeta} (hsplit : ch.connMetas = pre ++ conn :: (post ++ [last]))
    (hstep : ch.handleNotification (.removeConnection conn.destCommId) = .ok ch') :
    ¬ch'.TableOk := by
  rw [h.removeConnection_eq hsplit] at hstep
  cases hstep
  intro htable
  obtain ⟨i, ch'', c, hfind, -, -⟩ := htable.find last.destCommId ⟨last, by simp, rfl⟩
  have hindex : ch.connMetaMap last.destCommId = some (pre.length + post.length + 1) := by
    refine h.index _ last ?_
    rw [hsplit, show pre ++ conn :: (post ++ [last]) = (pre ++ conn :: post) ++ [last] by simp]
    rw [List.getElem?_append_right (by simp; omega)]
    simp [Nat.add_assoc]
  have hne : last.destCommId ≠ conn.destCommId := by
    intro heq
    have hconn : ch.connMetaMap conn.destCommId = some pre.length :=
      h.index _ conn (by simp [hsplit])
    rw [← heq, hindex] at hconn
    have := Option.some.inj hconn
    omega
  unfold PriorityChannel.findConnMetaById at hfind
  dsimp only at hfind
  rw [Function.update_of_ne hne, hindex, Option.getD_some, require_bind_eq_ok] at hfind
  have := hfind.1
  simp only [List.length_append, List.length_singleton] at this
  omega

def tableMachine : Machine PriorityChannel ChannelNotification Fault where
  init := init
  step ch n := ch.handleNotification n

def Changes (ch : PriorityChannel) : ChannelNotification → Prop
  | .addConnection dest => ¬ch.Present dest
  | .removeConnection dest => ch.Present dest
  | _ => False

/-- A connection that is removed is the last one of `conn_metas_`. -/
def RemovesLast (ch : PriorityChannel) : ChannelNotification → Prop
  | .removeConnection dest => ch.connMetas.getLast?.map ConnMeta.destCommId = some dest
  | _ => True

instance (ch : PriorityChannel) : DecidablePred ch.Changes
  | .addConnection dest => inferInstanceAs (Decidable ¬ch.Present dest)
  | .removeConnection dest => inferInstanceAs (Decidable (ch.Present dest))
  | .stopFlow _ => .isFalse id
  | .requestRetransmit _ => .isFalse id

instance (ch : PriorityChannel) : DecidablePred ch.RemovesLast
  | .addConnection _ => .isTrue trivial
  | .removeConnection dest =>
    inferInstanceAs (Decidable (ch.connMetas.getLast?.map ConnMeta.destCommId = some dest))
  | .stopFlow _ => .isTrue trivial
  | .requestRetransmit _ => .isTrue trivial

theorem Indexed.changes (h : ch.Indexed) {n : ChannelNotification} (hn : ch.Changes n) :
    ∃ ch', ch.handleNotification n = .ok ch' ∧ (ch.RemovesLast n → ch'.Indexed) ∧
      (ch'.TableOk → ch.RemovesLast n) := by
  cases n with
  | addConnection dest =>
    exact ⟨_, rfl, fun _ => h.addConnection hn rfl, fun _ => trivial⟩
  | removeConnection dest =>
    obtain ⟨conn, hmem, rfl⟩ := hn
    obtain ⟨pre, post, hsplit⟩ := List.append_of_mem hmem
    have hstep := h.removeConnection_eq hsplit
    refine ⟨_, hstep, ?_⟩
    rcases List.eq_nil_or_concat' post with rfl | ⟨post, last, rfl⟩
    · refine ⟨fun _ => h.removeLast hsplit hstep, fun _ => ?_⟩
      rw [RemovesLast, hsplit, List.getLast?_concat]
      rfl
    · refine ⟨fun hlast => ?_, fun htable => ?_⟩
      · rw [RemovesLast, hsplit, List.getLast?_append, List.getLast?_cons,
          List.getLast?_concat] at hlast
        -- The last connection would have the id of another one.
        have heq : last = conn := h.unique (by simp [hsplit]) hmem (by simpa using hlast)
        have hindex := h.index pre.length conn (by simp [hsplit])
        rw [← heq, h.index (pre.length + post.length + 1) last] at hindex
        · have := Option.some.inj hindex
          omega
        · rw [hsplit, ← List.cons_append, ← List.append_assoc, List.getElem?_append_right]
          · simp [Nat.add_assoc]
          · simp only [List.length_append, List.length_cons]
            omega
      · exact absurd htable (h.not_tableOk_of_removeOther hsplit hstep)
  | stopFlow flowId => exact absurd hn id
  | requestRetransmit req => exact absurd hn id

theorem indexed_of_reachable
    (h : tableMachine.Reachable (fun ch n => ch.Changes n ∧ ch.RemovesLast n) ch) :
    ch.Indexed := by
  refine h.invariant indexed_init fun ch n ch' hch hn hstep => ?_
  obtain ⟨ch'', hstep', hindexed, -⟩ := hch.changes hn.1
  cases hstep.symm.trans hstep'
  exact hindexed hn.2

/-- After any notifications that add absent connections and remove the last one, the table is in
step, and the next notification keeps it so if and only if it removes no other connection than
the last one. -/
theorem conn_table_iff
    (h : tableMachine.Reachable (fun ch n => ch.Changes n ∧ ch.RemovesLast n) ch) :
    ch.TableOk ∧ ∀ n, ch.Changes n →
      ∃ ch', ch.handleNotification n = .ok ch' ∧ (ch'.TableOk ↔ ch.RemovesLast n) := by
  have hindexed := indexed_of_reachable h
  refine ⟨hindexed.tableOk, fun n hn => ?_⟩
  obtain ⟨ch', hstep, hkeep, hlast⟩ := hindexed.changes hn
  exact ⟨ch', hstep, hlast, fun hn => (hkeep hn).tableOk⟩

theorem conn_table_iff_two :
    ∃ ch, tableMachine.Reachable (fun ch n => ch.Changes n ∧ ch.RemovesLast n) ch ∧
      ch.Present 1 ∧ ch.TableOk := by
  obtain ⟨ch, hreach, hpresent⟩ := Machine.exists_reachable_of_run tableMachine
    (fun ch n => ch.Changes n ∧ ch.RemovesLast n)
    [.addConnection 1, .addConnection 2, .removeConnection 2] (·.Present 1) (by decide +kernel)
  exact ⟨ch, hreach, hpresent, (conn_table_iff hreach).1⟩

/-- With the first of three connections gone, the second id finds the third connection, and the
third id none. -/
theorem remove_first_shifts :
    ∃ ch, tableMachine.Reachable Changes ch ∧ (ch.Present 2 ∧ ch.Present 3) ∧
      (ch.findConnMetaById 2).map (fun r => ch.connMetas[r.1]?.map ConnMeta.destCommId) =
        .ok (some 3) ∧
      (ch.findConnMetaById 3).map Prod.fst = .error .connMetas :=
  Machine.exists_reachable_of_run tableMachine Changes
    [.addConnection 1, .addConnection 2, .addConnection 3, .removeConnection 1]
    (fun ch => (ch.Present 2 ∧ ch.Present 3) ∧
      (ch.findConnMetaById 2).map (fun r => ch.connMetas[r.1]?.map ConnMeta.destCommId) =
        .ok (some 3) ∧
      (ch.findConnMetaById 3).map Prod.fst = .error .connMetas)
    (by decide +kernel)

/-! ## The flow that is stopped -/

/-- `StopFlow` has run for the message `m` on the connection to `dest`. -/
structure StopsAt (ch ch' : PriorityChannel) (dest : ℤ) (m : UInt32) : Prop where
  conn : ∃ i conn, ch.connMetas[i]? = some conn ∧ conn.destCommId = dest ∧
    ch'.connMetas = ch.connMetas.set i (conn.update (conn.view.eraseFlow m))
  confirm : ch'.txQueue = ch.txQueue ++ [(dest, .stopConfirm m)]
  complete : ch'.cq = ch.cq ++ [.send m dest]

theorem stopsAt_commit {i : ℕ} {conn : ConnMeta} {flowId : ℕ} {m : UInt32}
    (hget : ch.connMetas[i]? = some conn) (hdest : conn.destCommId = (decodeFlow flowId).1)
    (hm : UInt32.ofInt (decodeFlow flowId).2 = m) :
    ch.StopsAt (ch.commit i conn (conn.view.stopFlow flowId)) (decodeFlow flowId).1 m := by
  subst hm
  refine ⟨⟨i, conn, hget, hdest, rfl⟩, ?_, ?_⟩
  · unfold Communicator.stopFlow Communicator.eraseFlow
    dsimp only
    split_ifs <;> rfl
  · unfold Communicator.stopFlow Communicator.eraseFlow
    dsimp only
    split_ifs <;> rfl

/-- Whatever connection it finds, `StopFlow` reports the destination that it decodes. -/
theorem cq_of_stopFlow {flowId : ℕ} (h : ch.handleNotification (.stopFlow flowId) = .ok ch') :
    ch'.cq = ch.cq ++ [.send (UInt32.ofInt (decodeFlow flowId).2) (decodeFlow flowId).1] := by
  obtain ⟨⟨i, ch₁⟩, hfind, h⟩ := bind_eq_ok.mp h
  obtain ⟨-, hfind⟩ := require_bind_eq_ok.mp hfind
  cases hfind
  unfold onConn at h
  dsimp only at h
  split at h
  · cases h
  · cases h
    unfold Communicator.stopFlow Communicator.eraseFlow
    dsimp only
    split_ifs <;> rfl

theorem TableOk.stopFlow (h : ch.TableOk) {flowId : ℕ} {m : UInt32}
    (hpresent : ch.Present (decodeFlow flowId).1) (hm : UInt32.ofInt (decodeFlow flowId).2 = m) :
    ∃ ch', ch.handleNotification (.stopFlow flowId) = .ok ch' ∧
      ch.StopsAt ch' (decodeFlow flowId).1 m := by
  obtain ⟨i, ch₁, conn, hfind, hget, hdest⟩ := h.find _ hpresent
  have hstep : ch.handleNotification (.stopFlow flowId) =
      ch₁.onConn i fun _ c => .ok (c.stopFlow flowId) := by
    rw [handleNotification, hfind, ok_bind]
  -- The lookup changes at most the map.
  obtain ⟨-, heq⟩ := require_bind_eq_ok.mp hfind
  cases heq
  rw [onConn, hget] at hstep
  have hstop := stopsAt_commit hget hdest hm
  exact ⟨_, hstep, hstop.conn, hstop.confirm, hstop.complete⟩

/-- A flow id comes back as it was encoded, and a `STOP_FLOW` made of it stops the flow it was
made for, exactly for the ids whose sign bit is clear. -/
theorem flow_id_iff {dest : ℤ} (hlo : -2 ^ 31 ≤ dest) (hhi : dest < 2 ^ 31) (m : UInt32) :
    (decodeFlow (encodeFlow dest (msgInt m)) = (dest, msgInt m) ↔ m.toNat < 2 ^ 31) ∧
    ∀ ch : PriorityChannel, ch.TableOk → ch.Present dest →
      ((∃ ch', ch.handleNotification (.stopFlow (encodeFlow dest (msgInt m))) = .ok ch' ∧
        ch.StopsAt ch' dest m) ↔ m.toNat < 2 ^ 31) := by
  have hsnd := decodeFlow_snd dest m
  have hfst : (decodeFlow (encodeFlow dest (msgInt m))).1 = dest ↔ m.toNat < 2 ^ 31 := by
    refine ⟨fun h => ?_, decodeFlow_fst hlo hhi⟩
    by_contra hge
    exact decodeFlow_fst_ne dest (Nat.le_of_not_lt hge) h
  have hm : UInt32.ofInt (decodeFlow (encodeFlow dest (msgInt m))).2 = m := by
    rw [hsnd, ofInt_msgInt]
  refine ⟨?_, fun ch htable hpresent => ⟨?_, fun hlt => ?_⟩⟩
  · rw [← hfst, Prod.ext_iff]
    exact and_iff_left hsnd
  · rintro ⟨ch', hstep, hstop⟩
    have hcq := (cq_of_stopFlow hstep).symm.trans hstop.complete
    rw [List.append_cancel_left_eq, List.singleton_inj, Completion.send.injEq] at hcq
    exact hfst.mp hcq.2
  · have hdest := hfst.mpr hlt
    rw [← hdest] at hpresent
    have hstop := htable.stopFlow hpresent hm
    rw [hdest] at hstop
    exact hstop

theorem flow_id_iff_seven : decodeFlow (encodeFlow (-1) (msgInt 7)) = (-1, msgInt 7) ∧
    ∃ ch ch' : PriorityChannel, ch.Present 5 ∧ ch.Present (-1) ∧ ch.TableOk ∧
      ch.handleNotification (.stopFlow (encodeFlow (-1) (msgInt 7))) = .ok ch' ∧
      ch.StopsAt ch' (-1) 7 := by
  obtain ⟨ch, hreach, hfive, hpresent⟩ := Machine.exists_reachable_of_run tableMachine
    (fun ch n => ch.Changes n ∧ ch.RemovesLast n) [.addConnection 5, .addConnection (-1)]
    (fun ch => ch.Present 5 ∧ ch.Present (-1)) (by decide +kernel)
  have htable := (indexed_of_reachable hreach).tableOk
  obtain ⟨hround, hstops⟩ := @flow_id_iff (-1) (by decide) (by decide) 7
  obtain ⟨ch', hstep, hstop⟩ := (hstops ch htable hpresent).mpr (by decide)
  exact ⟨hround.mpr (by decide), ch, ch', hfive, hpresent, htable, hstep, hstop⟩

/-- With the sign bit set the flow of destination 5 is decoded as one of destination 4. -/
theorem high_id_changes_dest :
    decodeFlow (encodeFlow 5 (msgInt 0x80000001)) = (4, msgInt 0x80000001) := by
  decide

end PriorityChannel

end Mlt
