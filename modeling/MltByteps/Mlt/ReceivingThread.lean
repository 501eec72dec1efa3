import MltByteps.Mlt.CopyGradients

/-! The receiving thread over whole runs: the receives posted to it, datagrams and notifications,
and the stop it asks for when a receive has enough. -/

namespace Mlt
open Communicator

theorem LtMessageExt.copyGradients_entry {e e' : LtMessageExt} {pkt : GradPacket}
    {mem mem' : Memory} {copied : ℕ}
    (h : e.copyGradients pkt mem = .ok (copied, e', mem')) :
    e'.bound = e.bound ∧ e'.stopped = e.stopped ∧ e'.bytes = e.bytes + copied := by
  unfold copyGradients at h
  obtain ⟨mgr, -, h⟩ := bind_eq_ok.mp h
  split_ifs at h
  · cases h
    exact ⟨rfl, rfl, rfl⟩
  · obtain ⟨mgr', -, h⟩ := bind_eq_ok.mp h
    obtain ⟨-, h⟩ := require_bind_eq_ok.mp h
    cases h
    exact ⟨rfl, rfl, rfl⟩

namespace Communicator

def stopRequests (c : Communicator) (m : UInt32) : ℕ := c.log.countP (Event.isStopRequest m)

variable {h : Host} {c c' : Communicator} {m k : UInt32} {e e' : LtMessageExt} {pkt : GradPacket}
  {use copied : ℕ} {base : UInt32 → ℕ}

theorem stopRequests_enqueue (c : Communicator) (dest : ℤ) (signal : Signal) :
    (c.enqueue dest signal).stopRequests m =
      c.stopRequests m + (Event.isStopRequest m (.enqueue dest signal)).toNat := by
  unfold stopRequests enqueue
  rw [List.countP_append]
  cases hs : Event.isStopRequest m (.enqueue dest signal) <;> simp [hs]

theorem stopRequests_reportRate (c : Communicator) (dest : ℤ) (rate : Option UInt32) :
    (c.reportRate dest rate).stopRequests m = c.stopRequests m := by
  cases rate with
  | none => rfl
  | some speed => exact stopRequests_enqueue c dest (.rateAdjustment speed)

/-- A receive that has enough is stopped, and a stopped one has asked its sender once since it was
taken up, with `base` requests for the message before. -/
def Asked (base : UInt32 → ℕ) (c : Communicator) : Prop :=
  ∀ m e, c.recvMsgs.lookup m = some e → (e.finishReceiving = true → e.stopped = true) ∧
    c.stopRequests m = base m + e.stopped.toNat

theorem Asked.congr (ha : c.Asked base) (hrecv : c'.recvMsgs = c.recvMsgs)
    (hcount : ∀ m, c'.stopRequests m = c.stopRequests m) : c'.Asked base := by
  intro m e he
  rw [hcount]
  exact ha m e (hrecv ▸ he)

theorem Asked.insert (ha : c.Asked base) (hk : c.recvMsgs.lookup k = some e)
    (hrecv : c'.recvMsgs = c.recvMsgs.insert k e')
    (hcount : ∀ m, c'.stopRequests m = c.stopRequests m) (hstopped : e'.stopped = e.stopped)
    (hfinish : e'.finishReceiving = true → e'.stopped = true) : c'.Asked base := by
  intro m e₁ he₁
  rw [hrecv, IntMap.lookup_insert_ite] at he₁
  rw [hcount]
  split_ifs at he₁ with hm
  · subst hm
    cases he₁
    exact ⟨hfinish, by rw [hstopped]; exact (ha m e hk).2⟩
  · exact ha m e₁ he₁

theorem Asked.stop (ha : c.Asked base) (hk : c.recvMsgs.lookup k = some e)
    (hrecv : c'.recvMsgs = c.recvMsgs.insert k e')
    (hcount : ∀ m, c'.stopRequests m = c.stopRequests m + (decide (k = m)).toNat)
    (hfalse : e.stopped = false) (htrue : e'.stopped = true) : c'.Asked base := by
  intro m e₁ he₁
  rw [hrecv, IntMap.lookup_insert_ite] at he₁
  rw [hcount]
  split_ifs at he₁ with hm
  · subst hm
    cases he₁
    refine ⟨fun _ => htrue, ?_⟩
    rw [(ha m e hk).2, hfalse, htrue, decide_eq_true rfl]
    rfl
  · rw [decide_eq_false fun h => hm h.symm]
    exact ha m e₁ he₁

theorem acceptPacket_entry (h : c.acceptPacket k e pkt use = .ok (copied, e', c')) :
    c'.recvMsgs = c.recvMsgs.insert k e' ∧ (∀ m, c'.stopRequests m = c.stopRequests m) ∧
      e'.bound = e.bound ∧ e'.stopped = e.stopped ∧ e'.bytes = e.bytes + copied := by
  obtain ⟨⟨copied', e'', mem⟩, hcopy, h⟩ := bind_eq_ok.mp h
  cases h
  refine ⟨rfl, fun m => ?_, LtMessageExt.copyGradients_entry hcopy⟩
  show List.countP _ _ = List.countP _ _
  split_ifs
  · show List.countP _ (c.log ++ [_]) = _
    rw [List.countP_append]
    rfl
  · rfl

theorem Asked.keepInBacklog (ha : c.Asked base) (h : Host) (k : UInt32) (size use : ℕ) :
    (c.keepInBacklog h k size use).Asked base := by
  unfold Communicator.keepInBacklog
  dsimp only
  split <;> exact ha.congr rfl fun _ => rfl

theorem Asked.deliver (ha : c.Asked base) {size : ℕ}
    (hstep : c.deliver h pkt size use = .ok c') : c'.Asked base := by
  unfold Communicator.deliver at hstep
  rcases hlook : c.recvMsgs.lookup pkt.msgId with _ | e
  · rw [hlook] at hstep
    cases hstep
    exact ha.keepInBacklog h _ size use
  · rw [hlook] at hstep
    obtain ⟨⟨copied, e', c₁⟩, haccept, hstep⟩ := bind_eq_ok.mp hstep
    obtain ⟨hrecv, hcount, hbound, hstopped, hbytes⟩ := acceptPacket_entry haccept
    dsimp only at hstep
    split_ifs at hstep with hstop
    · cases hstep
      have hput : c₁.recvMsgs.insert pkt.msgId { e' with stopped := true } =
          c.recvMsgs.insert pkt.msgId { e' with stopped := true } := by
        rw [hrecv]
        exact AList.insert_insert _
      refine ha.stop hlook hput (fun m => ?_) ?_ rfl
      · rw [stopRequests_enqueue]
        exact congrArg (· + _) (hcount m)
      · rw [← hstopped]
        exact Bool.eq_false_iff.mpr hstop.2.2
    · cases hstep
      refine ha.insert hlook hrecv hcount hstopped fun hfinish => ?_
      -- Nothing was copied, or the receive was stopped before.
      by_contra hst
      refine hstop ⟨Nat.pos_of_ne_zero fun hzero => hst ?_, hfinish, hst⟩
      rw [hstopped]
      apply (ha _ e hlook).1
      unfold LtMessageExt.finishReceiving at *
      rwa [hbound, hbytes, hzero] at hfinish

theorem Asked.handleReceive (ha : c.Asked base) {bytes : List UInt8} {rate : Option UInt32}
    (hstep : c.handleReceive h bytes use rate = .ok c') : c'.Asked base := by
  unfold Communicator.handleReceive at hstep
  obtain ⟨-, hstep⟩ := require_bind_eq_ok.mp hstep
  dsimp only at hstep
  split_ifs at hstep
  · cases hstep
    exact ha.congr rfl fun _ => rfl
  · refine Asked.deliver (ha.congr ?_ fun m => ?_) hstep
    · exact reportRate_recvMsgs _ _ _
    · exact stopRequests_reportRate _ _ _

theorem Asked.finishFlow (ha : c.Asked base) {maxSeqNum : ℕ}
    (hstep : c.finishFlow h k maxSeqNum = .ok c') : c'.Asked base := by
  have hask : ∀ {c : Communicator} (req : RetransmitRequest), c.Asked base →
      (c.enqueue h.destCommId (.retransmitRequest req)).Asked base := by
    intro c req hc
    exact hc.congr rfl fun m => stopRequests_enqueue _ _ _
  unfold Communicator.finishFlow at hstep
  dsimp only at hstep
  rcases hlook : c.recvMsgs.lookup k with _ | e
  · rw [hlook] at hstep
    cases hstep
    exact hask _ ha
  · rw [hlook] at hstep
    dsimp only at hstep
    split_ifs at hstep with hfinish
    · cases hstep
      exact ha
    · obtain ⟨mgr, -, hstep⟩ := bind_eq_ok.mp hstep
      have hput : (c.putRecv k { e with blockMgr := mgr }).Asked base :=
        ha.insert hlook rfl (fun _ => rfl) rfl fun hf => absurd hf hfinish
      split_ifs at hstep
      · cases hstep
        exact hput
      · obtain ⟨payload, -, hstep⟩ := bind_eq_ok.mp hstep
        cases hstep
        exact hask _ hput

theorem Asked.confirmStop (ha : c.Asked base) (hstep : c.confirmStop h k = .ok c') :
    c'.Asked base := by
  unfold Communicator.confirmStop at hstep
  rcases hlook : c.recvMsgs.lookup k with _ | e
  · rw [hlook] at hstep
    cases hstep
  · rw [hlook] at hstep
    cases hstep
    intro m e₁ he₁
    rw [IntMap.lookup_erase_ite] at he₁
    split_ifs at he₁
    exact ha m e₁ he₁

theorem Asked.pollReceivingNotification (ha : c.Asked base)
    (hstep : c.pollReceivingNotification h = .ok c') : c'.Asked base := by
  have hpop : ∀ receivingQueue, Asked base { c with receivingQueue } := fun _ => ha
  unfold Communicator.pollReceivingNotification at hstep
  split at hstep
  · cases hstep
    exact ha
  · exact (hpop _).finishFlow hstep
  · exact (hpop _).confirmStop hstep

/-! ## Receives that are taken up -/

structure TakesBacklog (k : UInt32) (c c' : Communicator) : Prop where
  others : ∀ m, m ≠ k → c'.recvMsgs.lookup m = c.recvMsgs.lookup m
  stopRequests : ∀ m, c'.stopRequests m = c.stopRequests m

theorem copyBacklog_entry {vec : List (ℕ × ℕ)} (h : copyBacklog k vec e c = .ok (e', c')) :
    e'.stopped = e.stopped ∧ TakesBacklog k c c' := by
  induction vec generalizing e c with
  | nil =>
    cases h
    exact ⟨rfl, fun _ _ => rfl, fun _ => rfl⟩
  | cons x vec ih =>
    obtain ⟨⟨copied, e₁, c₁⟩, haccept, h⟩ := bind_eq_ok.mp h
    obtain ⟨hrecv, hcount, -, hstopped, -⟩ := acceptPacket_entry haccept
    obtain ⟨hstopped', hothers, hcount'⟩ := ih h
    refine ⟨hstopped'.trans hstopped, fun m hm => ?_, fun m => (hcount' m).trans (hcount m)⟩
    rw [hothers m hm, hrecv, IntMap.lookup_insert_ite, if_neg hm]

theorem newRecvMsg_entry {ltmsg : LtMessage} (h : newRecvMsg ltmsg c = .ok (e, c')) :
    e.stopped = false ∧ TakesBacklog ltmsg.msgId c c' := by
  unfold newRecvMsg at h
  split at h
  · cases h
    exact ⟨rfl, fun _ _ => rfl, fun _ => rfl⟩
  · obtain ⟨⟨e₁, c₁⟩, hcopy, h⟩ := bind_eq_ok.mp h
    cases h
    obtain ⟨hstopped, htakes⟩ := copyBacklog_entry hcopy
    exact ⟨hstopped, htakes.others, htakes.stopRequests⟩

/-! ## Packets that wait for their receive -/

def waiting (c : Communicator) (m : UInt32) : List GradPacket :=
  ((c.backlogUsedMap.lookup m).getD []).map fun x => GradPacket.ofMemory c.mem x.1

/-- The payload bytes of the packets whose numbers are not taken, each number counted once. -/
def freshBytes (taken : Finset ℕ) : List GradPacket → ℕ
  | [] => 0
  | pkt :: pkts =>
    if pkt.seq.toNat ∈ taken then freshBytes taken pkts
    else LtMessageExt.gradBytes pkt + freshBytes (insert pkt.seq.toNat taken) pkts

/-- The packets of the slots, each as it is when its turn comes: nothing keeps the copy of a packet
from reaching the slot of a later one. -/
def inTurn (buf : ℕ) : List (ℕ × ℕ) → Finset ℕ → Memory → List GradPacket
  | [], _, _ => []
  | (slot, _) :: vec, taken, mem =>
    let pkt := GradPacket.ofMemory mem slot
    if pkt.seq.toNat ∈ taken then pkt :: inTurn buf vec taken mem
    else pkt :: inTurn buf vec (insert pkt.seq.toNat taken)
      (mem.copy (buf + pkt.offset.toNat) pkt.gradPtr.toNat (LtMessageExt.gradBytes pkt))

theorem copyBacklog_bytes {vec : List (ℕ × ℕ)} {taken : Finset ℕ}
    (hholds : e.blockMgr.Holds taken) (h : copyBacklog k vec e c = .ok (e', c')) :
    e'.bytes = e.bytes + freshBytes taken (inTurn e.buf vec taken c.mem) := by
  induction vec generalizing e c taken with
  | nil =>
    cases h
    rfl
  | cons x vec ih =>
    obtain ⟨⟨copied, e₁, c₁⟩, haccept, h⟩ := bind_eq_ok.mp h
    obtain ⟨⟨n, e₂, mem₂⟩, hcopy, haccept⟩ := bind_eq_ok.mp haccept
    cases haccept
    obtain ⟨-, -, hbytes⟩ := LtMessageExt.copyGradients_entry hcopy
    rcases copyGradients_cases hholds hcopy with
      ⟨hmem, rfl, rfl, rfl⟩ | ⟨hmem, -, -, rfl, hmsg, hholds', rfl⟩
    · rw [ih hholds h]
      simp only [inTurn, freshBytes, if_pos hmem]
      rfl
    · have hbuf : e₁.buf = e.buf := congrArg LtMessage.buf hmsg
      rw [ih hholds' h, hbytes, hbuf, Nat.add_assoc]
      simp only [inTurn, freshBytes, if_neg hmem]
      rfl

/-- The packets that wait for the receive at the head of the queue bring less than its bound. -/
def BacklogBelowBound (c : Communicator) : Prop :=
  match c.rrQueue with
  | [] => True
  | (ltmsg, target) :: _ =>
    freshBytes ∅ (inTurn ltmsg.buf ((c.backlogUsedMap.lookup ltmsg.msgId).getD []) ∅ c.mem) <
      alignUp sizeofFloat target

instance (c : Communicator) : Decidable c.BacklogBelowBound := by
  unfold BacklogBelowBound
  split
  · exact .isTrue trivial
  · exact Nat.decLt _ _

theorem newRecvMsg_bytes {ltmsg : LtMessage} (h : newRecvMsg ltmsg c = .ok (e, c')) :
    e.bytes = freshBytes ∅
      (inTurn ltmsg.buf ((c.backlogUsedMap.lookup ltmsg.msgId).getD []) ∅ c.mem) := by
  unfold newRecvMsg at h
  rcases hvec : c.backlogUsedMap.lookup ltmsg.msgId with _ | vec
  · rw [hvec] at h
    cases h
    rfl
  · rw [hvec] at h
    obtain ⟨⟨e₁, c₁⟩, hcopy, h⟩ := bind_eq_ok.mp h
    cases h
    have hholds : (LtMessageExt.new ltmsg).blockMgr.Holds ∅ := .inr ⟨rfl, rfl⟩
    rw [copyBacklog_bytes hholds hcopy]
    exact Nat.zero_add _

/-- No copy of a packet that waits for the receive reaches a packet in a slot. -/
def SlotsApart (c : Communicator) (ltmsg : LtMessage) : Prop :=
  ∀ pkt ∈ c.waiting ltmsg.msgId, ∀ x ∈ (c.backlogUsedMap.lookup ltmsg.msgId).getD [],
    x.1 + 28 ≤ ltmsg.buf + pkt.offset.toNat ∨
      ltmsg.buf + pkt.offset.toNat + LtMessageExt.gradBytes pkt ≤ x.1

theorem inTurn_eq {buf : ℕ} {vec : List (ℕ × ℕ)} {taken : Finset ℕ} {mem : Memory}
    (hapart : ∀ x ∈ vec, ∀ y ∈ vec,
      y.1 + 28 ≤ buf + (GradPacket.ofMemory mem x.1).offset.toNat ∨
        buf + (GradPacket.ofMemory mem x.1).offset.toNat +
          LtMessageExt.gradBytes (GradPacket.ofMemory mem x.1) ≤ y.1) :
    inTurn buf vec taken mem = vec.map fun x => GradPacket.ofMemory mem x.1 := by
  induction vec generalizing taken mem with
  | nil => rfl
  | cons x vec ih =>
    unfold inTurn
    dsimp only
    split_ifs
    · rw [List.map_cons, ih fun y hy z hz =>
        hapart y (List.mem_cons_of_mem _ hy) z (List.mem_cons_of_mem _ hz)]
    · generalize hmem' : Memory.copy mem _ _ _ = mem'
      -- The copy leaves the other slots as they are.
      have hsame : ∀ y ∈ vec, GradPacket.ofMemory mem' y.1 = GradPacket.ofMemory mem y.1 := by
        intro y hy
        refine GradPacket.ofMemory_congr fun i hi => ?_
        rw [← hmem']
        have := hapart x List.mem_cons_self y (List.mem_cons_of_mem _ hy)
        exact Memory.copy_of_outside _ (by omega)
      rw [List.map_cons, ih fun y hy z hz => ?_, List.map_congr_left hsame]
      rw [hsame y hy]
      exact hapart y (List.mem_cons_of_mem _ hy) z (List.mem_cons_of_mem _ hz)

theorem backlogBelowBound_iff {ltmsg : LtMessage} {target : ℕ} {rrQueue : List (LtMessage × ℕ)}
    (hq : c.rrQueue = (ltmsg, target) :: rrQueue) (hapart : c.SlotsApart ltmsg) :
    c.BacklogBelowBound ↔
      freshBytes ∅ (c.waiting ltmsg.msgId) < alignUp sizeofFloat target := by
  unfold BacklogBelowBound
  rw [hq]
  dsimp only
  rw [inTurn_eq fun x hx y hy => hapart _ (List.mem_map_of_mem hx) y hy]
  rfl

def takeUp (c : Communicator) (base : UInt32 → ℕ) : UInt32 → ℕ :=
  match c.rrQueue with
  | [] => base
  | (ltmsg, _) :: _ => Function.update base ltmsg.msgId (c.stopRequests ltmsg.msgId)

theorem pollReceiveRequest_entry (base : UInt32 → ℕ) (hstep : c.pollReceiveRequest = .ok c') :
    c.rrQueue = [] ∧ c' = c ∨ ∃ (ltmsg : LtMessage) (e : LtMessageExt), c.takeUp base =
        Function.update base ltmsg.msgId (c.stopRequests ltmsg.msgId) ∧
      (c.BacklogBelowBound ↔ ¬e.finishReceiving = true) ∧ e.stopped = false ∧
      c'.recvMsgs.lookup ltmsg.msgId = some e ∧ TakesBacklog ltmsg.msgId c c' := by
  unfold pollReceiveRequest at hstep
  unfold takeUp BacklogBelowBound
  rcases hq : c.rrQueue with _ | ⟨⟨ltmsg, target⟩, rrQueue⟩
  · rw [hq] at hstep
    cases hstep
    exact .inl ⟨rfl, rfl⟩
  · rw [hq] at hstep
    obtain ⟨-, hstep⟩ := require_bind_eq_ok.mp hstep
    obtain ⟨⟨e, c₁⟩, hnew, hstep⟩ := bind_eq_ok.mp hstep
    obtain ⟨hstopped, htakes⟩ := newRecvMsg_entry hnew
    cases hstep
    refine .inr ⟨ltmsg, { e with bound := alignUp sizeofFloat target }, rfl, ?_, hstopped,
      AList.lookup_insert _, fun m hm => ?_, htakes.stopRequests⟩
    · have hbytes := newRecvMsg_bytes hnew
      dsimp only at hbytes ⊢
      rw [← hbytes]
      simp [LtMessageExt.finishReceiving]
    · show AList.lookup m (AList.insert _ _ c₁.recvMsgs) = _
      rw [IntMap.lookup_insert_ite, if_neg hm]
      exact htakes.others m hm

theorem Asked.pollReceiveRequest (ha : c.Asked base) (hstep : c.pollReceiveRequest = .ok c')
    (hbelow : c.BacklogBelowBound) : c'.Asked (c.takeUp base) := by
  rcases pollReceiveRequest_entry base hstep with
    ⟨hq, rfl⟩ | ⟨ltmsg, e, htake, hiff, hstopped, hlook, htakes⟩
  · unfold takeUp
    rw [hq]
    exact ha
  · intro m e₁ he₁
    rw [htake, htakes.stopRequests]
    by_cases hm : m = ltmsg.msgId
    · subst hm
      rw [hlook] at he₁
      cases he₁
      rw [Function.update_self, hstopped]
      exact ⟨fun hf => absurd hf (hiff.mp hbelow), rfl⟩
    · rw [Function.update_of_ne hm]
      exact ha m e₁ (htakes.others m hm ▸ he₁)

end Communicator

/-! ## Runs -/

/-- The thread, and for each message the `StopRequest`s before its receive was taken up. -/
structure ReceivingThread where
  comm : Communicator
  asked : UInt32 → ℕ

inductive ReceivingAction where
  | postRecv (msg : LtMessage) (lossRatio : ℚ)
  | notify (notification : ReceivingNotification)
  | handleReceive (bytes : List UInt8) (pktUse : ℕ) (rate : Option UInt32)
  | pollReceiveRequest
  | pollNotification

namespace ReceivingThread

def step (h : Host) (t : ReceivingThread) : ReceivingAction → Except Fault ReceivingThread
  | .postRecv msg lossRatio =>
    .ok { t with comm := t.comm.postRecv msg (Shipment.lossTarget msg.size lossRatio) }
  | .notify notification =>
    .ok { t with comm := { t.comm with
      receivingQueue := t.comm.receivingQueue ++ [notification] } }
  | .handleReceive bytes pktUse rate => do
    let comm ← t.comm.handleReceive h bytes pktUse rate
    return { t with comm }
  | .pollReceiveRequest => do
    let comm ← t.comm.pollReceiveRequest
    return ⟨comm, t.comm.takeUp t.asked⟩
  | .pollNotification => do
    let comm ← t.comm.pollReceivingNotification h
    return { t with comm }

def machine (h : Host) (slots : List ℕ) :
    Machine ReceivingThread ReceivingAction Fault where
  init := ⟨{ Communicator.init with backlogFreeList := slots }, fun _ => 0⟩
  step := step h

def Posts (_ : ReceivingThread) : ReceivingAction → Prop
  | .postRecv msg lossRatio => 0 < msg.size ∧ 0 ≤ lossRatio ∧ lossRatio ≤ 1
  | _ => True

def Admits (t : ReceivingThread) : ReceivingAction → Prop
  | .pollReceiveRequest => t.comm.BacklogBelowBound
  | action => t.Posts action

instance (t : ReceivingThread) (action : ReceivingAction) : Decidable (t.Posts action) :=
  match action with
  | .postRecv msg lossRatio => inferInstanceAs (Decidable (0 < msg.size ∧ 0 ≤ lossRatio ∧ _))
  | .notify _ => inferInstanceAs (Decidable True)
  | .handleReceive .. => inferInstanceAs (Decidable True)
  | .pollReceiveRequest => inferInstanceAs (Decidable True)
  | .pollNotification => inferInstanceAs (Decidable True)

instance (t : ReceivingThread) (action : ReceivingAction) : Decidable (t.Admits action) :=
  match action with
  | .postRecv msg lossRatio => inferInstanceAs (Decidable (t.Posts (.postRecv msg lossRatio)))
  | .notify _ => inferInstanceAs (Decidable True)
  | .handleReceive .. => inferInstanceAs (Decidable True)
  | .pollReceiveRequest => inferInstanceAs (Decidable t.comm.BacklogBelowBound)
  | .pollNotification => inferInstanceAs (Decidable True)

/-- Every receive that has enough is stopped, with one `StopRequest` since it was taken up. -/
def StopAsked (t : ReceivingThread) : Prop :=
  ∀ m e, t.comm.recvMsgs.lookup m = some e → e.finishReceiving = true →
    e.stopped = true ∧ t.comm.stopRequests m = t.asked m + 1

variable {h : Host} {slots : List ℕ} {t t' : ReceivingThread} {action : ReceivingAction}

theorem asked_step (ha : t.comm.Asked t.asked) (hadmits : t.Admits action)
    (hstep : t.step h action = .ok t') : t'.comm.Asked t'.asked := by
  cases action with
  | postRecv msg lossRatio =>
    cases hstep
    exact ha.congr rfl fun _ => rfl
  | notify notification =>
    cases hstep
    exact ha.congr rfl fun _ => rfl
  | handleReceive bytes pktUse rate =>
    obtain ⟨comm, hcomm, hstep⟩ := bind_eq_ok.mp hstep
    cases hstep
    exact ha.handleReceive hcomm
  | pollReceiveRequest =>
    obtain ⟨comm, hcomm, hstep⟩ := bind_eq_ok.mp hstep
    cases hstep
    exact ha.pollReceiveRequest hcomm hadmits
  | pollNotification =>
    obtain ⟨comm, hcomm, hstep⟩ := bind_eq_ok.mp hstep
    cases hstep
    exact ha.pollReceivingNotification hcomm

theorem asked_of_reachable (ht : (machine h slots).Reachable Admits t) :
    t.comm.Asked t.asked := by
  refine ht.invariant (P := fun t => t.comm.Asked t.asked) ?_ fun s a s' ha hadmits hstep =>
    asked_step ha hadmits hstep
  intro m e he
  cases he

theorem StopAsked.of_asked (ha : t.comm.Asked t.asked) : t.StopAsked := by
  intro m e he hfinish
  obtain ⟨hstopped, hcount⟩ := ha m e he
  rw [hcount, hstopped hfinish]
  exact ⟨rfl, rfl⟩

/-- In every run in which no receive is complete when it is taken up, every receive that has
enough has asked its sender to stop, once; and the next receive keeps this only in that way. Where
the copies do not reach the slots, what counts are the packets that wait. -/
theorem stop_asked_iff (h : Host) (slots : List ℕ) (t : ReceivingThread)
    (ht : (machine h slots).Reachable Admits t) :
    t.StopAsked ∧ (∀ t', t.step h .pollReceiveRequest = .ok t' →
      (t'.StopAsked ↔ t.comm.BacklogBelowBound)) ∧
      ∀ ltmsg target rrQueue, t.comm.rrQueue = (ltmsg, target) :: rrQueue →
        t.comm.SlotsApart ltmsg → (t.comm.BacklogBelowBound ↔
          freshBytes ∅ (t.comm.waiting ltmsg.msgId) < alignUp sizeofFloat target) := by
  have ha := asked_of_reachable ht
  refine ⟨.of_asked ha, fun t' hstep => ⟨fun hasked => ?_, fun hbelow => ?_⟩,
    fun ltmsg target rrQueue hq hapart => backlogBelowBound_iff hq hapart⟩
  · obtain ⟨comm, hcomm, hstep⟩ := bind_eq_ok.mp hstep
    cases hstep
    rcases pollReceiveRequest_entry t.asked hcomm with
      ⟨hq, -⟩ | ⟨ltmsg, e, -, hiff, hstopped, hlook, -⟩
    · rw [BacklogBelowBound, hq]
      trivial
    · rw [hiff]
      intro hfinish
      have := (hasked _ e hlook hfinish).1
      rw [hstopped] at this
      cases this
  · exact .of_asked (asked_step ha (show t.Admits .pollReceiveRequest from hbelow) hstep)

theorem stop_asked_iff_four :
    ∃ t e, (machine smallHost []).Reachable Admits t ∧ t.comm.recvMsgs.lookup 7 = some e ∧
      e.finishReceiving = true ∧ e.stopped = true ∧ t.comm.stopRequests 7 = t.asked 7 + 1 := by
  obtain ⟨t, ht, hlook⟩ := (machine smallHost []).exists_reachable_of_run Admits
    [.postRecv ⟨7, 131072, 4, 0⟩ 0, .pollReceiveRequest, .handleReceive (forgedBytes 0 24) 0 none]
    (fun t => (t.comm.recvMsgs.lookup 7).map (·.finishReceiving) = some true) (by decide +kernel)
  obtain ⟨e, he, hfinish⟩ := Option.map_eq_some_iff.mp hlook
  exact ⟨t, e, ht, he, hfinish, (stop_asked_iff smallHost [] t ht).1 7 e he hfinish⟩

def HangsSeven (t : ReceivingThread) : Prop :=
  t.comm.txQueue = [] ∧
    (t.comm.recvMsgs.lookup 7).map (fun e => (e.finishReceiving, e.stopped)) = some (true, false)

instance (t : ReceivingThread) : Decidable t.HangsSeven :=
  inferInstanceAs (Decidable (_ ∧ _))

theorem HangsSeven.not_stopAsked (hhangs : t.HangsSeven) : ¬t.StopAsked := by
  intro hasked
  obtain ⟨e, he, hflags⟩ := Option.map_eq_some_iff.mp hhangs.2
  obtain ⟨hfinish, hstopped⟩ := Prod.mk.inj hflags
  rw [(hasked 7 e he hfinish).1] at hstopped
  cases hstopped

/-- A receive for which everything may be lost, and one whose only packet came before it was
posted: both are finished, and not even `FINISH_FLOW` makes the thread send anything. -/
theorem finished_without_stop :
    (∃ t, (machine smallHost []).Reachable Posts t ∧ t.HangsSeven ∧ ¬t.StopAsked) ∧
      ∃ t, (machine smallHost [8192]).Reachable Posts t ∧ t.HangsSeven ∧ ¬t.StopAsked := by
  constructor
  · obtain ⟨t, ht, hhangs⟩ := (machine smallHost []).exists_reachable_of_run Posts
      [.postRecv ⟨7, 131072, 4, 0⟩ 1, .pollReceiveRequest, .notify (.finishFlow 7 0),
        .pollNotification] HangsSeven (by decide +kernel)
    exact ⟨t, ht, hhangs, hhangs.not_stopAsked⟩
  · obtain ⟨t, ht, hhangs⟩ := (machine smallHost [8192]).exists_reachable_of_run Posts
      [.handleReceive (forgedBytes 0 24) 0 none, .postRecv ⟨7, 131072, 4, 0⟩ 0,
        .pollReceiveRequest, .notify (.finishFlow 7 0), .pollNotification] HangsSeven
      (by decide +kernel)
    exact ⟨t, ht, hhangs, hhangs.not_stopAsked⟩

end ReceivingThread

end Mlt
