import MltByteps.Mlt.PriorityThread

/-! One UDP endpoint: `RoutePacket` fills its `tx_queue`, `OnSendReady` empties it into a
socket that may block at any packet. -/

namespace Mlt

/-- `accepted` has the packets that the socket has taken, `calls` the results of all calls of
`sendmsg`. The program reads neither. -/
structure UdpEndpoint where
  txQueue : List GradPacket
  accepted : List GradPacket
  calls : List SendResult
deriving DecidableEq

namespace UdpEndpoint

def start (txQueue : List GradPacket) : UdpEndpoint := ⟨txQueue, [], []⟩

/-- `tx_queue().push(pkt)` of `RoutePacket`. -/
def push (pkt : GradPacket) (ep : UdpEndpoint) : UdpEndpoint :=
  { ep with txQueue := ep.txQueue ++ [pkt] }

/-- `sendmsg` took the packet that has just left the queue. -/
def accept (pkt : GradPacket) (txQueue : List GradPacket) (nbytes : ℕ) (ep : UdpEndpoint) :
    UdpEndpoint :=
  ⟨txQueue, ep.accepted ++ [pkt], ep.calls ++ [.sent nbytes]⟩

/-- `sendmsg` would block: the loop ends behind the `pop`. -/
def block (txQueue : List GradPacket) (ep : UdpEndpoint) : UdpEndpoint :=
  ⟨txQueue, ep.accepted, ep.calls ++ [.wouldBlock]⟩

/-- The loop of `OnSendReady` with the results of its calls of `sendmsg`; behind the last of
them the socket blocks. -/
def sendLoop : List SendResult → ℕ → UdpEndpoint → Except Fault (ℕ × UdpEndpoint)
  | [], totalLen, ep =>
    match ep.txQueue with
    | [] => .ok (totalLen, ep)
    | _ :: txQueue => .ok (totalLen, ep.block txQueue)
  | result :: results, totalLen, ep =>
    match ep.txQueue with
    | [] => .ok (totalLen, ep)
    | pkt :: txQueue =>
      match result with
      | .sent nbytes => do
        require .sendMsg (nbytes = pkt.len.toNat)
        sendLoop results (totalLen + nbytes) (ep.accept pkt txQueue nbytes)
      | .wouldBlock => .ok (totalLen, ep.block txQueue)
      | .failed => .error .sendMsg

def onSendReady (results : List SendResult) (ep : UdpEndpoint) : Except Fault (ℕ × UdpEndpoint) :=
  ep.sendLoop results 0

inductive Op where
  | push (pkt : GradPacket)
  | onSendReady (results : List SendResult)
deriving DecidableEq

def step (ep : UdpEndpoint) : Op → Except Fault UdpEndpoint
  | .push pkt => .ok (ep.push pkt)
  | .onSendReady results => do
    let (_, ep) ← ep.onSendReady results
    return ep

def run : List Op → UdpEndpoint → Except Fault UdpEndpoint
  | [], ep => .ok ep
  | op :: ops, ep => do
    let ep ← ep.step op
    run ops ep

def Op.pushed : Op → Option GradPacket
  | .push pkt => some pkt
  | .onSendReady _ => none

/-! ## What one call does -/

variable {ep ep' : UdpEndpoint} {totalLen n : ℕ} {results : List SendResult}

/-- What a call takes from the queue: first the packets it sends, behind them the one packet at
which the socket blocks, if it blocks. -/
structure Taken (ep ep' : UdpEndpoint) (sent lost : List GradPacket) : Prop where
  txQueue_eq : ep.txQueue = sent ++ lost ++ ep'.txQueue
  accepted_eq : ep'.accepted = ep.accepted ++ sent
  calls_eq : ep'.calls = ep.calls ++ (sent.map fun pkt => .sent pkt.len.toNat) ++
    lost.map fun _ => .wouldBlock

theorem sendLoop_taken (h : ep.sendLoop results totalLen = .ok (n, ep')) :
    ∃ sent lost, ep.Taken ep' sent lost ∧ n = totalLen + (sent.map (·.len.toNat)).sum := by
  induction results generalizing ep totalLen with
  | nil =>
    unfold sendLoop at h
    rcases hq : ep.txQueue with _ | ⟨pkt, txQueue⟩ <;> rw [hq] at h <;> cases h
    · exact ⟨[], [], ⟨rfl, by simp, by simp⟩, rfl⟩
    · exact ⟨[], [pkt], ⟨hq, by simp [block], by simp [block]⟩, rfl⟩
  | cons result results ih =>
    unfold sendLoop at h
    rcases hq : ep.txQueue with _ | ⟨pkt, txQueue⟩ <;> rw [hq] at h
    · cases h
      exact ⟨[], [], ⟨rfl, by simp, by simp⟩, rfl⟩
    · cases result with
      | sent nbytes =>
        obtain ⟨rfl, h⟩ := require_bind_eq_ok.mp h
        obtain ⟨sent, lost, ht, rfl⟩ := ih h
        have hq' : txQueue = sent ++ lost ++ ep'.txQueue := ht.txQueue_eq
        refine ⟨pkt :: sent, lost, ⟨?_, ?_, ?_⟩, ?_⟩
        · rw [hq, hq', List.cons_append, List.cons_append]
        · rw [ht.accepted_eq, accept, List.append_assoc, List.singleton_append]
        · rw [ht.calls_eq, accept, List.map_cons]
          simp only [List.append_assoc, List.cons_append, List.nil_append]
        · rw [List.map_cons, List.sum_cons, Nat.add_assoc]
      | wouldBlock =>
        cases h
        exact ⟨[], [pkt], ⟨hq, by simp [block], by simp [block]⟩, rfl⟩
      | failed => cases h

theorem onSendReady_taken (h : ep.onSendReady results = .ok (n, ep')) :
    ∃ sent lost, ep.Taken ep' sent lost ∧ n = (sent.map (·.len.toNat)).sum := by
  obtain ⟨sent, lost, ht, hn⟩ := sendLoop_taken h
  exact ⟨sent, lost, ht, by rw [hn, Nat.zero_add]⟩

/-! ## Whole runs -/

def kept (ep : UdpEndpoint) : List GradPacket := ep.accepted ++ ep.txQueue

/-- The packets pushed on the way from `ep` to `ep'` are kept in their order, all but one for
each call that blocked. -/
structure Carries (ep ep' : UdpEndpoint) (pushed : List GradPacket) : Prop where
  sublist : ep'.kept.Sublist (ep.kept ++ pushed)
  length_eq : ep'.kept.length + ep'.calls.count .wouldBlock =
    ep.kept.length + pushed.length + ep.calls.count .wouldBlock

theorem Carries.refl (ep : UdpEndpoint) : ep.Carries ep [] := by
  refine ⟨?_, by simp⟩
  rw [List.append_nil]

theorem Carries.trans {ep'' : UdpEndpoint} {xs ys : List GradPacket} (h : ep.Carries ep' xs)
    (h' : ep'.Carries ep'' ys) : ep.Carries ep'' (xs ++ ys) := by
  constructor
  · rw [← List.append_assoc]
    exact h'.sublist.trans (h.sublist.append (List.Sublist.refl ys))
  · rw [h'.length_eq, List.length_append]
    have := h.length_eq
    omega

theorem carries_push (pkt : GradPacket) (ep : UdpEndpoint) : ep.Carries (ep.push pkt) [pkt] := by
  have hkept : (ep.push pkt).kept = ep.kept ++ [pkt] := by
    rw [kept, kept, push, List.append_assoc]
  refine ⟨?_, ?_⟩
  · rw [hkept]
  · rw [hkept, List.length_append, push]

theorem Taken.carries {sent lost : List GradPacket} (h : ep.Taken ep' sent lost) :
    ep.Carries ep' [] := by
  have hkept : ep.kept = ep.accepted ++ sent ++ lost ++ ep'.txQueue := by
    rw [kept, h.txQueue_eq]
    simp only [List.append_assoc]
  have hkept' : ep'.kept = ep.accepted ++ sent ++ ep'.txQueue := by rw [kept, h.accepted_eq]
  have hsent : (sent.map fun pkt => SendResult.sent pkt.len.toNat).count .wouldBlock = 0 := by
    rw [List.count_eq_zero, List.mem_map]
    rintro ⟨pkt, -, hpkt⟩
    cases hpkt
  have hlost : (lost.map fun _ => SendResult.wouldBlock).count .wouldBlock = lost.length := by
    rw [List.map_const', List.count_replicate_self]
  constructor
  · rw [hkept, hkept', List.append_nil]
    exact (List.sublist_append_left _ lost).append (List.Sublist.refl _)
  · rw [hkept, hkept', h.calls_eq, List.count_append, List.count_append, hsent, hlost]
    simp only [List.length_append, List.length_nil]
    omega

theorem carries_step {op : Op} (h : ep.step op = .ok ep') : ep.Carries ep' op.pushed.toList := by
  cases op with
  | push pkt =>
    cases h
    exact carries_push pkt ep
  | onSendReady results =>
    obtain ⟨⟨n, ep₁⟩, hready, h⟩ := bind_eq_ok.mp h
    cases h
    obtain ⟨sent, lost, ht, -⟩ := onSendReady_taken hready
    exact ht.carries

theorem carries_run {ops : List Op} (h : ep.run ops = .ok ep') :
    ep.Carries ep' (ops.filterMap Op.pushed) := by
  induction ops generalizing ep with
  | nil =>
    cases h
    exact Carries.refl _
  | cons op ops ih =>
    obtain ⟨ep₁, hstep, h⟩ := bind_eq_ok.mp h
    have hop := (carries_step hstep).trans (ih h)
    rcases hp : op.pushed with _ | pkt <;> rw [hp] at hop
    · rw [List.filterMap_cons_none hp]
      exact hop
    · rw [List.filterMap_cons_some hp]
      exact hop

/-- Over any number of calls the socket and the queue hold what was pushed, in order, exactly as
long as no call of `sendmsg` has blocked: each one that blocks loses its packet. -/
theorem accepted_append_txQueue_iff (txQueue : List GradPacket) (ops : List Op) {ep : UdpEndpoint}
    (hrun : (start txQueue).run ops = .ok ep) :
    ep.accepted ++ ep.txQueue = txQueue ++ ops.filterMap Op.pushed ↔
      SendResult.wouldBlock ∉ ep.calls := by
  have h := carries_run hrun
  have hlen : ep.kept.length + ep.calls.count .wouldBlock =
      (txQueue ++ ops.filterMap Op.pushed).length := by
    rw [h.length_eq, List.length_append]
    rfl
  rw [← List.count_eq_zero]
  constructor
  · intro heq
    rw [← heq] at hlen
    exact Nat.add_left_cancel (hlen.trans (Nat.add_zero _).symm)
  · intro hzero
    rw [hzero, Nat.add_zero] at hlen
    exact h.sublist.eq_of_length hlen

def twoPackets : List GradPacket :=
  [⟨1, 0, 0, 30, 2, 1, 0, 0, 0⟩, ⟨1, 10, 1, 25, 2, 1, 0, 1, 10⟩]

theorem two_packets_kept :
    ∃ ep, (start twoPackets).run [.onSendReady [.sent 30, .sent 25]] = .ok ep ∧
      ep.accepted ++ ep.txQueue = twoPackets := by
  refine ⟨⟨[], twoPackets, [.sent 30, .sent 25]⟩, rfl, ?_⟩
  exact (accepted_append_txQueue_iff twoPackets [.onSendReady [.sent 30, .sent 25]] rfl).mpr
    (by decide)

/-- The socket blocks at the first packet and takes the second one when it is ready again. -/
theorem blocked_packet_lost :
    ∃ ep, (start twoPackets).run [.onSendReady [.wouldBlock], .onSendReady [.sent 25]] = .ok ep ∧
      ep.accepted ++ ep.txQueue = twoPackets.drop 1 ∧
      ep.accepted ++ ep.txQueue ≠ twoPackets :=
  ⟨⟨[], twoPackets.drop 1, [.wouldBlock, .sent 25]⟩, rfl, rfl, by decide⟩

end UdpEndpoint

/-! ## The endpoints of the sending thread -/

namespace PriorityChannel

/-- The packets in the `tx_queue` of the endpoint of a `tos`. -/
def queueOf (tos : UInt8) (ch : PriorityChannel) : List GradPacket :=
  (ch.txPackets.filter (·.2.tos = tos)).map (·.2)

theorem queueOf_popPacket (tos : UInt8) (ch : PriorityChannel) :
    (ch.popPacket tos).queueOf tos = (ch.queueOf tos).tail := by
  unfold popPacket queueOf
  dsimp only
  induction ch.txPackets with
  | nil => rfl
  | cons x xs ih =>
    by_cases hx : x.2.tos = tos
    · rw [List.eraseP_cons_of_pos (by simpa using hx), List.filter_cons_of_pos (by simpa using hx)]
      rfl
    · rw [List.eraseP_cons_of_neg (by simpa using hx), List.filter_cons_of_neg (by simpa using hx),
        List.filter_cons_of_neg (by simpa using hx), ih]

theorem head?_queueOf (tos : UInt8) (ch : PriorityChannel) :
    (ch.queueOf tos).head? = (ch.txPackets.find? (·.2.tos = tos)).map (·.2) := by
  rw [queueOf, List.head?_map, List.head?_filter]

theorem onSendReady_queueOf (tos : UInt8) (results : List SendResult) (ch : PriorityChannel)
    (ep : UdpEndpoint) (totalLen : ℕ) (hq : ep.txQueue = ch.queueOf tos) :
    (ch.onSendReady tos results).map (queueOf tos) =
      (ep.sendLoop results totalLen).map (·.2.txQueue) := by
  induction results generalizing ch ep totalLen with
  | nil =>
    have hpop := queueOf_popPacket tos ch
    rw [onSendReady, UdpEndpoint.sendLoop]
    rcases he : ep.txQueue with _ | ⟨pkt, txQueue⟩ <;> rw [he] at hq <;> rw [← hq] at hpop
    · simp [Except.map, hpop, he]
    · simp [Except.map, hpop, UdpEndpoint.block]
  | cons result results ih =>
    have hpop := queueOf_popPacket tos ch
    have hhead := head?_queueOf tos ch
    rw [onSendReady, UdpEndpoint.sendLoop]
    rcases he : ep.txQueue with _ | ⟨pkt, txQueue⟩ <;> rw [he] at hq <;> rw [← hq] at hpop hhead
    · rw [Option.map_eq_none_iff.mp hhead.symm]
      simp [Except.map, he, hq]
    · obtain ⟨⟨dest, pkt'⟩, hfind, rfl⟩ := Option.map_eq_some_iff.mp hhead.symm
      rw [hfind]
      cases result with
      | sent nbytes =>
        by_cases hlen : nbytes = pkt'.len.toNat
        · dsimp only
          rw [require_bind _ hlen, require_bind _ hlen]
          exact ih (ch.popPacket tos) (ep.accept pkt' txQueue nbytes) _ hpop.symm
        · simp only [require, if_neg hlen]
          rfl
      | wouldBlock => simp [Except.map, hpop, UdpEndpoint.block]
      | failed => rfl

end PriorityChannel

end Mlt
