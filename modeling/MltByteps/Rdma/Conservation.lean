import MltByteps.Rdma.VanSteps

/-! Where the messages are that one node has sent to another: waiting for the answer to a
rendezvous, on their way, announced or received. -/

namespace Ps.Rdma.Fabric

def isMessage : WorkRequest → Bool
  | .start _ => true
  | .reply _ => false
  | .write _ _ => false
  | .writeWithImm _ _ _ => true

def isReply : WorkRequest → Bool
  | .reply _ => true
  | _ => false

/-- The messages from `w` to `d` on their way; that of a reply is still at `w`. -/
def underway (s : Fabric) (w d : ℤ) : ℕ :=
  (s.net (w, d)).countP isMessage + (s.net (d, w)).countP isReply

/-- The messages from `w` that a van has been told of. -/
def arrived (v : RDMAVan) (w : ℤ) : ℕ :=
  v.recvBuffers.countP (fun x => x.1 = w) + v.returned.countP fun msg => msg.sender = w

def sends (w d : ℤ) : Event → Bool
  | .sendMsg node msg => w = node && d = msg.recver
  | _ => false

variable {cfg : ℤ → Config} {s s' : Fabric} {node peer dest : ℤ} {v : RDMAVan} {wr : WorkRequest}
  {posts wrs : List WorkRequest}

theorem underway_post (w d : ℤ) : (s.post node v dest posts).underway w d = s.underway w d +
    (if w = node ∧ d = dest then posts.countP isMessage else 0) +
      if d = node ∧ w = dest then posts.countP isReply else 0 := by
  unfold underway
  rw [countP_post, countP_post]
  simp only [Prod.mk.injEq]
  omega

theorem underway_take (hnet : s.net (peer, node) = wr :: wrs) (w d : ℤ) :
    s.underway w d = (s.take node peer wr wrs).underway w d +
      (if w = peer ∧ d = node then [wr].countP isMessage else 0) +
        if d = peer ∧ w = node then [wr].countP isReply else 0 := by
  unfold underway
  rw [countP_take hnet, countP_take hnet isReply]
  simp only [Prod.mk.injEq]
  omega

theorem arrived_post_same (hrecv : v.recvBuffers = (s.van node).recvBuffers)
    (hret : v.returned = (s.van node).returned) (w d : ℤ) :
    arrived ((s.post node v dest posts).van d) w = arrived (s.van d) w := by
  by_cases hd : d = node
  · rw [hd, post_van_self, arrived, arrived, hrecv, hret]
  · rw [post_van_of_ne hd]

theorem countP_sendPushpull {cfg : Config} {msg : Message} {buf : MessageBuffer} {t : RemoteTuple}
    (h : v.sendPushpull cfg msg buf t = .ok posts) :
    posts.countP isMessage = 1 ∧ posts.countP isReply = 0 := by
  obtain ⟨data, rfl, hdata⟩ := RDMAVan.sendPushpull_cases h
  rcases hdata with rfl | ⟨-, -, mr, -, rfl⟩ | ⟨-, -, src, rfl⟩ <;> exact ⟨rfl, rfl⟩

theorem sendMsg_count {msg : Message}
    (h : (s.van node).sendMsg (cfg node) msg = .ok (v, posts)) (w d : ℤ) :
    (s.post node v msg.recver posts).underway w d +
      arrived ((s.post node v msg.recver posts).van d) w =
        s.underway w d + arrived (s.van d) w + if w = node ∧ d = msg.recver then 1 else 0 := by
  obtain ⟨msg', memMr, -, hcases⟩ := RDMAVan.sendMsg_cases h
  have hposts : posts.countP isMessage = 1 ∧ posts.countP isReply = 0 := by
    rcases hcases with ⟨mrs, -, -, rfl⟩ | ⟨t, buf, -, -, -, -, -, hposts⟩
    · exact ⟨rfl, rfl⟩
    · exact countP_sendPushpull hposts
  have hsame : v.recvBuffers = (s.van node).recvBuffers ∧ v.returned = (s.van node).returned := by
    rcases hcases with ⟨mrs, -, rfl, -⟩ | ⟨t, buf, -, -, -, -, rfl, -⟩ <;> exact ⟨rfl, rfl⟩
  rw [underway_post, arrived_post_same hsame.1 hsame.2, hposts.1, hposts.2, ite_self]
  omega

theorem pollCQ_count (hnet : s.net (peer, node) = wr :: wrs)
    (h : (s.van node).pollCQ (cfg node) peer wr = .ok (v, posts)) (w d : ℤ) :
    ((s.take node peer wr wrs).post node v peer posts).underway w d +
      arrived (((s.take node peer wr wrs).post node v peer posts).van d) w =
        s.underway w d + arrived (s.van d) w := by
  rw [underway_take hnet w d, underway_post]
  have hsame : v.recvBuffers = (s.van node).recvBuffers → v.returned = (s.van node).returned →
      arrived (((s.take node peer wr wrs).post node v peer posts).van d) w =
        arrived (s.van d) w := fun hrecv hret =>
    @arrived_post_same (s.take node peer wr wrs) node peer v posts hrecv hret w d
  cases wr with
  | start req =>
    obtain ⟨idx, pool, -, hv, rfl⟩ := RDMAVan.pollCQ_start_cases h
    rw [hsame (by rw [hv]; rfl) (by rw [hv]; rfl)]
    simp [isMessage, isReply, and_comm]
  | reply resp =>
    obtain ⟨msg, buf, pushAddr, pullAddr, -, -, hv, -, hcases⟩ := RDMAVan.pollCQ_reply_cases h
    have hposts : posts.countP isMessage = 1 ∧ posts.countP isReply = 0 := by
      rcases hcases with rfl | ⟨-, hposts⟩
      · exact ⟨rfl, rfl⟩
      · exact countP_sendPushpull hposts
    rw [hsame (by rw [hv]) (by rw [hv]), hposts.1, hposts.2]
    simp [isMessage, isReply, and_comm]
  | write a bytes =>
    cases h
    rw [hsame rfl rfl]
    simp [isMessage, isReply]
  | writeWithImm a bytes imm =>
    obtain ⟨ctx, -, h⟩ := bind_eq_ok.mp h
    cases h
    by_cases hd : d = node
    · subst hd
      rw [post_van_self, arrived, arrived, List.countP_append]
      by_cases hw : w = peer
      · simp [isMessage, isReply, hw]
        omega
      · simp [isReply, hw, Ne.symm hw]
    · rw [post_van_of_ne hd]
      simp [isReply, hd]
      rfl

theorem recvMsg_count (h : (s.van node).recvMsg (cfg node) = .ok v) (w d : ℤ) :
    (s.post node v node []).underway w d + arrived ((s.post node v node []).van d) w =
      s.underway w d + arrived (s.van d) w := by
  obtain ⟨peer, ctx, rest, m, msg, mem, top, tensorInfoMap, hbuffers, -, hmeta, hv, -⟩ :=
    RDMAVan.recvMsg_cases h
  have hsender : msg.sender = peer := (congrArg Meta.sender hmeta :)
  rw [underway_post]
  by_cases hd : d = node
  · rw [hd, post_van_self, arrived, arrived, hbuffers, hv]
    simp only [List.countP_cons, List.countP_nil, hsender]
    split_ifs <;> omega
  · rw [post_van_of_ne hd]
    simp

theorem step_count {e : Event} (h : s.step cfg e = .ok s') (w d : ℤ) :
    s'.underway w d + arrived (s'.van d) w =
      s.underway w d + arrived (s.van d) w + if sends w d e then 1 else 0 := by
  rcases e with ⟨node, msg⟩ | ⟨node, peer⟩ | node | ⟨node, a, bytes⟩
  · obtain ⟨⟨v, posts⟩, hsend, h⟩ := bind_eq_ok.mp h
    cases h
    simpa only [sends, Bool.and_eq_true, decide_eq_true_eq] using sendMsg_count hsend w d
  · unfold step at h
    dsimp only at h
    split at h
    · cases h
    next wr wrs hnet =>
    obtain ⟨⟨v, posts⟩, hpoll, h⟩ := bind_eq_ok.mp h
    cases h
    exact pollCQ_count hnet hpoll w d
  · obtain ⟨v, hrecv, h⟩ := bind_eq_ok.mp h
    cases h
    exact recvMsg_count hrecv w d
  · cases h
    have hsame := @arrived_post_same s node node
      { s.van node with mem := (s.van node).mem.write a bytes } [] rfl rfl w d
    rw [underway_post, hsame]
    simp [sends]

/-- Messages are conserved in number: after any run, those that `w` has sent to `d` are as
many as those on their way, those that wait at `d` and those that `d` has received from `w`. -/
theorem messages_conserved (cfg : ℤ → Config) {es : List Event} {s : Fabric}
    (h : (machine cfg).run (fun _ _ => True) (init cfg) es = some s) (w d : ℤ) :
    es.countP (sends w d) = s.underway w d +
      (s.van d).recvBuffers.countP (fun x => x.1 = w) +
      (s.van d).returned.countP fun msg => msg.sender = w := by
  have hcount := Machine.run_countP (f := fun s => s.underway w d + arrived (s.van d) w)
    (fun s e s' hstep => @step_count cfg s s' e hstep w d) h
  rw [show (init cfg).underway w d + arrived ((init cfg).van d) w = 0 from rfl] at hcount
  rw [arrived] at hcount
  omega

/-- Of two heartbeats one is received, the other one waits for its rendezvous. -/
theorem messages_conserved_beats :
    ∃ s, (machine twoEntries).run (fun _ _ => True) (init twoEntries)
        (beat 0 ++ [.sendMsg 9 (heartbeat 1)]) = some s ∧
      s.underway 9 1 = 1 ∧ (s.van 1).recvBuffers = [] ∧
      (s.van 1).returned.countP (fun msg => msg.sender = 9) = 1 := by
  have hrun : ((machine twoEntries).run (fun _ _ => True) (init twoEntries)
      (beat 0 ++ [.sendMsg 9 (heartbeat 1)])).any
      (fun s => decide (s.underway 9 1 = 1 ∧ (s.van 1).recvBuffers = [])) = true := by
    decide +kernel
  obtain ⟨s, hs, hdecide⟩ := (Option.any_eq_true _ _).mp hrun
  obtain ⟨hunderway, hrecv⟩ := of_decide_eq_true hdecide
  refine ⟨s, hs, hunderway, hrecv, ?_⟩
  have hcount := messages_conserved twoEntries hs 9 1
  have hsends : (beat 0 ++ [Event.sendMsg 9 (heartbeat 1)]).countP (sends 9 1) = 2 := by decide
  rw [hsends, hunderway, hrecv, List.countP_nil] at hcount
  omega

end Ps.Rdma.Fabric
