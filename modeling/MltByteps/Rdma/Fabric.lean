import MltByteps.Rdma.Cache

/-! RDMA vans that are connected to each other. What a van posts for a peer is delivered once and
in order. -/

namespace Ps.Rdma

/-- `net (w, d)` is what `w` has posted for `d`; `answered` records, for each node, whose
rendezvous it has answered and for which message, the last one first. -/
structure Fabric where
  van : ℤ → RDMAVan
  net : ℤ × ℤ → List WorkRequest
  answered : ℤ → List (ℤ × Option Message)

namespace Fabric

inductive Event where
  | sendMsg (node : ℤ) (msg : Message)
  -- The next completion for a work request of the peer.
  | pollCQ (node peer : ℤ)
  | recvMsg (node : ℤ)
  | setBytes (node : ℤ) (a : ℕ) (bytes : List UInt8)

variable (cfg : ℤ → Config) (s : Fabric)

def init : Fabric := ⟨fun node => .init (cfg node), fun _ => [], fun _ => []⟩

def post (node : ℤ) (v : RDMAVan) (dest : ℤ) (posts : List WorkRequest) : Fabric :=
  { s with
    van := Function.update s.van node v
    net := Function.update s.net (node, dest) (s.net (node, dest) ++ posts) }

def answer (peer : ℤ) : WorkRequest → List (ℤ × Option Message)
  | .start req => [(peer, (s.van peer).msgbufCache req.originAddr)]
  | _ => []

def take (node peer : ℤ) (wr : WorkRequest) (wrs : List WorkRequest) : Fabric :=
  { s with
    net := Function.update s.net (peer, node) wrs
    answered := Function.update s.answered node (s.answer peer wr ++ s.answered node) }

def step : Event → Except RdmaFault Fabric
  | .sendMsg node msg => do
    let (v, posts) ← (s.van node).sendMsg (cfg node) msg
    return s.post node v msg.recver posts
  | .pollCQ node peer =>
    match s.net (peer, node) with
    | [] => .error .blocked
    | wr :: wrs => do
      let (v, posts) ← (s.van node).pollCQ (cfg node) peer wr
      return (s.take node peer wr wrs).post node v peer posts
  | .recvMsg node => do
    let v ← (s.van node).recvMsg (cfg node)
    return s.post node v node []
  | .setBytes node a bytes =>
    .ok (s.post node { s.van node with mem := (s.van node).mem.write a bytes } node [])

def machine : Machine Fabric Event RdmaFault := ⟨init cfg, step cfg⟩

def dataFlow (x : ℤ × Option Message) : Option (ℕ × ℤ × Bool) :=
  match x.2 with
  | none => none
  | some msg => if isValidPushpull msg then some (msg.key, x.1, msg.push) else none

def flows (node : ℤ) : ℕ := ((s.answered node).filterMap dataFlow).dedup.length

/-- The number of messages that `RecvMsg` has not returned yet. -/
def pending (node : ℤ) : ℕ := (s.van node).recvBuffers.length

variable {cfg} {s} {s' : Fabric}

@[simp] theorem post_van_self (node : ℤ) (v : RDMAVan) (dest : ℤ) (posts : List WorkRequest) :
    (s.post node v dest posts).van node = v := Function.update_self ..

theorem post_van_of_ne {node other : ℤ} (h : other ≠ node) (v : RDMAVan) (dest : ℤ)
    (posts : List WorkRequest) : (s.post node v dest posts).van other = s.van other :=
  Function.update_of_ne h ..

theorem net_post (node : ℤ) (v : RDMAVan) (dest : ℤ) (posts : List WorkRequest) (c : ℤ × ℤ) :
    (s.post node v dest posts).net c =
      if c = (node, dest) then s.net (node, dest) ++ posts else s.net c :=
  Function.update_apply ..

theorem net_take (node peer : ℤ) (wr : WorkRequest) (wrs : List WorkRequest) (c : ℤ × ℤ) :
    (s.take node peer wr wrs).net c = if c = (peer, node) then wrs else s.net c :=
  Function.update_apply ..

theorem answered_take (node peer : ℤ) (wr : WorkRequest) (wrs : List WorkRequest) (n : ℤ) :
    (s.take node peer wr wrs).answered n =
      if n = node then s.answer peer wr ++ s.answered node else s.answered n :=
  Function.update_apply ..

/-! ## Every van by itself -/

theorem step_van {e : Event} (h : s.step cfg e = .ok s') :
    ∃ node ve, (s.van node).step (cfg node) ve = .ok (s'.van node) ∧
      ∀ other, other ≠ node → s'.van other = s.van other := by
  rcases e with ⟨node, msg⟩ | ⟨node, peer⟩ | node | ⟨node, a, bytes⟩
  · obtain ⟨⟨v, posts⟩, hsend, h⟩ := bind_eq_ok.mp h
    cases h
    refine ⟨node, .sendMsg msg, ?_, fun other hne => post_van_of_ne hne ..⟩
    rw [RDMAVan.step, hsend, post_van_self]
    rfl
  · unfold step at h
    dsimp only at h
    split at h
    · cases h
    · rename_i wr wrs _
      obtain ⟨⟨v, posts⟩, hpoll, h⟩ := bind_eq_ok.mp h
      cases h
      refine ⟨node, .pollCQ peer wr, ?_, fun other hne => post_van_of_ne hne ..⟩
      rw [RDMAVan.step, hpoll, post_van_self]
      rfl
  · obtain ⟨v, hrecv, h⟩ := bind_eq_ok.mp h
    cases h
    refine ⟨node, .recvMsg, ?_, fun other hne => post_van_of_ne hne ..⟩
    rw [RDMAVan.step, hrecv, post_van_self]
  · cases h
    refine ⟨node, .setBytes a bytes, ?_, fun other hne => post_van_of_ne hne ..⟩
    rw [post_van_self]
    rfl

theorem van_reachable (h : (machine cfg).Reachable (fun _ _ => True) s) (node : ℤ) :
    (RDMAVan.machine (cfg node)).Reachable (fun _ _ => True) (s.van node) := by
  refine h.invariant (P := fun s => (RDMAVan.machine (cfg node)).Reachable (fun _ _ => True)
    (s.van node)) .init ?_
  intro s e s' hs _ hstep
  obtain ⟨n, ve, hve, hother⟩ := step_van hstep
  by_cases hn : node = n
  · subst hn
    exact .step hs trivial hve
  · rw [hother node hn]
    exact hs

/-! ## What a step does -/

inductive Effect (s : Fabric) : Fabric → Prop
  -- A message to a known address, one that is received, or the application.
  | plain {node dest v posts} : (s.van node).SameLinks v → v.addrPool = (s.van node).addrPool →
      (∀ wr ∈ posts, wr.IsWrite) → Effect s (s.post node v dest posts)
  | prepare {node v} {msg : Message} : (s.van node).Prepares msg v →
      v.addrPool = (s.van node).addrPool →
      Effect s (s.post node v msg.recver [.start ⟨getPackMetaLen msg.toMeta,
        msg.data.map SArray.size, (s.van node).msgBufs.length⟩])
  | answer {node peer req wrs v resp} : s.net (peer, node) = .start req :: wrs →
      (s.van node).SameLinks v → resp.originAddr = req.originAddr →
      (s.van node).addrPool.indices = resp.idx :: v.addrPool.indices →
      Effect s ((s.take node peer (.start req) wrs).post node v peer [.reply resp])
  | store {node peer resp wrs v msg posts} : s.net (peer, node) = .reply resp :: wrs →
      (s.van node).Stores msg ⟨resp.addr, resp.rkey, resp.idx, resp.originAddr⟩ v →
      v.addrPool = (s.van node).addrPool → (∀ wr ∈ posts, wr.IsWrite) →
      Effect s ((s.take node peer (.reply resp) wrs).post node v peer posts)
  | deliver {node peer wr wrs v} : s.net (peer, node) = wr :: wrs → wr.IsWrite →
      (s.van node).SameLinks v → v.addrPool = (s.van node).addrPool →
      Effect s ((s.take node peer wr wrs).post node v peer [])

theorem step_effect {e : Event} (h : s.step cfg e = .ok s') : s.Effect s' := by
  rcases e with ⟨node, msg⟩ | ⟨node, peer⟩ | node | ⟨node, a, bytes⟩
  · obtain ⟨⟨v, posts⟩, hsend, h⟩ := bind_eq_ok.mp h
    cases h
    obtain ⟨hpool, ⟨hlinks, hposts⟩ | ⟨msg', hprep, hrecver, rfl⟩⟩ := RDMAVan.sendMsg_effect hsend
    · exact .plain hlinks hpool.addrPool hposts
    · rw [← hrecver]
      exact .prepare hprep hpool.addrPool
  · unfold step at h
    dsimp only at h
    split at h
    · cases h
    · rename_i wr wrs hnet
      obtain ⟨⟨v, posts⟩, hpoll, h⟩ := bind_eq_ok.mp h
      cases h
      rcases wr with req | resp | ⟨a, bytes⟩ | ⟨a, bytes, imm⟩
      · obtain ⟨hlinks, -, resp, rfl, horigin, hidx⟩ := RDMAVan.pollCQ_start_effect hpoll
        exact .answer hnet hlinks horigin hidx
      · obtain ⟨hpool, hposts, msg, hstores⟩ := RDMAVan.pollCQ_reply_effect hpoll
        exact .store hnet hstores hpool.addrPool hposts
      · obtain ⟨hlinks, hpool, rfl⟩ := RDMAVan.pollCQ_write_effect hpoll trivial
        exact .deliver hnet trivial hlinks hpool
      · obtain ⟨hlinks, hpool, rfl⟩ := RDMAVan.pollCQ_write_effect hpoll trivial
        exact .deliver hnet trivial hlinks hpool
  · obtain ⟨v, hrecv, h⟩ := bind_eq_ok.mp h
    cases h
    obtain ⟨hlinks, hpool⟩ := RDMAVan.recvMsg_effect hrecv
    exact .plain hlinks hpool (fun wr hwr => absurd hwr List.not_mem_nil)
  · cases h
    exact .plain ⟨rfl, rfl, rfl, rfl⟩ rfl (fun wr hwr => absurd hwr List.not_mem_nil)

/-! ## Each waiting message has one request on its way -/

def startOf (p : ℕ) : WorkRequest → Bool
  | .start req => req.originAddr = p
  | _ => false

def replyOf (p : ℕ) : WorkRequest → Bool
  | .reply resp => resp.originAddr = p
  | _ => false

/-- The starts from `w` to `d` for a buffer of `w`, and the replies to them. -/
def inFlight (s : Fabric) (w d : ℤ) (p : ℕ) : ℕ :=
  (s.net (w, d)).countP (startOf p) + (s.net (d, w)).countP (replyOf p)

/-- Whether the buffer is that of a message to `d` that waits for a reply. -/
def waiting (s : Fabric) (w d : ℤ) (p : ℕ) : ℕ :=
  ((s.van w).msgbufCache p).elim 0 fun msg => if msg.recver = d then 1 else 0

section Count

variable {node peer dest : ℤ} {v : RDMAVan} {posts wrs : List WorkRequest} {wr : WorkRequest}

theorem countP_post (q : WorkRequest → Bool) (c : ℤ × ℤ) :
    ((s.post node v dest posts).net c).countP q =
      (s.net c).countP q + if c = (node, dest) then posts.countP q else 0 := by
  rw [net_post]
  split_ifs with hc
  · rw [List.countP_append, hc]
  · rfl

theorem countP_take (hnet : s.net (peer, node) = wr :: wrs) (q : WorkRequest → Bool)
    (c : ℤ × ℤ) : (s.net c).countP q = ((s.take node peer wr wrs).net c).countP q +
      if c = (peer, node) then [wr].countP q else 0 := by
  rw [net_take]
  split_ifs with hc
  · rw [hc, hnet, List.countP_cons, List.countP_singleton]
  · rfl

theorem countP_startOf_start (req : RendezvousStart) (p : ℕ) :
    [WorkRequest.start req].countP (startOf p) = if req.originAddr = p then 1 else 0 := by
  simp [startOf, List.countP_singleton]

theorem countP_replyOf_start (req : RendezvousStart) (p : ℕ) :
    [WorkRequest.start req].countP (replyOf p) = 0 := rfl

theorem countP_startOf_reply (resp : RendezvousReply) (p : ℕ) :
    [WorkRequest.reply resp].countP (startOf p) = 0 := rfl

theorem countP_replyOf_reply (resp : RendezvousReply) (p : ℕ) :
    [WorkRequest.reply resp].countP (replyOf p) = if resp.originAddr = p then 1 else 0 := by
  simp [replyOf, List.countP_singleton]

theorem countP_startOf_writes (h : ∀ wr ∈ posts, wr.IsWrite) (p : ℕ) :
    posts.countP (startOf p) = 0 ∧ posts.countP (replyOf p) = 0 := by
  constructor <;>
  · rw [List.countP_eq_zero]
    intro wr hwr
    have := h wr hwr
    cases wr <;> simp_all [startOf, replyOf, WorkRequest.IsWrite]

theorem inFlight_post (w d : ℤ) (p : ℕ) : (s.post node v dest posts).inFlight w d p =
    s.inFlight w d p + (if w = node ∧ d = dest then posts.countP (startOf p) else 0) +
      if d = node ∧ w = dest then posts.countP (replyOf p) else 0 := by
  unfold inFlight
  rw [countP_post, countP_post]
  simp only [Prod.mk.injEq]
  omega

theorem inFlight_take (hnet : s.net (peer, node) = wr :: wrs) (w d : ℤ) (p : ℕ) :
    s.inFlight w d p = (s.take node peer wr wrs).inFlight w d p +
      (if w = peer ∧ d = node then [wr].countP (startOf p) else 0) +
        if d = peer ∧ w = node then [wr].countP (replyOf p) else 0 := by
  unfold inFlight
  rw [countP_take hnet, countP_take hnet (replyOf p)]
  simp only [Prod.mk.injEq]
  omega

theorem waiting_congr (h : v.msgbufCache = (s.van node).msgbufCache) (w d : ℤ) (p : ℕ) :
    (s.post node v dest posts).waiting w d p = s.waiting w d p := by
  unfold waiting
  by_cases hw : w = node
  · rw [hw, post_van_self, h]
  · rw [post_van_of_ne hw]

theorem take_waiting (w d : ℤ) (p : ℕ) :
    (s.take node peer wr wrs).waiting w d p = s.waiting w d p := rfl

end Count

/-- A message waits for a reply exactly as long as its start or the reply is on its way. -/
def Tracked (s : Fabric) : Prop := ∀ w d p, s.inFlight w d p = s.waiting w d p

section Tracked

variable {node peer : ℤ} {v : RDMAVan} {wrs posts : List WorkRequest} {msg : Message}

theorem Tracked.prepare (hs : s.Tracked) (hlinked : (s.van node).Linked)
    (hprep : (s.van node).Prepares msg v) {req : RendezvousStart}
    (hreq : req.originAddr = (s.van node).msgBufs.length) :
    (s.post node v msg.recver [.start req]).Tracked := by
  intro w d p
  have hwd := hs w d p
  unfold waiting at hwd ⊢
  rw [inFlight_post, countP_startOf_start, countP_replyOf_start, ite_self, Nat.add_zero]
  by_cases hw : w = node
  · subst hw
    rw [post_van_self, hprep.cache]
    by_cases hp : p = (s.van w).msgBufs.length
    · have hnone : (s.van w).msgbufCache p = none := by
        by_contra hne
        obtain ⟨msg', hmsg'⟩ := Option.ne_none_iff_exists'.mp hne
        have hlt := hlinked.lt_length.1 p msg' hmsg'
        rw [RDMAVan.length_inlineLens] at hlt
        omega
      rw [hnone] at hwd
      rw [hwd, hp, Function.update_self, hreq]
      by_cases hd : d = msg.recver
      · simp [hd]
      · simp [hd, Ne.symm hd]
    · rw [Function.update_of_ne hp, hwd, hreq, if_neg (Ne.symm hp), ite_self]
      rfl
  · rw [post_van_of_ne hw, hwd, if_neg (fun h => hw h.1)]
    rfl

theorem Tracked.answer (hs : s.Tracked) {req : RendezvousStart} {resp : RendezvousReply}
    (hnet : s.net (peer, node) = .start req :: wrs)
    (hcache : v.msgbufCache = (s.van node).msgbufCache)
    (horigin : resp.originAddr = req.originAddr) :
    ((s.take node peer (.start req) wrs).post node v peer [.reply resp]).Tracked := by
  intro w d p
  have hwd := hs w d p
  have hcong := @waiting_congr (s.take node peer (.start req) wrs) node peer v [.reply resp]
    hcache w d p
  rw [inFlight_take hnet] at hwd
  rw [inFlight_post, hcong, take_waiting, ← hwd]
  simp only [countP_startOf_reply, countP_replyOf_reply, countP_startOf_start,
    countP_replyOf_start, horigin, ite_self, Nat.add_zero, and_comm]

theorem Tracked.store (hs : s.Tracked) {resp : RendezvousReply} {t : RemoteTuple}
    (ht : t.msgBuf = resp.originAddr) (hnet : s.net (peer, node) = .reply resp :: wrs)
    (hstores : (s.van node).Stores msg t v) (hposts : ∀ wr ∈ posts, wr.IsWrite) :
    ((s.take node peer (.reply resp) wrs).post node v peer posts).Tracked := by
  intro w d p
  have hwd := hs w d p
  rw [inFlight_take hnet] at hwd
  obtain ⟨hstart, hreply⟩ := countP_startOf_writes hposts p
  rw [inFlight_post, hstart, hreply, ite_self, ite_self]
  have hpeer := hs node peer resp.originAddr
  rw [inFlight_take hnet] at hpeer
  simp only [countP_startOf_reply, countP_replyOf_reply, ite_self, Nat.add_zero] at hwd hpeer ⊢
  unfold waiting at hwd hpeer ⊢
  rw [← ht, hstores.cached] at hpeer
  have hrecver : msg.recver = peer := by
    by_contra hne
    simp [hne] at hpeer
  by_cases hw : w = node
  · subst hw
    rw [post_van_self, hstores.cache]
    by_cases hp : p = t.msgBuf
    · subst hp
      rw [Function.update_self, Option.elim_none]
      rw [hstores.cached, ← ht] at hwd
      by_cases hd : d = peer
      · simpa [hd, hrecver] using hwd
      · simpa [hd, hrecver, Ne.symm hd] using hwd
    · rw [Function.update_of_ne hp, ← hwd]
      simp [← ht, Ne.symm hp]
  · rw [post_van_of_ne hw, ← show s.van = (s.take node peer (.reply resp) wrs).van from rfl, ← hwd]
    simp [hw]

end Tracked

theorem Tracked.effect (hs : s.Tracked) (hlinked : ∀ node, (s.van node).Linked)
    (h : s.Effect s') : s'.Tracked := by
  cases h with
  | plain hlinks _ hposts =>
    intro w d p
    obtain ⟨hstart, hreply⟩ := countP_startOf_writes hposts p
    rw [inFlight_post, waiting_congr hlinks.cache, hstart, hreply, ite_self, ite_self]
    exact hs w d p
  | prepare hprep _ => exact hs.prepare (hlinked _) hprep rfl
  | answer hnet hlinks horigin _ => exact hs.answer hnet hlinks.cache horigin
  | store hnet hstores _ hposts => exact hs.store rfl hnet hstores hposts
  | @deliver node peer wr wrs v hnet hwrite hlinks _ =>
    intro w d p
    obtain ⟨hstart, hreply⟩ := countP_startOf_writes (List.forall_mem_singleton.mpr hwrite) p
    have hcong := @waiting_congr (s.take node peer wr wrs) node peer v [] hlinks.cache w d p
    have hwd := hs w d p
    rw [inFlight_take hnet, hstart, hreply, ite_self, ite_self] at hwd
    rw [inFlight_post, hcong, take_waiting, ← hwd]
    simp

theorem linked_of_reachable (h : (machine cfg).Reachable (fun _ _ => True) s) (node : ℤ) :
    (s.van node).Linked :=
  (van_reachable h node).invariant (RDMAVan.linked_init _) fun _ _ _ hv _ hstep => hv.step hstep

theorem tracked_of_reachable (h : (machine cfg).Reachable (fun _ _ => True) s) : s.Tracked := by
  induction h with
  | init => exact fun _ _ _ => rfl
  | step hreach _ hstep ih => exact ih.effect (linked_of_reachable hreach) (step_effect hstep)

theorem Tracked.exists_message (hs : s.Tracked) {w d : ℤ} {p : ℕ} (h : 0 < s.inFlight w d p) :
    ∃ msg, (s.van w).msgbufCache p = some msg ∧ msg.recver = d := by
  rw [hs, waiting] at h
  rcases hcache : (s.van w).msgbufCache p with _ | msg
  · simp [hcache] at h
  · rw [hcache, Option.elim_some] at h
    split_ifs at h with hd
    · exact ⟨msg, rfl, hd⟩
    · exact absurd h (Nat.lt_irrefl 0)

theorem Tracked.reply_message (hs : s.Tracked) {w d : ℤ} {resp : RendezvousReply}
    (h : .reply resp ∈ s.net (d, w)) :
    ∃ msg, (s.van w).msgbufCache resp.originAddr = some msg ∧ msg.recver = d :=
  hs.exists_message (Nat.add_pos_right _ (List.countP_pos_iff.mpr ⟨_, h, by simp [replyOf]⟩))

/-! ## The address pool -/

/-- Every answered rendezvous has taken an entry of the pool for good. -/
structure Counted (cfg : ℤ → Config) (s : Fabric) : Prop where
  indices : ∀ node, (s.van node).addrPool.indices.length + (s.answered node).length =
    (cfg node).kMaxEntries
  starts : ∀ c req, .start req ∈ s.net c → req.metaLen ≠ 0

section Counted

variable {node peer dest : ℤ} {v : RDMAVan} {wr : WorkRequest} {posts wrs : List WorkRequest}

theorem mem_net_post {c : ℤ × ℤ} {x : WorkRequest} (h : x ∈ (s.post node v dest posts).net c) :
    x ∈ s.net c ∨ x ∈ posts := by
  rw [net_post] at h
  split_ifs at h with hc
  · rw [hc]
    exact List.mem_append.mp h
  · exact .inl h

theorem mem_net_take {c : ℤ × ℤ} {x : WorkRequest} (hnet : s.net (peer, node) = wr :: wrs)
    (h : x ∈ (s.take node peer wr wrs).net c) : x ∈ s.net c := by
  rw [net_take] at h
  split_ifs at h with hc
  · rw [hc, hnet]
    exact List.mem_cons_of_mem _ h
  · exact h

theorem Counted.post (hs : s.Counted cfg) (hpool : v.addrPool = (s.van node).addrPool)
    (hposts : ∀ req, .start req ∈ posts → req.metaLen ≠ 0) :
    (s.post node v dest posts).Counted cfg := by
  refine ⟨fun n => ?_, fun c req hreq => ?_⟩
  · by_cases hn : n = node
    · rw [hn, post_van_self, hpool]
      exact hs.indices node
    · rw [post_van_of_ne hn]
      exact hs.indices n
  · rcases mem_net_post hreq with hreq | hreq
    · exact hs.starts c req hreq
    · exact hposts req hreq

theorem Counted.take (hs : s.Counted cfg) (hnet : s.net (peer, node) = wr :: wrs)
    (hwr : s.answer peer wr = []) : (s.take node peer wr wrs).Counted cfg := by
  refine ⟨fun n => ?_, fun c req hreq => hs.starts c req (mem_net_take hnet hreq)⟩
  rw [answered_take, hwr, List.nil_append]
  split_ifs with hn
  · rw [← hn]
    exact hs.indices n
  · exact hs.indices n

theorem Counted.answer (hs : s.Counted cfg) {req : RendezvousStart} {resp : RendezvousReply}
    (hnet : s.net (peer, node) = .start req :: wrs)
    (hidx : (s.van node).addrPool.indices = resp.idx :: v.addrPool.indices) :
    ((s.take node peer (.start req) wrs).post node v peer [.reply resp]).Counted cfg := by
  refine ⟨fun n => ?_, fun c req' hreq => ?_⟩
  · show _ + ((s.take node peer (.start req) wrs).answered n).length = _
    rw [answered_take]
    by_cases hn : n = node
    · have hnode := hs.indices node
      rw [hidx, List.length_cons] at hnode
      rw [hn, post_van_self, if_pos rfl, Fabric.answer, List.singleton_append, List.length_cons]
      omega
    · rw [post_van_of_ne hn, if_neg hn]
      exact hs.indices n
  · rcases mem_net_post hreq with hreq | hreq
    · exact hs.starts c req' (mem_net_take hnet hreq)
    · exact absurd hreq (by simp)

end Counted

theorem Counted.effect (hs : s.Counted cfg) (h : s.Effect s') : s'.Counted cfg := by
  have hwrites : ∀ posts : List WorkRequest, (∀ wr ∈ posts, wr.IsWrite) →
      ∀ req, .start req ∈ posts → req.metaLen ≠ 0 :=
    fun posts hposts req hreq => (hposts _ hreq).elim
  cases h with
  | plain _ hpool hposts => exact hs.post hpool (hwrites _ hposts)
  | prepare _ hpool =>
    refine hs.post hpool fun req hreq => ?_
    cases List.mem_singleton.mp hreq
    simp [getPackMetaLen, rawMetaSize]
  | answer hnet _ _ hidx => exact hs.answer hnet hidx
  | store hnet _ hpool hposts => exact (hs.take hnet rfl).post hpool (hwrites _ hposts)
  | @deliver node peer wr _ _ hnet hwrite _ hpool =>
    have hwr : s.answer peer wr = [] := by cases wr <;> first | rfl | exact hwrite.elim
    exact (hs.take hnet hwr).post hpool fun req hreq => absurd hreq List.not_mem_nil

theorem counted_of_reachable (h : (machine cfg).Reachable (fun _ _ => True) s) :
    s.Counted cfg := by
  refine h.invariant ⟨fun node => ?_, fun _ _ hreq => absurd hreq List.not_mem_nil⟩
    fun _ _ _ hs _ hstep => hs.effect (step_effect hstep)
  simp [machine, init, RDMAVan.init, AddressPool.new]

end Fabric

theorem le_alignCeil (n : ℕ) {align : ℕ} (h : 0 < align) : n ≤ alignCeil n align := by
  have hlt := Nat.mod_lt (n + align - 1) h
  unfold alignCeil alignFloor
  omega

theorem RDMAVan.exists_pollCQ_start (cfg : Config) (v : RDMAVan) {req : RendezvousStart}
    (hlen : req.metaLen ≠ 0) (peer : ℤ) :
    (∃ r, v.pollCQ cfg peer (.start req) = .ok r) ↔ v.addrPool.indices ≠ [] := by
  have hsize : (if cfg.isServer then alignCeil req.metaLen cfg.pageSize + req.dataLen.sum
      else req.metaLen) ≠ 0 := by
    have hle := le_alignCeil req.metaLen cfg.pageSize_pos
    split_ifs <;> omega
  rw [pollCQ, sendRendezvousReply, require_bind _ hsize,
    ← AddressPool.exists_storeAddress ⟨v.top, req.metaLen, req.dataLen⟩]
  constructor
  · rintro ⟨r, h⟩
    obtain ⟨x, hx, -⟩ := bind_eq_ok.mp h
    obtain ⟨y, hy, -⟩ := bind_eq_ok.mp hx
    exact ⟨y, hy⟩
  · rintro ⟨⟨idx, pool⟩, hstore⟩
    refine ⟨_, bind_eq_ok.mpr ⟨_, bind_eq_ok.mpr ⟨(idx, pool), hstore, rfl⟩, rfl⟩⟩

namespace Fabric

theorem exists_step_pollCQ {cfg : ℤ → Config} {s : Fabric} {node peer : ℤ} {wr : WorkRequest}
    {wrs : List WorkRequest} (hnet : s.net (peer, node) = wr :: wrs) :
    (∃ s', s.step cfg (.pollCQ node peer) = .ok s') ↔
      ∃ r, (s.van node).pollCQ (cfg node) peer wr = .ok r := by
  unfold step
  dsimp only
  rw [hnet]
  constructor
  · rintro ⟨s', h⟩
    obtain ⟨r, hr, -⟩ := bind_eq_ok.mp h
    exact ⟨r, hr⟩
  · rintro ⟨r, hr⟩
    exact ⟨_, bind_eq_ok.mpr ⟨r, hr, rfl⟩⟩

/-- A start is answered if and only if the rendezvous answered so far, of messages of any kind, are
fewer than the entries. -/
theorem start_answered_iff (cfg : ℤ → Config) {s : Fabric} {node peer : ℤ}
    (h : (machine cfg).Reachable (fun _ _ => True) s) {req : RendezvousStart}
    {wrs : List WorkRequest} (hnet : s.net (peer, node) = .start req :: wrs) :
    (∃ s', s.step cfg (.pollCQ node peer) = .ok s') ↔
      (s.answered node).length < (cfg node).kMaxEntries := by
  have hcounted := counted_of_reachable h
  have hlen := hcounted.starts (peer, node) req (hnet ▸ List.mem_cons_self)
  have hindices := hcounted.indices node
  rw [exists_step_pollCQ hnet, RDMAVan.exists_pollCQ_start _ _ hlen, ← List.length_pos_iff]
  omega

def twoEntries (node : ℤ) : Config := RDMAVan.smallNode node [1, 8, 9] 2

def heartbeat (timestamp : ℤ) : Message :=
  { recver := 1, timestamp, control := { cmd := .heartbeat } }

/-- Node 9 sends a heartbeat to node 1, where `RecvMsg` returns it. -/
def beat (timestamp : ℤ) : List Event :=
  [.sendMsg 9 (heartbeat timestamp), .pollCQ 1 9, .pollCQ 9 1, .pollCQ 1 9, .recvMsg 1]

theorem start_answered_iff_second :
    ∃ s, (machine twoEntries).Reachable (fun _ _ => True) s ∧
      (s.answered 1).length = 1 ∧ s.net (9, 1) = [.start ⟨88, [], 1⟩] ∧
      ∃ s', s.step twoEntries (.pollCQ 1 9) = .ok s' := by
  obtain ⟨s, hreach, hnet, hone⟩ := Machine.exists_reachable_of_run (machine twoEntries)
    (fun _ _ => True) (beat 0 ++ [.sendMsg 9 (heartbeat 1)])
    (fun s => s.net (9, 1) = [.start ⟨88, [], 1⟩] ∧ (s.answered 1).length = 1) (by decide +kernel)
  have hlt : (s.answered 1).length < (twoEntries 1).kMaxEntries := by
    rw [hone]
    decide
  exact ⟨s, hreach, hone, hnet, (start_answered_iff twoEntries hreach hnet).mpr hlt⟩

/-- The data flows and the messages that are not returned yet are fewer than the entries. -/
def Fits (cfg : ℤ → Config) (node : ℤ) (s : Fabric) : Prop :=
  s.flows node + s.pending node < (cfg node).kMaxEntries

instance (cfg : ℤ → Config) (node : ℤ) : DecidablePred (Fits cfg node) := fun s =>
  inferInstanceAs (Decidable (s.flows node + s.pending node < (cfg node).kMaxEntries))

/-- Two heartbeats have been returned by `RecvMsg` and there is no data flow: the third one aborts
the node. -/
theorem third_heartbeat_aborts :
    ∃ s, (machine twoEntries).Reachable (fun s _ => s.Fits twoEntries 1) s ∧
      s.flows 1 = 0 ∧ s.pending 1 = 0 ∧
      (s.van 1).returned.map (fun msg => (msg.sender, msg.control.cmd, msg.timestamp)) =
        [(9, .heartbeat, 1), (9, .heartbeat, 0)] ∧
      s.net (9, 1) = [.start ⟨88, [], 2⟩] ∧
      (s.step twoEntries (.pollCQ 1 9)).map (fun _ => ()) = .error .indicesEmpty :=
  Machine.exists_reachable_of_run (machine twoEntries) (fun s _ => s.Fits twoEntries 1)
    (beat 0 ++ beat 1 ++ [.sendMsg 9 (heartbeat 2)]) _ (by decide +kernel)

end Fabric

end Ps.Rdma
