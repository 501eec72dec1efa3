import MltByteps.Rdma.Van

/-! What the operations of the van do to the addresses that it keeps, and for which messages these
were stored. -/

namespace Ps.Rdma

def WorkRequest.IsWrite : WorkRequest → Prop
  | .start _ | .reply _ => False
  | .write _ _ | .writeWithImm _ _ _ => True

namespace RDMAVan

variable {cfg : Config} {v v' v'' : RDMAVan} {msg : Message} {p : ℕ} {t : RemoteTuple}

/-! ## Effects -/

def inlineLens (v : RDMAVan) : List ℕ := v.msgBufs.map MessageBuffer.inlineLen

structure SameLinks (v v' : RDMAVan) : Prop where
  info : v'.remoteInfo = v.remoteInfo
  cache : v'.msgbufCache = v.msgbufCache
  lens : v'.inlineLens = v.inlineLens
  stored : v'.stored = v.stored

structure Prepares (v : RDMAVan) (msg : Message) (v' : RDMAVan) : Prop where
  info : v'.remoteInfo = v.remoteInfo
  cache : v'.msgbufCache = Function.update v.msgbufCache v.msgBufs.length (some msg)
  lens : v'.inlineLens = v.inlineLens ++ [getPackMetaLen msg.toMeta]
  stored : v'.stored = v.stored

structure Stores (v : RDMAVan) (msg : Message) (t : RemoteTuple) (v' : RDMAVan) : Prop where
  cached : v.msgbufCache t.msgBuf = some msg
  info : ∀ key isPush recver, v'.remoteInfo key isPush recver =
    if key = msg.key ∧ isPush = msg.push ∧ recver = msg.recver then some t
    else v.remoteInfo key isPush recver
  cache : v'.msgbufCache = Function.update v.msgbufCache t.msgBuf none
  lens : v'.inlineLens = v.inlineLens
  stored : v'.stored = (t, msg) :: v.stored

structure SamePool (v v' : RDMAVan) : Prop where
  addrPool : v'.addrPool = v.addrPool
  recvBuffers : v'.recvBuffers = v.recvBuffers

theorem SameLinks.trans (h : v.SameLinks v') (h' : v'.SameLinks v'') : v.SameLinks v'' :=
  ⟨h'.info.trans h.info, h'.cache.trans h.cache, h'.lens.trans h.lens, h'.stored.trans h.stored⟩

theorem Prepares.trans (h : v.Prepares msg v') (h' : v'.SameLinks v'') : v.Prepares msg v'' :=
  ⟨h'.info.trans h.info, h'.cache.trans h.cache, h'.lens.trans h.lens, h'.stored.trans h.stored⟩

theorem SamePool.trans (h : v.SamePool v') (h' : v'.SamePool v'') : v.SamePool v'' :=
  ⟨h'.addrPool.trans h.addrPool, h'.recvBuffers.trans h.recvBuffers⟩

theorem length_inlineLens (v : RDMAVan) : v.inlineLens.length = v.msgBufs.length :=
  List.length_map _

theorem SameLinks.length_msgBufs (h : v.SameLinks v') : v'.msgBufs.length = v.msgBufs.length := by
  rw [← length_inlineLens, h.lens, length_inlineLens]

theorem SameLinks.prepares (h : v.SameLinks v') (h' : v'.Prepares msg v'') :
    v.Prepares msg v'' := by
  refine ⟨h'.info.trans h.info, ?_, ?_, h'.stored.trans h.stored⟩
  · rw [h'.cache, h.cache, h.length_msgBufs]
  · rw [h'.lens, h.lens]

theorem msgBufAt_eq_ok {buf : MessageBuffer} :
    v.msgBufAt p = .ok buf ↔ v.msgBufs[p]? = some buf := by
  unfold msgBufAt
  rcases v.msgBufs[p]? with _ | buf' <;> simp

theorem inlineLens_set {buf buf' : MessageBuffer} (h : v.msgBufs[p]? = some buf)
    (hlen : buf'.inlineLen = buf.inlineLen) :
    (v.msgBufs.set p buf').map MessageBuffer.inlineLen = v.inlineLens := by
  obtain ⟨hp, rfl⟩ := List.getElem?_eq_some_iff.mp h
  rw [List.map_set, hlen, inlineLens, ← List.getElem_map MessageBuffer.inlineLen,
    List.set_getElem_self]
  simpa using hp

theorem prepareData_effect (h : v.prepareData msg p = .ok v') :
    v.SameLinks v' ∧ v.SamePool v' := by
  have hself : v.SameLinks v ∧ v.SamePool v := ⟨⟨rfl, rfl, rfl, rfl⟩, rfl, rfl⟩
  unfold prepareData at h
  split_ifs at h
  · cases h
    exact hself
  obtain ⟨buf, hbuf, h⟩ := bind_eq_ok.mp h
  obtain ⟨sa, -, h⟩ := bind_eq_ok.mp h
  split_ifs at h
  · cases h
    exact hself
  obtain ⟨-, h⟩ := require_bind_eq_ok.mp h
  cases h
  exact ⟨⟨rfl, rfl, inlineLens_set (msgBufAt_eq_ok.mp hbuf) rfl, rfl⟩, rfl, rfl⟩

theorem prepare_effect
    (h : (v.prepareNewMsgBuf cfg msg).2.storeMsgBuf (v.prepareNewMsgBuf cfg msg).1 msg = .ok v') :
    v.Prepares msg v' ∧ v.SamePool v' := by
  obtain ⟨-, h⟩ := require_bind_eq_ok.mp h
  cases h
  exact ⟨⟨rfl, rfl, List.map_append, rfl⟩, rfl, rfl⟩

theorem Prepares.sendRendezvousBegin {start : WorkRequest} (h : v.Prepares msg v')
    (hstart : v'.sendRendezvousBegin msg v.msgBufs.length = .ok start) :
    start = .start ⟨getPackMetaLen msg.toMeta, msg.data.map SArray.size, v.msgBufs.length⟩ := by
  obtain ⟨buf, hbuf, hstart⟩ := bind_eq_ok.mp hstart
  cases hstart
  have hlen : v'.inlineLens[v.msgBufs.length]? = some buf.inlineLen := by
    rw [inlineLens, List.getElem?_map, msgBufAt_eq_ok.mp hbuf]
    rfl
  rw [h.lens, ← length_inlineLens, List.getElem?_concat_length, Option.some.injEq] at hlen
  rw [hlen]

theorem sendPushpull_writes {buf : MessageBuffer} {posts : List WorkRequest}
    (h : v.sendPushpull cfg msg buf t = .ok posts) : ∀ wr ∈ posts, wr.IsWrite := by
  have hmeta : v.sendMeta buf t = .ok posts → ∀ wr ∈ posts, wr.IsWrite := by
    intro h
    obtain ⟨-, h⟩ := require_bind_eq_ok.mp h
    cases h
    simp [rdmaWriteWithImm, WorkRequest.IsWrite]
  unfold sendPushpull at h
  split_ifs at h
  · unfold sendPushRequest at h
    split at h <;> cases h
    simp [rdmaWriteWithImm, WorkRequest.IsWrite]
  · exact hmeta h
  · exact hmeta h
  · obtain ⟨vals, -, h⟩ := bind_eq_ok.mp h
    obtain ⟨-, h⟩ := require_bind_eq_ok.mp h
    obtain ⟨-, h⟩ := require_bind_eq_ok.mp h
    obtain ⟨-, h⟩ := require_bind_eq_ok.mp h
    cases h
    simp [rdmaWriteWithImm, WorkRequest.IsWrite]

theorem addMeta_recver {msg' : Message} (h : v.addMeta cfg msg = .ok msg') :
    msg'.recver = msg.recver := by
  unfold addMeta at h
  obtain ⟨msg₁, hkey, h⟩ := bind_eq_ok.mp h
  have hrecver : msg₁.recver = msg.recver := by
    split_ifs at hkey
    · rcases harray : arrayAt msg.data 0 with f | keys <;> rw [harray] at hkey <;> cases hkey
      rfl
    · cases hkey
      rfl
  split_ifs at h
  · obtain ⟨-, h⟩ := require_bind_eq_ok.mp h
    obtain ⟨vals, -, h⟩ := bind_eq_ok.mp h
    obtain ⟨-, h⟩ := require_bind_eq_ok.mp h
    cases h
    exact hrecver
  · cases h
    exact hrecver

theorem packWorkerTensorAddress_recver {msg' : Message}
    (h : v.packWorkerTensorAddress msg = .ok msg') : msg'.recver = msg.recver := by
  unfold packWorkerTensorAddress at h
  split_ifs at h
  · cases h
    rfl
  · split at h <;> cases h
    rfl

theorem sendMsg_effect {posts : List WorkRequest} (h : v.sendMsg cfg msg = .ok (v', posts)) :
    v.SamePool v' ∧ (v.SameLinks v' ∧ (∀ wr ∈ posts, wr.IsWrite) ∨
      ∃ msg', v.Prepares msg' v' ∧ msg'.recver = msg.recver ∧
        posts = [.start ⟨getPackMetaLen msg'.toMeta, msg'.data.map SArray.size,
          v.msgBufs.length⟩]) := by
  obtain ⟨-, h⟩ := require_bind_eq_ok.mp h
  obtain ⟨-, h⟩ := require_bind_eq_ok.mp h
  obtain ⟨-, h⟩ := require_bind_eq_ok.mp h
  dsimp only at h
  -- Registering the values changes none of the members in question.
  generalize hreg : { v with memMr := registerMemory msg.data 0 v.memMr } = v₀ at h
  have hpool₀ : v.SamePool v₀ := by rw [← hreg]; exact ⟨rfl, rfl⟩
  have hlinks₀ : v.SameLinks v₀ := by rw [← hreg]; exact ⟨rfl, rfl, rfl, rfl⟩
  have hlength := hlinks₀.length_msgBufs
  split_ifs at h
  · obtain ⟨v₁, hstore, h⟩ := bind_eq_ok.mp h
    obtain ⟨start, hstart, h⟩ := bind_eq_ok.mp h
    cases h
    obtain ⟨hprep, hpool⟩ := prepare_effect hstore
    refine ⟨hpool₀.trans hpool, .inr ⟨msg, hlinks₀.prepares hprep, rfl, ?_⟩⟩
    rw [hprep.sendRendezvousBegin hstart, hlength]
  obtain ⟨msg₁, hmeta, h⟩ := bind_eq_ok.mp h
  obtain ⟨msg₂, hpack, h⟩ := bind_eq_ok.mp h
  have hrecver : msg₂.recver = msg.recver :=
    (packWorkerTensorAddress_recver hpack).trans (addMeta_recver hmeta)
  split_ifs at h
  · obtain ⟨v₁, hstore, h⟩ := bind_eq_ok.mp h
    obtain ⟨v₂, hdata, h⟩ := bind_eq_ok.mp h
    obtain ⟨start, hstart, h⟩ := bind_eq_ok.mp h
    cases h
    obtain ⟨hprep, hpool⟩ := prepare_effect hstore
    obtain ⟨hlinks, hpool'⟩ := prepareData_effect hdata
    have hprep := hprep.trans hlinks
    refine ⟨hpool₀.trans (hpool.trans hpool'), .inr ⟨msg₂, hlinks₀.prepares hprep, hrecver, ?_⟩⟩
    rw [hprep.sendRendezvousBegin hstart, hlength]
  · obtain ⟨t, -, h⟩ := bind_eq_ok.mp h
    obtain ⟨buf, hbuf, h⟩ := bind_eq_ok.mp h
    obtain ⟨-, h⟩ := require_bind_eq_ok.mp h
    obtain ⟨posts, hposts, h⟩ := bind_eq_ok.mp h
    cases h
    subst hreg
    have hlens := @inlineLens_set v t.msgBuf buf { buf with data := msg₂.data }
      (msgBufAt_eq_ok.mp hbuf) rfl
    exact ⟨hpool₀.trans ⟨rfl, rfl⟩,
      .inl ⟨hlinks₀.trans ⟨rfl, rfl, hlens, rfl⟩, sendPushpull_writes hposts⟩⟩

theorem getFirstMsg_eq_ok : v.getFirstMsg p = .ok msg ↔ v.msgbufCache p = some msg := by
  unfold getFirstMsg
  rcases v.msgbufCache p with _ | msg' <;> simp

theorem storeRemoteAndLocalInfo_spec {remoteAddr rkey idx : ℕ}
    (h : v.storeRemoteAndLocalInfo p remoteAddr rkey idx = .ok v') :
    ∃ msg, v.msgbufCache p = some msg ∧ v.SamePool v' ∧ v'.msgbufCache = v.msgbufCache ∧
      v'.msgBufs = v.msgBufs ∧ v'.stored = (⟨remoteAddr, rkey, idx, p⟩, msg) :: v.stored ∧
      ∀ key isPush recver, v'.remoteInfo key isPush recver =
        if key = msg.key ∧ isPush = msg.push ∧ recver = msg.recver
        then some ⟨remoteAddr, rkey, idx, p⟩ else v.remoteInfo key isPush recver := by
  obtain ⟨msg, hmsg, h⟩ := bind_eq_ok.mp h
  cases h
  refine ⟨msg, getFirstMsg_eq_ok.mp hmsg, ⟨rfl, rfl⟩, rfl, rfl, rfl, fun key isPush recver => ?_⟩
  unfold remoteInfo
  dsimp only
  rcases hpush : msg.push <;> cases isPush <;> simp [Function.update_apply]
  all_goals
    by_cases hkey : key = msg.key
    · simp [hkey, Function.update_apply]
    · simp [hkey]

theorem pollCQ_reply_effect {peer : ℤ} {resp : RendezvousReply} {posts : List WorkRequest}
    (h : v.pollCQ cfg peer (.reply resp) = .ok (v', posts)) :
    v.SamePool v' ∧ (∀ wr ∈ posts, wr.IsWrite) ∧
      ∃ msg, v.Stores msg ⟨resp.addr, resp.rkey, resp.idx, resp.originAddr⟩ v' := by
  obtain ⟨v₁, hstore, h⟩ := bind_eq_ok.mp h
  obtain ⟨msg, hcached, hpool, hcache, hbufs, hstored, hinfo⟩ := storeRemoteAndLocalInfo_spec hstore
  obtain ⟨msg', hmsg', h⟩ := bind_eq_ok.mp h
  obtain ⟨t, -, h⟩ := bind_eq_ok.mp h
  obtain ⟨buf, -, h⟩ := bind_eq_ok.mp h
  obtain ⟨posts', hposts, h⟩ := bind_eq_ok.mp h
  obtain ⟨v₂, hrelease, h⟩ := bind_eq_ok.mp h
  obtain ⟨-, hrelease⟩ := require_bind_eq_ok.mp hrelease
  cases hrelease
  cases h
  refine ⟨hpool.trans ⟨rfl, rfl⟩, ?_, msg, hcached, hinfo, ?_, ?_, hstored⟩
  · split_ifs at hposts
    · cases hposts
      simp [rdmaWriteWithImm, WorkRequest.IsWrite]
    · exact sendPushpull_writes hposts
  · dsimp only
    rw [hcache]
  · unfold inlineLens
    dsimp only
    rw [hbufs]

theorem pollCQ_start_effect {peer : ℤ} {req : RendezvousStart} {posts : List WorkRequest}
    (h : v.pollCQ cfg peer (.start req) = .ok (v', posts)) :
    v.SameLinks v' ∧ v'.recvBuffers = v.recvBuffers ∧
      ∃ resp, posts = [.reply resp] ∧ resp.originAddr = req.originAddr ∧
        v.addrPool.indices = resp.idx :: v'.addrPool.indices := by
  obtain ⟨⟨v₁, resp⟩, hreply, h⟩ := bind_eq_ok.mp h
  obtain ⟨-, hreply⟩ := require_bind_eq_ok.mp hreply
  obtain ⟨⟨idx, pool⟩, hstore, hreply⟩ := bind_eq_ok.mp hreply
  cases hreply
  cases h
  exact ⟨⟨rfl, rfl, rfl, rfl⟩, rfl, _, rfl, rfl, AddressPool.storeAddress_indices hstore⟩

theorem pollCQ_write_effect {peer : ℤ} {wr : WorkRequest} {posts : List WorkRequest}
    (h : v.pollCQ cfg peer wr = .ok (v', posts)) (hwr : wr.IsWrite) :
    v.SameLinks v' ∧ v'.addrPool = v.addrPool ∧ posts = [] := by
  rcases wr with req | resp | ⟨a, bytes⟩ | ⟨a, bytes, imm⟩
  · exact hwr.elim
  · exact hwr.elim
  · cases h
    exact ⟨⟨rfl, rfl, rfl, rfl⟩, rfl, rfl⟩
  · obtain ⟨bufCtx, -, h⟩ := bind_eq_ok.mp h
    cases h
    exact ⟨⟨rfl, rfl, rfl, rfl⟩, rfl, rfl⟩

theorem storeWorkerTensorAddress_effect (h : v.storeWorkerTensorAddress msg = .ok v') :
    v.SameLinks v' ∧ v'.addrPool = v.addrPool := by
  unfold storeWorkerTensorAddress at h
  split at h
  · cases h
    exact ⟨⟨rfl, rfl, rfl, rfl⟩, rfl⟩
  · obtain ⟨-, h⟩ := require_bind_eq_ok.mp h
    cases h
    exact ⟨⟨rfl, rfl, rfl, rfl⟩, rfl⟩

theorem recvPushpull_effect {msg' : Message} {bufCtx : BufferContext}
    (h : v.recvPushpull cfg msg bufCtx = .ok (msg', v')) :
    v.SameLinks v' ∧ v'.addrPool = v.addrPool := by
  unfold recvPushpull at h
  split_ifs at h
  · obtain ⟨-, h⟩ := require_bind_eq_ok.mp h
    obtain ⟨v₁, hstore, h⟩ := bind_eq_ok.mp h
    cases h
    obtain ⟨hlinks, hpool⟩ := storeWorkerTensorAddress_effect hstore
    refine ⟨SameLinks.trans ?_ hlinks, hpool.trans rfl⟩
    exact ⟨rfl, rfl, rfl, rfl⟩
  · cases h
    exact ⟨⟨rfl, rfl, rfl, rfl⟩, rfl⟩
  · obtain ⟨-, h⟩ := require_bind_eq_ok.mp h
    cases h
    exact ⟨⟨rfl, rfl, rfl, rfl⟩, rfl⟩
  · cases h
    exact ⟨⟨rfl, rfl, rfl, rfl⟩, rfl⟩

theorem recvMsg_effect (h : v.recvMsg cfg = .ok v') :
    v.SameLinks v' ∧ v'.addrPool = v.addrPool := by
  unfold recvMsg at h
  split at h
  · cases h
  · obtain ⟨m, -, h⟩ := bind_eq_ok.mp h
    obtain ⟨⟨msg, v₁⟩, hdata, h⟩ := bind_eq_ok.mp h
    cases h
    have hv₁ : v.SameLinks v₁ ∧ v₁.addrPool = v.addrPool := by
      split_ifs at hdata
      · cases hdata
        exact ⟨⟨rfl, rfl, rfl, rfl⟩, rfl⟩
      · exact recvPushpull_effect hdata
    exact ⟨hv₁.1.trans ⟨rfl, rfl, rfl, rfl⟩, hv₁.2⟩

def Event.reply? : Event → Option RendezvousReply
  | .pollCQ _ (.reply resp) => some resp
  | _ => none

/-- What a step does to the addresses and to the messages that wait for a reply. -/
theorem step_links {e : Event} (h : v.step cfg e = .ok v') :
    e.reply? = none ∧ (v.SameLinks v' ∨ ∃ msg, v.Prepares msg v') ∨
      ∃ msg resp, e.reply? = some resp ∧
        v.Stores msg ⟨resp.addr, resp.rkey, resp.idx, resp.originAddr⟩ v' := by
  rcases e with msg | ⟨peer, wr⟩ | _ | ⟨a, bytes⟩
  · rcases hsend : v.sendMsg cfg msg with f | ⟨v₁, posts⟩ <;> rw [step, hsend] at h <;> cases h
    obtain ⟨-, hlinks | ⟨msg', hprep, -⟩⟩ := sendMsg_effect hsend
    · exact .inl ⟨rfl, .inl hlinks.1⟩
    · exact .inl ⟨rfl, .inr ⟨msg', hprep⟩⟩
  · rcases hpoll : v.pollCQ cfg peer wr with f | ⟨v₁, posts⟩ <;> rw [step, hpoll] at h <;> cases h
    rcases wr with req | resp | ⟨a, bytes⟩ | ⟨a, bytes, imm⟩
    · exact .inl ⟨rfl, .inl (pollCQ_start_effect hpoll).1⟩
    · obtain ⟨-, -, msg, hstores⟩ := pollCQ_reply_effect hpoll
      exact .inr ⟨msg, resp, rfl, hstores⟩
    · exact .inl ⟨rfl, .inl (pollCQ_write_effect hpoll trivial).1⟩
    · exact .inl ⟨rfl, .inl (pollCQ_write_effect hpoll trivial).1⟩
  · exact .inl ⟨rfl, .inl (recvMsg_effect h).1⟩
  · cases h
    exact .inl ⟨rfl, .inl ⟨rfl, rfl, rfl, rfl⟩⟩

/-! ## Coherence -/

/-- The tuple was stored for a push or pull message with this key, kind and receiver, and its
buffer has the length of that message's packed meta data. -/
def StoredFor (v : RDMAVan) (key : ℕ) (isPush : Bool) (recver : ℤ) (t : RemoteTuple) : Prop :=
  ∃ msg, (t, msg) ∈ v.stored ∧ isValidPushpull msg ∧ msg.key = key ∧ msg.push = isPush ∧
    msg.recver = recver ∧ v.inlineLens[t.msgBuf]? = some (getPackMetaLen msg.toMeta)

def Coherent (v : RDMAVan) : Prop :=
  ∀ key isPush recver t, v.remoteInfo key isPush recver = some t → v.StoredFor key isPush recver t

def DataReply (v : RDMAVan) (e : Event) : Prop :=
  ∀ resp ∈ e.reply?, ∀ msg ∈ v.msgbufCache resp.originAddr, isValidPushpull msg = true

instance (v : RDMAVan) : DecidablePred v.DataReply := fun e =>
  inferInstanceAs (Decidable (∀ resp ∈ e.reply?, ∀ msg ∈ v.msgbufCache resp.originAddr,
    isValidPushpull msg = true))

/-- Each buffer is that of one message, which waits for a reply or has had one. -/
structure Linked (v : RDMAVan) : Prop where
  cache : ∀ p msg, v.msgbufCache p = some msg → v.inlineLens[p]? = some (getPackMetaLen msg.toMeta)
  stored : ∀ t msg, (t, msg) ∈ v.stored →
    v.inlineLens[t.msgBuf]? = some (getPackMetaLen msg.toMeta) ∧ v.msgbufCache t.msgBuf = none

theorem Linked.same (h : v.Linked) (h' : v.SameLinks v') : v'.Linked := by
  refine ⟨?_, ?_⟩
  · rw [h'.cache, h'.lens]
    exact h.cache
  · rw [h'.cache, h'.lens, h'.stored]
    exact h.stored

theorem SameLinks.coherent_iff (h : v.SameLinks v') : v'.Coherent ↔ v.Coherent := by
  unfold Coherent StoredFor
  rw [h.info, h.lens, h.stored]

theorem Linked.lt_length (h : v.Linked) : (∀ p msg, v.msgbufCache p = some msg →
    p < v.inlineLens.length) ∧ ∀ t msg, (t, msg) ∈ v.stored → t.msgBuf < v.inlineLens.length :=
  ⟨fun p msg hp => (List.getElem?_eq_some_iff.mp (h.cache p msg hp)).1,
    fun t msg ht => (List.getElem?_eq_some_iff.mp (h.stored t msg ht).1).1⟩

theorem Linked.prepares (h : v.Linked) (h' : v.Prepares msg v') : v'.Linked := by
  obtain ⟨hlt, hlt'⟩ := h.lt_length
  refine ⟨fun p msg' hp => ?_, fun t msg' ht => ?_⟩
  · rw [h'.cache, ← length_inlineLens, Function.update_apply] at hp
    rw [h'.lens]
    split_ifs at hp with he
    · cases hp
      rw [he, List.getElem?_concat_length]
    · rw [List.getElem?_append_left (hlt p msg' hp)]
      exact h.cache p msg' hp
  · rw [h'.stored] at ht
    have hlen := hlt' t msg' ht
    rw [h'.lens, h'.cache, List.getElem?_append_left hlen, ← length_inlineLens,
      Function.update_of_ne hlen.ne]
    exact h.stored t msg' ht

theorem Linked.stores (h : v.Linked) (h' : v.Stores msg t v') : v'.Linked := by
  refine ⟨fun p msg' hp => ?_, fun t' msg' ht => ?_⟩
  · rw [h'.cache, Function.update_apply] at hp
    split_ifs at hp
    rw [h'.lens]
    exact h.cache p msg' hp
  · rw [h'.stored, List.mem_cons] at ht
    rw [h'.lens, h'.cache]
    rcases ht with ht | ht
    · cases ht
      exact ⟨h.cache _ _ h'.cached, Function.update_self ..⟩
    · obtain ⟨hlen, hnone⟩ := h.stored t' msg' ht
      refine ⟨hlen, ?_⟩
      rw [Function.update_apply, hnone, ite_self]

theorem Linked.coherent_stores (h : v.Linked) (hc : v.Coherent) (h' : v.Stores msg t v') :
    v'.Coherent ↔ isValidPushpull msg := by
  constructor
  · intro hc'
    have hinfo : v'.remoteInfo msg.key msg.push msg.recver = some t := by
      rw [h'.info, if_pos ⟨rfl, rfl, rfl⟩]
    obtain ⟨msg', hmem, hvalid, -⟩ := hc' _ _ _ _ hinfo
    rw [h'.stored, List.mem_cons] at hmem
    rcases hmem with hmem | hmem
    · cases hmem
      exact hvalid
    · -- The message still waited for its reply.
      have hnone := (h.stored t msg' hmem).2
      rw [h'.cached] at hnone
      cases hnone
  · intro hvalid key isPush recver t' ht
    rw [h'.info] at ht
    rw [StoredFor, h'.stored, h'.lens]
    split_ifs at ht with hkey
    · cases ht
      obtain ⟨rfl, rfl, rfl⟩ := hkey
      exact ⟨msg, List.mem_cons_self, hvalid, rfl, rfl, rfl, h.cache _ _ h'.cached⟩
    · obtain ⟨msg', hmem, hrest⟩ := hc key isPush recver t' ht
      exact ⟨msg', List.mem_cons_of_mem _ hmem, hrest⟩

theorem Linked.coherent_prepares (h : v.Linked) (h' : v.Prepares msg v') (hc : v.Coherent) :
    v'.Coherent := by
  intro key isPush recver t ht
  rw [h'.info] at ht
  obtain ⟨msg', hmem, hvalid, hkey, hpush, hrecver, hlen⟩ := hc key isPush recver t ht
  refine ⟨msg', h'.stored ▸ hmem, hvalid, hkey, hpush, hrecver, ?_⟩
  rw [h'.lens, List.getElem?_append_left (h.lt_length.2 t msg' hmem)]
  exact hlen

theorem linked_init (cfg : Config) : (init cfg).Linked :=
  ⟨fun _ _ hp => (nomatch hp), fun _ _ ht => absurd ht List.not_mem_nil⟩

theorem Linked.step {e : Event} (h : v.Linked) (hstep : v.step cfg e = .ok v') : v'.Linked := by
  rcases step_links hstep with ⟨-, hsame | ⟨msg, hprep⟩⟩ | ⟨msg, resp, -, hstores⟩
  · exact h.same hsame
  · exact h.prepares hprep
  · exact h.stores hstores

theorem Linked.coherent_step {e : Event} (h : v.Linked) (hc : v.Coherent)
    (hstep : v.step cfg e = .ok v') : v'.Coherent ↔ v.DataReply e := by
  unfold DataReply
  rcases step_links hstep with ⟨he, hlinks⟩ | ⟨msg, resp, he, hstores⟩
  · have hc' : v'.Coherent := by
      rcases hlinks with hsame | ⟨msg, hprep⟩
      · exact hsame.coherent_iff.mpr hc
      · exact h.coherent_prepares hprep hc
    rw [he]
    exact iff_of_true hc' fun resp hresp => (nomatch hresp)
  · rw [h.coherent_stores hc hstores, he]
    simp only [Option.mem_some_iff, forall_eq', hstores.cached]

/-- As long as all replies are for push and pull messages, the addresses are those of such
messages; the next step keeps it so if and only if it is of that kind too. -/
theorem addresses_coherent_iff (cfg : Config) {v : RDMAVan}
    (h : (machine cfg).Reachable DataReply v) :
    v.Coherent ∧ ∀ e v', v.step cfg e = .ok v' → (v'.Coherent ↔ v.DataReply e) := by
  have hinv : v.Linked ∧ v.Coherent := by
    refine h.invariant (P := fun v => v.Linked ∧ v.Coherent)
      ⟨linked_init cfg, fun _ isPush _ _ ht => ?_⟩ ?_
    · cases isPush <;> cases ht
    · rintro v e v' ⟨hlinked, hc⟩ hdata hstep
      exact ⟨hlinked.step hstep, (hlinked.coherent_step hc hstep).mpr hdata⟩
  exact ⟨hinv.2, fun e v' hstep => hinv.1.coherent_step hinv.2 hstep⟩

def smallNode (myId : ℤ) (endpoints : List ℤ) (kMaxEntries : ℕ) : Config :=
  ⟨myId, false, endpoints, kMaxEntries, 64, Nat.zero_lt_succ 63, fun a => a + 1⟩

def workerNine : Config := smallNode 9 [8] 4

def pullRequest : Message :=
  { recver := 8, appId := 0, customerId := 0, timestamp := 1, request := true
    data := [⟨16, 8⟩, ⟨0, 0⟩] }

/-- A request of a simple app with four bytes in its body, in which `key` happens to be 5. -/
def simpleRequest : Message :=
  { recver := 8, appId := 0, customerId := 0, timestamp := 0, request := true, simpleApp := true
    head := 1, body := [115, 116, 111, 112], key := 5 }

theorem addresses_coherent_iff_pull :
    ∃ v, (machine workerNine).Reachable DataReply v ∧ v.hasRemoteInfo 5 false 8 = true ∧
      v.Coherent := by
  obtain ⟨v, hreach, hinfo⟩ := Machine.exists_reachable_of_run (machine workerNine) DataReply
    [.setBytes 16 [5, 0, 0, 0, 0, 0, 0, 0], .sendMsg pullRequest,
      .pollCQ 8 (.reply ⟨4096, 0, 77, 0⟩)]
    (fun v => v.hasRemoteInfo 5 false 8 = true) (by decide +kernel)
  exact ⟨v, hreach, hinfo, (addresses_coherent_iff workerNine hreach).1⟩

/-- The address of the simple app's message is taken for that of key 5, and the pull of the key
aborts, as its meta data has another length. -/
theorem simple_request_fills_cache :
    ∃ v, (machine workerNine).Reachable (fun _ _ => True) v ∧
      v.remoteInfo 5 false 8 = some ⟨4096, 77, 0, 0⟩ ∧
      v.stored = [(⟨4096, 77, 0, 0⟩, simpleRequest)] ∧ isValidPushpull simpleRequest = false ∧
      (v.step workerNine (.sendMsg pullRequest)).map (fun _ => ()) = .error .inlineLen :=
  Machine.exists_reachable_of_run (machine workerNine) (fun _ _ => True)
    [.setBytes 16 [5, 0, 0, 0, 0, 0, 0, 0], .sendMsg simpleRequest,
      .pollCQ 8 (.reply ⟨4096, 0, 77, 0⟩)] _ (by decide +kernel)

end RDMAVan

end Ps.Rdma
