import MltByteps.Rdma.Fabric

/-! What each operation of the van does to all of its members. -/

namespace Ps.Rdma

theorem AddressPool.storeAddress_table {T : Type} {pool pool' : AddressPool T} {ptr : T} {idx : ℕ}
    (h : pool.storeAddress ptr = .ok (idx, pool')) :
    pool.table idx = none ∧ pool'.table = Function.update pool.table idx (some ptr) := by
  unfold storeAddress at h
  split at h
  · cases h
  · obtain ⟨hnone, h⟩ := require_bind_eq_ok.mp h
    cases h
    exact ⟨Option.isNone_iff_eq_none.mp hnone, rfl⟩

theorem arrayAt_eq_ok {data : List SArray} {i : ℕ} {sa : SArray} :
    arrayAt data i = .ok sa ↔ data[i]? = some sa := by
  unfold arrayAt
  rcases data[i]? with _ | sa' <;> simp

namespace RDMAVan

variable {cfg : Config} {v v' : RDMAVan} {msg msg' : Message} {posts : List WorkRequest}

/-! ## Sending -/

/-- What `AddMeta` and `PackWorkerTensorAddress` make of a message. -/
structure Labels (cfg : Config) (v : RDMAVan) (msg msg' : Message) : Prop where
  rest : msg' = { msg with
    key := msg'.key, addr := msg'.addr, valLen := msg'.valLen, option := msg'.option }
  control : isValidPushpull msg = false → msg' = msg
  key : msg'.key = msg.key ∨ msg'.key < 2 ^ 64
  push : isValidPushpull msg = true → msg.push = true → msg.request = true →
    ∃ vals, msg.data[1]? = some vals ∧ msg'.addr = vals.data ∧
      msg'.valLen = Int.bmod vals.size (2 ^ 32) ∧
      msg'.option = Int.bmod (cfg.keyOf vals.data) (2 ^ 32)
  pull : isValidPushpull msg = true → msg.push = false → msg.request = false →
    v.tensorInfoMap msg'.key msg'.recver = some (msg'.valLen, msg'.addr, msg'.option)
  other : msg.push ≠ msg.request →
    msg'.addr = msg.addr ∧ msg'.valLen = msg.valLen ∧ msg'.option = msg.option

theorem getRemoteAndLocalInfo_eq_ok {key : ℕ} {isPush : Bool} {recver : ℤ} {t : RemoteTuple} :
    v.getRemoteAndLocalInfo key isPush recver = .ok t ↔
      v.remoteInfo key isPush recver = some t := by
  unfold getRemoteAndLocalInfo
  rcases v.remoteInfo key isPush recver with _ | t' <;> simp

theorem decodeKey_lt (keys : List UInt8) : decodeKey keys < 2 ^ 64 := by
  suffices ∀ s : ℕ × ℕ, s.1 < 2 ^ 64 → (keys.foldl (fun s b =>
      ((s.1 + s.2 * b.toNat) % 2 ^ 64, s.2 * 256 % 2 ^ 64)) s).1 < 2 ^ 64 from
    this (0, 1) (Nat.two_pow_pos 64)
  induction keys with
  | nil => exact fun s hs => hs
  | cons b keys ih => exact fun s _ => ih _ (Nat.mod_lt _ (Nat.two_pow_pos 64))

theorem addMeta_labels {msg₁ : Message} (hvalid : isValidPushpull msg = true)
    (hadd : v.addMeta cfg msg = .ok msg₁) (hpack : v.packWorkerTensorAddress msg₁ = .ok msg') :
    v.Labels cfg msg msg' := by
  unfold addMeta at hadd
  obtain ⟨msg₀, hkey, hadd⟩ := bind_eq_ok.mp hadd
  have hmsg₀ : msg₀ = { msg with key := msg₀.key } ∧ (msg₀.key = msg.key ∨ msg₀.key < 2 ^ 64) := by
    split_ifs at hkey
    · rcases harray : arrayAt msg.data 0 with f | keys <;> rw [harray] at hkey <;> cases hkey
      exact ⟨rfl, .inr (decodeKey_lt _)⟩
    · cases hkey
      exact ⟨rfl, .inl rfl⟩
  clear hkey
  obtain ⟨hrest, hkey⟩ := hmsg₀
  generalize msg₀.key = key at hrest hkey
  subst hrest
  dsimp only at hadd
  split_ifs at hadd with hpush
  · obtain ⟨hp, hr⟩ := Bool.and_eq_true_iff.mp hpush
    obtain ⟨-, hadd⟩ := require_bind_eq_ok.mp hadd
    obtain ⟨vals, hvals, hadd⟩ := bind_eq_ok.mp hadd
    obtain ⟨-, hadd⟩ := require_bind_eq_ok.mp hadd
    generalize hlen : Int.bmod vals.size (2 ^ 32) = valLen at hadd
    generalize hoption : Int.bmod (cfg.keyOf vals.data) (2 ^ 32) = option at hadd
    cases hadd
    unfold packWorkerTensorAddress at hpack
    rw [if_pos (by simp [hp])] at hpack
    cases hpack
    exact ⟨rfl, fun h => absurd (hvalid.symm.trans h) (by decide), hkey,
      fun _ _ _ => ⟨vals, arrayAt_eq_ok.mp hvals, rfl, hlen.symm, hoption.symm⟩,
      fun _ h _ => absurd (hp.symm.trans h) (by decide), fun h => absurd (hp.trans hr.symm) h⟩
  · cases hadd
    unfold packWorkerTensorAddress at hpack
    split_ifs at hpack with hother
    · cases hpack
      refine ⟨rfl, fun h => absurd (hvalid.symm.trans h) (by decide), hkey,
        fun _ hp hr => absurd (by rw [hp, hr]; rfl) hpush, fun _ hp hr => ?_,
        fun _ => ⟨rfl, rfl, rfl⟩⟩
      simp [hp, hr] at hother
    · split at hpack
      · cases hpack
      · next len addr rkey hinfo =>
        cases hpack
        simp only [Bool.or_eq_true, not_or, Bool.not_eq_true] at hother
        exact ⟨rfl, fun h => absurd (hvalid.symm.trans h) (by decide), hkey,
          fun _ hp hr => absurd (by rw [hp, hr]; rfl) hpush, fun _ _ _ => hinfo,
          fun h => absurd (hother.1.trans hother.2.symm) h⟩

def withNewBuf (cfg : Config) (v : RDMAVan) (msg : Message) (mrs : List SArray) : RDMAVan :=
  let size := alignCeil (getPackMetaLen msg.toMeta) cfg.pageSize
  { v with
    mem := packMeta msg.toMeta
      (fun x => if v.top ≤ x ∧ x < v.top + size then 0 else v.mem x) v.top
    top := v.top + size
    msgBufs := v.msgBufs ++ [⟨getPackMetaLen msg.toMeta, v.top, msg.data, mrs⟩]
    msgbufCache := Function.update v.msgbufCache v.msgBufs.length (some msg) }

def withOldBuf (v : RDMAVan) (msg : Message) (p : ℕ) (buf : MessageBuffer) : RDMAVan :=
  { v with
    msgBufs := v.msgBufs.set p { buf with data := msg.data }
    mem := packMeta msg.toMeta v.mem buf.inlineBuf }

theorem prepareNewMsgBuf_store {v₁ : RDMAVan}
    (h : (v.prepareNewMsgBuf cfg msg).2.storeMsgBuf (v.prepareNewMsgBuf cfg msg).1 msg = .ok v₁) :
    v₁ = v.withNewBuf cfg msg [] := by
  obtain ⟨-, h⟩ := require_bind_eq_ok.mp h
  cases h
  rfl

theorem prepareData_withNewBuf {v₁ : RDMAVan}
    (h : (v.withNewBuf cfg msg []).prepareData msg v.msgBufs.length = .ok v₁) :
    ∃ mrs, (∀ mr ∈ mrs, mr ∈ msg.data) ∧ v₁ = v.withNewBuf cfg msg mrs := by
  unfold prepareData at h
  split_ifs at h
  · cases h
    exact ⟨[], fun mr hmr => absurd hmr List.not_mem_nil, rfl⟩
  obtain ⟨buf, hbuf, h⟩ := bind_eq_ok.mp h
  obtain ⟨sa, hsa, h⟩ := bind_eq_ok.mp h
  split_ifs at h
  · cases h
    exact ⟨[], fun mr hmr => absurd hmr List.not_mem_nil, rfl⟩
  obtain ⟨-, h⟩ := require_bind_eq_ok.mp h
  cases h
  have hbuf : some (⟨getPackMetaLen msg.toMeta, v.top, msg.data, []⟩ : MessageBuffer) =
      some buf := by
    rw [← msgBufAt_eq_ok.mp hbuf]
    exact List.getElem?_concat_length.symm
  cases hbuf
  refine ⟨[sa], fun mr hmr => ?_, ?_⟩
  · rw [List.mem_singleton.mp hmr]
    exact List.mem_of_getElem? (arrayAt_eq_ok.mp hsa)
  · unfold withNewBuf
    dsimp only
    rw [List.set_append_right _ _ (Nat.le_refl _), Nat.sub_self]
    rfl

theorem sendMsg_cases (h : v.sendMsg cfg msg = .ok (v', posts)) :
    ∃ msg' memMr, v.Labels cfg msg msg' ∧
      ((∃ mrs, (∀ mr ∈ mrs, mr ∈ msg'.data) ∧
        v' = { v with memMr }.withNewBuf cfg msg' mrs ∧
        posts = [.start ⟨getPackMetaLen msg'.toMeta, msg'.data.map SArray.size,
          v.msgBufs.length⟩]) ∨
      ∃ t buf, isValidPushpull msg = true ∧
        v.remoteInfo msg'.key msg'.push msg'.recver = some t ∧ v.msgBufs[t.msgBuf]? = some buf ∧
        buf.inlineLen = getPackMetaLen msg'.toMeta ∧
        v' = { v with memMr }.withOldBuf msg' t.msgBuf buf ∧
        v'.sendPushpull cfg msg' { buf with data := msg'.data } t = .ok posts) := by
  obtain ⟨-, h⟩ := require_bind_eq_ok.mp h
  obtain ⟨-, h⟩ := require_bind_eq_ok.mp h
  obtain ⟨-, h⟩ := require_bind_eq_ok.mp h
  dsimp only at h
  generalize registerMemory msg.data 0 v.memMr = memMr at h
  have hbegin : ∀ {v₁ : RDMAVan} {msg' : Message} {mrs : List SArray} {start : WorkRequest},
      v₁ = { v with memMr }.withNewBuf cfg msg' mrs →
      v₁.sendRendezvousBegin msg' v.msgBufs.length = .ok start →
      start = .start ⟨getPackMetaLen msg'.toMeta, msg'.data.map SArray.size, v.msgBufs.length⟩ := by
    rintro v₁ msg' mrs start rfl hstart
    obtain ⟨buf, hbuf, hstart⟩ := bind_eq_ok.mp hstart
    cases hstart
    have hbuf : some (⟨getPackMetaLen msg'.toMeta, v.top, msg'.data, mrs⟩ : MessageBuffer) =
        some buf := by
      rw [← msgBufAt_eq_ok.mp hbuf]
      exact List.getElem?_concat_length.symm
    cases hbuf
    rfl
  split_ifs at h with hvalid
  · obtain ⟨v₁, hstore, h⟩ := bind_eq_ok.mp h
    obtain ⟨start, hstart, h⟩ := bind_eq_ok.mp h
    cases h
    have hv' := prepareNewMsgBuf_store hstore
    have hcontrol : ∀ hv : isValidPushpull msg = true, False := fun hv => by simp [hv] at hvalid
    refine ⟨msg, memMr, ⟨rfl, fun _ => rfl, .inl rfl, fun hv => (hcontrol hv).elim,
      fun hv => (hcontrol hv).elim, fun _ => ⟨rfl, rfl, rfl⟩⟩,
      .inl ⟨[], fun mr hmr => absurd hmr List.not_mem_nil, hv', ?_⟩⟩
    rw [hbegin hv' hstart]
  simp only [Bool.not_eq_true', Bool.not_eq_false] at hvalid
  obtain ⟨msg₁, hadd, h⟩ := bind_eq_ok.mp h
  obtain ⟨msg', hpack, h⟩ := bind_eq_ok.mp h
  have hlabels := addMeta_labels hvalid hadd hpack
  refine ⟨msg', memMr, ⟨hlabels.rest, hlabels.control, hlabels.key, hlabels.push, hlabels.pull,
    hlabels.other⟩, ?_⟩
  split_ifs at h with hinfo
  · obtain ⟨v₁, hstore, h⟩ := bind_eq_ok.mp h
    obtain ⟨v₂, hdata, h⟩ := bind_eq_ok.mp h
    obtain ⟨start, hstart, h⟩ := bind_eq_ok.mp h
    cases h
    rw [prepareNewMsgBuf_store hstore] at hdata
    obtain ⟨mrs, hmrs, hv'⟩ := prepareData_withNewBuf hdata
    refine .inl ⟨mrs, hmrs, hv', ?_⟩
    rw [hbegin hv' hstart]
  · obtain ⟨t, ht, h⟩ := bind_eq_ok.mp h
    obtain ⟨buf, hbuf, h⟩ := bind_eq_ok.mp h
    obtain ⟨hlen, h⟩ := require_bind_eq_ok.mp h
    obtain ⟨posts', hposts, h⟩ := bind_eq_ok.mp h
    cases h
    exact .inr ⟨t, buf, hvalid, getRemoteAndLocalInfo_eq_ok.mp ht, msgBufAt_eq_ok.mp hbuf, hlen,
      rfl, hposts⟩

theorem sendPushpull_cases {buf : MessageBuffer} {t : RemoteTuple}
    (h : v.sendPushpull cfg msg buf t = .ok posts) :
    ∃ data, posts = data ++
        [.writeWithImm t.remoteAddr (v.mem.read buf.inlineBuf buf.inlineLen) t.idx] ∧
      (data = [] ∨
        (msg.push = true ∧ msg.request = true ∧ ∃ mr, buf.mrs = [mr] ∧
          data = [.write (t.remoteAddr + alignCeil buf.inlineLen cfg.pageSize)
            (v.mem.read mr.data mr.size)]) ∨
        (msg.push = false ∧ msg.request = false ∧ ∃ src,
          data = [.write msg.addr (v.mem.read src (msg.valLen % 2 ^ 32).toNat)])) := by
  have hmeta : v.sendMeta buf t = .ok posts → posts =
      [.writeWithImm t.remoteAddr (v.mem.read buf.inlineBuf buf.inlineLen) t.idx] := by
    intro h
    obtain ⟨-, h⟩ := require_bind_eq_ok.mp h
    cases h
    rfl
  unfold sendPushpull at h
  split_ifs at h with hpush hresponse hpull
  · obtain ⟨hp, hr⟩ := Bool.and_eq_true_iff.mp hpush
    unfold sendPushRequest at h
    split at h
    · next mr hmrs =>
      cases h
      exact ⟨_, rfl, .inr (.inl ⟨hp, hr, mr, hmrs, rfl⟩)⟩
    · cases h
  · exact ⟨[], hmeta h, .inl rfl⟩
  · exact ⟨[], hmeta h, .inl rfl⟩
  · obtain ⟨vals, -, h⟩ := bind_eq_ok.mp h
    obtain ⟨-, h⟩ := require_bind_eq_ok.mp h
    obtain ⟨-, h⟩ := require_bind_eq_ok.mp h
    obtain ⟨-, h⟩ := require_bind_eq_ok.mp h
    cases h
    have hnot : msg.push = false ∧ msg.request = false := by
      cases hp : msg.push <;> cases hr : msg.request <;> simp_all
    exact ⟨_, rfl, .inr (.inr ⟨hnot.1, hnot.2, vals.data, rfl⟩)⟩

/-! ## The completion queue -/

def blockSize (cfg : Config) (req : RendezvousStart) : ℕ :=
  if cfg.isServer then alignCeil req.metaLen cfg.pageSize + req.dataLen.sum else req.metaLen

theorem pollCQ_start_cases {peer : ℤ} {req : RendezvousStart}
    (h : v.pollCQ cfg peer (.start req) = .ok (v', posts)) :
    ∃ idx addrPool, v.addrPool.storeAddress ⟨v.top, req.metaLen, req.dataLen⟩ =
        .ok (idx, addrPool) ∧
      v' = { (v.alloc cfg (blockSize cfg req)).2 with addrPool } ∧
      posts = [.reply ⟨v.top, req.originAddr, cfg.keyOf v.top, idx⟩] := by
  obtain ⟨⟨v₁, resp⟩, hreply, h⟩ := bind_eq_ok.mp h
  obtain ⟨-, hreply⟩ := require_bind_eq_ok.mp hreply
  obtain ⟨⟨idx, pool⟩, hstore, hreply⟩ := bind_eq_ok.mp hreply
  cases hreply
  cases h
  exact ⟨idx, pool, hstore, rfl, rfl⟩

theorem pollCQ_reply_cases {peer : ℤ} {resp : RendezvousReply}
    (h : v.pollCQ cfg peer (.reply resp) = .ok (v', posts)) :
    ∃ msg buf pushAddr pullAddr, v.msgbufCache resp.originAddr = some msg ∧
      v.msgBufs[resp.originAddr]? = some buf ∧
      v' = { v with
        pushAddr, pullAddr
        msgbufCache := Function.update v.msgbufCache resp.originAddr none
        stored := (⟨resp.addr, resp.rkey, resp.idx, resp.originAddr⟩, msg) :: v.stored } ∧
      (∀ key isPush recver, v'.remoteInfo key isPush recver =
        if key = msg.key ∧ isPush = msg.push ∧ recver = msg.recver
        then some ⟨resp.addr, resp.rkey, resp.idx, resp.originAddr⟩
        else v.remoteInfo key isPush recver) ∧
      (posts = [.writeWithImm resp.addr (v.mem.read buf.inlineBuf buf.inlineLen) resp.idx] ∨
        isValidPushpull msg = true ∧ v'.sendPushpull cfg msg buf
          ⟨resp.addr, resp.rkey, resp.idx, resp.originAddr⟩ = .ok posts) := by
  obtain ⟨v₁, hstore, h⟩ := bind_eq_ok.mp h
  obtain ⟨msg, hmsg, -, -, -, -, hinfo⟩ := storeRemoteAndLocalInfo_spec hstore
  obtain ⟨msg₀, hmsg₀, hstore⟩ := bind_eq_ok.mp hstore
  cases (getFirstMsg_eq_ok.mp hmsg₀).symm.trans hmsg
  cases hstore
  obtain ⟨msg₁, hmsg₁, h⟩ := bind_eq_ok.mp h
  cases (getFirstMsg_eq_ok.mp hmsg₁).symm.trans hmsg
  obtain ⟨t, ht, h⟩ := bind_eq_ok.mp h
  obtain ⟨buf, hbuf, h⟩ := bind_eq_ok.mp h
  obtain ⟨posts', hposts, h⟩ := bind_eq_ok.mp h
  obtain ⟨v₂, hrelease, h⟩ := bind_eq_ok.mp h
  obtain ⟨-, hrelease⟩ := require_bind_eq_ok.mp hrelease
  cases hrelease
  cases h
  have ht := getRemoteAndLocalInfo_eq_ok.mp ht
  rw [hinfo, if_pos ⟨rfl, rfl, rfl⟩] at ht
  cases ht
  refine ⟨msg, buf, _, _, hmsg, msgBufAt_eq_ok.mp hbuf, rfl, hinfo, ?_⟩
  by_cases hvalid : isValidPushpull msg = true
  · rw [if_neg (by simp [hvalid])] at hposts
    exact .inr ⟨hvalid, hposts⟩
  · rw [if_pos (by simp [hvalid])] at hposts
    exact .inl (Except.ok.inj hposts).symm

/-! ## Receiving -/

theorem createFunctionalSarray_below (v : RDMAVan) (bytes : List UInt8) {x : ℕ} (hx : x < v.top) :
    (v.createFunctionalSarray bytes).2.mem x = v.mem x :=
  Memory.write_of_lt v.mem bytes hx

theorem recvPushpull_cases {bufCtx : BufferContext}
    (h : v.recvPushpull cfg msg bufCtx = .ok (msg', v')) :
    ∃ data mem top tensorInfoMap, msg' = { msg with data } ∧
      v' = { v with mem, top, tensorInfoMap } ∧ v.top ≤ top ∧ (∀ x < v.top, mem x = v.mem x) ∧
      (msg.push = true → msg.request = true → ∃ keys lens, data = [keys,
        ⟨bufCtx.buffer + alignCeil (getPackMetaLen msg.toMeta) cfg.pageSize,
          bufCtx.dataLen.getD 1 0 % 2 ^ 32⟩, lens]) ∧
      ∀ key node info, tensorInfoMap key node = some info →
        v.tensorInfoMap key node = some info ∨ msg.push = true ∧ msg.request = true ∧
          key = msg.key ∧ node = msg.sender ∧ info = (msg.valLen, msg.addr, msg.option) := by
  have harrays : ∀ vals : SArray, ∃ data mem top, v.receivedData msg vals =
      ({ msg with data }, { v with mem, top }) ∧ v.top ≤ top ∧ (∀ x < v.top, mem x = v.mem x) ∧
      ∃ keys lens, data = [keys, vals, lens] := by
    intro vals
    refine ⟨_, _, _, rfl, ?_, fun x hx => ?_, _, _, rfl⟩
    · exact (Nat.le_add_right _ _).trans (Nat.le_add_right _ _)
    · exact (createFunctionalSarray_below _ _ (Nat.lt_of_lt_of_le hx (Nat.le_add_right _ _))).trans
        (createFunctionalSarray_below v _ hx)
  unfold recvPushpull at h
  split_ifs at h with hpush hpull hresponse
  · obtain ⟨hp, hr⟩ := Bool.and_eq_true_iff.mp hpush
    obtain ⟨-, h⟩ := require_bind_eq_ok.mp h
    dsimp only at h
    obtain ⟨data, mem, top, harray, htop, hmem, hdata⟩ := harrays
      ⟨bufCtx.buffer + alignCeil (getPackMetaLen msg.toMeta) cfg.pageSize,
        bufCtx.dataLen.getD 1 0 % 2 ^ 32⟩
    rw [harray] at h
    obtain ⟨v₁, hstore, h⟩ := bind_eq_ok.mp h
    cases h
    unfold storeWorkerTensorAddress at hstore
    dsimp only at hstore
    split at hstore
    · cases hstore
      refine ⟨data, mem, top, _, rfl, rfl, htop, hmem, fun _ _ => hdata,
        fun key node info hinfo => ?_⟩
      rw [Function.update_apply] at hinfo
      split_ifs at hinfo with hkey
      · rw [Function.update_apply] at hinfo
        split_ifs at hinfo with hnode
        · exact .inr ⟨hp, hr, hkey, hnode, (Option.some.inj hinfo).symm⟩
        · exact .inl (hkey ▸ hinfo)
      · exact .inl hinfo
    · obtain ⟨-, hstore⟩ := require_bind_eq_ok.mp hstore
      cases hstore
      exact ⟨data, mem, top, _, rfl, rfl, htop, hmem, fun _ _ => hdata, fun _ _ _ => .inl⟩
  · cases h
    have hnot : msg.push = true → False := by
      intro hp
      simp [hp] at hpull
    exact ⟨_, _, _, _, rfl, rfl, Nat.le_add_right _ _,
      fun x hx => createFunctionalSarray_below v _ hx, fun hp => (hnot hp).elim, fun _ _ _ => .inl⟩
  · obtain ⟨-, h⟩ := require_bind_eq_ok.mp h
    cases h
    exact ⟨_, _, _, _, rfl, rfl, Nat.le_refl _, fun _ _ => rfl,
      fun hp hr => absurd (by rw [hp, hr]; rfl) hpush, fun _ _ _ => .inl⟩
  · cases h
    obtain ⟨data, mem, top, harray, htop, hmem, -⟩ := harrays
      ⟨msg.addr, (msg.valLen % 2 ^ 64).toNat⟩
    obtain ⟨hmsg, hv⟩ := Prod.mk.inj harray
    exact ⟨data, mem, top, _, hmsg, hv, htop, hmem,
      fun hp hr => absurd (by rw [hp, hr]; rfl) hpush, fun _ _ _ => .inl⟩

theorem recvMsg_cases (h : v.recvMsg cfg = .ok v') :
    ∃ peer bufCtx rest m msg mem top tensorInfoMap,
      v.recvBuffers = (peer, bufCtx) :: rest ∧
      unpackMeta v.mem bufCtx.buffer bufCtx.metaLen = some m ∧
      msg.toMeta = { m with recver := cfg.myId, sender := peer } ∧
      v' = { v with
        mem, top, tensorInfoMap
        recvBuffers := rest
        returned := msg :: v.returned } ∧
      v.top ≤ top ∧ (∀ x < v.top, mem x = v.mem x) ∧
      (isValidPushpull msg = true → msg.push = true → msg.request = true →
        ∃ keys lens, msg.data = [keys,
          ⟨bufCtx.buffer + alignCeil (getPackMetaLen msg.toMeta) cfg.pageSize,
            bufCtx.dataLen.getD 1 0 % 2 ^ 32⟩, lens]) ∧
      ∀ key node info, tensorInfoMap key node = some info →
        v.tensorInfoMap key node = some info ∨ isValidPushpull msg = true ∧ msg.push = true ∧
          msg.request = true ∧ key = msg.key ∧ node = peer ∧
          info = (msg.valLen, msg.addr, msg.option) := by
  unfold recvMsg at h
  split at h
  · cases h
  next peer bufCtx rest hbuffers =>
  obtain ⟨m, hm, h⟩ := bind_eq_ok.mp h
  have hm : unpackMeta v.mem bufCtx.buffer bufCtx.metaLen = some m := by
    rcases hunpack : unpackMeta v.mem bufCtx.buffer bufCtx.metaLen with _ | m' <;>
      rw [hunpack] at hm <;> cases hm
    rfl
  dsimp only at h
  obtain ⟨⟨msg, v₁⟩, hdata, h⟩ := bind_eq_ok.mp h
  cases h
  split_ifs at hdata with hvalid
  · cases hdata
    have hcontrol : ∀ msg : Message, (!isValidPushpull msg) = true →
        isValidPushpull msg = true → False := fun msg h h' => by simp [h'] at h
    exact ⟨peer, bufCtx, rest, m, _, _, _, _, hbuffers, hm, rfl, rfl, Nat.le_refl _, fun _ _ => rfl,
      fun hv => (hcontrol _ hvalid hv).elim, fun _ _ _ => .inl⟩
  · obtain ⟨data, mem, top, tensorInfoMap, rfl, rfl, htop, hmem, harrays, hinfo⟩ :=
      recvPushpull_cases hdata
    have hvalid : ∀ msg : Message, ¬(!isValidPushpull msg) = true → isValidPushpull msg = true :=
      fun msg h => by simpa using h
    refine ⟨peer, bufCtx, rest, m, _, mem, top, tensorInfoMap, hbuffers, hm, rfl, rfl, htop, hmem,
      fun _ => harrays, fun key node info h => ?_⟩
    rcases hinfo key node info h with h | h
    · exact .inl h
    · exact .inr ⟨hvalid _ ‹_›, h⟩

end RDMAVan

end Ps.Rdma
