import Mathlib.Algebra.Order.BigOperators.Group.List
import MltByteps.Rdma.Blocks

/-! No step of the vans writes outside of what is set aside for it. -/

namespace Ps.Rdma.Fabric

open Lots (Holds)

variable {cfg : ℤ → Config} {heap : ℤ → ℕ} {Sent : ℤ → Message → Prop}
  {lots : ℤ → ℕ → Option Lot} {s s' : Fabric} {node peer w d : ℤ} {v : RDMAVan}
  {posts wrs : List WorkRequest}

theorem filledLen_le (m : Meta) : filledLen m ≤ getPackMetaLen m := by
  unfold filledLen getPackMetaLen nodeOffset
  split_ifs <;> omega

theorem packMeta_frame {m : Meta} (hm : m.Packable) {lot : ℕ → Option Lot} {a x : ℕ} {l l' : Lot}
    (hblock : Holds lot a (getPackMetaLen m) l) (mem : Memory) (hx : lot x = some l')
    (hne : l' ≠ l) : packMeta m mem a x = mem x := by
  refine packMeta_outside hm.host_le ?_
  by_contra hin
  obtain ⟨i, rfl⟩ := Nat.exists_eq_add_of_le (show a ≤ x by omega)
  have hle := filledLen_le m
  have hsame := hblock i (by omega)
  rw [hx] at hsame
  exact hne (Option.some.inj hsame)

/-! ## Sending -/

theorem requestOk_sendPushpull (hpage : ∀ a b, (cfg a).pageSize = (cfg b).pageSize) {p : ℕ}
    {msg : Message} {buf : MessageBuffer} {t : RemoteTuple} {ctx : BufferContext}
    (hgrant : Granted cfg lots s w d p t.idx ctx) (haddr : ctx.buffer = t.remoteAddr)
    (hlen : buf.inlineLen = ctx.metaLen) (hmrs : ∀ mr ∈ buf.mrs, mr.size ≤ ctx.dataLen.sum)
    (hissued : Issued cfg heap Sent w msg) (hrecver : msg.recver = d)
    (hvalid : isValidPushpull msg = true)
    (himage : msg.toMeta.IsImage (v.mem.read buf.inlineBuf buf.inlineLen))
    (hposts : v.sendPushpull (cfg w) msg buf t = .ok posts) :
    ∀ wr ∈ posts, RequestOk cfg heap Sent lots s w d wr := by
  obtain ⟨data, rfl, hdata⟩ := RDMAVan.sendPushpull_cases hposts
  intro wr hwr
  rcases List.mem_append.mp hwr with hwr | hwr
  · rcases hdata with rfl | ⟨hp, hr, mr, hmr, rfl⟩ | ⟨hp, hr, src, rfl⟩
    · exact absurd hwr List.not_mem_nil
    · cases List.mem_singleton.mp hwr
      refine .inl ⟨p, t.idx, ctx, hgrant, hrecver ▸ (hissued.push hvalid hp hr).1, ?_, ?_⟩
      · rw [haddr, hlen, hpage w d]
      · rw [Memory.length_read]
        exact hmrs mr (hmr ▸ List.mem_singleton_self mr)
    · cases List.mem_singleton.mp hwr
      refine .inr fun i hi => ?_
      rw [Memory.length_read] at hi
      exact hrecver ▸ hissued.pull hvalid hp hr i hi
  · cases List.mem_singleton.mp hwr
    exact ⟨p, ctx, hgrant, haddr.symm, (Memory.length_read ..).trans hlen, msg, hissued, hrecver,
      himage⟩

theorem grows_withNewBuf (v : RDMAVan) (memMr : List ℕ) (c : Config) (msg : Message)
    (mrs : List SArray) : Grows v ({ v with memMr }.withNewBuf c msg mrs) := by
  refine ⟨Nat.le_add_right _ _, fun _ _ => id, fun p buf hp => ⟨buf, ?_, rfl, rfl⟩⟩
  exact (List.getElem?_append_left (List.getElem?_eq_some_iff.mp hp).1).trans hp

theorem Inv.newBuf (h : Inv cfg heap Sent lots s) {msg : Message} {memMr : List ℕ}
    {mrs : List SArray} (hissued : Issued cfg heap Sent node msg)
    (hmrs : ∀ mr ∈ mrs, mr ∈ msg.data)
    (hheap : ({ s.van node with memMr }.withNewBuf (cfg node) msg mrs).top ≤ heap node) :
    ∃ lots', Inv cfg heap Sent lots' (s.post node
      ({ s.van node with memMr }.withNewBuf (cfg node) msg mrs) msg.recver
      [.start ⟨getPackMetaLen msg.toMeta, msg.data.map SArray.size,
        (s.van node).msgBufs.length⟩]) := by
  set len := getPackMetaLen msg.toMeta
  set lot := Lots.give (lots node) (s.van node).top len (.inline (s.van node).msgBufs.length)
  have hsize := le_alignCeil len (cfg node).pageSize_pos
  have hbelow : ∀ x l, lots node x = some l → x < (s.van node).top :=
    fun x l hx => (h.below node x l hx).2.1
  have hlot : ∀ x l, lots node x = some l → lot x = some l :=
    fun x l hx => Lots.give_of_below hbelow hx
  have hself : Function.update lots node lot node = lot := Function.update_self ..
  have hgrows := grows_withNewBuf (s.van node) memMr (cfg node) msg mrs
  have hframe : ∀ x l, lots node x = some l →
      ({ s.van node with memMr }.withNewBuf (cfg node) msg mrs).mem x = (s.van node).mem x := by
    intro x l hx
    have hlt := hbelow x l hx
    exact (packMeta_outside hissued.packable.host_le (.inl hlt)).trans
      (if_neg fun hin => absurd hin.1 (Nat.not_le.mpr hlt))
  have hblock : Holds (Function.update lots node lot node) (s.van node).top len
      (.inline (s.van node).msgBufs.length) := by
    rw [hself]
    exact Lots.give_holds _ _ _ _
  have hadd := (((h.van node).withFreshMem hframe).mono (keeps_lots hlot)).addBuf rfl
    ⟨len, (s.van node).top, msg.data, mrs⟩ hblock hissued ⟨_, _, rfl⟩
  have hok : VanOk cfg heap Sent (Function.update lots node lot) s node
      ({ s.van node with memMr }.withNewBuf (cfg node) msg mrs) :=
    ⟨hadd.inline, hadd.links, hadd.cached, hadd.received, hadd.blocks, hadd.tensors, hadd.returned⟩
  refine ⟨_, h.post hgrows hlot (fun x l hx => ?_) hheap ?_ fun wr hwr => ?_⟩
  · refine (Lots.give_eq_some hx).imp_right fun hx => ⟨hx.1, hx.2.trans_le ?_⟩
    exact Nat.add_le_add_left hsize _
  · exact hok.mono (keeps_post_same hgrows _ _)
  · cases List.mem_singleton.mp hwr
    refine ⟨⟨len, (s.van node).top, msg.data, mrs⟩, ?_, rfl,
      fun mr hmr => List.le_sum_of_mem (List.mem_map_of_mem (hmrs mr hmr))⟩
    rw [post_van_self]
    exact List.getElem?_concat_length

theorem Inv.oldBuf (h : Inv cfg heap Sent lots s)
    (hpage : ∀ a b, (cfg a).pageSize = (cfg b).pageSize) {msg : Message} {memMr : List ℕ}
    {t : RemoteTuple} {buf : MessageBuffer} (hissued : Issued cfg heap Sent node msg)
    (hvalid : isValidPushpull msg = true)
    (hinfo : (s.van node).remoteInfo msg.key msg.push msg.recver = some t)
    (hbuf : (s.van node).msgBufs[t.msgBuf]? = some buf)
    (hlen : buf.inlineLen = getPackMetaLen msg.toMeta)
    (hv : v = { s.van node with memMr }.withOldBuf msg t.msgBuf buf) (hheap : v.top ≤ heap node)
    (hposts : v.sendPushpull (cfg node) msg { buf with data := msg.data } t = .ok posts) :
    Inv cfg heap Sent lots (s.post node v msg.recver posts) := by
  have hmem : v.mem = packMeta msg.toMeta (s.van node).mem buf.inlineBuf := by rw [hv]; rfl
  have hbufs : ∀ p, v.msgBufs[p]? = if t.msgBuf = p then some { buf with data := msg.data }
      else (s.van node).msgBufs[p]? := by
    intro p
    rw [hv, RDMAVan.withOldBuf, List.getElem?_set, if_pos (List.getElem?_eq_some_iff.mp hbuf).1]
  have hgrows : Grows (s.van node) v := by
    refine ⟨by rw [hv]; exact Nat.le_refl _, fun idx ctx hidx => by rw [hv]; exact hidx,
      fun p buf' hp => ?_⟩
    rw [hbufs]
    split_ifs with hp'
    · subst hp'
      cases hbuf.symm.trans hp
      exact ⟨_, rfl, rfl, rfl⟩
    · exact ⟨buf', hp, rfl, rfl⟩
  have hk : Keeps lots lots s _ := keeps_post_same hgrows msg.recver posts
  have hblock : Holds (lots node) buf.inlineBuf (getPackMetaLen msg.toMeta) (.inline t.msgBuf) :=
    hlen ▸ (h.van node).inline t.msgBuf buf hbuf
  obtain ⟨hnone, ctx, hgrant, haddr⟩ := (h.van node).links _ _ _ t hinfo
  have hframe : ∀ x l, lots node x = some l → ¬l = .inline t.msgBuf →
      v.mem x = (s.van node).mem x := fun x l hx hne => by
    rw [hmem]
    exact packMeta_frame hissued.packable hblock _ hx hne
  have hbase := ((h.van node).withMem (· = .inline t.msgBuf) hframe
    (fun p msg' hmsg' hp => by cases hp; cases hnone.symm.trans hmsg')
    fun x p idx _ hx => by cases hx).mono hk
  obtain ⟨buf', hbuf', hlen', hmrs⟩ := hgrant.buf
  cases hbuf.symm.trans hbuf'
  refine h.post_same hgrows hheap ?_ ?_
  · subst hv
    refine { hbase with inline := fun p buf' hp => ?_, cached := fun p msg' hmsg' => ?_ }
    · rw [hbufs] at hp
      split_ifs at hp with hp'
      · cases hp
        subst hp'
        exact (h.van node).inline _ buf hbuf
      · exact (h.van node).inline p buf' hp
    · obtain ⟨hissued', buf', hbuf', himage⟩ := hbase.cached p msg' hmsg'
      have hne : t.msgBuf ≠ p := by
        rintro rfl
        cases hnone.symm.trans hmsg'
      exact ⟨hissued', buf', by rw [hbufs, if_neg hne]; exact hbuf', himage⟩
  · have himage : msg.toMeta.IsImage (v.mem.read buf.inlineBuf buf.inlineLen) := by
      rw [hmem, hlen]
      exact ⟨_, _, rfl⟩
    have hlen' : ({ buf with data := msg.data } : MessageBuffer).inlineLen = ctx.metaLen := hlen'
    exact requestOk_sendPushpull hpage (hgrant.mono hk) haddr hlen' hmrs hissued rfl hvalid himage
      hposts

theorem Inv.sendMsg (h : Inv cfg heap Sent lots s)
    (hpage : ∀ a b, (cfg a).pageSize = (cfg b).pageSize) {msg : Message} (hsent : Sent node msg)
    (hsound : Sound cfg heap node msg)
    (hsend : (s.van node).sendMsg (cfg node) msg = .ok (v, posts)) (hheap : v.top ≤ heap node) :
    ∃ lots', Inv cfg heap Sent lots' (s.post node v msg.recver posts) := by
  obtain ⟨msg', memMr, hlabels, hcases⟩ := RDMAVan.sendMsg_cases hsend
  have hissued := hsound.issued hsent hlabels (h.van node).tensors
  have hrecver : msg'.recver = msg.recver := by rw [hlabels.rest]
  rw [← hrecver]
  rcases hcases with ⟨mrs, hmrs, rfl, rfl⟩ | ⟨t, buf, hvalid, hinfo, hbuf, hlen, hv, hposts⟩
  · exact h.newBuf hissued hmrs hheap
  · have hvalid' : isValidPushpull msg' = true := by
      rw [hlabels.rest]
      exact hvalid
    exact ⟨lots, h.oldBuf hpage hissued hvalid' hinfo hbuf hlen hv hheap hposts⟩

/-! ## The completion queue -/

theorem Inv.own_eq_none (h : Inv cfg heap Sent lots s) {a n : ℕ}
    (hown : ∀ i < n, OwnMemory cfg heap node (a + i)) : ∀ i < n, lots node (a + i) = none := by
  intro i hi
  by_contra hsome
  obtain ⟨l, hl⟩ := Option.ne_none_iff_exists'.mp hsome
  obtain ⟨hlo, -, hhi⟩ := h.below node _ l hl
  rcases hown i hi with hlt | hge <;> omega

/-- The memory that an answered rendezvous sets aside: the values of a push request have their place
behind the meta data, at a server. -/
theorem exists_lots_start {lot : ℕ → Option Lot} {top : ℕ}
    (hbelow : ∀ x l, lot x = some l → x < top) (c : Config) (req : RendezvousStart) (peer : ℤ)
    (idx : ℕ) :
    ∃ lot' : ℕ → Option Lot, (∀ x l, lot x = some l → lot' x = some l) ∧
      (∀ x l, lot' x = some l →
        lot x = some l ∨ top ≤ x ∧ x < top + RDMAVan.blockSize c req) ∧
      Holds lot' top req.metaLen (.packed peer idx) ∧
      (c.isServer = true → Holds lot' (top + alignCeil req.metaLen c.pageSize) req.dataLen.sum
        (.values peer idx)) := by
  set block := alignCeil req.metaLen c.pageSize
  have hblock := le_alignCeil req.metaLen c.pageSize_pos
  set lot₁ := Lots.give lot top req.metaLen (.packed peer idx)
  have hbelow₁ : ∀ x l, lot₁ x = some l → x < top + block := by
    intro x l hx
    rcases Lots.give_eq_some hx with hx | hx
    · exact (hbelow x l hx).trans_le (Nat.le_add_right _ _)
    · omega
  unfold RDMAVan.blockSize
  by_cases hserver : c.isServer = true
  · refine ⟨Lots.give lot₁ (top + block) req.dataLen.sum (.values peer idx),
      fun x l hx => Lots.give_of_below hbelow₁ (Lots.give_of_below hbelow hx), fun x l hx => ?_,
      fun i hi => Lots.give_of_below hbelow₁ (Lots.give_holds _ _ _ _ i hi),
      fun _ => Lots.give_holds _ _ _ _⟩
    rw [if_pos hserver]
    rcases Lots.give_eq_some hx with hx | hx
    · exact (Lots.give_eq_some hx).imp_right fun hx => ⟨hx.1, by omega⟩
    · exact .inr ⟨by omega, by omega⟩
  · refine ⟨lot₁, fun x l hx => Lots.give_of_below hbelow hx, fun x l hx => ?_,
      Lots.give_holds _ _ _ _, fun hs => absurd hs hserver⟩
    rw [if_neg hserver]
    exact Lots.give_eq_some hx

theorem Inv.start (h : Inv cfg heap Sent lots s) {req : RendezvousStart}
    (hnet : s.net (peer, node) = .start req :: wrs)
    (hpoll : (s.van node).pollCQ (cfg node) peer (.start req) = .ok (v, posts))
    (hheap : v.top ≤ heap node) :
    ∃ lots', Inv cfg heap Sent lots'
      ((s.take node peer (.start req) wrs).post node v peer posts) := by
  have hreq := h.net peer node (.start req) (hnet ▸ List.mem_cons_self)
  replace h := h.take hnet
  replace hreq : RequestOk cfg heap Sent lots (s.take node peer (.start req) wrs) peer node
    (.start req) := hreq
  replace hpoll : ((s.take node peer (.start req) wrs).van node).pollCQ (cfg node) peer
    (.start req) = .ok (v, posts) := hpoll
  generalize s.take node peer (.start req) wrs = s at h hreq hpoll ⊢
  obtain ⟨idx, pool, hstore, rfl, rfl⟩ := RDMAVan.pollCQ_start_cases hpoll
  obtain ⟨hfree, htable⟩ := AddressPool.storeAddress_table hstore
  have hsize := le_alignCeil (RDMAVan.blockSize (cfg node) req) (cfg node).pageSize_pos
  have hbelow : ∀ x l, lots node x = some l → x < (s.van node).top :=
    fun x l hx => (h.below node x l hx).2.1
  obtain ⟨lot, hlot, hnew, hpacked, hvalues⟩ :=
    exists_lots_start hbelow (cfg node) req peer idx
  have hself : Function.update lots node lot node = lot := Function.update_self ..
  rw [← hself] at hpacked hvalues
  set v := { ((s.van node).alloc (cfg node) (RDMAVan.blockSize (cfg node) req)).2 with
    addrPool := pool }
  have hgrows : Grows (s.van node) v := by
    refine ⟨Nat.le_add_right _ _, fun i ctx hi => ?_, fun p buf hp => ⟨buf, hp, rfl, rfl⟩⟩
    rw [htable, Function.update_of_ne]
    · exact hi
    · rintro rfl
      cases hfree.symm.trans hi
  have hframe : ∀ x l, lots node x = some l → v.mem x = (s.van node).mem x := by
    intro x l hx
    have hlt := hbelow x l hx
    exact if_neg (by omega)
  have hadd := (((h.van node).withFreshMem hframe).mono (keeps_lots hlot)).addBlock
    ⟨(s.van node).top, req.metaLen, req.dataLen⟩ htable hpacked hvalues
  have hok : VanOk cfg heap Sent (Function.update lots node lot) s node v :=
    ⟨hadd.inline, hadd.links, hadd.cached, hadd.received, hadd.blocks, hadd.tensors, hadd.returned⟩
  refine ⟨_, h.post hgrows hlot (fun x l hx => ?_) hheap ?_ fun wr hwr => ?_⟩
  · refine (hnew x l hx).imp_right fun hx => ⟨hx.1, hx.2.trans_le ?_⟩
    exact Nat.add_le_add_left hsize _
  · exact hok.mono (keeps_post_same hgrows _ _)
  · cases List.mem_singleton.mp hwr
    refine ⟨⟨(s.van node).top, req.metaLen, req.dataLen⟩, ⟨?_, ?_, hpacked, hvalues⟩, rfl⟩
    · rw [post_van_self, htable, Function.update_self]
    · exact hreq.mono (keeps_post hgrows hlot peer _)

theorem Inv.reply (h : Inv cfg heap Sent lots s)
    (hpage : ∀ a b, (cfg a).pageSize = (cfg b).pageSize) (htracked : s.Tracked)
    {resp : RendezvousReply} (hnet : s.net (peer, node) = .reply resp :: wrs)
    (hpoll : (s.van node).pollCQ (cfg node) peer (.reply resp) = .ok (v, posts))
    (hheap : v.top ≤ heap node) :
    Inv cfg heap Sent lots ((s.take node peer (.reply resp) wrs).post node v peer posts) := by
  obtain ⟨ctx, hgrant, haddr⟩ := h.net peer node (.reply resp) (hnet ▸ List.mem_cons_self)
  obtain ⟨msg, buf, pushAddr, pullAddr, hmsg, hbuf, hv, hinfo, hposts⟩ :=
    RDMAVan.pollCQ_reply_cases hpoll
  have hrecver : msg.recver = peer := by
    obtain ⟨msg', hmsg', hrecver⟩ := htracked.reply_message (hnet ▸ List.mem_cons_self)
    cases hmsg.symm.trans hmsg'
    exact hrecver
  replace h := h.take hnet
  have hgrows : Grows (s.van node) v := by
    rw [hv]
    exact ⟨Nat.le_refl _, fun _ _ => id, fun _ buf hp => ⟨buf, hp, rfl, rfl⟩⟩
  have hk : Keeps lots lots s ((s.take node peer (.reply resp) wrs).post node v peer posts) := by
    obtain ⟨hlots, hvan⟩ := @keeps_post_same lots (s.take node peer (.reply resp) wrs) node v hgrows
      peer posts
    exact ⟨hlots, hvan⟩
  have hmem : v.mem = (s.van node).mem := by rw [hv]
  have hcache : v.msgbufCache = Function.update (s.van node).msgbufCache resp.originAddr none := by
    rw [hv]
  have hbase : VanOk cfg heap Sent lots
      ((s.take node peer (.reply resp) wrs).post node v peer posts) node (s.van node) :=
    (h.van node).mono ⟨hk.lots, hk.van⟩
  obtain ⟨hissued, buf', hbuf', himage⟩ := hbase.cached _ msg hmsg
  cases hbuf.symm.trans hbuf'
  obtain ⟨buf', hbuf', hlen, hmrs⟩ := hgrant.buf
  cases hbuf.symm.trans hbuf'
  refine h.post_same hgrows hheap ?_ ?_
  · subst hv
    refine { hbase with
      links := fun key isPush d t ht => ?_
      cached := fun p msg' hmsg' => ?_ }
    · rw [hinfo] at ht
      rw [hcache, Function.update_apply]
      split_ifs at ht with hkey
      · cases ht
        obtain ⟨-, -, rfl⟩ := hkey
        exact ⟨if_pos rfl, ctx, hrecver ▸ hgrant.mono hk, haddr⟩
      · obtain ⟨hnone, hlink⟩ := hbase.links key isPush d t ht
        refine ⟨?_, hlink⟩
        split_ifs
        · rfl
        · exact hnone
    · rw [hcache, Function.update_apply] at hmsg'
      split_ifs at hmsg' with hp
      exact hbase.cached p msg' hmsg'
  · rcases hposts with rfl | ⟨hvalid, hposts⟩
    · intro wr hwr
      cases List.mem_singleton.mp hwr
      exact ⟨resp.originAddr, ctx, hgrant.mono hk, haddr.symm, (Memory.length_read ..).trans hlen,
        msg, hissued, hrecver, himage⟩
    · have himage : msg.toMeta.IsImage (v.mem.read buf.inlineBuf buf.inlineLen) := by
        rw [hmem]
        exact himage
      have hgrant : Granted cfg lots ((s.take node peer (.reply resp) wrs).post node v peer posts)
        node peer resp.originAddr
        (⟨resp.addr, resp.rkey, resp.idx, resp.originAddr⟩ : RemoteTuple).idx ctx := hgrant.mono hk
      exact requestOk_sendPushpull hpage hgrant haddr hlen hmrs hissued hrecver hvalid himage hposts

theorem Inv.write (h : Inv cfg heap Sent lots s) {a : ℕ} {bytes : List UInt8}
    (hnet : s.net (peer, node) = .write a bytes :: wrs)
    (hpoll : (s.van node).pollCQ (cfg node) peer (.write a bytes) = .ok (v, posts))
    (hheap : v.top ≤ heap node) :
    Inv cfg heap Sent lots ((s.take node peer (.write a bytes) wrs).post node v peer posts) := by
  have hreq := h.net peer node (.write a bytes) (hnet ▸ List.mem_cons_self)
  cases hpoll
  have hgrows : Grows (s.van node) { s.van node with mem := (s.van node).mem.write a bytes } :=
    ⟨Nat.le_refl _, fun _ _ => id, fun _ buf hp => ⟨buf, hp, rfl, rfl⟩⟩
  have hframe : ∃ touched : Lot → Prop, (∀ p, ¬touched (.inline p)) ∧
      (∀ w idx, ¬touched (.packed w idx)) ∧ ∀ x l, lots node x = some l → ¬touched l →
        (s.van node).mem.write a bytes x = (s.van node).mem x := by
    rcases hreq with ⟨p, idx, ctx, hgrant, hserver, rfl, hlen⟩ | hown
    · exact ⟨(· = .values peer idx), fun p hp => (by cases hp), fun w i hp => (by cases hp),
        fun x l hx hne => ((hgrant.values hserver).shorten hlen).write_frame _ hx hne⟩
    · exact ⟨fun _ => False, fun _ => id, fun _ _ => id,
        fun x l hx _ => Lots.write_free (h.own_eq_none hown) _ hx⟩
  obtain ⟨touched, hinline, hpacked, hframe⟩ := hframe
  refine (h.take hnet).post_same hgrows hheap ?_ fun wr hwr => absurd hwr List.not_mem_nil
  have hk := @keeps_post_same lots (s.take node peer (.write a bytes) wrs) node _ hgrows peer []
  exact (((h.take hnet).van node).withMem touched hframe (fun p _ _ => hinline p)
    fun x _ idx _ hx => absurd hx (hpacked x.1 idx)).mono hk

theorem Inv.writeWithImm (h : Inv cfg heap Sent lots s) {a imm : ℕ} {bytes : List UInt8}
    (hnet : s.net (peer, node) = .writeWithImm a bytes imm :: wrs)
    (hpoll : (s.van node).pollCQ (cfg node) peer (.writeWithImm a bytes imm) = .ok (v, posts))
    (hheap : v.top ≤ heap node) :
    Inv cfg heap Sent lots
      ((s.take node peer (.writeWithImm a bytes imm) wrs).post node v peer posts) := by
  obtain ⟨p, ctx, hgrant, rfl, hlen, hcarried⟩ :=
    h.net peer node (.writeWithImm a bytes imm) (hnet ▸ List.mem_cons_self)
  obtain ⟨ctx', hctx, hpoll⟩ := bind_eq_ok.mp hpoll
  have hctx : ctx' = ctx := by
    unfold AddressPool.getAddress at hctx
    rw [hgrant.table] at hctx
    cases hctx
    rfl
  subst hctx
  cases hpoll
  have hread : ((s.van node).mem.write ctx'.buffer bytes).read ctx'.buffer ctx'.metaLen =
      bytes := by
    rw [← hlen]
    exact Memory.read_write_self _ _ _
  have hframe : ∀ x l, lots node x = some l → ¬l = .packed peer imm →
      (s.van node).mem.write ctx'.buffer bytes x = (s.van node).mem x :=
    fun x l hx hne => (hgrant.packed.shorten hlen.le).write_frame _ hx hne
  have hmem := ((h.take hnet).van node).withMem (· = .packed peer imm) hframe
    (fun p _ _ hp => (by cases hp)) fun x p idx _ hx hgrant' => by
      cases hx
      cases hgrant.table.symm.trans hgrant'.table
      rwa [hread]
  have hgrows : Grows (s.van node) { s.van node with
      mem := (s.van node).mem.write ctx'.buffer bytes
      recvBuffers := (s.van node).recvBuffers ++ [(peer, ctx')] } :=
    ⟨Nat.le_refl _, fun _ _ => id, fun _ buf hp => ⟨buf, hp, rfl, rfl⟩⟩
  have hk := @keeps_post_same lots (s.take node peer (.writeWithImm ctx'.buffer bytes imm) wrs) node
    _ hgrows peer []
  have hbase := hmem.mono hk
  refine (h.take hnet).post_same hgrows hheap ⟨hbase.inline, hbase.links, hbase.cached,
    fun x hx => ?_, hbase.blocks, hbase.tensors, hbase.returned⟩
    fun wr hwr => absurd hwr List.not_mem_nil
  rcases List.mem_append.mp hx with hx | hx
  · exact hbase.received x hx
  · rw [List.mem_singleton.mp hx]
    refine ⟨p, imm, ?_, ?_⟩
    · exact Granted.mono (s := s.take node peer (.writeWithImm ctx'.buffer bytes imm) wrs)
        ⟨hgrant.table, hgrant.buf, hgrant.packed, hgrant.values⟩ hk
    · dsimp only
      rwa [hread]

/-! ## Receiving -/

theorem getPackMetaLen_restored {m : Meta} (h : m.control.cmd = .empty → m.control.node = []) :
    getPackMetaLen m.restored = getPackMetaLen m := by
  unfold getPackMetaLen Meta.restored
  dsimp only
  split_ifs with hcmd
  · rw [h hcmd]
  · rfl

theorem kind_of_restored {msg msg' : Message} {recver sender : ℤ}
    (h : msg.toMeta = { msg'.toMeta.restored with recver, sender }) :
    isValidPushpull msg = isValidPushpull msg' ∧ msg.push = msg'.push ∧
      msg.request = msg'.request := by
  have hcmd : msg.control.cmd = msg'.control.cmd := (congrArg (fun m : Meta => m.control.cmd) h :)
  have hsimple : msg.simpleApp = msg'.simpleApp := (congrArg Meta.simpleApp h :)
  refine ⟨?_, (congrArg Meta.push h :), (congrArg Meta.request h :)⟩
  rw [isValidPushpull, isValidPushpull, hcmd, hsimple]

theorem Inv.recvMsg (h : Inv cfg heap Sent lots s)
    (hrecv : (s.van node).recvMsg (cfg node) = .ok v) (hheap : v.top ≤ heap node) :
    Inv cfg heap Sent lots (s.post node v node []) := by
  obtain ⟨peer, ctx, rest, m, msg, mem, top, tensorInfoMap, hbuffers, hunpack, hmeta, hv, htop,
    hmem, hdata, hinfo⟩ := RDMAVan.recvMsg_cases hrecv
  have hgrows : Grows (s.van node) v := by
    rw [hv]
    exact ⟨htop, fun _ _ => id, fun _ buf hp => ⟨buf, hp, rfl, rfl⟩⟩
  have hk : Keeps lots lots s _ := keeps_post_same hgrows node []
  have hframe : ∀ x l, lots node x = some l → mem x = (s.van node).mem x :=
    fun x l hx => hmem x (h.below node x l hx).2.1
  have hbase := ((h.van node).withFreshMem hframe).mono hk
  obtain ⟨p, idx, hgrant, msg', hissued, hrecver, himage⟩ :=
    (h.van node).received (peer, ctx) (hbuffers ▸ List.mem_cons_self)
  cases hunpack.symm.trans (himage.unpackMeta hissued.packable rfl)
  have hsender : msg.sender = peer := (congrArg Meta.sender hmeta :)
  obtain ⟨hvalid, hpush, hrequest⟩ := kind_of_restored hmeta
  have hlen : getPackMetaLen msg.toMeta = ctx.metaLen := by
    rw [hmeta, ← Memory.length_read (s.van node).mem ctx.buffer ctx.metaLen, himage.length]
    exact getPackMetaLen_restored hissued.nodes
  refine h.post_same hgrows hheap ?_ fun wr hwr => absurd hwr List.not_mem_nil
  subst hv
  refine { hbase with received := fun x hx => ?_, tensors := ?_, returned := ?_ }
  · refine hbase.received x ?_
    show x ∈ (s.van node).recvBuffers
    rw [hbuffers]
    exact List.mem_cons_of_mem _ hx
  · intro key w info hw
    rcases hinfo key w info hw with hold | ⟨hv', hp, hr, -, rfl, rfl⟩
    · exact hbase.tensors key w info hold
    · rw [hvalid] at hv'
      rw [hpush] at hp
      rw [hrequest] at hr
      have hvalLen : msg.valLen = msg'.valLen := (congrArg Meta.valLen hmeta :)
      have haddr : msg.addr = msg'.addr := (congrArg Meta.addr hmeta :)
      have hoption : msg.option = msg'.option := (congrArg Meta.option hmeta :)
      rw [hvalLen, haddr, hoption]
      exact ⟨hissued.packable.valLen, hissued.packable.addr, hissued.packable.option,
        (hissued.push hv' hp hr).2⟩
  · intro r hr
    rcases List.mem_cons.mp hr with rfl | hr
    · refine ⟨⟨msg', hsender ▸ hissued, hrecver, hsender ▸ hmeta⟩, fun hv' hp hr => ?_⟩
      obtain ⟨keys, lens, harrays⟩ := hdata hv' hp hr
      refine ⟨p, idx, ctx, hsender ▸ hgrant.mono hk, ?_⟩
      rw [harrays, hlen]
      rfl
    · exact hbase.returned r hr

theorem Inv.setBytes (h : Inv cfg heap Sent lots s) {a : ℕ} {bytes : List UInt8}
    (hown : ∀ i < bytes.length, OwnMemory cfg heap node (a + i))
    (hheap : (s.van node).top ≤ heap node) :
    Inv cfg heap Sent lots
      (s.post node { s.van node with mem := (s.van node).mem.write a bytes } node []) := by
  have hgrows : Grows (s.van node) { s.van node with mem := (s.van node).mem.write a bytes } :=
    ⟨Nat.le_refl _, fun _ _ => id, fun _ buf hp => ⟨buf, hp, rfl, rfl⟩⟩
  have hk : Keeps lots lots s _ := keeps_post_same hgrows node []
  refine h.post_same hgrows hheap ?_ fun wr hwr => absurd hwr List.not_mem_nil
  exact ((h.van node).withFreshMem fun x l hx =>
    Lots.write_free (h.own_eq_none hown) _ hx).mono hk

/-! ## Runs -/

theorem inv_init (cfg : ℤ → Config) (heap : ℤ → ℕ) (Sent : ℤ → Message → Prop) :
    Inv cfg heap Sent (fun _ _ => none) (init cfg) where
  page _ := Nat.le_refl _
  below _ _ _ hx := nomatch hx
  van n := by
    refine ⟨fun p buf hp => ?_, fun key isPush d t ht => ?_, fun p msg hmsg => ?_, fun x hx => ?_,
      fun idx ctx hidx => ?_, fun key w info hinfo => ?_, fun msg hmsg => ?_⟩
    · cases hp
    · cases isPush <;> cases ht
    · cases hmsg
    · exact absurd hx List.not_mem_nil
    · cases hidx
    · cases hinfo
    · exact absurd hmsg List.not_mem_nil
  net _ _ _ hwr := absurd hwr List.not_mem_nil

theorem Inv.step (h : Inv cfg heap Sent lots s)
    (hpage : ∀ a b, (cfg a).pageSize = (cfg b).pageSize) (htracked : s.Tracked) {e : Event}
    (he : Disciplined cfg heap Sent s e) (hstep : s.step cfg e = .ok s') :
    ∃ lots', Inv cfg heap Sent lots' s' := by
  obtain ⟨hallowed, hheap⟩ := he
  replace hheap := hheap s' (by rw [hstep]; rfl)
  rcases e with ⟨node, msg⟩ | ⟨node, peer⟩ | node | ⟨node, a, bytes⟩
  · obtain ⟨⟨v, posts⟩, hsend, hstep⟩ := bind_eq_ok.mp hstep
    cases hstep
    dsimp only [Event.node] at hheap
    rw [post_van_self] at hheap
    exact h.sendMsg hpage hallowed.1 hallowed.2 hsend hheap
  · unfold Fabric.step at hstep
    dsimp only at hstep
    split at hstep
    · cases hstep
    next wr wrs hnet =>
    obtain ⟨⟨v, posts⟩, hpoll, hstep⟩ := bind_eq_ok.mp hstep
    cases hstep
    dsimp only [Event.node] at hheap
    rw [post_van_self] at hheap
    cases wr with
    | start req => exact h.start hnet hpoll hheap
    | reply resp => exact ⟨lots, h.reply hpage htracked hnet hpoll hheap⟩
    | write a bytes => exact ⟨lots, h.write hnet hpoll hheap⟩
    | writeWithImm a bytes imm => exact ⟨lots, h.writeWithImm hnet hpoll hheap⟩
  · obtain ⟨v, hrecv, hstep⟩ := bind_eq_ok.mp hstep
    cases hstep
    dsimp only [Event.node] at hheap
    rw [post_van_self] at hheap
    exact ⟨lots, h.recvMsg hrecv hheap⟩
  · cases hstep
    dsimp only [Event.node] at hheap
    rw [post_van_self] at hheap
    exact ⟨lots, h.setBytes hallowed hheap⟩

theorem inv_of_reachable (hpage : ∀ a b, (cfg a).pageSize = (cfg b).pageSize)
    (h : (machine cfg).Reachable (Disciplined cfg heap Sent) s) :
    ∃ lots, Inv cfg heap Sent lots s := by
  induction h with
  | init => exact ⟨_, inv_init cfg heap Sent⟩
  | step hreach he hstep ih =>
    obtain ⟨lots, hinv⟩ := ih
    exact hinv.step hpage (tracked_of_reachable (hreach.mono fun _ _ _ _ _ => trivial)) he hstep

/-! ## Results -/

section Results

variable (cfg heap Sent)

structure SetAside (lots : ℤ → ℕ → Option Lot) (s : Fabric) : Prop where
  own : ∀ n x, OwnMemory cfg heap n x → lots n x = none
  inline : ∀ n p buf, (s.van n).msgBufs[p]? = some buf →
    Holds (lots n) buf.inlineBuf buf.inlineLen (.inline p)
  blocks : ∀ n idx ctx, (s.van n).addrPool.table idx = some ctx → ∃ peer,
    Holds (lots n) ctx.buffer ctx.metaLen (.packed peer idx) ∧ ((cfg n).isServer = true →
      Holds (lots n) (ctx.buffer + alignCeil ctx.metaLen (cfg n).pageSize) ctx.dataLen.sum
        (.values peer idx))
  returned : ∀ n, ∀ msg ∈ (s.van n).returned, isValidPushpull msg = true → msg.push = true →
    msg.request = true → ∃ vals idx, msg.data[1]? = some vals ∧
      Holds (lots n) vals.data vals.size (.values msg.sender idx)

/-- Where a request that `w` has posted for `d` writes. -/
def StaysInside (lots : ℤ → ℕ → Option Lot) (w d : ℤ) : WorkRequest → Prop
  | .start _ => True
  | .reply _ => True
  | .write a bytes => (∃ idx, Holds (lots d) a bytes.length (.values w idx)) ∨
      ∀ i < bytes.length, OwnMemory cfg heap d (a + i)
  | .writeWithImm a bytes imm => Holds (lots d) a bytes.length (.packed w imm)

/-- What `UnpackMeta` can restore of a message that was sent from `w` to `d`. -/
def SentFrom (w d : ℤ) (m : Meta) : Prop :=
  ∃ msg₀ msg v, Sent w msg₀ ∧ RDMAVan.Labels (cfg w) v msg₀ msg ∧ msg.recver = d ∧
    m = msg.toMeta.restored

variable {cfg heap Sent}

theorem getD_le_sum (l : List ℕ) (i : ℕ) : l.getD i 0 ≤ l.sum := by
  rw [List.getD_eq_getElem?_getD]
  rcases hi : l[i]? with _ | x
  · exact Nat.zero_le _
  · exact List.le_sum_of_mem (List.mem_of_getElem? hi)

theorem Inv.setAside (h : Inv cfg heap Sent lots s) : SetAside cfg heap lots s where
  own n x hx := by
    have hown : ∀ i < 1, OwnMemory cfg heap n (x + i) := fun i hi => by
      obtain rfl : i = 0 := by omega
      exact hx
    exact h.own_eq_none hown 0 Nat.one_pos
  inline n := (h.van n).inline
  blocks n := (h.van n).blocks
  returned n msg hmsg hvalid hp hr := by
    obtain ⟨⟨msg', hissued, rfl, hmeta⟩, hdata⟩ := (h.van n).returned msg hmsg
    obtain ⟨p, idx, ctx, hgrant, hvals⟩ := hdata hvalid hp hr
    obtain ⟨hvalid', hpush, hrequest⟩ := kind_of_restored hmeta
    have hserver := (hissued.push (hvalid' ▸ hvalid) (hpush ▸ hp) (hrequest ▸ hr)).1
    refine ⟨_, idx, hvals, (hgrant.values hserver).shorten ?_⟩
    exact (Nat.mod_le _ _).trans (getD_le_sum _ _)

theorem RequestOk.staysInside {wr : WorkRequest} (h : RequestOk cfg heap Sent lots s w d wr) :
    StaysInside cfg heap lots w d wr := by
  cases wr with
  | start req => trivial
  | reply resp => trivial
  | write a bytes =>
    rcases h with ⟨p, idx, ctx, hgrant, hserver, rfl, hlen⟩ | hown
    · exact .inl ⟨idx, (hgrant.values hserver).shorten hlen⟩
    · exact .inr hown
  | writeWithImm a bytes imm =>
    obtain ⟨p, ctx, hgrant, rfl, hlen, -⟩ := h
    exact hgrant.packed.shorten hlen.le

def serverEight (node : ℤ) : Config :=
  if node = 8 then { RDMAVan.smallNode 8 [9] 4 with isServer := true }
  else RDMAVan.smallNode node [8] 4

theorem serverEight_pages (a b : ℤ) : (serverEight a).pageSize = (serverEight b).pageSize := by
  unfold serverEight
  split_ifs <;> rfl

def pushRequest : Message :=
  { recver := 8, appId := 0, customerId := 0, timestamp := 0, request := true, push := true
    data := [⟨16, 8⟩, ⟨24, 4⟩, ⟨28, 4⟩] }

def pullFive (timestamp : ℤ) : Message := { RDMAVan.pullRequest with timestamp }

end Results

end Ps.Rdma.Fabric
