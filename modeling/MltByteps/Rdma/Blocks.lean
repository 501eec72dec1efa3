import MltByteps.Lib.Lots
import MltByteps.Ps.MetaImage
import MltByteps.Rdma.VanSteps

/-! What the memory of the nodes is set aside for. The van of a node allocates from a heap; the
rest of the memory belongs to the application. A peer writes to a block that the node has set aside
for it, or to a tensor of the application that the node itself has announced. -/

namespace Ps.Rdma.Fabric

open Lots (Holds)

inductive Lot where
  -- The packed meta data of the message in a buffer of the node's own.
  | inline (p : ℕ)
  -- The packed meta data of the messages of a peer.
  | packed (peer : ℤ) (idx : ℕ)
  -- The values of the push requests of a peer.
  | values (peer : ℤ) (idx : ℕ)
deriving DecidableEq

/-! ## What the application does -/

section Discipline

variable (cfg : ℤ → Config) (heap : ℤ → ℕ)

/-- The heap of the van ends at `heap node`. -/
def OwnMemory (node : ℤ) (x : ℕ) : Prop := x < (cfg node).pageSize ∨ heap node ≤ x

/-- A message that can be packed without loss. Values are pushed to a server, and they are in the
memory of the application. -/
structure Sound (node : ℤ) (msg : Message) : Prop where
  packable : msg.toMeta.Packable
  nodes : msg.control.cmd = .empty → msg.control.node = []
  push : isValidPushpull msg = true → msg.push = true → msg.request = true →
    (cfg msg.recver).isServer = true ∧ ∀ vals ∈ msg.data[1]?, vals.data < 2 ^ 64 ∧
      ∀ i < vals.size, OwnMemory cfg heap node (vals.data + i)

def Event.node : Event → ℤ
  | .sendMsg node _ => node
  | .pollCQ node _ => node
  | .recvMsg node => node
  | .setBytes node _ _ => node

/-- The application sends sound messages and writes to its own memory. -/
def Event.Allowed (Sent : ℤ → Message → Prop) : Event → Prop
  | .sendMsg node msg => Sent node msg ∧ Sound cfg heap node msg
  | .setBytes node a bytes => ∀ i < bytes.length, OwnMemory cfg heap node (a + i)
  | .pollCQ _ _ => True
  | .recvMsg _ => True

/-- Besides, the heap is large enough. -/
def Disciplined (Sent : ℤ → Message → Prop) (s : Fabric) (e : Event) : Prop :=
  e.Allowed cfg heap Sent ∧
    ∀ s' ∈ (s.step cfg e).toOption, (s'.van e.node).top ≤ heap e.node

instance (node : ℤ) (x : ℕ) : Decidable (OwnMemory cfg heap node x) :=
  inferInstanceAs (Decidable (_ ∨ _))

instance (node : ℤ) (msg : Message) : Decidable (Sound cfg heap node msg) :=
  decidable_of_iff (msg.toMeta.Packable ∧ (msg.control.cmd = .empty → msg.control.node = []) ∧
    (isValidPushpull msg = true → msg.push = true → msg.request = true →
      (cfg msg.recver).isServer = true ∧ ∀ vals ∈ msg.data[1]?, vals.data < 2 ^ 64 ∧
        ∀ i < vals.size, OwnMemory cfg heap node (vals.data + i)))
    ⟨fun ⟨a, b, c⟩ => ⟨a, b, c⟩, fun ⟨a, b, c⟩ => ⟨a, b, c⟩⟩

instance (Sent : ℤ → Message → Prop) [∀ node msg, Decidable (Sent node msg)] :
    DecidablePred (Event.Allowed cfg heap Sent)
  | .sendMsg node msg => inferInstanceAs (Decidable (Sent node msg ∧ Sound cfg heap node msg))
  | .setBytes node a bytes =>
    inferInstanceAs (Decidable (∀ i < bytes.length, OwnMemory cfg heap node (a + i)))
  | .pollCQ _ _ => .isTrue trivial
  | .recvMsg _ => .isTrue trivial

instance (Sent : ℤ → Message → Prop) [∀ node msg, Decidable (Sent node msg)] (s : Fabric)
    (e : Event) : Decidable (Disciplined cfg heap Sent s e) :=
  inferInstanceAs (Decidable (_ ∧ _))

end Discipline

/-! ## Messages as the vans send them -/

section Issued

variable (cfg : ℤ → Config) (heap : ℤ → ℕ) (Sent : ℤ → Message → Prop)

structure Issued (node : ℤ) (msg : Message) : Prop where
  origin : ∃ msg₀ v, Sent node msg₀ ∧ RDMAVan.Labels (cfg node) v msg₀ msg
  packable : msg.toMeta.Packable
  nodes : msg.control.cmd = .empty → msg.control.node = []
  push : isValidPushpull msg = true → msg.push = true → msg.request = true →
    (cfg msg.recver).isServer = true ∧
      ∀ i < (msg.valLen % 2 ^ 32).toNat, OwnMemory cfg heap node (msg.addr + i)
  pull : isValidPushpull msg = true → msg.push = false → msg.request = false →
    ∀ i < (msg.valLen % 2 ^ 32).toNat, OwnMemory cfg heap msg.recver (msg.addr + i)

structure TensorOk (node : ℤ) (info : ℤ × ℕ × ℤ) : Prop where
  len : IsInt info.1
  addr : info.2.1 < 2 ^ 64
  rkey : IsInt info.2.2
  own : ∀ i < (info.1 % 2 ^ 32).toNat, OwnMemory cfg heap node (info.2.1 + i)

variable {cfg heap Sent}

theorem isInt_bmod (n : ℕ) : IsInt (Int.bmod n (2 ^ 32)) := by
  have hpos : (0 : ℤ) < (2 ^ 32 : ℕ) := by decide
  have hle := @Int.le_bmod n (2 ^ 32) (by decide)
  have hlt := @Int.bmod_lt n (2 ^ 32) (by decide)
  constructor <;> omega

theorem bmod_emod_le (n : ℕ) : (Int.bmod n (2 ^ 32) % 2 ^ 32).toNat ≤ n := by
  have hmod : Int.bmod n (2 ^ 32) % (2 ^ 32 : ℕ) = n % (2 ^ 32 : ℕ) := Int.bmod_emod
  omega

theorem Sound.issued {node : ℤ} {msg msg' : Message} {v : RDMAVan} (h : Sound cfg heap node msg)
    (hsent : Sent node msg) (hlabels : v.Labels (cfg node) msg msg')
    (htensors : ∀ key d info, v.tensorInfoMap key d = some info → TensorOk cfg heap d info) :
    Issued cfg heap Sent node msg' := by
  have horigin : ∃ msg₀ v, Sent node msg₀ ∧ RDMAVan.Labels (cfg node) v msg₀ msg' :=
    ⟨msg, v, hsent, hlabels⟩
  obtain ⟨key, addr, valLen, option, rfl⟩ : ∃ key addr valLen option,
      msg' = { msg with key, addr, valLen, option } := ⟨_, _, _, _, hlabels.rest⟩
  have hkey : key < 2 ^ 64 := hlabels.key.elim (fun h' => h'.trans_lt h.packable.key) id
  have htypes : addr < 2 ^ 64 ∧ IsInt valLen ∧ IsInt option := by
    by_cases hvalid : isValidPushpull msg = true
    · rcases hp : msg.push <;> rcases hr : msg.request
      · obtain ⟨hlen, haddr, hrkey, -⟩ := htensors _ _ _ (hlabels.pull hvalid hp hr)
        exact ⟨haddr, hlen, hrkey⟩
      · obtain ⟨rfl, rfl, rfl⟩ := hlabels.other (by rw [hp, hr]; decide)
        exact ⟨h.packable.addr, h.packable.valLen, h.packable.option⟩
      · obtain ⟨rfl, rfl, rfl⟩ := hlabels.other (by rw [hp, hr]; decide)
        exact ⟨h.packable.addr, h.packable.valLen, h.packable.option⟩
      · obtain ⟨vals, hvals, haddr, hlen, hoption⟩ := hlabels.push hvalid hp hr
        dsimp only at haddr hlen hoption
        rw [haddr, hlen, hoption]
        exact ⟨((h.push hvalid hp hr).2 vals hvals).1, isInt_bmod _, isInt_bmod _⟩
    · have hsame := congrArg Message.toMeta (hlabels.control (Bool.eq_false_iff.mpr hvalid))
      obtain rfl : addr = msg.addr := congrArg Meta.addr hsame
      obtain rfl : valLen = msg.valLen := congrArg Meta.valLen hsame
      obtain rfl : option = msg.option := congrArg Meta.option hsame
      exact ⟨h.packable.addr, h.packable.valLen, h.packable.option⟩
  refine ⟨horigin, ?_, h.nodes, fun hvalid hp hr => ?_, fun hvalid hp hr => ?_⟩
  · exact { h.packable with
      key := hkey, addr := htypes.1, valLen := htypes.2.1, option := htypes.2.2 }
  · obtain ⟨hserver, hown⟩ := h.push hvalid hp hr
    obtain ⟨vals, hvals, haddr, hlen, -⟩ := hlabels.push hvalid hp hr
    rw [haddr, hlen]
    exact ⟨hserver, fun i hi => (hown vals hvals).2 i (hi.trans_le (bmod_emod_le _))⟩
  · exact (htensors _ _ _ (hlabels.pull hvalid hp hr)).own

end Issued

/-! ## The invariant -/

section Inv

variable (cfg : ℤ → Config) (heap : ℤ → ℕ) (Sent : ℤ → Message → Prop)

/-- The bytes are the packed meta data of a message from `w` to `d`. -/
def Carried (w d : ℤ) (bytes : List UInt8) : Prop :=
  ∃ msg, Issued cfg heap Sent w msg ∧ msg.recver = d ∧ msg.toMeta.IsImage bytes

/-- An entry of the pool of `d` is the block for the messages from a buffer of `w`. -/
structure Granted (lots : ℤ → ℕ → Option Lot) (s : Fabric) (w d : ℤ) (p idx : ℕ)
    (ctx : BufferContext) : Prop where
  table : (s.van d).addrPool.table idx = some ctx
  buf : ∃ buf, (s.van w).msgBufs[p]? = some buf ∧ buf.inlineLen = ctx.metaLen ∧
    ∀ mr ∈ buf.mrs, mr.size ≤ ctx.dataLen.sum
  packed : Holds (lots d) ctx.buffer ctx.metaLen (.packed w idx)
  values : (cfg d).isServer = true →
    Holds (lots d) (ctx.buffer + alignCeil ctx.metaLen (cfg d).pageSize) ctx.dataLen.sum
      (.values w idx)

/-- What a work request that `w` has posted for `d` refers to. -/
def RequestOk (lots : ℤ → ℕ → Option Lot) (s : Fabric) (w d : ℤ) : WorkRequest → Prop
  | .start req => ∃ buf, (s.van w).msgBufs[req.originAddr]? = some buf ∧
      buf.inlineLen = req.metaLen ∧ ∀ mr ∈ buf.mrs, mr.size ≤ req.dataLen.sum
  | .reply resp => ∃ ctx, Granted cfg lots s d w resp.originAddr resp.idx ctx ∧
      ctx.buffer = resp.addr
  | .write a bytes => (∃ p idx ctx, Granted cfg lots s w d p idx ctx ∧
        (cfg d).isServer = true ∧ a = ctx.buffer + alignCeil ctx.metaLen (cfg d).pageSize ∧
        bytes.length ≤ ctx.dataLen.sum) ∨
      ∀ i < bytes.length, OwnMemory cfg heap d (a + i)
  | .writeWithImm a bytes imm => ∃ p ctx, Granted cfg lots s w d p imm ctx ∧ a = ctx.buffer ∧
      bytes.length = ctx.metaLen ∧ Carried cfg heap Sent w d bytes

structure VanOk (lots : ℤ → ℕ → Option Lot) (s : Fabric) (n : ℤ) (v : RDMAVan) : Prop where
  inline : ∀ p buf, v.msgBufs[p]? = some buf →
    Holds (lots n) buf.inlineBuf buf.inlineLen (.inline p)
  links : ∀ key isPush d t, v.remoteInfo key isPush d = some t → v.msgbufCache t.msgBuf = none ∧
    ∃ ctx, Granted cfg lots s n d t.msgBuf t.idx ctx ∧ ctx.buffer = t.remoteAddr
  cached : ∀ p msg, v.msgbufCache p = some msg → Issued cfg heap Sent n msg ∧
    ∃ buf, v.msgBufs[p]? = some buf ∧ msg.toMeta.IsImage (v.mem.read buf.inlineBuf buf.inlineLen)
  received : ∀ x ∈ v.recvBuffers, ∃ p idx, Granted cfg lots s x.1 n p idx x.2 ∧
    Carried cfg heap Sent x.1 n (v.mem.read x.2.buffer x.2.metaLen)
  blocks : ∀ idx ctx, v.addrPool.table idx = some ctx → ∃ peer,
    Holds (lots n) ctx.buffer ctx.metaLen (.packed peer idx) ∧ ((cfg n).isServer = true →
      Holds (lots n) (ctx.buffer + alignCeil ctx.metaLen (cfg n).pageSize) ctx.dataLen.sum
        (.values peer idx))
  tensors : ∀ key w info, v.tensorInfoMap key w = some info → TensorOk cfg heap w info
  returned : ∀ msg ∈ v.returned, (∃ msg', Issued cfg heap Sent msg.sender msg' ∧ msg'.recver = n ∧
      msg.toMeta = { msg'.toMeta.restored with recver := (cfg n).myId, sender := msg.sender }) ∧
    (isValidPushpull msg = true → msg.push = true → msg.request = true → ∃ p idx ctx,
      Granted cfg lots s msg.sender n p idx ctx ∧ msg.data[1]? =
        some ⟨ctx.buffer + alignCeil ctx.metaLen (cfg n).pageSize, ctx.dataLen.getD 1 0 % 2 ^ 32⟩)

structure Inv (lots : ℤ → ℕ → Option Lot) (s : Fabric) : Prop where
  page : ∀ n, (cfg n).pageSize ≤ (s.van n).top
  below : ∀ n x l, lots n x = some l →
    (cfg n).pageSize ≤ x ∧ x < (s.van n).top ∧ x < heap n
  van : ∀ n, VanOk cfg heap Sent lots s n (s.van n)
  net : ∀ w d, ∀ wr ∈ s.net (w, d), RequestOk cfg heap Sent lots s w d wr

end Inv

/-! ## What stays -/

/-- Blocks stay where they are, and so do the buffers that messages are sent from. -/
structure Grows (v v' : RDMAVan) : Prop where
  top : v.top ≤ v'.top
  table : ∀ idx ctx, v.addrPool.table idx = some ctx → v'.addrPool.table idx = some ctx
  bufs : ∀ (p : ℕ) (buf : MessageBuffer), v.msgBufs[p]? = some buf →
    ∃ buf' : MessageBuffer, v'.msgBufs[p]? = some buf' ∧ buf'.inlineLen = buf.inlineLen ∧
      buf'.mrs = buf.mrs

structure Keeps (lots lots' : ℤ → ℕ → Option Lot) (s s' : Fabric) : Prop where
  lots : ∀ n x l, lots n x = some l → lots' n x = some l
  van : ∀ n, Grows (s.van n) (s'.van n)

section Mono

variable {cfg : ℤ → Config} {heap : ℤ → ℕ} {Sent : ℤ → Message → Prop}
  {lots lots' : ℤ → ℕ → Option Lot} {s s' : Fabric} {w d n node : ℤ} {v v' : RDMAVan}

theorem Grows.refl (v : RDMAVan) : Grows v v :=
  ⟨Nat.le_refl _, fun _ _ => id, fun _ buf h => ⟨buf, h, rfl, rfl⟩⟩

theorem Granted.mono {p idx : ℕ} {ctx : BufferContext} (h : Granted cfg lots s w d p idx ctx)
    (hk : Keeps lots lots' s s') : Granted cfg lots' s' w d p idx ctx := by
  obtain ⟨buf, hbuf, hlen, hmrs⟩ := h.buf
  obtain ⟨buf', hbuf', hlen', hmrs'⟩ := (hk.van w).bufs p buf hbuf
  exact ⟨(hk.van d).table _ _ h.table, ⟨buf', hbuf', hlen'.trans hlen, hmrs' ▸ hmrs⟩,
    h.packed.mono (hk.lots d), fun hserver => (h.values hserver).mono (hk.lots d)⟩

theorem RequestOk.mono {wr : WorkRequest} (h : RequestOk cfg heap Sent lots s w d wr)
    (hk : Keeps lots lots' s s') : RequestOk cfg heap Sent lots' s' w d wr := by
  cases wr with
  | start req =>
    obtain ⟨buf, hbuf, hlen, hmrs⟩ := h
    obtain ⟨buf', hbuf', hlen', hmrs'⟩ := (hk.van w).bufs _ buf hbuf
    exact ⟨buf', hbuf', hlen'.trans hlen, hmrs' ▸ hmrs⟩
  | reply resp =>
    obtain ⟨ctx, hgrant, haddr⟩ := h
    exact ⟨ctx, hgrant.mono hk, haddr⟩
  | write a bytes =>
    rcases h with ⟨p, idx, ctx, hgrant, hrest⟩ | hown
    · exact .inl ⟨p, idx, ctx, hgrant.mono hk, hrest⟩
    · exact .inr hown
  | writeWithImm a bytes imm =>
    obtain ⟨p, ctx, hgrant, hrest⟩ := h
    exact ⟨p, ctx, hgrant.mono hk, hrest⟩

theorem VanOk.mono (h : VanOk cfg heap Sent lots s n v) (hk : Keeps lots lots' s s') :
    VanOk cfg heap Sent lots' s' n v where
  inline p buf hbuf := (h.inline p buf hbuf).mono (hk.lots n)
  links key isPush d t ht := by
    obtain ⟨hnone, ctx, hgrant, haddr⟩ := h.links key isPush d t ht
    exact ⟨hnone, ctx, hgrant.mono hk, haddr⟩
  cached := h.cached
  received x hx := by
    obtain ⟨p, idx, hgrant, hcarried⟩ := h.received x hx
    exact ⟨p, idx, hgrant.mono hk, hcarried⟩
  blocks idx ctx hctx := by
    obtain ⟨peer, hpacked, hvalues⟩ := h.blocks idx ctx hctx
    exact ⟨peer, hpacked.mono (hk.lots n), fun hserver => (hvalues hserver).mono (hk.lots n)⟩
  tensors := h.tensors
  returned msg hmsg := by
    obtain ⟨hissued, hdata⟩ := h.returned msg hmsg
    refine ⟨hissued, fun hvalid hp hr => ?_⟩
    obtain ⟨p, idx, ctx, hgrant, hvals⟩ := hdata hvalid hp hr
    exact ⟨p, idx, ctx, hgrant.mono hk, hvals⟩

theorem VanOk.withMem (h : VanOk cfg heap Sent lots s n v) {mem : Memory} (touched : Lot → Prop)
    (hframe : ∀ x l, lots n x = some l → ¬touched l → mem x = v.mem x)
    (hcached : ∀ p msg, v.msgbufCache p = some msg → ¬touched (.inline p))
    (hreceived : ∀ x p idx, x ∈ v.recvBuffers → touched (.packed x.1 idx) →
      Granted cfg lots s x.1 n p idx x.2 →
      Carried cfg heap Sent x.1 n (mem.read x.2.buffer x.2.metaLen)) :
    VanOk cfg heap Sent lots s n { v with mem } :=
  { h with
    cached := fun p msg hmsg => by
      obtain ⟨hissued, buf, hbuf, himage⟩ := h.cached p msg hmsg
      refine ⟨hissued, buf, hbuf, ?_⟩
      rwa [(h.inline p buf hbuf).read_eq hframe (hcached p msg hmsg)]
    received := fun x hx => by
      obtain ⟨p, idx, hgrant, hcarried⟩ := h.received x hx
      refine ⟨p, idx, hgrant, ?_⟩
      by_cases htouched : touched (.packed x.1 idx)
      · exact hreceived x p idx hx htouched hgrant
      · rwa [hgrant.packed.read_eq hframe htouched] }

theorem VanOk.withFreshMem (h : VanOk cfg heap Sent lots s n v) {mem : Memory}
    (hframe : ∀ x l, lots n x = some l → mem x = v.mem x) :
    VanOk cfg heap Sent lots s n { v with mem } :=
  h.withMem (fun _ => False) (fun x l hx _ => hframe x l hx) (fun _ _ _ => id)
    fun _ _ _ _ => False.elim

theorem VanOk.addBuf (h : VanOk cfg heap Sent lots s n v)
    (hbufs : (s.van n).msgBufs = v.msgBufs) (buf : MessageBuffer) {msg : Message}
    (hblock : Holds (lots n) buf.inlineBuf buf.inlineLen (.inline v.msgBufs.length))
    (hissued : Issued cfg heap Sent n msg)
    (himage : msg.toMeta.IsImage (v.mem.read buf.inlineBuf buf.inlineLen)) :
    VanOk cfg heap Sent lots s n { v with
      msgBufs := v.msgBufs ++ [buf]
      msgbufCache := Function.update v.msgbufCache v.msgBufs.length (some msg) } := by
  have hold : ∀ {p : ℕ} {buf : MessageBuffer}, v.msgBufs[p]? = some buf → p < v.msgBufs.length :=
    fun hp => (List.getElem?_eq_some_iff.mp hp).1
  refine { h with
    inline := fun p buf' hp => ?_
    links := fun key isPush d t ht => ?_
    cached := fun p msg' hmsg' => ?_ }
  · dsimp only at hp
    rw [List.getElem?_append] at hp
    split_ifs at hp with hlt
    · exact h.inline p buf' hp
    · obtain ⟨heq, rfl⟩ := List.getElem?_eq_some_iff.mp hp
      rw [List.length_singleton] at heq
      obtain rfl : p = v.msgBufs.length := by omega
      simpa using hblock
  · obtain ⟨hnone, ctx, hgrant, haddr⟩ := h.links key isPush d t ht
    obtain ⟨buf', hbuf', -⟩ := hgrant.buf
    refine ⟨?_, ctx, hgrant, haddr⟩
    dsimp only
    rw [Function.update_of_ne (hold (hbufs ▸ hbuf')).ne]
    exact hnone
  · dsimp only at hmsg' ⊢
    rw [Function.update_apply] at hmsg'
    split_ifs at hmsg' with hp
    · cases hmsg'
      subst hp
      exact ⟨hissued, buf, List.getElem?_concat_length, himage⟩
    · obtain ⟨hissued', buf', hbuf', himage'⟩ := h.cached p msg' hmsg'
      refine ⟨hissued', buf', ?_, himage'⟩
      rw [List.getElem?_append_left (hold hbuf')]
      exact hbuf'

theorem VanOk.addBlock (h : VanOk cfg heap Sent lots s n v) {addrPool : AddressPool BufferContext}
    {idx : ℕ} (ctx : BufferContext) {peer : ℤ}
    (htable : addrPool.table = Function.update v.addrPool.table idx (some ctx))
    (hpacked : Holds (lots n) ctx.buffer ctx.metaLen (.packed peer idx))
    (hvalues : (cfg n).isServer = true →
      Holds (lots n) (ctx.buffer + alignCeil ctx.metaLen (cfg n).pageSize) ctx.dataLen.sum
        (.values peer idx)) : VanOk cfg heap Sent lots s n { v with addrPool } := by
  refine { h with blocks := fun i ctx' hi => ?_ }
  dsimp only at hi
  rw [htable, Function.update_apply] at hi
  split_ifs at hi with hidx
  · cases hi
    exact ⟨peer, hidx ▸ hpacked, hidx ▸ hvalues⟩
  · exact h.blocks i ctx' hi

theorem mem_post {dest : ℤ} {posts : List WorkRequest} {wr : WorkRequest}
    (h : wr ∈ (s.post node v dest posts).net (w, d)) :
    wr ∈ s.net (w, d) ∨ w = node ∧ d = dest ∧ wr ∈ posts := by
  rw [net_post] at h
  split_ifs at h with hc
  · obtain ⟨rfl, rfl⟩ := Prod.mk.inj hc
    exact (List.mem_append.mp h).imp_right fun h => ⟨rfl, rfl, h⟩
  · exact .inl h

theorem keeps_lots {lot : ℕ → Option Lot} (hlot : ∀ x l, lots node x = some l → lot x = some l) :
    Keeps lots (Function.update lots node lot) s s where
  lots n x l h := by
    by_cases hn : n = node
    · subst hn
      rw [Function.update_self]
      exact hlot x l h
    · rwa [Function.update_of_ne hn]
  van _ := .refl _

theorem keeps_post {lot : ℕ → Option Lot} (hv : Grows (s.van node) v)
    (hlot : ∀ x l, lots node x = some l → lot x = some l) (dest : ℤ) (posts : List WorkRequest) :
    Keeps lots (Function.update lots node lot) s (s.post node v dest posts) where
  lots := (keeps_lots (s := s) hlot).lots
  van n := by
    by_cases hn : n = node
    · subst hn
      rwa [post_van_self]
    · rw [post_van_of_ne hn]
      exact .refl _

theorem keeps_post_same (hv : Grows (s.van node) v) (dest : ℤ) (posts : List WorkRequest) :
    Keeps lots lots s (s.post node v dest posts) := by
  have hk := keeps_post hv (fun x l (h : lots node x = some l) => h) dest posts
  rwa [Function.update_eq_self] at hk

theorem Inv.post (h : Inv cfg heap Sent lots s) {lot : ℕ → Option Lot} {dest : ℤ}
    {posts : List WorkRequest} (hv : Grows (s.van node) v)
    (hlot : ∀ x l, lots node x = some l → lot x = some l)
    (hnew : ∀ x l, lot x = some l → lots node x = some l ∨ (s.van node).top ≤ x ∧ x < v.top)
    (hheap : v.top ≤ heap node)
    (hok : VanOk cfg heap Sent (Function.update lots node lot) (s.post node v dest posts) node v)
    (hposts : ∀ wr ∈ posts, RequestOk cfg heap Sent (Function.update lots node lot)
      (s.post node v dest posts) node dest wr) :
    Inv cfg heap Sent (Function.update lots node lot) (s.post node v dest posts) := by
  have hk := keeps_post hv hlot dest posts
  refine ⟨fun n => (h.page n).trans (hk.van n).top, fun n x l hx => ?_, fun n => ?_,
    fun w d wr hwr => ?_⟩
  · have hold : lots n x = some l → (cfg n).pageSize ≤ x ∧
        x < ((s.post node v dest posts).van n).top ∧ x < heap n := fun hx => by
      obtain ⟨hpage, htop, hlt⟩ := h.below n x l hx
      exact ⟨hpage, htop.trans_le (hk.van n).top, hlt⟩
    by_cases hn : n = node
    · subst hn
      rw [Function.update_self] at hx
      rcases hnew x l hx with hx | ⟨hlo, hhi⟩
      · exact hold hx
      · rw [post_van_self]
        exact ⟨(h.page n).trans hlo, hhi, hhi.trans_le hheap⟩
    · rw [Function.update_of_ne hn] at hx
      exact hold hx
  · by_cases hn : n = node
    · subst hn
      rwa [post_van_self]
    · rw [post_van_of_ne hn]
      exact (h.van n).mono hk
  · rcases mem_post hwr with hold | ⟨rfl, rfl, hnew⟩
    · exact (h.net w d wr hold).mono hk
    · exact hposts wr hnew

theorem Inv.post_same (h : Inv cfg heap Sent lots s) {dest : ℤ} {posts : List WorkRequest}
    (hv : Grows (s.van node) v) (hheap : v.top ≤ heap node)
    (hok : VanOk cfg heap Sent lots (s.post node v dest posts) node v)
    (hposts : ∀ wr ∈ posts, RequestOk cfg heap Sent lots (s.post node v dest posts) node dest wr) :
    Inv cfg heap Sent lots (s.post node v dest posts) := by
  have hpost := @Inv.post cfg heap Sent lots s node v h (lots node) dest posts hv
    (fun _ _ => id) (fun _ _ => .inl) hheap
  rw [Function.update_eq_self] at hpost
  exact hpost hok hposts

theorem Inv.take (h : Inv cfg heap Sent lots s) {peer : ℤ} {wr : WorkRequest}
    {wrs : List WorkRequest} (hnet : s.net (peer, node) = wr :: wrs) :
    Inv cfg heap Sent lots (s.take node peer wr wrs) := by
  refine ⟨h.page, h.below, fun n => ?_, fun w d wr' hwr' => ?_⟩
  · exact (h.van n).mono ⟨fun _ _ _ => id, fun _ => .refl _⟩
  · exact (h.net w d wr' (mem_net_take hnet hwr')).mono ⟨fun _ _ _ => id, fun _ => .refl _⟩

end Mono

end Ps.Rdma.Fabric
