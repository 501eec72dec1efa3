import MltByteps.Lib.Machine
import MltByteps.Ps.MetaCodec
import MltByteps.Rdma.AddressPool

/-! The RDMA van: sending by rendezvous or to a known address, the completion queue, receiving.
The message buffers are never deleted, so a pointer to one is its number; `stored` and `returned`
are not members of the van but record what it did. -/

namespace Ps.Rdma

open LittleEndian

/-- `SArray<char>`: where the bytes are and how many. -/
structure SArray where
  data : ℕ
  size : ℕ
deriving DecidableEq, Repr

structure Message extends Meta where
  data : List SArray := []
deriving DecidableEq, Repr

def isValidPushpull (msg : Message) : Bool := msg.control.cmd = .empty && !msg.simpleApp

/-- `msg.data[i]` -/
def arrayAt (data : List SArray) (i : ℕ) : Except RdmaFault SArray :=
  data[i]?.elim (.error .dataIndex) .ok

/-- `data_num` is the length of `dataLen`. -/
structure RendezvousStart where
  metaLen : ℕ
  dataLen : List ℕ
  originAddr : ℕ
deriving DecidableEq, Repr

structure RendezvousReply where
  addr : ℕ
  originAddr : ℕ
  rkey : ℕ
  idx : ℕ
deriving DecidableEq, Repr

structure BufferContext where
  buffer : ℕ
  metaLen : ℕ
  dataLen : List ℕ
deriving DecidableEq, Repr

/-- `mrs` holds the address and the size of each registered region. -/
structure MessageBuffer where
  inlineLen : ℕ
  inlineBuf : ℕ
  data : List SArray
  mrs : List SArray
deriving DecidableEq, Repr

structure RemoteTuple where
  remoteAddr : ℕ
  rkey : ℕ
  idx : ℕ
  msgBuf : ℕ
deriving DecidableEq, Repr

inductive WorkRequest where
  -- `IBV_WR_SEND_WITH_IMM` with `kRendezvousStart`.
  | start (req : RendezvousStart)
  -- `IBV_WR_SEND_WITH_IMM` with `kRendezvousReply`.
  | reply (resp : RendezvousReply)
  -- `IBV_WR_RDMA_WRITE`, which the peer is not told of.
  | write (remoteAddr : ℕ) (bytes : List UInt8)
  -- `IBV_WR_RDMA_WRITE_WITH_IMM`
  | writeWithImm (remoteAddr : ℕ) (bytes : List UInt8) (imm : ℕ)
deriving DecidableEq, Repr

/-- What does not change after the start: the endpoints are connected, `keyOf` gives the key of
the memory region that starts at an address. -/
structure Config where
  myId : ℤ
  isServer : Bool
  endpoints : List ℤ
  kMaxEntries : ℕ
  pageSize : ℕ
  pageSize_pos : 0 < pageSize
  keyOf : ℕ → ℕ

structure RDMAVan where
  addrPool : AddressPool BufferContext
  recvBuffers : List (ℤ × BufferContext)
  pushAddr : ℕ → ℤ → Option RemoteTuple
  pullAddr : ℕ → ℤ → Option RemoteTuple
  msgbufCache : ℕ → Option Message
  msgBufs : List MessageBuffer
  memMr : List ℕ
  tensorInfoMap : ℕ → ℤ → Option (ℤ × ℕ × ℤ)
  mem : Memory
  -- Memory from here on has not been allocated.
  top : ℕ
  -- The tuples that were stored, with the messages they were stored for.
  stored : List (RemoteTuple × Message)
  -- The messages that `RecvMsg` returned, the last one first.
  returned : List Message

def alignFloor (v align : ℕ) : ℕ := v - v % align

def alignCeil (v align : ℕ) : ℕ := alignFloor (v + align - 1) align

/-- `DecodeKey` of the bytes of the keys, with the key and the coefficient so far. -/
def decodeKey (keys : List UInt8) : ℕ :=
  (keys.foldl (fun s b => ((s.1 + s.2 * b.toNat) % 2 ^ 64, s.2 * 256 % 2 ^ 64)) (0, 1)).1

/-- The loop of `RegisterMemory` over the arrays of a message: only the second one that is not
empty is registered. -/
def registerMemory : List SArray → ℕ → List ℕ → List ℕ
  | [], _, memMr => memMr
  | sa :: data, saCnt, memMr =>
    if sa.size = 0 then registerMemory data saCnt memMr
    else registerMemory data (saCnt + 1)
      (if sa.data ∉ memMr ∧ saCnt = 1 then sa.data :: memMr else memMr)

namespace RDMAVan

def init (cfg : Config) : RDMAVan where
  addrPool := .new cfg.kMaxEntries
  recvBuffers := []
  pushAddr := fun _ _ => none
  pullAddr := fun _ _ => none
  msgbufCache := fun _ => none
  msgBufs := []
  memMr := []
  tensorInfoMap := fun _ _ => none
  mem := fun _ => 0
  top := cfg.pageSize
  stored := []
  returned := []

variable (cfg : Config) (v : RDMAVan)

/-! ## Memory -/

/-- `MemoryAllocator::Alloc` of a size other than 0: whole pages, cleared. -/
def alloc (size : ℕ) : ℕ × RDMAVan :=
  let stop := v.top + alignCeil size cfg.pageSize
  (v.top, { v with
    mem := fun x => if v.top ≤ x ∧ x < stop then 0 else v.mem x
    top := stop })

def createFunctionalSarray (bytes : List UInt8) : SArray × RDMAVan :=
  (⟨v.top, bytes.length⟩, { v with
    mem := v.mem.write v.top bytes
    top := v.top + bytes.length })

def msgBufAt (p : ℕ) : Except RdmaFault MessageBuffer := v.msgBufs[p]?.elim (.error .msgBuf) .ok

def prepareNewMsgBuf (msg : Message) : ℕ × RDMAVan :=
  let metaLen := getPackMetaLen msg.toMeta
  let (inlineBuf, v') := v.alloc cfg metaLen
  (v'.msgBufs.length, { v' with
    msgBufs := v'.msgBufs ++ [⟨metaLen, inlineBuf, msg.data, []⟩]
    mem := packMeta msg.toMeta v'.mem inlineBuf })

/-- Only push requests bring data of their own. -/
def prepareData (msg : Message) (p : ℕ) : Except RdmaFault RDMAVan := do
  if !(msg.push && msg.request) then return v
  let buf ← v.msgBufAt p
  let sa ← arrayAt buf.data 1
  if sa.size = 0 then return v
  require .memMr (sa.data ∈ v.memMr)
  return { v with msgBufs := v.msgBufs.set p { buf with mrs := buf.mrs ++ [sa] } }

/-! ## Addresses of the peers -/

/-- The entry of `push_addr_` or `pull_addr_`. -/
def remoteInfo (key : ℕ) (isPush : Bool) (recver : ℤ) : Option RemoteTuple :=
  if isPush then v.pushAddr key recver else v.pullAddr key recver

def hasRemoteInfo (key : ℕ) (isPush : Bool) (recver : ℤ) : Bool :=
  (v.remoteInfo key isPush recver).isSome

def getRemoteAndLocalInfo (key : ℕ) (isPush : Bool) (recver : ℤ) : Except RdmaFault RemoteTuple :=
  (v.remoteInfo key isPush recver).elim (.error .msgBuf) .ok

def storeMsgBuf (p : ℕ) (msg : Message) : Except RdmaFault RDMAVan := do
  require .msgbufCache ((v.msgbufCache p).isNone = true)
  return { v with msgbufCache := Function.update v.msgbufCache p (some msg) }

def getFirstMsg (p : ℕ) : Except RdmaFault Message :=
  (v.msgbufCache p).elim (.error .msgbufCache) .ok

def releaseFirstMsg (p : ℕ) : Except RdmaFault RDMAVan := do
  require .msgbufCache ((v.msgbufCache p).isSome = true)
  return { v with msgbufCache := Function.update v.msgbufCache p none }

def storeRemoteAndLocalInfo (p remoteAddr rkey idx : ℕ) : Except RdmaFault RDMAVan := do
  let msg ← v.getFirstMsg p
  let t : RemoteTuple := ⟨remoteAddr, rkey, idx, p⟩
  let set (addr : ℕ → ℤ → Option RemoteTuple) :=
    Function.update addr msg.key (Function.update (addr msg.key) msg.recver (some t))
  return { v with
    pushAddr := if msg.push then set v.pushAddr else v.pushAddr
    pullAddr := if msg.push then v.pullAddr else set v.pullAddr
    stored := (t, msg) :: v.stored }

/-! ## The members of a message -/

def addMeta (msg : Message) : Except RdmaFault Message := do
  let msg ← (if msg.request then (arrayAt msg.data 0).map fun keys =>
      { msg with key := decodeKey (v.mem.read keys.data keys.size) }
    else .ok msg)
  if msg.push && msg.request then do
    require .dataSize (msg.data.length = 3)
    let vals ← arrayAt msg.data 1
    require .memMr (vals.data ∈ v.memMr)
    return { msg with
      addr := vals.data
      valLen := Int.bmod vals.size (2 ^ 32)
      option := Int.bmod (cfg.keyOf vals.data) (2 ^ 32) }
  else return msg

/-- The worker told where its tensor is when it pushed. -/
def packWorkerTensorAddress (msg : Message) : Except RdmaFault Message :=
  if msg.push || msg.request then .ok msg
  else match v.tensorInfoMap msg.key msg.recver with
    | none => .error .tensorInfo
    | some (len, addr, rkey) => .ok { msg with valLen := len, addr := addr, option := rkey }

def storeWorkerTensorAddress (msg : Message) : Except RdmaFault RDMAVan :=
  let info := (msg.valLen, msg.addr, msg.option)
  match v.tensorInfoMap msg.key msg.sender with
  | none => .ok { v with
      tensorInfoMap := Function.update v.tensorInfoMap msg.key
        (Function.update (v.tensorInfoMap msg.key) msg.sender (some info)) }
  | some old => do
    require .tensorInfo (info = old)
    return v

/-! ## The transport -/

def rdmaWriteWithImm (buf : MessageBuffer) (remoteAddr idx : ℕ) : WorkRequest :=
  .writeWithImm remoteAddr (v.mem.read buf.inlineBuf buf.inlineLen) idx

def sendRendezvousBegin (msg : Message) (p : ℕ) : Except RdmaFault WorkRequest := do
  let buf ← v.msgBufAt p
  return .start ⟨buf.inlineLen, msg.data.map SArray.size, p⟩

def sendPushRequest (buf : MessageBuffer) (t : RemoteTuple) : Except RdmaFault (List WorkRequest) :=
  match buf.mrs with
  | [mr] => .ok [.write (t.remoteAddr + alignCeil buf.inlineLen cfg.pageSize)
      (v.mem.read mr.data mr.size), v.rdmaWriteWithImm buf t.remoteAddr t.idx]
  | _ => .error .mrs

/-- `SendPullRequest` and `SendPushResponse`. -/
def sendMeta (buf : MessageBuffer) (t : RemoteTuple) : Except RdmaFault (List WorkRequest) := do
  require .mrs (buf.mrs = [])
  return [v.rdmaWriteWithImm buf t.remoteAddr t.idx]

def sendPullResponse (msg : Message) (buf : MessageBuffer) (t : RemoteTuple) :
    Except RdmaFault (List WorkRequest) := do
  let vals ← arrayAt buf.data 1
  require .memMr (vals.data ∈ v.memMr)
  require .mrs (buf.mrs = [])
  require .valLen ((msg.valLen % 2 ^ 64).toNat = vals.size)
  return [.write msg.addr (v.mem.read vals.data (msg.valLen % 2 ^ 32).toNat),
    v.rdmaWriteWithImm buf t.remoteAddr t.idx]

def sendPushpull (msg : Message) (buf : MessageBuffer) (t : RemoteTuple) :
    Except RdmaFault (List WorkRequest) :=
  if msg.push && msg.request then v.sendPushRequest cfg buf t
  else if msg.push && !msg.request then v.sendMeta buf t
  else if !msg.push && msg.request then v.sendMeta buf t
  else v.sendPullResponse msg buf t

def sendRendezvousReply (req : RendezvousStart) : Except RdmaFault (RDMAVan × RendezvousReply) := do
  let size :=
    if cfg.isServer then alignCeil req.metaLen cfg.pageSize + req.dataLen.sum else req.metaLen
  -- `Alloc` returns `nullptr` for the size 0.
  require .buffer (size ≠ 0)
  let (buffer, v') := v.alloc cfg size
  let (idx, addrPool) ← v'.addrPool.storeAddress ⟨buffer, req.metaLen, req.dataLen⟩
  return ({ v' with addrPool }, ⟨buffer, req.originAddr, cfg.keyOf buffer, idx⟩)

/-! ## Sending, the completion queue and receiving -/

def sendMsg (msg : Message) : Except RdmaFault (RDMAVan × List WorkRequest) := do
  require .recver (msg.recver ≠ kEmpty)
  require .endpoint (msg.recver ∈ cfg.endpoints)
  require .metaLen (getPackMetaLen msg.toMeta ≠ 0)
  let v := { v with memMr := registerMemory msg.data 0 v.memMr }
  if !isValidPushpull msg then
    let (p, v) := v.prepareNewMsgBuf cfg msg
    let v ← v.storeMsgBuf p msg
    let start ← v.sendRendezvousBegin msg p
    return (v, [start])
  let msg ← v.addMeta cfg msg
  let msg ← v.packWorkerTensorAddress msg
  if !v.hasRemoteInfo msg.key msg.push msg.recver then
    let (p, v) := v.prepareNewMsgBuf cfg msg
    let v ← v.storeMsgBuf p msg
    let v ← v.prepareData msg p
    let start ← v.sendRendezvousBegin msg p
    return (v, [start])
  let t ← v.getRemoteAndLocalInfo msg.key msg.push msg.recver
  let buf ← v.msgBufAt t.msgBuf
  require .inlineLen (buf.inlineLen = getPackMetaLen msg.toMeta)
  let buf := { buf with data := msg.data }
  let v := { v with
    msgBufs := v.msgBufs.set t.msgBuf buf
    mem := packMeta msg.toMeta v.mem buf.inlineBuf }
  let posts ← v.sendPushpull cfg msg buf t
  return (v, posts)

/-- One completion of `PollCQ`, for a work request of the peer; with what is posted to the
peer. -/
def pollCQ (peer : ℤ) : WorkRequest → Except RdmaFault (RDMAVan × List WorkRequest)
  | .write remoteAddr bytes => .ok ({ v with mem := v.mem.write remoteAddr bytes }, [])
  | .writeWithImm remoteAddr bytes imm => do
    let bufCtx ← v.addrPool.getAddress imm
    return ({ v with
      mem := v.mem.write remoteAddr bytes
      recvBuffers := v.recvBuffers ++ [(peer, bufCtx)] }, [])
  | .start req => do
    let (v, resp) ← v.sendRendezvousReply cfg req
    return (v, [.reply resp])
  | .reply resp => do
    let v ← v.storeRemoteAndLocalInfo resp.originAddr resp.addr resp.rkey resp.idx
    let msg ← v.getFirstMsg resp.originAddr
    let t ← v.getRemoteAndLocalInfo msg.key msg.push msg.recver
    let buf ← v.msgBufAt resp.originAddr
    let posts ← (if !isValidPushpull msg then .ok [v.rdmaWriteWithImm buf resp.addr resp.idx]
      else v.sendPushpull cfg msg buf t)
    let v ← v.releaseFirstMsg resp.originAddr
    return (v, posts)

/-- `keys` and `lens` of a received message, made from its meta data, and `vals` between. -/
def receivedData (msg : Message) (vals : SArray) : Message × RDMAVan :=
  let (keys, v) := v.createFunctionalSarray (leBytes 8 msg.key)
  let (lens, v) := v.createFunctionalSarray (intBytes msg.valLen)
  ({ msg with data := [keys, vals, lens] }, v)

def recvPushpull (msg : Message) (bufCtx : BufferContext) : Except RdmaFault (Message × RDMAVan) :=
  if msg.push && msg.request then do
    require .dataNum (bufCtx.dataLen.length = 3)
    let cur := bufCtx.buffer + alignCeil (getPackMetaLen msg.toMeta) cfg.pageSize
    let (msg, v) := v.receivedData msg ⟨cur, bufCtx.dataLen.getD 1 0 % 2 ^ 32⟩
    let v ← v.storeWorkerTensorAddress msg
    return (msg, v)
  else if !msg.push && msg.request then
    let (keys, v) := v.createFunctionalSarray (leBytes 8 msg.key)
    .ok ({ msg with data := [keys, ⟨0, 0⟩] }, v)
  else if msg.push && !msg.request then do
    require .dataNum (bufCtx.dataLen.length = 0)
    return (msg, v)
  else .ok (v.receivedData msg ⟨msg.addr, (msg.valLen % 2 ^ 64).toNat⟩)

def recvMsg : Except RdmaFault RDMAVan :=
  match v.recvBuffers with
  | [] => .error .blocked
  | (sender, bufCtx) :: recvBuffers => do
    let m ← (unpackMeta v.mem bufCtx.buffer bufCtx.metaLen).elim (.error .unpack) .ok
    let msg : Message := { m with recver := cfg.myId, sender := sender, data := [] }
    let (msg, v) ← (if !isValidPushpull msg then .ok (msg, v) else v.recvPushpull cfg msg bufCtx)
    return { v with recvBuffers := recvBuffers, returned := msg :: v.returned }

/-- What a van does; `setBytes` is the application at work on its memory. -/
inductive Event where
  | sendMsg (msg : Message)
  | pollCQ (peer : ℤ) (wr : WorkRequest)
  | recvMsg
  | setBytes (a : ℕ) (bytes : List UInt8)

def step : Event → Except RdmaFault RDMAVan
  | .sendMsg msg => (v.sendMsg cfg msg).map Prod.fst
  | .pollCQ peer wr => (v.pollCQ cfg peer wr).map Prod.fst
  | .recvMsg => v.recvMsg cfg
  | .setBytes a bytes => .ok { v with mem := v.mem.write a bytes }

/-- One van, for which the completions are chosen freely. -/
def machine : Machine RDMAVan Event RdmaFault := ⟨init cfg, step cfg⟩

end RDMAVan

end Ps.Rdma
