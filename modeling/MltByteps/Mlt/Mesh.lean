import MltByteps.Lib.Check
import MltByteps.Lib.Dict
import MltByteps.Lib.Machine
import Mathlib.Data.Int.Order.Basic
import Mathlib.Data.List.Nodup

/-! Communicators that connect to each other: in each process a user's thread that calls
`AddConnection`, `SendMetaAsync` and `PostSend`, the thread of the reliable channel and that of
the priority channel. -/

namespace Mlt.Mesh

/-- A connection of TCP, from the process that called `Connect` to the one that listens. -/
structure Sock where
  client : ℤ
  server : ℤ
  serial : ℕ
deriving DecidableEq

/-- A `ConnMeta`: no two of a process have the same number. -/
structure Conn where
  dest : ℤ
  serial : ℕ
deriving DecidableEq

structure Endpoint where
  sock : Sock
  conn : Conn
deriving DecidableEq

inductive Signal (V : Type) where
  | userData (v : V)
  | flowStart (v : V)
deriving DecidableEq

inductive Op (V : Type) where
  | addConnection (dest : ℤ)
  | sendMeta (dest : ℤ) (v : V)
  | postSend (dest : ℤ) (v : V)

/-- Where the user's thread is: before `Listen`, between two calls, in `AddConnection` as the one
that waits or as the one that connects, or half through `PostSend`. -/
inductive UserPc (V : Type) where
  | start
  | ready
  | waiting (dest : ℤ)
  | makeMeta (dest : ℤ)
  | connecting (conn : Conn)
  | sendId (ep : Endpoint)
  | notifyChannel (ep : Endpoint)
  | notifyPriority (conn : Conn)
  | enqueueSend (dest : ℤ) (v : V)

/-- Where the thread of the reliable channel is in its loop, or in `HandleNewConnection`. -/
inductive ChanPc where
  | epoll
  | recvId (sock : Sock)
  | newMeta (sock : Sock) (dest : ℤ)
  | addEndpoint (ep : Endpoint)
  | notifyPriority (conn : Conn)
  | notifications
  | tx

inductive PrioPc where
  | sendRequests
  | notifications
deriving DecidableEq

inductive Fault where
  | endpointExists
  | connMetasRange
deriving DecidableEq

/-- A process. `sent`, `dropped`, `received` and `sending` record what its threads have done: the
signals that were put into `tx_queue_`, those that had no endpoint when they were taken out, those
that came from other processes, and the messages with the `ConnMeta` to whose `sending_msgs` they
were added. `added` are the connections whose `AddConnection` has returned. -/
structure Proc (V : Type) where
  prog : List (Op V)
  user : UserPc V
  chan : ChanPc
  prio : PrioPc
  listening : Bool
  backlog : List Sock
  idConn : Dict ℤ Conn
  allocs : ℕ
  notifications : List Endpoint
  ctrlEndpoints : Dict ℤ Endpoint
  txQueue : List (ℤ × Signal V)
  prioNotifications : List Conn
  connMetas : List Conn
  connMetaMap : Dict ℤ ℕ
  srQueue : List (ℤ × V)
  added : List ℤ
  sent : List (ℤ × Signal V)
  dropped : List (ℤ × Signal V)
  received : List (ℤ × Signal V)
  sending : List (Conn × ℤ × V)

/-- `hello` has the connections on which the client has sent its id. `stream k p` is what `p` has
put on its endpoint of `k` and the other side has not received. -/
structure Net (V : Type) where
  procs : ℤ → Proc V
  socks : List Sock
  hello : Sock → Bool
  stream : Sock → ℤ → List (Signal V)

namespace Proc

variable {V : Type}

def init (prog : List (Op V)) : Proc V where
  prog := prog
  user := .start
  chan := .epoll
  prio := .sendRequests
  listening := false
  backlog := []
  idConn := []
  allocs := 0
  notifications := []
  ctrlEndpoints := []
  txQueue := []
  prioNotifications := []
  connMetas := []
  connMetaMap := []
  srQueue := []
  added := []
  sent := []
  dropped := []
  received := []
  sending := []

def enqueue (dest : ℤ) (x : Signal V) (q : Proc V) : Proc V :=
  { q with txQueue := q.txQueue ++ [(dest, x)], sent := q.sent ++ [(dest, x)] }

/-- The user's next call. Connections are made by the process with the smaller id. -/
def call (p : ℤ) (q : Proc V) : Proc V :=
  match q.prog with
  | [] => q
  | .addConnection dest :: prog =>
    { q with prog, user := if dest ≤ p then .waiting dest else .makeMeta dest }
  | .sendMeta dest v :: prog => { q with prog }.enqueue dest (.userData v)
  | .postSend dest v :: prog =>
    { { q with prog }.enqueue dest (.flowStart v) with user := .enqueueSend dest v }

/-- `id_conn_` of the client, under the lock. -/
def makeMeta (dest : ℤ) (q : Proc V) : Proc V :=
  match q.idConn.get? dest with
  | some conn => { q with user := .connecting conn }
  | none =>
    let conn : Conn := ⟨dest, q.allocs⟩
    { q with
      idConn := q.idConn.set dest conn
      allocs := q.allocs + 1
      user := .connecting conn }

def userStep (p : ℤ) (q : Proc V) : Proc V :=
  match q.user with
  | .start => { q with listening := true, user := .ready }
  | .ready => q.call p
  | .waiting dest => { q with user := .ready, added := q.added ++ [dest] }
  | .makeMeta dest => q.makeMeta dest
  | .connecting _ => q
  | .sendId ep => { q with user := .notifyChannel ep }
  | .notifyChannel ep =>
    { q with notifications := q.notifications ++ [ep], user := .notifyPriority ep.conn }
  | .notifyPriority conn =>
    { q with
      prioNotifications := q.prioNotifications ++ [conn]
      user := .ready
      added := q.added ++ [conn.dest] }
  | .enqueueSend dest v => { q with srQueue := q.srQueue ++ [(dest, v)], user := .ready }

def addEndpoint (ep : Endpoint) (q : Proc V) : Except Fault (Proc V) := do
  require .endpointExists (q.ctrlEndpoints.get? ep.conn.dest = none)
  return { q with ctrlEndpoints := q.ctrlEndpoints.set ep.conn.dest ep }

/-- `HandleNewConnection` puts a new `ConnMeta` in the place of any that was there. -/
def newMeta (sock : Sock) (dest : ℤ) (q : Proc V) : Proc V :=
  let conn : Conn := ⟨dest, q.allocs⟩
  { q with
    idConn := q.idConn.set dest conn
    allocs := q.allocs + 1
    chan := .addEndpoint ⟨sock, conn⟩ }

def chanStep (q : Proc V) : Except Fault (Proc V) :=
  match q.chan with
  | .epoll => .ok { q with chan := .notifications }
  | .recvId sock => .ok { q with chan := .newMeta sock sock.client }
  | .newMeta sock dest => .ok (q.newMeta sock dest)
  | .addEndpoint ep => do
    let q ← q.addEndpoint ep
    return { q with chan := .notifyPriority ep.conn }
  | .notifyPriority conn =>
    .ok { q with prioNotifications := q.prioNotifications ++ [conn], chan := .epoll }
  | .notifications =>
    match q.notifications with
    | [] => .ok { q with chan := .tx }
    | ep :: notifications => { q with notifications }.addEndpoint ep
  | .tx => .ok { q with chan := .epoll }

/-- A message goes to the connection at the place that `conn_meta_map_` has for its destination,
which is 0 if it has none. No two messages are taken to have the same id. -/
def sendRequest (dest : ℤ) (v : V) (q : Proc V) : Except Fault (Proc V) :=
  let i := (q.connMetaMap.get? dest).getD 0
  match q.connMetas[i]? with
  | none => .error .connMetasRange
  | some conn => .ok { q with
      connMetaMap := q.connMetaMap.set dest i
      sending := q.sending ++ [(conn, dest, v)] }

def addConnection (conn : Conn) (q : Proc V) : Proc V :=
  { q with
    connMetaMap := q.connMetaMap.set conn.dest q.connMetas.length
    connMetas := q.connMetas ++ [conn] }

def prioStep (q : Proc V) : Except Fault (Proc V) :=
  match q.prio with
  | .sendRequests =>
    match q.srQueue with
    | [] => .ok { q with prio := .notifications }
    | (dest, v) :: srQueue => { q with srQueue }.sendRequest dest v
  | .notifications =>
    match q.prioNotifications with
    | [] => .ok { q with prio := .sendRequests }
    | conn :: prioNotifications => .ok ({ q with prioNotifications }.addConnection conn)

end Proc

namespace Net

variable {V : Type}

def init (prog : ℤ → List (Op V)) : Net V :=
  ⟨fun p => .init (prog p), [], fun _ => false, fun _ _ => []⟩

def setProc (p : ℤ) (q : Proc V) (n : Net V) : Net V :=
  { n with procs := Function.update n.procs p q }

/-- `Connect` succeeds: the connection waits to be accepted. -/
def connect (p : ℤ) (conn : Conn) (n : Net V) : Net V :=
  let k : Sock := ⟨p, conn.dest, n.socks.length⟩
  let n := n.setProc p { n.procs p with user := .sendId ⟨k, conn⟩ }
  let n := n.setProc conn.dest
    { n.procs conn.dest with backlog := (n.procs conn.dest).backlog ++ [k] }
  { n with socks := n.socks ++ [k] }

def userStep (p : ℤ) (n : Net V) : Net V :=
  match (n.procs p).user with
  | .connecting conn => n.connect p conn
  | .sendId ep =>
    { n.setProc p ((n.procs p).userStep p) with hello := Function.update n.hello ep.sock true }
  | _ => n.setProc p ((n.procs p).userStep p)

def accept (p : ℤ) (n : Net V) : Net V :=
  match (n.procs p).backlog with
  | [] => n
  | k :: backlog => n.setProc p { n.procs p with backlog, chan := .recvId k }

/-- `OnRecvReady` takes a signal off the endpoint of `src`. -/
def recv (p src : ℤ) (n : Net V) : Net V :=
  match (n.procs p).ctrlEndpoints.get? src with
  | none => n
  | some ep =>
    match n.stream ep.sock src with
    | [] => n
    | x :: rest =>
      { n.setProc p { n.procs p with received := (n.procs p).received ++ [(src, x)] } with
        stream := Function.update n.stream ep.sock
          (Function.update (n.stream ep.sock) src rest) }

/-- A signal is put on the endpoint of its destination, or dropped if there is none. -/
def route (p dest : ℤ) (x : Signal V) (n : Net V) : Net V :=
  match (n.procs p).ctrlEndpoints.get? dest with
  | none => n.setProc p { n.procs p with dropped := (n.procs p).dropped ++ [(dest, x)] }
  | some ep =>
    { n with
      stream := Function.update n.stream ep.sock
        (Function.update (n.stream ep.sock) p (n.stream ep.sock p ++ [x])) }

def chanStep (p : ℤ) (n : Net V) : Except Fault (Net V) :=
  match (n.procs p).chan, (n.procs p).txQueue with
  | .tx, (dest, x) :: txQueue => .ok ((n.setProc p { n.procs p with txQueue }).route p dest x)
  | _, _ => do
    let q ← (n.procs p).chanStep
    return n.setProc p q

def prioStep (p : ℤ) (n : Net V) : Except Fault (Net V) := do
  let q ← (n.procs p).prioStep
  return n.setProc p q

inductive Action where
  | user (p : ℤ)
  | accept (p : ℤ)
  | recv (p src : ℤ)
  | chan (p : ℤ)
  | prio (p : ℤ)

def step (n : Net V) : Action → Except Fault (Net V)
  | .user p => .ok (n.userStep p)
  | .accept p => .ok (n.accept p)
  | .recv p src => .ok (n.recv p src)
  | .chan p => n.chanStep p
  | .prio p => n.prioStep p

/-- The user's thread blocks until a connection has been accepted, and as long as nobody listens
where it connects. -/
def CanUser (n : Net V) (p : ℤ) : Prop :=
  match (n.procs p).user with
  | .ready => (n.procs p).prog ≠ []
  | .waiting dest => ((n.procs p).idConn.get? dest).isSome
  | .connecting conn => (n.procs conn.dest).listening = true
  | _ => True

def CanRecv (n : Net V) (p src : ℤ) : Prop :=
  match (n.procs p).ctrlEndpoints.get? src with
  | none => False
  | some ep => n.stream ep.sock src ≠ []

def AtEpoll (n : Net V) (p : ℤ) : Prop :=
  match (n.procs p).chan with
  | .epoll => True
  | _ => False

/-- The reliable channel blocks in `HandleNewConnection` until the client has sent its id. -/
def CanChan (n : Net V) (p : ℤ) : Prop :=
  match (n.procs p).chan with
  | .recvId k => n.hello k = true
  | _ => True

def Allowed (nodes : List ℤ) (n : Net V) : Action → Prop
  | .user p => p ∈ nodes ∧ n.CanUser p
  | .accept p => p ∈ nodes ∧ n.AtEpoll p ∧ (n.procs p).backlog ≠ []
  | .recv p src => p ∈ nodes ∧ n.AtEpoll p ∧ n.CanRecv p src
  | .chan p => p ∈ nodes ∧ n.CanChan p
  | .prio p => p ∈ nodes

end Net

def SendsAfter {V : Type} : List ℤ → List (Op V) → Prop
  | _, [] => True
  | added, .addConnection dest :: prog => SendsAfter (added ++ [dest]) prog
  | added, .sendMeta dest _ :: prog => dest ∈ added ∧ SendsAfter added prog
  | added, .postSend dest _ :: prog => dest ∈ added ∧ SendsAfter added prog

def Op.adds {V : Type} (dest : ℤ) : Op V → Bool
  | .addConnection dest' => dest' = dest
  | _ => false

/-- The nodes with their programs: each connects once to each of the others, in any order. -/
structure Setup (V : Type) where
  nodes : List ℤ
  prog : ℤ → List (Op V)
  once : ∀ p ∈ nodes, ∀ d, (prog p).countP (Op.adds d) = if d ∈ nodes ∧ d ≠ p then 1 else 0
  after : ∀ p ∈ nodes, SendsAfter [] (prog p)

variable {V : Type}

theorem sendsAfter_map_append {l added : List ℤ} {prog : List (Op V)}
    (h : SendsAfter (added ++ l) prog) : SendsAfter added (l.map .addConnection ++ prog) := by
  induction l generalizing added with
  | nil => simpa using h
  | cons d l ih => exact ih (by simpa using h)

def Op.SendsTo (added : List ℤ) : Op V → Prop
  | .addConnection _ => False
  | .sendMeta dest _ => dest ∈ added
  | .postSend dest _ => dest ∈ added

instance (added : List ℤ) : DecidablePred (Op.SendsTo (V := V) added)
  | .addConnection _ => inferInstanceAs (Decidable False)
  | .sendMeta dest _ => inferInstanceAs (Decidable (dest ∈ added))
  | .postSend dest _ => inferInstanceAs (Decidable (dest ∈ added))

theorem sendsAfter_of_sendsTo {added : List ℤ} {prog : List (Op V)}
    (h : ∀ op ∈ prog, op.SendsTo added) : SendsAfter added prog := by
  induction prog with
  | nil => trivial
  | cons op prog ih =>
    have hrest := ih fun op' hop => h op' (List.mem_cons_of_mem _ hop)
    cases op with
    | addConnection d => exact (h _ List.mem_cons_self).elim
    | sendMeta d v | postSend d v => exact ⟨h _ List.mem_cons_self, hrest⟩

/-- `Startup` of the test program, with what is sent after it: the nodes of the host file are
connected in its order. -/
def Setup.startup (nodes : List ℤ) (hnodup : nodes.Nodup) (traffic : ℤ → List (Op V))
    (htraffic : ∀ p ∈ nodes, ∀ op ∈ traffic p, op.SendsTo (nodes.filter (· ≠ p))) : Setup V where
  nodes := nodes
  prog p := (nodes.filter (· ≠ p)).map .addConnection ++ traffic p
  once p hp d := by
    have hnone : (traffic p).countP (Op.adds d) = 0 := List.countP_eq_zero.mpr fun op hop => by
      cases op with
      | addConnection d' => exact (htraffic p hp _ hop).elim
      | sendMeta | postSend => exact Bool.false_ne_true
    have hadds : (Op.adds d ∘ Op.addConnection (V := V)) = fun d' => d' == d := by
      funext d'
      rfl
    rw [List.countP_append, hnone, Nat.add_zero, List.countP_map, hadds]
    have hcount := (hnodup.filter (· ≠ p)).count (a := d)
    simpa [List.count] using hcount
  after p hp := sendsAfter_map_append (sendsAfter_of_sendsTo (htraffic p hp))

def machine (S : Setup V) : Machine (Net V) Net.Action Fault where
  init := .init S.prog
  step := Net.step

end Mlt.Mesh
