import MltByteps.Lib.Machine
import MltByteps.Ps.Worker

/-! Workers, servers and the messages between them. A message is delivered once, in any order;
the threads of the workers and the servers take their steps in any interleaving. -/

namespace Ps

variable {V : Type}

/-- A thread of a worker's application that is in a call of `Push` or `Pull`. -/
structure Thread (V : Type) where
  worker : ℕ
  timestamp : ℕ
  call : Call V
deriving DecidableEq, Repr

/-- `pushes` and `answers` are histories: the requests of all calls of `Push`, and all responses
of servers. -/
structure Cluster (V : Type) where
  worker : ℕ → Worker V
  threads : List (Thread V)
  store : ℕ → ℕ → V
  net : List (Message V)
  pushes : List (KVPairs V)
  answers : List (Message V)

inductive Action (V : Type) where
  | push (rank : ℕ) (kvs : KVPairs V) (callback : Bool)
  | pull (rank : ℕ) (keys : List ℕ) (out : Buffers V)
  -- A call takes its next step.
  | advance (thread : ℕ)
  -- The receiving thread of a worker takes its next step.
  | receive (rank : ℕ)
  -- A request reaches a server with the default handle.
  | handle (msg : ℕ)
  -- A server with another handle answers a request.
  | respond (msg : ℕ) (res : KVPairs V)
  -- A response reaches the queue of its worker.
  | deliver (msg : ℕ)

namespace Cluster

def init [Zero V] : Cluster V := ⟨fun _ => .init, [], fun _ _ => 0, [], [], []⟩

def setWorker (rank : ℕ) (w : Worker V) (s : Cluster V) : Cluster V :=
  { s with worker := Function.update s.worker rank w }

/-- `NewRequest` and the start of a call. -/
def issue (cfg : Config) (rank : ℕ) (push : Bool) (kvs : KVPairs V) (callback : Option Callback)
    (out : Buffers V) (s : Cluster V) : Cluster V :=
  let w := s.worker rank
  let ts := w.tracker.length
  let slot := { w.slots ts with out }
  { s with
    worker := Function.update s.worker rank
      { w.setSlot ts slot with tracker := w.tracker ++ [(cfg.numServers, 0)] }
    threads := s.threads ++ [⟨rank, ts, .addCallback push kvs callback⟩] }

/-- The response `res` takes the place of the request at position `i`. -/
def answer (i : ℕ) (res : Message V) (s : Cluster V) : Cluster V :=
  { s with net := s.net.eraseIdx i ++ [res], answers := s.answers ++ [res] }

end Cluster

open Cluster

/-- A step of the cluster; one that is not enabled changes nothing. -/
def step [Zero V] [Add V] (cfg : Config) (s : Cluster V) : Action V → Except Fault (Cluster V)
  | .push rank kvs callback =>
    .ok { s.issue cfg rank true kvs (if callback then some .user else none) ⟨[], none⟩ with
      pushes := s.pushes ++ [kvs] }
  | .pull rank keys out => .ok (s.issue cfg rank false ⟨keys, [], []⟩ (some (.pull keys)) out)
  | .advance i =>
    match s.threads[i]? with
    | none => .ok s
    | some t => do
      let (w, call, msg) ← (s.worker t.worker).advance cfg t.worker t.timestamp t.call
      return { s.setWorker t.worker w with
        threads := s.threads.take i ++
          (call.map (⟨t.worker, t.timestamp, ·⟩)).toList ++ s.threads.drop (i + 1)
        net := s.net ++ msg.toList }
  | .receive rank => do return s.setWorker rank (← (s.worker rank).receive cfg)
  | .handle i =>
    match s.net[i]? with
    | none => .ok s
    | some msg =>
      if msg.request then do
        let (store, res) ← msg.process (s.store msg.server)
        return { s with store := Function.update s.store msg.server store }.answer i res
      else .ok s
  | .respond i res =>
    match s.net[i]? with
    | none => .ok s
    | some msg => if msg.request then .ok (s.answer i (msg.response res)) else .ok s
  | .deliver i =>
    match s.net[i]? with
    | none => .ok s
    | some msg =>
      if msg.request then .ok s
      else
        let w := s.worker msg.worker
        .ok { s.setWorker msg.worker { w with recvQueue := w.recvQueue ++ [msg] } with
          net := s.net.eraseIdx i }

def machine [Zero V] [Add V] (cfg : Config) : Machine (Cluster V) (Action V) Fault :=
  ⟨.init, step cfg⟩

end Ps
