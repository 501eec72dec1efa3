import MltByteps.Ps.Pull
import MltByteps.Ps.Server
import MltByteps.Ps.Slicer

/-! `KVWorker` and its `Customer`. A call of `Push` or `Pull` and the receiving thread take one
step for each critical section; anything may happen between two of their steps. -/

namespace Ps

variable {V : Type}

structure Config where
  numServers : ℕ
  isWorkerZpull : Bool
  servers_pos : 0 < numServers

/-- An entry of `callbacks_`: a callback of the caller, or the one `Pull_` makes. What a
callback of the caller does is not part of the worker. -/
inductive Callback where
  | user
  | pull (keys : List ℕ)
deriving DecidableEq, Repr

/-- Where a thread is in `RunCallback`. -/
inductive CallbackPc where
  | find
  | call
  | erase
deriving DecidableEq, Repr

/-- What has happened to a request: the slices it was cut into, the start of a `RunCallback`
(in `Send`, or else in the receiving thread) and its return. -/
inductive Event (V : Type) where
  | sliced (push : Bool) (slices : List (Option (KVPairs V)))
  | runCallback (inSend : Bool)
  | returned
deriving DecidableEq, Repr

/-- What the maps of a worker hold for one timestamp: `callbacks_`, `recv_kvs_`, the buffers of
the caller that the callback fills, and the history of the request. -/
structure Slot (V : Type) where
  callback : Option Callback
  recvKvs : List (KVPairs V)
  out : Buffers V
  log : List (Event V)
deriving DecidableEq, Repr

/-- Where a call of `Push` or `Pull` is. -/
inductive Call (V : Type) where
  | addCallback (push : Bool) (kvs : KVPairs V) (callback : Option Callback)
  | send (push : Bool) (kvs : KVPairs V)
  | runCallback (pc : CallbackPc)
  | loop (push : Bool) (slices : List (ℕ × KVPairs V))
deriving DecidableEq, Repr

/-- Where `Customer::Receiving` is with a message. -/
inductive Receiver (V : Type) where
  | waiting
  | process (msg : Message V)
  | numResponse (msg : Message V)
  | runCallback (msg : Message V) (pc : CallbackPc)
  | addResponse (msg : Message V)
deriving DecidableEq, Repr

/-- The timestamp of a request is its place in the `tracker`. It is an `int` in the source: a worker
is taken to make fewer than `2^31` requests. -/
structure Worker (V : Type) where
  tracker : List (ℕ × ℕ)
  slots : ℕ → Slot V
  recvQueue : List (Message V)
  receiver : Receiver V

namespace Slot

def init : Slot V := ⟨none, [], ⟨[], none⟩, []⟩

def record (e : Event V) (slot : Slot V) : Slot V := { slot with log := slot.log ++ [e] }

/-- One critical section of `RunCallback`, and where it goes on; `none` is its return. -/
def runCallback [Zero V] (cfg : Config) (slot : Slot V) :
    CallbackPc → Except Fault (Option CallbackPc × Slot V)
  | .find =>
    if slot.callback.isSome then .ok (some .call, slot) else .ok (none, slot.record .returned)
  | .call =>
    match slot.callback with
    | some (.pull keys) => do
      let out ← pullCallback cfg.isWorkerZpull keys slot.recvKvs slot.out
      return (some .erase, { slot with out, recvKvs := [] })
    | _ => .ok (some .erase, slot)
  | .erase => .ok (none, { slot with callback := none }.record .returned)

end Slot

def numbered (slices : List (Option (KVPairs V))) : List (ℕ × KVPairs V) :=
  slices.zipIdx.filterMap fun x => x.1.map (x.2, ·)

namespace Worker

def init : Worker V := ⟨[], fun _ => .init, [], .waiting⟩

def setSlot (ts : ℕ) (slot : Slot V) (w : Worker V) : Worker V :=
  { w with slots := Function.update w.slots ts slot }

@[simp] theorem setSlot_slots_self (ts : ℕ) (slot : Slot V) (w : Worker V) :
    (w.setSlot ts slot).slots ts = slot := Function.update_self _ _ _

@[simp] theorem setSlot_tracker (ts : ℕ) (slot : Slot V) (w : Worker V) :
    (w.setSlot ts slot).tracker = w.tracker := rfl

/-- The count of responses, `tracker_[ts].second`, is raised. -/
def addResponse (ts num : ℕ) (w : Worker V) : Worker V :=
  { w with tracker := w.tracker.modify ts fun x => (x.1, x.2 + num) }

def numResponse (w : Worker V) (ts : ℕ) : ℕ := (w.tracker.getD ts (0, 0)).2

/-- The condition `WaitRequest` waits for. -/
def waitCondition (w : Worker V) (ts : ℕ) : Prop := ∃ num, w.tracker[ts]? = some (num, num)

/-- The next step of a call: the worker, where the call goes on (`none` is its return) and
the message it sends. -/
def advance [Zero V] (cfg : Config) (rank ts : ℕ) (w : Worker V) :
    Call V → Except Fault (Worker V × Option (Call V) × Option (Message V))
  | .addCallback push kvs callback =>
    let slot := { w.slots ts with callback := callback.or (w.slots ts).callback }
    .ok (w.setSlot ts slot, some (.send push kvs), none)
  | .send push kvs => do
    let slices ← defaultSlicer kvs (getServerKeyRanges cfg.numServers)
    let skipped := slices.countP Option.isNone
    let slot := (w.slots ts).record (.sliced push slices)
    let w := w.addResponse ts skipped
    if skipped = slices.length then
      return (w.setSlot ts (slot.record (.runCallback true)), some (.runCallback .find), none)
    else
      return (w.setSlot ts slot, some (.loop push (numbered slices)), none)
  | .runCallback pc => do
    let (pc, slot) ← (w.slots ts).runCallback cfg pc
    return (w.setSlot ts slot, pc.map .runCallback, none)
  | .loop _ [] => .ok (w, none, none)
  | .loop push ((i, kvs) :: slices) =>
    .ok (w, some (.loop push slices), some ⟨rank, i, ts, true, push, kvs.toData⟩)

def receive [Zero V] (cfg : Config) (w : Worker V) : Except Fault (Worker V) :=
  match w.receiver with
  | .waiting =>
    match w.recvQueue with
    | [] => .ok w
    | msg :: recvQueue => .ok { w with recvQueue, receiver := .process msg }
  | .process msg =>
    let slot := w.slots msg.timestamp
    let stored := if msg.push then [] else msg.data.toList
    .ok { w.setSlot msg.timestamp { slot with recvKvs := slot.recvKvs ++ stored } with
      receiver := .numResponse msg }
  | .numResponse msg =>
    -- `NumResponse(ts) == num_servers() - 1`
    if w.numResponse msg.timestamp + 1 = cfg.numServers then
      .ok { w.setSlot msg.timestamp ((w.slots msg.timestamp).record (.runCallback false)) with
        receiver := .runCallback msg .find }
    else .ok { w with receiver := .addResponse msg }
  | .runCallback msg pc => do
    let (pc, slot) ← (w.slots msg.timestamp).runCallback cfg pc
    return { w.setSlot msg.timestamp slot with
      receiver := pc.elim (.addResponse msg) (.runCallback msg) }
  | .addResponse msg =>
    .ok { if msg.request then w else w.addResponse msg.timestamp 1 with receiver := .waiting }

end Worker

end Ps
