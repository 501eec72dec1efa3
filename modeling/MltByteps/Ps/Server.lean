import MltByteps.Ps.Basic
import Mathlib.Algebra.BigOperators.Group.List.Basic

/-! `KVServer` with `KVServerDefaultHandle`, which adds pushed values to a store. The store is an
`unordered_map` that is only read and written through `operator[]`, so it is a function with
default 0. -/

namespace Ps

variable {V : Type}

/-- A data message between a worker and a server, both given by their ranks. `data` is absent
if there are no keys. -/
structure Message (V : Type) where
  worker : ℕ
  server : ℕ
  timestamp : ℕ
  request : Bool
  push : Bool
  data : Option (KVPairs V)
deriving DecidableEq, Repr

def KVPairs.empty : KVPairs V := ⟨[], [], []⟩

/-- `AddData` is only called for lists with keys. -/
def KVPairs.toData (kvs : KVPairs V) : Option (KVPairs V) :=
  if kvs.keys = [] then none else some kvs

section Handle

variable [Zero V] [Add V]

def pushLoop (store : ℕ → V) : List ℕ → List V → ℕ → V
  | key :: keys, val :: vals => pushLoop (Function.update store key (store key + val)) keys vals
  | _, _ => store

def defaultHandle (push : Bool) (reqData : KVPairs V) (store : ℕ → V) :
    Except Fault ((ℕ → V) × KVPairs V) :=
  if push then do
    require .pushVals (reqData.keys.length = reqData.vals.length)
    return (pushLoop store reqData.keys reqData.vals, .empty)
  else
    .ok (store, ⟨reqData.keys, reqData.keys.map store, []⟩)

def Message.response (req : Message V) (res : KVPairs V) : Message V :=
  { req with request := false, data := res.toData }

/-- `KVServer::Process` and the handle it calls. -/
def Message.process (msg : Message V) (store : ℕ → V) :
    Except Fault ((ℕ → V) × Message V) := do
  let data := msg.data.getD .empty
  require .lensSize (data.lens ≠ [] → data.lens.length = data.keys.length)
  let (store, res) ← defaultHandle msg.push data store
  return (store, msg.response res)

end Handle

/-! ## What a push adds -/

section Value

variable [AddCommMonoid V]

def KVPairs.valueAt (kvs : KVPairs V) (key : ℕ) : V :=
  (((kvs.keys.zip kvs.vals).filter (·.1 = key)).map Prod.snd).sum

theorem pushLoop_apply (store : ℕ → V) (kvs : KVPairs V) (key : ℕ) :
    pushLoop store kvs.keys kvs.vals key = store key + kvs.valueAt key := by
  obtain ⟨keys, vals, lens⟩ := kvs
  unfold KVPairs.valueAt
  dsimp only
  induction keys generalizing vals store with
  | nil => simp [pushLoop]
  | cons k keys ih =>
    cases vals with
    | nil => simp [pushLoop]
    | cons v vals =>
      rw [pushLoop, ih, List.zip_cons_cons]
      by_cases hk : k = key
      · subst hk
        rw [Function.update_self, List.filter_cons_of_pos (by simp), List.map_cons, List.sum_cons,
          add_assoc]
      · rw [Function.update_of_ne (Ne.symm hk), List.filter_cons_of_neg (by simpa using hk)]

end Value

theorem process_push [AddCommMonoid V] {msg : Message V} {store : ℕ → V} {kvs : KVPairs V}
    (hpush : msg.push = true) (hdata : msg.data = some kvs) (hlens : kvs.lens = [])
    (hlen : kvs.keys.length = kvs.vals.length) :
    msg.process store =
      .ok (fun key => store key + kvs.valueAt key, msg.response .empty) := by
  unfold Message.process
  dsimp only
  rw [hdata, Option.getD_some, require_bind _ fun h => absurd hlens h, hpush]
  unfold defaultHandle
  rw [if_pos rfl, require_bind _ hlen]
  have hstore : pushLoop store kvs.keys kvs.vals = fun key => store key + kvs.valueAt key := by
    funext key
    exact pushLoop_apply store kvs key
  rw [hstore]
  rfl

theorem process_pull [Zero V] [Add V] {msg : Message V} {store : ℕ → V} {kvs : KVPairs V}
    (hpush : msg.push = false) (hdata : msg.data = some kvs) (hlens : kvs.lens = []) :
    msg.process store = .ok (store, msg.response ⟨kvs.keys, kvs.keys.map store, []⟩) := by
  unfold Message.process
  dsimp only
  rw [hdata, Option.getD_some, require_bind _ fun h => absurd hlens h, hpush]
  rfl

end Ps
