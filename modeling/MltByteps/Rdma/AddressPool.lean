import MltByteps.Lib.Check
import Mathlib.Data.List.Nodup
import Mathlib.Logic.Function.Basic

/-! The pool in which the RDMA van keeps the buffers that its peers refer to by an index. -/

namespace Ps.Rdma

/-- Where a `CHECK` of the RDMA van can abort. -/
inductive RdmaFault where
  -- `StoreAddress`: "Address pool size is too small".
  | indicesEmpty
  -- `StoreAddress`: `table_[idx] == nullptr`.
  | tableEntry
  -- `GetAddress`, `GetAddressAndRelease`: the entry is `nullptr`.
  | noAddress
  -- `SendMsg`: the receiver is given.
  | recver
  -- `SendMsg`: there is an endpoint for the receiver.
  | endpoint
  -- `SendMsg`: `meta_len`.
  | metaLen
  -- `SendMsg`: `msg_buf->inline_len == meta_len`.
  | inlineLen
  -- An array of `msg.data` that is not there.
  | dataIndex
  -- `AddMeta`: `msg.data.size() == 3`.
  | dataSize
  -- The values are not in `mem_mr_`.
  | memMr
  -- `PackWorkerTensorAddress`, `StoreWorkerTensorAddress`: the entry of `tensor_info_map_`.
  | tensorInfo
  -- `StoreMsgBuf`, `GetFirstMsg`, `ReleaseFirstMsg`: the entry of `msgbuf_cache_`.
  | msgbufCache
  -- A message buffer or a tuple that is not there.
  | msgBuf
  -- `msg_buf->mrs.size()`.
  | mrs
  -- `SendPullResponse`: `msg.meta.val_len == msg_buf->data[1].size()`.
  | valLen
  -- `SendRendezvousReply`: `buffer`.
  | buffer
  -- `RecvPushRequest`, `RecvPushResponse`: `buffer_ctx->data_num`.
  | dataNum
  -- `UnpackMeta` finds a number that belongs to no enumerator.
  | unpack
  -- Not a `CHECK`: there is nothing to poll or to receive yet.
  | blocked
deriving DecidableEq, Repr

/-- `AddressPool<T>`; an entry of the table is used if and only if its index is not queued. -/
structure AddressPool (T : Type) where
  kMaxEntries : ℕ
  indices : List ℕ
  table : ℕ → Option T
  nodup : indices.Nodup
  mem_indices : ∀ i, i ∈ indices ↔ i < kMaxEntries ∧ table i = none

namespace AddressPool

variable {T : Type}

def new (kMaxEntries : ℕ) : AddressPool T where
  kMaxEntries := kMaxEntries
  indices := List.range kMaxEntries
  table := fun _ => none
  nodup := List.nodup_range
  mem_indices := fun i => by rw [List.mem_range, and_iff_left rfl]

variable (pool : AddressPool T)

def getAddressAndRelease (index : ℕ) : Except RdmaFault (T × AddressPool T) :=
  match h : pool.table index with
  | none => .error .noAddress
  | some ptr =>
    -- An index behind the table has no entry.
    if hlt : index < pool.kMaxEntries then
      .ok (ptr, {
        kMaxEntries := pool.kMaxEntries
        indices := pool.indices ++ [index]
        table := Function.update pool.table index none
        nodup := by
          refine List.nodup_append.mpr ⟨pool.nodup, List.nodup_singleton _, fun i hi j hj hij => ?_⟩
          rw [hij, List.mem_singleton.mp hj, pool.mem_indices, h] at hi
          exact nomatch hi.2
        mem_indices := fun i => by
          rw [List.mem_append, List.mem_singleton, pool.mem_indices, Function.update_apply]
          by_cases hi : i = index
          · simp [hi, hlt]
          · simp [hi] })
    else .error .noAddress

def getAddress (index : ℕ) : Except RdmaFault T :=
  (pool.table index).elim (.error .noAddress) .ok

def storeAddress (ptr : T) : Except RdmaFault (ℕ × AddressPool T) :=
  match h : pool.indices with
  | [] => .error .indicesEmpty
  | idx :: indices => do
    require .tableEntry ((pool.table idx).isNone = true)
    return (idx, {
      kMaxEntries := pool.kMaxEntries
      indices := indices
      table := Function.update pool.table idx (some ptr)
      nodup := (List.nodup_cons.mp (h ▸ pool.nodup)).2
      mem_indices := fun i => by
        have hidx := (List.nodup_cons.mp (h ▸ pool.nodup)).1
        have hi := pool.mem_indices i
        rw [h, List.mem_cons] at hi
        rw [Function.update_apply]
        by_cases he : i = idx
        · simp [he, hidx]
        · simpa [he] using hi })

variable {pool} {pool' : AddressPool T} {ptr : T} {idx : ℕ}

theorem exists_storeAddress (ptr : T) :
    (∃ r, pool.storeAddress ptr = .ok r) ↔ pool.indices ≠ [] := by
  unfold storeAddress
  split
  case h_1 h => exact ⟨fun ⟨_, hr⟩ => (nomatch hr), fun hne => absurd h hne⟩
  case h_2 idx indices h =>
    have hfree := ((pool.mem_indices idx).mp (h ▸ List.mem_cons_self)).2
    rw [require_bind _ (by rw [hfree]; rfl)]
    exact ⟨fun _ => h ▸ List.cons_ne_nil _ _, fun _ => ⟨_, rfl⟩⟩

theorem storeAddress_indices (h : pool.storeAddress ptr = .ok (idx, pool')) :
    pool.indices = idx :: pool'.indices := by
  unfold storeAddress at h
  split at h
  · cases h
  · obtain ⟨-, h⟩ := require_bind_eq_ok.mp h
    cases h
    assumption

end AddressPool

end Ps.Rdma
