import MltByteps.Ps.Basic
import Mathlib.Data.List.Flatten

/-! The callback of `KVWorker::Pull_`, which puts the answers of the servers together. -/

namespace Ps
open Slices

variable {V : Type}

/-- The caller's `vals` and `lens`; `lens` may be null. -/
structure Buffers (V : Type) where
  vals : List V
  lens : Option (List ℤ)
deriving DecidableEq, Repr

def checkAnswers (keys : List ℕ) (withLens : Bool) (totalKey totalVal : ℕ) :
    List (KVPairs V) → Except Fault (ℕ × ℕ)
  | [] => .ok (totalKey, totalVal)
  | s :: kvs => do
    let range := findRange keys (← front s.keys) (u64 ((← back s.keys) + 1))
    require .unmatchedKeys (range.size = s.keys.length)
    require .unmatchedLens (withLens → s.lens.length = s.keys.length)
    checkAnswers keys withLens (totalKey + s.keys.length) (totalVal + s.vals.length) kvs

/-- An empty buffer is resized, another one has to have the right size. -/
def fit {α : Type} [Zero α] (f : Fault) (size : ℕ) (buf : List α) : Except Fault (List α) :=
  if buf = [] then .ok (List.replicate size 0)
  else do
    require f (buf.length = size)
    return buf

/-- The loop of `memcpy` calls at a moving position. -/
def copyAll {α : Type} (pos : ℕ) (buf : List α) : List (List α) → List α
  | [] => buf
  | src :: srcs =>
    copyAll (pos + src.length) (buf.take pos ++ (src ++ buf.drop (pos + src.length))) srcs

def KVPairs.front (s : KVPairs V) : ℕ := s.keys.headD 0

def pullCallback [Zero V] (isWorkerZpull : Bool) (keys : List ℕ) (kvs : List (KVPairs V))
    (out : Buffers V) : Except Fault (Buffers V) := do
  let (totalKey, totalVal) ← checkAnswers keys out.lens.isSome 0 0 kvs
  require .lostServers (totalKey = keys.length)
  let kvs := kvs.insertionSort fun a b => a.front ≤ b.front
  let vals ← fit .pullVals totalVal out.vals
  if isWorkerZpull then return { out with vals }
  let lens ← out.lens.mapM (fit .pullLens keys.length)
  return ⟨copyAll 0 vals (kvs.map KVPairs.vals),
    lens.map fun lens => copyAll 0 lens (kvs.map KVPairs.lens)⟩

/-! ## Answers that cover the keys -/

section

variable {α : Type}

theorem copyAll_eq (pos : ℕ) (buf : List α) (srcs : List (List α))
    (hlen : pos + srcs.flatten.length = buf.length) :
    copyAll pos buf srcs = buf.take pos ++ srcs.flatten := by
  induction srcs generalizing pos buf with
  | nil =>
    rw [List.flatten_nil, List.append_nil, List.take_of_length_le (by simpa using hlen.ge)]
    rfl
  | cons src srcs ih =>
    rw [List.flatten_cons, List.length_append] at hlen
    have htake : (buf.take pos).length = pos := List.length_take_of_le (by omega)
    rw [copyAll, ih _ _ (by
      simp only [List.length_append, htake, List.length_drop]
      omega), ← List.append_assoc (buf.take pos) src,
      List.take_left' (by rw [List.length_append, htake]), List.flatten_cons, List.append_assoc]

theorem fit_length [Zero α] {f : Fault} {size : ℕ} {buf : List α}
    (h : buf = [] ∨ buf.length = size) :
    ∃ buf', fit f size buf = .ok buf' ∧ buf'.length = size := by
  unfold fit
  split_ifs with hnil
  · exact ⟨_, rfl, List.length_replicate⟩
  · have hsize := h.resolve_left hnil
    exact ⟨buf, require_bind _ hsize, hsize⟩

end

structure Covers (keys : List ℕ) (pieces : List (KVPairs V)) : Prop where
  flatten_eq : (pieces.map KVPairs.keys).flatten = keys
  nonempty : ∀ s ∈ pieces, s.keys ≠ []

variable {keys : List ℕ} {pieces kvs : List (KVPairs V)}

theorem Covers.split (h : Covers keys pieces) {s : KVPairs V} (hs : s ∈ pieces) :
    ∃ pre post, keys = pre ++ (s.keys ++ post) := by
  obtain ⟨before, after, rfl⟩ := List.append_of_mem hs
  refine ⟨(before.map KVPairs.keys).flatten, (after.map KVPairs.keys).flatten, ?_⟩
  rw [← h.flatten_eq]
  simp

theorem Covers.pairwise (h : Covers keys pieces) (hsorted : keys.Pairwise (· < ·)) :
    pieces.Pairwise (KVPairs.front · < KVPairs.front ·) := by
  rw [← h.flatten_eq, List.pairwise_flatten, List.pairwise_map] at hsorted
  refine hsorted.2.imp_of_mem fun {a b} ha hb hlt => ?_
  have hfront : ∀ {s : KVPairs V}, s ∈ pieces → s.front ∈ s.keys := fun {s} hs => by
    obtain ⟨k, ks, hk⟩ := List.exists_cons_of_ne_nil (h.nonempty s hs)
    simp [KVPairs.front, hk]
  exact hlt _ (hfront ha) _ (hfront hb)

theorem Covers.checkAnswers_eq (h : Covers keys pieces) (hsorted : keys.Pairwise (· < ·))
    (hlt : ∀ k ∈ keys, k < kMaxKey) (hsub : ∀ s ∈ kvs, s ∈ pieces) (totalKey totalVal : ℕ) :
    checkAnswers keys false totalKey totalVal kvs =
      .ok (totalKey + (kvs.map KVPairs.keys).flatten.length,
        totalVal + (kvs.map KVPairs.vals).flatten.length) := by
  induction kvs generalizing totalKey totalVal with
  | nil => rfl
  | cons s kvs ih =>
    have hs := hsub s List.mem_cons_self
    obtain ⟨pre, post, hkeys⟩ := h.split hs
    obtain ⟨a, ha⟩ := Option.ne_none_iff_exists'.mp fun e =>
      h.nonempty s hs (List.head?_eq_none_iff.mp e)
    obtain ⟨b, hb⟩ := Option.ne_none_iff_exists'.mp fun e =>
      h.nonempty s hs (List.getLast?_eq_none_iff.mp e)
    have hbmem : b ∈ keys := by
      rw [hkeys]
      exact List.mem_append_right _ (List.mem_append_left _ (List.mem_of_getLast? hb))
    have hb' := hlt b hbmem
    have hsize : (findRange keys a (u64 (b + 1))).size = s.keys.length := by
      rw [u64_of_lt (by unfold kMaxKey at hb'; omega), hkeys]
      have hlen := length_le_of_pairwise_lt hsorted hlt
      rw [hkeys] at hlen hsorted
      exact findRange_size hsorted ha hb (by unfold kMaxKey at hlen; omega)
    unfold checkAnswers front back
    rw [ha, hb]
    simp only [Option.elim_some, ok_bind]
    rw [require_bind _ hsize, require_bind _ (fun h => nomatch h),
      ih fun s' hs' => hsub s' (List.mem_cons_of_mem _ hs')]
    simp only [List.map_cons, List.flatten_cons, List.length_append, Nat.add_assoc]

/-- The answers to a pull, in whatever order they came, are put together in the order of the
keys and pass every check. -/
theorem Covers.pullCallback_eq [Zero V] (h : Covers keys pieces) (hsorted : keys.Pairwise (· < ·))
    (hlt : ∀ k ∈ keys, k < kMaxKey) (hperm : kvs.Perm pieces) {vals : List V}
    (hvals : vals = [] ∨ vals.length = (pieces.map KVPairs.vals).flatten.length) :
    pullCallback false keys kvs ⟨vals, none⟩ = .ok ⟨(pieces.map KVPairs.vals).flatten, none⟩ := by
  have hkeys : (kvs.map KVPairs.keys).flatten.length = keys.length := by
    rw [(hperm.map _).flatten.length_eq, h.flatten_eq]
  obtain ⟨buf, hfit, hbuf⟩ := fit_length (f := .pullVals) hvals
  unfold pullCallback
  rw [Option.isSome_none, h.checkAnswers_eq hsorted hlt (fun s hs => hperm.mem_iff.mp hs), ok_bind]
  dsimp only
  rw [Nat.zero_add, Nat.zero_add, require_bind _ hkeys, (hperm.map _).flatten.length_eq, hfit,
    ok_bind, if_neg Bool.false_ne_true, insertionSort_eq_of_perm (h.pairwise hsorted) hperm]
  change Except.ok _ = _
  rw [copyAll_eq 0 buf _ (by rw [Nat.zero_add, hbuf]), List.take_zero, List.nil_append]
  rfl

end Ps
