import MltByteps.Lib.Check
import MltByteps.Lib.Slices
import Mathlib.Tactic.Ring

/-! Keys, key ranges and key-value lists of the parameter server, and the places where a
`CHECK` of it can abort. -/

namespace Ps
open Slices

def u64 (n : ℕ) : ℕ := n % 2 ^ 64

theorem u64_of_lt {n : ℕ} (h : n < 2 ^ 64) : u64 n = n := Nat.mod_eq_of_lt h

def kMaxKey : ℕ := 2 ^ 64 - 1

inductive Fault where
  -- `SArray::segment`: `end >= begin` and `end <= size()`.
  | segment
  -- `SArray::front`, `SArray::back`: `!empty()`.
  | empty
  -- `DefaultSlicer`: `ranges[i-1].end() == ranges[i].begin()`.
  | ranges
  -- `DefaultSlicer`: `pos[n] == send.keys.size()`.
  | pos
  -- `DefaultSlicer`: `k * send.keys.size() == send.vals.size()`.
  | valsSize
  -- `DefaultSlicer`, `KVServer::Process`: as many lengths as keys.
  | lensSize
  -- `KVServerDefaultHandle`: `n == req_data.vals.size()`.
  | pushVals
  -- `Pull_`: "unmatched keys size from one server".
  | unmatchedKeys
  -- `Pull_`: `s.lens.size() == s.keys.size()`.
  | unmatchedLens
  -- `Pull_`: "lost some servers?".
  | lostServers
  -- `Pull_`: `vals->size() == total_val`.
  | pullVals
  -- `Pull_`: `lens->size() == keys.size()`.
  | pullLens
deriving DecidableEq, Repr

structure Range where
  begin_ : ℕ
  end_ : ℕ
deriving DecidableEq, Repr

def Range.size (r : Range) : ℕ := u64 (r.end_ + (2 ^ 64 - u64 r.begin_))

def Range.Contains (r : Range) (k : ℕ) : Prop := r.begin_ ≤ k ∧ k < r.end_

instance (r : Range) : DecidablePred r.Contains := fun k =>
  inferInstanceAs (Decidable (r.begin_ ≤ k ∧ k < r.end_))

structure KVPairs (V : Type) where
  keys : List ℕ
  vals : List V
  lens : List ℤ
deriving DecidableEq, Repr

/-! ## Arrays -/

section

variable {α : Type}

def segment (l : List α) (first last : ℕ) : Except Fault (List α) := do
  require .segment (first ≤ last ∧ last ≤ l.length)
  return (l.drop first).take (last - first)

def front (l : List α) : Except Fault α := l.head?.elim (.error .empty) .ok

def back (l : List α) : Except Fault α := l.getLast?.elim (.error .empty) .ok

theorem segment_append {pre mid post : List α} {first last : ℕ} (hfirst : first = pre.length)
    (hlast : last = pre.length + mid.length) :
    segment (pre ++ (mid ++ post)) first last = .ok mid := by
  subst hfirst hlast
  unfold segment
  rw [require_bind _ ⟨by omega, by simp only [List.length_append]; omega⟩, List.drop_left,
    Nat.add_sub_cancel_left, List.take_left]
  rfl

end

def findRange (arr : List ℕ) (lower upper : ℕ) : Range :=
  if upper ≤ lower then ⟨0, 0⟩ else ⟨lowerBound arr lower, lowerBound arr upper⟩

theorem findRange_size {pre mid post : List ℕ} {a b : ℕ}
    (hsorted : (pre ++ (mid ++ post)).Pairwise (· < ·)) (ha : mid.head? = some a)
    (hb : mid.getLast? = some b) (hlen : (pre ++ (mid ++ post)).length < 2 ^ 64) :
    (findRange (pre ++ (mid ++ post)) a (b + 1)).size = mid.length := by
  obtain ⟨hpre, hrest, hcross⟩ := List.pairwise_append.mp hsorted
  obtain ⟨hmid, hpost, hcross'⟩ := List.pairwise_append.mp hrest
  have hamem := List.mem_of_head? ha
  have hbmem := List.mem_of_getLast? hb
  have hge : ∀ x ∈ mid, a ≤ x := by
    obtain ⟨mid, rfl⟩ := List.head?_eq_some_iff.mp ha
    intro x hx
    rcases List.mem_cons.mp hx with rfl | hx
    · exact le_rfl
    · exact ((List.pairwise_cons.mp hmid).1 x hx).le
  have hle : ∀ x ∈ mid, x ≤ b := by
    obtain ⟨mid, rfl⟩ := List.getLast?_eq_some_iff.mp hb
    intro x hx
    rcases List.mem_append.mp hx with hx | hx
    · exact ((List.pairwise_append.mp hmid).2.2 x hx b (List.mem_singleton_self b)).le
    · exact (List.mem_singleton.mp hx).le
  have hlower : lowerBound (pre ++ (mid ++ post)) a = pre.length := by
    refine lowerBound_append (fun x hx => hcross x hx a (List.mem_append_left _ hamem)) ?_
    intro x hx
    rcases List.mem_append.mp hx with hx | hx
    · exact hge x hx
    · exact (hcross' a hamem x hx).le
  have hupper : lowerBound (pre ++ (mid ++ post)) (b + 1) = (pre ++ mid).length := by
    rw [← List.append_assoc]
    refine lowerBound_append (fun x hx => ?_) fun x hx => hcross' b hbmem x hx
    rcases List.mem_append.mp hx with hx | hx
    · exact (hcross x hx b (List.mem_append_left _ hbmem)).trans (Nat.lt_succ_self b)
    · exact Nat.lt_succ_of_le (hle x hx)
  rw [findRange, if_neg (by have := hge b hbmem; omega), hlower, hupper]
  simp only [Range.size, u64, List.length_append] at hlen ⊢
  omega

/-! ## The ranges of the servers -/

/-- Each range begins where the one before it ends, the first one at `lo`. -/
def Contiguous (lo : ℕ) : List Range → Prop
  | [] => True
  | r :: ranges => r.begin_ = lo ∧ r.begin_ ≤ r.end_ ∧ Contiguous r.end_ ranges

def getServerKeyRanges (numServers : ℕ) : List Range :=
  (List.range numServers).map fun i =>
    ⟨u64 (kMaxKey / numServers * i), u64 (kMaxKey / numServers * (i + 1))⟩

theorem length_getServerKeyRanges (n : ℕ) : (getServerKeyRanges n).length = n := by
  simp [getServerKeyRanges]

theorem getServerKeyRanges_eq (n : ℕ) : getServerKeyRanges n =
    (List.range n).map fun i => ⟨kMaxKey / n * i, kMaxKey / n * (i + 1)⟩ := by
  refine List.map_congr_left fun i hi => ?_
  have hle : kMaxKey / n * (i + 1) ≤ kMaxKey :=
    (Nat.mul_le_mul_left _ (List.mem_range.mp hi)).trans (Nat.div_mul_le_self _ _)
  have hmono : kMaxKey / n * i ≤ kMaxKey / n * (i + 1) := Nat.mul_le_mul_left _ (Nat.le_succ i)
  unfold kMaxKey at *
  rw [u64_of_lt (by omega), u64_of_lt (by omega)]

theorem contiguous_map_range' (c n : ℕ) : ∀ i, Contiguous (c * i)
    ((List.range' i n).map fun i => ⟨c * i, c * (i + 1)⟩) := by
  induction n with
  | zero => exact fun _ => trivial
  | succ n ih =>
    exact fun i => ⟨rfl, Nat.mul_le_mul_left _ (Nat.le_succ i), ih (i + 1)⟩

theorem contiguous_getServerKeyRanges (n : ℕ) : Contiguous 0 (getServerKeyRanges n) := by
  rw [getServerKeyRanges_eq, List.range_eq_range']
  exact contiguous_map_range' _ n 0

theorem getLast_getServerKeyRanges {n : ℕ} (hn : 0 < n) :
    ((getServerKeyRanges n).map Range.end_).getLast? = some (kMaxKey / n * n) := by
  obtain ⟨n, rfl⟩ := Nat.exists_eq_succ_of_ne_zero hn.ne'
  rw [getServerKeyRanges_eq, List.range_succ]
  simp

end Ps
