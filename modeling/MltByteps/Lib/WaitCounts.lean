import Mathlib.Data.Int.Notation
import MltByteps.Lib.JoinOrder

/-! How many neighbours those that have joined still wait for. -/

namespace JoinOrder

variable {α : Type} [DecidableEq α] {nbrs : α → List α} {joined : List α} {v r : α}

structure IsGraph (nbrs : α → List α) : Prop where
  nodup : ∀ a, (nbrs a).Nodup
  symm : ∀ a b, b ∈ nbrs a → a ∈ nbrs b
  irrefl : ∀ a, a ∉ nbrs a

variable (nbrs joined) in
def waits (r : α) : Option ℤ :=
  if r ∈ joined ∧ 0 < (remaining nbrs joined r).length then
    some ((remaining nbrs joined r).length : ℤ)
  else none

theorem waits_of_notMem (hr : r ∉ joined) : waits nbrs joined r = none := if_neg fun h => hr h.1

theorem waits_of_mem (hr : r ∈ joined) : waits nbrs joined r =
    if 0 < (remaining nbrs joined r).length then some ((remaining nbrs joined r).length : ℤ)
    else none := by
  simp only [waits, hr, true_and]

theorem isSome_waits : (waits nbrs joined r).isSome ↔
    r ∈ joined ∧ ∃ b ∈ nbrs r, b ∉ joined := by
  by_cases hr : r ∈ joined
  · have hiff : 0 < (remaining nbrs joined r).length ↔ ∃ b ∈ nbrs r, b ∉ joined := by
      rw [List.length_pos_iff_exists_mem]
      simp only [mem_remaining]
    rw [waits_of_mem hr, and_iff_right hr, ← hiff]
    split_ifs with h <;> simp [h]
  · simp [waits_of_notMem hr, hr]

theorem waits_eq_none (hg : IsGraph nbrs) (hall : ∀ a, nbrs a ≠ [] → a ∈ joined) (r : α) :
    waits nbrs joined r = none := by
  rw [← Option.not_isSome_iff_eq_none, isSome_waits]
  rintro ⟨-, b, hb, hnot⟩
  exact hnot (hall b (List.ne_nil_of_mem (hg.symm r b hb)))

theorem filter_waits (hg : IsGraph nbrs) (hv : v ∉ joined) :
    ((nbrs v).filter fun r => (waits nbrs joined r).isSome) = present nbrs joined v := by
  refine List.filter_congr fun r hr => ?_
  rw [Bool.eq_iff_iff, isSome_waits, decide_eq_true_iff]
  exact and_iff_left_of_imp fun _ => ⟨v, hg.symm v r hr, hv⟩

theorem waits_join_self (hg : IsGraph nbrs) (hv : v ∉ joined) :
    waits nbrs (joined ++ [v]) v =
      if 0 < ((nbrs v).length : ℤ) - (present nbrs joined v).length then
        some (((nbrs v).length : ℤ) - (present nbrs joined v).length)
      else none := by
  have hlen := length_remaining_join (hg.nodup v) hv
  have hsum := @length_present_add_remaining _ _ nbrs joined v
  rw [if_neg (hg.irrefl v)] at hlen
  have hself : v ∈ joined ++ [v] := List.mem_append_right _ (List.mem_singleton_self v)
  have heq : ((nbrs v).length : ℤ) - (present nbrs joined v).length =
      (remaining nbrs (joined ++ [v]) v).length := by omega
  rw [waits_of_mem hself, heq]
  simp only [Int.natCast_pos]

theorem waits_join_of_ne (hg : IsGraph nbrs) (hv : v ∉ joined) (hr : r ≠ v) :
    waits nbrs (joined ++ [v]) r =
      if r ∈ present nbrs joined v then
        (waits nbrs joined r).bind fun k => if k = 1 then none else some (k - 1)
      else waits nbrs joined r := by
  have hlen := length_remaining_join (hg.nodup r) hv
  by_cases hjoined : r ∈ joined
  · have hjoined' : r ∈ joined ++ [v] := List.mem_append_left _ hjoined
    by_cases hnbr : r ∈ nbrs v
    · rw [if_pos (hg.symm v r hnbr)] at hlen
      have hpos : 0 < (remaining nbrs joined r).length := by omega
      rw [if_pos (mem_present.mpr ⟨hnbr, hjoined⟩), waits_of_mem hjoined, waits_of_mem hjoined',
        if_pos hpos, Option.bind_some]
      by_cases hone : (remaining nbrs (joined ++ [v]) r).length = 0
      · rw [if_neg (by omega), if_pos (by omega)]
      · rw [if_pos (by omega), if_neg (by omega)]
        exact congrArg some (by omega)
    · rw [if_neg fun h => hnbr (hg.symm r v h), Nat.add_zero] at hlen
      rw [if_neg fun h => hnbr (mem_present.mp h).1, waits_of_mem hjoined, waits_of_mem hjoined',
        hlen]
  · have hjoined' : r ∉ joined ++ [v] := by simp [hjoined, hr]
    rw [if_neg fun h => hjoined (mem_present.mp h).2, waits_of_notMem hjoined,
      waits_of_notMem hjoined']

theorem count_links_both {a b : α} (hg : IsGraph nbrs) (hnodup : joined.Nodup)
    (hall : ∀ a, nbrs a ≠ [] → a ∈ joined) :
    (links nbrs joined).count (a, b) + (links nbrs joined).count (b, a) =
      if b ∈ nbrs a then 1 else 0 := by
  by_cases hab : b ∈ nbrs a
  · rw [if_pos hab]
    exact count_links_add hg.nodup hg.symm hg.irrefl hnodup hab (hall a (List.ne_nil_of_mem hab))
      (hall b (List.ne_nil_of_mem (hg.symm a b hab)))
  · rw [if_neg hab, count_links hg.nodup hnodup, count_links hg.nodup hnodup,
      if_neg fun h => hab h.1, if_neg fun h => hab (hg.symm b a h.1)]

end JoinOrder
