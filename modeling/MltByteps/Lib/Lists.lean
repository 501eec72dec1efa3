import Mathlib.Data.List.Basic
import Mathlib.Data.List.Count
import Mathlib.Data.List.Nodup

/-! Lists that lose one element, and counts in lists without duplicates. -/

namespace Lists

variable {α : Type}

section Erase

variable {l : List α} {i : ℕ} {x : α}

theorem split_of_getElem? (h : l[i]? = some x) : l = l.take i ++ x :: l.drop (i + 1) := by
  obtain ⟨hi, rfl⟩ := List.getElem?_eq_some_iff.mp h
  rw [List.getElem_cons_drop, List.take_append_drop]

theorem mem_eraseIdx_or {y : α} (h : l[i]? = some x) (hy : y ∈ l) : y ∈ l.eraseIdx i ∨ y = x := by
  rw [split_of_getElem? h, List.mem_append, List.mem_cons] at hy
  rw [List.eraseIdx_eq_take_drop_succ, List.mem_append]
  tauto

theorem filter_eraseIdx_of_neg {p : α → Bool} (h : l[i]? = some x) (hx : p x = false) :
    (l.eraseIdx i).filter p = l.filter p := by
  conv_rhs => rw [split_of_getElem? h]
  rw [List.eraseIdx_eq_take_drop_succ, List.filter_append, List.filter_append,
    List.filter_cons_of_neg (by simp [hx])]

theorem filter_split {p : α → Bool} (h : l[i]? = some x) (hx : p x = true) :
    l.filter p = (l.take i).filter p ++ x :: (l.drop (i + 1)).filter p ∧
      (l.eraseIdx i).filter p = (l.take i).filter p ++ (l.drop (i + 1)).filter p := by
  constructor
  · conv_lhs => rw [split_of_getElem? h]
    rw [List.filter_append, List.filter_cons_of_pos hx]
  · rw [List.eraseIdx_eq_take_drop_succ, List.filter_append]

theorem filter_eraseIdx_of_singleton {p : α → Bool} {y : α} (h : l[i]? = some x)
    (hx : p x = true) (hl : l.filter p = [y]) : y = x ∧ (l.eraseIdx i).filter p = [] := by
  obtain ⟨hsplit, herase⟩ := filter_split h hx
  rw [hsplit, List.append_eq_singleton_iff] at hl
  obtain ⟨hpre, hpost⟩ := hl.resolve_right (by simp)
  obtain ⟨rfl, hnil⟩ := List.cons_eq_cons.mp hpost
  exact ⟨rfl, by rw [herase, hpre, hnil]; rfl⟩

end Erase

section Count

variable [DecidableEq α] {l : List α} {u : α} {p q : α → Bool}

theorem countP_erase_of_neg (hu : u ∈ l) (hp : p u = false) :
    (l.erase u).countP p = l.countP p := by
  rw [(List.perm_cons_erase hu).countP_eq p, List.countP_cons_of_neg (by simp [hp])]

theorem countP_eq_add_one (hl : l.Nodup) (hu : u ∈ l) (hp : p u = false) (hq : q u = true)
    (hne : ∀ w ∈ l, w ≠ u → q w = p w) : l.countP q = l.countP p + 1 := by
  have hrest : (l.erase u).countP q = (l.erase u).countP p := by
    refine List.countP_congr fun w hw => ?_
    obtain ⟨hwu, hwl⟩ := hl.mem_erase_iff.mp hw
    rw [hne w hwl hwu]
  rw [(List.perm_cons_erase hu).countP_eq q, List.countP_cons_of_pos hq, hrest,
    countP_erase_of_neg hu hp]

theorem forall_of_countP_add_one (hu : u ∈ l) (hp : p u = false)
    (hcount : l.countP p + 1 = l.length) {w : α} (hw : w ∈ l) (hwu : w ≠ u) : p w = true := by
  have hall : (l.erase u).countP p = (l.erase u).length := by
    have hpos := List.length_pos_of_mem hu
    rw [countP_erase_of_neg hu hp, List.length_erase_of_mem hu]
    omega
  exact List.countP_eq_length.mp hall w ((List.mem_erase_of_ne hwu).mpr hw)

end Count

theorem nodup_append_singleton {l : List α} {x : α} (hl : l.Nodup) (hx : x ∉ l) :
    (l ++ [x]).Nodup := by
  rw [← List.concat_eq_append]
  exact hl.concat hx

theorem notMem_of_nodup_append {l l' : List α} {x : α} (h : (l ++ x :: l').Nodup) : x ∉ l :=
  fun hm => (List.nodup_append.mp h).2.2 x hm x List.mem_cons_self rfl

end Lists
