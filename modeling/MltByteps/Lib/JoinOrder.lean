import Mathlib.Data.List.Count
import Mathlib.Data.List.Induction
import Mathlib.Data.List.Nodup
import Mathlib.Data.List.Perm.Basic

/-! Vertices that join one after the other, each of which makes the links to those of its
neighbours that are there already. -/

namespace JoinOrder

/-! ## Which of two comes first -/

section Pairs

variable {α : Type} {joined : List α} {v a b : α}

theorem pair_sublist_concat : [b, a].Sublist (joined ++ [v]) ↔
    [b, a].Sublist joined ∨ a = v ∧ b ∈ joined := by
  constructor
  · intro h
    obtain ⟨l₁, l₂, heq, h₁, h₂⟩ := List.sublist_append_iff.mp h
    rcases List.sublist_singleton.mp h₂ with rfl | rfl
    · rw [List.append_nil] at heq
      exact .inl (heq ▸ h₁)
    · have heq : [b] ++ [a] = l₁ ++ [v] := heq
      obtain ⟨rfl, ha⟩ := List.append_inj' heq rfl
      exact .inr ⟨List.singleton_inj.mp ha, List.singleton_sublist.mp h₁⟩
  · rintro (h | ⟨rfl, hb⟩)
    · exact h.trans (List.sublist_append_left _ _)
    · exact (List.singleton_sublist.mpr hb).append (List.Sublist.refl [a])

theorem not_sublist_swap (hnodup : joined.Nodup) (h : [a, b].Sublist joined) :
    ¬[b, a].Sublist joined := by
  induction joined using List.reverseRecOn with
  | nil => exact absurd (h.subset List.mem_cons_self) List.not_mem_nil
  | append_singleton joined v ih =>
    obtain ⟨hjoined, -, hdisj⟩ := List.nodup_append.mp hnodup
    have hv : v ∉ joined := fun h => hdisj v h v (List.mem_singleton_self v) rfl
    rw [pair_sublist_concat] at h ⊢
    rintro (h' | ⟨rfl, hb⟩)
    · rcases h with h | ⟨rfl, -⟩
      · exact ih hjoined h h'
      · exact hv (h'.subset List.mem_cons_self)
    · rcases h with h | ⟨rfl, ha⟩
      · exact hv (h.subset List.mem_cons_self)
      · exact hv ha

theorem pair_sublist_or (hne : a ≠ b) (ha : a ∈ joined) (hb : b ∈ joined) :
    [a, b].Sublist joined ∨ [b, a].Sublist joined := by
  obtain ⟨s, t, rfl⟩ := List.append_of_mem ha
  rcases List.mem_append.mp hb with hs | ht
  · exact .inr ((List.singleton_sublist.mpr hs).append (List.singleton_sublist.mpr
      List.mem_cons_self))
  · refine .inl (List.Sublist.trans ?_ (List.sublist_append_right s _))
    exact (List.singleton_sublist.mpr
      ((List.mem_cons.mp ht).resolve_left hne.symm)).cons_cons a

end Pairs

/-! ## Links -/

variable {α : Type} [DecidableEq α] (nbrs : α → List α)

def remaining (joined : List α) (r : α) : List α := (nbrs r).filter fun b => b ∉ joined

def present (joined : List α) (r : α) : List α := (nbrs r).filter fun b => b ∈ joined

/-- The links that vertices make when they join after `earlier`. -/
def linksFrom : List α → List α → List (α × α)
  | _, [] => []
  | earlier, v :: vs => (present nbrs earlier v).map (Prod.mk v) ++ linksFrom (earlier ++ [v]) vs

def links (joined : List α) : List (α × α) := linksFrom nbrs [] joined

variable {nbrs} {joined : List α} {v r a b : α}

theorem length_present_add_remaining (joined : List α) (r : α) :
    (present nbrs joined r).length + (remaining nbrs joined r).length = (nbrs r).length := by
  rw [present, remaining]
  simpa using (List.length_eq_length_filter_add (l := nbrs r) fun b => decide (b ∈ joined)).symm

theorem mem_remaining : b ∈ remaining nbrs joined r ↔ b ∈ nbrs r ∧ b ∉ joined := by
  simp [remaining]

theorem mem_present : b ∈ present nbrs joined r ↔ b ∈ nbrs r ∧ b ∈ joined := by
  simp [present]

theorem nodup_remaining (hnodup : (nbrs r).Nodup) : (remaining nbrs joined r).Nodup :=
  hnodup.filter _

theorem nodup_present (hnodup : (nbrs r).Nodup) : (present nbrs joined r).Nodup :=
  hnodup.filter _

theorem length_remaining_join (hnodup : (nbrs r).Nodup) (hv : v ∉ joined) :
    (remaining nbrs joined r).length =
      (remaining nbrs (joined ++ [v]) r).length + if v ∈ nbrs r then 1 else 0 := by
  have hsplit : remaining nbrs (joined ++ [v]) r = (remaining nbrs joined r).erase v := by
    rw [remaining, remaining, (hnodup.filter _).erase_eq_filter, List.filter_filter]
    refine List.filter_congr fun b _ => ?_
    by_cases hb : b = v <;> simp [hb]
  rw [hsplit, List.length_erase]
  by_cases hmem : v ∈ nbrs r
  · have hin : v ∈ remaining nbrs joined r := mem_remaining.mpr ⟨hmem, hv⟩
    have := List.length_pos_of_mem hin
    rw [if_pos hmem, if_pos hin]
    omega
  · have hout : v ∉ remaining nbrs joined r := fun h => hmem (mem_remaining.mp h).1
    rw [if_neg hmem, if_neg hout, Nat.add_zero]

theorem linksFrom_append (earlier xs ys : List α) : linksFrom nbrs earlier (xs ++ ys) =
    linksFrom nbrs earlier xs ++ linksFrom nbrs (earlier ++ xs) ys := by
  induction xs generalizing earlier with
  | nil => rw [List.nil_append, List.append_nil]; rfl
  | cons v xs ih =>
    rw [List.cons_append, linksFrom, ih, linksFrom, List.append_assoc, List.append_assoc]
    rfl

theorem links_join (joined : List α) (v : α) :
    links nbrs (joined ++ [v]) = links nbrs joined ++ (present nbrs joined v).map (Prod.mk v) := by
  rw [links, linksFrom_append, List.nil_append, linksFrom, linksFrom, List.append_nil]
  rfl

theorem count_links (hnbrs : ∀ r, (nbrs r).Nodup) (hnodup : joined.Nodup) :
    (links nbrs joined).count (a, b) = if b ∈ nbrs a ∧ [b, a].Sublist joined then 1 else 0 := by
  induction joined using List.reverseRecOn with
  | nil => simp [links, linksFrom]
  | append_singleton joined v ih =>
    obtain ⟨hjoined, -, hdisj⟩ := List.nodup_append.mp hnodup
    have hv : v ∉ joined := fun h => hdisj v h v (List.mem_singleton_self v) rfl
    rw [links_join, List.count_append, ih hjoined]
    simp only [pair_sublist_concat]
    by_cases hav : a = v
    · subst hav
      have hout : ¬[b, a].Sublist joined := fun h => hv (h.subset (by simp))
      rw [List.count_map_of_injective _ _ (fun _ _ h => congrArg Prod.snd h),
        (nodup_present (hnbrs a)).count]
      simp [hout, mem_present]
    · have hother : (a, b) ∉ (present nbrs joined v).map (Prod.mk v) := by
        rintro h
        obtain ⟨c, -, hc⟩ := List.mem_map.mp h
        exact hav (congrArg Prod.fst hc).symm
      rw [List.count_eq_zero_of_not_mem hother]
      simp [hav]

theorem count_links_add (hnbrs : ∀ r, (nbrs r).Nodup) (hsymm : ∀ a b, b ∈ nbrs a → a ∈ nbrs b)
    (hirrefl : ∀ a, a ∉ nbrs a) (hnodup : joined.Nodup) (hab : b ∈ nbrs a) (ha : a ∈ joined)
    (hb : b ∈ joined) :
    (links nbrs joined).count (a, b) + (links nbrs joined).count (b, a) = 1 := by
  have hne : a ≠ b := fun h => hirrefl a (h ▸ hab)
  have hba := hsymm a b hab
  rw [count_links hnbrs hnodup, count_links hnbrs hnodup]
  rcases pair_sublist_or hne ha hb with h | h
  · rw [if_neg fun h' => not_sublist_swap hnodup h h'.2, if_pos ⟨hba, h⟩]
  · rw [if_pos ⟨hab, h⟩, if_neg fun h' => not_sublist_swap hnodup h h'.2]

end JoinOrder
