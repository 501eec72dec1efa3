import MltByteps.Lib.Lists
import Mathlib.Data.List.Nodup
import Mathlib.Data.List.Perm.Basic

/-! Dictionaries as association lists, the entries in the order in which they were set. -/

abbrev Dict (κ β : Type) := List (κ × β)

namespace Dict

variable {κ β : Type} [DecidableEq κ]

def get? (d : Dict κ β) (k : κ) : Option β := d.lookup k

def set (d : Dict κ β) (k : κ) (v : β) : Dict κ β := d.filter (fun x => x.1 ≠ k) ++ [(k, v)]

def erase (d : Dict κ β) (k : κ) : Dict κ β := d.filter fun x => x.1 ≠ k

def keys (d : Dict κ β) : List κ := d.map Prod.fst

variable {d d' : Dict κ β} {k : κ} {v : β}

theorem get?_cons (x : κ × β) (d : Dict κ β) (k : κ) :
    get? (x :: d) k = if k = x.1 then some x.2 else d.get? k := by
  rw [get?, List.lookup_cons]
  by_cases h : k = x.1
  · rw [h, beq_self_eq_true, if_pos rfl]
  · rw [beq_false_of_ne h, if_neg h]
    rfl

theorem get?_erase (d : Dict κ β) (k k' : κ) :
    (d.erase k).get? k' = if k' = k then none else d.get? k' := by
  induction d with
  | nil => exact (ite_self none).symm
  | cons x d ih =>
    rw [erase] at ih
    rw [erase, List.filter_cons, get?_cons]
    by_cases hx : x.1 = k
    · rw [if_neg (by simpa using hx), ih]
      by_cases hk : k' = k
      · rw [if_pos hk, if_pos hk]
      · rw [if_neg hk, if_neg hk, if_neg (hx ▸ hk)]
    · rw [if_pos (by simpa using hx), get?_cons, ih]
      by_cases hk : k' = x.1
      · rw [if_pos hk, if_neg (hk ▸ hx), if_pos hk]
      · rw [if_neg hk, if_neg hk]

theorem get?_set (d : Dict κ β) (k k' : κ) (v : β) :
    (d.set k v).get? k' = if k' = k then some v else d.get? k' := by
  have hcut := get?_erase d k k'
  rw [get?, erase] at hcut
  rw [get?, set, List.lookup_append, hcut, List.lookup_cons]
  by_cases hk : k' = k
  · rw [if_pos hk, if_pos hk, hk, beq_self_eq_true]
    rfl
  · rw [if_neg hk, if_neg hk, beq_false_of_ne hk]
    exact Option.or_none

theorem forall_get?_set {P : κ → β → Prop} (h : ∀ k' v', d.get? k' = some v' → P k' v')
    (hk : P k v) (k' : κ) (v' : β) (hget : (d.set k v).get? k' = some v') : P k' v' := by
  rw [get?_set] at hget
  split_ifs at hget with heq
  · cases hget
    exact heq ▸ hk
  · exact h k' v' hget

theorem get?_foldl_erase (d : Dict κ β) (ks : List κ) (k : κ) :
    (ks.foldl erase d).get? k = if k ∈ ks then none else d.get? k := by
  induction ks generalizing d with
  | nil => exact (if_neg List.not_mem_nil).symm
  | cons k' ks ih =>
    rw [List.foldl_cons, ih, get?_erase]
    by_cases hk : k = k' <;> simp [hk]

theorem eq_nil_of_get? (h : ∀ k, d.get? k = none) : d = [] := by
  cases d with
  | nil => rfl
  | cons x d =>
    have hx := h x.1
    rw [get?_cons, if_pos rfl] at hx
    cases hx

theorem get?_eq_some_iff (h : d.keys.Nodup) : d.get? k = some v ↔ (k, v) ∈ d := by
  induction d with
  | nil => exact iff_of_false (fun hn => nomatch hn) List.not_mem_nil
  | cons x d ih =>
    obtain ⟨hx, hd⟩ := List.nodup_cons.mp h
    rw [get?_cons, List.mem_cons]
    by_cases hk : k = x.1
    · have hnot : (k, v) ∉ d := fun hm => hx (hk ▸ List.mem_map_of_mem hm)
      rw [if_pos hk, or_iff_left hnot, Prod.ext_iff, and_iff_right hk, Option.some.injEq, eq_comm]
    · rw [if_neg hk]
      refine (ih hd).trans ⟨.inr, fun hm => hm.resolve_left fun he => hk (congrArg Prod.fst he)⟩

theorem isSome_get?_iff (h : d.keys.Nodup) : (d.get? k).isSome ↔ k ∈ d.keys := by
  rw [Option.isSome_iff_exists]
  simp only [get?_eq_some_iff h, keys, List.mem_map]
  exact ⟨fun ⟨v, hv⟩ => ⟨(k, v), hv, rfl⟩, fun ⟨x, hx, hk⟩ => ⟨x.2, hk ▸ hx⟩⟩

theorem set_eq_of_notMem (h : k ∉ d.keys) : d.set k v = d ++ [(k, v)] := by
  rw [set, List.filter_eq_self.mpr]
  intro x hx
  exact decide_eq_true fun he => h (he ▸ List.mem_map_of_mem hx)

theorem foldlM_set {ε α : Type} {F : Dict κ β → α → Except ε (Dict κ β)} {items : List α}
    {g : α → κ × β} (hF : ∀ x ∈ items, ∀ d, F d x = .ok (d.set (g x).1 (g x).2))
    (hkeys : (d.keys ++ items.map fun x => (g x).1).Nodup) :
    items.foldlM F d = .ok (d ++ items.map g) := by
  induction items generalizing d with
  | nil => rw [List.map_nil, List.append_nil]; rfl
  | cons x items ih =>
    have hnot : (g x).1 ∉ d.keys := Lists.notMem_of_nodup_append hkeys
    rw [List.foldlM_cons, hF x List.mem_cons_self, set_eq_of_notMem hnot]
    show items.foldlM F (d ++ [((g x).1, (g x).2)]) = _
    rw [ih (fun y hy => hF y (List.mem_cons_of_mem _ hy)), List.append_assoc]
    · rfl
    · simpa [keys, List.append_assoc] using hkeys

end Dict
