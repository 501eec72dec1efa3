import Mathlib.Data.List.Nodup
import Mathlib.Data.List.Perm.Basic
import Mathlib.Data.Nat.Log
import Mathlib.Tactic.Ring

/-! Trees on the first `n` numbers in which the children of `r` are `2r + 1` and `2r + 2`, as in a
binary heap. -/

namespace HeapTree

def parent (x : ℕ) : ℕ := (x + 1) / 2 - 1

def children (n r : ℕ) : List ℕ := [2 * r + 1, 2 * r + 2].filter (· < n)

/-- The nodes below `r` down to a depth, each before its children. -/
def subtree (n : ℕ) : ℕ → ℕ → List ℕ
  | 0, _ => []
  | depth + 1, r => r :: (children n r).flatMap (subtree n depth)

def Below (r x : ℕ) : Prop := ∃ k, (x + 1) / 2 ^ k = r + 1

variable {n r x y depth : ℕ}

theorem parent_lt (hx : x ≠ 0) : parent x < x := by
  unfold parent
  omega

theorem mem_children : x ∈ children n r ↔ x < n ∧ x ≠ 0 ∧ parent x = r := by
  simp only [children, List.mem_filter, List.mem_cons, List.not_mem_nil, or_false,
    decide_eq_true_eq, parent]
  omega

theorem nodup_children (n r : ℕ) : (children n r).Nodup := by
  refine List.Nodup.filter _ ?_
  simp

theorem below_iff : Below r x ↔ x = r ∨ Below (2 * r + 1) x ∨ Below (2 * r + 2) x := by
  have hstep : ∀ k, (x + 1) / 2 ^ (k + 1) = r + 1 ↔
      (x + 1) / 2 ^ k = 2 * r + 1 + 1 ∨ (x + 1) / 2 ^ k = 2 * r + 2 + 1 := by
    intro k
    rw [pow_succ, ← Nat.div_div_eq_div_mul]
    omega
  constructor
  · rintro ⟨_ | k, hk⟩
    · exact .inl (by simpa using hk)
    · rcases (hstep k).mp hk with hk | hk
      · exact .inr (.inl ⟨k, hk⟩)
      · exact .inr (.inr ⟨k, hk⟩)
  · rintro (rfl | ⟨k, hk⟩ | ⟨k, hk⟩)
    · exact ⟨0, by simp⟩
    · exact ⟨k + 1, (hstep k).mpr (.inl hk)⟩
    · exact ⟨k + 1, (hstep k).mpr (.inr hk)⟩

theorem Below.le (h : Below r x) : r ≤ x := by
  obtain ⟨k, hk⟩ := h
  have hle := Nat.div_le_self (x + 1) (2 ^ k)
  omega

theorem Below.total (h : Below r x) (h' : Below y x) : Below r y ∨ Below y r := by
  obtain ⟨k, hk⟩ := h
  obtain ⟨j, hj⟩ := h'
  rcases Nat.le_total k j with hkj | hjk
  · refine .inr ⟨j - k, ?_⟩
    rw [← hk, ← hj, Nat.div_div_eq_div_mul, ← pow_add, Nat.add_sub_cancel' hkj]
  · refine .inl ⟨k - j, ?_⟩
    rw [← hk, ← hj, Nat.div_div_eq_div_mul, ← pow_add, Nat.add_sub_cancel' hjk]

theorem below_zero (x : ℕ) : Below 0 x := by
  refine ⟨Nat.log 2 (x + 1), ?_⟩
  have hle := Nat.pow_log_le_self 2 (Nat.succ_ne_zero x)
  have hlt := Nat.lt_pow_succ_log_self (Nat.one_lt_two) (x + 1)
  rw [pow_succ] at hlt
  exact Nat.div_eq_of_lt_le (by simpa using hle) (by simpa [Nat.mul_comm] using hlt)

theorem not_below_both (h : Below (2 * r + 1) x) (h' : Below (2 * r + 2) x) : False := by
  rcases h.total h' with h | h
  · rcases below_iff.mp h with he | h | h
    · omega
    · have := h.le
      omega
    · have := h.le
      omega
  · have := h.le
    omega

theorem below_of_mem_subtree (h : x ∈ subtree n depth r) : Below r x := by
  induction depth generalizing r with
  | zero => exact absurd h List.not_mem_nil
  | succ depth ih =>
    rw [subtree, List.mem_cons, List.mem_flatMap] at h
    rcases h with rfl | ⟨v, hv, hx⟩
    · exact below_iff.mpr (.inl rfl)
    · have hbelow := ih hx
      obtain ⟨-, hv0, hvr⟩ := mem_children.mp hv
      have hor : v = 2 * r + 1 ∨ v = 2 * r + 2 := by
        unfold parent at hvr
        omega
      rcases hor with rfl | rfl
      · exact below_iff.mpr (.inr (.inl hbelow))
      · exact below_iff.mpr (.inr (.inr hbelow))

theorem nodup_subtree (n depth r : ℕ) : (subtree n depth r).Nodup := by
  induction depth generalizing r with
  | zero => exact List.nodup_nil
  | succ depth ih =>
    have hmem : ∀ v ∈ children n r, v = 2 * r + 1 ∨ v = 2 * r + 2 := fun v hv => by
      simpa using (List.mem_filter.mp hv).1
    refine List.nodup_cons.mpr ⟨fun h => ?_, List.nodup_flatMap.mpr ⟨fun v _ => ih v, ?_⟩⟩
    · obtain ⟨v, hv, hr⟩ := List.mem_flatMap.mp h
      have hle := (below_of_mem_subtree hr).le
      rcases hmem v hv with rfl | rfl <;> omega
    · refine List.Pairwise.filter _ (List.pairwise_pair.mpr fun x hx hx' => ?_)
      exact not_below_both (below_of_mem_subtree hx) (below_of_mem_subtree hx')

theorem mem_subtree (hr : r < n) (hdepth : n ≤ r + depth) :
    x ∈ subtree n depth r ↔ x < n ∧ Below r x := by
  induction depth generalizing r with
  | zero => omega
  | succ depth ih =>
    -- A child that is not a node has nothing below it.
    have hchild : ∀ v, r < v → (v < n ∧ x ∈ subtree n depth v ↔ x < n ∧ Below v x) := by
      intro v hrv
      constructor
      · rintro ⟨hv, hx⟩
        exact (ih hv (by omega)).mp hx
      · rintro ⟨hx, hbelow⟩
        have hle := hbelow.le
        exact ⟨by omega, (ih (by omega) (by omega)).mpr ⟨hx, hbelow⟩⟩
    have hleft := hchild (2 * r + 1) (by omega)
    have hright := hchild (2 * r + 2) (by omega)
    rw [below_iff, subtree, List.mem_cons, List.mem_flatMap]
    simp only [children, List.mem_filter, List.mem_cons, List.not_mem_nil, or_false,
      decide_eq_true_eq]
    constructor
    · rintro (rfl | ⟨v, ⟨rfl | rfl, hv⟩, hx⟩)
      · exact ⟨hr, .inl rfl⟩
      · exact ⟨(hleft.mp ⟨hv, hx⟩).1, .inr (.inl (hleft.mp ⟨hv, hx⟩).2)⟩
      · exact ⟨(hright.mp ⟨hv, hx⟩).1, .inr (.inr (hright.mp ⟨hv, hx⟩).2)⟩
    · rintro ⟨hx, rfl | hbelow | hbelow⟩
      · exact .inl rfl
      · obtain ⟨hv, hmem⟩ := hleft.mpr ⟨hx, hbelow⟩
        exact .inr ⟨_, ⟨.inl rfl, hv⟩, hmem⟩
      · obtain ⟨hv, hmem⟩ := hright.mpr ⟨hx, hbelow⟩
        exact .inr ⟨_, ⟨.inr rfl, hv⟩, hmem⟩

theorem subtree_perm_range (hn : 0 < n) : (subtree n n 0).Perm (List.range n) := by
  refine (List.perm_ext_iff_of_nodup (nodup_subtree n n 0) List.nodup_range).mpr fun x => ?_
  rw [mem_subtree hn (by omega), List.mem_range, and_iff_left (below_zero x)]

end HeapTree
