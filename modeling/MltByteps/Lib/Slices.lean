import Mathlib.Data.List.Pairwise
import Mathlib.Data.List.Perm.Subperm
import Mathlib.Data.List.Sort

/-! Cutting a sorted list at bounds, and sorting the pieces back together. -/

namespace Slices

variable {α β : Type} [LinearOrder α]

/-- The first position of a sorted list whose element is not below `x`. -/
def lowerBound (l : List α) (x : α) : ℕ := (l.takeWhile (· < x)).length

/-- The pieces of a list that end at the given bounds of the key `f`. -/
def cutAt (f : β → α) : List α → List β → List (List β)
  | [], _ => []
  | e :: ends, l => l.takeWhile (f · < e) :: cutAt f ends (l.dropWhile (f · < e))

def offsets (pos : ℕ) : List (List β) → List ℕ
  | [] => [pos]
  | p :: pieces => pos :: offsets (pos + p.length) pieces

section LowerBound

theorem takeWhile_append_of_bound {f : β → α} {pre post : List β} {x : α}
    (hpre : ∀ b ∈ pre, f b < x) (hpost : ∀ b ∈ post, x ≤ f b) :
    (pre ++ post).takeWhile (f · < x) = pre := by
  rw [List.takeWhile_append_of_pos (by simpa using hpre)]
  cases post with
  | nil => simp
  | cons b post =>
    rw [List.takeWhile_cons_of_neg (by simpa using hpost b List.mem_cons_self), List.append_nil]

theorem lowerBound_append {pre post : List α} {x : α} (hpre : ∀ a ∈ pre, a < x)
    (hpost : ∀ a ∈ post, x ≤ a) : lowerBound (pre ++ post) x = pre.length :=
  congrArg List.length (takeWhile_append_of_bound (f := id) hpre hpost)

theorem lowerBound_map (f : β → α) (l : List β) (x : α) :
    lowerBound (l.map f) x = (l.takeWhile (f · < x)).length := by
  rw [lowerBound, List.takeWhile_map, List.length_map]
  rfl

theorem drop_takeWhile_length (p : β → Bool) (l : List β) :
    l.drop (l.takeWhile p).length = l.dropWhile p := by
  have h := @List.drop_left _ (l.takeWhile p) (l.dropWhile p)
  rwa [List.takeWhile_append_dropWhile] at h

end LowerBound

section Cut

variable {f : β → α}

theorem flatten_cutAt {ends : List α} {l : List β} {e : α} (hlast : ends.getLast? = some e)
    (hl : ∀ b ∈ l, f b < e) : (cutAt f ends l).flatten = l := by
  induction ends generalizing l with
  | nil => cases hlast
  | cons a ends ih =>
    rw [cutAt, List.flatten_cons]
    cases ends with
    | nil =>
      obtain rfl : a = e := by simpa using hlast
      rw [cutAt, List.flatten_nil]
      have h := takeWhile_append_of_bound hl (fun b (hb : b ∈ []) => nomatch hb)
      rw [List.append_nil] at h
      rw [h, List.append_nil]
    | cons a' ends =>
      rw [ih (by simpa using hlast) fun b hb => hl b ((List.dropWhile_sublist _).mem hb),
        List.takeWhile_append_dropWhile]

theorem exists_flatten_cutAt_append (ends : List α) (l : List β) :
    ∃ rest, (cutAt f ends l).flatten ++ rest = l := by
  induction ends generalizing l with
  | nil => exact ⟨l, rfl⟩
  | cons e ends ih =>
    obtain ⟨rest, hrest⟩ := ih (l.dropWhile (f · < e))
    refine ⟨rest, ?_⟩
    rw [cutAt, List.flatten_cons, List.append_assoc, hrest, List.takeWhile_append_dropWhile]

theorem takeWhile_eq_filter {l : List β} (hl : l.Pairwise (f · < f ·)) (e : α) :
    l.takeWhile (f · < e) = l.filter (f · < e) ∧
      l.dropWhile (f · < e) = l.filter (e ≤ f ·) := by
  induction l with
  | nil => exact ⟨rfl, rfl⟩
  | cons b l ih =>
    obtain ⟨hb, hl⟩ := List.pairwise_cons.mp hl
    by_cases h : f b < e
    · simp only [List.takeWhile_cons, List.dropWhile_cons, List.filter_cons, h, decide_true,
        if_true, not_le.mpr h, decide_false, Bool.false_eq_true, if_false, ih hl, and_self]
    · have hge : ∀ b' ∈ l, e ≤ f b' := fun b' hb' => (not_lt.mp h).trans (hb b' hb').le
      have hlt : l.filter (f · < e) = [] :=
        List.filter_eq_nil_iff.mpr fun b' hb' => by simpa using hge b' hb'
      have hall : l.filter (e ≤ f ·) = l :=
        List.filter_eq_self.mpr fun b' hb' => by simpa using hge b' hb'
      simp only [List.takeWhile_cons, List.dropWhile_cons, List.filter_cons, h, decide_false,
        Bool.false_eq_true, if_false, not_lt.mp h, decide_true, if_true, hlt, hall, and_self]

theorem cutAt_eq_filter {l : List β} (hl : l.Pairwise (f · < f ·)) {lo : α} {ends : List α}
    (hlo : ∀ b ∈ l, lo ≤ f b) (hends : (lo :: ends).Pairwise (· ≤ ·)) :
    cutAt f ends l =
      ((lo :: ends).zip ends).map fun r => l.filter fun b => r.1 ≤ f b ∧ f b < r.2 := by
  induction ends generalizing l lo with
  | nil => rfl
  | cons e ends ih =>
    obtain ⟨htake, hdrop⟩ := takeWhile_eq_filter hl e
    obtain ⟨hfirst, hends⟩ := List.pairwise_cons.mp hends
    rw [cutAt, htake, hdrop, List.zip_cons_cons, List.map_cons]
    congr 1
    · exact List.filter_congr fun b hb => by simp [hlo b hb]
    · rw [ih (hl.filter _) (fun b hb => by simpa using (List.mem_filter.mp hb).2) hends]
      refine List.map_congr_left fun r hr => ?_
      have hle : e ≤ r.1 := by
        rcases List.mem_cons.mp (List.of_mem_zip hr).1 with h | h
        · exact h.ge
        · exact (List.pairwise_cons.mp hends).1 _ h
      rw [List.filter_filter]
      exact List.filter_congr fun b hb => by
        simp only [Bool.decide_and, Bool.and_assoc]
        by_cases h : r.1 ≤ f b
        · simp [h, hle.trans h]
        · simp [h]

end Cut

theorem insertionSort_eq_of_perm {f : β → α} {l l' : List β} (hl : l.Pairwise (f · < f ·))
    (hperm : l'.Perm l) : l'.insertionSort (fun a b => f a ≤ f b) = l := by
  have : Std.Total fun a b : β => f a ≤ f b := ⟨fun a b => le_total (f a) (f b)⟩
  have : IsTrans β fun a b => f a ≤ f b := ⟨fun a b c => le_trans⟩
  have : Std.Symm fun a b : β => f a ≠ f b := ⟨fun a b h => h.symm⟩
  have hsort := (List.perm_insertionSort (fun a b => f a ≤ f b) l').trans hperm
  refine hsort.eq_of_pairwise (fun a b ha hb hab hba => ?_) (List.pairwise_insertionSort _ _)
    (hl.imp le_of_lt)
  by_contra hne
  exact (hl.imp ne_of_lt).forall (hsort.mem_iff.mp ha) hb hne (le_antisymm hab hba)

theorem length_le_of_pairwise_lt {l : List ℕ} {n : ℕ} (hl : l.Pairwise (· < ·))
    (hlt : ∀ k ∈ l, k < n) : l.length ≤ n := by
  have hsub := List.Nodup.subperm (hl.imp ne_of_lt) fun k hk => List.mem_range.mpr (hlt k hk)
  simpa using hsub.length_le

end Slices
