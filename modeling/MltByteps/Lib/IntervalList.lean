import Mathlib.Data.List.Basic
import Mathlib.Data.List.Pairwise
import Mathlib.Data.List.Perm.Subperm
import Mathlib.Data.Set.Card
import Mathlib.Order.Basic
import Mathlib.Tactic.Ring

/-! Sorted lists of half-open intervals of naturals, separated by at least one
uncovered point. Such a list is the list of the maximal runs of the set it covers. -/

namespace IntervalList

variable {β : Type*} {lo hi : β → ℕ}

def Covers (lo hi : β → ℕ) (l : List β) (x : ℕ) : Prop := ∃ b ∈ l, lo b ≤ x ∧ x < hi b

def Separated (lo hi : β → ℕ) (l : List β) : Prop :=
  (∀ b ∈ l, lo b < hi b) ∧ l.Pairwise fun a b => hi a < lo b

/-- `[i, j)` is a maximal run of `U`. -/
def IsRun (U : ℕ → Prop) (i j : ℕ) : Prop :=
  i < j ∧ (∀ x, i ≤ x → x < j → U x) ∧ (i = 0 ∨ ¬U (i - 1)) ∧ ¬U j

noncomputable def runCount (U : ℕ → Prop) : ℕ := {r : ℕ × ℕ | IsRun U r.1 r.2}.ncard

def points (lo hi : β → ℕ) (l : List β) : List ℕ :=
  l.flatMap fun b => List.range' (lo b) (hi b - lo b)

theorem covers_append (l₁ l₂ : List β) (x : ℕ) :
    Covers lo hi (l₁ ++ l₂) x ↔ Covers lo hi l₁ x ∨ Covers lo hi l₂ x := by
  simp only [Covers, List.mem_append, or_and_right, exists_or]

theorem covers_cons (b : β) (l : List β) (x : ℕ) :
    Covers lo hi (b :: l) x ↔ (lo b ≤ x ∧ x < hi b) ∨ Covers lo hi l x := by
  simp only [Covers, List.mem_cons, or_and_right, exists_or, exists_eq_left]

@[simp] theorem not_covers_nil (x : ℕ) : ¬Covers lo hi ([] : List β) x := by
  simp [Covers]

theorem separated_nil : Separated lo hi ([] : List β) := ⟨by simp, List.Pairwise.nil⟩

theorem separated_singleton {b : β} (h : lo b < hi b) : Separated lo hi [b] :=
  ⟨by simpa using h, List.pairwise_singleton _ _⟩

theorem separated_append {l₁ l₂ : List β} :
    Separated lo hi (l₁ ++ l₂) ↔ Separated lo hi l₁ ∧ Separated lo hi l₂ ∧
      ∀ a ∈ l₁, ∀ b ∈ l₂, hi a < lo b := by
  unfold Separated
  rw [List.pairwise_append]
  constructor
  · rintro ⟨hne, h₁, h₂, h₁₂⟩
    exact ⟨⟨fun b hb => hne b (List.mem_append_left _ hb), h₁⟩,
      ⟨fun b hb => hne b (List.mem_append_right _ hb), h₂⟩, h₁₂⟩
  · rintro ⟨⟨hne₁, h₁⟩, ⟨hne₂, h₂⟩, h₁₂⟩
    refine ⟨fun b hb => ?_, h₁, h₂, h₁₂⟩
    rcases List.mem_append.mp hb with hb | hb
    · exact hne₁ b hb
    · exact hne₂ b hb

theorem Separated.around {pre post : List β} {b : β} (h : Separated lo hi (pre ++ b :: post)) :
    (∀ a ∈ pre, lo a < hi a ∧ hi a < lo b) ∧ ∀ c ∈ post, hi b < lo c := by
  obtain ⟨hpre, ⟨-, hbp⟩, hcross⟩ := separated_append.mp h
  exact ⟨fun a ha => ⟨hpre.1 a ha, hcross a ha b (List.mem_cons_self ..)⟩,
    (List.pairwise_cons.mp hbp).1⟩

theorem Separated.replace {pre mid post : List β} {b : β}
    (h : Separated lo hi (pre ++ b :: post)) (hm : Separated lo hi mid)
    (hsub : ∀ c ∈ mid, lo b ≤ lo c ∧ hi c ≤ hi b) : Separated lo hi (pre ++ (mid ++ post)) := by
  obtain ⟨hpre, ⟨hne, hbp⟩, hcross⟩ := separated_append.mp h
  have hpost : Separated lo hi post :=
    ⟨fun c hc => hne c (List.mem_cons_of_mem _ hc), (List.pairwise_cons.mp hbp).2⟩
  refine separated_append.mpr ⟨hpre, separated_append.mpr ⟨hm, hpost, ?_⟩, ?_⟩
  · intro c hc d hd
    exact (hsub c hc).2.trans_lt (h.around.2 d hd)
  · intro a ha c hc
    rcases List.mem_append.mp hc with hc | hc
    · exact (hcross a ha b (List.mem_cons_self ..)).trans_le (hsub c hc).1
    · exact hcross a ha c (List.mem_cons_of_mem _ hc)

theorem Separated.takeWhile_eq {pre post : List β} {b : β} {x : ℕ}
    (h : Separated lo hi (pre ++ b :: post)) (hlo : lo b ≤ x) (hhi : x < hi b) :
    (pre ++ b :: post).takeWhile (fun c => lo c ≤ x) = pre ++ [b] ∧
      (pre ++ b :: post).dropWhile (fun c => lo c ≤ x) = post := by
  obtain ⟨hpre, hafter⟩ := h.around
  have hleft : ∀ c ∈ pre ++ [b], decide (lo c ≤ x) = true := by
    intro c hc
    rcases List.mem_append.mp hc with hc | hc
    · have := hpre c hc
      exact decide_eq_true (by omega)
    · rw [List.mem_singleton.mp hc]
      exact decide_eq_true hlo
  have hright : ∀ c ∈ post, ¬ lo c ≤ x := by
    intro c hc
    have := hafter c hc
    omega
  have hpost : post.takeWhile (fun c => decide (lo c ≤ x)) = [] ∧
      post.dropWhile (fun c => decide (lo c ≤ x)) = post := by
    cases post with
    | nil => exact ⟨rfl, rfl⟩
    | cons c post =>
      have hc : ¬ lo c ≤ x := hright c (List.mem_cons_self ..)
      simp [hc]
  rw [show pre ++ b :: post = (pre ++ [b]) ++ post by simp,
    List.takeWhile_append_of_pos hleft, List.dropWhile_append_of_pos hleft, hpost.1, hpost.2]
  exact ⟨List.append_nil _, rfl⟩

theorem Separated.covers_iff_getLast {l : List β} (h : Separated lo hi l) (x : ℕ) :
    Covers lo hi l x ↔
      ∃ b, (l.takeWhile fun c => lo c ≤ x).getLast? = some b ∧ lo b ≤ x ∧ x < hi b := by
  constructor
  · rintro ⟨b, hb, hlo, hhi⟩
    obtain ⟨pre, post, rfl⟩ := List.append_of_mem hb
    refine ⟨b, ?_, hlo, hhi⟩
    rw [(h.takeWhile_eq hlo hhi).1, List.getLast?_append, List.getLast?_singleton, Option.some_or]
  · rintro ⟨b, hb, hlo, hhi⟩
    have hmem : b ∈ l.takeWhile fun c => lo c ≤ x := List.mem_of_getLast? hb
    exact ⟨b, (List.takeWhile_sublist _).mem hmem, hlo, hhi⟩

theorem Separated.mem_disjoint {l : List β} (h : Separated lo hi l) {a b : β} (ha : a ∈ l)
    (hb : b ∈ l) {x : ℕ} (hax : lo a ≤ x ∧ x ≤ hi a) (hbx : lo b ≤ x ∧ x < hi b) : a = b := by
  obtain ⟨pre, post, rfl⟩ := List.append_of_mem hb
  obtain ⟨hpre, hpost⟩ := h.around
  rcases List.mem_append.mp ha with ha | ha
  · have := hpre a ha
    omega
  · rcases List.mem_cons.mp ha with rfl | ha
    · rfl
    · have := hpost a ha
      omega

theorem Separated.isRun_of_mem {l : List β} (h : Separated lo hi l) {b : β} (hb : b ∈ l) :
    IsRun (Covers lo hi l) (lo b) (hi b) := by
  have hne := h.1 b hb
  refine ⟨hne, fun x hlo hhi => ⟨b, hb, hlo, hhi⟩, ?_, ?_⟩
  · rcases Nat.eq_zero_or_pos (lo b) with hz | hpos
    · exact Or.inl hz
    · right
      rintro ⟨a, ha, hlo, hhi⟩
      have hab : a = b := h.mem_disjoint ha hb (x := lo b) ⟨by omega, by omega⟩ ⟨le_rfl, hne⟩
      subst hab
      omega
  · rintro ⟨a, ha, hlo, hhi⟩
    have hab : b = a := h.mem_disjoint hb ha (x := hi b) ⟨by omega, le_rfl⟩ ⟨hlo, hhi⟩
    subst hab
    omega

theorem Separated.exists_mem_of_isRun {l : List β} (h : Separated lo hi l) {i j : ℕ}
    (hr : IsRun (Covers lo hi l) i j) : ∃ b ∈ l, lo b = i ∧ hi b = j := by
  obtain ⟨hij, hin, hleft, hright⟩ := hr
  obtain ⟨b, hb, hlo, hhi⟩ := hin i le_rfl hij
  have hbrun := h.isRun_of_mem hb
  refine ⟨b, hb, ?_, ?_⟩
  · rcases hleft with hz | hleft
    · omega
    · by_contra hne
      exact hleft ⟨b, hb, by omega, by omega⟩
  · rcases lt_trichotomy (hi b) j with hlt | heq | hgt
    · exact absurd (hin (hi b) (by omega) hlt) hbrun.2.2.2
    · exact heq
    · exact absurd ⟨b, hb, by omega, hgt⟩ hright

theorem Separated.length_eq_runCount {l : List β} (h : Separated lo hi l) {U : ℕ → Prop}
    (hU : ∀ x, Covers lo hi l x ↔ U x) : l.length = runCount U := by
  obtain rfl : Covers lo hi l = U := funext fun x => propext (hU x)
  have hnodup : (l.map fun b => (lo b, hi b)).Nodup := by
    refine List.pairwise_map.mpr (h.2.imp_of_mem fun {a b} ha _ hab heq => ?_)
    have hlt := h.1 a ha
    rw [(Prod.mk.inj heq).1] at hlt
    omega
  have hruns : {r : ℕ × ℕ | IsRun (Covers lo hi l) r.1 r.2} =
      ((l.map fun b => (lo b, hi b)).toFinset : Set (ℕ × ℕ)) := by
    ext ⟨i, j⟩
    simp only [Set.mem_ofPred_eq, List.coe_toFinset, List.mem_map, Prod.mk.injEq]
    constructor
    · exact h.exists_mem_of_isRun
    · rintro ⟨b, hb, rfl, rfl⟩
      exact h.isRun_of_mem hb
  rw [runCount, hruns, Set.ncard_coe_finset, List.toFinset_card_of_nodup hnodup, List.length_map]

theorem Separated.eq_of_covers_iff {l₁ l₂ : List β} (h₁ : Separated lo hi l₁)
    (h₂ : Separated lo hi l₂) (hinj : ∀ a b : β, lo a = lo b → hi a = hi b → a = b)
    (h : ∀ x, Covers lo hi l₁ x ↔ Covers lo hi l₂ x) : l₁ = l₂ := by
  have hcovers : Covers lo hi l₁ = Covers lo hi l₂ := funext fun x => propext (h x)
  have hsub : ∀ {l l' : List β}, Separated lo hi l → Separated lo hi l' →
      Covers lo hi l = Covers lo hi l' → ∀ b ∈ l, b ∈ l' := by
    intro l l' hl hl' heq b hb
    obtain ⟨c, hc, hlo, hhi⟩ := hl'.exists_mem_of_isRun (heq ▸ hl.isRun_of_mem hb)
    exact hinj c b hlo hhi ▸ hc
  have hlt : ∀ {l : List β}, Separated lo hi l → l.Pairwise fun a b => lo a < lo b :=
    fun hl => hl.2.imp_of_mem fun ha _ hab => (hl.1 _ ha).trans hab
  have hnodup : ∀ {l : List β}, Separated lo hi l → l.Nodup :=
    fun hl => (hlt hl).imp fun hab => by
      rintro rfl
      exact Nat.lt_irrefl _ hab
  have hperm : l₁.Perm l₂ := (List.perm_ext_iff_of_nodup (hnodup h₁) (hnodup h₂)).mpr
    fun b => ⟨hsub h₁ h₂ hcovers b, hsub h₂ h₁ hcovers.symm b⟩
  exact hperm.eq_of_pairwise (fun a b _ _ hab hba => absurd hab (Nat.lt_asymm hba))
    (hlt h₁) (hlt h₂)

theorem mem_points (l : List β) (x : ℕ) : x ∈ points lo hi l ↔ Covers lo hi l x := by
  simp only [points, List.mem_flatMap, Covers, List.mem_range'_1]
  constructor
  · rintro ⟨b, hb, h1, h2⟩
    exact ⟨b, hb, h1, by omega⟩
  · rintro ⟨b, hb, h1, h2⟩
    exact ⟨b, hb, h1, by omega⟩

theorem Separated.points_pairwise {l : List β} (h : Separated lo hi l) :
    (points lo hi l).Pairwise (· < ·) := by
  unfold points
  rw [List.pairwise_flatMap]
  refine ⟨fun b _ => List.pairwise_lt_range', h.2.imp_of_mem ?_⟩
  intro a b ha hb hab x hx y hy
  have h1 := h.1 a ha
  rw [List.mem_range'_1] at hx hy
  omega

theorem Separated.add_two_mul_length_le {l : List β} (h : Separated lo hi l) {a n : ℕ}
    (ha : a ≤ n + 1) (hlo : ∀ b ∈ l, a ≤ lo b) (hn : ∀ b ∈ l, hi b ≤ n) :
    a + 2 * l.length ≤ n + 1 := by
  induction l generalizing a with
  | nil => simpa using ha
  | cons b l ih =>
    have hb := h.1 b (List.mem_cons_self ..)
    have hfirst := hlo b (List.mem_cons_self ..)
    have hlast := hn b (List.mem_cons_self ..)
    obtain ⟨hafter, hrest⟩ := List.pairwise_cons.mp h.2
    -- behind `b` the intervals start at least one point after its end
    have := ih ⟨fun c hc => h.1 c (.tail _ hc), hrest⟩ (a := hi b + 1) (by omega)
      (fun c hc => hafter c hc) fun c hc => hn c (.tail _ hc)
    rw [List.length_cons]
    omega

theorem Separated.two_mul_length_le {l : List β} (h : Separated lo hi l) {n : ℕ}
    (hn : ∀ b ∈ l, hi b ≤ n) : 2 * l.length ≤ n + 1 := by
  simpa using h.add_two_mul_length_le (Nat.zero_le _) (fun _ _ => Nat.zero_le _) hn

theorem eq_of_pairwise_lt {l₁ l₂ : List ℕ} (h₁ : l₁.Pairwise (· < ·)) (h₂ : l₂.Pairwise (· < ·))
    (h : ∀ x, x ∈ l₁ ↔ x ∈ l₂) : l₁ = l₂ := by
  have hp : l₁.Perm l₂ :=
    (List.perm_ext_iff_of_nodup (h₁.imp Nat.ne_of_lt) (h₂.imp Nat.ne_of_lt)).mpr h
  exact hp.eq_of_pairwise (fun a b _ _ hab hba => absurd hab (Nat.lt_asymm hba)) h₁ h₂

end IntervalList
