import MltByteps.Ps.Meta
import Mathlib.Data.Int.Bitwise
import Mathlib.Data.List.Sort
import Mathlib.Data.Nat.Digits.Lemmas

/-! The addresses of nodes: the order in which the scheduler sorts its table, and the strings under
which vans remember whom they are connected to. -/

namespace Ps

def Node.address (n : Node) : List UInt8 × ℤ := (n.hostname, n.port)

/-! ## The order of the table -/

/-- `std::string::compare`. Only its sign is specified. -/
def hostCompare : List UInt8 → List UInt8 → ℤ
  | [], [] => 0
  | [], b => -b.length
  | a, [] => a.length
  | x :: a, y :: b => if x = y then hostCompare a b else x.toNat - y.toNat

/-- The comparator that `ProcessAddNodeCommandAtScheduler` gives to `std::sort`. -/
def nodeBefore (a b : Node) : Bool :=
  0 < Int.lor (hostCompare a.hostname b.hostname) (if a.port < b.port then 1 else 0)

theorem hostCompare_self (a : List UInt8) : hostCompare a a = 0 := by
  induction a with
  | nil => rfl
  | cons x a ih => rw [hostCompare, if_pos rfl, ih]

theorem hostCompare_swap (a b : List UInt8) : hostCompare a b = -hostCompare b a := by
  induction a generalizing b with
  | nil => cases b <;> simp [hostCompare]
  | cons x a ih =>
    cases b with
    | nil => simp [hostCompare]
    | cons y b =>
      rw [hostCompare, hostCompare]
      by_cases hxy : x = y
      · rw [if_pos hxy, if_pos hxy.symm, ih]
      · rw [if_neg hxy, if_neg (Ne.symm hxy)]
        omega

theorem eq_of_hostCompare {a b : List UInt8} (h : hostCompare a b = 0) : a = b := by
  induction a generalizing b with
  | nil =>
    cases b with
    | nil => rfl
    | cons y b => simp [hostCompare] at h; omega
  | cons x a ih =>
    cases b with
    | nil => simp [hostCompare] at h; omega
    | cons y b =>
      rw [hostCompare] at h
      split_ifs at h with hxy
      · rw [hxy, ih h]
      · exact absurd (UInt8.toNat_inj.mp (by omega)) hxy

theorem hostCompare_trans {a b c : List UInt8} (hab : 0 < hostCompare a b)
    (hbc : 0 < hostCompare b c) : 0 < hostCompare a c := by
  induction a generalizing b c with
  | nil =>
    have := hostCompare_swap [] b
    cases b <;> simp [hostCompare] at hab
    omega
  | cons x a ih =>
    cases c with
    | nil => simp [hostCompare]
    | cons z c =>
      cases b with
      | nil => simp [hostCompare] at hbc; omega
      | cons y b =>
        rw [hostCompare] at hab hbc ⊢
        by_cases hxy : x = y <;> by_cases hyz : y = z
        · subst hxy hyz
          rw [if_pos rfl] at hab hbc ⊢
          exact ih hab hbc
        · subst hxy
          rwa [if_neg hyz] at hbc ⊢
        · subst hyz
          rwa [if_neg hxy] at hab ⊢
        · rw [if_neg hxy] at hab
          rw [if_neg hyz] at hbc
          rw [if_neg]
          · omega
          · rintro rfl
            omega

/-- A negative first operand keeps its sign, and the bit of the second decides for zero. -/
theorem lor_pos_iff (c : ℤ) (p : Prop) [Decidable p] :
    0 < Int.lor c (if p then 1 else 0) ↔ 0 < c ∨ c = 0 ∧ p := by
  have hnat : ∀ m n : ℕ, 0 < Int.lor m n ↔ m ≠ 0 ∨ n ≠ 0 := by
    intro m n
    change 0 < ((m ||| n : ℕ) : ℤ) ↔ _
    rw [Int.natCast_pos, Nat.pos_iff_ne_zero, Ne, Nat.or_eq_zero_iff]
    tauto
  cases c with
  | ofNat m =>
    rw [Int.ofNat_eq_natCast]
    by_cases hp : p
    · rw [if_pos hp, show (1 : ℤ) = (1 : ℕ) from rfl, hnat, and_iff_left hp]
      omega
    · rw [if_neg hp]
      refine (hnat m 0).trans ?_
      simp [hp, Nat.pos_iff_ne_zero]
  | negSucc m =>
    refine iff_of_false ?_ ?_
    · split_ifs <;> exact not_lt.mpr (Int.negSucc_lt_zero _).le
    · rintro (h | ⟨h, -⟩) <;> omega

theorem nodeBefore_iff {a b : Node} : nodeBefore a b = true ↔
    0 < hostCompare a.hostname b.hostname ∨ a.hostname = b.hostname ∧ a.port < b.port := by
  unfold nodeBefore
  rw [decide_eq_true_iff, lor_pos_iff]
  refine or_congr_right (and_congr_left fun _ => ⟨eq_of_hostCompare, fun h => ?_⟩)
  rw [h, hostCompare_self]

structure StrictTotal (before : Node → Node → Bool) : Prop where
  irrefl : ∀ a b : Node, a.address = b.address → before a b = false
  trans : ∀ a b c, before a b = true → before b c = true → before a c = true
  total : ∀ a b : Node, a.address ≠ b.address → before a b = true ∨ before b a = true

theorem nodeBefore_strictTotal : StrictTotal nodeBefore where
  irrefl a b h := by
    obtain ⟨hhost, hport⟩ := Prod.mk.injEq .. ▸ h
    rw [Bool.eq_false_iff, Ne, nodeBefore_iff, hhost, hport, hostCompare_self]
    simp
  trans a b c hab hbc := by
    rw [nodeBefore_iff] at *
    rcases hab with hab | ⟨hab, hport⟩ <;> rcases hbc with hbc | ⟨hbc, hport'⟩
    · exact .inl (hostCompare_trans hab hbc)
    · exact .inl (hbc ▸ hab)
    · exact .inl (hab ▸ hbc)
    · exact .inr ⟨hab.trans hbc, hport.trans hport'⟩
  total a b h := by
    rw [nodeBefore_iff, nodeBefore_iff]
    have hswap := hostCompare_swap a.hostname b.hostname
    rcases lt_trichotomy (hostCompare a.hostname b.hostname) 0 with hlt | heq | hgt
    · exact .inr (.inl (by omega))
    · have hhost := eq_of_hostCompare heq
      rcases lt_trichotomy a.port b.port with hp | hp | hp
      · exact .inl (.inr ⟨hhost, hp⟩)
      · exact absurd (Prod.ext hhost hp) h
      · exact .inr (.inr ⟨hhost.symm, hp⟩)
    · exact .inl (.inl hgt)

/-! ## The strings -/

/-- The digits that `std::to_string` writes for a number that is not negative. -/
def decimalNat (n : ℕ) : List UInt8 :=
  if n = 0 then [48] else (Nat.digits 10 n).reverse.map fun d => UInt8.ofNat (48 + d)

/-- `std::to_string`. -/
def decimal (n : ℤ) : List UInt8 := if n < 0 then 45 :: decimalNat n.natAbs else decimalNat n.natAbs

/-- `node.hostname + ":" + std::to_string(node.port)`. -/
def Node.hostIp (n : Node) : List UInt8 := n.hostname ++ 58 :: decimal n.port

theorem ofNat_digit_toNat {d : ℕ} (hd : d < 10) : (UInt8.ofNat (48 + d)).toNat = 48 + d := by
  rw [UInt8.toNat_ofNat']
  omega

theorem mem_decimalNat {n : ℕ} {c : UInt8} (hc : c ∈ decimalNat n) :
    48 ≤ c.toNat ∧ c.toNat < 58 := by
  unfold decimalNat at hc
  split_ifs at hc with hn
  · rw [List.mem_singleton.mp hc]
    decide
  · obtain ⟨d, hd, rfl⟩ := List.mem_map.mp hc
    have hlt := Nat.digits_lt_base (by omega) (List.mem_reverse.mp hd)
    rw [ofNat_digit_toNat hlt]
    omega

theorem decimalNat_injective : Function.Injective decimalNat := by
  -- The value of the digits gives the number back.
  have hval : ∀ n, Nat.ofDigits 10 ((decimalNat n).map fun c => c.toNat - 48).reverse = n := by
    intro n
    unfold decimalNat
    split_ifs with hn
    · rw [hn]
      rfl
    · rw [List.map_map, ← List.map_reverse, List.reverse_reverse]
      have hmap : (Nat.digits 10 n).map ((fun c => c.toNat - 48) ∘ fun d => UInt8.ofNat (48 + d)) =
          Nat.digits 10 n := by
        conv_rhs => rw [← List.map_id (Nat.digits 10 n)]
        refine List.map_congr_left fun d hd => ?_
        dsimp only [Function.comp, id]
        rw [ofNat_digit_toNat (Nat.digits_lt_base (by omega) hd), Nat.add_sub_cancel_left]
      rw [hmap, Nat.ofDigits_digits]
  intro n m h
  rw [← hval n, ← hval m, h]

theorem decimal_injective : Function.Injective decimal := by
  intro n m h
  have hminus : ∀ k : ℕ, (45 : UInt8) ∉ decimalNat k :=
    fun k hk => absurd (mem_decimalNat hk).1 (by decide)
  unfold decimal at h
  split_ifs at h with hn hm hm
  · have := decimalNat_injective (List.cons.inj h).2
    omega
  · exact absurd (h ▸ List.mem_cons_self ..) (hminus m.natAbs)
  · exact absurd (h ▸ List.mem_cons_self ..) (hminus n.natAbs)
  · have := decimalNat_injective h
    omega

theorem colon_notMem_decimal (n : ℤ) : (58 : UInt8) ∉ decimal n := by
  have hcolon : ∀ k : ℕ, (58 : UInt8) ∉ decimalNat k :=
    fun k hk => absurd (mem_decimalNat hk).2 (by decide)
  unfold decimal
  split_ifs
  · rw [List.mem_cons]
    exact not_or.mpr ⟨by decide, hcolon _⟩
  · exact hcolon _

theorem Node.hostIp_eq_iff {a b : Node} : a.hostIp = b.hostIp ↔ a.address = b.address := by
  constructor
  · intro h
    have hrev : (decimal a.port).reverse ++ 58 :: a.hostname.reverse =
        (decimal b.port).reverse ++ 58 :: b.hostname.reverse := by
      have := congrArg List.reverse h
      simpa [hostIp] using this
    have hport : ∀ n : Node, ((decimal n.port).reverse ++ 58 :: n.hostname.reverse).takeWhile
        (· != 58) = (decimal n.port).reverse := by
      intro n
      rw [List.takeWhile_append_of_pos, List.takeWhile_cons_of_neg (by simp), List.append_nil]
      intro c hc
      have hne : c ≠ 58 := fun he => colon_notMem_decimal n.port (he ▸ List.mem_reverse.mp hc)
      simpa using hne
    have hdec : decimal a.port = decimal b.port := by
      have := congrArg (List.takeWhile (· != 58)) hrev
      rwa [hport, hport, List.reverse_inj] at this
    have hhost : a.hostname = b.hostname := by
      unfold hostIp at h
      rw [hdec] at h
      exact List.append_cancel_right h
    exact Prod.ext hhost (decimal_injective hdec)
  · intro h
    obtain ⟨hhost, hport⟩ := Prod.mk.injEq .. ▸ h
    unfold hostIp
    rw [hhost, hport]

/-! ## Sorting -/

/-- `std::sort` with the comparator. -/
def sortNodes (l : List Node) : List Node := l.insertionSort fun a b => nodeBefore b a = false

theorem sortNodes_perm (l : List Node) : (sortNodes l).Perm l := List.perm_insertionSort _ l

theorem pairwise_sortNodes (l : List Node) :
    (sortNodes l).Pairwise fun a b => nodeBefore b a = false := by
  have hord := nodeBefore_strictTotal
  have : Std.Total fun a b => nodeBefore b a = false := ⟨fun a b => by
    by_contra hnot
    simp only [not_or, Bool.not_eq_false] at hnot
    have := hord.trans a b a hnot.2 hnot.1
    rw [hord.irrefl a a rfl] at this
    exact nomatch this⟩
  have : IsTrans Node fun a b => nodeBefore b a = false := ⟨fun a b c hab hbc => by
    by_contra hca
    rw [Bool.not_eq_false] at hca
    by_cases haddr : a.address = b.address
    · obtain ⟨hhost, hport⟩ := Prod.mk.injEq .. ▸ haddr
      unfold nodeBefore at hca hbc
      rw [hhost, hport, hbc] at hca
      exact nomatch hca
    · have hbefore := (hord.total a b haddr).resolve_right (by simp [hab])
      rw [hord.trans c a b hca hbefore] at hbc
      exact nomatch hbc⟩
  exact List.pairwise_insertionSort _ l

theorem sortNodes_eq_of_perm {l l' : List Node} (h : l.Perm l')
    (hl : (l.map Node.address).Nodup) : sortNodes l = sortNodes l' := by
  have hperm : (sortNodes l).Perm (sortNodes l') :=
    (sortNodes_perm l).trans (h.trans (sortNodes_perm l').symm)
  refine hperm.eq_of_pairwise (fun a b ha hb hab hba => ?_) (pairwise_sortNodes l)
    (pairwise_sortNodes l')
  have ha := (sortNodes_perm l).mem_iff.mp ha
  have hb := h.mem_iff.mpr ((sortNodes_perm l').mem_iff.mp hb)
  by_contra hne
  have haddr : a.address ≠ b.address := fun he => hne (List.inj_on_of_nodup_map hl ha hb he)
  rcases nodeBefore_strictTotal.total a b haddr with hbefore | hbefore
  · exact absurd hbefore (by simp [hba])
  · exact absurd hbefore (by simp [hab])

end Ps
