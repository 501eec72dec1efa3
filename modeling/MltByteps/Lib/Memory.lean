import Mathlib.Data.List.Basic
import Mathlib.Tactic.Ring

/-! Little-endian words and a flat byte memory with block reads, block writes
and overlapping-free copies. -/

namespace LittleEndian

def leBytes : ℕ → ℕ → List UInt8
  | 0, _ => []
  | k + 1, n => UInt8.ofNat n :: leBytes k (n / 256)

def ofLeBytes : List UInt8 → ℕ
  | [] => 0
  | b :: bs => b.toNat + 256 * ofLeBytes bs

@[simp] theorem length_leBytes (k n : ℕ) : (leBytes k n).length = k := by
  induction k generalizing n with
  | zero => rfl
  | succ k ih => simp only [leBytes, List.length_cons, ih]

theorem ofLeBytes_leBytes (k n : ℕ) : ofLeBytes (leBytes k n) = n % 256 ^ k := by
  induction k generalizing n with
  | zero => simp [leBytes, ofLeBytes, Nat.mod_one]
  | succ k ih =>
    have h : n % (256 * 256 ^ k) = n % 256 + 256 * (n / 256 % 256 ^ k) := Nat.mod_mul
    simp only [leBytes, ofLeBytes, ih, UInt8.toNat_ofNat', Nat.pow_succ', h]

theorem ofLeBytes_leBytes_of_lt {k n : ℕ} (h : n < 256 ^ k) : ofLeBytes (leBytes k n) = n := by
  rw [ofLeBytes_leBytes, Nat.mod_eq_of_lt h]

end LittleEndian

abbrev Memory := ℕ → UInt8

namespace Memory

def read (m : Memory) (a n : ℕ) : List UInt8 := (List.range n).map fun i => m (a + i)

def write (m : Memory) (a : ℕ) (bs : List UInt8) : Memory :=
  fun x => if a ≤ x then bs.getD (x - a) (m x) else m x

/-- `memcpy (dst, src, n)`: the source bytes are read before the first one is written. -/
def copy (m : Memory) (dst src n : ℕ) : Memory := m.write dst (m.read src n)

@[simp] theorem length_read (m : Memory) (a n : ℕ) : (m.read a n).length = n := by
  simp [read]

theorem getElem?_read (m : Memory) (a n i : ℕ) :
    (m.read a n)[i]? = if i < n then some (m (a + i)) else none := by
  unfold read
  rw [List.getElem?_map]
  split_ifs with h
  · rw [List.getElem?_range h]
    rfl
  · rw [List.getElem?_eq_none (by simpa using h)]
    rfl

theorem read_sub (m : Memory) (a n k j : ℕ) (h : k + j ≤ n) :
    ((m.read a n).drop k).take j = m.read (a + k) j := by
  apply List.ext_getElem?
  intro i
  rw [getElem?_read, List.getElem?_take, List.getElem?_drop, getElem?_read]
  split_ifs with h1 h2
  · rw [Nat.add_assoc]
  · omega
  · rfl

theorem read_moved {m m' : Memory} {a a' n : ℕ} (h : m'.read a' n = m.read a n) {o k : ℕ}
    (hok : o + k ≤ n) : m'.read (a' + o) k = m.read (a + o) k := by
  rw [← m.read_sub a n o k hok, ← h, m'.read_sub a' n o k hok]

theorem apply_moved {m m' : Memory} {a a' n : ℕ} (h : m'.read a' n = m.read a n) {o : ℕ}
    (ho : o < n) : m' (a' + o) = m (a + o) := by
  have hbyte := congrArg (fun bs => bs[o]?) h
  simpa only [getElem?_read, if_pos ho, Option.some.injEq] using hbyte

theorem write_of_lt (m : Memory) {a x : ℕ} (bs : List UInt8) (h : x < a) :
    m.write a bs x = m x := by
  simp only [write, if_neg (Nat.not_le.mpr h)]

theorem write_of_ge (m : Memory) {a x : ℕ} (bs : List UInt8) (h : a + bs.length ≤ x) :
    m.write a bs x = m x := by
  simp only [write, if_pos (Nat.le_trans (Nat.le_add_right a _) h)]
  rw [List.getD_eq_getElem?_getD, List.getElem?_eq_none (by omega), Option.getD_none]

theorem write_add (m : Memory) (a : ℕ) (bs : List UInt8) {i : ℕ} (h : i < bs.length) :
    m.write a bs (a + i) = bs[i] := by
  simp only [write, if_pos (Nat.le_add_right a i), Nat.add_sub_cancel_left]
  rw [List.getD_eq_getElem?_getD, List.getElem?_eq_getElem h, Option.getD_some]

theorem read_congr {m m' : Memory} {a n : ℕ} (h : ∀ i < n, m (a + i) = m' (a + i)) :
    m.read a n = m'.read a n := by
  apply List.map_congr_left
  intro i hi
  exact h i (List.mem_range.mp hi)

theorem read_eq_read_iff {m m' : Memory} {a n : ℕ} :
    m.read a n = m'.read a n ↔ ∀ i < n, m (a + i) = m' (a + i) := by
  refine ⟨fun h i hi => ?_, read_congr⟩
  exact List.map_inj_left.mp h i (List.mem_range.mpr hi)

theorem read_write_disjoint (m : Memory) {a b n : ℕ} (bs : List UInt8)
    (h : b + n ≤ a ∨ a + bs.length ≤ b) : (m.write a bs).read b n = m.read b n := by
  apply read_congr
  intro i hi
  rcases h with h | h
  · exact write_of_lt m bs (by omega)
  · exact write_of_ge m bs (by omega)

theorem read_write_sub (m : Memory) (a k n : ℕ) (bs : List UInt8) (h : k + n ≤ bs.length) :
    (m.write a bs).read (a + k) n = (bs.drop k).take n := by
  apply List.ext_getElem?
  intro i
  rw [getElem?_read]
  by_cases hi : i < n
  · rw [if_pos hi, Nat.add_assoc, write_add m a bs (by omega), List.getElem?_take_of_lt hi,
      List.getElem?_drop, List.getElem?_eq_getElem]
  · rw [if_neg hi, List.getElem?_eq_none]
    simp only [List.length_take, List.length_drop]
    omega

theorem read_write_self (m : Memory) (a : ℕ) (bs : List UInt8) :
    (m.write a bs).read a bs.length = bs := by
  simpa using read_write_sub m a 0 bs.length bs (by omega)

theorem write_congr {m m' : Memory} {a x : ℕ} {bs : List UInt8}
    (h : m x = m' x ∨ a ≤ x ∧ x < a + bs.length) : m.write a bs x = m'.write a bs x := by
  unfold write
  split_ifs with ha
  · rcases h with h | ⟨-, h⟩
    · rw [h]
    · rw [List.getD_eq_getElem?_getD, List.getD_eq_getElem?_getD,
        List.getElem?_eq_getElem (by omega)]
      rfl
  · exact h.resolve_right fun h => ha h.1

theorem write_append (m : Memory) (a : ℕ) (l₁ l₂ : List UInt8) :
    (m.write a l₁).write (a + l₁.length) l₂ = m.write a (l₁ ++ l₂) := by
  funext x
  by_cases h₁ : x < a
  · rw [write_of_lt _ _ (by omega), write_of_lt _ _ h₁, write_of_lt _ _ h₁]
  · obtain ⟨i, rfl⟩ := Nat.exists_eq_add_of_le (Nat.le_of_not_lt h₁)
    by_cases h₂ : i < l₁.length
    · rw [write_of_lt _ _ (by omega), write_add _ _ _ h₂,
        write_add _ _ _ (by rw [List.length_append]; omega), List.getElem_append_left h₂]
    · by_cases h₃ : i < l₁.length + l₂.length
      · have hi : a + i = a + l₁.length + (i - l₁.length) := by omega
        rw [write_add _ _ _ (by rw [List.length_append]; exact h₃),
          List.getElem_append_right (by omega), hi, write_add _ _ _ (by omega)]
      · rw [write_of_ge _ _ (by omega), write_of_ge _ _ (by omega),
          write_of_ge _ _ (by rw [List.length_append]; omega)]

theorem read_append (m : Memory) (a n k : ℕ) :
    m.read a (n + k) = m.read a n ++ m.read (a + n) k := by
  unfold read
  rw [List.range_add, List.map_append, List.map_map]
  congr 2
  funext i
  exact congrArg m (Nat.add_assoc a n i).symm

theorem read_flatten {m : Memory} {a : ℕ} {segs : List (List UInt8)} {lens : List ℕ}
    (hlens : segs.map List.length = lens) (h : m.read a lens.sum = segs.flatten) {i : ℕ}
    {s : List UInt8} (hi : segs[i]? = some s) :
    m.read (a + (lens.take i).sum) s.length = s := by
  subst hlens
  induction segs generalizing a i with
  | nil => cases hi
  | cons s₀ segs ih =>
    rw [List.map_cons, List.sum_cons, read_append, List.flatten_cons] at h
    obtain ⟨h₀, h⟩ := List.append_inj h (length_read ..)
    cases i with
    | zero =>
      cases hi
      exact h₀
    | succ i =>
      rw [List.map_cons, List.take_succ_cons, List.sum_cons, ← Nat.add_assoc]
      exact ih hi h

theorem copy_of_outside (m : Memory) {dst src n x : ℕ} (h : x < dst ∨ dst + n ≤ x) :
    m.copy dst src n x = m x := by
  rcases h with h | h
  · exact write_of_lt m _ h
  · exact write_of_ge m _ (by simpa using h)

theorem copy_add (m : Memory) {dst src n i : ℕ} (h : i < n) :
    m.copy dst src n (dst + i) = m (src + i) := by
  unfold copy
  rw [write_add m dst _ (by simpa using h)]
  simp [read]

theorem read_copy_self (m : Memory) (dst src n : ℕ) :
    (m.copy dst src n).read dst n = m.read src n := by
  unfold copy
  simpa using read_write_self m dst (m.read src n)

end Memory
