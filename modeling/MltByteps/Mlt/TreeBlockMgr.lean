import MltByteps.Lib.IntervalList
import MltByteps.Mlt.Basic
import Mathlib.Data.Finset.Card
import Mathlib.Order.Interval.Finset.Nat

/-! The tree block manager: the untaken sequence numbers below `size`, kept as
the blocks of a `std::set` ordered by their first number. The set is the list of
its elements in iteration order; `upper_bound` splits it at the first block that
starts behind the key. -/

namespace Mlt
open LittleEndian IntervalList

/-- `[first, last)` -/
structure Block where
  first : ℕ
  last : ℕ
deriving DecidableEq, Repr

def Block.bytes (b : Block) : List UInt8 := leBytes 4 b.first ++ leBytes 4 b.last

def sizeofBlock : ℕ := 8

theorem Block.length_bytes (b : Block) : b.bytes.length = sizeofBlock := by
  simp [Block.bytes, sizeofBlock]

structure TreeBlockMgr where
  size : ℕ
  used : ℕ
  tree : List Block
deriving DecidableEq, Repr

namespace TreeBlockMgr

/-- `std::set::emplace`: a block with the same first number keeps its place. -/
def emplace (tree : List Block) (b : Block) : List Block :=
  if ∃ c ∈ tree, c.first = b.first then tree
  else tree.takeWhile (fun c => c.first < b.first) ++
    b :: tree.dropWhile (fun c => c.first < b.first)

def new (size : ℕ) : TreeBlockMgr := ⟨u32 size, 0, emplace [] ⟨0, u32 size⟩⟩

def resize (t : TreeBlockMgr) (size : ℕ) : Except Fault TreeBlockMgr := do
  require .resize (t.size < size)
  match t.tree.getLast? with
  | none => return { t with tree := emplace t.tree ⟨t.size, u32 size⟩, size := u32 size }
  | some it =>
    if it.last < t.size then
      return { t with tree := emplace t.tree ⟨t.size, u32 size⟩, size := u32 size }
    else
      return { t with tree := t.tree.dropLast ++ [⟨it.first, u32 size⟩], size := u32 size }

/-- `upper_bound` of a key that starts at `seq`, as the blocks before it and those from it on. -/
def before (tree : List Block) (seq : ℕ) : List Block := tree.takeWhile fun b => b.first ≤ seq

def behind (tree : List Block) (seq : ℕ) : List Block := tree.dropWhile fun b => b.first ≤ seq

def check (t : TreeBlockMgr) (seq : ℕ) : Bool :=
  match (before t.tree seq).getLast? with
  | none => true
  | some it => !decide (it.first ≤ seq ∧ seq < it.last)

/-- The block at the iterator, unless `Take` has emptied it and erases it. -/
def keep (it : Block) : List Block := if it.first = it.last then [] else [it]

def take (t : TreeBlockMgr) (seq : ℕ) : Except Fault TreeBlockMgr := do
  require .takeEmpty (t.tree ≠ [])
  match (before t.tree seq).getLast? with
  | none => throw .takeBegin
  | some it =>
    require .takeRange (it.first ≤ seq ∧ seq < it.last)
    let used := u32 (t.used + 1)
    let pre := (before t.tree seq).dropLast
    let post := behind t.tree seq
    if it.first = seq then
      return { t with used, tree := pre ++ (keep ⟨u32 (it.first + 1), it.last⟩ ++ post) }
    else if it.last = u32 (seq + 1) then
      return { t with used, tree := pre ++ (keep ⟨it.first, it.last - 1⟩ ++ post) }
    else
      return { t with
        used, tree := emplace (pre ++ (keep ⟨it.first, seq⟩ ++ post)) ⟨u32 (seq + 1), it.last⟩ }

def freeLength (t : TreeBlockMgr) : ℕ := u32 (t.size + 2 ^ 32 - t.used)

def byteSize (t : TreeBlockMgr) : ℕ := t.tree.length * sizeofBlock

/-- `MemoryFixedSizeStream::Write` of one block, `out` being what the stream holds so far. -/
def writeBlock (bufSize : ℕ) (out : List UInt8) (b : Block) : Except Fault (List UInt8) := do
  require .streamWrite (out.length + sizeofBlock ≤ bufSize)
  return out ++ b.bytes

def serializeToBuffer (t : TreeBlockMgr) (bufSize : ℕ) : Except Fault (List UInt8) := do
  let out ← t.tree.foldlM (writeBlock bufSize) []
  require .streamTell (out.length = t.byteSize)
  return out

/-! ## The representation invariant -/

/-- `t` represents the numbers below its size of which `taken` have been taken. -/
structure Rep (t : TreeBlockMgr) (taken : Finset ℕ) : Prop where
  size_pos : 0 < t.size
  size_lt : t.size < 2 ^ 32
  separated : Separated Block.first Block.last t.tree
  covers_iff : ∀ x, Covers Block.first Block.last t.tree x ↔ x < t.size ∧ x ∉ taken
  used_eq : t.used = taken.card
  taken_lt : ∀ x ∈ taken, x < t.size

variable {t : TreeBlockMgr} {taken : Finset ℕ}

theorem Rep.last_le (h : t.Rep taken) {b : Block} (hb : b ∈ t.tree) : b.last ≤ t.size := by
  have hne := h.separated.1 b hb
  have := (h.covers_iff (b.last - 1)).mp ⟨b, hb, by omega, by omega⟩
  omega

theorem Rep.card_le (h : t.Rep taken) : taken.card ≤ t.size := by
  have hsub : taken ⊆ Finset.range t.size := fun x hx => Finset.mem_range.mpr (h.taken_lt x hx)
  simpa using Finset.card_le_card hsub

theorem Rep.find (h : t.Rep taken) {s : ℕ} (hs : s < t.size) (hn : s ∉ taken) :
    ∃ pre it post, t.tree = pre ++ it :: post ∧ it.first ≤ s ∧ s < it.last ∧
      before t.tree s = pre ++ [it] ∧ behind t.tree s = post := by
  obtain ⟨it, hit, hlo, hhi⟩ := (h.covers_iff s).mpr ⟨hs, hn⟩
  obtain ⟨pre, post, heq⟩ := List.append_of_mem hit
  have hsep := h.separated
  rw [heq] at hsep
  obtain ⟨htake, hdrop⟩ := hsep.takeWhile_eq hlo hhi
  exact ⟨pre, it, post, heq, hlo, hhi, by rw [heq]; exact htake, by rw [heq]; exact hdrop⟩

theorem Rep.check_iff (h : t.Rep taken) {s : ℕ} (hs : s < t.size) :
    t.check s = true ↔ s ∈ taken := by
  have hcov := h.separated.covers_iff_getLast s
  rw [h.covers_iff s] at hcov
  unfold check
  rcases hlast : (before t.tree s).getLast? with _ | it
  · have hnone : ¬(s < t.size ∧ s ∉ taken) := by
      rw [hcov]
      rintro ⟨b, hb, -⟩
      exact absurd (hlast.symm.trans hb) (by simp)
    simpa [hs] using hnone
  · have hit : (it.first ≤ s ∧ s < it.last) ↔ s < t.size ∧ s ∉ taken := by
      rw [hcov]
      constructor
      · intro hin
        exact ⟨it, hlast, hin⟩
      · rintro ⟨b, hb, hin⟩
        rwa [Option.some.inj (hlast.symm.trans hb)]
    simp only [hit, hs, true_and, Bool.not_eq_true', decide_eq_false_iff_not, not_not]

theorem Rep.check_false (h : t.Rep taken) {s : ℕ} (hs : s < t.size) :
    t.check s = false ↔ s ∉ taken := by
  rw [← h.check_iff hs, Bool.not_eq_true]

theorem emplace_append {l₁ l₂ : List Block} {b : Block} (h₁ : ∀ c ∈ l₁, c.first < b.first)
    (h₂ : ∀ c ∈ l₂, b.first < c.first) : emplace (l₁ ++ l₂) b = l₁ ++ b :: l₂ := by
  have hnew : ¬∃ c ∈ l₁ ++ l₂, c.first = b.first := by
    rintro ⟨c, hc, heq⟩
    rcases List.mem_append.mp hc with hc | hc
    · exact absurd heq (h₁ c hc).ne
    · exact absurd heq (h₂ c hc).ne'
  have hl₁ : ∀ c ∈ l₁, decide (c.first < b.first) = true := fun c hc => decide_eq_true (h₁ c hc)
  have hl₂ : l₂.takeWhile (fun c => decide (c.first < b.first)) = [] ∧
      l₂.dropWhile (fun c => decide (c.first < b.first)) = l₂ := by
    cases l₂ with
    | nil => exact ⟨rfl, rfl⟩
    | cons c l₂ =>
      have hc : ¬ c.first < b.first := (h₂ c (List.mem_cons_self ..)).not_gt
      simp [hc]
  rw [emplace, if_neg hnew, List.takeWhile_append_of_pos hl₁, List.dropWhile_append_of_pos hl₁,
    hl₂.1, hl₂.2, List.append_nil]

theorem keep_self (a : ℕ) : keep ⟨a, a⟩ = [] := if_pos rfl

theorem keep_of_ne {b : Block} (h : b.first ≠ b.last) : keep b = [b] := if_neg h

theorem keep_covers (b : Block) (x : ℕ) :
    Covers Block.first Block.last (keep b) x ↔ b.first ≤ x ∧ x < b.last := by
  unfold keep
  split_ifs with heq
  · simp only [not_covers_nil, false_iff]
    omega
  · rw [covers_cons]
    simp

theorem keep_separated (b : Block) (hle : b.first ≤ b.last) :
    Separated Block.first Block.last (keep b) := by
  unfold keep
  split_ifs with heq
  · exact separated_nil
  · exact separated_singleton (by omega)

theorem mem_keep {b c : Block} (h : c ∈ keep b) : c = b := by
  unfold keep at h
  split_ifs at h with heq
  · simp at h
  · simpa using h

/-- What is left of a block once `s` has been taken out of it. -/
def cut (it : Block) (s : ℕ) : List Block := keep ⟨it.first, s⟩ ++ keep ⟨s + 1, it.last⟩

theorem cut_separated {it : Block} {s : ℕ} (hlo : it.first ≤ s) (hhi : s < it.last) :
    Separated Block.first Block.last (cut it s) := by
  refine separated_append.mpr
    ⟨keep_separated ⟨it.first, s⟩ hlo, keep_separated ⟨s + 1, it.last⟩ hhi, ?_⟩
  intro a ha b hb
  rw [mem_keep ha, mem_keep hb]
  exact Nat.lt_succ_self s

theorem cut_covers {it : Block} {s : ℕ} (hlo : it.first ≤ s) (hhi : s < it.last) (x : ℕ) :
    Covers Block.first Block.last (cut it s) x ↔ (it.first ≤ x ∧ x < it.last) ∧ x ≠ s := by
  rw [cut, covers_append, keep_covers, keep_covers]
  dsimp only
  omega

theorem mem_cut {it c : Block} {s : ℕ} (hlo : it.first ≤ s) (hhi : s < it.last)
    (h : c ∈ cut it s) : it.first ≤ c.first ∧ c.last ≤ it.last := by
  rcases List.mem_append.mp h with h | h
  · rw [mem_keep h]
    exact ⟨le_rfl, hhi.le⟩
  · rw [mem_keep h]
    exact ⟨hlo.trans (Nat.le_succ s), le_rfl⟩

theorem Rep.take_eq (h : t.Rep taken) {s : ℕ} (hs : s < t.size) (hn : s ∉ taken) :
    ∃ pre it post, t.tree = pre ++ it :: post ∧ it.first ≤ s ∧ s < it.last ∧
      t.take s = .ok ⟨t.size, t.used + 1, pre ++ (cut it s ++ post)⟩ := by
  obtain ⟨pre, it, post, heq, hlo, hhi, hbefore, hbehind⟩ := h.find hs hn
  refine ⟨pre, it, post, heq, hlo, hhi, ?_⟩
  have hlast : it.last ≤ t.size := h.last_le (heq ▸ List.mem_append_right _ (List.mem_cons_self ..))
  have hsize := h.size_lt
  have hne : t.tree ≠ [] := by simp [heq]
  have hused : u32 (t.used + 1) = t.used + 1 := by
    -- `s` itself is below the size and not among the taken ones
    have hsub : insert s taken ⊆ Finset.range t.size := by
      intro x hx
      rcases Finset.mem_insert.mp hx with rfl | hx
      · exact Finset.mem_range.mpr hs
      · exact Finset.mem_range.mpr (h.taken_lt x hx)
    have hcard := Finset.card_le_card hsub
    rw [Finset.card_insert_of_notMem hn, Finset.card_range] at hcard
    exact u32_of_lt (by rw [h.used_eq]; omega)
  have hs1 : u32 (s + 1) = s + 1 := u32_of_lt (by omega)
  have hdrop : (pre ++ [it]).dropLast = pre := List.dropLast_concat
  have hget : (pre ++ [it]).getLast? = some it := List.getLast?_concat
  unfold take
  rw [require_bind _ hne, hbefore, hbehind, hget]
  dsimp only
  rw [require_bind _ ⟨hlo, hhi⟩, hdrop, hused, hs1]
  by_cases hfirst : it.first = s
  · subst hfirst
    rw [if_pos rfl, hs1, cut, keep_self]
    rfl
  rw [if_neg hfirst]
  by_cases hend : it.last = s + 1
  · rw [if_pos hend, cut, hend, Nat.add_sub_cancel, keep_self, List.append_nil]
    rfl
  rw [if_neg hend]
  have hkeep : keep ⟨it.first, s⟩ = [⟨it.first, s⟩] := keep_of_ne hfirst
  have hkeep' : keep ⟨s + 1, it.last⟩ = [⟨s + 1, it.last⟩] := keep_of_ne (Ne.symm hend)
  have hsep := h.separated
  rw [heq] at hsep
  obtain ⟨hpre, hpost⟩ := hsep.around
  have hplace : emplace (pre ++ ([⟨it.first, s⟩] ++ post)) ⟨s + 1, it.last⟩ =
      (pre ++ [⟨it.first, s⟩]) ++ ⟨s + 1, it.last⟩ :: post := by
    rw [← List.append_assoc]
    refine emplace_append ?_ ?_
    · intro c hc
      rcases List.mem_append.mp hc with hc | hc
      · have := hpre c hc
        dsimp only
        omega
      · rw [List.mem_singleton.mp hc]
        dsimp only
        omega
    · intro c hc
      have := hpost c hc
      dsimp only
      omega
  rw [hkeep, hplace, cut, hkeep, hkeep']
  simp only [List.append_assoc, List.cons_append, List.nil_append]
  rfl

theorem Rep.take (h : t.Rep taken) {s : ℕ} (hs : s < t.size) (hn : s ∉ taken) :
    ∃ t', t.take s = .ok t' ∧ t'.size = t.size ∧ t'.Rep (insert s taken) := by
  obtain ⟨pre, it, post, heq, hlo, hhi, htake⟩ := h.take_eq hs hn
  have hsep := h.separated
  rw [heq] at hsep
  obtain ⟨hpre, hpost⟩ := hsep.around
  refine ⟨_, htake, rfl, h.size_pos, h.size_lt,
    hsep.replace (cut_separated hlo hhi) fun c hc => mem_cut hlo hhi hc, ?_, ?_, ?_⟩
  · intro x
    have hx := h.covers_iff x
    rw [heq, covers_append, covers_cons] at hx
    have hpre' : Covers Block.first Block.last pre x → x ≠ s := by
      rintro ⟨c, hc, h1, h2⟩
      have := hpre c hc
      omega
    have hpost' : Covers Block.first Block.last post x → x ≠ s := by
      rintro ⟨c, hc, h1, h2⟩
      have := hpost c hc
      omega
    rw [covers_append, covers_append, cut_covers hlo hhi, Finset.mem_insert]
    by_cases hxs : x = s
    · refine iff_of_false ?_ fun hout => hout.2 (.inl hxs)
      rintro (hc | hc | hc)
      · exact hpre' hc hxs
      · exact hc.2 hxs
      · exact hpost' hc hxs
    · rw [and_iff_left hxs, or_iff_right hxs]
      exact hx
  · rw [Finset.card_insert_of_notMem hn, ← h.used_eq]
  · intro x hx
    rcases Finset.mem_insert.mp hx with rfl | hx
    · exact hs
    · exact h.taken_lt x hx

theorem new_rep {n : ℕ} (h : u32 n ≠ 0) : (new n).Rep ∅ := by
  have hlt : u32 n < 2 ^ 32 := Nat.mod_lt _ (by decide)
  refine ⟨Nat.pos_of_ne_zero h, hlt, separated_singleton (Nat.pos_of_ne_zero h), ?_, rfl, by simp⟩
  intro x
  change Covers _ _ [(⟨0, u32 n⟩ : Block)] x ↔ x < u32 n ∧ _
  rw [covers_cons]
  simp

/-- The empty block a manager of size 0 starts with is the one its first `Resize` extends. -/
theorem new_zero_resize {m : ℕ} (h : 0 < m) : (new 0).resize m = .ok (new m) := by
  unfold resize
  rw [require_bind _ (by exact h)]
  rfl

theorem Rep.grow (h : t.Rep taken) {m : ℕ} (hm : t.size < m) (hlt : m < 2 ^ 32)
    {tree : List Block} (hsep : Separated Block.first Block.last tree)
    (hcov : ∀ x, Covers Block.first Block.last tree x ↔
      Covers Block.first Block.last t.tree x ∨ (t.size ≤ x ∧ x < m)) :
    Rep ⟨m, t.used, tree⟩ taken := by
  refine ⟨h.size_pos.trans hm, hlt, hsep, ?_, h.used_eq, fun x hx => (h.taken_lt x hx).trans hm⟩
  intro x
  rw [hcov, h.covers_iff]
  have hout : t.size ≤ x → x ∉ taken := fun hx hmem => by
    have := h.taken_lt x hmem
    omega
  constructor
  · rintro (⟨h1, h2⟩ | ⟨h1, h2⟩)
    · exact ⟨h1.trans hm, h2⟩
    · exact ⟨h2, hout h1⟩
  · rintro ⟨h1, h2⟩
    rcases Nat.lt_or_ge x t.size with hx | hx
    · exact Or.inl ⟨hx, h2⟩
    · exact Or.inr ⟨hx, h1⟩

theorem Rep.grow_append (h : t.Rep taken) {m : ℕ} (hm : t.size < m) (hlt : m < 2 ^ 32)
    (hall : ∀ c ∈ t.tree, c.last < t.size) :
    Rep ⟨m, t.used, emplace t.tree ⟨t.size, m⟩⟩ taken := by
  have hplace : emplace t.tree ⟨t.size, m⟩ = t.tree ++ [⟨t.size, m⟩] := by
    have := @emplace_append t.tree [] ⟨t.size, m⟩
      (fun c hc => (h.separated.1 c hc).trans (hall c hc)) (by simp)
    simpa using this
  rw [hplace]
  refine h.grow hm hlt ?_ fun x => ?_
  · refine separated_append.mpr ⟨h.separated, separated_singleton hm, ?_⟩
    intro a ha b hb
    rw [List.mem_singleton.mp hb]
    exact hall a ha
  · rw [covers_append, covers_cons]
    simp

theorem Rep.grow_last (h : t.Rep taken) {m : ℕ} (hm : t.size < m) (hlt : m < 2 ^ 32)
    {pre : List Block} {it : Block} (hpre : t.tree = pre ++ [it]) (hlast : it.last = t.size) :
    Rep ⟨m, t.used, pre ++ [⟨it.first, m⟩]⟩ taken := by
  have hsep := h.separated
  rw [hpre] at hsep
  obtain ⟨hbefore, -⟩ := hsep.around
  have hit := hsep.1 it (by simp)
  refine h.grow hm hlt ?_ fun x => ?_
  · obtain ⟨hpresep, -, -⟩ := separated_append.mp hsep
    refine separated_append.mpr ⟨hpresep, separated_singleton (by dsimp only; omega), ?_⟩
    intro a ha b hb
    rw [List.mem_singleton.mp hb]
    exact (hbefore a ha).2
  · rw [hpre, covers_append, covers_append, covers_cons, covers_cons]
    simp only [not_covers_nil, or_false, or_assoc]
    refine or_congr_right ?_
    omega

theorem Rep.resize (h : t.Rep taken) {m : ℕ} (hm : t.size < m) (hlt : m < 2 ^ 32) :
    ∃ t', t.resize m = .ok t' ∧ t'.size = m ∧ t'.Rep taken := by
  unfold TreeBlockMgr.resize
  rw [require_bind _ hm, u32_of_lt hlt]
  rcases hlast : t.tree.getLast? with _ | it
  · refine ⟨_, rfl, rfl, h.grow_append hm hlt ?_⟩
    rw [List.getLast?_eq_none_iff.mp hlast]
    simp
  · obtain ⟨pre, hpre⟩ := List.getLast?_eq_some_iff.mp hlast
    dsimp only
    split_ifs with hit
    · refine ⟨_, rfl, rfl, h.grow_append hm hlt fun c hc => ?_⟩
      have hsep := h.separated
      rw [hpre] at hc hsep
      rcases List.mem_append.mp hc with hc | hc
      · have := hsep.around.1 c hc
        have := hsep.1 it (by simp)
        omega
      · rwa [List.mem_singleton.mp hc]
    · have hend : it.last = t.size := le_antisymm
        (h.last_le (hpre ▸ List.mem_append_right _ (List.mem_singleton_self it))) (not_lt.mp hit)
      refine ⟨_, rfl, rfl, ?_⟩
      rw [hpre, List.dropLast_concat]
      exact h.grow_last hm hlt hpre hend

theorem foldlM_writeBlock (bufSize : ℕ) (l : List Block) (out : List UInt8)
    (h : out.length + l.length * sizeofBlock ≤ bufSize) :
    l.foldlM (writeBlock bufSize) out = .ok (out ++ l.flatMap Block.bytes) := by
  induction l generalizing out with
  | nil => simp; rfl
  | cons b l ih =>
    have hlen : (out ++ b.bytes).length = out.length + sizeofBlock := by
      rw [List.length_append, Block.length_bytes]
    rw [List.length_cons, Nat.succ_mul] at h
    rw [List.foldlM_cons, writeBlock, require_bind _ (by omega)]
    change l.foldlM (writeBlock bufSize) (out ++ b.bytes) = _
    rw [ih _ (by rw [hlen]; omega), List.flatMap_cons, List.append_assoc]

theorem length_flatMap_bytes (l : List Block) :
    (l.flatMap Block.bytes).length = l.length * sizeofBlock := by
  induction l with
  | nil => rfl
  | cons b l ih =>
    rw [List.flatMap_cons, List.length_append, ih, List.length_cons, Block.length_bytes,
      Nat.succ_mul, Nat.add_comm]

theorem serializeToBuffer_byteSize (t : TreeBlockMgr) :
    t.serializeToBuffer t.byteSize = .ok (t.tree.flatMap Block.bytes) := by
  unfold serializeToBuffer
  rw [foldlM_writeBlock _ _ _ (by simp [byteSize]), List.nil_append, ok_bind,
    require_bind _ (show _ = t.byteSize from length_flatMap_bytes t.tree)]
  rfl

theorem Rep.freeLength_eq (h : t.Rep taken) :
    t.freeLength = (Finset.range t.size \ taken).card := by
  have hsub : taken ⊆ Finset.range t.size := fun x hx => Finset.mem_range.mpr (h.taken_lt x hx)
  have hle := h.card_le
  have hsize := h.size_lt
  rw [Finset.card_sdiff_of_subset hsub, Finset.card_range, freeLength, h.used_eq, u32]
  omega

theorem Rep.mem_tree_iff (h : t.Rep taken) (i j : ℕ) :
    ⟨i, j⟩ ∈ t.tree ↔ IsRun (fun x => x < t.size ∧ x ∉ taken) i j := by
  have hU : Covers Block.first Block.last t.tree = fun x => x < t.size ∧ x ∉ taken := by
    funext x
    exact propext (h.covers_iff x)
  rw [← hU]
  constructor
  · exact fun hb => h.separated.isRun_of_mem hb
  · intro hr
    obtain ⟨b, hb, rfl, rfl⟩ := h.separated.exists_mem_of_isRun hr
    exact hb

/-! ## Whole histories of a manager -/

/-- A manager and the numbers taken from it, after a history of `Resize` and guarded
`Take` calls that starts with `TreeBlockMgr(n)` for an `n` with `start n`, or with
`TreeBlockMgr(0)` and a first `Resize`. -/
inductive History (start : ℕ → Prop) : TreeBlockMgr → Finset ℕ → Prop
  | new {n : ℕ} : start n → History start (TreeBlockMgr.new n) ∅
  | newZero {m : ℕ} {t : TreeBlockMgr} : 0 < m → m < 2 ^ 32 →
      (TreeBlockMgr.new 0).resize m = .ok t → History start t ∅
  | resize {t t' : TreeBlockMgr} {taken : Finset ℕ} {m : ℕ} : History start t taken →
      t.size < m → m < 2 ^ 32 → t.resize m = .ok t' → History start t' taken
  | take {t t' : TreeBlockMgr} {taken : Finset ℕ} {s : ℕ} : History start t taken →
      s < t.size → t.check s = false → t.take s = .ok t' → History start t' (insert s taken)

/-- The documented behaviour of a manager from which exactly `taken` has been taken. -/
structure Correct (t : TreeBlockMgr) (taken : Finset ℕ) : Prop where
  nonempty : ∀ b ∈ t.tree, b.first < b.last
  increasing : t.tree.Pairwise fun a b => a.first < b.first
  separated : t.tree.Pairwise fun a b => a.last < b.first
  inside : ∀ b ∈ t.tree, b.last ≤ t.size
  union : ∀ x, (∃ b ∈ t.tree, b.first ≤ x ∧ x < b.last) ↔ x < t.size ∧ x ∉ taken
  check_iff : ∀ s < t.size, t.check s = true ↔ s ∈ taken
  freeLength_eq : t.freeLength = (Finset.range t.size \ taken).card
  take_ok : ∀ s < t.size, t.check s = false → ∃ t', t.take s = .ok t'
  resize_ok : ∀ m, t.size < m → ∃ t', t.resize m = .ok t'
  runs : ∀ i j, ⟨i, j⟩ ∈ t.tree ↔ IsRun (fun x => x < t.size ∧ x ∉ taken) i j
  serialize : t.serializeToBuffer t.byteSize = .ok (t.tree.flatMap Block.bytes)

theorem History.rep {start : ℕ → Prop} (hstart : ∀ n, start n → u32 n ≠ 0)
    (h : History start t taken) : t.Rep taken := by
  induction h with
  | new hn => exact new_rep (hstart _ hn)
  | newZero hpos hlt heq =>
    rw [new_zero_resize hpos] at heq
    cases heq
    exact new_rep (by rw [u32_of_lt hlt]; omega)
  | resize _ hm hlt heq ih =>
    obtain ⟨t', ht', -, hrep⟩ := ih.resize hm hlt
    cases heq.symm.trans ht'
    exact hrep
  | take _ hs hcheck heq ih =>
    obtain ⟨t', ht', -, hrep⟩ := ih.take hs ((ih.check_false hs).mp hcheck)
    cases heq.symm.trans ht'
    exact hrep

theorem resize_isOk (t : TreeBlockMgr) {m : ℕ} (hm : t.size < m) : ∃ t', t.resize m = .ok t' := by
  unfold TreeBlockMgr.resize
  rw [require_bind _ hm]
  rcases t.tree.getLast? with _ | it
  · exact ⟨_, rfl⟩
  · dsimp only
    split_ifs <;> exact ⟨_, rfl⟩

theorem Rep.correct (h : t.Rep taken) : t.Correct taken where
  nonempty := h.separated.1
  increasing := h.separated.2.imp_of_mem fun ha _ hab => (h.separated.1 _ ha).trans hab
  separated := h.separated.2
  inside _ hb := h.last_le hb
  union := h.covers_iff
  check_iff _ hs := h.check_iff hs
  freeLength_eq := h.freeLength_eq
  take_ok _ hs hc :=
    let ⟨t', ht', _⟩ := h.take hs ((h.check_false hs).mp hc)
    ⟨t', ht'⟩
  resize_ok _ hm := resize_isOk t hm
  runs := h.mem_tree_iff
  serialize := serializeToBuffer_byteSize t

/-- Every history keeps the representation, whatever mix of growth and takes it is. The
constructor narrows its size to 32 bits, so the start is a size that is not a multiple of `2^32`. -/
theorem history_correct {t : TreeBlockMgr} {taken : Finset ℕ}
    (h : History (fun n => n % 2 ^ 32 ≠ 0) t taken) : t.Correct taken :=
  (h.rep fun _ hn => hn).correct

theorem history_correct_take_two :
    ∃ t, History (fun n => n % 2 ^ 32 ≠ 0) t {2} ∧ t.Correct {2} := by
  have hist : History (fun n => n % 2 ^ 32 ≠ 0) ⟨5, 1, [⟨0, 2⟩, ⟨3, 5⟩]⟩ (insert 2 ∅) :=
    .take (t := new 5) (.new (by decide)) (by decide) (by decide) rfl
  exact ⟨_, hist, history_correct hist⟩

/-- A size of `2^32` is narrowed to 0 and leaves an empty block behind. -/
theorem new_two_pow_not_correct :
    ¬∀ t taken, History (fun n => 1 ≤ n) t taken → t.Correct taken := by
  intro h
  have hnew := (h (new (2 ^ 32)) ∅ (.new (by decide))).nonempty ⟨0, 0⟩ (by decide)
  exact absurd hnew (by decide)

end TreeBlockMgr

end Mlt
