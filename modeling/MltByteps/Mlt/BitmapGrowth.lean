import MltByteps.Mlt.BitmapBlockMgr

/-! The bitmap block manager when it grows. `Resize` looks at the bit of the new last number
where the bit of the old one would tell whether a new run begins. -/

namespace Mlt
open IntervalList

theorem Bitmap.taken_resize {b : Bitmap} {size : ℕ} (hle : b.vec.length ≤ roundUp size typeSize)
    (x : ℕ) : (b.resize size).Taken x ↔ b.Taken x := by
  have hvalue : (b.resize size).underlayValue (x / 64) = b.underlayValue (x / 64) := by
    simp only [resize, underlayValue, List.take_of_length_le hle, List.getD_eq_getElem?_getD]
    rcases Nat.lt_or_ge (x / 64) b.vec.length with hx | hx
    · rw [List.getElem?_append_left hx]
    · rw [List.getElem?_append_right hx, List.getElem?_eq_none hx, List.getElem?_replicate]
      split_ifs <;> rfl
  rw [Taken, Taken, hvalue]

namespace BitmapBlockMgr

variable {m : BitmapBlockMgr} {taken : Finset ℕ} {k : ℕ}

theorem Rep.resize (h : m.Rep taken) (hlt : m.size < k) (hle : k ≤ 2 ^ 32 - 64) :
    ∃ m', m.resize k = .ok m' ∧ m'.size = k ∧ m'.Rep taken ∧ m'.segments = m.segments := by
  have hk : u32 k = k := u32_of_lt (by omega)
  have hround : Bitmap.roundUp k Bitmap.typeSize = (k + 63) / 64 := rfl
  have hvec : m.bitmap.vec.length ≤ Bitmap.roundUp k Bitmap.typeSize := by
    rw [h.words, hround]
    omega
  have htaken : ∀ x, (m.bitmap.resize k).Taken x ↔ x ∈ taken :=
    fun x => (Bitmap.taken_resize hvec x).trans (h.taken_iff x)
  have hlast : ¬(m.bitmap.resize k).test (u32 (k + 2 ^ 32 - 1)) ≠ 0 := by
    have hpos : u32 (k + 2 ^ 32 - 1) = k - 1 := by
      unfold u32
      omega
    rw [Bitmap.test_ne_zero, htaken, hpos]
    intro hmem
    have := h.taken_lt _ hmem
    omega
  rw [BitmapBlockMgr.resize, require_bind _ hlt]
  dsimp only
  rw [hk, if_neg hlast]
  refine ⟨_, rfl, rfl, ⟨by dsimp only; omega, hle, ?_, htaken, h.used_eq, fun x hx => ?_⟩, rfl⟩
  · simp only [Bitmap.resize, List.length_append, List.length_take, List.length_replicate, hround]
    rw [hround] at hvec
    omega
  · exact (h.taken_lt x hx).trans hlt

theorem Rep.test_last_eq_zero (h : m.Rep taken) :
    m.bitmap.test (m.size - 1) = 0 ↔ m.size - 1 ∉ taken := by
  rw [← h.test_iff, not_not]

end BitmapBlockMgr

namespace TreeBlockMgr

variable {t t' : TreeBlockMgr} {taken : Finset ℕ} {k : ℕ}

theorem length_emplace {b : Block} {tree : List Block} (h : ∀ c ∈ tree, c.first ≠ b.first) :
    (emplace tree b).length = tree.length + 1 := by
  have hlen := congrArg List.length (List.takeWhile_append_dropWhile
    (p := fun c : Block => decide (c.first < b.first)) (l := tree))
  rw [emplace, if_neg (by rintro ⟨c, hc, heq⟩; exact h c hc heq)]
  rw [List.length_append] at hlen
  rw [List.length_append, List.length_cons]
  omega

theorem Rep.resize_length (h : t.Rep taken) (hlt : t.size < k) (ht' : t.resize k = .ok t') :
    t'.tree.length = t.tree.length + if t.size - 1 ∈ taken then 1 else 0 := by
  have hpos := h.size_pos
  have hfree : t.size - 1 ∉ taken ↔ ∃ b ∈ t.tree, b.last = t.size := by
    constructor
    · intro hn
      obtain ⟨b, hb, -, hlast⟩ := (h.covers_iff (t.size - 1)).mpr ⟨by omega, hn⟩
      have := h.last_le hb
      exact ⟨b, hb, by omega⟩
    · rintro ⟨b, hb, hlast⟩
      have := h.separated.1 b hb
      exact ((h.covers_iff _).mp ⟨b, hb, by omega, by omega⟩).2
  have hnew : (emplace t.tree ⟨t.size, u32 k⟩).length = t.tree.length + 1 := by
    refine length_emplace fun c hc heq => ?_
    have hc' := h.separated.1 c hc
    have := h.last_le hc
    dsimp only at heq
    omega
  unfold TreeBlockMgr.resize at ht'
  rw [require_bind _ hlt] at ht'
  rcases hlast : t.tree.getLast? with _ | it
  · rw [hlast] at ht'
    cases ht'
    have hnil := List.getLast?_eq_none_iff.mp hlast
    have htaken : t.size - 1 ∈ taken := not_not.mp fun hn => by
      obtain ⟨b, hb, -⟩ := hfree.mp hn
      simp [hnil] at hb
    rw [if_pos htaken]
    exact hnew
  · rw [hlast] at ht'
    obtain ⟨pre, hpre⟩ := List.getLast?_eq_some_iff.mp hlast
    have hmem : it ∈ t.tree := hpre ▸ List.mem_append_right _ (List.mem_singleton_self it)
    dsimp only at ht'
    split_ifs at ht' with hit
    · cases ht'
      -- The blocks before the last one end before it begins.
      have htaken : t.size - 1 ∈ taken := not_not.mp fun hn => by
        obtain ⟨b, hb, hb'⟩ := hfree.mp hn
        have hsep := h.separated
        rw [hpre] at hb hsep
        rcases List.mem_append.mp hb with hb | hb
        · have := (hsep.around.1 b hb).2
          have := h.separated.1 it hmem
          omega
        · rw [List.mem_singleton.mp hb] at hb'
          omega
      rw [if_pos htaken]
      exact hnew
    · cases ht'
      have := h.last_le hmem
      rw [if_neg (hfree.mpr ⟨it, hmem, by omega⟩), hpre, List.dropLast_concat]
      simp

end TreeBlockMgr

namespace Twins

variable {taken : Finset ℕ} {m : BitmapBlockMgr} {t : TreeBlockMgr} {s k : ℕ}

theorem segments_eq (h : Twins taken m t) :
    m.segments = runCount fun x => x < m.size ∧ x ∉ taken := by
  rw [h.segments, h.size]
  exact h.tree.separated.length_eq_runCount h.tree.covers_iff

theorem resize (h : Twins taken m t) (hlt : m.size < k) (hle : k ≤ 2 ^ 32 - 64) :
    ∃ m' t', m.resize k = .ok m' ∧ t.resize k = .ok t' ∧ m'.size = k ∧ t'.size = k ∧
      m'.Rep taken ∧ t'.Rep taken ∧
      t'.tree.length = m'.segments + if m.size - 1 ∈ taken then 1 else 0 := by
  have hlt' : t.size < k := h.size ▸ hlt
  obtain ⟨m', hm', hsize, hrep, hsegments⟩ := h.bitmap.resize hlt hle
  obtain ⟨t', ht', htsize, htrep⟩ := h.tree.resize hlt' (by omega)
  refine ⟨m', t', hm', ht', hsize, htsize, hrep, htrep, ?_⟩
  rw [h.tree.resize_length hlt' ht', hsegments, h.segments, h.size]

end Twins

/-! ## Whole histories -/

namespace BitmapBlockMgr

/-- A manager and the numbers taken from it, after `Take` calls, also of taken numbers, and
calls of `Resize` that `grows` admits. -/
inductive History (start : ℕ → Prop) (grows : BitmapBlockMgr → ℕ → Prop) :
    BitmapBlockMgr → Finset ℕ → Prop
  | new {n : ℕ} : start n → History start grows (BitmapBlockMgr.new n) ∅
  | take {m m' : BitmapBlockMgr} {taken : Finset ℕ} {s : ℕ} : History start grows m taken →
      s < m.size → m.take s = .ok m' → History start grows m' (insert s taken)
  | resize {m m' : BitmapBlockMgr} {taken : Finset ℕ} {k : ℕ} : History start grows m taken →
      m.size < k → grows m k → m.resize k = .ok m' → History start grows m' taken

/-- `SerializeToBuffer` does not end for the last sizes below `2^32`. -/
def Fits (size : ℕ) : Prop := 1 ≤ size ∧ size ≤ 2 ^ 32 - 64

def GrowsFree (m : BitmapBlockMgr) (size : ℕ) : Prop :=
  Fits size ∧ m.bitmap.test (m.size - 1) = 0

instance (size : ℕ) : Decidable (Fits size) :=
  inferInstanceAs (Decidable (1 ≤ size ∧ size ≤ 2 ^ 32 - 64))

instance (m : BitmapBlockMgr) (size : ℕ) : Decidable (GrowsFree m size) :=
  inferInstanceAs (Decidable (Fits size ∧ m.bitmap.test (m.size - 1) = 0))

variable {m : BitmapBlockMgr} {taken : Finset ℕ}

theorem History.rep (h : History Fits (fun _ => Fits) m taken) : m.Rep taken := by
  induction h with
  | new hn => exact new_rep hn.1 hn.2
  | @take m m' taken s _ hs heq ih =>
    by_cases hmem : s ∈ taken
    · cases heq.symm.trans (ih.take_of_mem hs hmem)
      rw [Finset.insert_eq_of_mem hmem]
      exact ih
    · obtain ⟨m₁, hm₁, -, hrep⟩ := ih.take_rep hs hmem
      cases heq.symm.trans hm₁
      exact hrep
  | resize _ hlt hgrows heq ih =>
    obtain ⟨m₁, hm₁, -, hrep, -⟩ := ih.resize hlt hgrows.2
    cases heq.symm.trans hm₁
    exact hrep

theorem History.twins (h : History Fits GrowsFree m taken) : ∃ t, Twins taken m t := by
  induction h with
  | new hn => exact ⟨_, .new hn.1 hn.2⟩
  | @take m m' taken s _ hs heq ih =>
    obtain ⟨t, ht⟩ := ih
    by_cases hmem : s ∈ taken
    · cases heq.symm.trans (ht.bitmap.take_of_mem hs hmem)
      rw [Finset.insert_eq_of_mem hmem]
      exact ⟨t, ht⟩
    · obtain ⟨m₁, t₁, hm₁, -, htwins, -⟩ := ht.take (ht.size ▸ hs) hmem
      cases heq.symm.trans hm₁
      exact ⟨t₁, htwins⟩
  | resize _ hlt hgrows heq ih =>
    obtain ⟨t, ht⟩ := ih
    obtain ⟨m₁, t₁, hm₁, -, hsize, htsize, hrep, htrep, hlength⟩ := ht.resize hlt hgrows.1.2
    cases heq.symm.trans hm₁
    rw [if_neg (ht.bitmap.test_last_eq_zero.mp hgrows.2)] at hlength
    exact ⟨t₁, hrep, htrep, hsize.trans htsize.symm, hlength.symm⟩

/-- As long as the last number is free whenever the manager grows, `segments_` is the number of
free runs and `SerializeToBuffer` fills the buffer of `ByteSize()` bytes. The next growth keeps
the count if and only if the last number is free. -/
theorem segments_count_runs (h : History Fits GrowsFree m taken) :
    m.segments = runCount (fun x => x < m.size ∧ x ∉ taken) ∧
    (∀ wide, ∃ out, m.serializeToBuffer wide m.byteSize = some (.ok out) ∧
      out.length = m.byteSize) ∧
    ∀ k, m.size < k → k ≤ 2 ^ 32 - 64 → ∃ m', m.resize k = .ok m' ∧
      (m'.segments = runCount (fun x => x < m'.size ∧ x ∉ taken) ↔
        m.bitmap.test (m.size - 1) = 0) := by
  obtain ⟨t, ht⟩ := h.twins
  refine ⟨ht.segments_eq, fun wide => ?_, fun k hlt hle => ?_⟩
  · have hsame := ht.interchangeable
    obtain ⟨out, hm, htree⟩ := hsame.serialize wide
    refine ⟨out, hm, ?_⟩
    rw [TreeBlockMgr.serializeToBuffer_byteSize] at htree
    cases htree
    rw [TreeBlockMgr.length_flatMap_bytes, hsame.byteSize]
    rfl
  · obtain ⟨m', t', hm', -, hsize, htsize, -, htrep, hlength⟩ := ht.resize hlt hle
    refine ⟨m', hm', ?_⟩
    have hruns := htrep.separated.length_eq_runCount htrep.covers_iff
    rw [htsize, ← hsize] at hruns
    rw [← hruns, ht.bitmap.test_last_eq_zero, hlength]
    split_ifs with hmem <;> simp [hmem]

theorem segments_count_runs_five :
    ∃ m, History Fits GrowsFree m {1} ∧ m.size = 5 ∧
      m.segments = runCount fun x => x < 5 ∧ x ∉ ({1} : Finset ℕ) := by
  have hist : History Fits GrowsFree ⟨5, 1, 2, ⟨5, [2]⟩⟩ (insert 1 ∅) :=
    .resize (m := ⟨3, 1, 2, ⟨3, [2]⟩⟩) (k := 5)
      (.take (m := .new 3) (.new (by decide)) (by decide) (by decide +kernel)) (by decide)
      (by decide +kernel) (by decide +kernel)
  exact ⟨_, hist, rfl, (segments_count_runs hist).1⟩

/-- The only number is taken before the manager grows: the new number is a free run that is not
counted, and the buffer is too small for it. -/
theorem growth_after_taken_tail :
    ∃ m, History (1 ≤ ·) (fun _ _ => True) m {0} ∧ m.size = 2 ∧ m.segments = 0 ∧
      runCount (fun x => x < 2 ∧ x ∉ ({0} : Finset ℕ)) = 1 ∧
      ∀ wide, m.serializeToBuffer wide m.byteSize = some (.error .streamWrite) := by
  have htake : (new 1).take 0 = .ok ⟨1, 1, 0, ⟨1, [1]⟩⟩ := by decide +kernel
  have hresize : resize ⟨1, 1, 0, ⟨1, [1]⟩⟩ 2 = .ok ⟨2, 1, 0, ⟨2, [1]⟩⟩ := by decide +kernel
  have hsep : Separated Block.first Block.last [⟨1, 2⟩] := separated_singleton (by decide)
  have hfree : ∀ x, Covers Block.first Block.last [⟨1, 2⟩] x ↔
      x < 2 ∧ x ∉ ({0} : Finset ℕ) := by
    intro x
    simp only [Covers, List.mem_singleton, exists_eq_left, Finset.mem_singleton]
    omega
  refine ⟨_, .resize (.take (.new (le_refl 1)) (by decide) htake) (by decide) trivial hresize,
    rfl, rfl, (hsep.length_eq_runCount hfree).symm, fun wide => ?_⟩
  obtain ⟨m₁, hm₁, -, hrep₁, -⟩ := (new_rep le_rfl (by decide)).take
    (show 0 < (new 1).size by decide) (by simp) (by decide) (by decide)
  cases htake.symm.trans hm₁
  obtain ⟨m₂, hm₂, -, hrep₂, -⟩ := hrep₁.resize (k := 2) (by decide) (by decide)
  cases hresize.symm.trans hm₂
  rw [serializeToBuffer, hrep₂.freeBlocks_eq hsep hfree wide]
  rfl

end BitmapBlockMgr

end Mlt
