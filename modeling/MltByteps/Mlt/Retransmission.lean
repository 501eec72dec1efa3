import MltByteps.Mlt.PriorityChannel

/-! Retransmit requests: the blocks a request carries, and the two-level cursor that walks
through them one packet at a time. -/

namespace Mlt
open LittleEndian IntervalList

namespace RetransmitRequest

theorem ofLeBytes_bytes {b : Block} (hf : b.first < 2 ^ 32) (hl : b.last < 2 ^ 32)
    (rest : List UInt8) :
    ofLeBytes ((b.bytes ++ rest).take 4) = b.first ∧
      ofLeBytes (((b.bytes ++ rest).drop 4).take 4) = b.last := by
  have hlen : (leBytes 4 b.first).length = 4 := length_leBytes 4 _
  have hlen' : (leBytes 4 b.last).length = 4 := length_leBytes 4 _
  rw [Block.bytes, List.append_assoc, List.take_left' hlen, List.drop_left' hlen,
    List.take_left' hlen', ofLeBytes_leBytes_of_lt (by simpa using hf),
    ofLeBytes_leBytes_of_lt (by simpa using hl)]
  exact ⟨rfl, rfl⟩

theorem drop_flatMap_bytes (pre post : List Block) :
    ((pre ++ post).flatMap Block.bytes).drop (pre.length * sizeofBlock) =
      post.flatMap Block.bytes := by
  rw [List.flatMap_append]
  exact List.drop_left' (TreeBlockMgr.length_flatMap_bytes pre)

variable {req : RetransmitRequest} {cut cut' : Prop} {blocks : List Block}

/-- The request announces these blocks and holds the first of them; only a request that has been
cut lacks any. -/
structure Carries (req : RetransmitRequest) (cut : Prop) (blocks : List Block) : Prop where
  payload_eq_take : ∃ n, req.payload = (blocks.flatMap Block.bytes).take n
  payload_eq : ¬cut → req.payload = blocks.flatMap Block.bytes
  numBlocks_eq : req.numBlocks = blocks.length
  numBlocks_lt : req.numBlocks < 2 ^ 32
  nonempty : ∀ b ∈ blocks, b.first < b.last
  last_lt : ∀ b ∈ blocks, b.last < 2 ^ 32

theorem Carries.mono (h : req.Carries cut blocks) (hcut : cut → cut') : req.Carries cut' blocks :=
  { h with payload_eq := fun hn => h.payload_eq fun hc => hn (hcut hc) }

theorem Carries.take (h : req.Carries False blocks) {n : ℕ}
    (hn : ¬cut → req.payload.length ≤ n) :
    Carries { req with payload := req.payload.take n } cut blocks :=
  { h with
    payload_eq_take := ⟨n, by rw [h.payload_eq not_false]⟩
    payload_eq := fun hc => by
      dsimp only
      rw [List.take_of_length_le (hn hc), h.payload_eq not_false] }

theorem Carries.block {pre post : List Block} {b : Block}
    (h : req.Carries cut (pre ++ b :: post)) :
    Yields cut (req.block pre.length) (· = b) := by
  have hb : b ∈ pre ++ b :: post := by simp
  have hlast := h.last_lt b hb
  have hfirst := h.nonempty b hb
  by_cases hlen : (pre.length + 1) * sizeofBlock ≤ req.payload.length
  · obtain ⟨n, hn⟩ := h.payload_eq_take
    have hle : (pre.length + 1) * sizeofBlock ≤ n := hlen.trans (hn ▸ List.length_take_le _ _)
    have hdrop : req.payload.drop (pre.length * sizeofBlock) =
        b.bytes ++
          (post.flatMap Block.bytes).take (n - pre.length * sizeofBlock - sizeofBlock) := by
      rw [hn, List.drop_take, drop_flatMap_bytes, List.flatMap_cons, List.take_append,
        Block.length_bytes, List.take_of_length_le]
      rw [Block.length_bytes]
      rw [Nat.succ_mul] at hle
      omega
    obtain ⟨h1, h2⟩ := ofLeBytes_bytes (by omega : b.first < 2 ^ 32) hlast
      ((post.flatMap Block.bytes).take (n - pre.length * sizeofBlock - sizeofBlock))
    refine .of_ok ?_ rfl
    unfold RetransmitRequest.block
    rw [require_bind _ hlen, hdrop]
    dsimp only
    rw [h1, h2]
    rfl
  · refine .inr ⟨by_contra fun hcut => hlen ?_, .outOfBounds, ?_⟩
    · rw [h.payload_eq hcut, TreeBlockMgr.length_flatMap_bytes]
      apply Nat.mul_le_mul_right
      simp
    · simp only [RetransmitRequest.block, require, if_neg hlen]
      rfl

theorem carries_of_rep {mgr : TreeBlockMgr} {taken : Finset ℕ} (h : mgr.Rep taken) (msgId : UInt32)
    (commId : ℤ) :
    Carries ⟨msgId, commId, u32 (mgr.byteSize / sizeofBlock), mgr.tree.flatMap Block.bytes⟩
      False mgr.tree := by
  have hlen := h.separated.two_mul_length_le fun b hb => h.last_le hb
  have hsize := h.size_lt
  have hnum : u32 (mgr.byteSize / sizeofBlock) = mgr.tree.length := by
    rw [TreeBlockMgr.byteSize, Nat.mul_div_cancel _ (by decide)]
    exact u32_of_lt (by omega)
  exact ⟨⟨_, (List.take_length).symm⟩, fun _ => rfl, hnum, by dsimp only; omega, h.separated.1,
    fun b hb => (h.last_le hb).trans_lt hsize⟩

/-- The cursor stands inside a block, with the sequence numbers of `l` still to go. -/
def Cursor (req : RetransmitRequest) (cut : Prop) (state : RetransmitState) (l : List ℕ) : Prop :=
  ∃ pre b post, req.Carries cut (pre ++ b :: post) ∧ state.blockNum = pre.length ∧
    b.first ≤ state.seqNum ∧ state.seqNum < b.last ∧
    l = List.range' state.seqNum (b.last - state.seqNum) ++ points Block.first Block.last post

theorem Carries.cursor {b : Block} (h : req.Carries cut (b :: blocks)) :
    req.Cursor cut ⟨0, b.first⟩ (points Block.first Block.last (b :: blocks)) :=
  ⟨[], b, blocks, h, rfl, le_rfl, h.nonempty b (List.mem_cons_self ..), rfl⟩

variable {state : RetransmitState} {l : List ℕ}

theorem range'_sub {a b : ℕ} (h : a < b) :
    List.range' a (b - a) = a :: List.range' (a + 1) (b - (a + 1)) := by
  rw [show b - a = b - (a + 1) + 1 by omega, List.range'_succ]

/-- Behind the packet at the cursor stands the cursor of the rest, or the request is at its end. -/
def After (req : RetransmitRequest) (cut : Prop) (rest : List ℕ) (state : RetransmitState) : Prop :=
  (state.blockNum = req.numBlocks ↔ rest = []) ∧ (rest ≠ [] → req.Cursor cut state rest)

theorem Carries.advance {pre post : List Block} {b : Block}
    (hc : req.Carries cut (pre ++ b :: post)) (hnum : state.blockNum = pre.length)
    (hlo : b.first ≤ state.seqNum) (hhi : state.seqNum < b.last) :
    Yields cut (Communicator.advance req state b) (req.After cut
      (List.range' (state.seqNum + 1) (b.last - (state.seqNum + 1)) ++
        points Block.first Block.last post)) := by
  have hb : b ∈ pre ++ b :: post := by simp
  have hlast := hc.last_lt b hb
  have hlen : req.numBlocks = pre.length + post.length + 1 := by
    rw [hc.numBlocks_eq, List.length_append, List.length_cons]
    omega
  have hlt := hc.numBlocks_lt
  have hseq : u32 (state.seqNum + 1) = state.seqNum + 1 := u32_of_lt (by omega)
  have hblk : u32 (state.blockNum + 1) = pre.length + 1 := by
    rw [hnum]
    exact u32_of_lt (by omega)
  unfold Communicator.advance
  dsimp only
  rw [hseq, hblk]
  by_cases hend : state.seqNum + 1 = b.last
  · rw [if_pos hend, show b.last - (state.seqNum + 1) = 0 by omega, List.range'_zero,
      List.nil_append]
    cases post with
    | nil =>
      simp only [List.length_nil] at hlen
      rw [if_neg (by omega)]
      exact .of_ok rfl ⟨by simp [hlen, points], fun hne => absurd rfl hne⟩
    | cons b' post =>
      have hb' := hc.nonempty b' (by simp)
      simp only [List.length_cons] at hlen
      have hc' : req.Carries cut ((pre ++ [b]) ++ b' :: post) := by simpa using hc
      have hnext : Yields cut (req.block (pre.length + 1)) (· = b') := by simpa using hc'.block
      rw [if_pos (by omega)]
      refine hnext.bind fun next hnext => .of_ok rfl ?_
      subst hnext
      refine ⟨?_, fun _ => ⟨pre ++ [b], next, post, hc', by simp, le_rfl, hb', rfl⟩⟩
      simp only [points, List.flatMap_cons, List.append_eq_nil_iff, List.range'_eq_nil_iff]
      omega
  · rw [if_neg hend]
    refine .of_ok rfl ⟨?_, fun _ => ⟨pre, b, post, hc, hnum, ?_, ?_, rfl⟩⟩
    · rw [List.append_eq_nil_iff, List.range'_eq_nil_iff]
      dsimp only
      omega
    · dsimp only
      omega
    · dsimp only
      omega

theorem Cursor.next (h : req.Cursor cut state l) :
    ∃ rest block, l = state.seqNum :: rest ∧ state.blockNum < req.numBlocks ∧
      Yields cut (req.block state.blockNum) (· = block) ∧ block.first ≤ state.seqNum ∧
      state.seqNum < block.last ∧
      (u32 (state.blockNum + 1) = req.numBlocks ∧ u32 (state.seqNum + 1) = block.last ↔
        rest = []) ∧
      Yields cut (Communicator.advance req state block) (req.After cut rest) := by
  obtain ⟨pre, b, post, hc, hnum, hlo, hhi, rfl⟩ := h
  have hb : b ∈ pre ++ b :: post := by simp
  have hlast := hc.last_lt b hb
  have hlen : req.numBlocks = pre.length + post.length + 1 := by
    rw [hc.numBlocks_eq, List.length_append, List.length_cons]
    omega
  have hlt := hc.numBlocks_lt
  have hseq : u32 (state.seqNum + 1) = state.seqNum + 1 := u32_of_lt (by omega)
  have hblk : u32 (state.blockNum + 1) = pre.length + 1 := by
    rw [hnum]
    exact u32_of_lt (by omega)
  refine ⟨_, b, by rw [range'_sub hhi, List.cons_append], by omega, hnum ▸ hc.block, hlo, hhi, ?_,
    hc.advance hnum hlo hhi⟩
  rw [hseq, hblk, List.append_eq_nil_iff, List.range'_eq_nil_iff]
  cases post with
  | nil =>
    simp only [List.length_nil] at hlen
    simp only [points, List.flatMap_nil, and_true]
    omega
  | cons b' post =>
    have := hc.nonempty b' (by simp)
    simp only [List.length_cons] at hlen
    simp only [points, List.flatMap_cons, List.append_eq_nil_iff, List.range'_eq_nil_iff]
    omega

theorem Cursor.ne_nil (h : req.Cursor cut state l) : l ≠ [] := by
  obtain ⟨rest, -, rfl, -⟩ := h.next
  simp

end RetransmitRequest

end Mlt
