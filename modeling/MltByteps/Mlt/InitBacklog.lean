import MltByteps.Lib.Loop
import MltByteps.Lib.Pointer
import MltByteps.Mlt.Communicator

/-! The slots into which a connection cuts its backlog buffer. -/

namespace Mlt

inductive BacklogFault where
  -- A pointer beyond the end of the buffer.
  | undefined
  -- The loop has not ended.
  | timeout
deriving DecidableEq, Repr

/-- `MLTGlobal::ConnectionBacklogSize`, by the value of `MLT_CONN_BACKLOG_SIZE` if it is set. -/
def connectionBacklogSize (env : Option ℤ) : ℕ := (env.getD 1048576 % 2 ^ 64).toNat

/-- `MLTGlobal::MaxSegment`, by the value of `MLT_MTU` if it is set. -/
def maxSegment (env : Option ℤ) : ℤ := env.getD 1500 - 28

namespace ConnMeta

/-- `ptr` and `backlog_free_list` in the loop of `InitBacklog`. -/
structure Carving where
  ptr : ℕ
  free : List ℕ

section Model

variable {base size : ℕ} (arith : PtrArith base size) (segment : ℕ)

def ptrAdd (p n : ℕ) : Except BacklogFault ℕ := (arith.add p n).elim (.error .undefined) .ok

/-- `ptr < ptr + backlog_buffer_size` -/
def hasRoom (s : Carving) : Except BacklogFault Bool := do
  return decide (s.ptr < (← ptrAdd arith s.ptr size))

def carveSlot (s : Carving) : Except BacklogFault Carving := do
  let free := s.free ++ [s.ptr]
  let ptr ← ptrAdd arith s.ptr segment
  return ⟨ptr, free⟩

/-- `backlog_free_list` after `InitBacklog`; `disable` is the value of
`MLT_DISABLE_FLOW_BACKLOG`. -/
def initBacklog (disable : ℤ) (rounds : ℕ) : Except BacklogFault (List ℕ) :=
  if disable ≠ 0 then .ok []
  else do
    let s ← Loop.exec .timeout (hasRoom arith) (carveSlot arith segment) rounds ⟨base, []⟩
    return s.free

end Model

structure Carved (base size segment : ℕ) (free : List ℕ) : Prop where
  apart : free.Pairwise fun p q => p + segment ≤ q ∨ q + segment ≤ p
  inside : ∀ p ∈ free, base ≤ p ∧ p + segment ≤ base + size

variable {base size segment rounds : ℕ} {arith : PtrArith base size} {s s' : Carving}
  {free : List ℕ}

theorem ptrAdd_eq_ok {p n q : ℕ} : ptrAdd arith p n = .ok q ↔ arith.add p n = some q := by
  unfold ptrAdd
  rcases arith.add p n with _ | r <;> simp

theorem ptrAdd_eq_error {p n : ℕ} (h : arith.add p n = none) :
    ptrAdd arith p n = .error .undefined := by
  rw [ptrAdd, h]
  rfl

/-- The test compares a pointer with one that has moved along with it. -/
theorem hasRoom_ne_false (hsize : 0 < size)
    (h : ∀ q, arith.add s.ptr size = some q → q = s.ptr + size) : hasRoom arith s ≠ .ok false := by
  intro htest
  obtain ⟨q, hq, htest⟩ := bind_eq_ok.mp htest
  have hq := h q (ptrAdd_eq_ok.mp hq)
  have := of_decide_eq_false (Except.ok.inj htest)
  omega

theorem carveSlot_eq_ok (h : carveSlot arith segment s = .ok s') :
    arith.add s.ptr segment = some s'.ptr ∧ s'.free = s.free ++ [s.ptr] := by
  obtain ⟨ptr, hptr, h⟩ := bind_eq_ok.mp h
  cases h
  exact ⟨ptrAdd_eq_ok.mp hptr, rfl⟩

def Reaches (base size segment : ℕ) (s : Carving) : Prop :=
  (∃ k, s.ptr = base + k * segment ∧ k * segment ≤ size) ∨
    ∃ p ∈ s.free, base + size < p + segment

theorem Reaches.step (h : Reaches base size segment s) (hs : carveSlot arith segment s = .ok s') :
    Reaches base size segment s' := by
  obtain ⟨hptr, hfree⟩ := carveSlot_eq_ok hs
  rcases h with ⟨k, hk, hle⟩ | ⟨p, hp, hout⟩
  · by_cases hfits : (k + 1) * segment ≤ size
    · rw [Nat.succ_mul] at hfits
      have := arith.add_near _ _ _ (by omega) hptr
      exact .inl ⟨k + 1, by rw [Nat.succ_mul]; omega, by rw [Nat.succ_mul]; omega⟩
    · rw [Nat.succ_mul] at hfits
      refine .inr ⟨s.ptr, ?_, by omega⟩
      rw [hfree]
      exact List.mem_append_right _ (List.mem_singleton_self _)
  · exact .inr ⟨p, by rw [hfree]; exact List.mem_append_left _ hp, hout⟩

theorem initBacklog_outside (hsize : 0 < size)
    (h : initBacklog arith segment 0 rounds = .ok free) :
    ∃ p ∈ free, base + size < p + segment := by
  obtain ⟨s, hs, h⟩ := bind_eq_ok.mp h
  cases h
  obtain ⟨hreach, htest⟩ := Loop.exec_ok (Reaches base size segment)
    (fun s s' hinv _ hs' => Reaches.step hinv hs') (.inl ⟨0, by simp, by simp⟩) hs
  rcases hreach with ⟨k, hk, hle⟩ | hout
  · exact absurd htest
      (hasRoom_ne_false hsize fun q hq => arith.add_near _ _ _ (by omega) hq)
  · exact hout

theorem initBacklog_zero {arith : PtrArith base 0} :
    initBacklog arith segment 0 rounds = .ok [] := by
  have htest : hasRoom arith ⟨base, []⟩ = .ok false := by
    rw [hasRoom, ptrAdd_eq_ok.mpr (arith.add_inside base 0 le_rfl le_rfl), ok_bind]
    exact congrArg Except.ok (decide_eq_false (lt_irrefl base))
  rw [initBacklog, if_neg (by simp), Loop.exec_of_not rounds htest]
  rfl

theorem initBacklog_ne_ok (hexact : arith.Exact) (hsize : 0 < size) :
    initBacklog arith segment 0 rounds ≠ .ok free := by
  intro h
  obtain ⟨s, hs, -⟩ := bind_eq_ok.mp h
  obtain ⟨-, htest⟩ := Loop.exec_ok (fun _ => True) (fun _ _ _ _ _ => trivial) trivial hs
  exact hasRoom_ne_false hsize (fun q hq => hexact _ _ q hq) htest

theorem initBacklog_unbounded (hsize : 0 < size) :
    initBacklog (.unbounded base size) segment 0 rounds = .error .timeout := by
  rw [initBacklog, if_neg (by simp), Loop.exec_timeout (fun _ => True) _ rounds trivial]
  · rfl
  · intro s _
    refine ⟨?_, ⟨s.ptr + segment, s.free ++ [s.ptr]⟩, rfl, trivial⟩
    exact congrArg Except.ok (decide_eq_true (Nat.lt_add_of_pos_right hsize))

theorem initBacklog_strict (hsize : 0 < size) (hsegment : 1 ≤ segment) :
    initBacklog (.strict base size) segment 0 (rounds + 1) = .error .undefined := by
  have hfirst : hasRoom (.strict base size) ⟨base, []⟩ = .ok true := by
    rw [hasRoom, ptrAdd_eq_ok.mpr ((PtrArith.strict base size).add_inside base size le_rfl le_rfl),
      ok_bind]
    exact congrArg Except.ok (decide_eq_true (Nat.lt_add_of_pos_right hsize))
  rw [initBacklog, if_neg (by simp), Loop.exec_succ rounds hfirst]
  by_cases hfits : segment ≤ size
  · have hslot : carveSlot (.strict base size) segment ⟨base, []⟩ =
        .ok ⟨base + segment, [base]⟩ := by
      rw [carveSlot, ptrAdd_eq_ok.mpr ((PtrArith.strict base size).add_inside base segment le_rfl
        (by omega))]
      rfl
    have hsecond : hasRoom (.strict base size) ⟨base + segment, [base]⟩ = .error .undefined := by
      have hpast : base + size < base + segment + size := by omega
      rw [hasRoom, ptrAdd_eq_error (PtrArith.strict_add_eq_none hpast)]
      rfl
    rw [hslot, ok_bind]
    cases rounds <;> rw [Loop.exec, hsecond] <;> rfl
  · have hpast : base + size < base + segment := by omega
    rw [carveSlot, ptrAdd_eq_error (PtrArith.strict_add_eq_none hpast)]
    rfl

theorem initBacklog_eq_nil {disable : ℤ} (hexact : arith.Exact)
    (h : initBacklog arith segment disable rounds = .ok free) :
    { Communicator.init with backlogFreeList := free } = Communicator.init := by
  suffices free = [] by rw [this]; rfl
  by_cases hdisable : disable = 0
  · subst hdisable
    rcases Nat.eq_zero_or_pos size with rfl | hsize
    · rw [initBacklog_zero] at h
      exact (Except.ok.inj h).symm
    · exact absurd h (initBacklog_ne_ok hexact hsize)
  · rw [initBacklog, if_pos hdisable] at h
    exact (Except.ok.inj h).symm

/-- Whatever an implementation makes of pointers beyond the buffer. -/
theorem init_backlog_carves_iff (arith : PtrArith base size) (segment : ℕ) :
    (∃ rounds free, initBacklog arith segment 0 rounds = .ok free ∧
      Carved base size segment free) ↔ size = 0 := by
  constructor
  · rintro ⟨rounds, free, hfree, hcarved⟩
    by_contra hsize
    obtain ⟨p, hp, hout⟩ := initBacklog_outside (Nat.pos_of_ne_zero hsize) hfree
    have := (hcarved.inside p hp).2
    omega
  · rintro rfl
    exact ⟨0, [], initBacklog_zero, List.Pairwise.nil, fun _ hp => absurd hp List.not_mem_nil⟩

/-- With the sizes that are set by default, for the addresses of a machine, for addresses without
end, and by the rule of the language. -/
theorem default_backlog_not_carved :
    maxSegment none = 1472 ∧ connectionBacklogSize none = 1048576 ∧
    (¬∃ rounds free,
      initBacklog (.wrapping 4096 1048576 (by decide)) 1472 0 rounds = .ok free ∧
        Carved 4096 1048576 1472 free) ∧
    (∀ rounds, initBacklog (.unbounded 4096 1048576) 1472 0 rounds = .error .timeout) ∧
    initBacklog (.strict 4096 1048576) 1472 0 1 = .error .undefined := by
  refine ⟨rfl, rfl, ?_, fun rounds => initBacklog_unbounded (by decide),
    initBacklog_strict (by decide) (by decide)⟩
  rintro ⟨rounds, free, hfree, hcarved⟩
  obtain ⟨p, hp, hout⟩ := initBacklog_outside (by decide) hfree
  have := (hcarved.inside p hp).2
  omega

end ConnMeta

end Mlt
