import Mathlib.Algebra.BigOperators.Group.Finset.Piecewise
import Mathlib.Algebra.Order.BigOperators.Group.Finset
import Mathlib.Data.Fintype.Card
import MltByteps.Lib.Check
import MltByteps.Lib.Progress

/-! The queue under a mutex with a condition variable, which the threads of a process share:
`Push`, `WaitAndPop` and `TryPop` step by step, by any number of threads. -/

namespace Mlt

/-- Where a thread is in its call. `unlock` leaves `WaitAndPop` or `TryPop` with what has been
popped; a thread that is woken from `asleep` takes the mutex again and looks at the queue
again, which is where `WaitAndPop` begins. -/
inductive QueuePc (V : Type) where
  | idle
  | pushLock (v : V)
  | pushValue (v : V)
  | pushUnlock
  | notifyAll
  | waitLock
  | waitTest
  | asleep
  | tryLock
  | tryTest
  | front
  | unlock (result : Option V)
deriving DecidableEq

/-- `pushed` and `popped` list the values in the order in which they went through the queue;
the program reads neither. -/
structure ThreadsafeQueue (T V : Type) where
  mu : Option T
  queue : List V
  pc : T → QueuePc V
  pushed : List V
  popped : List (T × V)

inductive QueueFault where
  | frontOfEmpty
  | unlockNotOwned
deriving DecidableEq

inductive QueueCall (V : Type) where
  | push (v : V)
  | waitAndPop
  | tryPop

namespace ThreadsafeQueue

variable {T V : Type}

def init : ThreadsafeQueue T V := ⟨none, [], fun _ => .idle, [], []⟩

def wakeAll (s : ThreadsafeQueue T V) : ThreadsafeQueue T V :=
  { s with pc := fun t => match s.pc t with
      | .asleep => .waitLock
      | pc => pc }

def entry : QueueCall V → QueuePc V
  | .push v => .pushLock v
  | .waitAndPop => .waitLock
  | .tryPop => .tryLock

inductive Action (T V : Type) where
  | call (t : T) (c : QueueCall V)
  | advance (t : T)
  | spuriousWakeUp (t : T)

/-- A thread waits for the mutex, sleeps, or can go on. -/
def CanAdvance (s : ThreadsafeQueue T V) (t : T) : Prop :=
  match s.pc t with
  | .idle | .asleep => False
  | .pushLock _ | .waitLock | .tryLock => s.mu = none
  | _ => True

def Allowed (s : ThreadsafeQueue T V) : Action T V → Prop
  | .call t _ => s.pc t = .idle
  | .advance t => s.CanAdvance t
  | .spuriousWakeUp t => s.pc t = .asleep

section

variable [DecidableEq T]

def goto (t : T) (pc : QueuePc V) (s : ThreadsafeQueue T V) : ThreadsafeQueue T V :=
  { s with pc := Function.update s.pc t pc }

def lock (t : T) (pc : QueuePc V) (s : ThreadsafeQueue T V) : ThreadsafeQueue T V :=
  { s.goto t pc with mu := some t }

def unlock (t : T) (pc : QueuePc V) (s : ThreadsafeQueue T V) :
    Except QueueFault (ThreadsafeQueue T V) := do
  require .unlockNotOwned (s.mu = some t)
  return { s.goto t pc with mu := none }

def popFront (t : T) (s : ThreadsafeQueue T V) : Except QueueFault (ThreadsafeQueue T V) :=
  match s.queue with
  | [] => .error .frontOfEmpty
  | v :: queue => .ok { s.goto t (.unlock (some v)) with queue, popped := s.popped ++ [(t, v)] }

def advance (t : T) (s : ThreadsafeQueue T V) : Except QueueFault (ThreadsafeQueue T V) :=
  match s.pc t with
  | .idle => .ok s
  | .pushLock v => .ok (s.lock t (.pushValue v))
  | .pushValue v =>
    .ok { s.goto t .pushUnlock with queue := s.queue ++ [v], pushed := s.pushed ++ [v] }
  | .pushUnlock => s.unlock t .notifyAll
  | .notifyAll => .ok (s.wakeAll.goto t .idle)
  | .waitLock => .ok (s.lock t .waitTest)
  -- the mutex is released and the thread put to sleep in one step
  | .waitTest => if s.queue = [] then s.unlock t .asleep else .ok (s.goto t .front)
  | .asleep => .ok s
  | .tryLock => .ok (s.lock t .tryTest)
  | .tryTest => .ok (s.goto t (if s.queue = [] then .unlock none else .front))
  | .front => s.popFront t
  | .unlock _ => s.unlock t .idle

def step (s : ThreadsafeQueue T V) : Action T V → Except QueueFault (ThreadsafeQueue T V)
  | .call t c => .ok (s.goto t (entry c))
  | .advance t => s.advance t
  | .spuriousWakeUp t => .ok (s.goto t .waitLock)

variable (T V) in
def machine : Machine (ThreadsafeQueue T V) (Action T V) QueueFault where
  init := init
  step := step

end

end ThreadsafeQueue

namespace QueuePc

variable {V : Type}

def Holds : QueuePc V → Prop
  | .pushValue _ | .pushUnlock | .waitTest | .tryTest | .front | .unlock _ => True
  | _ => False

/-- The thread has pushed a value and not yet called `notify_all`. -/
def Notifies : QueuePc V → Prop
  | .pushUnlock | .notifyAll => True
  | _ => False

end QueuePc

namespace ThreadsafeQueue

variable {T V : Type} {s s' : ThreadsafeQueue T V} {t u : T} {pc : QueuePc V}

/-- The mutex has the thread that holds it, what has been pushed has been popped or is queued,
and a thread sleeps beside a value only while another is about to wake it. -/
structure Inv (s : ThreadsafeQueue T V) : Prop where
  owner : ∀ t, (s.pc t).Holds ↔ s.mu = some t
  fifo : s.pushed = s.popped.map (·.2) ++ s.queue
  front : ∀ t, s.pc t = .front → s.queue ≠ []
  awake : ∀ t, s.pc t = .asleep → s.queue ≠ [] → ∃ u, (s.pc u).Notifies

theorem inv_init : (init : ThreadsafeQueue T V).Inv where
  owner _ := ⟨fun h => h.elim, nofun⟩
  fifo := rfl
  front _ := nofun
  awake _ := nofun

theorem Inv.not_holds_of_ne (h : s.Inv) (ht : (s.pc t).Holds) (hne : u ≠ t) :
    ¬ (s.pc u).Holds := by
  intro hu
  have hmu := (h.owner u).mp hu
  rw [(h.owner t).mp ht] at hmu
  exact hne (Option.some.inj hmu).symm

theorem wakeAll_pc : s.wakeAll.pc u = .waitLock ∧ s.pc u = .asleep ∨ s.wakeAll.pc u = s.pc u := by
  unfold wakeAll
  rcases hpc : s.pc u <;> simp [hpc]

variable [DecidableEq T]

@[simp] theorem goto_pc_self : (s.goto t pc).pc t = pc := Function.update_self ..

theorem goto_pc_of_ne (h : u ≠ t) : (s.goto t pc).pc u = s.pc u :=
  Function.update_of_ne h ..

theorem Inv.unlock_eq (h : s.Inv) (ht : (s.pc t).Holds) (pc : QueuePc V) :
    s.unlock t pc = .ok { s.goto t pc with mu := none } := require_bind _ ((h.owner t).mp ht)

theorem Inv.popFront_eq (h : s.Inv) (ht : s.pc t = .front) :
    ∃ v queue, s.queue = v :: queue ∧ s.popFront t =
      .ok { s.goto t (.unlock (some v)) with queue, popped := s.popped ++ [(t, v)] } := by
  unfold popFront
  rcases hq : s.queue with _ | ⟨v, queue⟩
  · exact absurd hq (h.front t ht)
  · exact ⟨v, queue, rfl, rfl⟩

theorem exists_notifies_goto (hkeep : (s.pc t).Notifies → pc.Notifies)
    (h : ∃ u, (s.pc u).Notifies) : ∃ u, ((s.goto t pc).pc u).Notifies := by
  obtain ⟨u, hu⟩ := h
  by_cases hut : u = t
  · subst hut
    exact ⟨u, by simpa using hkeep hu⟩
  · exact ⟨u, by rwa [goto_pc_of_ne hut]⟩

theorem Inv.goto (h : s.Inv) (hholds : pc.Holds ↔ (s.pc t).Holds)
    (hfront : pc = .front → s.queue ≠ []) (hasleep : pc ≠ .asleep)
    (hkeep : (s.pc t).Notifies → pc.Notifies) : (s.goto t pc).Inv where
  owner u := by
    by_cases hut : u = t
    · subst hut
      rw [goto_pc_self]
      exact hholds.trans (h.owner u)
    · rw [goto_pc_of_ne hut]
      exact h.owner u
  fifo := h.fifo
  front u hu := by
    by_cases hut : u = t
    · subst hut
      exact hfront (by simpa using hu)
    · rw [goto_pc_of_ne hut] at hu
      exact h.front u hu
  awake u hu hq := by
    have hut : u ≠ t := by
      rintro rfl
      exact hasleep (by simpa using hu)
    rw [goto_pc_of_ne hut] at hu
    exact exists_notifies_goto hkeep (h.awake u hu hq)

theorem Inv.lock (h : s.Inv) (hmu : s.mu = none) (hholds : pc.Holds) (hfront : pc ≠ .front)
    (hasleep : pc ≠ .asleep) (hkeep : ¬ (s.pc t).Notifies) : (s.lock t pc).Inv where
  owner u := by
    have hu := h.owner u
    rw [hmu] at hu
    by_cases hut : u = t
    · subst hut
      simpa [ThreadsafeQueue.lock] using hholds
    · have hpc : (s.lock t pc).pc u = s.pc u := goto_pc_of_ne hut
      rw [hpc, hu]
      simpa [ThreadsafeQueue.lock] using fun htu : t = u => hut htu.symm
  fifo := h.fifo
  front u hu := by
    by_cases hut : u = t
    · subst hut
      exact absurd (goto_pc_self.symm.trans hu) hfront
    · exact h.front u ((goto_pc_of_ne hut).symm.trans hu)
  awake u hu hq := by
    have hut : u ≠ t := by
      rintro rfl
      exact hasleep (goto_pc_self.symm.trans hu)
    exact exists_notifies_goto (fun hn => absurd hn hkeep)
      (h.awake u ((goto_pc_of_ne hut).symm.trans hu) hq)

theorem Inv.unlock (h : s.Inv) (ht : (s.pc t).Holds) (hholds : ¬ pc.Holds)
    (hasleep : pc = .asleep → s.queue = []) (hkeep : (s.pc t).Notifies → pc.Notifies) :
    Inv { s.goto t pc with mu := none } where
  owner u := by
    have hnone : ¬ (none : Option T) = some u := nofun
    refine iff_of_false ?_ hnone
    by_cases hut : u = t
    · subst hut
      simpa using hholds
    · exact fun hu => h.not_holds_of_ne ht hut ((goto_pc_of_ne hut).symm ▸ hu)
  fifo := h.fifo
  front u hu := by
    by_cases hut : u = t
    · subst hut
      have hpc : pc = .front := goto_pc_self.symm.trans hu
      exact absurd (hpc ▸ trivial) hholds
    · exact h.front u ((goto_pc_of_ne hut).symm.trans hu)
  awake u hu hq := by
    have hut : u ≠ t := by
      rintro rfl
      exact hq (hasleep (goto_pc_self.symm.trans hu))
    exact exists_notifies_goto hkeep (h.awake u ((goto_pc_of_ne hut).symm.trans hu) hq)

theorem Inv.pushValue {v : V} (h : s.Inv) (ht : s.pc t = .pushValue v) :
    Inv { s.goto t .pushUnlock with queue := s.queue ++ [v], pushed := s.pushed ++ [v] } where
  owner := by
    have h' : (s.goto t .pushUnlock).Inv :=
      h.goto (by rw [ht]; exact Iff.rfl) nofun nofun (by rw [ht]; exact nofun)
    exact h'.owner
  fifo := by
    dsimp only [ThreadsafeQueue.goto]
    rw [h.fifo, List.append_assoc]
  front u hu := by simp
  awake u hu hq := ⟨t, by simp [QueuePc.Notifies]⟩

theorem Inv.popFront {v : V} {queue : List V} (h : s.Inv) (ht : s.pc t = .front)
    (hq : s.queue = v :: queue) :
    Inv { s.goto t (.unlock (some v)) with queue, popped := s.popped ++ [(t, v)] } where
  owner := by
    have h' : (s.goto t (.unlock (some v))).Inv :=
      h.goto (by rw [ht]; exact Iff.rfl) nofun nofun (by rw [ht]; exact nofun)
    exact h'.owner
  fifo := by
    dsimp only [ThreadsafeQueue.goto]
    rw [h.fifo, hq]
    simp
  front u hu := by
    have hut : u ≠ t := by
      rintro rfl
      exact nomatch goto_pc_self.symm.trans hu
    have hu' : s.pc u = .front := (goto_pc_of_ne hut).symm.trans hu
    exact absurd (hu' ▸ trivial) (h.not_holds_of_ne (ht ▸ trivial) hut)
  awake u hu hne := by
    have hut : u ≠ t := by
      rintro rfl
      exact nomatch goto_pc_self.symm.trans hu
    have hnot : ¬ (s.pc t).Notifies := by rw [ht]; exact nofun
    exact exists_notifies_goto (fun hn => absurd hn hnot)
      (h.awake u ((goto_pc_of_ne hut).symm.trans hu) (by simp [hq]))

theorem Inv.notifyAll (h : s.Inv) (ht : s.pc t = .notifyAll) : (s.wakeAll.goto t .idle).Inv where
  owner u := by
    by_cases hut : u = t
    · subst hut
      have hu := h.owner u
      rw [ht] at hu
      rw [goto_pc_self]
      exact hu
    · rw [goto_pc_of_ne hut]
      rcases @wakeAll_pc _ _ s u with ⟨hpc, hu⟩ | hpc
      · have hown := h.owner u
        rw [hu] at hown
        rw [hpc]
        exact hown
      · rw [hpc]
        exact h.owner u
  fifo := h.fifo
  front u hu := by
    have hut : u ≠ t := by
      rintro rfl
      exact nomatch goto_pc_self.symm.trans hu
    rw [goto_pc_of_ne hut] at hu
    rcases @wakeAll_pc _ _ s u with ⟨hpc, -⟩ | hpc
    · exact nomatch hpc.symm.trans hu
    · exact h.front u (hpc.symm.trans hu)
  awake u hu := by
    have hut : u ≠ t := by
      rintro rfl
      exact nomatch goto_pc_self.symm.trans hu
    rw [goto_pc_of_ne hut] at hu
    unfold wakeAll at hu
    rcases hpc : s.pc u <;> simp [hpc] at hu

theorem Inv.advance (h : s.Inv) (ht : s.CanAdvance t) : ∃ s', s.advance t = .ok s' ∧ s'.Inv := by
  unfold CanAdvance at ht
  unfold ThreadsafeQueue.advance
  rcases hpc : s.pc t with _ | v | v | _ | _ | _ | _ | _ | _ | _ | _ | r <;> rw [hpc] at ht <;>
    dsimp only at ht ⊢
  case pushLock => exact ⟨_, rfl, h.lock ht trivial nofun nofun (by rw [hpc]; exact nofun)⟩
  case pushValue => exact ⟨_, rfl, h.pushValue hpc⟩
  case pushUnlock =>
    exact ⟨_, h.unlock_eq (hpc ▸ trivial) _,
      h.unlock (hpc ▸ trivial) nofun nofun fun _ => trivial⟩
  case notifyAll => exact ⟨_, rfl, h.notifyAll hpc⟩
  case waitLock => exact ⟨_, rfl, h.lock ht trivial nofun nofun (by rw [hpc]; exact nofun)⟩
  case waitTest =>
    split_ifs with hq
    · exact ⟨_, h.unlock_eq (hpc ▸ trivial) _,
        h.unlock (hpc ▸ trivial) nofun (fun _ => hq) (by rw [hpc]; exact nofun)⟩
    · exact ⟨_, rfl, h.goto (by rw [hpc]; exact Iff.rfl) (fun _ => hq) nofun
        (by rw [hpc]; exact nofun)⟩
  case tryLock => exact ⟨_, rfl, h.lock ht trivial nofun nofun (by rw [hpc]; exact nofun)⟩
  case tryTest =>
    refine ⟨_, rfl, ?_⟩
    split_ifs with hq
    · exact h.goto (by rw [hpc]; exact Iff.rfl) nofun nofun (by rw [hpc]; exact nofun)
    · exact h.goto (by rw [hpc]; exact Iff.rfl) (fun _ => hq) nofun (by rw [hpc]; exact nofun)
  case front =>
    obtain ⟨v, queue, hq, heq⟩ := h.popFront_eq hpc
    exact ⟨_, heq, h.popFront hpc hq⟩
  case unlock =>
    exact ⟨_, h.unlock_eq (hpc ▸ trivial) _,
      h.unlock (hpc ▸ trivial) nofun nofun (by rw [hpc]; exact nofun)⟩

theorem Inv.step {a : Action T V} (h : s.Inv) (ha : s.Allowed a) :
    ∃ s', s.step a = .ok s' ∧ s'.Inv := by
  cases a with
  | call t c =>
    have ht : s.pc t = .idle := ha
    refine ⟨_, rfl, ?_⟩
    cases c <;> exact h.goto (by rw [ht]; exact Iff.rfl) nofun nofun (by rw [ht]; exact nofun)
  | advance t => exact h.advance ha
  | spuriousWakeUp t =>
    have ht : s.pc t = .asleep := ha
    exact ⟨_, rfl, h.goto (by rw [ht]; exact Iff.rfl) nofun nofun (by rw [ht]; exact nofun)⟩

/-! ## Coming to rest -/

end ThreadsafeQueue

/-- A bound on the steps a thread still takes in its call. Each `notify_all` to come may send
every one of `n` threads back to the mutex. -/
def QueuePc.rank {V : Type} (n : ℕ) : QueuePc V → ℕ
  | .idle | .asleep => 0
  | .unlock _ => 1
  | .front => 2
  | .waitTest | .tryTest => 3
  | .waitLock | .tryLock => 4
  | .notifyAll => 4 * n + 1
  | .pushUnlock => 4 * n + 2
  | .pushValue _ => 4 * n + 3
  | .pushLock _ => 4 * n + 4

namespace ThreadsafeQueue

variable {T V : Type} [DecidableEq T] [Fintype T] {s s' : ThreadsafeQueue T V} {t : T}
  {pc : QueuePc V}

def rank (s : ThreadsafeQueue T V) : ℕ := ∑ t, (s.pc t).rank (Fintype.card T)

theorem rank_lt_of_goto (hpc : s'.pc = (s.goto t pc).pc)
    (h : pc.rank (Fintype.card T) < (s.pc t).rank (Fintype.card T)) : s'.rank < s.rank := by
  unfold rank
  rw [hpc]
  refine Finset.sum_lt_sum (fun u _ => ?_) ⟨t, Finset.mem_univ t, by simpa using h⟩
  by_cases hut : u = t
  · subst hut
    simpa using h.le
  · rw [goto_pc_of_ne hut]

theorem rank_wakeAll_lt (ht : s.pc t = .notifyAll) : (s.wakeAll.goto t .idle).rank < s.rank := by
  have hle : ∀ u, ((s.wakeAll.goto t .idle).pc u).rank (Fintype.card T) +
      (if u = t then 4 * Fintype.card T + 1 else 0) ≤ (s.pc u).rank (Fintype.card T) + 4 := by
    intro u
    by_cases hut : u = t
    · subst hut
      rw [goto_pc_self, ht, if_pos rfl]
      simp only [QueuePc.rank]
      omega
    · rw [goto_pc_of_ne hut, if_neg hut]
      rcases @wakeAll_pc _ _ s u with ⟨hpc, -⟩ | hpc <;> rw [hpc]
      · simp only [QueuePc.rank]
        omega
      · omega
  have hsum := Finset.sum_le_sum fun u (_ : u ∈ Finset.univ) => hle u
  rw [Finset.sum_add_distrib, Finset.sum_add_distrib, Finset.sum_ite_eq' Finset.univ t,
    if_pos (Finset.mem_univ t), Finset.sum_const, Finset.card_univ, Nat.nsmul_eq_mul] at hsum
  unfold rank
  omega

theorem Inv.rank_lt (h : s.Inv) (ht : s.CanAdvance t) (hstep : s.advance t = .ok s') :
    s'.rank < s.rank := by
  unfold CanAdvance at ht
  unfold ThreadsafeQueue.advance at hstep
  rcases hpc : s.pc t with _ | v | v | _ | _ | _ | _ | _ | _ | _ | _ | r
  all_goals
    rw [hpc] at ht hstep
    dsimp only at ht hstep
  case notifyAll =>
    cases hstep
    exact rank_wakeAll_lt hpc
  case pushUnlock =>
    rw [h.unlock_eq (hpc ▸ trivial)] at hstep
    cases hstep
    exact rank_lt_of_goto rfl (by simp [hpc, QueuePc.rank])
  case waitTest =>
    rw [h.unlock_eq (hpc ▸ trivial)] at hstep
    split_ifs at hstep <;> cases hstep <;> exact rank_lt_of_goto rfl (by simp [hpc, QueuePc.rank])
  case tryTest =>
    cases hstep
    split_ifs <;> exact rank_lt_of_goto rfl (by simp [hpc, QueuePc.rank])
  case front =>
    obtain ⟨v, queue, -, heq⟩ := h.popFront_eq hpc
    rw [heq] at hstep
    cases hstep
    exact rank_lt_of_goto rfl (by simp [hpc, QueuePc.rank])
  case unlock =>
    rw [h.unlock_eq (hpc ▸ trivial)] at hstep
    cases hstep
    exact rank_lt_of_goto rfl (by simp [hpc, QueuePc.rank])
  all_goals
    cases hstep
    exact rank_lt_of_goto rfl (by simp [hpc, QueuePc.rank])

def Action.IsAdvance : Action T V → Prop
  | .advance _ => True
  | _ => False

theorem lowers : (machine T V).Lowers Allowed Action.IsAdvance Inv rank := by
  intro s a h hkind ha
  cases a with
  | call t c => exact hkind.elim
  | spuriousWakeUp t => exact hkind.elim
  | advance t =>
    obtain ⟨s', hstep, hinv⟩ := h.advance ha
    exact ⟨s', hstep, hinv, h.rank_lt ha hstep⟩

omit [Fintype T] [DecidableEq T] in
/-- When no thread can go on, none is inside a call but for those that sleep beside an empty
queue. -/
theorem Inv.at_rest (h : s.Inv) (hstuck : ∀ t, ¬ s.CanAdvance t) (t : T) :
    s.pc t = .idle ∨ s.pc t = .asleep ∧ s.queue = [] := by
  have hmu : s.mu = none := by
    rcases hmu : s.mu with _ | u
    · rfl
    · have hu := (h.owner u).mpr hmu
      have hcan := hstuck u
      unfold CanAdvance at hcan
      rcases hpc : s.pc u
      all_goals
        rw [hpc] at hu hcan
        first
          | exact hu.elim
          | exact absurd trivial hcan
  have hrest : ∀ u, s.pc u = .idle ∨ s.pc u = .asleep := by
    intro u
    have hcan := hstuck u
    unfold CanAdvance at hcan
    rcases hpc : s.pc u <;> rw [hpc] at hcan <;> simp [hmu] at hcan ⊢
  refine (hrest t).imp_right fun ht => ⟨ht, ?_⟩
  by_contra hq
  obtain ⟨u, hu⟩ := h.awake t ht hq
  rcases hrest u with hpc | hpc <;> rw [hpc] at hu <;> exact hu

variable [DecidableEq V]

omit [Fintype T] in
instance (s : ThreadsafeQueue T V) (t : T) : Decidable (s.CanAdvance t) := by
  unfold CanAdvance
  cases s.pc t <;> dsimp only <;> infer_instance

instance (s : ThreadsafeQueue T V) : DecidablePred s.Allowed
  | .call t _ => inferInstanceAs (Decidable (s.pc t = .idle))
  | .advance t => inferInstanceAs (Decidable (s.CanAdvance t))
  | .spuriousWakeUp t => inferInstanceAs (Decidable (s.pc t = .asleep))

def pushToSleeper : List (Action Bool ℕ) :=
  [.call true .waitAndPop, .advance true, .advance true, .call false (.push 7)]

end ThreadsafeQueue

end Mlt
