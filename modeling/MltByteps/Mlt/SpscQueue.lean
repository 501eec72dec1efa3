import MltByteps.Lib.Machine
import MltByteps.Lib.Ring

/-! Lamport's queue between one producer and one consumer thread. Each load, each store and
each access of a slot is a step of its own, and the steps of the two threads interleave. -/

namespace Mlt

/-- Where the producer is in `Push` (`wait`) or `TryPush` of a value. -/
inductive ProducerPc (α : Type) where
  | idle
  | loadHead (wait : Bool) (v : α)
  -- `size` is the number of values in the queue when `head_` was loaded.
  | loadTail (wait : Bool) (v : α) (curHead : UInt64) (size : ℕ)
  | writeSlot (v : α) (curTail : UInt64)
  | storeTail (v : α) (curTail : UInt64)

/-- Where the consumer is in `WaitAndPop` (`wait`) or `TryPop`. -/
inductive ConsumerPc (α : Type) where
  | idle
  | loadHead (wait : Bool)
  | loadTail (wait : Bool) (curHead : UInt64)
  | readSlot (curHead : UInt64)
  | storeHead (v : Option α) (curHead : UInt64)

/-- A call of `Push` (`wait`) or `TryPush`. -/
structure PushCall (α : Type) where
  wait : Bool
  value : α
deriving DecidableEq, Repr

/-- The queue with its two threads. A slot without a value has not been written, or its value
was moved out. -/
structure SpscQueue (α : Type) where
  head : UInt64 := 0
  tail : UInt64 := 0
  vec : ℕ → Option α := fun _ => none
  producer : ProducerPc α := .idle
  consumer : ConsumerPc α := .idle
  -- The values whose push has stored `tail_`.
  pushed : List α := []
  -- The values whose pop has stored `head_`.
  popped : List (Option α) := []
  -- For each `TryPush` that failed, the number of values when it loaded `head_`.
  failedPush : List ℕ := []
  -- For each `TryPop` that failed, the number of values when it loaded `tail_`.
  failedPop : List ℕ := []
  -- The call that the producer is in.
  pushing : Option (PushCall α) := none
  -- The calls from which the producer has returned, with the results (`true` for `Push`).
  pushes : List (PushCall α × Bool) := []
  -- The call that the consumer is in: `WaitAndPop` (`true`) or `TryPop`.
  popping : Option Bool := none
  -- The calls from which the consumer has returned, with the values (none if it failed).
  pops : List (Bool × Option (Option α)) := []

inductive SpscAction (α : Type) where
  | push (v : α)
  | tryPush (v : α)
  | waitAndPop
  | tryPop
  -- The producer, or the consumer, goes on.
  | produce
  | consume
deriving DecidableEq, Repr

namespace SpscQueue

variable {α : Type}

def capacity (k : Fin 64) : UInt64 := UInt64.ofNat (2 ^ k.val)

def mask (k : Fin 64) : UInt64 := capacity k - 1

def size (s : SpscQueue α) : ℕ := s.pushed.length - s.popped.length

def callPush (s : SpscQueue α) (wait : Bool) (v : α) : Except Unit (SpscQueue α) :=
  match s.producer with
  | .idle => .ok { s with producer := .loadHead wait v, pushing := some ⟨wait, v⟩ }
  | _ => .error ()

def callPop (s : SpscQueue α) (wait : Bool) : Except Unit (SpscQueue α) :=
  match s.consumer with
  | .idle => .ok { s with consumer := .loadHead wait, popping := some wait }
  | _ => .error ()

/-- The next step of the producer in `Push` and `TryPush`, with the result if the call returns. -/
def produce (k : Fin 64) (s : SpscQueue α) : Except Unit (SpscQueue α × Option Bool) :=
  match s.producer with
  | .idle => .error ()
  | .loadHead wait v => .ok ({ s with producer := .loadTail wait v s.head s.size }, none)
  | .loadTail wait v curHead size =>
    let curTail := s.tail
    if capacity k ≤ curTail - curHead then
      if wait then .ok ({ s with producer := .loadHead wait v }, none)
      else .ok ({ s with producer := .idle, failedPush := s.failedPush ++ [size] }, some false)
    else .ok ({ s with producer := .writeSlot v curTail }, none)
  | .writeSlot v curTail =>
    .ok ({ s with
      vec := Function.update s.vec (curTail &&& mask k).toNat (some v)
      producer := .storeTail v curTail }, none)
  | .storeTail v curTail =>
    .ok ({ s with tail := curTail + 1, producer := .idle, pushed := s.pushed ++ [v] }, some true)

/-- The next step of the consumer in `WaitAndPop` and `TryPop`, with what the call returns. -/
def consume (k : Fin 64) (s : SpscQueue α) :
    Except Unit (SpscQueue α × Option (Option (Option α))) :=
  match s.consumer with
  | .idle => .error ()
  | .loadHead wait => .ok ({ s with consumer := .loadTail wait s.head }, none)
  | .loadTail wait curHead =>
    let curTail := s.tail
    if curTail = curHead then
      if wait then .ok ({ s with consumer := .loadHead wait }, none)
      else .ok ({ s with consumer := .idle, failedPop := s.failedPop ++ [s.size] }, some none)
    else .ok ({ s with consumer := .readSlot curHead }, none)
  | .readSlot curHead =>
    .ok ({ s with
      vec := Function.update s.vec (curHead &&& mask k).toNat none
      consumer := .storeHead (s.vec (curHead &&& mask k).toNat) curHead }, none)
  | .storeHead v curHead =>
    .ok ({ s with head := curHead + 1, consumer := .idle, popped := s.popped ++ [v] },
      some (some v))

def recordPush (s : SpscQueue α) : Option Bool → SpscQueue α
  | none => s
  | some result =>
    { s with pushing := none, pushes := s.pushes ++ s.pushing.toList.map (·, result) }

def recordPop (s : SpscQueue α) : Option (Option (Option α)) → SpscQueue α
  | none => s
  | some result => { s with popping := none, pops := s.pops ++ s.popping.toList.map (·, result) }

/-- A thread that has nothing to do, or is not idle when a call comes, has no step. -/
def step (k : Fin 64) (s : SpscQueue α) : SpscAction α → Except Unit (SpscQueue α)
  | .push v => s.callPush true v
  | .tryPush v => s.callPush false v
  | .waitAndPop => s.callPop true
  | .tryPop => s.callPop false
  | .produce => do
    let (s, result) ← s.produce k
    return s.recordPush result
  | .consume => do
    let (s, result) ← s.consume k
    return s.recordPop result

end SpscQueue

/-- A queue of `2^k` slots; `k < 64`, as the capacity is a `size_t`. -/
def spscMachine (α : Type) (k : Fin 64) : Machine (SpscQueue α) (SpscAction α) Unit :=
  ⟨{}, SpscQueue.step k⟩

namespace SpscQueue

variable {α : Type} {k : Fin 64} {s s' : SpscQueue α}

inductive ProducerStep (k : Fin 64) (s : SpscQueue α) : SpscQueue α → Option Bool → Prop
  | loadHead {wait : Bool} {v : α} : s.producer = .loadHead wait v →
      ProducerStep k s { s with producer := .loadTail wait v s.head s.size } none
  | again {v : α} {curHead : UInt64} {size : ℕ} : s.producer = .loadTail true v curHead size →
      capacity k ≤ s.tail - curHead →
      ProducerStep k s { s with producer := .loadHead true v } none
  | fail {v : α} {curHead : UInt64} {size : ℕ} : s.producer = .loadTail false v curHead size →
      capacity k ≤ s.tail - curHead → ProducerStep k s
        { s with producer := .idle, failedPush := s.failedPush ++ [size] } (some false)
  | room {wait : Bool} {v : α} {curHead : UInt64} {size : ℕ} :
      s.producer = .loadTail wait v curHead size → ¬capacity k ≤ s.tail - curHead →
      ProducerStep k s { s with producer := .writeSlot v s.tail } none
  | writeSlot {v : α} {curTail : UInt64} : s.producer = .writeSlot v curTail →
      ProducerStep k s { s with
        vec := Function.update s.vec (curTail &&& mask k).toNat (some v)
        producer := .storeTail v curTail } none
  | storeTail {v : α} {curTail : UInt64} : s.producer = .storeTail v curTail →
      ProducerStep k s
        { s with tail := curTail + 1, producer := .idle, pushed := s.pushed ++ [v] } (some true)

inductive ConsumerStep (k : Fin 64) (s : SpscQueue α) :
    SpscQueue α → Option (Option (Option α)) → Prop
  | loadHead {wait : Bool} : s.consumer = .loadHead wait →
      ConsumerStep k s { s with consumer := .loadTail wait s.head } none
  | again {curHead : UInt64} : s.consumer = .loadTail true curHead → s.tail = curHead →
      ConsumerStep k s { s with consumer := .loadHead true } none
  | fail {curHead : UInt64} : s.consumer = .loadTail false curHead → s.tail = curHead →
      ConsumerStep k s { s with consumer := .idle, failedPop := s.failedPop ++ [s.size] }
        (some none)
  | some {wait : Bool} {curHead : UInt64} : s.consumer = .loadTail wait curHead →
      s.tail ≠ curHead → ConsumerStep k s { s with consumer := .readSlot curHead } none
  | readSlot {curHead : UInt64} : s.consumer = .readSlot curHead →
      ConsumerStep k s { s with
        vec := Function.update s.vec (curHead &&& mask k).toNat none
        consumer := .storeHead (s.vec (curHead &&& mask k).toNat) curHead } none
  | storeHead {v : Option α} {curHead : UInt64} : s.consumer = .storeHead v curHead →
      ConsumerStep k s { s with head := curHead + 1, consumer := .idle, popped := s.popped ++ [v] }
        (some (some v))

theorem produce_cases {result : Option Bool} (hs : s.produce k = .ok (s', result)) :
    ProducerStep k s s' result := by
  rcases hpc : s.producer with
    _ | ⟨wait, v⟩ | ⟨wait, v, curHead, n⟩ | ⟨v, curTail⟩ | ⟨v, curTail⟩ <;>
    rw [produce, hpc] at hs
  · cases hs
  · cases hs
    exact .loadHead hpc
  · dsimp only at hs
    split_ifs at hs with hfull hwait
    · cases hs
      subst hwait
      exact .again hpc hfull
    · cases hs
      obtain rfl : wait = false := by simpa using hwait
      exact .fail hpc hfull
    · cases hs
      exact .room hpc hfull
  · cases hs
    exact .writeSlot hpc
  · cases hs
    exact .storeTail hpc

theorem consume_cases {result : Option (Option (Option α))}
    (hs : s.consume k = .ok (s', result)) : ConsumerStep k s s' result := by
  rcases hpc : s.consumer with _ | wait | ⟨wait, curHead⟩ | curHead | ⟨v, curHead⟩ <;>
    rw [consume, hpc] at hs
  · cases hs
  · cases hs
    exact .loadHead hpc
  · dsimp only at hs
    split_ifs at hs with hempty hwait
    · cases hs
      subst hwait
      exact .again hpc hempty
    · cases hs
      obtain rfl : wait = false := by simpa using hwait
      exact .fail hpc hempty
    · cases hs
      exact .some hpc hempty
  · cases hs
    exact .readSlot hpc
  · cases hs
    exact .storeHead hpc

theorem step_preserves {P : SpscQueue α → Prop} {a : SpscAction α}
    (hpush : ∀ wait v, s.producer = .idle →
      P { s with producer := .loadHead wait v, pushing := some ⟨wait, v⟩ })
    (hpop : ∀ wait, s.consumer = .idle →
      P { s with consumer := .loadHead wait, popping := some wait })
    (hproduce : ∀ s' result, ProducerStep k s s' result → P (s'.recordPush result))
    (hconsume : ∀ s' result, ConsumerStep k s s' result → P (s'.recordPop result))
    (hs : s.step k a = .ok s') : P s' := by
  have hcallPush : ∀ wait v, s.callPush wait v = .ok s' → P s' := by
    intro wait v hs
    unfold callPush at hs
    split at hs
    case h_1 hpc =>
      cases hs
      exact hpush wait v hpc
    case h_2 => cases hs
  have hcallPop : ∀ wait, s.callPop wait = .ok s' → P s' := by
    intro wait hs
    unfold callPop at hs
    split at hs
    case h_1 hpc =>
      cases hs
      exact hpop wait hpc
    case h_2 => cases hs
  cases a with
  | push v => exact hcallPush _ _ hs
  | tryPush v => exact hcallPush _ _ hs
  | waitAndPop => exact hcallPop _ hs
  | tryPop => exact hcallPop _ hs
  | produce =>
    rcases hp : s.produce k with e | ⟨s₁, result⟩ <;> rw [step, hp] at hs <;> cases hs
    exact hproduce _ _ (produce_cases hp)
  | consume =>
    rcases hc : s.consume k with e | ⟨s₁, result⟩ <;> rw [step, hc] at hs <;> cases hs
    exact hconsume _ _ (consume_cases hc)

/-! ## The ring -/

/-- The value that is in its slot, but not yet counted by `tail_`. -/
def written (s : SpscQueue α) : List α :=
  match s.producer with
  | .storeTail v _ => [v]
  | _ => []

/-- Whether the next value has left its slot, but is still counted by `head_`. -/
def moved (s : SpscQueue α) : ℕ :=
  match s.consumer with
  | .storeHead _ _ => 1
  | _ => 0

def ProducerOk (k : Fin 64) (s : SpscQueue α) : Prop :=
  match s.producer with
  | .idle => True
  | .loadHead _ _ => True
  | .loadTail _ _ curHead size => size ≤ 2 ^ k.val ∧ size ≤ s.pushed.length ∧
      s.pushed.length - size ≤ s.popped.length ∧ curHead = UInt64.ofNat (s.pushed.length - size)
  | .writeSlot _ curTail => curTail = s.tail ∧ s.pushed.length < s.popped.length + 2 ^ k.val
  | .storeTail _ curTail => curTail = s.tail

def ConsumerOk (s : SpscQueue α) : Prop :=
  match s.consumer with
  | .idle => True
  | .loadHead _ => True
  | .loadTail _ curHead => curHead = s.head
  | .readSlot curHead => curHead = s.head ∧ s.popped.length < s.pushed.length
  | .storeHead v curHead => curHead = s.head ∧ v = s.pushed[s.popped.length]?

structure Inv (k : Fin 64) (s : SpscQueue α) : Prop where
  head : s.head = UInt64.ofNat s.popped.length
  tail : s.tail = UInt64.ofNat s.pushed.length
  fifo : s.popped = (s.pushed.take s.popped.length).map some
  holds : Ring.Holds (2 ^ k.val) s.vec (s.pushed ++ s.written) (s.popped.length + s.moved)
  moved_le : s.popped.length + s.moved ≤ s.pushed.length
  room : s.pushed.length + s.written.length ≤ s.popped.length + 2 ^ k.val
  producer : s.ProducerOk k
  consumer : s.ConsumerOk
  failedPush : ∀ n ∈ s.failedPush, n = 2 ^ k.val
  failedPop : ∀ n ∈ s.failedPop, n = 0

theorem ConsumerOk.pushed (h : s.ConsumerOk) (hmoved : s.popped.length + s.moved ≤ s.pushed.length)
    {tail : UInt64} {pc : ProducerPc α} (v : α) :
    ConsumerOk { s with tail := tail, producer := pc, pushed := s.pushed ++ [v] } := by
  unfold ConsumerOk at h ⊢
  dsimp only
  split at h
  case h_1 => trivial
  case h_2 => trivial
  case h_3 => exact h
  case h_4 =>
    rw [List.length_append]
    exact ⟨h.1, Nat.lt_add_right _ h.2⟩
  case h_5 hpc =>
    rw [moved, hpc] at hmoved
    exact ⟨h.1, h.2.trans (List.getElem?_append_left hmoved).symm⟩

theorem ProducerOk.popped (h : s.ProducerOk k) {head : UInt64} {pc : ConsumerPc α}
    (v : Option α) :
    ProducerOk k { s with head := head, consumer := pc, popped := s.popped ++ [v] } := by
  have hlen : (s.popped ++ [v]).length = s.popped.length + 1 := List.length_append
  unfold ProducerOk at h ⊢
  dsimp only
  split at h
  · trivial
  · trivial
  · obtain ⟨hn, hle, hold, hcur⟩ := h
    exact ⟨hn, hle, by omega, hcur⟩
  · exact ⟨h.1, by omega⟩
  · exact h

theorem toNat_capacity (k : Fin 64) : (capacity k).toNat = 2 ^ k.val :=
  Ring.toNat_ofNat_two_pow k.isLt

theorem toNat_slot (k : Fin 64) (n : ℕ) : (UInt64.ofNat n &&& mask k).toNat = n % 2 ^ k.val :=
  Ring.toNat_and_mask k.isLt

theorem two_pow_lt (k : Fin 64) : 2 ^ k.val < 2 ^ 64 := Nat.pow_lt_pow_right (by decide) k.isLt

theorem ofNat_succ (n : ℕ) : UInt64.ofNat n + 1 = UInt64.ofNat (n + 1) := by
  rw [UInt64.ofNat_add]
  rfl

namespace Inv

theorem popped_le (h : s.Inv k) : s.popped.length ≤ s.pushed.length :=
  (Nat.le_add_right _ _).trans h.moved_le

theorem popped_concat (h : s.Inv k) (hlt : s.popped.length < s.pushed.length) :
    s.popped ++ [s.pushed[s.popped.length]?] =
      (s.pushed.take (s.popped.length + 1)).map some := by
  rw [List.take_succ_eq_append_getElem hlt, List.map_append, ← h.fifo,
    List.getElem?_eq_getElem hlt]
  rfl

theorem size_le (h : s.Inv k) : s.size ≤ 2 ^ k.val := by
  have := h.room
  exact Nat.sub_le_of_le_add (by omega)

theorem setProducer (h : s.Inv k) (pc : ProducerPc α) (hs : s.written = [])
    (hpc : written { s with producer := pc } = [])
    (hok : ProducerOk k { s with producer := pc }) : Inv k { s with producer := pc } := by
  have hholds := h.holds
  have hroom := h.room
  rw [hs] at hholds hroom
  exact { h with
    holds := by rw [hpc]; exact hholds
    room := by rw [hpc]; exact hroom
    producer := hok }

theorem setConsumer (h : s.Inv k) (pc : ConsumerPc α) (hs : s.moved = 0)
    (hpc : moved { s with consumer := pc } = 0)
    (hok : ConsumerOk { s with consumer := pc }) : Inv k { s with consumer := pc } := by
  have hholds := h.holds
  have hmoved := h.moved_le
  rw [hs] at hholds hmoved
  exact { h with
    holds := by rw [hpc]; exact hholds
    moved_le := by rw [hpc]; exact hmoved
    consumer := hok }

/-- The producer's copy of `head_` may be old, but its test decides as one at the time of
that load. -/
theorem capacity_le_iff (h : s.Inv k) {n : ℕ} (hn : n ≤ 2 ^ k.val) (hle : n ≤ s.pushed.length) :
    capacity k ≤ s.tail - UInt64.ofNat (s.pushed.length - n) ↔ n = 2 ^ k.val := by
  have hlt := two_pow_lt k
  rw [UInt64.le_iff_toNat_le, toNat_capacity, h.tail,
    Ring.toNat_sub_ofNat (Nat.sub_le _ _) (by omega)]
  omega

theorem tail_eq_head_iff (h : s.Inv k) : s.tail = s.head ↔ s.size = 0 := by
  have hlt := two_pow_lt k
  have hle := h.popped_le
  have hsize := h.size_le
  rw [size] at hsize ⊢
  have hsub := Ring.toNat_sub_ofNat hle (by omega)
  rw [← h.tail, ← h.head] at hsub
  constructor
  · intro heq
    rw [heq, UInt64.sub_self] at hsub
    exact hsub.symm
  · intro hzero
    rw [h.tail, h.head, show s.pushed.length = s.popped.length by omega]

theorem slot_writeSlot (h : s.Inv k) {v : α} {curTail : UInt64}
    (hpc : s.producer = .writeSlot v curTail) :
    (curTail &&& mask k).toNat = s.pushed.length % 2 ^ k.val ∧
      s.pushed.length < s.popped.length + 2 ^ k.val := by
  have hok := h.producer
  rw [ProducerOk, hpc] at hok
  exact ⟨by rw [hok.1, h.tail, toNat_slot], hok.2⟩

theorem writeSlot (h : s.Inv k) {v : α} {curTail : UInt64}
    (hpc : s.producer = .writeSlot v curTail) :
    Inv k { s with
      vec := Function.update s.vec (curTail &&& mask k).toNat (some v)
      producer := .storeTail v curTail } := by
  have hok := h.producer
  have hholds := h.holds
  have hmoved := h.moved_le
  have hwritten : s.written = [] := by rw [written, hpc]
  obtain ⟨hslot, hlt⟩ := h.slot_writeSlot hpc
  rw [ProducerOk, hpc] at hok
  rw [hwritten, List.append_nil] at hholds
  refine { h with holds := ?_, room := hlt, producer := hok.1 }
  show Ring.Holds _ (Function.update s.vec (curTail &&& mask k).toNat (some v)) (s.pushed ++ [v]) _
  rw [hslot]
  exact hholds.push hmoved (by omega) v

theorem storeTail (h : s.Inv k) {v : α} {curTail : UInt64}
    (hpc : s.producer = .storeTail v curTail) :
    Inv k { s with tail := curTail + 1, producer := .idle, pushed := s.pushed ++ [v] } := by
  have hok := h.producer
  have hholds := h.holds
  have hroom := h.room
  have hmoved := h.moved_le
  have hconsumer := h.consumer
  have hwritten : s.written = [v] := by rw [written, hpc]
  rw [ProducerOk, hpc] at hok
  rw [hwritten] at hholds hroom
  refine { h with
    tail := ?_, fifo := ?_, holds := ?_, moved_le := ?_, room := ?_, producer := trivial
    consumer := ?_ }
  · show curTail + 1 = UInt64.ofNat (s.pushed ++ [v]).length
    rw [(hok : curTail = s.tail), h.tail, ofNat_succ, List.length_append, List.length_singleton]
  · show s.popped = ((s.pushed ++ [v]).take s.popped.length).map some
    rw [List.take_append_of_le_length h.popped_le]
    exact h.fifo
  · show Ring.Holds _ s.vec (s.pushed ++ [v] ++ []) (s.popped.length + s.moved)
    rwa [List.append_nil]
  · show s.popped.length + s.moved ≤ (s.pushed ++ [v]).length
    rw [List.length_append]
    omega
  · show (s.pushed ++ [v]).length + 0 ≤ _
    rwa [List.length_append]
  · show ConsumerOk { s with tail := curTail + 1, producer := .idle, pushed := s.pushed ++ [v] }
    exact hconsumer.pushed hmoved v

theorem slot_readSlot (h : s.Inv k) {curHead : UInt64} (hpc : s.consumer = .readSlot curHead) :
    (curHead &&& mask k).toNat = s.popped.length % 2 ^ k.val ∧
      s.popped.length < s.pushed.length ∧
      s.vec (curHead &&& mask k).toNat = s.pushed[s.popped.length]? := by
  have hok := h.consumer
  have hholds := h.holds
  have hpos := Nat.two_pow_pos k.val
  have hmoved : s.moved = 0 := by rw [moved, hpc]
  rw [ConsumerOk, hpc] at hok
  obtain ⟨hcur, hlt⟩ := hok
  have hslot : (curHead &&& mask k).toNat = s.popped.length % 2 ^ k.val := by
    rw [hcur, h.head, toNat_slot]
  rw [hmoved, Nat.add_zero] at hholds
  exact ⟨hslot, hlt, by
    rw [hslot, hholds _ le_rfl (by omega), List.getElem?_append_left hlt]⟩

theorem readSlot (h : s.Inv k) {curHead : UInt64} (hpc : s.consumer = .readSlot curHead) :
    Inv k { s with
      vec := Function.update s.vec (curHead &&& mask k).toNat none
      consumer := .storeHead (s.vec (curHead &&& mask k).toNat) curHead } := by
  have hok := h.consumer
  have hholds := h.holds
  have hroom := h.room
  have hmoved : s.moved = 0 := by rw [moved, hpc]
  obtain ⟨hslot, hlt, hnext⟩ := h.slot_readSlot hpc
  rw [ConsumerOk, hpc] at hok
  rw [hmoved, Nat.add_zero] at hholds
  refine { h with holds := ?_, moved_le := hlt, consumer := ⟨hok.1, hnext⟩ }
  show Ring.Holds _ (Function.update s.vec (curHead &&& mask k).toNat none)
    (s.pushed ++ s.written) (s.popped.length + 1)
  rw [hslot]
  exact hholds.pop (by rwa [List.length_append])

theorem storeHead (h : s.Inv k) {v : Option α} {curHead : UInt64}
    (hpc : s.consumer = .storeHead v curHead) :
    Inv k { s with head := curHead + 1, consumer := .idle, popped := s.popped ++ [v] } := by
  have hok := h.consumer
  have hholds := h.holds
  have hroom := h.room
  have hlt := h.moved_le
  have hmoved : s.moved = 1 := by rw [moved, hpc]
  rw [ConsumerOk, hpc] at hok
  obtain ⟨hcur, hv⟩ := hok
  rw [hmoved] at hholds hlt
  have hlen : (s.popped ++ [v]).length = s.popped.length + 1 := List.length_append
  refine { h with
    head := ?_, fifo := ?_, holds := ?_, moved_le := ?_, room := ?_, consumer := trivial
    producer := ?_ }
  · show curHead + 1 = UInt64.ofNat (s.popped ++ [v]).length
    rw [hcur, h.head, ofNat_succ, hlen]
  · show s.popped ++ [v] = (s.pushed.take (s.popped ++ [v]).length).map some
    rw [hlen, hv]
    exact h.popped_concat hlt
  · show Ring.Holds _ s.vec (s.pushed ++ s.written) ((s.popped ++ [v]).length + 0)
    rwa [hlen]
  · show (s.popped ++ [v]).length + 0 ≤ s.pushed.length
    rwa [hlen]
  · show s.pushed.length + s.written.length ≤ (s.popped ++ [v]).length + _
    rw [hlen]
    omega
  · show ProducerOk k { s with head := curHead + 1, consumer := .idle, popped := s.popped ++ [v] }
    exact h.producer.popped v

theorem produce (h : s.Inv k) {result : Option Bool} (hs : ProducerStep k s s' result) :
    s'.Inv k := by
  have hok := h.producer
  cases hs with
  | loadHead hpc =>
    refine h.setProducer _ (by rw [written, hpc]) rfl ⟨h.size_le, Nat.sub_le _ _, ?_, ?_⟩
    · have := h.popped_le
      show s.pushed.length - (s.pushed.length - s.popped.length) ≤ s.popped.length
      omega
    · show s.head = UInt64.ofNat (s.pushed.length - (s.pushed.length - s.popped.length))
      rw [h.head, Nat.sub_sub_self h.popped_le]
  | again hpc hfull => exact h.setProducer _ (by rw [written, hpc]) rfl trivial
  | fail hpc hfull =>
    rw [ProducerOk, hpc] at hok
    obtain ⟨hn, hle, -, rfl⟩ := hok
    have hnone : s.written = [] := by rw [written, hpc]
    refine { h.setProducer .idle hnone rfl trivial with failedPush := fun m hm => ?_ }
    rcases List.mem_append.mp hm with hm | hm
    · exact h.failedPush m hm
    · rw [List.mem_singleton.mp hm, (h.capacity_le_iff hn hle).mp hfull]
  | room hpc hroom =>
    rw [ProducerOk, hpc] at hok
    obtain ⟨hn, hle, hold, rfl⟩ := hok
    rw [h.capacity_le_iff hn hle] at hroom
    refine h.setProducer _ (by rw [written, hpc]) rfl ⟨rfl, ?_⟩
    show s.pushed.length < s.popped.length + 2 ^ k.val
    omega
  | writeSlot hpc => exact h.writeSlot hpc
  | storeTail hpc => exact h.storeTail hpc

theorem consume (h : s.Inv k) {result : Option (Option (Option α))}
    (hs : ConsumerStep k s s' result) : s'.Inv k := by
  have hok := h.consumer
  cases hs with
  | loadHead hpc => exact h.setConsumer _ (by rw [moved, hpc]) rfl rfl
  | again hpc hempty => exact h.setConsumer _ (by rw [moved, hpc]) rfl trivial
  | fail hpc hempty =>
    rw [ConsumerOk, hpc] at hok
    have hnone : s.moved = 0 := by rw [moved, hpc]
    refine { h.setConsumer .idle hnone rfl trivial with failedPop := fun m hm => ?_ }
    rcases List.mem_append.mp hm with hm | hm
    · exact h.failedPop m hm
    · rw [List.mem_singleton.mp hm, h.tail_eq_head_iff.mp (hempty.trans hok)]
  | some hpc hsome =>
    rw [ConsumerOk, hpc] at hok
    refine h.setConsumer _ (by rw [moved, hpc]) rfl ⟨hok, ?_⟩
    have hsize : s.size ≠ 0 := fun hzero => hsome ((h.tail_eq_head_iff.mpr hzero).trans hok.symm)
    exact Nat.lt_of_sub_ne_zero hsize
  | readSlot hpc => exact h.readSlot hpc
  | storeHead hpc => exact h.storeHead hpc

theorem recordPush (h : s.Inv k) (result : Option Bool) : (s.recordPush result).Inv k := by
  cases result with
  | none => exact h
  | some result => exact { h with }

theorem recordPop (h : s.Inv k) (result : Option (Option (Option α))) :
    (s.recordPop result).Inv k := by
  cases result with
  | none => exact h
  | some result => exact { h with }

theorem step (h : s.Inv k) {a : SpscAction α} (hs : s.step k a = .ok s') : s'.Inv k := by
  refine step_preserves (fun wait v hpc => ?_) (fun wait hpc => ?_)
    (fun _ result hs => (h.produce hs).recordPush result)
    (fun _ result hs => (h.consume hs).recordPop result) hs
  · exact { h.setProducer (.loadHead wait v) (by rw [written, hpc]) rfl trivial with }
  · exact { h.setConsumer (.loadHead wait) (by rw [moved, hpc]) rfl trivial with }

end Inv

/-! ## The calls -/

def PushingOk (s : SpscQueue α) : Prop :=
  match s.producer with
  | .idle => s.pushing = none
  | .loadHead wait v => s.pushing = some ⟨wait, v⟩
  | .loadTail wait v _ _ => s.pushing = some ⟨wait, v⟩
  | .writeSlot v _ => ∃ wait, s.pushing = some ⟨wait, v⟩
  | .storeTail v _ => ∃ wait, s.pushing = some ⟨wait, v⟩

def PoppingOk (s : SpscQueue α) : Prop :=
  match s.consumer with
  | .idle => s.popping = none
  | .loadHead wait => s.popping = some wait
  | .loadTail wait _ => s.popping = some wait
  | .readSlot _ => ∃ wait, s.popping = some wait
  | .storeHead _ _ => ∃ wait, s.popping = some wait

structure Answered (s : SpscQueue α) : Prop where
  -- The values of the pushes that returned `true`, in the order of the calls.
  pushed : (s.pushes.filter (·.2)).map (·.1.value) = s.pushed
  popped : s.pops.filterMap (·.2) = s.popped
  push_true : ∀ x ∈ s.pushes, x.1.wait = true → x.2 = true
  pop_isSome : ∀ x ∈ s.pops, x.1 = true → x.2.isSome = true
  failedPush : s.failedPush.length = s.pushes.countP (!·.2)
  failedPop : s.failedPop.length = s.pops.countP (·.2.isNone)

structure Calls (s : SpscQueue α) : Prop extends s.Answered where
  pushing : s.PushingOk
  popping : s.PoppingOk

namespace Calls

theorem produce (h : s.Calls) {result : Option Bool} (hs : ProducerStep k s s' result) :
    (s'.recordPush result).Calls := by
  have hp := h.pushing
  cases hs with
  | loadHead hpc =>
    rw [PushingOk, hpc] at hp
    exact { h with pushing := hp }
  | again hpc =>
    rw [PushingOk, hpc] at hp
    exact { h with pushing := hp }
  | room hpc =>
    rw [PushingOk, hpc] at hp
    exact { h with pushing := ⟨_, hp⟩ }
  | writeSlot hpc =>
    rw [PushingOk, hpc] at hp
    exact { h with pushing := hp }
  | fail hpc =>
    rw [PushingOk, hpc] at hp
    simp only [recordPush, hp, Option.toList_some, List.map_cons, List.map_nil]
    exact { h with
      pushed := by simpa [List.filter_append] using h.pushed
      push_true := List.forall_mem_append.mpr ⟨h.push_true, by simp⟩
      failedPush := by simp [List.countP_append, h.failedPush]
      pushing := rfl }
  | @storeTail v curTail hpc =>
    rw [PushingOk, hpc] at hp
    obtain ⟨wait, hp⟩ := hp
    simp only [recordPush, hp, Option.toList_some, List.map_cons, List.map_nil]
    exact { h with
      pushed := by simp [List.filter_append, h.pushed]
      push_true := List.forall_mem_append.mpr ⟨h.push_true, by simp⟩
      failedPush := by simp [List.countP_append, h.failedPush]
      pushing := rfl }

theorem consume (h : s.Calls) {result : Option (Option (Option α))}
    (hs : ConsumerStep k s s' result) : (s'.recordPop result).Calls := by
  have hp := h.popping
  cases hs with
  | loadHead hpc =>
    rw [PoppingOk, hpc] at hp
    exact { h with popping := hp }
  | again hpc =>
    rw [PoppingOk, hpc] at hp
    exact { h with popping := hp }
  | some hpc =>
    rw [PoppingOk, hpc] at hp
    exact { h with popping := ⟨_, hp⟩ }
  | readSlot hpc =>
    rw [PoppingOk, hpc] at hp
    exact { h with popping := hp }
  | fail hpc =>
    rw [PoppingOk, hpc] at hp
    simp only [recordPop, hp, Option.toList_some, List.map_cons, List.map_nil]
    exact { h with
      popped := by simpa [List.filterMap_append] using h.popped
      pop_isSome := List.forall_mem_append.mpr ⟨h.pop_isSome, by simp⟩
      failedPop := by simp [List.countP_append, h.failedPop]
      popping := rfl }
  | storeHead hpc =>
    rw [PoppingOk, hpc] at hp
    obtain ⟨wait, hp⟩ := hp
    simp only [recordPop, hp, Option.toList_some, List.map_cons, List.map_nil]
    exact { h with
      popped := by simp [List.filterMap_append, h.popped]
      pop_isSome := List.forall_mem_append.mpr ⟨h.pop_isSome, by simp⟩
      failedPop := by simp [List.countP_append, h.failedPop]
      popping := rfl }

theorem step (h : s.Calls) {a : SpscAction α} (hs : s.step k a = .ok s') : s'.Calls :=
  step_preserves (fun _ _ _ => { h with pushing := rfl }) (fun _ _ => { h with popping := rfl })
    (fun _ _ hs => h.produce hs) (fun _ _ hs => h.consume hs) hs

end Calls

/-- The queue is a FIFO that loses nothing. -/
structure Safe (k : Fin 64) (s : SpscQueue α) : Prop extends s.Answered where
  fifo : s.popped <+: s.pushed.map some
  -- The slot that is read holds the next value, and so does the consumer afterwards.
  read : ∀ curHead, s.consumer = .readSlot curHead →
    s.popped ++ [s.vec (curHead &&& mask k).toNat] <+: s.pushed.map some
  held : ∀ v curHead, s.consumer = .storeHead v curHead → s.popped ++ [v] <+: s.pushed.map some
  -- Every other value that was pushed is in its slot.
  kept : ∀ i, s.popped.length + s.moved ≤ i → i < s.pushed.length →
    s.vec (i % 2 ^ k.val) = s.pushed[i]?
  -- The slot that is written is one of the queue's and has no value.
  free : ∀ v curTail, s.producer = .writeSlot v curTail →
    (curTail &&& mask k).toNat < 2 ^ k.val ∧ s.vec (curTail &&& mask k).toNat = none
  bound : s.pushed.length + s.written.length ≤ s.popped.length + 2 ^ k.val
  full : ∀ n ∈ s.failedPush, n = 2 ^ k.val
  empty : ∀ n ∈ s.failedPop, n = 0

theorem Inv.safe (h : s.Inv k) (hanswered : s.Answered) : s.Safe k := by
  have hprefix : ∀ n, (s.pushed.take n).map some <+: s.pushed.map some :=
    fun n => (List.take_prefix n s.pushed).map some
  have hholds := h.holds
  have hmoved := h.moved_le
  have hroom := h.room
  refine ⟨hanswered, ?_, fun curHead hpc => ?_, fun v curHead hpc => ?_, fun i hi hlt => ?_,
    fun v curTail hpc => ?_, hroom, h.failedPush, h.failedPop⟩
  · rw [h.fifo]
    exact hprefix _
  · obtain ⟨-, hlt, hnext⟩ := h.slot_readSlot hpc
    rw [hnext, h.popped_concat hlt]
    exact hprefix _
  · have hok := h.consumer
    rw [ConsumerOk, hpc] at hok
    rw [moved, hpc] at hmoved
    rw [hok.2, h.popped_concat hmoved]
    exact hprefix _
  · rw [hholds i hi (by omega), List.getElem?_append_left hlt]
  · obtain ⟨hslot, hlt⟩ := h.slot_writeSlot hpc
    have hwritten : s.written = [] := by rw [written, hpc]
    rw [hslot]
    refine ⟨Nat.mod_lt _ (Nat.two_pow_pos _), ?_⟩
    rw [hholds _ hmoved (by omega), hwritten, List.append_nil]
    exact List.getElem?_eq_none le_rfl

end SpscQueue

/-- In every interleaving of the two threads, with counters that have run over any number of
times, the queue is a FIFO that loses nothing of what it was given; a `TryPush` fails only on a full
queue and a `TryPop` only on an empty one. -/
theorem spsc_safe {α : Type} (k : Fin 64) {s : SpscQueue α}
    (h : (spscMachine α k).Reachable (fun _ _ => True) s) : s.Safe k := by
  have hinv : s.Inv k := by
    refine h.invariant (P := SpscQueue.Inv k) ?_ fun s a s' hinv _ hs => hinv.step hs
    exact ⟨rfl, rfl, rfl, Ring.Holds.empty, le_rfl, Nat.zero_le _, trivial, trivial,
      fun _ hn => (nomatch hn), fun _ hn => (nomatch hn)⟩
  have hcalls : s.Calls := by
    refine h.invariant (P := SpscQueue.Calls) ?_ fun s a s' hcalls _ hs => hcalls.step hs
    exact ⟨⟨rfl, rfl, fun _ hx => (nomatch hx), fun _ hx => (nomatch hx), rfl, rfl⟩, rfl, rfl⟩
  exact hinv.safe hcalls.toAnswered

/-- Two slots: a `TryPush` that finds the queue full while a pop is under way, and a `Push` that
waits for a slot until a pop has returned; then the queue is emptied, and a `WaitAndPop` waits for
one more value. -/
def slotRun : List (SpscAction ℕ) :=
  let produce := List.replicate 4 .produce
  let consume := List.replicate 4 .consume
  .push 5 :: produce ++ .tryPush 6 :: produce ++ [.tryPop, .consume, .tryPush 7, .produce, .consume,
    .consume, .consume, .produce] ++ .push 8 :: produce ++ [.push 9, .produce, .produce] ++
    .waitAndPop :: consume ++ produce ++ .tryPop :: consume ++ .waitAndPop :: consume ++
    [.tryPop, .consume, .consume, .waitAndPop, .consume, .consume]

theorem spsc_safe_slotRun : ∃ s, (spscMachine ℕ 1).Reachable (fun _ _ => True) s ∧
    s.pushes = [(⟨true, 5⟩, true), (⟨false, 6⟩, true), (⟨false, 7⟩, false), (⟨true, 8⟩, true),
      (⟨true, 9⟩, true)] ∧
    s.pops = [(false, some (some 5)), (true, some (some 6)), (false, some (some 8)),
      (true, some (some 9)), (false, none)] ∧
    s.popping = some true ∧ s.failedPush = [2] ∧ s.failedPop = [0] ∧ s.Safe 1 := by
  obtain ⟨s, hs, hpushes, hpops, hwait, hfull, hempty⟩ :=
    (spscMachine ℕ 1).exists_reachable_of_run (fun _ _ => True) slotRun
      (fun s => s.pushes = [(⟨true, 5⟩, true), (⟨false, 6⟩, true), (⟨false, 7⟩, false),
          (⟨true, 8⟩, true), (⟨true, 9⟩, true)] ∧
        s.pops = [(false, some (some 5)), (true, some (some 6)), (false, some (some 8)),
          (true, some (some 9)), (false, none)] ∧
        s.popping = some true ∧ s.failedPush = [2] ∧ s.failedPop = [0])
      (by decide +kernel)
  exact ⟨s, hs, hpushes, hpops, hwait, hfull, hempty, spsc_safe 1 hs⟩

end Mlt
