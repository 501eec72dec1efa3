import MltByteps.Mlt.Basic
import MltByteps.Lib.Machine
import Mathlib.Data.List.Infix
import Mathlib.Tactic.SplitIfs

/-! The reliable channel: an `RdEndpoint` sends its queued buffers over a TCP stream, the
endpoint at the other end cuts the stream into messages again. Both sockets are
non-blocking and pass as many bytes of a call as the kernel likes. -/

namespace Mlt
open LittleEndian

/-- A violated `CHECK` of the endpoint. -/
inductive RdFault where
  -- `WriteLength`: `value >= 0`.
  | writeLength
  -- `OnSendReady` and `OnRecvReady`: `sock_.LastErrorWouldBlock()`.
  | errno
  -- `OnRecvReady`: `sizeof(length) == ret`.
  | lengthSize
deriving DecidableEq, Repr

/-- What the kernel decides about one call of `send` or `recv`. -/
inductive SockEvent where
  -- At most so many bytes pass.
  | ready (n : ℕ)
  | wouldBlock
  -- The peer has shut down the connection.
  | closed
  | failed
deriving DecidableEq, Repr

/-- The memory at `ptr_`, `size_` bytes, with the part of it that is in use. -/
structure Buffer where
  data : List UInt8
  msgLength : ℕ
  bytesHandled : ℕ := 0
deriving DecidableEq, Repr

namespace Buffer

def getRemainBuffer (b : Buffer) : List UInt8 := b.data.drop b.bytesHandled

def getRemainSize (b : Buffer) : ℕ := u32 (b.msgLength + 2 ^ 32 - b.bytesHandled)

def isClear (b : Buffer) : Bool := b.msgLength = b.bytesHandled

def markHandled (b : Buffer) (nbytes : ℕ) : Buffer :=
  { b with bytesHandled := u32 (b.bytesHandled + nbytes) }

/-- `Buffer(length)` with `set_msg_length(length)`. The memory is not initialised. -/
def malloc (length : ℕ) : Buffer := ⟨.replicate length 0, length, 0⟩

/-- `recv` stores the bytes at `GetRemainBuffer()`. -/
def store (b : Buffer) (bs : List UInt8) : Buffer :=
  { b with data := b.data.take b.bytesHandled ++ bs ++ b.data.drop (b.bytesHandled + bs.length) }

def writeLength (b : Buffer) : Except RdFault Buffer := do
  require .writeLength (4 ≤ b.data.length)
  return { b with data := leBytes 4 (u32 (b.data.length - 4)) ++ b.data.drop 4 }

end Buffer

/-- `recv` of at most `len` bytes: the bytes it returns, or nothing if it would block. No bytes
arrive without an end of the stream only if none are asked for. -/
def recv (stream : List UInt8) (len : ℕ) : SockEvent → Except RdFault (Option (List UInt8))
  | .ready n => .ok (if stream = [] then none else some (stream.take (min n len)))
  | .wouldBlock => .ok none
  | .closed => .ok (some [])
  | .failed => .error .errno

/-- `OnSendReady` with what the kernel decides about its calls of `send`; behind the last
decision the socket blocks. Returned are the queue and the bytes sent. -/
def RdEndpoint.onSendReady :
    List SockEvent → List Buffer → Except RdFault (List Buffer × List UInt8)
  | events, queue =>
    match queue.dropWhile Buffer.isClear with
    | [] => .ok ([], [])
    | buffer :: rest =>
      match events with
      | [] => .ok (buffer :: rest, [])
      | .wouldBlock :: _ => .ok (buffer :: rest, [])
      | .closed :: _ => .error .errno
      | .failed :: _ => .error .errno
      | .ready n :: events => do
        let nbytes := min n buffer.getRemainSize
        let buffer' := buffer.markHandled nbytes
        let (queue, out) ← RdEndpoint.onSendReady events
          (if buffer'.isClear then rest else buffer' :: rest)
        return (queue, buffer.getRemainBuffer.take nbytes ++ out)

/-- The receiving part of an endpoint, with the last of `rx_buffers_` first. -/
structure RdEndpoint where
  rxBuffers : List Buffer := []
  isDead : Bool := false
  -- The arguments of the calls of `HandleReceivedData`.
  received : List (List UInt8) := []
deriving DecidableEq, Repr

namespace RdEndpoint

/-- The first loop of `OnRecvReady`: complete buffers are dropped. -/
def takeIncomplete : List Buffer → Option Buffer × List Buffer
  | [] => (none, [])
  | buffer :: rest => if buffer.isClear then takeIncomplete rest else (some buffer, rest)

/-- The end of `OnRecvReady`: a complete message is handled, any other waits for its rest. -/
def accept (ep : RdEndpoint) (buffer : Buffer) : RdEndpoint :=
  if buffer.isClear then { ep with received := ep.received ++ [buffer.data] }
  else { ep with rxBuffers := buffer :: ep.rxBuffers }

/-- `OnRecvReady` with a buffer in hand: the endpoint and the number of bytes read. -/
def recvData (ep : RdEndpoint) (buffer : Buffer) (stream : List UInt8) (e : SockEvent) :
    Except RdFault (RdEndpoint × ℕ) := do
  match ← recv stream buffer.getRemainSize e with
  | none => return ({ ep with rxBuffers := buffer :: ep.rxBuffers }, 0)
  | some [] => return ({ ep with isDead := true }, 0)
  | some (b :: bs) =>
    let buffer := (buffer.store (b :: bs)).markHandled (b :: bs).length
    return (ep.accept buffer, (b :: bs).length)

/-- `OnRecvReady` with what the kernel decides about its calls of `recv`: one call for the
rest of an incomplete message, otherwise one for the length and one for the data. -/
def onRecvReady (ep : RdEndpoint) (stream : List UInt8) (e₁ e₂ : SockEvent) :
    Except RdFault (RdEndpoint × ℕ) := do
  match takeIncomplete ep.rxBuffers with
  | (some buffer, rest) => recvData { ep with rxBuffers := rest } buffer stream e₁
  | (none, rest) =>
    let ep := { ep with rxBuffers := rest }
    match ← recv stream 4 e₁ with
    | none => return (ep, 0)
    | some [] => return ({ ep with isDead := true }, 0)
    | some (b :: bs) =>
      require .lengthSize ((b :: bs).length = 4)
      let (ep, n) ← recvData ep (.malloc (ofLeBytes (b :: bs))) (stream.drop 4) e₂
      return (ep, 4 + n)

end RdEndpoint

structure Channel where
  txQueue : List Buffer := []
  sent : List UInt8 := []
  taken : ℕ := 0
  peer : RdEndpoint := {}
  -- The payloads of all buffers that were queued.
  queued : List (List UInt8) := []
deriving DecidableEq, Repr

inductive ChannelAction where
  -- `ReliableChannel::Run` takes a buffer for this endpoint.
  | queue (buffer : Buffer)
  | sendReady (events : List SockEvent)
  | recvReady (e₁ e₂ : SockEvent)
deriving DecidableEq, Repr

namespace Channel

def stream (s : Channel) : List UInt8 := s.sent.drop s.taken

def step (s : Channel) : ChannelAction → Except RdFault Channel
  | .queue buffer => do
    let buffer' ← buffer.writeLength
    return { s with txQueue := s.txQueue ++ [buffer'], queued := s.queued ++ [buffer.data.drop 4] }
  | .sendReady events => do
    let (txQueue, out) ← RdEndpoint.onSendReady events s.txQueue
    return { s with txQueue, sent := s.sent ++ out }
  | .recvReady e₁ e₂ =>
    -- A closed socket has left the epoll set.
    if s.peer.isDead then .ok s
    else do
      let (peer, n) ← s.peer.onRecvReady s.stream e₁ e₂
      return { s with peer, taken := s.taken + n }

end Channel

def channelMachine : Machine Channel ChannelAction RdFault := ⟨{}, Channel.step⟩

/-- The connection stays up and every call that passes bytes passes some. -/
def SockEvent.Live : SockEvent → Prop
  | .ready n => 0 < n
  | .wouldBlock => True
  | .closed => False
  | .failed => False

instance (e : SockEvent) : Decidable e.Live := by
  unfold SockEvent.Live
  split <;> infer_instance

def Buffer.Fresh (b : Buffer) : Prop :=
  b.msgLength = b.data.length ∧ b.bytesHandled = 0 ∧ 4 ≤ b.data.length ∧ b.data.length < 2 ^ 32

instance (b : Buffer) : Decidable b.Fresh := by
  unfold Buffer.Fresh
  infer_instance

def ChannelAction.Valid : ChannelAction → Prop
  | .queue buffer => buffer.Fresh
  | .sendReady events => ∀ e ∈ events, e.Live
  | .recvReady e₁ e₂ => e₁.Live ∧ e₂.Live

instance (a : ChannelAction) : Decidable a.Valid := by
  unfold ChannelAction.Valid
  split <;> infer_instance

/-- A `recv` at the start of a message returns its whole length, which is not 0. -/
def Channel.Whole (s : Channel) : ChannelAction → Prop
  | .recvReady (.ready n) _ => s.peer.rxBuffers = [] → s.stream ≠ [] →
      4 ≤ n ∧ 4 ≤ s.stream.length ∧ ofLeBytes (s.stream.take 4) ≠ 0
  | _ => True

instance (s : Channel) (a : ChannelAction) : Decidable (s.Whole a) := by
  unfold Channel.Whole
  split <;> infer_instance

def frame (p : List UInt8) : List UInt8 := leBytes 4 p.length ++ p

def frames (ps : List (List UInt8)) : List UInt8 := ps.flatMap frame

@[simp] theorem length_frame (p : List UInt8) : (frame p).length = 4 + p.length := by
  simp [frame]

@[simp] theorem frames_append (ps qs : List (List UInt8)) :
    frames (ps ++ qs) = frames ps ++ frames qs := List.flatMap_append

@[simp] theorem frames_cons (p : List UInt8) (ps : List (List UInt8)) :
    frames (p :: ps) = frame p ++ frames ps := List.flatMap_cons

@[simp] theorem frames_nil : frames [] = [] := rfl

section Sender

structure Buffer.Sending (b : Buffer) : Prop where
  msgLength : b.msgLength = b.data.length
  handled : b.bytesHandled ≤ b.data.length
  size : b.data.length < 2 ^ 32

def unsent (queue : List Buffer) : List UInt8 := queue.flatMap Buffer.getRemainBuffer

variable {b : Buffer} {queue : List Buffer}

theorem Buffer.Sending.getRemainSize (h : b.Sending) :
    b.getRemainSize = b.getRemainBuffer.length := by
  have hle := h.handled
  have hlt := h.size
  rw [Buffer.getRemainSize, Buffer.getRemainBuffer, h.msgLength, List.length_drop, u32]
  omega

theorem Buffer.Sending.isClear_iff (h : b.Sending) :
    b.isClear ↔ b.getRemainBuffer = [] := by
  have hle := h.handled
  rw [Buffer.isClear, Buffer.getRemainBuffer, List.drop_eq_nil_iff, h.msgLength,
    decide_eq_true_iff]
  omega

theorem Buffer.Sending.markHandled (h : b.Sending) {n : ℕ} (hn : n ≤ b.getRemainSize) :
    (b.markHandled n).Sending ∧
      b.getRemainBuffer.take n ++ (b.markHandled n).getRemainBuffer = b.getRemainBuffer := by
  have hle := h.handled
  have hlt := h.size
  rw [h.getRemainSize, Buffer.getRemainBuffer, List.length_drop] at hn
  have hu : u32 (b.bytesHandled + n) = b.bytesHandled + n := u32_of_lt (by omega)
  refine ⟨⟨h.msgLength, ?_, hlt⟩, ?_⟩
  · show u32 (b.bytesHandled + n) ≤ b.data.length
    omega
  · show (b.data.drop b.bytesHandled).take n ++ b.data.drop (u32 (b.bytesHandled + n)) = _
    rw [hu, ← List.drop_drop, List.take_append_drop, Buffer.getRemainBuffer]

theorem unsent_dropWhile_isClear (h : ∀ b ∈ queue, b.Sending) :
    unsent (queue.dropWhile Buffer.isClear) = unsent queue := by
  induction queue with
  | nil => rfl
  | cons b queue ih =>
    rw [List.dropWhile_cons]
    split_ifs with hclear
    · rw [ih (fun b hb => h b (.tail _ hb)), unsent, unsent, List.flatMap_cons,
        (h b (.head _)).isClear_iff.mp hclear, List.nil_append]
    · rfl

theorem RdEndpoint.onSendReady_spec {events : List SockEvent} (hlive : ∀ e ∈ events, e.Live)
    (hq : ∀ b ∈ queue, b.Sending) :
    ∃ queue' out, onSendReady events queue = .ok (queue', out) ∧
      (∀ b ∈ queue', b.Sending) ∧ out ++ unsent queue' = unsent queue := by
  induction events generalizing queue with
  | nil =>
    rw [← unsent_dropWhile_isClear hq, onSendReady]
    have hq' : ∀ b ∈ queue.dropWhile Buffer.isClear, b.Sending :=
      fun b hb => hq b ((List.dropWhile_sublist _).subset hb)
    generalize queue.dropWhile Buffer.isClear = waiting at hq' ⊢
    rcases waiting with _ | ⟨b, rest⟩
    · exact ⟨[], [], rfl, hq', rfl⟩
    · exact ⟨b :: rest, [], rfl, hq', rfl⟩
  | cons e events ih =>
    rw [← unsent_dropWhile_isClear hq, onSendReady]
    have hq' : ∀ b ∈ queue.dropWhile Buffer.isClear, b.Sending :=
      fun b hb => hq b ((List.dropWhile_sublist _).subset hb)
    generalize queue.dropWhile Buffer.isClear = waiting at hq' ⊢
    rcases waiting with _ | ⟨b, rest⟩
    · exact ⟨[], [], rfl, hq', rfl⟩
    have hhead := hlive e (.head _)
    cases e with
    | wouldBlock => exact ⟨b :: rest, [], rfl, hq', rfl⟩
    | closed => exact hhead.elim
    | failed => exact hhead.elim
    | ready n =>
      dsimp only
      obtain ⟨hsending, hsplit⟩ := (hq' b (.head _)).markHandled (min_le_right n b.getRemainSize)
      have hnext : ∀ c ∈ (if (b.markHandled (min n b.getRemainSize)).isClear then rest
          else b.markHandled (min n b.getRemainSize) :: rest), c.Sending := by
        intro c hc
        split_ifs at hc
        · exact hq' c (.tail _ hc)
        · rcases List.mem_cons.mp hc with rfl | hc
          · exact hsending
          · exact hq' c (.tail _ hc)
      obtain ⟨queue', out, hok, hq'', hout⟩ := ih (fun e he => hlive e (.tail _ he)) hnext
      refine ⟨queue', _, by rw [hok]; rfl, hq'', ?_⟩
      rw [List.append_assoc, hout]
      -- A buffer that is clear has nothing left to send.
      split_ifs with hclear
      · rw [hsending.isClear_iff.mp hclear, List.append_nil] at hsplit
        rw [hsplit]
        rfl
      · rw [unsent, unsent, List.flatMap_cons, List.flatMap_cons, ← List.append_assoc, hsplit]

end Sender

section Receiver

structure Buffer.Filling (b : Buffer) (p : List UInt8) : Prop where
  size : b.data.length = p.length
  msgLength : b.msgLength = p.length
  handled : b.bytesHandled < p.length
  filled : b.data.take b.bytesHandled = p.take b.bytesHandled

inductive RdEndpoint.Progress (ep : RdEndpoint) (p : List UInt8) (place : ℕ) : RdEndpoint → Prop
  | part {b : Buffer} (hb : b.Filling p) (hplace : b.bytesHandled = place) :
      Progress ep p place { ep with rxBuffers := b :: ep.rxBuffers }
  | whole (hplace : place = p.length) :
      Progress ep p place { ep with received := ep.received ++ [p] }

variable {b : Buffer} {p stream tail : List UInt8} {ep : RdEndpoint} {e : SockEvent}

theorem Buffer.Filling.malloc (h : p ≠ []) : (Buffer.malloc p.length).Filling p :=
  ⟨by simp [Buffer.malloc], rfl, List.length_pos_iff.mpr h, rfl⟩

theorem Buffer.Filling.getRemainSize (h : b.Filling p) (hp : p.length < 2 ^ 32) :
    b.getRemainSize = p.length - b.bytesHandled := by
  have hlt := h.handled
  rw [Buffer.getRemainSize, h.msgLength, u32]
  omega

theorem Buffer.Filling.store (h : b.Filling p) {n : ℕ} (hn : b.bytesHandled + n ≤ p.length) :
    (b.store ((p.drop b.bytesHandled).take n)).data =
      p.take (b.bytesHandled + n) ++ b.data.drop (b.bytesHandled + n) := by
  have hlen : ((p.drop b.bytesHandled).take n).length = n := by
    rw [List.length_take, List.length_drop]
    omega
  show b.data.take b.bytesHandled ++ _ ++ b.data.drop (b.bytesHandled + _) = _
  rw [hlen, h.filled, List.take_add]

theorem RdEndpoint.accept_store (h : b.Filling p) (hp : p.length < 2 ^ 32) {bs : List UInt8}
    (hbs : bs <+: p.drop b.bytesHandled) :
    ep.Progress p (b.bytesHandled + bs.length)
      (ep.accept ((b.store bs).markHandled bs.length)) := by
  have hlt := h.handled
  have hle := hbs.length_le
  rw [List.length_drop] at hle
  rw [List.prefix_iff_eq_take] at hbs
  generalize bs.length = n at hle hbs ⊢
  have hu : u32 (b.bytesHandled + n) = b.bytesHandled + n := u32_of_lt (by omega)
  have hdata := h.store (n := n) (by omega)
  rw [← hbs] at hdata
  have hclear : ((b.store bs).markHandled n).isClear =
      decide (p.length = b.bytesHandled + n) := by
    show decide (b.msgLength = u32 (b.bytesHandled + n)) = _
    rw [hu, h.msgLength]
  rw [accept, hclear]
  split_ifs with hfull
  · rw [decide_eq_true_iff] at hfull
    have hwhole : ((b.store bs).markHandled n).data = p := by
      show (b.store bs).data = p
      rw [hdata, ← hfull, List.take_length, ← h.size, List.drop_length, List.append_nil]
    rw [hwhole]
    exact .whole hfull.symm
  · rw [decide_eq_true_iff] at hfull
    have htake : (p.take (b.bytesHandled + n)).length = b.bytesHandled + n := by
      rw [List.length_take]
      omega
    refine .part ⟨?_, h.msgLength, ?_, ?_⟩ hu
    · show (b.store bs).data.length = _
      rw [hdata, List.length_append, htake, List.length_drop, h.size]
      omega
    · show u32 (b.bytesHandled + n) < _
      omega
    · show (b.store bs).data.take (u32 (b.bytesHandled + n)) = _
      rw [hu, hdata, List.take_left' htake]
      show _ = p.take (u32 (b.bytesHandled + n))
      rw [hu]

theorem RdEndpoint.recvData_spec (ep : RdEndpoint) (h : b.Filling p) (hp : p.length < 2 ^ 32)
    (hs : stream <+: p.drop b.bytesHandled ++ tail) (he : e.Live) :
    ∃ ep' n, ep.recvData b stream e = .ok (ep', n) ∧ n ≤ stream.length ∧
      ep.Progress p (b.bytesHandled + n) ep' := by
  have hnone : ep.Progress p (b.bytesHandled + 0) { ep with rxBuffers := b :: ep.rxBuffers } :=
    .part h rfl
  cases e with
  | wouldBlock => exact ⟨_, 0, rfl, Nat.zero_le _, hnone⟩
  | closed => exact he.elim
  | failed => exact he.elim
  | ready n =>
    unfold RdEndpoint.recvData recv
    dsimp only
    split_ifs with hnil
    · exact ⟨_, 0, rfl, Nat.zero_le _, hnone⟩
    have hlt := h.handled
    have hpos : 0 < n := he
    have hlen := List.length_pos_iff.mpr hnil
    obtain ⟨c, cs, hcs⟩ : ∃ c cs, stream.take (min n b.getRemainSize) = c :: cs := by
      apply List.exists_cons_of_ne_nil
      rw [← List.length_pos_iff, List.length_take, h.getRemainSize hp]
      omega
    -- What is read lies in this payload: no more than the rest of it was asked for.
    have hmin : (c :: cs).length ≤ (p.drop b.bytesHandled).length := by
      rw [← hcs, List.length_take, List.length_drop, h.getRemainSize hp]
      omega
    have hpre : c :: cs <+: p.drop b.bytesHandled :=
      List.prefix_of_prefix_length_le
        ((hcs ▸ List.take_prefix _ _ : c :: cs <+: stream).trans hs) (List.prefix_append _ _) hmin
    rw [hcs]
    refine ⟨_, (c :: cs).length, rfl, ?_, accept_store h hp hpre⟩
    rw [← hcs, List.length_take]
    omega

end Receiver

section Channel

inductive RdEndpoint.Reading (ep : RdEndpoint) (queued : List (List UInt8)) (taken : ℕ) : Prop
  | between (rest : List (List UInt8)) (hq : queued = ep.received ++ rest)
      (hrx : ep.rxBuffers = []) (ht : taken = (frames ep.received).length)
  | inside {p : List UInt8} {rest : List (List UInt8)} {b : Buffer}
      (hq : queued = ep.received ++ p :: rest) (hrx : ep.rxBuffers = [b]) (hb : b.Filling p)
      (ht : taken = (frames ep.received).length + 4 + b.bytesHandled)

/-- No byte is lost or out of its place between the queue and the handler. -/
structure Channel.Inv (s : Channel) : Prop where
  sized : ∀ p ∈ s.queued, 4 + p.length < 2 ^ 32
  sending : ∀ b ∈ s.txQueue, b.Sending
  bytes : s.sent ++ unsent s.txQueue = frames s.queued
  place : s.taken ≤ s.sent.length
  alive : s.peer.isDead = false
  reading : s.peer.Reading s.queued s.taken

variable {ep ep' : RdEndpoint} {queued rest : List (List UInt8)} {p stream : List UInt8}
  {place n : ℕ} {e₁ e₂ : SockEvent} {s s' : Channel} {a : ChannelAction}

theorem RdEndpoint.Progress.reading (h : ep.Progress p place ep') (hrx : ep.rxBuffers = [])
    (hq : queued = ep.received ++ p :: rest) : ep'.isDead = ep.isDead ∧
      ep'.Reading queued ((frames ep.received).length + 4 + place) := by
  cases h with
  | part hb hplace => exact ⟨rfl, .inside hq (by rw [hrx]) hb (by rw [hplace])⟩
  | whole hplace =>
    refine ⟨rfl, .between rest ?_ hrx ?_⟩
    · rw [hq, List.append_assoc, List.singleton_append]
    · rw [frames_append, List.length_append, frames_cons, frames_nil, List.append_nil,
        length_frame, hplace, Nat.add_assoc]

theorem RdEndpoint.Reading.queue {taken : ℕ} (h : ep.Reading queued taken) :
    ep.Reading (queued ++ [p]) taken := by
  cases h with
  | between rest hq hrx ht => exact .between _ (by rw [hq, List.append_assoc]) hrx ht
  | inside hq hrx hb ht =>
    exact .inside (by rw [hq, List.append_assoc, List.cons_append]) hrx hb ht

theorem Buffer.Fresh.writeLength {b : Buffer} (h : b.Fresh) :
    ∃ b', b.writeLength = .ok b' ∧ b'.Sending ∧ b'.getRemainBuffer = frame (b.data.drop 4) := by
  obtain ⟨hmsg, hhandled, h4, hlt⟩ := h
  have hlen : (leBytes 4 (u32 (b.data.length - 4)) ++ b.data.drop 4).length = b.data.length := by
    rw [List.length_append, length_leBytes, List.length_drop]
    omega
  refine ⟨_, by rw [Buffer.writeLength, require_bind _ h4]; rfl, ⟨?_, ?_, ?_⟩, ?_⟩
  · rw [hlen, hmsg]
  · rw [hlen, hhandled]
    exact Nat.zero_le _
  · rwa [hlen]
  · rw [Buffer.getRemainBuffer, hhandled, List.drop_zero, frame, List.length_drop,
      u32_of_lt (by omega)]

theorem Channel.Inv.queue {b : Buffer} (h : s.Inv) (hb : b.Fresh) :
    ∃ s', s.step (.queue b) = .ok s' ∧ s'.Inv := by
  obtain ⟨b', hok, hsending, hremain⟩ := hb.writeLength
  rw [Channel.step, hok, ok_bind]
  refine ⟨_, rfl, ⟨?_, ?_, ?_, h.place, h.alive, h.reading.queue⟩⟩
  · intro p hp
    rcases List.mem_append.mp hp with hp | hp
    · exact h.sized p hp
    · obtain ⟨_, _, h4, hlt⟩ := hb
      rw [List.mem_singleton.mp hp, List.length_drop]
      omega
  · intro c hc
    rcases List.mem_append.mp hc with hc | hc
    · exact h.sending c hc
    · rwa [List.mem_singleton.mp hc]
  · rw [unsent, List.flatMap_append, ← unsent, ← List.append_assoc, h.bytes, frames_append,
      List.flatMap_singleton, hremain, frames_cons, frames_nil, List.append_nil]

theorem Channel.Inv.sendReady {events : List SockEvent} (h : s.Inv)
    (hlive : ∀ e ∈ events, e.Live) : ∃ s', s.step (.sendReady events) = .ok s' ∧ s'.Inv := by
  obtain ⟨queue', out, hok, hsending, hout⟩ := RdEndpoint.onSendReady_spec hlive h.sending
  rw [Channel.step, hok, ok_bind]
  refine ⟨_, rfl, ⟨h.sized, hsending, ?_, ?_, h.alive, h.reading⟩⟩
  · rw [List.append_assoc, hout, h.bytes]
  · rw [List.length_append]
    exact h.place.trans (Nat.le_add_right _ _)

theorem Channel.Inv.stream_prefix (h : s.Inv) : s.stream <+: (frames s.queued).drop s.taken := by
  rw [← h.bytes]
  exact List.IsPrefix.drop (List.prefix_append _ _) _

theorem Channel.Inv.length_stream (h : s.Inv) : s.taken + s.stream.length = s.sent.length := by
  have hle := h.place
  rw [Channel.stream, List.length_drop]
  omega

theorem Channel.Inv.stream_between (h : s.Inv) (hrx : s.peer.rxBuffers = [])
    (h4 : 4 ≤ s.stream.length) :
    ∃ p rest, s.queued = s.peer.received ++ p :: rest ∧ s.taken = (frames s.peer.received).length ∧
      4 + p.length < 2 ^ 32 ∧ s.stream.take 4 = leBytes 4 p.length ∧
      s.stream.drop 4 <+: p.drop 0 ++ frames rest := by
  cases h.reading with
  | inside _ hrx' _ _ => exact absurd (hrx.symm.trans hrx') (List.cons_ne_nil _ _).symm
  | between rest hq _ ht =>
    have hpre := h.stream_prefix
    rw [hq, frames_append, ht, List.drop_left] at hpre
    rcases rest with _ | ⟨p, rest⟩
    · rw [List.prefix_nil.mp hpre] at h4
      exact absurd h4 (by decide)
    rw [frames_cons, frame, List.append_assoc] at hpre
    have htake := hpre.take 4
    have hdrop := hpre.drop 4
    rw [List.take_left' (length_leBytes _ _)] at htake
    rw [List.drop_left' (length_leBytes _ _)] at hdrop
    refine ⟨p, rest, hq, ht, h.sized p ?_, htake.eq_of_length ?_, hdrop⟩
    · rw [hq]
      exact List.mem_append_right _ (.head _)
    · rw [List.length_take, length_leBytes]
      omega

theorem Channel.Inv.stream_inside (h : s.Inv) (hq : s.queued = s.peer.received ++ p :: rest)
    (ht : s.taken = (frames s.peer.received).length + 4 + n) (hn : n ≤ p.length) :
    s.stream <+: p.drop n ++ frames rest := by
  have hpre := h.stream_prefix
  rwa [hq, frames_append, ht, Nat.add_assoc, ← List.drop_drop, List.drop_left, frames_cons, frame,
    List.append_assoc, ← List.drop_drop, List.drop_left' (length_leBytes _ _),
    List.drop_append_of_le_length hn] at hpre

theorem RdEndpoint.onRecvReady_start (hrx : ep.rxBuffers = []) (hs : stream ≠ []) (hn : 0 < n) :
    ep.onRecvReady stream (.ready n) e₂ = (do
      require .lengthSize ((stream.take (min n 4)).length = 4)
      let (ep', m) ← ep.recvData (.malloc (ofLeBytes (stream.take (min n 4)))) (stream.drop 4) e₂
      return (ep', 4 + m)) := by
  obtain ⟨c, cs, hcs⟩ : ∃ c cs, stream.take (min n 4) = c :: cs := by
    apply List.exists_cons_of_ne_nil
    rw [← List.length_pos_iff, List.length_take]
    have := List.length_pos_iff.mpr hs
    omega
  have hep : { ep with rxBuffers := [] } = ep := by rw [← hrx]
  rw [onRecvReady, hrx, takeIncomplete, recv, if_neg hs, hcs]
  dsimp only
  rw [hep, ok_bind]

theorem Channel.step_recvReady (halive : s.peer.isDead = false)
    (hok : s.peer.onRecvReady s.stream e₁ e₂ = .ok (ep', n)) :
    s.step (.recvReady e₁ e₂) = .ok { s with peer := ep', taken := s.taken + n } := by
  rw [Channel.step, halive, if_neg Bool.false_ne_true, hok]
  rfl

theorem Channel.Inv.progress (h : s.Inv) (hprogress : ep.Progress p place ep')
    (hrx : ep.rxBuffers = []) (hdead : ep.isDead = false) (hrec : ep.received = s.peer.received)
    (hq : s.queued = s.peer.received ++ p :: rest) (hn : n ≤ s.stream.length)
    (htaken : s.taken + n = (frames s.peer.received).length + 4 + place) :
    Channel.Inv { s with peer := ep', taken := s.taken + n } := by
  obtain ⟨hdead', hreading⟩ := hprogress.reading hrx (hrec ▸ hq)
  refine ⟨h.sized, h.sending, h.bytes, ?_, hdead'.trans hdead, ?_⟩
  · show s.taken + n ≤ s.sent.length
    have := h.length_stream
    omega
  · show ep'.Reading s.queued (s.taken + n)
    rwa [htaken, ← hrec]

theorem Channel.Inv.recvReady (h : s.Inv) (h₁ : e₁.Live) (h₂ : e₂.Live)
    (hwhole : s.Whole (.recvReady e₁ e₂)) :
    ∃ s', s.step (.recvReady e₁ e₂) = .ok s' ∧ s'.Inv := by
  cases h.reading with
  | @inside p rest b hq hrx hb ht =>
    have hp := h.sized p (by rw [hq]; exact List.mem_append_right _ (.head _))
    obtain ⟨ep', n, hok, hn, hprogress⟩ := RdEndpoint.recvData_spec
      { s.peer with rxBuffers := [] } hb (by omega) (h.stream_inside hq ht hb.handled.le) h₁
    have hclear : b.isClear = false := by
      rw [Buffer.isClear, decide_eq_false_iff_not, hb.msgLength]
      exact hb.handled.ne'
    refine ⟨_, step_recvReady h.alive ?_,
      h.progress hprogress rfl h.alive rfl hq hn (by rw [ht, Nat.add_assoc])⟩
    rw [RdEndpoint.onRecvReady, hrx, RdEndpoint.takeIncomplete, hclear]
    exact hok
  | between rest hq hrx ht =>
    -- A call that returns nothing leaves all as it is.
    have hstay : recv s.stream 4 e₁ = .ok none →
        ∃ s', s.step (.recvReady e₁ e₂) = .ok s' ∧ s'.Inv := by
      intro hnone
      have hok : s.peer.onRecvReady s.stream e₁ e₂ = .ok (s.peer, 0) := by
        rw [RdEndpoint.onRecvReady, hrx, RdEndpoint.takeIncomplete]
        dsimp only
        rw [hnone, ← hrx]
        rfl
      exact ⟨_, step_recvReady h.alive hok, h⟩
    cases e₁ with
    | closed => exact h₁.elim
    | failed => exact h₁.elim
    | wouldBlock => exact hstay rfl
    | ready k =>
      by_cases hnil : s.stream = []
      · exact hstay (by rw [recv, if_pos hnil])
      obtain ⟨hk, h4, hne⟩ := hwhole hrx hnil
      obtain ⟨p, rest, hq, ht, hp, htake, hdrop⟩ := h.stream_between hrx h4
      rw [htake, ofLeBytes_leBytes_of_lt (by omega)] at hne
      obtain ⟨ep', n, hok, hn, hprogress⟩ := s.peer.recvData_spec
        (Buffer.Filling.malloc (List.ne_nil_of_length_pos (Nat.pos_of_ne_zero hne))) (by omega)
        hdrop h₂
      rw [List.length_drop] at hn
      refine ⟨_, step_recvReady h.alive ?_, h.progress hprogress hrx h.alive rfl hq
        (n := 4 + n) (by omega) (by rw [ht, Buffer.malloc, Nat.zero_add, Nat.add_assoc])⟩
      rw [RdEndpoint.onRecvReady_start hrx hnil (by omega), Nat.min_eq_right hk, htake,
        require_bind _ (length_leBytes _ _), ofLeBytes_leBytes_of_lt (by omega), hok]
      rfl

structure Channel.Exact (s : Channel) : Prop where
  alive : s.peer.isDead = false
  handed : ∃ rest, s.queued = s.peer.received ++ rest ∧
    (frames s.peer.received).length ≤ s.taken ∧
    ∀ p ∈ rest.head?, s.taken < (frames (s.peer.received ++ [p])).length

theorem Channel.Inv.exact (h : s.Inv) : s.Exact := by
  refine ⟨h.alive, ?_⟩
  cases h.reading with
  | between rest hq hrx ht =>
    refine ⟨rest, hq, ht.ge, fun p _ => ?_⟩
    rw [ht, frames_append, List.length_append, frames_cons, List.length_append, length_frame]
    omega
  | @inside p rest b hq hrx hb ht =>
    refine ⟨p :: rest, hq, by omega, fun p' hp' => ?_⟩
    rw [← Option.some.inj (hp' : some p = some p'), frames_append, List.length_append, frames_cons,
      List.length_append, length_frame]
    have := hb.handled
    omega

theorem Channel.Inv.drained (h : s.Inv) (htx : s.txQueue = []) (hs : s.stream = []) :
    s.peer.received = s.queued := by
  obtain ⟨rest, hq, -, hlt⟩ := h.exact.handed
  rcases rest with _ | ⟨p, rest⟩
  · rw [hq, List.append_nil]
  · have hbytes := congrArg List.length h.bytes
    have hlen := h.length_stream
    have := hlt p rfl
    rw [htx, hq] at hbytes
    rw [hs] at hlen
    simp only [unsent, List.flatMap_nil, List.append_nil, frames_append, frames_cons,
      frames_nil, List.length_append, List.length_nil] at hbytes hlen this
    omega

theorem Channel.Inv.step (h : s.Inv) (hvalid : a.Valid) (hwhole : s.Whole a) :
    ∃ s', s.step a = .ok s' ∧ s'.Inv := by
  cases a with
  | queue b => exact h.queue hvalid
  | sendReady events => exact h.sendReady hvalid
  | recvReady e₁ e₂ => exact h.recvReady hvalid.1 hvalid.2 hwhole

/-- A message of no bytes is never handled: to read none of them looks like the end of the
stream. -/
theorem RdEndpoint.recvData_empty {e : SockEvent} (he : e.Live)
    (h : ep.recvData (.malloc 0) stream e = .ok (ep', n)) :
    n = 0 ∧ (ep'.isDead = true ∨ ep'.received = ep.received) := by
  cases e with
  | closed => exact he.elim
  | failed => exact he.elim
  | wouldBlock =>
    cases h
    exact ⟨rfl, .inr rfl⟩
  | ready k =>
    have hsize : (Buffer.malloc 0).getRemainSize = 0 := by decide
    rw [recvData, recv, hsize, Nat.min_zero, List.take_zero] at h
    split_ifs at h
    · cases h
      exact ⟨rfl, .inr rfl⟩
    · cases h
      exact ⟨rfl, .inl rfl⟩

/-- A `recv` that does not return a whole length, or a length of 0, breaks the connection or
loses a message. -/
theorem Channel.Inv.whole_of_step (h : s.Inv) (hvalid : a.Valid) (hs : s.step a = .ok s')
    (hexact : s'.Exact) : s.Whole a := by
  unfold Channel.Whole
  split
  case h_2 => trivial
  case h_1 n e₂ =>
    intro hrx hnil
    have hn : 0 < n := hvalid.1
    rw [Channel.step, h.alive, if_neg Bool.false_ne_true,
      RdEndpoint.onRecvReady_start hrx hnil hn] at hs
    obtain ⟨⟨ep₁, n₁⟩, hrecv, hs⟩ := bind_eq_ok.mp hs
    obtain ⟨hlen, hrecv⟩ := require_bind_eq_ok.mp hrecv
    obtain ⟨⟨ep₂, n₂⟩, hdata, hret⟩ := bind_eq_ok.mp hrecv
    cases hret
    cases hs
    rw [List.length_take] at hlen
    refine ⟨by omega, by omega, fun hzero => ?_⟩
    rw [Nat.min_eq_right (by omega), hzero] at hdata
    obtain ⟨rfl, hdead | hsame⟩ := RdEndpoint.recvData_empty hvalid.2 hdata
    · exact Bool.false_ne_true (hexact.alive.symm.trans hdead)
    -- The length and all zero bytes of this payload have been read, but it was not handled.
    obtain ⟨p, rest, hq, ht, hp, htake, -⟩ := h.stream_between hrx (by omega)
    rw [htake, ofLeBytes_leBytes_of_lt (by omega)] at hzero
    obtain ⟨rest', hq', -, hlt⟩ := hexact.handed
    have hrest : rest' = p :: rest := by
      apply (List.append_right_inj s.peer.received).mp
      rw [← hq]
      exact hsame ▸ hq'.symm
    have := hlt p (by rw [hrest]; rfl)
    dsimp only at this
    rw [hsame, frames_append, List.length_append, frames_cons, frames_nil, List.append_nil,
      length_frame] at this
    omega

theorem Channel.inv_of_reachable
    (h : channelMachine.Reachable (fun s a => a.Valid ∧ s.Whole a) s) : s.Inv := by
  refine h.invariant (P := Channel.Inv) ?_ ?_
  · exact ⟨fun _ hp => (nomatch hp), fun _ hb => (nomatch hb), rfl, le_rfl, rfl,
      .between [] rfl rfl rfl⟩
  · rintro s a s' hinv ⟨hvalid, hwhole⟩ hs
    obtain ⟨s₁, hok, hinv'⟩ := hinv.step hvalid hwhole
    cases hs.symm.trans hok
    exact hinv'

end Channel

/-- As long as each `recv` of a length returns all of it, and it is not 0, the messages pass
unchanged, once each and in order; the first one that does not breaks this. -/
theorem channel_exact_iff {s : Channel}
    (h : channelMachine.Reachable (fun s a => a.Valid ∧ s.Whole a) s) :
    s.Exact ∧ (s.txQueue = [] → s.stream = [] → s.peer.received = s.queued) ∧
    ∀ a : ChannelAction, a.Valid → ((∃ s', s.step a = .ok s' ∧ s'.Exact) ↔ s.Whole a) := by
  have hinv := Channel.inv_of_reachable h
  refine ⟨hinv.exact, hinv.drained, fun a hvalid => ⟨?_, fun hwhole => ?_⟩⟩
  · rintro ⟨s', hs, hexact⟩
    exact hinv.whole_of_step hvalid hs hexact
  · obtain ⟨s', hs, hinv'⟩ := hinv.step hvalid hwhole
    exact ⟨s', hs, hinv'.exact⟩

def cutRun : List ChannelAction :=
  [.queue ⟨[0, 0, 0, 0, 1, 2, 3], 7, 0⟩, .queue ⟨[9, 9, 9, 9, 4], 5, 0⟩, .sendReady [.ready 5],
    .recvReady (.ready 4) (.ready 8), .recvReady (.ready 8) .wouldBlock,
    .sendReady [.ready 8, .wouldBlock], .recvReady (.ready 8) .wouldBlock,
    .sendReady [.ready 1, .ready 3, .ready 8], .recvReady (.ready 4) .wouldBlock,
    .recvReady (.ready 1) .wouldBlock]

theorem channel_exact_iff_cutRun :
    ∃ s, channelMachine.Reachable (fun s a => a.Valid ∧ s.Whole a) s ∧
      s.queued = [[1, 2, 3], [4]] ∧ s.peer.received = s.queued ∧ s.Exact := by
  obtain ⟨s, hs, hqueued, htx, hstream⟩ := channelMachine.exists_reachable_of_run
    (fun s a => a.Valid ∧ s.Whole a) cutRun
    (fun s => s.queued = [[1, 2, 3], [4]] ∧ s.txQueue = [] ∧ s.stream = []) (by decide +kernel)
  obtain ⟨hexact, hdrained, -⟩ := channel_exact_iff hs
  exact ⟨s, hs, hqueued, hdrained htx hstream, hexact⟩

/-- A length of which two bytes have arrived aborts the peer, and an empty payload in front of
another one disconnects it. -/
theorem split_length_aborts :
    (∃ s, channelMachine.Reachable (fun _ a => a.Valid) s ∧ s.queued = [[1, 2, 3]] ∧
      s.sent = [3, 0] ∧ s.step (.recvReady (.ready 4) .wouldBlock) = .error .lengthSize) ∧
    ∃ s, channelMachine.Reachable (fun _ a => a.Valid) s ∧ s.queued = [[], [1, 2, 3]] ∧
      s.peer.isDead = true := by
  constructor
  · exact channelMachine.exists_reachable_of_run (fun _ a => a.Valid)
      [.queue ⟨[0, 0, 0, 0, 1, 2, 3], 7, 0⟩, .sendReady [.ready 2]] _ (by decide +kernel)
  · exact channelMachine.exists_reachable_of_run (fun _ a => a.Valid)
      [.queue ⟨[0, 0, 0, 0], 4, 0⟩, .queue ⟨[0, 0, 0, 0, 1, 2, 3], 7, 0⟩,
        .sendReady [.ready 8, .ready 8], .recvReady (.ready 8) (.ready 8)] _ (by decide +kernel)

end Mlt
