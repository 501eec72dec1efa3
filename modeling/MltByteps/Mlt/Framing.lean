import MltByteps.Mlt.LtMessage

/-! The bytes of a retransmit request: the buffer that `FinishFlow` fills, what of it the
stream carries, and what the other side makes of it. All lengths of a buffer are `uint32_t`. -/

namespace Mlt
open LittleEndian

namespace RetransmitRequest

/-- The value of `SignalType::kRetransmitRequest`. -/
def kRetransmitRequest : ℕ := 4

/-- `sizeof(RetransmitRequest)`. -/
def headerSize : ℕ := 16

/-- The size of the buffer for a request with `n` blocks is not a `uint32_t`. -/
def TooLong (n : ℕ) : Prop := 2 ^ 32 ≤ 4 + (headerSize + n * sizeofBlock)

instance (n : ℕ) : Decidable (TooLong n) := inferInstanceAs (Decidable (_ ≤ _))

def header (req : RetransmitRequest) : List UInt8 :=
  leBytes 4 kRetransmitRequest ++ leBytes 4 req.msgId.toNat ++
    leBytes 4 (req.commId % 2 ^ 32).toNat ++ leBytes 4 req.numBlocks

/-- The buffer behind `WriteLength`, which stores `size() - sizeof(uint32_t)`. -/
def outBuffer (req : RetransmitRequest) : List UInt8 :=
  leBytes 4 (headerSize + req.payload.length) ++ (req.header ++ req.payload)

end RetransmitRequest

/-- What `OnSendReady` sends of a buffer whose `msg_length` has been set to its size. -/
def sentBytes (buffer : List UInt8) : List UInt8 := buffer.take (u32 buffer.length)

/-- `OnRecvReady` at the start of a message. A `Recv` of no bytes returns 0, which is taken for the
shutdown of the peer; a message that has not arrived completely is not handled. -/
def receiveFrame (stream : List UInt8) : Option (List UInt8) :=
  let length := ofLeBytes (stream.take 4)
  if 4 ≤ stream.length ∧ 0 < length ∧ length ≤ (stream.drop 4).length then
    some ((stream.drop 4).take length)
  else none

/-- `GetInHeader<RetransmitRequest>`. -/
def RetransmitRequest.decode (buffer : List UInt8) : Except Fault RetransmitRequest := do
  require .outOfBounds (headerSize ≤ buffer.length)
  let word := fun i => ofLeBytes ((buffer.drop (4 * i)).take 4)
  return ⟨UInt32.ofNat (word 1), toInt32 (word 2), word 3, buffer.drop headerSize⟩

namespace RetransmitRequest

variable {req : RetransmitRequest}

@[simp] theorem length_header (req : RetransmitRequest) : req.header.length = headerSize := rfl

theorem length_outBuffer (req : RetransmitRequest) :
    req.outBuffer.length = 4 + (headerSize + req.payload.length) := by
  simp [outBuffer]

theorem toInt32_emod {x : ℤ} (hlo : -2 ^ 31 ≤ x) (hhi : x < 2 ^ 31) :
    toInt32 (x % 2 ^ 32).toNat = x := by
  unfold toInt32
  split_ifs <;> omega

theorem decode_header_append (req : RetransmitRequest) (payload : List UInt8) :
    decode (req.header ++ payload) = .ok ⟨req.msgId, toInt32 (req.commId % 2 ^ 32).toNat,
      u32 req.numBlocks, payload⟩ := by
  have hword : ∀ i < 4, ((req.header ++ payload).drop (4 * i)).take 4 =
      (req.header.drop (4 * i)).take 4 := by
    intro i hi
    rw [List.drop_append_of_le_length (by rw [length_header]; unfold headerSize; omega),
      List.take_append_of_le_length (by
        rw [List.length_drop, length_header]; unfold headerSize; omega)]
  have h1 : (req.header.drop (4 * 1)).take 4 = leBytes 4 req.msgId.toNat := rfl
  have h2 : (req.header.drop (4 * 2)).take 4 = leBytes 4 (req.commId % 2 ^ 32).toNat := rfl
  have h3 : (req.header.drop (4 * 3)).take 4 = leBytes 4 req.numBlocks := rfl
  unfold decode
  rw [require_bind _ (by rw [List.length_append, length_header]; omega)]
  dsimp only
  rw [hword 1 (by decide), hword 2 (by decide), hword 3 (by decide), h1, h2, h3,
    GradPacket.ofNat_ofLeBytes_u32, ofLeBytes_leBytes_of_lt (by omega), ofLeBytes_leBytes,
    List.drop_left' (length_header req)]
  rfl

structure Fits (req : RetransmitRequest) : Prop where
  commId_lo : -2 ^ 31 ≤ req.commId
  commId_hi : req.commId < 2 ^ 31
  numBlocks_lt : req.numBlocks < 2 ^ 32

theorem Fits.decode_header_append (h : req.Fits) (payload : List UInt8) :
    decode (req.header ++ payload) = .ok { req with payload } := by
  rw [RetransmitRequest.decode_header_append, toInt32_emod h.commId_lo h.commId_hi,
    u32_of_lt h.numBlocks_lt]

theorem receiveFrame_sentBytes (hlen : 4 + (headerSize + req.payload.length) < 2 ^ 32) :
    receiveFrame (sentBytes req.outBuffer) = some (req.header ++ req.payload) := by
  have hsent : sentBytes req.outBuffer = req.outBuffer := by
    unfold sentBytes
    rw [length_outBuffer, u32_of_lt hlen, ← length_outBuffer, List.take_length]
  have htake : req.outBuffer.take 4 = leBytes 4 (headerSize + req.payload.length) :=
    List.take_left' (length_leBytes 4 _)
  have hdrop : req.outBuffer.drop 4 = req.header ++ req.payload :=
    List.drop_left' (length_leBytes 4 _)
  have hbody : (req.header ++ req.payload).length = headerSize + req.payload.length := by
    rw [List.length_append, length_header]
  unfold receiveFrame
  rw [hsent, htake, hdrop, ofLeBytes_leBytes_of_lt (by omega), hbody, length_outBuffer]
  dsimp only
  rw [if_pos ⟨by omega, by unfold headerSize; omega, le_rfl⟩, ← hbody, List.take_length]

/-- The length of a request of `2^32` bytes is sent as 0, and nothing else of it is sent. -/
theorem receiveFrame_wrapped (hlen : headerSize + req.payload.length = 2 ^ 32) :
    receiveFrame (sentBytes req.outBuffer) = none := by
  have hsent : sentBytes req.outBuffer = leBytes 4 (2 ^ 32) := by
    unfold sentBytes
    rw [length_outBuffer, hlen, show u32 (4 + 2 ^ 32) = 4 by decide, outBuffer, hlen]
    exact List.take_left' (length_leBytes 4 _)
  rw [hsent]
  decide

/-- A request of `2^32` bytes more than its header arrives without its blocks. -/
theorem receiveFrame_bare (hlen : req.payload.length = 2 ^ 32) :
    receiveFrame (sentBytes req.outBuffer) = some req.header := by
  have hsent : sentBytes req.outBuffer = leBytes 4 (headerSize + 2 ^ 32) ++ req.header := by
    unfold sentBytes
    rw [length_outBuffer, hlen, show u32 (4 + (headerSize + 2 ^ 32)) = 20 by decide, outBuffer,
      hlen, ← List.append_assoc]
    exact List.take_left' (by rw [List.length_append, length_leBytes, length_header]; rfl)
  unfold receiveFrame
  rw [hsent, List.take_left' (length_leBytes 4 _), List.drop_left' (length_leBytes 4 _),
    show ofLeBytes (leBytes 4 (headerSize + 2 ^ 32)) = headerSize by decide]
  dsimp only
  rw [if_pos ⟨by rw [List.length_append, length_leBytes]; omega, by decide, le_rfl⟩,
    ← length_header req, List.take_length]

theorem receiveFrame_eq_take {body : List UInt8}
    (h : receiveFrame (sentBytes req.outBuffer) = some body) :
    ∃ n, body = (req.header ++ req.payload).take n := by
  unfold receiveFrame at h
  dsimp only at h
  split_ifs at h
  cases h
  refine ⟨min (ofLeBytes ((sentBytes req.outBuffer).take 4)) (u32 req.outBuffer.length - 4), ?_⟩
  rw [sentBytes, List.drop_take, List.take_take, outBuffer, List.drop_left' (length_leBytes 4 _)]

theorem decode_take {n : ℕ} {req' : RetransmitRequest}
    (h : decode ((req.header ++ req.payload).take n) = .ok req') :
    ∃ k, decode (req.header ++ req.payload.take k) = .ok req' := by
  have hlen := (require_bind_eq_ok.mp h).1
  have hn : headerSize ≤ n := hlen.trans (List.length_take_le _ _)
  refine ⟨n - headerSize, ?_⟩
  rwa [List.take_append, length_header, List.take_of_length_le (by rwa [length_header])] at h

end RetransmitRequest

end Mlt
