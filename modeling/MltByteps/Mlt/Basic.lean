import MltByteps.Lib.Check
import MltByteps.Lib.Memory

/-! Machine words of the transport and the places where it can abort. A handler
returns `Except Fault`: an error is a violated `CHECK`, or a read past the end of
a received buffer, which the source leaves undefined. -/

namespace Mlt

def u32 (n : ℕ) : ℕ := n % 2 ^ 32

theorem u32_of_lt {n : ℕ} (h : n < 2 ^ 32) : u32 n = n := Nat.mod_eq_of_lt h

/-- Subtraction of `size_t`. -/
@[irreducible] def sub64 (a b : ℕ) : ℕ := (a + (2 ^ 64 - b % 2 ^ 64)) % 2 ^ 64

theorem sub64_of_le {a b : ℕ} (hle : b ≤ a) (hlt : a < 2 ^ 64) : sub64 a b = a - b := by
  unfold sub64
  omega

/-- The value a `uint32_t` takes when it is converted to `int`. -/
def toInt32 (n : ℕ) : ℤ := if n % 2 ^ 32 < 2 ^ 31 then n % 2 ^ 32 else (n % 2 ^ 32 : ℕ) - 2 ^ 32

inductive Fault where
  -- `TreeBlockMgr::Resize`: `size > size_`.
  | resize
  -- `TreeBlockMgr::Take`: `!tree_.empty()`.
  | takeEmpty
  -- `TreeBlockMgr::Take`: `it != tree_.begin()`.
  | takeBegin
  -- `TreeBlockMgr::Take`: `it->first <= seq && seq < it->last`.
  | takeRange
  -- `MemoryFixedSizeStream::Write`: `curr_ptr_ + size <= buffer_size_`.
  | streamWrite
  -- `SerializeToBuffer`: `strm->Tell() == ByteSize()`.
  | streamTell
  -- `CopyGradients`: `pkt->offset + grad_bytes <= size`.
  | copyGradients
  -- `HandleReceive`: `pkt->dst_comm_id` is this communicator.
  | dstCommId
  -- `PollReceiveRequest`: no entry of that id in `recv_msgs`.
  | recvPosted
  -- `ConfirmStop`: an entry of that id in `recv_msgs`.
  | confirmStop
  -- `HandleReceivedData`, `kFlowFinish`: `msg_max_seq.count(msg_id)`.
  | maxSeq
  -- `HandleReceivedData`, `kStopRequest`: the request names the peer.
  | stopCommId
  -- `PriorityChannel::Run`: no entry of that id in `sending_msgs`.
  | sending
  -- `REQUEST_RETRANSMIT`: `num_blocks > 0`.
  | numBlocks
  -- `PollRetransmitRequest`: the request names the peer.
  | retransmitCommId
  -- `PollRetransmitRequest`: the message is in `retransmitting_msgs`.
  | retransmitting
  -- `PollRetransmitRequest`: `block_num < num_blocks`.
  | blockNum
  -- `PollRetransmitRequest`: `block.first <= seq_num < block.last`.
  | blockRange
  -- `BitmapBlockMgr::Check` and `Take`: `seq < size_`.
  | bitmapSeq
  -- `BitmapBlockMgr::Resize`: `size > size_`.
  | bitmapResize
  -- `UdpEndpoint::OnSendReady`: the whole packet is sent, or the socket would block.
  | sendMsg
  -- `FindConnMetaById`: an index past the end of `conn_metas_`.
  | connMetas
  -- `REMOVE_CONNECTION` of a connection that is not in `conn_metas_`.
  | removeConnection
  -- A read past the end of a received buffer.
  | outOfBounds
deriving DecidableEq, Repr

end Mlt
