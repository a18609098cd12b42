/-
UtpGo/RecvBuffer.lean

The receive buffer: `recv_buffer.go`.  Packets that arrive ahead of a gap
wait in `pending` under their sequence numbers; a packet that closes the gap
is copied to the front of `buf`, followed by every pending packet that comes
next.  `consumed` counts the packets copied so far and is never rebased, so
`initSeqNum + consumed` is the last number received in order.
-/
import UtpGo.OrdMap
import UtpGo.Packet

namespace UtpGo

open Circular Checked

structure ReceiveBuffer where
  buf : Bytes
  offset : Nat
  pending : OrdMap Uint16 Bytes
  initSeqNum : Uint16
  consumed : Uint16

/-- `MAX_SELECTIVE_ACK_COUNT`. -/
def maxSelectiveAckCount : Nat := 32 * 63

inductive RecvError where
  | insufficientSpace
  deriving DecidableEq, Repr

def newReceiveBuffer (size : Nat) (initSeqNum : Uint16) : ReceiveBuffer where
  buf := List.replicate size 0
  offset := 0
  pending := .empty
  initSeqNum := initSeqNum
  consumed := 0

namespace ReceiveBuffer

def available (rb : ReceiveBuffer) : Int :=
  rb.pending.entries.foldl (fun available item => available - item.2.length)
    ((rb.buf.length : Int) - rb.offset)

def isEmpty (rb : ReceiveBuffer) : Bool := rb.offset == 0 && rb.pending.size == 0

def wasWritten (rb : ReceiveBuffer) (seqNum : Uint16) : Bool :=
  let present := rb.pending.contains seqNum
  let writtenRange : CircularRangeInclusive :=
    { start := rb.initSeqNum, stop := rb.initSeqNum + rb.consumed }
  present || writtenRange.contains seqNum

/-- `Read` into a buffer of `bufLen` bytes: the bytes copied out, and the
rest moved to the front. -/
def read (rb : ReceiveBuffer) (bufLen : Nat) : GoM (Bytes × ReceiveBuffer) :=
  if bufLen = 0 then pure ([], rb)
  else do
    let n := min bufLen rb.offset
    let out ← slice rb.buf 0 n
    let remaining := rb.offset - n
    let rest ← slice rb.buf n (n + remaining)
    pure (out, { rb with buf := rest ++ rb.buf.drop remaining, offset := remaining })

/-- The loop of `Write`: copy out the pending packets from `next` on.  Every
pass deletes one, so `pending.size` passes reach the number that is not
there. -/
def drain : Nat → Uint16 → ReceiveBuffer → GoM ReceiveBuffer
  | 0, _, rb => pure rb
  | fuel + 1, next, rb =>
      match rb.pending.get? next with
      | none => pure rb
      | some data => do
          let stop := rb.offset + data.length
          let _ ← slice rb.buf rb.offset stop
          drain fuel (next + 1) { rb with
            buf := rb.buf.take rb.offset ++ data ++ rb.buf.drop stop
            offset := stop
            consumed := rb.consumed + 1
            pending := rb.pending.erase next }

def write (rb : ReceiveBuffer) (data : Bytes) (seqNum : Uint16) :
    GoM (ReceiveBuffer × Option RecvError) :=
  if rb.wasWritten seqNum then pure (rb, none)
  else if (data.length : Int) > rb.available then pure (rb, some .insufficientSpace)
  else do
    let pending := rb.pending.insert seqNum data
    let next := rb.initSeqNum + 1 + rb.consumed
    let rb ← drain pending.size next { rb with pending }
    pure (rb, none)

def ackNum (rb : ReceiveBuffer) : Uint16 := rb.initSeqNum + rb.consumed

/-- The loop of `SelectiveAck`, with the pending numbers not yet reported and
the number of flags that may still be added. -/
def selectiveAckLoop : Nat → List Uint16 → Uint16 → List Bool
  | 0, _, _ => []
  | room + 1, pendingSeqs, lastAck =>
      if pendingSeqs.isEmpty then []
      else if lastAck ∈ pendingSeqs then
        true :: selectiveAckLoop room (pendingSeqs.erase lastAck) (lastAck + 1)
      else
        false :: selectiveAckLoop room pendingSeqs (lastAck + 1)

def selectiveAck (rb : ReceiveBuffer) : Option SelectiveAck :=
  if rb.pending.size = 0 then none
  else
    some (newSelectiveAck
      (selectiveAckLoop maxSelectiveAckCount rb.pending.keys (rb.ackNum + 2)))

end ReceiveBuffer

end UtpGo
