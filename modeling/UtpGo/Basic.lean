/-
UtpGo/Basic.lean

The machine types of the source, and its panics.  Every computation of the
model that indexes, slices or calls `panic` lives in `GoM`: it returns, or it
ends in a run-time panic or in one of the panics the source raises itself.
-/
import UtpGo.Checked
import UtpGo.Circular

namespace UtpGo

abbrev Uint16 := BitVec 16
abbrev Uint32 := BitVec 32
abbrev Byte := BitVec 8
abbrev Bytes := List Byte

/-- Points in time, in nanoseconds. -/
abbrev Time := Int

/-- Durations, in nanoseconds.  The configured timeouts are non-negative.  The
source has 64 bits for a duration; they overflow in the back-off of the SYN,
which is computed in them. -/
abbrev Duration := Nat

/-- The errors of the congestion controller. -/
inductive CtrlError where
  | errInsufficientWindowSize
  | errUnknownSeqNum
  | errDuplicateTransmission
  deriving DecidableEq, Repr

/-- The explicit `panic` calls of `sentPackets.OnTransmit`. -/
inductive TransmitPanic where
  | outOfOrder
  | exceedsSendWindow
  | controller (err : CtrlError)
  deriving DecidableEq, Repr

abbrev GoM := Checked.Go TransmitPanic

end UtpGo
