/-
UtpGo/ConnQuiet.lean

The actions that do not concern the sending side.  All of them leave the
records, the send buffer, the pending writes and what is in hand as they
are (`Quiet`), and what they send carries no number of the stream and is
ready for the wire.  An invariant of the sending side therefore has to be
checked for quiet actions once, for the sending actions, and for the end of
the handshake: `Act.quiet`.
-/
import UtpGo.ConnSteps
import UtpGo.PacketCodec
import UtpGo.RecvBufferAck

namespace UtpGo

/-! ### Packets without a number of their own -/

/-- A packet outside the stream; a SYN is the one of the handshake. -/
structure Unnumbered (c : Connection) (p : Packet) : Prop where
  numbered : p.header.packetType.numbered = false
  wireReady : p.WireReady
  syn : p.header.packetType = .st_syn →
    c.endpoint.type = .initiator ∧ p.header.seqNum = c.endpoint.synNum ∧ p.body = []

namespace Connection

variable {c : Connection} {p : Packet} {now : Time}

/-- What the builder builds is ready for the wire. -/
theorem wireReady_build {b : PacketBuilder}
    (hwords : ∀ s, b.selectiveAck = some s → s.words ≠ [] ∧ s.words.length ≤ 63)
    (hbody : b.packetType = .st_data → b.payload ≠ []) : b.build.WireReady :=
  ⟨show (1 : Byte) < 16 by decide, rfl, hwords, hbody⟩

theorem unnumbered_statePacket (h : c.statePacket now = some p) : Unnumbered c p := by
  rcases statePacket_inv h with ⟨-, -, rfl⟩ | ⟨e, -, rfl⟩
  · exact ⟨rfl, wireReady_build nofun nofun, nofun⟩
  · refine ⟨rfl, wireReady_build ?_ nofun, nofun⟩
    intro s hs
    have hack : e.recvBuf.selectiveAck = some s := hs
    exact (ReceiveBuffer.selectiveAck_spec hack).1

theorem unnumbered_synPacket (hend : c.endpoint.type = .initiator) :
    Unnumbered c (c.synPacket c.endpoint.synNum now) :=
  ⟨rfl, wireReady_build nofun nofun, fun _ => ⟨hend, rfl, rfl⟩⟩

theorem unnumbered_reset (connectionId rnd : Uint16) (tsMicros : Uint32) : Unnumbered c
    (newPacketBuilder .st_reset connectionId tsMicros 100000 rnd).build :=
  ⟨rfl, wireReady_build nofun nofun, nofun⟩

end Connection

/-! ### Quiet actions -/

/-- The sending side is the same.  The controller changes only while nothing
fresh is in hand, and the receive buffer only while nothing is. -/
structure SameSender (hand : Option (List Item)) (e e' : Established) : Prop where
  sendBuf : e'.sendBuf = e.sendBuf
  localFin : e'.localFin = e.localFin
  init : e'.sentPackets.initSeqNum = e.sentPackets.initSeqNum
  chunks : e'.sentPackets.chunks = e.sentPackets.chunks
  counts : e.sentPackets.congestionCtrl.SameCounts e'.sentPackets.congestionCtrl
  sentPackets : e'.sentPackets = e.sentPackets ∨ hand = none ∨ ∃ p, hand = some [expiredItem p]
  recvBuf : e'.recvBuf = e.recvBuf ∨ hand.getD [] = []

theorem SameSender.refl (hand : Option (List Item)) (e : Established) : SameSender hand e e :=
  ⟨rfl, rfl, rfl, rfl, .refl _, .inl rfl, .inl rfl⟩

theorem SameSender.length {hand : Option (List Item)} {e e' : Established}
    (h : SameSender hand e e') : e'.sentPackets.packets.length = e.sentPackets.packets.length := by
  rw [← SentPackets.length_chunks, h.chunks, SentPackets.length_chunks]

structure Quiet (m m' : Midcall) : Prop where
  established : Option.Rel (SameSender m.hand) m.conn.established m'.conn.established
  hand : m'.hand = m.hand
  accepted : m'.accepted = m.accepted
  pendingWrites : m'.conn.pendingWrites = m.conn.pendingWrites
  endpointType : m'.conn.endpoint.type = m.conn.endpoint.type
  synNum : m'.conn.endpoint.synNum = m.conn.endpoint.synNum
  timed : ∀ p, m'.conn.Timed p → m.conn.Timed p
  sent : ∀ p, m'.conn.Sent p → m.conn.Sent p ∨ Unnumbered m.conn p

namespace Quiet

variable {c c' : Connection} {e : Established} {hand : Option (List Item)} {w : Bytes}

theorem rel_of_eq (h : c'.established = c.established) :
    Option.Rel (SameSender hand) c.established c'.established := by
  rw [h]
  rcases c.established with - | e
  · exact .none
  · exact .some (.refl _ _)

theorem rel_of_state {e' : Established} (hs : c.state = .connected e)
    (hs' : c'.state = .connected e') (he : SameSender hand e e') :
    Option.Rel (SameSender hand) c.established c'.established := by
  rw [established_connected hs, established_connected hs']
  exact .some he

/-- A new state of a connected connection. -/
theorem of_state {e' : Established} (hs : c.state = .connected e)
    (he : SameSender hand e e') :
    Quiet ⟨c, hand, w⟩ ⟨{ c with state := .connected e' }, hand, w⟩ :=
  ⟨rel_of_state hs rfl he, rfl, rfl, rfl, rfl, rfl, fun _ h => h, fun _ h => .inl h⟩

theorem of_emit {p : Packet} (hp : Unnumbered c p) :
    Quiet ⟨c, hand, w⟩ ⟨c.emit p, hand, w⟩ := by
  refine ⟨rel_of_eq rfl, rfl, rfl, rfl, rfl, rfl, fun _ h => h, ?_⟩
  intro q hq
  rcases Connection.sent_emit.mp hq with rfl | hq
  · exact .inr hp
  · exact .inl hq

theorem of_book (h : SameCore c c') : Quiet ⟨c, hand, w⟩ ⟨c', hand, w⟩ where
  established := rel_of_eq (congrArg ConnState.established h.state)
  hand := rfl
  accepted := rfl
  pendingWrites := h.pendingWrites
  endpointType := h.endpointType
  synNum := h.synNum
  timed := h.timed
  sent := by
    intro p hp
    refine .inl ?_
    show _ ∈ c.socketEvents
    rw [← h.socketEvents]
    exact hp

end Quiet

/-- The two ways to look at the buffers through a quiet action. -/
theorem Quiet.before {m m' : Midcall} (h : Quiet m m') {e' : Established}
    (he : m'.conn.established = some e') :
    ∃ e, m.conn.established = some e ∧ SameSender m.hand e e' := by
  have hrel := h.established
  rw [he] at hrel
  generalize m.conn.established = x at hrel
  cases hrel with
  | some hs => exact ⟨_, rfl, hs⟩

theorem Quiet.after {m m' : Midcall} (h : Quiet m m') {e : Established}
    (he : m.conn.established = some e) :
    ∃ e', m'.conn.established = some e' ∧ SameSender m.hand e e' := by
  have hrel := h.established
  rw [he] at hrel
  generalize m'.conn.established = x at hrel
  cases hrel with
  | some hs => exact ⟨_, rfl, hs⟩

/-- The end of the handshake, with which the sending side begins. -/
structure Opens (m m' : Midcall) : Prop where
  before : m.conn.state = .connecting
  type : m.conn.endpoint.type = .initiator
  after : ∃ recvInit, m'.conn = { m.conn with
    state := .connected (Connection.establish m.conn.config recvInit m.conn.endpoint.synNum) }
  hand : m.hand = none
  hand' : m'.hand = none
  accepted : m'.accepted = m.accepted

variable [Float64] {packet? : Option Packet} {guard : Guard} {m m' : Midcall}

theorem Act.quiet (h : Act packet? guard m m') (hm : m.Sound) :
    Quiet m m' ∨ SendAct guard m m' ∨ Opens m m' := by
  cases h with
  | sends h => exact .inr (.inl h)
  | establish _ _ hs hend _ => exact .inr (.inr ⟨hs, hend, ⟨_, rfl⟩, rfl, rfl, rfl⟩)
  | book h => exact .inl (.of_book h)
  | backOff hs =>
      refine .inl (.of_state hs ⟨rfl, rfl, rfl, rfl, ?_, .inr (.inr ⟨_, rfl⟩), .inl rfl⟩)
      exact DefaultController.onTimeout_sameCounts _
  | beginClosing hs hc =>
      refine .inl (.of_state hs ⟨rfl, ?_, rfl, rfl, .refl _, .inl rfl, .inl rfl⟩)
      rw [Established.localFin, Established.localFin, hc]
      rfl
  | emitState _ _ hp => exact .inl (.of_emit (Connection.unnumbered_statePacket hp))
  | emitReset rnd => exact .inl (.of_emit (Connection.unnumbered_reset _ rnd _))
  | emitSyn _ hend => exact .inl (.of_emit (Connection.unnumbered_synPacket hend))
  | recvData _ _ hs =>
      exact .inl (.of_state hs ⟨rfl, rfl, rfl, rfl, .refl _, .inl rfl, .inr rfl⟩)
  | recvFin _ _ hs =>
      exact .inl (.of_state hs ⟨rfl, rfl, rfl, rfl, .refl _, .inl rfl, .inr rfl⟩)
  | readOut hhand hs =>
      refine .inl ⟨Quiet.rel_of_state hs rfl ?_, rfl, rfl, rfl, rfl, rfl, fun _ h => h,
        fun _ h => .inl h⟩
      exact ⟨rfl, rfl, rfl, rfl, .refl _, .inl rfl, .inr hhand⟩
  | endOfStream | closedRead =>
      exact .inl ⟨Quiet.rel_of_eq rfl, rfl, rfl, rfl, rfl, rfl, fun _ h => h, fun _ h => .inl h⟩
  | acked _ _ hs hok =>
      have hacks := (SentPackets.acks_of_ok (hm _ (established_connected hs)).sentPackets hok).1
      exact .inl (.of_state hs ⟨rfl, rfl, hacks.init, hacks.chunks, hacks.counts,
        .inr (.inl rfl), .inl rfl⟩)
  | close _ h =>
      exact .inl ⟨Quiet.rel_of_eq h.established, rfl, rfl, rfl, rfl, rfl, fun _ h => h,
        fun _ h => .inl h⟩

/-! ### The start -/

omit [Float64] in
/-- At the start only the SYN of an initiator is timed. -/
theorem timed_start {cid : ConnectionId} {config : ConnectionConfig} {syn : Option Packet}
    {rnd : Uint16} {now t₀ : Time} {p : Packet}
    (h : ((newConnection cid config syn rnd now).start t₀).Timed p) :
    p.header.packetType = .st_syn ∧ p.header.version = 1 ∧ p.body = [] := by
  cases syn with
  | none =>
      rcases h with hp | ⟨k, hp⟩
      · cases hp
      · rcases TimeWheel.Holds.of_put hp with heq | hp
        · cases heq
          exact ⟨rfl, rfl, rfl⟩
        · exact absurd hp TimeWheel.not_holds_new
  | some syn =>
      rcases h with hp | ⟨k, hp⟩
      · cases hp
      · exact absurd hp TimeWheel.not_holds_new

omit [Float64] in
theorem sound_start (cid : ConnectionId) (config : ConnectionConfig) (syn : Option Packet)
    (rnd : Uint16) (now t₀ : Time) (w : Bytes) :
    Midcall.Sound ⟨(newConnection cid config syn rnd now).start t₀, none, w⟩ := by
  intro e he
  cases syn with
  | none => cases he
  | some syn =>
      cases he
      exact ⟨ReceiveBuffer.wf_new _ _, SendBuffer.wf_new _, SentPackets.wf_new _ _⟩

/-- An acceptor with small buffers for concrete runs: its first packet has
number 5, the peer's first packet has number 101. -/
def sampleAcceptor : Connection :=
  (newConnection ⟨2, 1⟩ { newConnectionConfig with bufferSize := 16 }
    (some (newPacketBuilder .st_syn 1 0 1000 100).build) 5 0).start 0

end UtpGo
