/-
UtpGo/ConnSyn.lean

A SYN that arrives again.  `onPacket` answers a SYN with a STATE packet, but
only if `synState` is not set; an acceptor sets it when its event loop
starts.  So the answer to the SYN is sent once, at the start, and no SYN the
connection receives is ever answered.

Main results: `syn_unanswered`, that no state of an acceptor answers the SYN
it was created from, and `syn_again_silent`, the first such state.
-/
import UtpGo.PairShake

namespace UtpGo

open Checked

/-! ### What a call sends -/

/-- Since the state `c` only packets of the stream were sent. -/
def Midcall.StreamOnly (c : Connection) (m : Midcall) : Prop :=
  ∃ new, m.conn.socketEvents = c.socketEvents ++ new ∧
    ∀ q, .outgoing q ∈ new → q.header.packetType.numbered = true

namespace Midcall.StreamOnly

variable {c : Connection} {m m' : Midcall}

theorem start {w : Bytes} : Midcall.StreamOnly c ⟨c, none, w⟩ :=
  ⟨[], (List.append_nil _).symm, fun _ hq => absurd hq List.not_mem_nil⟩

theorem of_eq (h : m.StreamOnly c) (heq : m'.conn.socketEvents = m.conn.socketEvents) :
    m'.StreamOnly c := by
  obtain ⟨new, hnew, hall⟩ := h
  exact ⟨new, heq.trans hnew, hall⟩

theorem of_emit {p : Packet} (h : m.StreamOnly c)
    (heq : m'.conn.socketEvents = m.conn.socketEvents ++ [.outgoing p])
    (hp : p.header.packetType.numbered = true) : m'.StreamOnly c := by
  obtain ⟨new, hnew, hall⟩ := h
  refine ⟨new ++ [.outgoing p], ?_, ?_⟩
  · rw [heq, hnew, List.append_assoc]
  · intro q hq
    rcases List.mem_append.mp hq with hq | hq
    · exact hall q hq
    · obtain rfl : q = p := by simpa using hq
      exact hp

theorem numbered_of_emits {p : Packet} (h : m.StreamOnly c) (hp : c.Emits m.conn p) :
    p.header.packetType.numbered = true := by
  obtain ⟨new, hnew, hall⟩ := h
  obtain ⟨new', hnew', hmem⟩ := hp
  obtain rfl : new' = new := List.append_cancel_left (hnew'.symm.trans hnew)
  exact hall p hmem

end Midcall.StreamOnly

/-! ### The acceptor has answered -/

/-- An acceptor that has sent the STATE packet for its SYN. -/
structure Midcall.Answered (m : Midcall) : Prop where
  type : m.conn.endpoint.type = .acceptor
  synState : m.conn.synState.isSome = true

theorem Act.answered [Float64] {packet? : Option Packet} {guard : Guard} {m m' : Midcall}
    (h : Act packet? guard m m') (hm : m.Answered) : m'.Answered := by
  obtain ⟨htype, hsyn⟩ := hm
  cases h with
  | sends h => cases h <;> exact ⟨htype, hsyn⟩
  | book h => exact ⟨h.endpointType.trans htype, h.synState hsyn⟩
  | backOff | beginClosing | emitState | emitReset | emitSyn | recvData | recvFin | readOut
  | endOfStream | closedRead | acked | close | establish => exact ⟨htype, hsyn⟩

/-- While an acceptor handles a SYN it sends packets of the stream at most:
those it takes for lost. -/
theorem Act.streamOnly [Float64] {p : Packet} {guard : Guard} {c : Connection} {m m' : Midcall}
    (h : Act (some p) guard m m') (hp : p.header.packetType = .st_syn) (htyped : m.Typed)
    (hans : m.Answered) (hm : m.StreamOnly c) : m'.StreamOnly c := by
  have hset : m.conn.synState ≠ none := Option.isSome_iff_ne_none.mp hans.synState
  cases h with
  | sends h =>
      cases h with
      | enqueue | flush | pickLost | pickExpired | pickFin => exact hm.of_eq rfl
      | send hs hok hcarries =>
          refine hm.of_emit rfl ?_
          rw [hcarries.packetType]
          exact htyped.items _ List.mem_cons_self
  | book h => exact hm.of_eq h.socketEvents
  | emitState hq hwhy =>
      obtain rfl := Option.some.inj hq
      -- the packet is a SYN, and a SYN is answered before `synState` is set only
      rcases hwhy with hnum | ⟨-, hnone⟩
      · rw [hp] at hnum
        cases hnum
      · exact absurd hnone hset
  | emitReset _ _ _ hnone => exact absurd hnone hset
  | emitSyn _ hend =>
      have htype := hans.type
      rw [hend] at htype
      cases htype
  | backOff | beginClosing | recvData | recvFin | readOut | endOfStream | closedRead | acked
  | close | establish => exact hm.of_eq rfl

namespace Connection

/-! ### A SYN is never answered again -/

/-- An acceptor as its event loop starts it. -/
def acceptor (cid : ConnectionId) (config : ConnectionConfig) (syn : Packet) (rnd : Uint16)
    (now t₀ : Time) : Connection :=
  (newConnection cid config (some syn) rnd now).start t₀

theorem answered_acceptor (cid : ConnectionId) (config : ConnectionConfig) (syn : Packet)
    (rnd : Uint16) (now t₀ : Time) (w : Bytes) :
    Midcall.Answered ⟨acceptor cid config syn rnd now t₀, none, w⟩ := ⟨rfl, rfl⟩

variable [Float64]

/-- The packet makes the acceptor send the STATE packet of its handshake. -/
def AnswersSyn (c : Connection) (p : Packet) (now : Time) (rnd : Uint16) : Prop :=
  ∃ c' q, c.onPacket p now rnd = .ok c' ∧ c.Emits c' q ∧ q.header.packetType = .st_state ∧
    q.header.seqNum = c.endpoint.synAck ∧ q.header.ackNum = c.endpoint.synNum

/-- **The answer to a SYN is not repeated**: no state of an acceptor, in any
run, sends the STATE packet of its handshake when a SYN arrives. -/
theorem syn_unanswered (cid : ConnectionId) (config : ConnectionConfig) (syn : Packet)
    (rnd : Uint16) (now t₀ : Time) (events : List Event) (c : Connection) (p : Packet) (t : Time)
    (r : Uint16) (hrun : (acceptor cid config syn rnd now t₀).run events = .ok c)
    (hp : p.header.packetType = .st_syn) : ¬ c.AnswersSyn p t r := by
  obtain ⟨w, hsound, hans, htyped⟩ := run_inv (I := fun m => m.Answered ∧ m.Typed)
    (fun _ _ _ hact hs hm => ⟨hact.answered hm.1, hact.typed hs hm.2⟩)
    (fun _ _ _ _ hm => ⟨⟨hm.1.type, hm.1.synState⟩, hm.2.rest⟩) (along_unguarded _ events)
    (sound_start cid config (some syn) rnd now t₀ [])
    ⟨answered_acceptor cid config syn rnd now t₀ [],
      typed_start cid config (some syn) rnd now t₀ []⟩ hrun
  rintro ⟨c', q, hok, hemits, hstate, -, -⟩
  change c.step (.onPacket p t r) = .ok c' at hok
  have hact : ∀ m m', Act (Event.onPacket p t r).packet? unguarded m m' → m.Sound →
      m.Answered ∧ m.Typed ∧ m.StreamOnly c → m'.Answered ∧ m'.Typed ∧ m'.StreamOnly c :=
    fun _ _ hact hs hm => ⟨hact.answered hm.1, hact.typed hs hm.2.1,
      Act.streamOnly hact hp hm.2.1 hm.1 hm.2.2⟩
  obtain ⟨hand, -, -, -, -, honly⟩ := step_inv hact (guarded_unguarded c (.onPacket p t r))
    hsound ⟨hans, htyped, .start⟩ hok
  -- what was sent is of the stream, so it is not a STATE packet
  have hnum := honly.numbered_of_emits hemits
  rw [hstate] at hnum
  cases hnum

omit [Float64] in
/-- The acceptor has just started, its STATE packet was lost, and the SYN
arrives again. -/
theorem syn_unanswered_start : sampleAcceptor.endpoint.synNum = 100 ∧
    ¬ @AnswersSyn exactFloat64 sampleAcceptor (newPacketBuilder .st_syn 1 0 1000 100).build 0 0 :=
  ⟨rfl, @syn_unanswered exactFloat64 _ _ _ _ _ _ [] sampleAcceptor _ 0 0 rfl rfl⟩

omit [Float64] in
/-- In that state the connection is connected, and handles the SYN without
sending anything. -/
theorem syn_again_silent : ∃ e c', sampleAcceptor.state = .connected e ∧
    @onPacket exactFloat64 sampleAcceptor (newPacketBuilder .st_syn 1 0 1000 100).build 0 0
      = .ok c' ∧
    sampleAcceptor.endpoint.synNum = 100 ∧ c'.socketEvents = sampleAcceptor.socketEvents :=
  ⟨_, _, rfl, rfl, rfl, rfl⟩

end Connection

end UtpGo
