/-
UtpGo/Pair.lean

Two connections over a network that drops, duplicates, reorders and delays.
An initiator and the acceptor created from its SYN take any of their events
in any order; a packet that arrives has the value of one the other end has
sent, that is its type, numbers, selective acknowledgement and body.  The
acceptor is there from the beginning: until it handles an event it does
nothing but offer the STATE packet of its start.

Main results, for every state reached in which each end has sent fewer than
65534 packets for the first time: `pair_delivers`, what is read is a prefix
of what was written, and all of it at the end of the stream; `pair_acks`,
what counts as acknowledged was accepted; `pair_errors`, neither end closes
with a protocol error.  And for every state: `pair_agrees`, both ends count
from the numbers of the handshake.
-/
import UtpGo.ConnStream
import UtpGo.LossyPair
import UtpGo.PairEnd

namespace UtpGo

open Circular Reassembly Relation

/-! ### The system -/

/-- The values of two packets are the same. -/
structure Packet.SameValue (p q : Packet) : Prop where
  packetType : p.header.packetType = q.header.packetType
  seqNum : p.header.seqNum = q.header.seqNum
  ackNum : p.header.ackNum = q.header.ackNum
  eack : p.eack = q.eack
  body : p.body = q.body

/-- A connection and the bytes of the writes it has not rejected. -/
structure Peer where
  conn : Connection
  written : Bytes

/-- An end handles an event. -/
def Peer.party [Float64] : LossyPair.Party Peer Packet where
  sent a p := ∃ q, a.conn.Sent q ∧ p.SameValue q
  step a packet? a' := ∃ ev : Connection.Event, ev.packet? = packet? ∧
    a.conn.step ev = .ok a'.conn ∧ a'.written = a.written ++ ev.accepts a.conn

/-- How a pair begins: the acceptor is created from the initiator's SYN. -/
structure Setup where
  cid : ConnectionId
  config : ConnectionConfig
  synNum : Uint16
  now : Time
  t₀ : Time
  cid' : ConnectionId
  config' : ConnectionConfig
  synAck : Uint16
  now' : Time
  t₀' : Time
  syn : Packet
  syn_sent : ∃ q, ((newConnection cid config none synNum now).start t₀).Sent q ∧ syn.SameValue q

namespace Setup

def initiator (p : Setup) : Peer :=
  ⟨(newConnection p.cid p.config none p.synNum p.now).start p.t₀, []⟩

def acceptor (p : Setup) : Peer :=
  ⟨(newConnection p.cid' p.config' (some p.syn) p.synAck p.now').start p.t₀', []⟩

def start (p : Setup) : Peer × Peer := (p.initiator, p.acceptor)

/-- A state of the pair that can be reached, the initiator first. -/
def Reaches [Float64] (p : Setup) (s : Peer × Peer) : Prop :=
  ReflTransGen (LossyPair.Step Peer.party) p.start s

def handshake (p : Setup) : Handshake := ⟨p.synNum, p.synAck⟩

end Setup

/-- The packets sent for the first time. -/
def Connection.transmitted (c : Connection) : Nat :=
  c.established.elim 0 (·.sentPackets.packets.length)

theorem Connection.length_view (c : Connection) : c.view.chunks.length = c.transmitted := by
  unfold view transmitted
  rcases c.established with - | e
  · rfl
  · exact e.sentPackets.length_chunks

/-! ### The contract of an end -/

/-- An end `t` whose peer has the view `v`.  Beyond the handshake it is
lawful while neither end has sent too many packets. -/
structure Peer.Lawful (h : Handshake) (t : EndpointType) (config : ConnectionConfig) (a : Peer)
    (v : View) : Prop where
  config : a.conn.config = config
  sound : Midcall.Sound ⟨a.conn, none, a.written⟩
  typed : Midcall.Typed ⟨a.conn, none, a.written⟩
  shaken : Midcall.Shaken h t v ⟨a.conn, none, a.written⟩
  few : a.conn.view.chunks.length < 65534 → v.chunks.length < 65534 →
    Midcall.Recorded ⟨a.conn, none, a.written⟩ ∧ Midcall.Streamed ⟨a.conn, none, a.written⟩ ∧
      Midcall.Honest h t v ⟨a.conn, none, a.written⟩

section Contract

variable {h : Handshake} {t : EndpointType} {config config' : ConnectionConfig} {a b : Peer}
  {v v' : View} {p q : Packet}

theorem Peer.Lawful.mono (ha : a.Lawful h t config v) (hv : v ≤ v') :
    a.Lawful h t config v' where
  config := ha.config
  sound := ha.sound
  typed := ha.typed
  shaken := ha.shaken.mono hv
  few := by
    intro hown hpeer
    obtain ⟨hrec, hstr, hhon⟩ := ha.few hown (hv.1.length_le.trans_lt hpeer)
    exact ⟨hrec, hstr, hhon.mono hv⟩

theorem OfHandshake.of_sameValue {u : View} (hq : OfHandshake h t u v q) (hpq : p.SameValue q) :
    OfHandshake h t u v p where
  noReset := by
    rw [hpq.packetType]
    exact hq.noReset
  syn := by
    rw [hpq.packetType, hpq.seqNum]
    exact hq.syn
  stream := by
    rw [hpq.packetType]
    exact hq.stream
  state := by
    rw [hpq.packetType, hpq.seqNum]
    exact hq.state

theorem Acking.of_sameValue {u : View} (hq : Acking h t u q) (hpq : p.SameValue q) :
    Acking h t u p where
  cumulative := by
    rw [hpq.packetType, hpq.ackNum]
    exact hq.cumulative
  selective := by
    rw [hpq.packetType, hpq.ackNum, hpq.eack]
    exact hq.selective

/-- The records of an end are proper. -/
theorem Midcall.Recorded.view_proper {c : Connection} {w : Bytes}
    (hrec : Midcall.Recorded ⟨c, none, w⟩) (hlen : c.view.chunks.length < 65534) :
    c.view.Proper := by
  refine ⟨hlen, ?_⟩
  intro i packetType data hi
  rcases he : c.established with - | e
  · rw [Connection.view, he] at hi
    cases hi
  · rw [Connection.view_established he] at hi ⊢
    rcases (hrec.ledger e he).shape i packetType data hi with hdata | ⟨ht, hd, hlast, -⟩
    · exact .inl hdata
    · exact .inr ⟨ht, hd, hlast⟩

/-- A number held by the receive buffer is one of the peer's. -/
theorem Received.holds_lt {out : Bytes} {e : Established} {x : Uint16}
    (hr : Received h t v out e) (hn : Numbered h t e) (hwf : e.recvBuf.WF)
    (hx : e.recvBuf.Holds x) : ahead (h.first t.other) x < v.chunks.length := by
  have hsome : ∀ k, (v.chunk k).isSome → k < v.chunks.length := by
    intro k hk
    by_contra hge
    rw [View.chunk, List.getElem?_eq_none (not_lt.mp hge)] at hk
    cases hk
  refine hsome _ ?_
  rcases hx with hcons | hpend
  · exact hr.content.known _ ((ahead_first_lt hn.recv e.recvBuf.consumed.isLt).mpr hcons)
  · obtain ⟨data, hmem⟩ := OrdMap.contains_iff.mp hpend
    have hlater := hwf.later _ hmem
    have hidx : ahead (h.first t.other) x = ahead e.recvBuf.initSeqNum x - 1 := by
      have hpos : 1 ≤ ahead e.recvBuf.initSeqNum x := by
        dsimp only at hlater
        omega
      rw [← hn.recv]
      unfold ahead at hpos ⊢
      bv_omega
    have hchunk := hr.content.pend _ hmem
    rw [hidx, hchunk]
    rfl

/-- What an end offers is genuine. -/
theorem Peer.Lawful.genuine {u : View} (hb : b.Lawful h t config u)
    (hrec : Midcall.Recorded ⟨b.conn, none, b.written⟩)
    (hhon : Midcall.Honest h t u ⟨b.conn, none, b.written⟩) (hq : b.conn.Sent q)
    (hpq : p.SameValue q) : Genuine h t b.conn.view u p where
  toOfHandshake := (hb.shaken.sent q hq).of_sameValue hpq
  toAcking := (hhon.sent q hq).of_sameValue hpq
  recorded := by
    intro ht
    rw [hpq.packetType] at ht
    obtain ⟨e, he, hr⟩ := hrec.sent q hq ht
    rw [hpq.packetType, hpq.seqNum, hpq.body, Connection.view_established he,
      ← SentPackets.seqNumIndex_eq_ahead (hb.shaken.numbers e he).sent]
    exact hr

/-- What an end takes from a lawful peer. -/
theorem Peer.Lawful.supplied [Float64] (hb : b.Lawful h t.other config a.conn.view)
    (hlen : b.conn.view.chunks.length < 65534) (hlen' : a.conn.view.chunks.length < 65534)
    {packet? : Option Packet} (hsent : ∀ p, packet? = some p → Peer.party.sent b p) :
    Supplied h t a.conn.view b.conn.view packet? := by
  obtain ⟨hrec, -, hhon⟩ := hb.few hlen hlen'
  refine ⟨hrec.view_proper hlen, ?_, ?_⟩
  · intro x hx
    rcases he : b.conn.established with - | e
    · rw [Connection.view, he] at hx
      cases hx
    · rw [Connection.view_established he] at hx
      have hlt := (hhon.received e he).holds_lt (hb.shaken.numbers e he) (hb.sound e he).recvBuf hx
      rwa [EndpointType.other_other] at hlt
  · intro p hp
    obtain ⟨q, hq, hpq⟩ := hsent p hp
    exact hb.genuine hrec hhon hq hpq

/-- **The contract of an end**: its events keep it lawful. -/
theorem lawful_keeps [Float64] (h : Handshake) (t : EndpointType)
    (config config' : ConnectionConfig) :
    LossyPair.Keeps Peer.party (fun a => a.conn.view) (Peer.Lawful h t config)
      (Peer.Lawful h t.other config') where
  stable := fun hv ha => ha.mono hv
  step := by
    rintro a b ⟨c', w'⟩ packet? ha hb hsent ⟨ev, rfl, hok, rfl⟩
    have hgen : ∀ p, ev.packet? = some p → OfHandshake h t.other b.conn.view a.conn.view p := by
      intro p hp
      obtain ⟨q, hq, hpq⟩ := hsent p hp
      exact (hb.shaken.sent q hq).of_sameValue hpq
    -- one invariant for the whole event; the peer does not move meanwhile
    let I : Midcall → Prop := fun m => a.conn.view ≤ m.conn.view ∧ m.conn.config = config ∧
      m.Typed ∧ m.Shaken h t b.conn.view ∧
      (m.conn.view.chunks.length < 65534 → b.conn.view.chunks.length < 65534 →
        m.Recorded ∧ m.Streamed ∧ m.Honest h t b.conn.view)
    have hact : ∀ m m', Act ev.packet? Connection.unguarded m m' → m.Sound → I m → I m' := by
      rintro m m' hact hsound ⟨hle, hconfig, htyped, hshaken, hfew⟩
      have hview := hact.view_le hsound
      refine ⟨hle.trans hview, hact.config.trans hconfig, hact.typed hsound htyped,
        hact.shaken hgen hle hsound htyped hshaken, fun hlen hlen' => ?_⟩
      have hbefore := hview.1.length_le.trans_lt hlen
      obtain ⟨hrec, hstr, hhon⟩ := hfew hbefore hlen'
      have hsmall : m'.conn.Small := by
        intro e he
        rw [Connection.view_established he, Established.view, SentPackets.length_chunks] at hlen
        omega
      have hsup := hb.supplied hlen' (hle.1.length_le.trans_lt hbefore) hsent
      exact ⟨hact.recorded hsound (fun _ => hrec) hsmall, hact.streamed hsound hsmall hrec hstr,
        hact.honest hsup hle hsound hshaken hhon⟩
    obtain ⟨hand, hhand, hsound, hle, hconfig, htyped, hshaken, hfew⟩ := Connection.step_inv hact
      (Connection.guarded_unguarded _ _) ha.sound
      ⟨le_rfl, ha.config, ha.typed, ha.shaken, ha.few⟩ hok
    refine ⟨⟨hconfig, hsound, htyped.rest, { hshaken with }, fun hlen hlen' => ?_⟩, hle⟩
    obtain ⟨hrec, hstr, hhon⟩ := hfew hlen hlen'
    exact ⟨hrec.rest hhand, hstr.rest hhand, { hhon with }⟩

/-! ### The start -/

theorem lawful_initiator (p : Setup) (v : View) :
    p.initiator.Lawful p.handshake .initiator p.config v where
  config := rfl
  sound := sound_start _ _ _ _ _ _ _
  typed := typed_start p.cid p.config none p.synNum p.now p.t₀ []
  shaken := by
    refine ⟨rfl, rfl, nofun, nofun, nofun, fun q hq => ?_⟩
    rcases List.mem_singleton.mp hq with ⟨⟩
    exact ⟨nofun, fun _ => ⟨rfl, rfl⟩, nofun, nofun⟩
  few := by
    intro _ _
    refine ⟨recorded_start p.cid p.config none p.synNum p.now p.t₀ [],
      streamed_start p.cid p.config none p.synNum p.now p.t₀, ?_⟩
    refine ⟨nofun, fun _ => rfl, fun _ ⟨r, hr, _⟩ => absurd hr List.not_mem_nil, nofun, ?_⟩
    intro q hq
    rcases List.mem_singleton.mp hq with ⟨⟩
    exact ⟨nofun, nofun⟩

theorem Setup.syn_seqNum (p : Setup) : p.syn.header.seqNum = p.synNum := by
  obtain ⟨q, hq, hsyn⟩ := p.syn_sent
  rcases List.mem_singleton.mp hq with ⟨⟩
  exact hsyn.seqNum

theorem lawful_acceptor (p : Setup) (v : View) :
    p.acceptor.Lawful p.handshake .acceptor p.config' v where
  config := rfl
  sound := sound_start _ _ _ _ _ _ _
  typed := typed_start p.cid' p.config' (some p.syn) p.synAck p.now' p.t₀' []
  shaken := by
    refine ⟨rfl, p.syn_seqNum, fun _ => rfl, fun _ => ⟨nofun, rfl⟩, ?_, fun q hq => ?_⟩
    · rintro e ⟨⟩
      refine ⟨?_, congrArg (· + 1) p.syn_seqNum⟩
      show p.synAck - 1 + 1 = p.synAck
      ring
    · rcases List.mem_singleton.mp hq with ⟨⟩
      exact ⟨nofun, nofun, nofun, fun _ _ => .inl rfl⟩
  few := by
    intro _ _
    refine ⟨recorded_start p.cid' p.config' (some p.syn) p.synAck p.now' p.t₀' [],
      streamed_start p.cid' p.config' (some p.syn) p.synAck p.now' p.t₀', ?_⟩
    refine ⟨?_, nofun, fun _ ⟨r, hr, _⟩ => absurd hr List.not_mem_nil, nofun, ?_⟩
    · rintro e ⟨⟩
      exact received_establish rfl
    · intro q hq
      rcases List.mem_singleton.mp hq with ⟨⟩
      refine ⟨fun _ x hx => ?_, nofun⟩
      -- the STATE packet of the start acknowledges the SYN only
      have hack : ahead (p.handshake.first .initiator) (p.syn.header.seqNum + 1) = 0 := by
        rw [p.syn_seqNum]
        exact ahead_self _
      change _ < ahead (p.handshake.first .initiator) (p.syn.header.seqNum + 1) at hx
      rw [hack] at hx
      cases hx

/-- Both ends are lawful in every state reached. -/
theorem Setup.Reaches.lawful [Float64] {p : Setup} {s : Peer × Peer} (hs : p.Reaches s) :
    s.1.Lawful p.handshake .initiator p.config s.2.conn.view ∧
      s.2.Lawful p.handshake .acceptor p.config' s.1.conn.view := by
  have hstart : p.start.1.Lawful p.handshake .initiator p.config p.start.2.conn.view ∧
      p.start.2.Lawful p.handshake .acceptor p.config' p.start.1.conn.view :=
    ⟨lawful_initiator p _, lawful_acceptor p _⟩
  exact LossyPair.reach_keeps (lawful_keeps p.handshake .initiator _ _)
    (lawful_keeps p.handshake .acceptor _ _) hstart hs

/-! ### Delivery -/

/-- The peer's stream is what was recorded of it. -/
theorem inOrder_view {n : Nat} (hn : n ≤ v.chunks.length) :
    inOrder v.chunk n = (v.chunks.take n).flatMap (·.2) := by
  have hchunk : v.chunk = fun k => (v.chunks.map (·.2))[k]? := by
    funext k
    rw [View.chunk, List.getElem?_map]
  rw [hchunk, inOrder_getElem? _ (by simpa using hn), ← List.map_take, List.flatMap_def]

/-- The reader has a prefix of the packets numbered. -/
theorem Midcall.Honest.readStream_prefix {c : Connection} {w : Bytes}
    (hm : Midcall.Honest h t v ⟨c, none, w⟩) : c.readStream <+: v.chunks.flatMap (·.2) := by
  rcases he : c.established with - | e
  · rw [show c.readStream = [] from hm.unread he]
    exact List.nil_prefix
  · have hcontent := (hm.received e he).content
    have hle : e.recvBuf.consumed.toNat ≤ v.chunks.length := by
      by_contra hlt
      have hsome := hcontent.known v.chunks.length (not_le.mp hlt)
      rw [View.chunk, List.getElem?_eq_none le_rfl] at hsome
      cases hsome
    have hread : c.readStream <+: inOrder v.chunk e.recvBuf.consumed.toNat :=
      ⟨_, hcontent.stream⟩
    rw [inOrder_view hle] at hread
    refine hread.trans ?_
    conv_rhs => rw [← List.take_append_drop e.recvBuf.consumed.toNat v.chunks,
      List.flatMap_append]
    exact List.prefix_append _ _

/-- What the numbered packets of an end say of its writes. -/
theorem Peer.Lawful.view_prefix {u : View} (hb : b.Lawful h t config u)
    (hlen : b.conn.view.chunks.length < 65534) (hlen' : u.chunks.length < 65534) :
    b.conn.view.chunks.flatMap (·.2) <+: b.written ∧
      ∀ k : Nat, b.conn.view.chunks[k]? = some (PacketType.st_fin, []) →
        b.conn.view.chunks.flatMap (·.2) = b.written := by
  obtain ⟨hrec, hstr, -⟩ := hb.few hlen hlen'
  rcases he : b.conn.established with - | e
  · rw [Connection.view, he]
    refine ⟨List.nil_prefix, fun k hk => ?_⟩
    cases hk
  · rw [Connection.view_established he]
    refine ⟨hstr.prefix_accepted he, fun k hk => ?_⟩
    rcases (hrec.ledger e he).shape k _ _ hk with ⟨hne, -⟩ | ⟨-, -, -, hfin⟩
    · cases hne
    · exact hstr.complete hrec he hfin

/-- What the end `a` reads of what the end `b` has written. -/
structure Delivered (b a : Peer) : Prop where
  inOrder : a.conn.readStream <+: b.written
  complete : (∃ r ∈ a.conn.reads, r.err = some .eof) → a.conn.readStream = b.written

theorem Peer.Lawful.delivered (ha : a.Lawful h t config b.conn.view)
    (hb : b.Lawful h t.other config' a.conn.view) (hla : a.conn.view.chunks.length < 65534)
    (hlb : b.conn.view.chunks.length < 65534) (hsize : config.maxPacketSize ≠ 0) :
    Delivered b a := by
  obtain ⟨-, -, hhon⟩ := ha.few hla hlb
  obtain ⟨hpre, hall⟩ := hb.view_prefix hlb hla
  refine ⟨hhon.readStream_prefix.trans hpre, fun heof => ?_⟩
  rw [← ha.config] at hsize
  obtain ⟨k, hk, -, hread⟩ := hhon.eof hsize heof
  have hlast := ((hb.few hlb hla).1.view_proper hlb).fin_last hk
  rw [inOrder_view hlast.2.le, hlast.2, List.take_length, hall k hk] at hread
  exact List.IsPrefix.eq_of_length_le (hhon.readStream_prefix.trans hpre) hread.length_le

/-! ### Acknowledgements -/

/-- What the end `a` counts as acknowledged, the end `b` has accepted; when
the FIN is the last packet acknowledged, that is everything. -/
structure Acknowledged (a b : Peer) : Prop where
  accepted : ∀ e, a.conn.established = some e → ∀ r ∈ e.sentPackets.packets, r.acks ≠ [] →
    ∃ e', b.conn.established = some e' ∧ e'.recvBuf.Holds r.seqNum
  closed : ∀ e f, a.conn.established = some e → e.localFin = some f →
    e.sentPackets.lastAckNum = some f → ∃ e', b.conn.established = some e' ∧
      e'.recvBuf.Holds f ∧ ∀ r ∈ e.sentPackets.packets, e'.recvBuf.Holds r.seqNum

theorem View.mem_accepted {x : Uint16} (hx : x ∈ b.conn.view.accepted) :
    ∃ e, b.conn.established = some e ∧ e.recvBuf.Holds x := by
  rcases he : b.conn.established with - | e
  · rw [Connection.view, he] at hx
    cases hx
  · rw [Connection.view_established he] at hx
    exact ⟨e, rfl, hx⟩

/-- A FIN that is the last packet acknowledged has every packet before it. -/
theorem Ledger.all_acked {pendingWrites : List QueuedWrite} {e : Established} {f : Uint16}
    (hl : Ledger pendingWrites [] e) (hwf : e.sentPackets.WF) (hf : e.localFin = some f)
    (hlast : e.sentPackets.lastAckNum = some f) {i : Nat}
    (hi : i < e.sentPackets.packets.length) : e.sentPackets.Acked i := by
  have hrec := hl.fin_recorded hf
  have hidx : e.sentPackets.seqNumIndex f + 1 = e.sentPackets.packets.length := by
    rcases hl.shape _ _ _ hrec with ⟨hne, -⟩ | ⟨-, -, hlen, -⟩
    · cases hne
    · rwa [SentPackets.length_chunks] at hlen
  rw [SentPackets.lastAckNum_eq hwf] at hlast
  split at hlast
  · cases hlast
  rename_i hfront
  obtain rfl := Option.some.inj hlast
  have hle := e.sentPackets.front_le
  have hlen := hwf.length_le
  have hnum : e.sentPackets.initSeqNum + BitVec.ofNat 16 e.sentPackets.front
      = e.sentPackets.initSeqNum + 1 + BitVec.ofNat 16 (e.sentPackets.front - 1) := by
    bv_omega
  rw [hnum, SentPackets.seqNumIndex_number _ (by omega)] at hidx
  exact SentPackets.acked_of_lt_front (by omega)

theorem Peer.Lawful.acknowledged (ha : a.Lawful h t config b.conn.view)
    (hla : a.conn.view.chunks.length < 65534) (hlb : b.conn.view.chunks.length < 65534) :
    Acknowledged a b := by
  obtain ⟨hrec, -, hhon⟩ := ha.few hla hlb
  have hacc : ∀ e, a.conn.established = some e → ∀ (i : Nat) (r : SentPacket),
      e.sentPackets.packets[i]? = some r → r.acks ≠ [] → r.seqNum ∈ b.conn.view.accepted := by
    intro e he i r hr hacks
    have hmem := (hhon.received e he).acked i ⟨r, hr, hacks⟩
    rw [← (ha.shaken.numbers e he).sent, ← (ha.sound e he).sentPackets.number i r hr] at hmem
    exact hmem
  refine ⟨?_, ?_⟩
  · intro e he r hr hacks
    obtain ⟨i, hi⟩ := List.getElem?_of_mem hr
    exact View.mem_accepted (hacc e he i r hi hacks)
  · intro e f he hf hlast
    have hl := hrec.ledger e he
    have hall : ∀ r ∈ e.sentPackets.packets, r.seqNum ∈ b.conn.view.accepted := by
      intro r hr
      obtain ⟨i, hi⟩ := List.getElem?_of_mem hr
      have hlt := (List.getElem?_eq_some_iff.mp hi).1
      obtain ⟨r', hr', hacks⟩ := hl.all_acked (ha.sound e he).sentPackets hf hlast hlt
      obtain rfl := Option.some.inj (hi.symm.trans hr')
      exact hacc e he i r hi hacks
    have hfin : f ∈ b.conn.view.accepted := by
      have hidx := (hl.fin_recorded hf).index_lt
      have hget := List.getElem?_eq_getElem hidx
      have hnum := (ha.sound e he).sentPackets.number _ _ hget
      rw [SentPackets.number_seqNumIndex] at hnum
      rw [← hnum]
      exact hall _ (List.mem_of_getElem? hget)
    obtain ⟨e', he', hholds⟩ := View.mem_accepted hfin
    refine ⟨e', he', hholds, fun r hr => ?_⟩
    obtain ⟨e₁, he₁, hr⟩ := View.mem_accepted (hall r hr)
    obtain rfl := Option.some.inj (he'.symm.trans he₁)
    exact hr

end Contract

/-! ### Runs that can be evaluated -/

instance (p q : Packet) : Decidable (p.SameValue q) :=
  decidable_of_iff (p.header.packetType = q.header.packetType ∧ p.header.seqNum = q.header.seqNum ∧
      p.header.ackNum = q.header.ackNum ∧ p.eack = q.eack ∧ p.body = q.body)
    ⟨fun ⟨h₁, h₂, h₃, h₄, h₅⟩ => ⟨h₁, h₂, h₃, h₄, h₅⟩,
      fun ⟨h₁, h₂, h₃, h₄, h₅⟩ => ⟨h₁, h₂, h₃, h₄, h₅⟩⟩

/-- The packets handed to the socket. -/
def Connection.outgoing (c : Connection) : List Packet :=
  c.socketEvents.filterMap fun
    | .outgoing p => some p
    | .shutdown => none

/-- One end handles an event, if the packet in it may arrive. -/
def Peer.handle [Float64] (a b : Peer) (ev : Connection.Event) : Option Peer :=
  if ev.packet?.all fun p => b.conn.outgoing.any fun q => p.SameValue q then
    match a.conn.step ev with
    | .ok c => some ⟨c, a.written ++ ev.accepts a.conn⟩
    | .error _ => none
  else none

/-- A run of a pair: who handles which event. -/
def play [Float64] : Peer × Peer → List (EndpointType × Connection.Event) → Option (Peer × Peer)
  | s, [] => some s
  | (a, b), (.initiator, ev) :: rest => (a.handle b ev).bind fun a' => play (a', b) rest
  | (a, b), (.acceptor, ev) :: rest => (b.handle a ev).bind fun b' => play (a, b') rest

theorem Peer.party_of_handle [Float64] {a b a' : Peer} {ev : Connection.Event}
    (h : a.handle b ev = some a') :
    (∀ p, ev.packet? = some p → Peer.party.sent b p) ∧ Peer.party.step a ev.packet? a' := by
  unfold handle at h
  split at h
  · rename_i hall
    split at h
    · rename_i c hok
      cases h
      refine ⟨fun p hp => ?_, ev, rfl, hok, rfl⟩
      rw [hp] at hall
      obtain ⟨q, hq, hpq⟩ := List.any_eq_true.mp hall
      obtain ⟨e, he, hout⟩ := List.mem_filterMap.mp hq
      cases e with
      | outgoing q' =>
          cases hout
          exact ⟨_, he, of_decide_eq_true hpq⟩
      | shutdown => cases hout
    · cases h
  · cases h

theorem reach_of_play [Float64] {s s' : Peer × Peer}
    {events : List (EndpointType × Connection.Event)} (h : play s events = some s') :
    ReflTransGen (LossyPair.Step Peer.party) s s' := by
  induction events generalizing s with
  | nil =>
      cases h
      exact .refl
  | cons e events ih =>
      obtain ⟨a, b⟩ := s
      obtain ⟨t, ev⟩ := e
      cases t with
      | initiator =>
          obtain ⟨a', ha', hrest⟩ := Option.bind_eq_some_iff.mp h
          obtain ⟨hsent, hstep⟩ := Peer.party_of_handle ha'
          exact .head (.left hsent hstep) (ih hrest)
      | acceptor =>
          obtain ⟨b', hb', hrest⟩ := Option.bind_eq_some_iff.mp h
          obtain ⟨hsent, hstep⟩ := Peer.party_of_handle hb'
          exact .head (.right hsent hstep) (ih hrest)

/-- A pair with small buffers: the initiator's SYN has number 100, the
acceptor's first packet number 5. -/
def sampleSetup : Setup where
  cid := ⟨1, 2⟩
  config := { newConnectionConfig with bufferSize := 16 }
  synNum := 100
  now := 0
  t₀ := 0
  cid' := ⟨2, 1⟩
  config' := { newConnectionConfig with bufferSize := 16 }
  synAck := 5
  now' := 0
  t₀' := 0
  syn := (newPacketBuilder .st_syn 2 0 1000 100).build
  syn_sent := ⟨_, List.mem_singleton.mpr rfl, rfl, rfl, rfl, rfl, rfl⟩

/-- The initiator writes three bytes and closes; the acceptor reads them and
acknowledges everything. -/
def sampleEvents : List (EndpointType × Connection.Event) :=
  [(.initiator, .onPacket ((newPacketBuilder .st_state 1 0 1000 5).withAckNum 100).build 0 0),
    (.initiator, .onWrite [1, 2, 3] 0 0),
    (.initiator, .processWrites 0),
    (.initiator, .shutdown 0),
    (.acceptor, .onPacket
      (((newPacketBuilder .st_data 2 0 1000 101).withPayload [1, 2, 3]).withAckNum 4).build 0 0),
    (.acceptor, .onPacket ((newPacketBuilder .st_fin 2 0 1000 102).withAckNum 4).build 0 0),
    (.initiator, .onPacket ((newPacketBuilder .st_state 1 0 1000 5).withAckNum 102).build 0 0)]

/-- The sample run, read off its last state. -/
theorem sample_run : ∃ s, @play exactFloat64 sampleSetup.start sampleEvents = some s ∧
    s.1.conn.transmitted = 2 ∧ s.2.conn.transmitted = 0 ∧ s.1.written = [1, 2, 3] ∧
    s.2.conn.reads.any (fun r => r.err = some .eof) ∧
    (s.1.conn.established.bind fun e => e.sentPackets.lastAckNum) = some 102 := by
  let := exactFloat64
  have heval : ((play sampleSetup.start sampleEvents).any fun s =>
      s.1.conn.transmitted = 2 ∧ s.2.conn.transmitted = 0 ∧ s.1.written = [1, 2, 3] ∧
      s.2.conn.reads.any (fun r => r.err = some .eof) ∧
      (s.1.conn.established.bind fun e => e.sentPackets.lastAckNum) = some 102) = true := by
    decide +kernel
  rcases hs : play sampleSetup.start sampleEvents with - | s
  · rw [hs] at heval
    cases heval
  · rw [hs] at heval
    exact ⟨s, rfl, of_decide_eq_true heval⟩

/-! ### Main results -/

/-- The errors of a peer that breaks the protocol. -/
def protocolErrors : List ConnError :=
  [.errInvalidAckNum, .errInvalidSeqNum, .errInvalidFin, .errInvalidSyn, .errSynFromAcceptor,
    .errEmptyDataPayload]

section Results

variable [Float64] {p : Setup} {s : Peer × Peer}

/-- **Delivery**: each end reads a prefix of what the other has written, and
all of it once the end of the stream is reported. -/
theorem pair_delivers (hsize : 64 < p.config.maxPacketSize) (hsize' : 64 < p.config'.maxPacketSize)
    (hs : p.Reaches s) (hi : s.1.conn.transmitted < 65534) (ha : s.2.conn.transmitted < 65534) :
    Delivered s.1 s.2 ∧ Delivered s.2 s.1 := by
  rw [← Connection.length_view] at hi ha
  obtain ⟨hinit, hacc⟩ := hs.lawful
  refine ⟨hacc.delivered hinit ha hi ?_, hinit.delivered hacc hi ha ?_⟩
  · bv_omega
  · bv_omega

omit [Float64] in
theorem pair_delivers_sample : ∃ s, @play exactFloat64 sampleSetup.start sampleEvents = some s ∧
    s.2.conn.readStream = [1, 2, 3] := by
  let := exactFloat64
  obtain ⟨s, hs, hi, ha, hw, heof, -⟩ := sample_run
  obtain ⟨r, hr, herr⟩ := List.any_eq_true.mp heof
  have hdel := (pair_delivers (p := sampleSetup) (by decide) (by decide) (reach_of_play hs)
    (by omega) (by omega)).1
  exact ⟨s, hs, (hdel.complete ⟨r, hr, of_decide_eq_true herr⟩).trans hw⟩

/-- **Acknowledgements**: what an end counts as acknowledged, the other has
accepted. -/
theorem pair_acks (hs : p.Reaches s) (hi : s.1.conn.transmitted < 65534)
    (ha : s.2.conn.transmitted < 65534) : Acknowledged s.1 s.2 ∧ Acknowledged s.2 s.1 := by
  rw [← Connection.length_view] at hi ha
  obtain ⟨hinit, hacc⟩ := hs.lawful
  exact ⟨hinit.acknowledged hi ha, hacc.acknowledged ha hi⟩

omit [Float64] in
theorem pair_acks_sample : ∃ s, @play exactFloat64 sampleSetup.start sampleEvents = some s ∧
    Acknowledged s.1 s.2 ∧ Acknowledged s.2 s.1 := by
  let := exactFloat64
  obtain ⟨s, hs, hi, ha, -⟩ := sample_run
  exact ⟨s, hs, pair_acks (p := sampleSetup) (reach_of_play hs) (by omega) (by omega)⟩

/-- **Errors**: neither end closes with a protocol error. -/
theorem pair_errors (hs : p.Reaches s) (hi : s.1.conn.transmitted < 65534)
    (ha : s.2.conn.transmitted < 65534) : ∀ err ∈ protocolErrors, ∀ e,
      s.1.conn.state ≠ .closed e (some err) ∧ s.2.conn.state ≠ .closed e (some err) := by
  rw [← Connection.length_view] at hi ha
  obtain ⟨hinit, hacc⟩ := hs.lawful
  have htimeout : ConnError.errTimedOut ∉ protocolErrors := by decide
  intro err herr e
  refine ⟨fun hst => htimeout ?_, fun hst => htimeout ?_⟩
  · rw [← (hinit.few hi ha).2.2.closed e err hst]
    exact herr
  · rw [← (hacc.few ha hi).2.2.closed e err hst]
    exact herr

omit [Float64] in
theorem pair_errors_sample : ∃ s, @play exactFloat64 sampleSetup.start sampleEvents = some s ∧
    ∀ err ∈ protocolErrors, ∀ e,
      s.1.conn.state ≠ .closed e (some err) ∧ s.2.conn.state ≠ .closed e (some err) := by
  let := exactFloat64
  obtain ⟨s, hs, hi, ha, -⟩ := sample_run
  exact ⟨s, hs, pair_errors (p := sampleSetup) (reach_of_play hs) (by omega) (by omega)⟩

/-- **Handshake**: once the initiator is connected, each end numbers its
packets from where the other expects them. -/
theorem pair_agrees (hs : p.Reaches s) {e : Established} (he : s.1.conn.state = .connected e) :
    ∃ e', s.2.conn.established = some e' ∧
      e'.recvBuf.initSeqNum = e.sentPackets.initSeqNum ∧
      e.sentPackets.initSeqNum = s.1.conn.endpoint.synNum ∧
      e.recvBuf.initSeqNum = e'.sentPackets.initSeqNum ∧
      e'.sentPackets.initSeqNum = s.2.conn.endpoint.synAck - 1 ∧
      (e.sentPackets.packets = [] → e'.recvBuf.consumed = 0 →
        e.sentPackets.nextSeqNum = e'.recvBuf.ackNum + 1) ∧
      (e'.sentPackets.packets = [] → e.recvBuf.consumed = 0 →
        e'.sentPackets.nextSeqNum = e.recvBuf.ackNum + 1) := by
  obtain ⟨hinit, hacc⟩ := hs.lawful
  obtain ⟨e', he'⟩ := Option.ne_none_iff_exists'.mp (hacc.shaken.acceptor rfl).1
  obtain ⟨hsent, hrecv⟩ := hinit.shaken.numbers e (established_connected he)
  obtain ⟨hsent', hrecv'⟩ := hacc.shaken.numbers e' he'
  have hsyn : s.1.conn.endpoint.synNum = p.synNum := hinit.shaken.synNum
  have hack : s.2.conn.endpoint.synAck = p.synAck := hacc.shaken.synAck rfl
  change _ = p.synNum + 1 at hsent hrecv'
  change _ = p.synAck at hsent' hrecv
  refine ⟨e', he', by bv_omega, by bv_omega, by bv_omega, by bv_omega, ?_, ?_⟩
  · intro hnil hzero
    rw [SentPackets.nextSeqNum_eq, hnil, ReceiveBuffer.ackNum, hzero, hsent, ← hrecv']
    simp
  · intro hnil hzero
    rw [SentPackets.nextSeqNum_eq, hnil, ReceiveBuffer.ackNum, hzero, hsent', ← hrecv]
    simp

omit [Float64] in
theorem pair_agrees_sample : ∃ s e e',
    @play exactFloat64 sampleSetup.start (sampleEvents.take 1) = some s ∧
    s.1.conn.state = .connected e ∧ s.2.conn.established = some e' ∧
    e'.recvBuf.initSeqNum = e.sentPackets.initSeqNum ∧
    e.recvBuf.initSeqNum = e'.sentPackets.initSeqNum := by
  let := exactFloat64
  have hconn : (play sampleSetup.start (sampleEvents.take 1)).isSome = true := by decide +kernel
  obtain ⟨s, hs⟩ := Option.isSome_iff_exists.mp hconn
  have hplay := hs
  cases hs
  obtain ⟨e', he', hrecv, -, hsent, -⟩ :=
    pair_agrees (p := sampleSetup) (reach_of_play hplay) rfl
  exact ⟨_, _, e', rfl, rfl, he', hrecv, hsent⟩

end Results

end UtpGo
