/-
UtpGo/SocketRoute.lean

Which connection a packet reaches.  A packet carries one id, and the socket
that receives it tries three pairs of ids in a fixed order; the first pair
that is the key of a connection gets the packet.  The two halves of a
connection have different pairs: the initiator has the pair it was made with,
the acceptor the receive id of the initiator and its successor.

`Hosts.route_iff` says when a packet is handed to a given connection: one of
the three pairs is the pair of this connection, and no pair before it is the
pair of another.  So a connection whose ids are next to those of another one
takes its packets (`crossing_misrouted`).

Main results: `halves_routed_iff`, when the packets of each half reach the
other half, and when a SYN reaches no connection, and `reset_routed_iff`, when
a RESET reaches the connection whose packet it answers.
-/
import UtpGo.ConnAddress
import UtpGo.Socket

namespace UtpGo

open Checked

/-! ### The header on the wire -/

/-- Whatever follows it, the header is decoded to itself. -/
theorem header_of_decodePacket {p q : Packet} (hversion : p.header.version < 16)
    (hok : decodePacket p.encode = .ok q) : q.header = p.header.onWire := by
  have hencode : ∃ rest, p.encode = p.header.encodeToBytes ++ rest := by
    unfold Packet.encode
    split
    · exact ⟨_, rfl⟩
    · exact ⟨_, by rw [List.append_assoc, List.append_assoc]⟩
  obtain ⟨rest, hrest⟩ := hencode
  have htake : p.encode.take 20 = p.header.encodeToBytes := by
    rw [hrest]
    exact List.take_left' (length_encodeToBytes _)
  unfold decodePacket at hok
  split at hok
  · cases hok
  simp only [htake, decodePacketHeader_encodeToBytes hversion, bind, Except.bind] at hok
  -- the extensions and the acknowledgement do not touch it
  split at hok
  · cases hok
  split at hok
  · cases hok
  split at hok
  · cases hok
  · cases hok
    rfl

/-- The ids of the acceptor's half of a connection, which are made from the SYN
of the initiator's half. -/
def ConnectionId.accepted (ids : ConnectionId) : ConnectionId := ⟨ids.recv, ids.recv + 1⟩

namespace UtpSocket

variable {π κ : Type} [LinearOrder κ] [CidHash π κ] {s : UtpSocket π κ}

/-! ### Routing -/

/-- No connection with this peer has these ids. -/
def Free (s : UtpSocket π κ) (send recv : Uint16) (peer : π) : Prop :=
  s.conns.get? (genHash (newConnectionId peer recv send)) = none

/-- The socket has the connection, with a channel of its own. -/
structure Hosts (s : UtpSocket π κ) (cid : Cid π) (ch : Nat) (queue : List StreamEvent) :
    Prop where
  entry : s.conns.get? (genHash cid) = some ch
  chan : s.chans[ch]? = some queue
  own : ∀ key, s.conns.get? key = some ch → key = genHash cid

/-- The datagram is decoded, and its packet put into the channel. -/
def Delivers (s : UtpSocket π κ) (incomingRaw : IncomingPacketRaw π) (rnd : Uint16) (now : Time)
    (ch : Nat) : Prop :=
  ∃ q queue, decodePacket incomingRaw.payload = .ok q ∧ s.chans[ch]? = some queue ∧
    (s.handleIncomingBuf incomingRaw rnd now).chans[ch]? = some (queue ++ [.incoming q])

theorem route_eq_some {p : Packet} {peer : π} {ch : Nat} :
    s.route p peer = some ch ↔
      s.conns.get? (genHash (cidFromPacket p peer .sendIdPeerInitiated)) = some ch ∨
      s.conns.get? (genHash (cidFromPacket p peer .sendIdPeerInitiated)) = none ∧
        (s.conns.get? (genHash (cidFromPacket p peer .sendIdWeInitiated)) = some ch ∨
        s.conns.get? (genHash (cidFromPacket p peer .sendIdWeInitiated)) = none ∧
          s.conns.get? (genHash (cidFromPacket p peer .recvId)) = some ch) := by
  unfold route cidTypes getConnStreamWithCids
  simp only [List.findSome?_cons, List.findSome?_nil]
  cases s.conns.get? (genHash (cidFromPacket p peer .sendIdPeerInitiated)) with
  | some ch₁ => simp
  | none =>
      cases s.conns.get? (genHash (cidFromPacket p peer .sendIdWeInitiated)) with
      | some ch₂ => simp
      | none => cases s.conns.get? (genHash (cidFromPacket p peer .recvId)) <;> simp

/-- A socket with one connection. -/
theorem Hosts.of_only {cid : Cid π} {ch : Nat} {queue : List StreamEvent}
    (hconns : s.conns = OrdMap.empty.insert (genHash cid) ch) (hchan : s.chans[ch]? = some queue) :
    s.Hosts cid ch queue := by
  refine ⟨?_, hchan, fun key hkey => ?_⟩
  · rw [hconns, OrdMap.get?_insert_self]
  · rw [hconns] at hkey
    rcases OrdMap.mem_insert.mp (OrdMap.get?_eq_some.mp hkey) with heq | ⟨hmem, -⟩
    · exact congrArg Prod.fst heq
    · cases hmem

theorem Hosts.entry_iff (hinj : Function.Injective (genHash : Cid π → κ)) {cid cid' : Cid π}
    {ch : Nat} {queue : List StreamEvent} (h : s.Hosts cid ch queue) :
    s.conns.get? (genHash cid') = some ch ↔ cid' = cid := by
  refine ⟨fun hentry => hinj (h.own _ hentry), ?_⟩
  rintro rfl
  exact h.entry

/-- **When a packet reaches a connection**: a reading of its id is the id of
the connection, and no reading before is the id of another. -/
theorem Hosts.route_iff (hinj : Function.Injective (genHash : Cid π → κ)) {cid : Cid π} {ch : Nat}
    {queue : List StreamEvent} (h : s.Hosts cid ch queue) {p : Packet} {peer : π} :
    s.route p peer = some ch ↔
      cidFromPacket p peer .sendIdPeerInitiated = cid ∨
      s.Free p.header.connectionId (p.header.connectionId - 1) peer ∧
        (cidFromPacket p peer .sendIdWeInitiated = cid ∨
        s.Free (p.header.connectionId + 1) p.header.connectionId peer ∧
          cidFromPacket p peer .recvId = cid) := by
  rw [route_eq_some, h.entry_iff hinj, h.entry_iff hinj, h.entry_iff hinj]
  rfl

theorem chans_startAccepted (cid : Cid π) (syn : Packet) (accept : Accept π) (rnd : Uint16)
    (now : Time) : (s.startAccepted cid syn accept rnd now).chans = s.chans ++ [[]] := rfl

/-- A packet without a connection is put into no channel. -/
theorem getElem?_chans_handleUnrouted {p : Packet} {peer : π} {rnd : Uint16} {now : Time}
    {ch : Nat} {queue : List StreamEvent} (h : s.chans[ch]? = some queue) :
    (s.handleUnrouted p peer rnd now).chans[ch]? = some queue := by
  unfold handleUnrouted
  split
  · split <;> exact h
  · dsimp only
    split
    · rw [chans_startAccepted]
      exact (List.getElem?_append_left (List.getElem?_eq_some_iff.mp h).1).trans h
    · exact h

omit [CidHash π κ] in
theorem getElem?_chans_offer {event : StreamEvent} {ch ch' : Nat} {queue : List StreamEvent}
    (h : s.chans[ch]? = some queue) : (s.offer ch' event).chans[ch]? = some
      (if ch' = ch ∧ queue.length < streamEventsCap then queue ++ [event] else queue) := by
  show (s.chans.modify ch' _)[ch]? = _
  rw [List.getElem?_modify, h]
  by_cases hch : ch' = ch
  · by_cases hroom : queue.length < streamEventsCap <;> simp [hch, hroom]
  · simp [hch]

/-- A packet is delivered to the connection that it is routed to, if there is
room in its channel. -/
theorem delivers_iff {incomingRaw : IncomingPacketRaw π} {rnd : Uint16} {now : Time} {ch : Nat}
    {queue : List StreamEvent} (h : s.chans[ch]? = some queue) :
    s.Delivers incomingRaw rnd now ch ↔ ∃ q, decodePacket incomingRaw.payload = .ok q ∧
      s.route q incomingRaw.peer = some ch ∧ queue.length < streamEventsCap := by
  have hne : ∀ q, queue ≠ queue ++ [.incoming q] := by
    intro q heq
    have hlen := congrArg List.length heq
    rw [List.length_append, List.length_singleton] at hlen
    omega
  constructor
  · rintro ⟨q, queue', hdecode, hqueue, hafter⟩
    cases h.symm.trans hqueue
    refine ⟨q, hdecode, ?_⟩
    simp only [handleIncomingBuf, hdecode] at hafter
    split at hafter
    · rename_i ch' hroute
      rw [getElem?_chans_offer h] at hafter
      split at hafter
      · rename_i hto
        exact ⟨hto.1 ▸ hroute, hto.2⟩
      · exact absurd (Option.some.inj hafter) (hne q)
    · rw [getElem?_chans_handleUnrouted h] at hafter
      exact absurd (Option.some.inj hafter) (hne q)
  · rintro ⟨q, hdecode, hroute, hroom⟩
    refine ⟨q, queue, hdecode, h, ?_⟩
    simp only [handleIncomingBuf, hdecode, hroute]
    rw [getElem?_chans_offer h, if_pos ⟨rfl, hroom⟩]

/-! ### The two halves of a connection -/

/-- Nothing stands between a packet of the initiator and the acceptor's half:
for a SYN no connection with ids next to it, and for the other packets a send
id that follows the receive id besides. -/
def ClearToAcceptor (s : UtpSocket π κ) (ids : ConnectionId) (peer : π) : PacketType → Prop
  | .st_syn => s.Free ids.recv (ids.recv - 1) peer ∧ s.Free (ids.recv + 1) ids.recv peer
  | _ => ids.send = ids.recv + 1 ∧ s.Free ids.send (ids.send - 1) peer ∧
      s.Free (ids.send + 1) ids.send peer

theorem clearToAcceptor_of_ne {ids : ConnectionId} {peer : π} {t : PacketType}
    (h : t ≠ .st_syn) : s.ClearToAcceptor ids peer t ↔ ids.send = ids.recv + 1 ∧
      s.Free ids.send (ids.send - 1) peer ∧ s.Free (ids.send + 1) ids.send peer := by
  cases t with
  | st_syn => exact absurd rfl h
  | st_state | st_data | st_fin | st_reset => rfl

/-- Nothing stands between a packet of the acceptor and the initiator's
half. -/
def ClearToInitiator (s : UtpSocket π κ) (ids : ConnectionId) (peer : π) : Prop :=
  s.Free ids.recv (ids.recv - 1) peer ∧
    (ids.send = ids.recv + 1 ∨
      ids.send = ids.recv - 1 ∧ s.Free (ids.recv + 1) ids.recv peer)

omit [LinearOrder κ] [CidHash π κ] in
theorem newConnectionId_eq_iff {ids : ConnectionId} {recv send : Uint16} {peer : π} :
    newConnectionId peer recv send = ⟨ids, peer⟩ ↔ send = ids.send ∧ recv = ids.recv := by
  obtain ⟨send', recv'⟩ := ids
  simp [newConnectionId]

omit [LinearOrder κ] [CidHash π κ] in
theorem cidFromPacket_of_syn {q : Packet} {peer : π} (h : q.header.packetType = .st_syn) :
    cidFromPacket q peer .recvId
      = newConnectionId peer (q.header.connectionId + 1) q.header.connectionId := by
  rw [cidFromPacket, h]

omit [LinearOrder κ] [CidHash π κ] in
theorem cidFromPacket_of_not_syn {q : Packet} {peer : π} (h : q.header.packetType ≠ .st_syn) :
    cidFromPacket q peer .recvId
      = newConnectionId peer q.header.connectionId (q.header.connectionId - 1) := by
  unfold cidFromPacket
  cases hq : q.header.packetType with
  | st_syn => exact absurd hq h
  | st_state | st_data | st_fin | st_reset => rfl

section Halves

variable (hinj : Function.Injective (genHash : Cid π → κ)) {ids : ConnectionId} {peer : π}
  {ch : Nat} {queue : List StreamEvent} {q : Packet}

include hinj

/-- The first two readings of the id of a SYN have the receive id on the wrong
side. -/
theorem Hosts.route_syn (h : s.Hosts ⟨ids.accepted, peer⟩ ch queue)
    (hsyn : q.header.packetType = .st_syn) (hid : q.header.connectionId = ids.recv) :
    s.route q peer = some ch ↔
      s.Free ids.recv (ids.recv - 1) peer ∧ s.Free (ids.recv + 1) ids.recv peer := by
  rw [h.route_iff hinj, cidFromPacket_of_syn hsyn, hid]
  simp only [cidFromPacket, newConnectionId_eq_iff, ConnectionId.accepted, hid]
  have h₁ : ¬ ids.recv - 1 = ids.recv + 1 := by bv_omega
  have h₂ : ¬ ids.recv + 1 = ids.recv := by bv_omega
  simp only [h₁, h₂, and_false, false_and, false_or, and_true]

theorem Hosts.route_acceptor (h : s.Hosts ⟨ids.accepted, peer⟩ ch queue)
    (hsyn : q.header.packetType ≠ .st_syn) (hid : q.header.connectionId = ids.send) :
    s.route q peer = some ch ↔ ids.send = ids.recv + 1 ∧
      s.Free ids.send (ids.send - 1) peer ∧ s.Free (ids.send + 1) ids.send peer := by
  rw [h.route_iff hinj, cidFromPacket_of_not_syn hsyn, hid]
  simp only [cidFromPacket, newConnectionId_eq_iff, ConnectionId.accepted, hid]
  have h₁ : ¬ (ids.send = ids.recv ∧ ids.send - 1 = ids.recv + 1) := by bv_omega
  have h₂ : ¬ (ids.send + 1 = ids.recv ∧ ids.send = ids.recv + 1) := by bv_omega
  have h₃ : ids.send - 1 = ids.recv ∧ ids.send = ids.recv + 1 ↔ ids.send = ids.recv + 1 := by
    refine ⟨And.right, fun hnext => ⟨?_, hnext⟩⟩
    bv_omega
  simp only [h₁, h₂, h₃, false_or]
  rw [← and_assoc, and_comm]

theorem Hosts.route_initiator (h : s.Hosts ⟨ids, peer⟩ ch queue)
    (hsyn : q.header.packetType ≠ .st_syn) (hid : q.header.connectionId = ids.recv) :
    s.route q peer = some ch ↔ s.ClearToInitiator ids peer := by
  rw [h.route_iff hinj, cidFromPacket_of_not_syn hsyn, hid]
  simp only [cidFromPacket, newConnectionId_eq_iff, ClearToInitiator, hid]
  have h₁ : ¬ ids.recv - 1 = ids.recv := by bv_omega
  simp only [h₁, and_false, false_or, and_true]
  rw [eq_comm, @eq_comm _ (ids.recv - 1), and_comm (b := _ = _)]

/-- A reading of the id of a RESET that copies the send id of a connection is
the id of this connection only if it is read as the initiator's. -/
theorem Hosts.route_reset (h : s.Hosts ⟨ids, peer⟩ ch queue)
    (hsyn : q.header.packetType ≠ .st_syn) (hid : q.header.connectionId = ids.send) :
    s.route q peer = some ch ↔ ids.recv = ids.send - 1 := by
  rw [h.route_iff hinj, cidFromPacket_of_not_syn hsyn, hid]
  simp only [cidFromPacket, newConnectionId_eq_iff, hid]
  have h₁ : ¬ ids.send + 1 = ids.send := by bv_omega
  have h₂ : ¬ ids.send - 1 = ids.send := by bv_omega
  simp only [h₁, h₂, true_and, false_and, and_false, or_false]
  exact eq_comm

end Halves

/-! ### Both directions -/

/-- A connection with this peer has these ids, and there is no room in its
channel. -/
def Full (s : UtpSocket π κ) (send recv : Uint16) (peer : π) : Prop :=
  ∃ ch, s.conns.get? (genHash (newConnectionId peer recv send)) = some ch ∧
    ∀ queue, s.chans[ch]? = some queue → streamEventsCap ≤ queue.length

/-- The datagram of a packet with the version in its header, in terms of the
type and the id of the packet. -/
theorem Hosts.delivers_iff {cid : Cid π} {ch : Nat} {queue : List StreamEvent}
    (h : s.Hosts cid ch queue) {p : Packet} (hversion : p.header.version = 1) {peer : π}
    {rnd : Uint16} {now : Time} {clear : Prop}
    (hroute : ∀ q : Packet, q.header.packetType = p.header.packetType →
      q.header.connectionId = p.header.connectionId → (s.route q peer = some ch ↔ clear)) :
    s.Delivers ⟨peer, p.encode⟩ rnd now ch ↔
      (∃ q, decodePacket p.encode = .ok q) ∧ queue.length < streamEventsCap ∧ clear := by
  have hheader : ∀ q, decodePacket p.encode = .ok q → (s.route q peer = some ch ↔ clear) := by
    intro q hq
    have hwire := header_of_decodePacket (by rw [hversion]; decide) hq
    apply hroute
    · rw [hwire]
      rfl
    · rw [hwire]
      rfl
  rw [UtpSocket.delivers_iff h.chan]
  constructor
  · rintro ⟨q, hq, hto, hroom⟩
    exact ⟨⟨q, hq⟩, hroom, (hheader q hq).mp hto⟩
  · rintro ⟨⟨q, hq⟩, hroom, hclear⟩
    exact ⟨q, hq, (hheader q hq).mpr hclear, hroom⟩

/-- A packet that one of two connections would take. -/
theorem undelivered_iff {p : Packet} (hsyn : p.header.packetType = .st_syn)
    (hversion : p.header.version = 1) {ids : ConnectionId}
    (hid : p.header.connectionId = ids.recv) {peer : π} {rnd : Uint16} {now : Time}
    (hnone : s.conns.get? (genHash ⟨ids.accepted, peer⟩) = none) :
    (∀ ch, ¬ s.Delivers ⟨peer, p.encode⟩ rnd now ch) ↔
      (∀ q, decodePacket p.encode ≠ .ok q) ∨
      s.Free ids.recv (ids.recv - 1) peer ∧ s.Free (ids.recv + 1) ids.recv peer ∨
      s.Full ids.recv (ids.recv - 1) peer ∨
      s.Free ids.recv (ids.recv - 1) peer ∧ s.Full (ids.recv + 1) ids.recv peer := by
  have hroute : ∀ q ch, decodePacket p.encode = .ok q → (s.route q peer = some ch ↔
      s.conns.get? (genHash (newConnectionId peer (ids.recv - 1) ids.recv)) = some ch ∨
      s.Free ids.recv (ids.recv - 1) peer ∧
        s.conns.get? (genHash (newConnectionId peer ids.recv (ids.recv + 1))) = some ch) := by
    intro q ch hq
    have hwire := header_of_decodePacket (by rw [hversion]; decide) hq
    have hid' : q.header.connectionId = ids.recv := by
      rw [hwire]
      exact hid
    have hthird : s.conns.get? (genHash (cidFromPacket q peer .recvId)) = none := by
      rw [cidFromPacket_of_syn (by rw [hwire]; exact hsyn), hid']
      exact hnone
    rw [route_eq_some, hthird]
    simp only [cidFromPacket, hid', reduceCtorEq, and_false, or_false]
    rfl
  have htake : ∀ {q ch}, decodePacket p.encode = .ok q → s.route q peer = some ch →
      (∀ ch, ¬ s.Delivers ⟨peer, p.encode⟩ rnd now ch) →
      ∀ queue, s.chans[ch]? = some queue → streamEventsCap ≤ queue.length := by
    intro q ch hq hto hnever queue hqueue
    refine not_lt.mp fun hroom => hnever ch ?_
    exact (UtpSocket.delivers_iff hqueue).mpr ⟨q, hq, hto, hroom⟩
  constructor
  · intro hnever
    by_cases hdecode : ∃ q, decodePacket p.encode = .ok q
    swap
    · exact .inl fun q hq => hdecode ⟨q, hq⟩
    obtain ⟨q, hq⟩ := hdecode
    refine .inr ?_
    rcases h₁ : s.conns.get? (genHash (newConnectionId peer (ids.recv - 1) ids.recv)) with - | ch
    · rcases h₂ : s.conns.get? (genHash (newConnectionId peer ids.recv (ids.recv + 1)))
        with - | ch
      · exact .inl ⟨h₁, h₂⟩
      · exact .inr (.inr ⟨h₁, ch, h₂, htake hq ((hroute q ch hq).mpr (.inr ⟨h₁, h₂⟩)) hnever⟩)
    · exact .inr (.inl ⟨ch, h₁, htake hq ((hroute q ch hq).mpr (.inl h₁)) hnever⟩)
  · intro hnone ch hdelivers
    obtain ⟨q, queue, hq, hqueue, -⟩ := id hdelivers
    obtain ⟨q', hq', hto, hroom⟩ := (UtpSocket.delivers_iff hqueue).mp hdelivers
    have hto := (hroute q' ch hq').mp hto
    -- each way to get the packet is closed
    rcases hnone with hbad | ⟨hfree, hfree'⟩ | ⟨ch', hch', hfull⟩ | ⟨hfree, ch', hch', hfull⟩
    · exact hbad q hq
    · rcases hto with hto | ⟨-, hto⟩
      · cases hfree.symm.trans hto
      · cases hfree'.symm.trans hto
    · rcases hto with hto | ⟨hfree, -⟩
      · cases hch'.symm.trans hto
        exact absurd hroom (not_lt.mpr (hfull queue hqueue))
      · cases hfree.symm.trans hch'
    · rcases hto with hto | ⟨-, hto⟩
      · cases hfree.symm.trans hto
      · cases hch'.symm.trans hto
        exact absurd hroom (not_lt.mpr (hfull queue hqueue))

/-- **Packets reach the other half unless another connection has ids next to
it**: when a packet of the initiator is delivered to the acceptor's half, when
one of the acceptor is delivered to the initiator's half, and when the SYN of
a connection that does not exist yet is delivered to none. -/
theorem halves_routed_iff [Float64] (hinj : Function.Injective (genHash : Cid π → κ))
    (ids : ConnectionId) (peer : π) (s : UtpSocket π κ) (rnd : Uint16) (now : Time) :
    (∀ config rnd₀ now₀ t₀ events c p ch queue,
      ((newConnection ids config none rnd₀ now₀).start t₀).run events = .ok c →
      c.Sent p → p.header.packetType ≠ .st_reset → s.Hosts ⟨ids.accepted, peer⟩ ch queue →
      (s.Delivers ⟨peer, p.encode⟩ rnd now ch ↔ (∃ q, decodePacket p.encode = .ok q) ∧
        queue.length < streamEventsCap ∧ s.ClearToAcceptor ids peer p.header.packetType)) ∧
    (∀ config syn rnd₀ now₀ t₀ events c p ch queue,
      ((newConnection ids.accepted config (some syn) rnd₀ now₀).start t₀).run events = .ok c →
      c.Sent p → p.header.packetType ≠ .st_reset → s.Hosts ⟨ids, peer⟩ ch queue →
      (s.Delivers ⟨peer, p.encode⟩ rnd now ch ↔ (∃ q, decodePacket p.encode = .ok q) ∧
        queue.length < streamEventsCap ∧ s.ClearToInitiator ids peer)) ∧
    (∀ config rnd₀ now₀ t₀ events c p,
      ((newConnection ids config none rnd₀ now₀).start t₀).run events = .ok c →
      c.Sent p → p.header.packetType = .st_syn →
      s.conns.get? (genHash ⟨ids.accepted, peer⟩) = none →
      ((∀ ch, ¬ s.Delivers ⟨peer, p.encode⟩ rnd now ch) ↔
        (∀ q, decodePacket p.encode ≠ .ok q) ∨
        s.Free ids.recv (ids.recv - 1) peer ∧ s.Free (ids.recv + 1) ids.recv peer ∨
        s.Full ids.recv (ids.recv - 1) peer ∨
        s.Free ids.recv (ids.recv - 1) peer ∧ s.Full (ids.recv + 1) ids.recv peer)) := by
  refine ⟨?_, ?_, ?_⟩
  · intro config rnd₀ now₀ t₀ events c p ch queue hrun hsent hreset hhosts
    have haddr := Connection.run_addressed hrun hsent
    have hid := haddr.id hreset
    refine hhosts.delivers_iff haddr.version fun q htype hq => ?_
    by_cases hsyn : p.header.packetType = .st_syn
    · rw [hsyn] at htype hid ⊢
      exact hhosts.route_syn hinj htype (hq.trans hid)
    · rw [ConnectionId.wireId_of_ne hsyn] at hid
      rw [clearToAcceptor_of_ne hsyn]
      exact hhosts.route_acceptor hinj (htype ▸ hsyn) (hq.trans hid)
  · intro config syn rnd₀ now₀ t₀ events c p ch queue hrun hsent hreset hhosts
    have haddr := Connection.run_addressed hrun hsent
    -- an acceptor sends no SYN
    have hsyn : p.header.packetType ≠ .st_syn := fun hsyn => by cases haddr.syn hsyn
    have hid : p.header.connectionId = ids.recv := by
      rw [haddr.id hreset, ConnectionId.wireId_of_ne hsyn]
      rfl
    exact hhosts.delivers_iff haddr.version fun q htype hq =>
      hhosts.route_initiator hinj (htype ▸ hsyn) (hq.trans hid)
  · intro config rnd₀ now₀ t₀ events c p hrun hsent hsyn hnone
    have haddr := Connection.run_addressed hrun hsent
    have hid := haddr.id (by rw [hsyn]; rintro ⟨⟩)
    rw [hsyn] at hid
    exact undelivered_iff hsyn haddr.version hid hnone

omit [LinearOrder κ] [CidHash π κ] in
/-- The datagram of a bare packet is decoded. -/
theorem decodes_bare {packetType : PacketType} (h : packetType ≠ .st_data) (id : Uint16)
    (tsMicros windowSize : Uint32) (seqNum : Uint16) : ∃ q,
      decodePacket (newPacketBuilder packetType id tsMicros windowSize seqNum).build.encode
        = .ok q := by
  refine ⟨_, decodePacket_encode ⟨?_, rfl, ?_, fun hdata => absurd hdata h⟩⟩
  · show (1 : Byte) < 16
    decide
  · rintro ack ⟨⟩

/-! ### A hash without collisions, and sockets with it -/

omit [LinearOrder κ] [CidHash π κ] in
theorem plainHash_injective : Function.Injective (@genHash Nat Nat plainHash) := by
  rintro ⟨⟨send, recv⟩, peer⟩ ⟨⟨send', recv'⟩, peer'⟩ heq
  have heq : send.toNat + 65536 * (recv.toNat + 65536 * peer)
      = send'.toNat + 65536 * (recv'.toNat + 65536 * peer') := heq
  have hsend := send.isLt
  have hsend' := send'.isLt
  have hrecv := recv.isLt
  have hrecv' := recv'.isLt
  obtain rfl : send = send' := BitVec.eq_of_toNat_eq (by omega)
  obtain rfl : recv = recv' := BitVec.eq_of_toNat_eq (by omega)
  obtain rfl : peer = peer' := by omega
  rfl

omit [LinearOrder κ] [CidHash π κ] in
/-- A socket with the acceptor's half of the connection with the ids 101 and
100 at peer 1. -/
def acceptingSocket : UtpSocket Nat Nat :=
  @startAccepted Nat Nat _ plainHash withSocket ⟨⟨100, 101⟩, 1⟩
    (newPacketBuilder .st_syn 100 0 100000 7).build ⟨0, newConnectionConfig, none⟩ 5 0

omit [LinearOrder κ] [CidHash π κ] in
theorem hosts_acceptingSocket : @Hosts Nat Nat _ plainHash acceptingSocket
    ⟨ConnectionId.accepted ⟨101, 100⟩, 1⟩ 0 [] := by
  refine @Hosts.mk Nat Nat _ plainHash _ _ _ _ rfl rfl fun key hkey => ?_
  rcases OrdMap.mem_insert.mp (OrdMap.get?_eq_some.mp hkey) with heq | ⟨hmem, -⟩
  · exact congrArg Prod.fst heq
  · cases hmem

omit [LinearOrder κ] [CidHash π κ] in
/-- The SYN of the initiator, sent again, reaches the acceptor. -/
theorem halves_routed_syn : ∃ c p,
    @Connection.run exactFloat64 ((newConnection ⟨101, 100⟩ newConnectionConfig none 7 0).start 0)
      [] = .ok c ∧ c.Sent p ∧ p.header.packetType = .st_syn ∧
    @Delivers Nat Nat _ plainHash acceptingSocket ⟨1, p.encode⟩ 0 0 0 := by
  let p := (newPacketBuilder .st_syn 100 (nowMicro 0) newConnectionConfig.windowSize 7).build
  have hrun : ∃ c, @Connection.run exactFloat64
      ((newConnection ⟨101, 100⟩ newConnectionConfig none 7 0).start 0) [] = .ok c ∧ c.Sent p :=
    ⟨_, rfl, List.mem_cons_self⟩
  obtain ⟨c, hrun, hsent⟩ := hrun
  refine ⟨c, p, hrun, hsent, rfl, ?_⟩
  have hiff := (@halves_routed_iff Nat Nat _ plainHash exactFloat64 plainHash_injective
    ⟨101, 100⟩ 1 acceptingSocket 0 0).1 _ _ _ _ _ c p 0 [] hrun hsent (by rintro ⟨⟩)
    hosts_acceptingSocket
  exact hiff.mpr ⟨decodes_bare (by rintro ⟨⟩) _ _ _ _, by decide, rfl, rfl⟩

omit [LinearOrder κ] [CidHash π κ] in
/-- A socket that connects to peer 1 with the ids 101 and 100, and accepts a
connection of this peer with the same ids. -/
def crossingSocket : UtpSocket Nat Nat :=
  @startAccepted Nat Nat _ plainHash
    (@connectWithCid Nat Nat _ plainHash withSocket ⟨⟨101, 100⟩, 1⟩ newConnectionConfig 9 0)
    ⟨⟨100, 101⟩, 1⟩ (newPacketBuilder .st_syn 100 0 100000 7).build
    ⟨0, newConnectionConfig, none⟩ 5 0

omit [LinearOrder κ] [CidHash π κ] in
/-- Two connections that cross: the data of the peer's connection is put into
the channel of the socket's own. -/
theorem crossing_misrouted : ∃ c p,
    @Connection.run exactFloat64 ((newConnection ⟨101, 100⟩
      { newConnectionConfig with bufferSize := 16 } none 7 0).start 0)
      [.onPacket ((newPacketBuilder .st_state 100 0 1000 5).withAckNum 7).build 0 0,
        .onWrite [1] 0 0, .processWrites 0] = .ok c ∧
    c.Sent p ∧ p.header.packetType = .st_data ∧
    crossingSocket.conns.get? (@genHash Nat Nat plainHash ⟨⟨101, 100⟩, 1⟩) = some 0 ∧
    crossingSocket.conns.get? (@genHash Nat Nat plainHash ⟨⟨100, 101⟩, 1⟩) = some 1 ∧
    (@handleIncomingBuf Nat Nat _ plainHash crossingSocket ⟨1, p.encode⟩ 0 0).chans
      = [[.incoming p], []] := by
  let p := (((newPacketBuilder .st_data 101 0 16 8).withAckNum 4).withPayload [1]).build
  have hrun : ∃ c, @Connection.run exactFloat64
      ((newConnection ⟨101, 100⟩ { newConnectionConfig with bufferSize := 16 } none 7 0).start 0)
      [.onPacket ((newPacketBuilder .st_state 100 0 1000 5).withAckNum 7).build 0 0,
        .onWrite [1] 0 0, .processWrites 0] = .ok c ∧
      c.socketEvents.getLast? = some (.outgoing p) := ⟨_, rfl, rfl⟩
  obtain ⟨c, hrun, hlast⟩ := hrun
  exact ⟨c, p, hrun, List.mem_of_getLast? hlast, rfl, by decide +kernel, by decide +kernel,
    by decide +kernel⟩

/-! ### The answer to a packet without a connection -/

/-- **A RESET reaches initiators only**: the RESET that a socket sends for a
packet without a connection is delivered to the connection that sent the
packet if and only if the receive id of this connection precedes its send
id. -/
theorem reset_routed_iff [Float64] (hinj : Function.Injective (genHash : Cid π → κ))
    (ids : ConnectionId) (config : ConnectionConfig) (syn : Option Packet) (rnd₀ : Uint16)
    (now₀ t₀ : Time) (events : List Connection.Event) (c : Connection) (p q : Packet)
    (hrun : ((newConnection ids config syn rnd₀ now₀).start t₀).run events = .ok c)
    (hsent : c.Sent p) (hsyn : p.header.packetType ≠ .st_syn)
    (hreset : p.header.packetType ≠ .st_reset) (hdecode : decodePacket p.encode = .ok q)
    (x y : UtpSocket π κ) (xPeer yPeer : π) (hnone : x.route q yPeer = none) (ch : Nat)
    (queue : List StreamEvent) (hhosts : y.Hosts ⟨ids, xPeer⟩ ch queue)
    (rnd rnd' : Uint16) (now now' : Time) :
    ∃ resetPacket : Packet, resetPacket.header.packetType = .st_reset ∧
      (x.handleIncomingBuf ⟨yPeer, p.encode⟩ rnd now).socketEvents
        = x.socketEvents ++ [.outgoing resetPacket (.peer yPeer)] ∧
      (y.Delivers ⟨xPeer, resetPacket.encode⟩ rnd' now' ch ↔
        queue.length < streamEventsCap ∧ ids.recv = ids.send - 1) := by
  have haddr := Connection.run_addressed hrun hsent
  have hwire := header_of_decodePacket (by rw [haddr.version]; decide) hdecode
  have hid : q.header.connectionId = ids.send := by
    rw [hwire]
    exact (haddr.id hreset).trans (ConnectionId.wireId_of_ne hsyn)
  have hsyn' : q.header.packetType ≠ .st_syn := by
    rw [hwire]
    exact hsyn
  have hreset' : q.header.packetType ≠ .st_reset := by
    rw [hwire]
    exact hreset
  let resetPacket := (newPacketBuilder .st_reset q.header.connectionId (nowMicro now) 100000
    rnd).build
  refine ⟨resetPacket, rfl, ?_, ?_⟩
  · simp only [handleIncomingBuf, hdecode, hnone, handleUnrouted, if_pos hsyn', if_pos hreset']
    rfl
  · rw [hhosts.delivers_iff (p := resetPacket) rfl fun r htype hr =>
      hhosts.route_reset hinj (by rw [htype]; rintro ⟨⟩) (hr.trans hid)]
    exact and_iff_right (decodes_bare (by rintro ⟨⟩) _ _ _ _)

omit [LinearOrder κ] [CidHash π κ] in
/-- A socket that has forgotten the connection answers the data of an
initiator, which gets the RESET. -/
theorem reset_routed_data : ∃ c p resetPacket,
    @Connection.run exactFloat64 ((newConnection ⟨101, 100⟩
      { newConnectionConfig with bufferSize := 16 } none 7 0).start 0)
      [.onPacket ((newPacketBuilder .st_state 100 0 1000 5).withAckNum 7).build 0 0,
        .onWrite [1] 0 0, .processWrites 0] = .ok c ∧ c.Sent p ∧
    (@handleIncomingBuf Nat Nat _ plainHash withSocket ⟨2, p.encode⟩ 3 0).socketEvents
      = [.outgoing resetPacket (.peer 2)] ∧
    @Delivers Nat Nat _ plainHash
      (@connectWithCid Nat Nat _ plainHash withSocket ⟨⟨101, 100⟩, 1⟩ newConnectionConfig 7 0)
      ⟨1, resetPacket.encode⟩ 0 0 0 := by
  let p := (((newPacketBuilder .st_data 101 0 16 8).withAckNum 4).withPayload [1]).build
  have hrun : ∃ c, @Connection.run exactFloat64
      ((newConnection ⟨101, 100⟩ { newConnectionConfig with bufferSize := 16 } none 7 0).start 0)
      [.onPacket ((newPacketBuilder .st_state 100 0 1000 5).withAckNum 7).build 0 0,
        .onWrite [1] 0 0, .processWrites 0] = .ok c ∧
      c.socketEvents.getLast? = some (.outgoing p) := ⟨_, rfl, rfl⟩
  obtain ⟨c, hrun, hlast⟩ := hrun
  have hdecode : decodePacket p.encode = .ok p := by decide +kernel
  have hhosts : @Hosts Nat Nat _ plainHash (@connectWithCid Nat Nat _ plainHash withSocket
      ⟨⟨101, 100⟩, 1⟩ newConnectionConfig 7 0) ⟨⟨101, 100⟩, 1⟩ 0 [] :=
    let := plainHash
    .of_only rfl rfl
  obtain ⟨resetPacket, -, hevents, hiff⟩ := @reset_routed_iff Nat Nat _ plainHash exactFloat64
    plainHash_injective _ _ _ _ _ _ _ c p p hrun (List.mem_of_getLast? hlast) (by rintro ⟨⟩)
    (by rintro ⟨⟩) hdecode withSocket _ 1 2 rfl 0 [] hhosts 3 0 0 0
  exact ⟨c, p, resetPacket, hrun, List.mem_of_getLast? hlast, hevents,
    hiff.mpr ⟨by decide, by decide⟩⟩

omit [LinearOrder κ] [CidHash π κ] in
/-- The RESET for the STATE packet of an acceptor reaches no connection. -/
theorem reset_unrouted : ∃ c p resetPacket,
    @Connection.run exactFloat64 ((newConnection ⟨100, 101⟩ newConnectionConfig
      (some (newPacketBuilder .st_syn 100 0 100000 7).build) 5 0).start 0) [] = .ok c ∧
    c.Sent p ∧ p.header.packetType = .st_state ∧
    (@handleIncomingBuf Nat Nat _ plainHash withSocket ⟨2, p.encode⟩ 3 0).socketEvents
      = [.outgoing resetPacket (.peer 2)] ∧
    acceptingSocket.conns.get? (@genHash Nat Nat plainHash ⟨⟨100, 101⟩, 1⟩) = some 0 ∧
    (@handleIncomingBuf Nat Nat _ plainHash acceptingSocket ⟨1, resetPacket.encode⟩ 0 0).chans
      = [[]] := by
  let p := ((newPacketBuilder .st_state 100 0 1048576 5).withAckNum 7).build
  let resetPacket := (newPacketBuilder .st_reset 100 0 100000 3).build
  have hrun : ∃ c, @Connection.run exactFloat64 ((newConnection ⟨100, 101⟩ newConnectionConfig
      (some (newPacketBuilder .st_syn 100 0 100000 7).build) 5 0).start 0) [] = .ok c ∧
      c.socketEvents = [.outgoing p] := ⟨_, rfl, rfl⟩
  obtain ⟨c, hrun, hsent⟩ := hrun
  refine ⟨c, p, resetPacket, hrun, ?_, rfl, by decide +kernel, by decide +kernel,
    by decide +kernel⟩
  rw [Connection.Sent, hsent]
  exact List.mem_cons_self

end UtpSocket

end UtpGo
