/-
UtpGo/ConnAddress.lean

The ids of a connection and the ids on its packets.  A connection keeps its
pair of ids for good; it puts its receive id on a SYN and its send id on every
other packet of its own.  A packet that is sent again, because it was lost or
because its timer expired, carries the id it was first sent with.

`Handled` says what every handler keeps: the ids, the role, the addresses of
the packets and, once the connection has left the handshake, what was reported
about it.  A handler leaves the queue of timed-out packets alone, and it
changes the timers by calls of the wheel only.

Main results: `step_steady` and `step_handled`, what every event keeps, and
`run_addressed`, every packet of every run is addressed.
-/
import UtpGo.ConnEffects
import UtpGo.DelaySetRuns

namespace UtpGo

open Checked

/-! ### The id on a packet -/

/-- The id a connection puts on its packets of this type. -/
def ConnectionId.wireId (cid : ConnectionId) : PacketType → Uint16
  | .st_syn => cid.recv
  | _ => cid.send

theorem ConnectionId.wireId_of_ne {cid : ConnectionId} {t : PacketType} (h : t ≠ .st_syn) :
    cid.wireId t = cid.send := by
  cases t with
  | st_syn => exact absurd rfl h
  | st_state | st_data | st_fin | st_reset => rfl

/-- The packet carries the id of the connection; a RESET carries the id of
the packet it answers.  A SYN is that of an initiator. -/
structure Packet.AddressedBy (p : Packet) (cid : ConnectionId) (role : EndpointType) : Prop where
  version : p.header.version = 1
  id : p.header.packetType ≠ .st_reset → p.header.connectionId = cid.wireId p.header.packetType
  syn : p.header.packetType = .st_syn → role = .initiator

theorem Packet.addressedBy_of_send {p : Packet} {cid : ConnectionId} {role : EndpointType}
    (hversion : p.header.version = 1) (hid : p.header.connectionId = cid.send)
    (ht : p.header.packetType.numbered = true) : p.AddressedBy cid role := by
  have hsend : p.header.packetType = .st_data ∨ p.header.packetType = .st_fin := by
    cases hp : p.header.packetType with
    | st_data => exact .inl rfl
    | st_fin => exact .inr rfl
    | st_syn | st_state | st_reset =>
        rw [hp] at ht
        cases ht
  refine ⟨hversion, fun _ => ?_, fun hsyn => ?_⟩
  · rw [hid]
    rcases hsend with hp | hp <;> rw [hp] <;> rfl
  · rcases hsend with hp | hp <;> rw [hp] at hsyn <;> cases hsyn

/-- The records are those of a stream. -/
structure SentPackets.OfStream (s : SentPackets) : Prop where
  wf : s.WF
  numbered : ∀ chunk ∈ s.chunks, chunk.1.numbered = true

theorem SentPackets.OfStream.of_transmit {s s' : SentPackets} {seqNum : Uint16}
    {packetType : PacketType} {data : Bytes} {dataLen : Uint32} {now : Time} (h : s.OfStream)
    (htype : packetType.numbered = true)
    (hok : s.onTransmit seqNum packetType data dataLen now = .ok s') : s'.OfStream :=
  ⟨h.wf.of_transmit hok, SentPackets.forall_chunks_of_transmit h.wf h.numbered htype hok⟩

namespace Connection

variable {c c' c₁ : Connection} {e e' : Established} {now : Time} {p : Packet}

/-- The connection sends the packet under its own id. -/
def Owns (c : Connection) (p : Packet) : Prop := p.AddressedBy c.cid c.endpoint.type

theorem Owns.of_same (h : c.Owns p) (hcid : c'.cid = c.cid)
    (htype : c'.endpoint.type = c.endpoint.type) : c'.Owns p := by
  rw [Owns, hcid, htype]
  exact h

/-- Every packet sent, or timed to be sent again, is addressed, and what is
timed or recorded is part of the stream, but for the SYN. -/
structure Addressed (c : Connection) : Prop where
  sent : ∀ p, c.Sent p → c.Owns p
  timed : ∀ p, c.Timed p → c.Owns p ∧
    (p.header.packetType = .st_syn ∨ p.header.packetType.numbered = true)
  records : ∀ e, c.established = some e → e.sentPackets.OfStream

/-! ### What handlers keep -/

/-- The record of what has been reported to the caller of a connect stays as
it is once the handshake has been left. -/
structure KeepsReport (c c' : Connection) : Prop where
  left : c'.state ≠ .connecting
  connectedCh : c'.connectedCh = c.connectedCh
  established : c'.established.isSome = c.established.isSome

/-- The ids, the role and the report are kept. -/
structure Steady (c c' : Connection) : Prop where
  cid : c'.cid = c.cid
  type : c'.endpoint.type = c.endpoint.type
  report : c.state ≠ .connecting → KeepsReport c c'

theorem Steady.trans (h : Steady c c₁) (h₁ : Steady c₁ c') : Steady c c' where
  cid := h₁.cid.trans h.cid
  type := h₁.type.trans h.type
  report := by
    intro hs
    have hr := h.report hs
    have hr₁ := h₁.report hr.left
    exact ⟨hr₁.left, hr₁.connectedCh.trans hr.connectedCh, hr₁.established.trans hr.established⟩

/-- Besides, the queue of timed-out packets is left alone, and the timers are
changed by calls of the wheel. -/
structure Operates (c c' : Connection) : Prop extends Steady c c' where
  queue : c'.unackTimeoutCh = c.unackTimeoutCh
  wheel : c.unacked.WF → ∃ ops, (∀ op ∈ ops, op.isTick = false) ∧ c'.unacked = c.unacked.run ops

theorem Operates.of_same (h : Steady c c') (hqueue : c'.unackTimeoutCh = c.unackTimeoutCh)
    (hwheel : c'.unacked = c.unacked) : Operates c c' :=
  ⟨h, hqueue, fun _ => ⟨[], fun _ hop => absurd hop List.not_mem_nil, hwheel⟩⟩

/-- One call of `put`. -/
theorem Operates.of_put (h : Steady c c') (hqueue : c'.unackTimeoutCh = c.unackTimeoutCh)
    {key : Uint16} (hwheel : c.unacked.WF → ∃ delay, c'.unacked = c.unacked.put key p delay) :
    Operates c c' := by
  refine ⟨h, hqueue, fun hw => ?_⟩
  obtain ⟨delay, hput⟩ := hwheel hw
  exact ⟨[.put key p delay], fun _ hop => List.mem_singleton.mp hop ▸ rfl, hput⟩

theorem Operates.refl (c : Connection) : Operates c c :=
  .of_same ⟨rfl, rfl, fun hs => ⟨hs, rfl, rfl⟩⟩ rfl rfl

theorem Operates.trans (h : Operates c c₁) (h₁ : Operates c₁ c') : Operates c c' := by
  refine ⟨h.toSteady.trans h₁.toSteady, h₁.queue.trans h.queue, fun hw => ?_⟩
  obtain ⟨ops, hops, hwheel⟩ := h.wheel hw
  obtain ⟨ops₁, hops₁, hwheel₁⟩ := h₁.wheel (hwheel ▸ hw.run)
  refine ⟨ops ++ ops₁, ?_, ?_⟩
  · intro op hop
    rcases List.mem_append.mp hop with hop | hop
    · exact hops op hop
    · exact hops₁ op hop
  · rw [hwheel₁, hwheel, TimeWheel.run, TimeWheel.run, TimeWheel.run, List.foldl_append]

theorem Operates.emit (p : Packet) : Operates c (c.emit p) :=
  .of_same ⟨rfl, rfl, fun hs => ⟨hs, rfl, rfl⟩⟩ rfl rfl

/-- And the packets stay addressed. -/
structure Handled (c c' : Connection) : Prop extends Operates c c' where
  addressed : c.Addressed → c'.Addressed

/-! ### Effects -/

theorem Operates.of_side (h : SameWire c c') (hreport : c.state ≠ .connecting → KeepsReport c c') :
    Operates c c' :=
  .of_same ⟨h.cid, h.type, hreport⟩ h.unackTimeoutCh h.unacked

theorem operates_transmit (hok : c.transmit p now = .ok c') : Operates c c' := by
  obtain ⟨e, sp, hs, -, rfl⟩ := transmit_ok hok
  refine .of_put ⟨rfl, rfl, fun _ => ⟨?_, rfl, ?_⟩⟩ rfl fun _ => ⟨sp.timeout, rfl⟩
  · rintro ⟨⟩
  · rw [established_connected hs]
    rfl

variable {origin? : Option Packet} {fin : Prop}

theorem Effect.operates (h : Effect origin? fin c c') : Operates c c' := by
  cases h with
  | book h hch hstate =>
      refine .of_side h.toSameWire fun hs => ⟨hstate ▸ hs, hch, ?_⟩
      rw [established, established, hstate]
  | buffers h hch hleft hleft' hsome => exact .of_side h.toSameWire fun _ => ⟨hleft', hch, hsome⟩
  | leave h hs => exact .of_side h.toSameWire fun hne => absurd hs hne
  | emitState => exact .emit _
  | emitReset => exact .emit _
  | emitSyn => exact .emit _
  | putAgain _ hput =>
      exact .of_put ⟨rfl, rfl, fun hs => ⟨hs, rfl, rfl⟩⟩ rfl fun hw => hw.exists_put hput
  | transmit hs hp hok => exact operates_transmit hok
  | clear shouldRemove keys =>
      refine ⟨⟨rfl, rfl, fun hs => ⟨hs, rfl, rfl⟩⟩, rfl, fun _ =>
        ⟨.retain shouldRemove :: keys.map .remove, ?_, ?_⟩⟩
      · intro op hop
        rcases List.mem_cons.mp hop with rfl | hop
        · rfl
        · obtain ⟨key, -, rfl⟩ := List.mem_map.mp hop
          rfl
      · rw [TimeWheel.run, List.foldl_cons, List.foldl_map]
        rfl

theorem Effects.operates (h : Effects origin? fin c c') : Operates c c' := by
  induction h with
  | refl => exact .refl c
  | tail _ heffect ih => exact ih.trans heffect.operates

/-- What is timed out was addressed, and it is part of the stream unless it is
a SYN. -/
def Returns (c : Connection) (origin? : Option Packet) : Prop :=
  ∀ p, origin? = some p → c.Owns p ∧
    (p.header.packetType = .st_syn ∨ p.header.packetType.numbered = true)

theorem statePacket_addressed (h : c.statePacket now = some p) : c.Owns p := by
  rcases statePacket_inv h with ⟨-, -, rfl⟩ | ⟨e, -, rfl⟩
  · exact ⟨rfl, fun _ => rfl, by rintro ⟨⟩⟩
  · exact ⟨rfl, fun _ => rfl, by rintro ⟨⟩⟩

theorem Made.addressed (h : Made origin? fin c e p) (hs : c.state = .connected e)
    (haddr : c.Addressed) (hreturns : c.Returns origin?) :
    c.Owns p ∧ p.header.packetType.numbered = true := by
  cases h with
  | data => exact ⟨Packet.addressedBy_of_send rfl rfl rfl, rfl⟩
  | fin => exact ⟨Packet.addressedBy_of_send rfl rfl rfl, rfl⟩
  | lost hrec =>
      have hnum := (haddr.records e (established_connected hs)).numbered _ hrec
      exact ⟨Packet.addressedBy_of_send rfl rfl hnum, hnum⟩
  | again horigin hsyn =>
      obtain ⟨howns, htype⟩ := hreturns _ horigin
      exact ⟨⟨howns.version, howns.id, howns.syn⟩, htype.resolve_left hsyn⟩

theorem Addressed.emit (h : c.Addressed) (hp : c.Owns p) : (c.emit p).Addressed := by
  refine ⟨fun q hq => ?_, h.timed, h.records⟩
  rcases sent_emit.mp hq with rfl | hq
  · exact hp
  · exact h.sent q hq

/-- A timer is started. -/
theorem Addressed.timing {unacked : TimeWheel Uint16 Packet} (h : c.Addressed) (hp : c.Owns p)
    (htype : p.header.packetType = .st_syn ∨ p.header.packetType.numbered = true)
    (htimed : ∀ q, Timed { c with unacked } q → q = p ∨ c.Timed q) :
    Addressed { c with unacked } := by
  refine ⟨h.sent, fun q hq => ?_, h.records⟩
  rcases htimed q hq with rfl | hq
  · exact ⟨hp, htype⟩
  · exact h.timed q hq

theorem Addressed.put {key : Uint16} {delay : Duration} (h : c.Addressed) (hp : c.Owns p)
    (htype : p.header.packetType = .st_syn ∨ p.header.packetType.numbered = true) :
    Addressed { c with unacked := c.unacked.put key p delay } :=
  h.timing hp htype fun _ => timed_put

/-- Nothing is sent or timed, and the records are still those of a stream. -/
theorem Addressed.of_side (haddr : c.Addressed) (h : SameWire c c')
    (hrecords : ∀ e, c'.established = some e → e.sentPackets.OfStream) : c'.Addressed := by
  refine ⟨fun p hp => ?_, fun p hp => ?_, hrecords⟩
  · rw [Sent, h.socketEvents] at hp
    exact (haddr.sent p hp).of_same h.cid h.type
  · rw [Timed, h.unackTimeoutCh, h.unacked] at hp
    obtain ⟨howns, htype⟩ := haddr.timed p hp
    exact ⟨howns.of_same h.cid h.type, htype⟩

/-- **One effect** keeps the packets addressed. -/
theorem Effect.addressed (h : Effect origin? fin c c') (haddr : c.Addressed)
    (hreturns : c.Returns origin?) : c'.Addressed := by
  cases h with
  | book h hch hstate =>
      refine haddr.of_side h.toSameWire fun e he => haddr.records e ?_
      rwa [established, hstate] at he
  | buffers h _ _ _ _ hrecords =>
      refine haddr.of_side h.toSameWire fun e' he' => ?_
      obtain ⟨e, he, hsame⟩ := hrecords e' he'
      have hstream := haddr.records e he
      obtain ⟨hwf, hchunks⟩ := hsame hstream.wf
      exact ⟨hwf, by rw [hchunks]; exact hstream.numbered⟩
  | leave h _ hnew =>
      refine haddr.of_side h.toSameWire fun e he => ?_
      obtain ⟨hwf, hchunks⟩ := hnew e he
      exact ⟨hwf, by rw [hchunks]; exact fun _ hchunk => absurd hchunk List.not_mem_nil⟩
  | emitState hp => exact haddr.emit (statePacket_addressed hp)
  | emitReset => exact haddr.emit ⟨rfl, fun hne => absurd rfl hne, by rintro ⟨⟩⟩
  | emitSyn hrole => exact haddr.emit ⟨rfl, fun _ => rfl, fun _ => hrole⟩
  | putAgain horigin hput =>
      obtain ⟨howns, htype⟩ := hreturns _ horigin
      exact haddr.timing howns htype fun _ => timed_putSigned hput
  | transmit hs hp hok =>
      rename_i p _
      obtain ⟨howns, hnum⟩ := hp.addressed hs haddr hreturns
      obtain ⟨e₁, sp, hs₁, hsp, rfl⟩ := transmit_ok hok
      have htimed : Addressed { c with
          unacked := c.unacked.put p.header.seqNum p sp.timeout } := haddr.put howns (.inr hnum)
      have hsent := htimed.emit howns
      refine ⟨hsent.sent, hsent.timed, ?_⟩
      rintro e' ⟨⟩
      exact (haddr.records e₁ (established_connected hs₁)).of_transmit hnum hsp
  | clear shouldRemove keys =>
      exact ⟨haddr.sent, fun q hq => haddr.timed q (timed_of_clear hq), haddr.records⟩

theorem Effects.addressed (h : Effects origin? fin c c') (haddr : c.Addressed)
    (hreturns : c.Returns origin?) : c'.Addressed := by
  induction h with
  | refl => exact haddr
  | tail hmany heffect ih =>
      have hsteady := (Effects.operates hmany).toSteady
      refine heffect.addressed ih fun p hp => ?_
      obtain ⟨howns, htype⟩ := hreturns p hp
      exact ⟨howns.of_same hsteady.cid hsteady.type, htype⟩

/-- Without a timed-out packet the effects are handled. -/
theorem Effects.handled (h : Effects none fin c c') : Handled c c' :=
  ⟨h.operates, fun haddr => h.addressed haddr fun _ hp => by cases hp⟩

/-! ### Events -/

variable [Float64]

/-- What `onPacket` does after the handler of the packet type. -/
theorem handled_afterDispatch {err : Option SentError} {c₂ c₃ c₄ : Connection} {rnd : Uint16}
    (hack : c₁.acknowledge p now = .ok (c₂, err)) (hlost : c₂.retransmitLostPackets now = .ok c₃)
    (hremote : (((c₃.reply p now rnd).notify p).closeLocal).closeRemote = .ok c₄) :
    Handled c₁ c₄.closeBoth := by
  have heffects : Effects none False c₁ c₄.closeBoth := afterDispatch_effects hack hlost hremote
  exact heffects.handled

theorem handled_onPacket {rnd : Uint16} (hok : c.onPacket p now rnd = .ok c') : Handled c c' := by
  have heffects : Effects none False (c.observePeer p now) c' := onPacket_effects hok
  have hrest := heffects.handled
  refine ⟨?_, fun haddr => hrest.addressed ⟨haddr.sent, haddr.timed, haddr.records⟩⟩
  have hobserve : Operates c (c.observePeer p now) :=
    .of_side ⟨rfl, rfl, rfl, rfl, rfl⟩ fun hs => ⟨hs, rfl, rfl⟩
  exact hobserve.trans hrest.toOperates

/-- The events that neither expire timers nor receive a timed-out packet. -/
theorem step_handled {ev : Event} (htick : ∀ order, ev ≠ .tick order)
    (htimeout : ∀ now, ev ≠ .onTimeout now) (hok : c.step ev = .ok c') : Handled c c' := by
  cases step_happens hok with
  | nothing => exact ⟨.refl c, id⟩
  | packet hev =>
      subst hev
      exact handled_onPacket hok
  | expire hev => exact absurd hev (htick _)
  | timeout hev => exact absurd hev (htimeout _)
  | other h => exact h.handled

/-- An event other than a tick receives at most one timed-out packet, and then
changes the timers by calls of the wheel. -/
theorem step_operates {ev : Event} (htick : ∀ order, ev ≠ .tick order)
    (hok : c.step ev = .ok c') :
    ∃ rest, rest <:+ c.unackTimeoutCh ∧ Operates { c with unackTimeoutCh := rest } c' := by
  cases step_happens hok with
  | nothing => exact ⟨_, List.suffix_rfl, .refl c⟩
  | packet hev =>
      subst hev
      exact ⟨_, List.suffix_rfl, (handled_onPacket hok).toOperates⟩
  | expire hev => exact absurd hev (htick _)
  | timeout _ hch h => exact ⟨_, hch ▸ List.suffix_cons _ _, h.operates⟩
  | other h => exact ⟨_, List.suffix_rfl, h.operates⟩

/-- **Every event is steady.** -/
theorem step_steady {ev : Event} (hok : c.step ev = .ok c') : Steady c c' := by
  cases step_happens hok with
  | nothing => exact (Operates.refl c).toSteady
  | packet hev =>
      subst hev
      exact (handled_onPacket hok).toSteady
  | expire => exact ⟨rfl, rfl, fun hs => ⟨hs, rfl, rfl⟩⟩
  | timeout hev hch h =>
      rename_i rest _
      have hreceive : Steady c { c with unackTimeoutCh := rest } :=
        ⟨rfl, rfl, fun hs => ⟨hs, rfl, rfl⟩⟩
      exact hreceive.trans h.operates.toSteady
  | other h => exact h.operates.toSteady

/-- **Every event keeps the packets addressed.** -/
theorem step_addressed {ev : Event} (h : c.Addressed) (hok : c.step ev = .ok c') :
    c'.Addressed := by
  cases step_happens hok with
  | nothing => exact h
  | packet hev =>
      subst hev
      exact (handled_onPacket hok).addressed h
  | expire _ horder =>
      -- the packets that expire were timed
      exact ⟨h.sent, fun q hq => h.timed q (timed_of_tick horder hq), h.records⟩
  | timeout _ hch heffects =>
      refine heffects.addressed
        ⟨h.sent, fun q hq => h.timed q (timed_of_receive hch hq), h.records⟩ ?_
      intro q hq
      obtain rfl := Option.some.inj hq
      exact h.timed _ (.inl (hch ▸ List.mem_cons_self))
  | other heffects => exact heffects.handled.addressed h

/-! ### Runs -/

omit [Float64] in
/-- The SYN of an initiator is sent and timed, the STATE packet of an acceptor
only sent. -/
theorem Addressed.start (h : c.Addressed) (t₀ : Time) : (c.start t₀).Addressed := by
  unfold Connection.start
  split
  · rename_i hrole
    let synPkt := c.synPacket c.endpoint.synNum t₀
    have hsyn : c.Owns synPkt := ⟨rfl, fun _ => rfl, fun _ => hrole⟩
    have hput : Addressed
        { c with unacked := c.unacked.put c.endpoint.synNum synPkt c.config.initialTimeout } :=
      h.put hsyn (.inl rfl)
    have haddr := hput.emit hsyn
    exact ⟨haddr.sent, haddr.timed, haddr.records⟩
  · have heffects : Effects none False c ((c.statePacket t₀).elim c c.emit) := emitState_effects t₀
    have haddr := heffects.handled.addressed h
    refine ⟨haddr.sent, haddr.timed, ?_⟩
    rintro e ⟨⟩
    exact ⟨SentPackets.wf_new _ _, fun _ hchunk => absurd hchunk List.not_mem_nil⟩

omit [Float64] in
theorem addressed_start (cid : ConnectionId) (config : ConnectionConfig) (syn : Option Packet)
    (rnd : Uint16) (now t₀ : Time) :
    ((newConnection cid config syn rnd now).start t₀).Addressed := by
  refine Addressed.start ⟨fun p hp => absurd hp List.not_mem_nil, ?_, fun e he => by cases he⟩ t₀
  rintro p (hp | ⟨k, hp⟩)
  · exact absurd hp List.not_mem_nil
  · exact absurd hp TimeWheel.not_holds_new

/-- **Packets are addressed**: in every run of a connection, each packet it
sends carries the id of its type, and only an initiator sends a SYN. -/
theorem run_addressed {cid : ConnectionId} {config : ConnectionConfig} {syn : Option Packet}
    {rnd : Uint16} {now t₀ : Time} {events : List Event}
    (hok : ((newConnection cid config syn rnd now).start t₀).run events = .ok c)
    (hp : c.Sent p) :
    p.AddressedBy cid (if syn.isSome then .acceptor else .initiator) := by
  let role : EndpointType := if syn.isSome then .acceptor else .initiator
  have hstart : ((newConnection cid config syn rnd now).start t₀).cid = cid ∧
      ((newConnection cid config syn rnd now).start t₀).endpoint.type = role := by
    cases syn <;> exact ⟨rfl, rfl⟩
  have hinv : (c.cid = cid ∧ c.endpoint.type = role) ∧ c.Addressed := by
    refine foldlM_inv (fun c => (c.cid = cid ∧ c.endpoint.type = role) ∧ c.Addressed) hok
      ⟨hstart, addressed_start cid config syn rnd now t₀⟩ ?_
    intro c ev c' _ h hstep
    have hsteady := step_steady hstep
    exact ⟨⟨hsteady.cid.trans h.1.1, hsteady.type.trans h.1.2⟩, step_addressed h.2 hstep⟩
  have howns := hinv.2.sent p hp
  rwa [Owns, hinv.1.1, hinv.1.2] at howns

end Connection

end UtpGo
