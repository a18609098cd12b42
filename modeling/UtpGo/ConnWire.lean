/-
UtpGo/ConnWire.lean

The packets on the wire.  Every packet a connection hands to the socket says
in its extension byte whether a selective acknowledgement follows, so that
the peer decodes it to the packet that was sent, except for one that
`onTimeout` sends again: it has the extension byte of the first transmission
and the selective acknowledgement of now.

Main results: `run_sent_decodes`, when the two agree at every timeout then
everything sent is decoded as it was meant, and a number always stands for
the same packet; and `timeout_garbles`, a run in which they do not.
-/
import UtpGo.ConnRecords

namespace UtpGo

open Checked

/-! ### The invariant -/

/-- The extension byte for the selective acknowledgement of now. -/
def Established.extension (e : Established) : Byte :=
  if e.recvBuf.selectiveAck.isSome then 1 else 0

/-- The extension byte of a packet that times out is right for the selective
acknowledgement of now. -/
def extensionKept : Guard := ⟨fun e p => p.header.extension = e.extension, fun _ => True⟩

/-- Everything sent is ready for the wire, and so is what is in hand. -/
structure Midcall.Wired (m : Midcall) : Prop where
  timed : ∀ p, m.conn.Timed p → p.header.version < 16
  sent : ∀ p, m.conn.Sent p → p.WireReady
  hand : ∀ e, m.conn.established = some e → ∀ item ∈ m.items,
    item.version < 16 ∧ item.extension.getD e.extension = e.extension

theorem Quiet.wired {m m' : Midcall} (h : Quiet m m') (hm : m.Wired) : m'.Wired where
  timed := fun p hp => hm.timed p (h.timed p hp)
  sent := by
    intro p hp
    rcases h.sent p hp with hp | hp
    · exact hm.sent p hp
    · exact hp.wireReady
  hand := by
    intro e' he' item hi
    rw [Midcall.items, h.hand] at hi
    obtain ⟨e, he, hsame⟩ := h.before he'
    rcases hsame.recvBuf with hrb | hnil
    · have hext : e'.extension = e.extension := by rw [Established.extension, hrb]; rfl
      rw [hext]
      exact hm.hand e he item hi
    · rw [hnil] at hi
      cases hi

theorem Midcall.Wired.of_built {c : Connection} {items : List Item} {w : Bytes}
    {hand : Option (List Item)} {w' : Bytes} {c' : Connection} (hm : Midcall.Wired ⟨c, hand, w⟩)
    (htimed : ∀ p, c'.Timed p → c.Timed p) (hsent : c'.socketEvents = c.socketEvents)
    (hitems : ∀ item ∈ items, item.extension = none ∧ item.version = 1) :
    Midcall.Wired ⟨c', some items, w'⟩ where
  timed := fun p hp => hm.timed p (htimed p hp)
  sent := by
    intro p hp
    refine hm.sent p ?_
    show _ ∈ c.socketEvents
    rw [← hsent]
    exact hp
  hand := by
    intro e _ item hi
    obtain ⟨hext, hv⟩ := hitems item hi
    rw [hext, hv]
    exact ⟨by decide, rfl⟩

/-- The packet of the next item is ready for the wire. -/
theorem wireReady_of_carries {pendingWrites : List QueuedWrite} {rest : List Item} {item : Item}
    {e e' : Established} {p : Packet} (hp : Carries e.recvBuf item p) (hv : item.version < 16)
    (hext : item.extension.getD e.extension = e.extension) (hl : Ledger pendingWrites rest e')
    (hrec : e'.sentPackets.Recorded item.seqNum item.packetType item.body) : p.WireReady where
  version := by
    rw [hp.version]
    exact hv
  extension := by
    rw [hp.extension, hp.eack]
    exact hext
  words := by
    intro s hs
    rw [hp.eack] at hs
    exact (ReceiveBuffer.selectiveAck_spec hs).1
  body := by
    intro ht
    rw [hp.packetType] at ht
    rw [hp.body]
    rcases hl.shape _ _ _ hrec with ⟨-, hne⟩ | ⟨hfin, -⟩
    · exact hne
    · cases ht.symm.trans hfin

theorem SendAct.wired {m m' : Midcall} (h : SendAct extensionKept m m') (hsound : m.Sound)
    (hsmall : m.conn.Small) (hrec : m.Recorded) (hm : m.Wired) : m'.Wired := by
  cases h with
  | enqueue => exact ⟨hm.timed, hm.sent, hm.hand⟩
  | flush => exact hm.of_built (fun _ h => h) rfl fun item hi => (mem_dataItems hi).2
  | pickLost =>
      refine hm.of_built (fun _ h => h) rfl fun item hi => ?_
      obtain ⟨lost, -, rfl⟩ := List.mem_map.mp hi
      exact ⟨rfl, rfl⟩
  | pickExpired hs ht _ hg =>
      refine ⟨hm.timed, hm.sent, ?_⟩
      intro e he item hi
      obtain rfl := List.mem_singleton.mp hi
      obtain rfl := Option.some.inj ((established_connected hs).symm.trans he)
      exact ⟨hm.timed _ ht, hg⟩
  | pickFin =>
      refine hm.of_built (fun _ h => h) rfl fun item hi => ?_
      obtain rfl := List.mem_singleton.mp hi
      exact ⟨rfl, rfl⟩
  | @send c _ _ _ _ _ _ _ _ hs hok hp =>
      have he := established_connected hs
      obtain ⟨hv, hext⟩ := hm.hand _ he _ (List.mem_cons_self)
      obtain ⟨hl, -, -, hitem⟩ :=
        (hrec.ledger _ he).send (hsound _ he).sentPackets (hsmall _ he) hok
      have hready := wireReady_of_carries hp hv hext hl hitem
      refine ⟨?_, ?_, ?_⟩
      · intro q hq
        rcases Connection.timed_put (c := c) hq with rfl | hq
        · exact hready.version
        · exact hm.timed q hq
      · intro q hq
        rcases Connection.sent_emit.mp hq with rfl | hq
        · exact hready
        · exact hm.sent q hq
      · rintro e' ⟨⟩ i hi
        exact hm.hand _ he i (List.mem_cons_of_mem _ hi)

theorem Opens.wired {m m' : Midcall} (h : Opens m m') (hm : m.Wired) : m'.Wired := by
  obtain ⟨recvInit, hc⟩ := h.after
  refine ⟨?_, ?_, ?_⟩
  · rw [hc]
    exact hm.timed
  · rw [hc]
    exact hm.sent
  · intro e he item hi
    rw [Midcall.items, h.hand'] at hi
    cases hi

theorem Act.wired [Float64] {packet? : Option Packet} {m m' : Midcall}
    (h : Act packet? extensionKept m m') (hsound : m.Sound)
    (hm : m.conn.Small → m.Recorded ∧ m.Wired) (hsmall : m'.conn.Small) :
    m'.Recorded ∧ m'.Wired := by
  have hbefore : m.conn.Small := h.small hsound hsmall
  obtain ⟨hrec, hw⟩ := hm hbefore
  refine ⟨h.recorded hsound (fun _ => hrec) hsmall, ?_⟩
  rcases h.quiet hsound with hq | hsend | hopen
  · exact hq.wired hw
  · exact hsend.wired hsound hbefore hrec hw
  · exact hopen.wired hw

/-! ### Runs -/

theorem wired_start (cid : ConnectionId) (config : ConnectionConfig) (syn : Option Packet)
    (rnd : Uint16) (now t₀ : Time) (w : Bytes) :
    Midcall.Wired ⟨(newConnection cid config syn rnd now).start t₀, none, w⟩ := by
  refine ⟨?_, ?_, fun e he item hi => by cases hi⟩
  · intro p hp
    rw [(timed_start hp).2.1]
    decide
  · intro p hp
    cases syn with
    | none =>
        rcases List.mem_singleton.mp hp with ⟨⟩
        exact Connection.wireReady_build nofun nofun
    | some syn =>
        rcases List.mem_singleton.mp hp with ⟨⟩
        exact Connection.wireReady_build nofun nofun

/-- The types whose packets have a number of their own, under which they are
sent again. -/
def PacketType.sequenced : PacketType → Bool
  | .st_data | .st_fin | .st_syn => true
  | .st_state | .st_reset => false

/-- A number stands for one packet. -/
theorem Midcall.Recorded.same_packet {m : Midcall} (h : m.Recorded) (hsmall : m.conn.Small)
    {p q : Packet} (hp : m.conn.Sent p) (hq : m.conn.Sent q)
    (htp : p.header.packetType.sequenced = true) (htq : q.header.packetType.sequenced = true)
    (hseq : p.header.seqNum = q.header.seqNum) :
    p.header.packetType = q.header.packetType ∧ p.body = q.body := by
  have hcases : ∀ {r : Packet}, m.conn.Sent r → r.header.packetType.sequenced = true →
      m.conn.Records r ∨ r.header.packetType = .st_syn := by
    intro r hr ht
    cases htr : r.header.packetType with
    | st_data => exact .inl (h.sent r hr (by rw [htr]; rfl))
    | st_fin => exact .inl (h.sent r hr (by rw [htr]; rfl))
    | st_syn => exact .inr rfl
    | st_state | st_reset =>
        rw [htr] at ht
        cases ht
  -- the number of the SYN lies before those of the stream
  have hsyn : ∀ {r r' : Packet}, m.conn.Records r → m.conn.Sent r' →
      r'.header.packetType = .st_syn → r.header.seqNum ≠ r'.header.seqNum := by
    rintro r r' ⟨e, he, hr⟩ hr' ht heq
    obtain ⟨hend, hnum, -⟩ := h.syn r' hr' ht
    have hidx := hr.index_lt
    rw [heq, hnum, ← h.init hend e he, SentPackets.seqNumIndex_eq] at hidx
    have hlen := hsmall e he
    bv_omega
  rcases hcases hp htp with hrp | hsp
  · rcases hcases hq htq with hrq | hsq
    · obtain ⟨e, he, hrp⟩ := hrp
      obtain ⟨e', he', hrq⟩ := hrq
      obtain rfl := Option.some.inj (he.symm.trans he')
      unfold SentPackets.Recorded at hrp hrq
      rw [hseq, hrq] at hrp
      obtain ⟨ht, hb⟩ := Prod.mk.inj (Option.some.inj hrp)
      exact ⟨ht.symm, hb.symm⟩
    · exact absurd hseq (hsyn hrp hq hsq)
  · rcases hcases hq htq with hrq | hsq
    · exact absurd hseq.symm (hsyn hrq hp hsp)
    · exact ⟨hsp.trans hsq.symm, (h.syn p hp hsp).2.2.trans (h.syn q hq hsq).2.2.symm⟩

namespace Connection

/-- **On the wire**: take a run in which fewer than `2 ^ 16` packets are sent
for the first time and every packet that times out has the extension byte
that fits the selective acknowledgement of that moment.  Then every packet
sent has the right extension byte and is decoded as it was sent, and packets
of one number are decoded to the same type, number and body. -/
theorem run_sent_decodes [Float64] (cid : ConnectionId) (config : ConnectionConfig)
    (syn : Option Packet) (rnd : Uint16) (now t₀ : Time) (events : List Event) (c : Connection)
    (hrun : ((newConnection cid config syn rnd now).start t₀).run events = .ok c)
    (hext : Along (fun c ev => ev.Guarded extensionKept c)
      ((newConnection cid config syn rnd now).start t₀) events)
    (hsmall : c.Small) :
    (∀ p, c.Sent p → (p.header.extension = if p.eack.isSome then 1 else 0) ∧
      decodePacket p.encode = .ok p.onWire) ∧
    ∀ p q, c.Sent p → c.Sent q → p.header.packetType.sequenced = true →
      q.header.packetType.sequenced = true → p.header.seqNum = q.header.seqNum →
      ∃ p' q', decodePacket p.encode = .ok p' ∧ decodePacket q.encode = .ok q' ∧
        p'.header.packetType = q'.header.packetType ∧
        p'.header.seqNum = q'.header.seqNum ∧ p'.body = q'.body := by
  obtain ⟨w, -, hinv⟩ := run_inv (I := fun m => m.conn.Small → m.Recorded ∧ m.Wired)
    (fun packet? m m' hact hsound hm hs => hact.wired hsound hm hs)
    (fun c hand w hhand hm hs => ⟨(hm hs).1.rest hhand, (hm hs).2.timed, (hm hs).2.sent,
      fun e he item hi => by cases hi⟩)
    hext (sound_start cid config syn rnd now t₀ [])
    (fun _ => ⟨recorded_start cid config syn rnd now t₀ [],
      wired_start cid config syn rnd now t₀ []⟩) hrun
  obtain ⟨hrec, hwired⟩ := hinv hsmall
  refine ⟨?_, ?_⟩
  · intro p hp
    have hready := hwired.sent p hp
    exact ⟨hready.extension, decodePacket_encode hready⟩
  · intro p q hp hq htp htq hseq
    obtain ⟨ht, hb⟩ := hrec.same_packet hsmall hp hq htp htq hseq
    exact ⟨p.onWire, q.onWire, decodePacket_encode (hwired.sent p hp),
      decodePacket_encode (hwired.sent q hq), ht, hseq, hb⟩

/-! ### A timeout in the middle of a gap -/

/-- The packet the acceptor sends for a write of three bytes. -/
def firstData : Packet :=
  ((newPacketBuilder .st_data 2 0 16 5).withPayload [1, 2, 3] |>.withAckNum 100).build

theorem run_sent_decodes_write : ∃ c,
    @run exactFloat64 sampleAcceptor [.onWrite [1, 2, 3] 0 0, .processWrites 0] = .ok c ∧
      c.Sent firstData ∧ decodePacket firstData.encode = .ok firstData.onWire := by
  let := exactFloat64
  have hsent : ∃ c, run sampleAcceptor [.onWrite [1, 2, 3] 0 0, .processWrites 0] = .ok c ∧
      c.Sent firstData ∧ c.Small := by
    refine ⟨_, rfl, ?_, ?_⟩
    · unfold Connection.Sent
      decide
    · rintro e ⟨⟩
      decide
  obtain ⟨c, hrun, hsent, hsmall⟩ := hsent
  have hext : Along (fun c ev => ev.Guarded extensionKept c) sampleAcceptor
      [.onWrite [1, 2, 3] 0 0, .processWrites 0] := by
    refine along_of_forall fun ev hev c => ⟨?_, fun _ _ _ _ _ _ _ => trivial⟩
    rintro now e p rest rfl
    simp at hev
  exact ⟨c, hrun, hsent,
    ((run_sent_decodes _ _ _ _ _ _ _ c hrun hext hsmall).1 firstData hsent).2⟩

/-- The data after a gap: number 102, while 101 is missing. -/
def outOfOrderData : Packet :=
  ((newPacketBuilder .st_data 1 0 1000 102).withPayload [7] |>.withAckNum 4).build

/-- The retransmission upon a timeout after the gap opened. -/
def resentData : Packet where
  header := { firstData.header with timestamp := 2000000, wndSize := 15 }
  eack := some (newSelectiveAck [true])
  body := [1, 2, 3]

/-- A packet sent before a gap opened in the incoming stream is sent again
with a selective acknowledgement, but without the extension byte for it: the
peer takes the acknowledgement for data. -/
theorem timeout_garbles : ∃ c, @run exactFloat64 sampleAcceptor
      [.onWrite [1, 2, 3] 0 0, .processWrites 0, .onPacket outOfOrderData 0 0, .tick [], .tick [],
        .tick [], .tick [], .tick [(5, firstData)], .onTimeout 2000000000] = .ok c ∧
    c.Sent firstData ∧ c.Sent resentData ∧
    resentData.header.extension = 0 ∧ resentData.eack.isSome = true ∧
    ∃ p' q', decodePacket firstData.encode = .ok p' ∧ decodePacket resentData.encode = .ok q' ∧
      p'.header.seqNum = q'.header.seqNum ∧ p'.body = [1, 2, 3] ∧
      q'.body = [0, 4, 128, 0, 0, 0, 1, 2, 3] := by
  refine ⟨_, rfl, ?_, ?_, rfl, rfl, _, _, rfl, rfl, rfl, rfl, ?_⟩
  · unfold Connection.Sent
    decide
  · unfold Connection.Sent
    decide
  · decide

end Connection

end UtpGo
