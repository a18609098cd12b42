/-
UtpGo/ConnRecords.lean

What a connection sends is what it has recorded.  While fewer than `2 ^ 16`
packets have been sent for the first time, every numbered packet that was
sent, or waits for its timeout, or is about to be sent again, is the one
`sentPackets` has under its number; our FIN is the last of them, and once it
is settled nothing waits to be written any more.

Main result: `Act.records`, the actions keep this.
-/
import UtpGo.ConnQuiet

namespace UtpGo

/-! ### Records -/

/-- The packet recorded under the number. -/
def SentPackets.Recorded (s : SentPackets) (seqNum : Uint16) (packetType : PacketType)
    (body : Bytes) : Prop :=
  s.chunks[s.seqNumIndex seqNum]? = some (packetType, body)

namespace SentPackets

variable {s s' : SentPackets} {seqNum : Uint16} {packetType : PacketType} {body : Bytes}

theorem Recorded.index_lt (h : s.Recorded seqNum packetType body) :
    s.seqNumIndex seqNum < s.packets.length := by
  rw [← length_chunks]
  exact (List.getElem?_eq_some_iff.mp h).1

theorem Recorded.mono (hinit : s'.initSeqNum = s.initSeqNum) (hpre : s.chunks <+: s'.chunks)
    (h : s.Recorded seqNum packetType body) : s'.Recorded seqNum packetType body := by
  obtain ⟨t, ht⟩ := hpre
  unfold Recorded
  rw [seqNumIndex_congr hinit, ← ht, List.getElem?_append_left (List.getElem?_eq_some_iff.mp h).1]
  exact h

/-- Sending a recorded packet records nothing new. -/
theorem Recorded.resent {dataLen : Uint32} {now : Time} (h : s.WF)
    (hrec : s.Recorded seqNum packetType body)
    (hok : s.onTransmit seqNum packetType body dataLen now = .ok s') : Resent s seqNum s' := by
  rcases onTransmit_ok h hok with ⟨hnext, hlen, -⟩ | hres
  · have hidx := hrec.index_lt
    rw [hnext, seqNumIndex_next s hlen] at hidx
    exact absurd hidx (lt_irrefl _)
  · exact hres

theorem recorded_transmitNew {dataLen : Uint32} {now : Time} (hlen : s.packets.length < 65536) :
    (s.transmitNew packetType body dataLen now).Recorded s.nextSeqNum packetType body := by
  have hidx : (s.transmitNew packetType body dataLen now).seqNumIndex s.nextSeqNum
      = s.chunks.length := by
    rw [length_chunks]
    exact (seqNumIndex_congr rfl _).trans (seqNumIndex_next s hlen)
  unfold Recorded
  rw [hidx, chunks_transmitNew, List.getElem?_append_right (le_refl _), Nat.sub_self]
  rfl

end SentPackets

/-- Fresh data is packed by the builder. -/
theorem mem_dataItems {seqNum : Uint16} {payloads : List Bytes} {item : Item}
    (hi : item ∈ dataItems seqNum payloads) :
    item.packetType = .st_data ∧ item.extension = none ∧ item.version = 1 := by
  induction payloads generalizing seqNum with
  | nil => cases hi
  | cons payload payloads ih =>
      rcases List.mem_cons.mp hi with rfl | hi
      · exact ⟨rfl, rfl, rfl⟩
      · exact ih hi

/-! ### The invariant -/

/-- What is in hand: packets recorded already, fresh data, or the FIN. -/
def Upcoming (e : Established) (items : List Item) : Prop :=
  (∀ item ∈ items, e.sentPackets.Recorded item.seqNum item.packetType item.body) ∨
  (e.localFin = none ∧ ∃ payloads, items = dataItems e.sentPackets.nextSeqNum payloads ∧
    ∀ payload ∈ payloads, payload ≠ []) ∨
  (items = [finItem e.sentPackets.nextSeqNum] ∧ e.localFin = some e.sentPackets.nextSeqNum)

/-- The records of a connection in the middle of a call. -/
structure Ledger (pendingWrites : List QueuedWrite) (items : List Item) (e : Established) :
    Prop where
  shape : ∀ i packetType data, e.sentPackets.chunks[i]? = some (packetType, data) →
    packetType = .st_data ∧ data ≠ [] ∨
    packetType = .st_fin ∧ data = [] ∧ i + 1 = e.sentPackets.chunks.length ∧
      e.localFin = some (e.sentPackets.initSeqNum + 1 + BitVec.ofNat 16 i)
  fin : ∀ f, e.localFin = some f → pendingWrites = [] ∧ e.sendBuf.isEmpty = true ∧
    (e.sentPackets.Recorded f .st_fin [] ∨
      items = [finItem f] ∧ f = e.sentPackets.nextSeqNum)
  hand : Upcoming e items

namespace Connection

/-- The packet is the one recorded under its number. -/
def Records (c : Connection) (p : Packet) : Prop :=
  ∃ e, c.established = some e ∧
    e.sentPackets.Recorded p.header.seqNum p.header.packetType p.body

/-- Fewer than `2 ^ 16` packets have been sent for the first time. -/
def Small (c : Connection) : Prop :=
  ∀ e, c.established = some e → e.sentPackets.packets.length < 65536

end Connection

structure Midcall.Recorded (m : Midcall) : Prop where
  ledger : ∀ e, m.conn.established = some e → Ledger m.conn.pendingWrites m.items e
  timed : ∀ p, m.conn.Timed p → p.header.packetType = .st_syn ∨ m.conn.Records p
  sent : ∀ p, m.conn.Sent p → p.header.packetType.numbered = true → m.conn.Records p
  syn : ∀ p, m.conn.Sent p → p.header.packetType = .st_syn →
    m.conn.endpoint.type = .initiator ∧ p.header.seqNum = m.conn.endpoint.synNum ∧ p.body = []
  init : m.conn.endpoint.type = .initiator → ∀ e, m.conn.established = some e →
    e.sentPackets.initSeqNum = m.conn.endpoint.synNum

/-! ### Quiet actions keep the records -/

theorem SameSender.recorded {hand : Option (List Item)} {e e' : Established}
    (h : SameSender hand e e') {seqNum : Uint16} {packetType : PacketType} {body : Bytes}
    (hrec : e.sentPackets.Recorded seqNum packetType body) :
    e'.sentPackets.Recorded seqNum packetType body :=
  hrec.mono h.init (by rw [h.chunks])

theorem SameSender.nextSeqNum {hand : Option (List Item)} {e e' : Established}
    (h : SameSender hand e e') : e'.sentPackets.nextSeqNum = e.sentPackets.nextSeqNum := by
  rw [SentPackets.nextSeqNum_eq, SentPackets.nextSeqNum_eq, h.init, h.length]

theorem SameSender.upcoming {hand : Option (List Item)} {e e' : Established} {items : List Item}
    (h : SameSender hand e e') (hup : Upcoming e items) : Upcoming e' items := by
  unfold Upcoming
  rw [h.localFin, h.nextSeqNum]
  rcases hup with hup | hup
  · exact .inl fun item hi => h.recorded (hup item hi)
  · exact .inr hup

theorem SameSender.ledger {hand : Option (List Item)} {e e' : Established} {items : List Item}
    {pendingWrites : List QueuedWrite} (h : SameSender hand e e')
    (hl : Ledger pendingWrites items e) : Ledger pendingWrites items e' where
  shape := by
    rw [h.chunks, h.localFin, h.init]
    exact hl.shape
  fin := by
    intro f hf
    rw [h.localFin] at hf
    rw [h.sendBuf, h.nextSeqNum]
    obtain ⟨hp, hb, hrec⟩ := hl.fin f hf
    exact ⟨hp, hb, hrec.imp_left h.recorded⟩
  hand := h.upcoming hl.hand

theorem Quiet.records {m m' : Midcall} (h : Quiet m m') {p : Packet} (hp : m.conn.Records p) :
    m'.conn.Records p := by
  obtain ⟨e, he, hrec⟩ := hp
  obtain ⟨e', he', hsame⟩ := h.after he
  exact ⟨e', he', hsame.recorded hrec⟩

theorem Quiet.recorded {m m' : Midcall} (h : Quiet m m') (hm : m.Recorded) : m'.Recorded where
  ledger := by
    intro e' he'
    obtain ⟨e, he, hsame⟩ := h.before he'
    rw [h.pendingWrites, Midcall.items, h.hand]
    exact hsame.ledger (hm.ledger e he)
  timed := by
    intro p hp
    exact (hm.timed p (h.timed p hp)).imp_right h.records
  sent := by
    intro p hp ht
    rcases h.sent p hp with hp | hp
    · exact h.records (hm.sent p hp ht)
    · rw [hp.numbered] at ht
      cases ht
  syn := by
    intro p hp ht
    rw [h.endpointType, h.synNum]
    rcases h.sent p hp with hp | hp
    · exact hm.syn p hp ht
    · exact hp.syn ht
  init := by
    intro hend e' he'
    obtain ⟨e, he, hsame⟩ := h.before he'
    rw [h.endpointType] at hend
    rw [h.synNum, hsame.init]
    exact hm.init hend e he

/-! ### Sending actions keep the records -/

theorem acceptsWrite_localFin {c : Connection} (hacc : c.acceptsWrite = true) {e : Established}
    (he : c.established = some e) : e.localFin = none := by
  unfold Connection.acceptsWrite at hacc
  unfold Connection.established at he
  rcases hs : c.state with - | e₁ | ⟨e₁, err⟩
  · rw [hs] at he
    cases he
  · rw [hs] at he hacc
    cases he
    unfold Established.localFin
    rcases hc : e.closing with - | closing
    · rfl
    · dsimp only at hacc
      rw [hc] at hacc
      simp only [decide_eq_true_eq] at hacc
      exact hacc.1
  · rw [hs] at hacc
    cases hacc

theorem Ledger.fin_recorded {pendingWrites : List QueuedWrite} {e : Established} {f : Uint16}
    (h : Ledger pendingWrites [] e) (hf : e.localFin = some f) :
    e.sentPackets.Recorded f .st_fin [] := by
  rcases (h.fin f hf).2.2 with hrec | ⟨hnil, -⟩
  · exact hrec
  · cases hnil

/-- Settling fresh data. -/
theorem Ledger.flush {c : Connection} {e : Established} {payloads : List Bytes} {sb : SendBuffer}
    {pendingWrites : List QueuedWrite} (h : Ledger c.pendingWrites [] e)
    (hf : Flushes c e payloads sb pendingWrites) :
    Ledger pendingWrites (dataItems e.sentPackets.nextSeqNum payloads)
      { e with sendBuf := sb } where
  shape := h.shape
  fin := by
    intro f hfin
    obtain ⟨hp, hb, -⟩ := h.fin f hfin
    obtain ⟨-, hsb, hpend⟩ := hf.drained hp hb
    exact ⟨hpend, hsb, .inl (h.fin_recorded hfin)⟩
  hand := by
    rcases hl : e.localFin with - | f
    · exact .inr (.inl ⟨hl, payloads, rfl, hf.nonempty⟩)
    · -- after the FIN is settled there is no fresh data
      obtain ⟨hp, hb, -⟩ := h.fin f hl
      obtain ⟨hnil, -⟩ := hf.drained hp hb
      refine .inl ?_
      rw [hnil]
      exact fun item hi => absurd hi List.not_mem_nil

/-- Settling the FIN. -/
theorem Ledger.pickFin {e : Established} (h : Ledger [] [] e) (hl : e.localFin = none)
    (hb : e.sendBuf.isEmpty = true) :
    Ledger [] [finItem e.sentPackets.nextSeqNum]
      { e with closing := some ⟨some e.sentPackets.nextSeqNum, e.remoteFin⟩ } where
  shape := by
    intro i packetType data hi
    rcases h.shape i packetType data hi with hdata | ⟨-, -, -, hfin⟩
    · exact .inl hdata
    · rw [hl] at hfin
      cases hfin
  fin := by
    rintro f ⟨⟩
    exact ⟨rfl, hb, .inr ⟨rfl, rfl⟩⟩
  hand := .inr (.inr ⟨rfl, rfl⟩)

/-- Sending a packet that is recorded already. -/
theorem Ledger.resend {pendingWrites : List QueuedWrite} {item : Item} {rest : List Item}
    {e : Established} {sp : SentPackets} (h : Ledger pendingWrites (item :: rest) e)
    (hall : ∀ i ∈ item :: rest, e.sentPackets.Recorded i.seqNum i.packetType i.body)
    (hres : SentPackets.Resent e.sentPackets item.seqNum sp)
    (hlen : e.sentPackets.packets.length < 65536) :
    Ledger pendingWrites rest { e with sentPackets := sp } where
  shape := by
    show ∀ i packetType data, sp.chunks[i]? = _ → _
    rw [hres.chunks, hres.init]
    exact h.shape
  fin := by
    intro f hf
    obtain ⟨hp, hb, hrec⟩ := h.fin f hf
    refine ⟨hp, hb, .inl ?_⟩
    rcases hrec with hrec | ⟨hitems, hnext⟩
    · exact hrec.mono hres.init (by rw [hres.chunks])
    · -- the FIN in hand would have to be recorded
      have hidx := (hall item (by simp)).index_lt
      rw [(List.cons.inj hitems).1] at hidx
      change e.sentPackets.seqNumIndex f < _ at hidx
      rw [hnext, SentPackets.seqNumIndex_next _ hlen] at hidx
      exact absurd hidx (lt_irrefl _)
  hand := .inl fun i hi =>
    (hall i (List.mem_cons_of_mem _ hi)).mono hres.init (by rw [hres.chunks])

theorem getElem?_append_singleton {α : Type} {l : List α} {a b : α} {i : Nat}
    (h : (l ++ [a])[i]? = some b) : l[i]? = some b ∨ i = l.length ∧ a = b := by
  rcases Nat.lt_or_ge i l.length with hi | hi
  · rw [List.getElem?_append_left hi] at h
    exact .inl h
  · rw [List.getElem?_append_right hi, List.getElem?_singleton] at h
    split at h
    · cases h
      exact .inr ⟨by omega, rfl⟩
    · cases h

/-- Sending fresh data. -/
theorem Ledger.sendData {pendingWrites : List QueuedWrite} {payload : Bytes}
    {payloads : List Bytes} {items : List Item} {e : Established} {dataLen : Uint32} {now : Time}
    (h : Ledger pendingWrites items e) (hl : e.localFin = none)
    (hne : ∀ p ∈ payload :: payloads, p ≠ []) :
    Ledger pendingWrites (dataItems (e.sentPackets.nextSeqNum + 1) payloads)
      { e with sentPackets := e.sentPackets.transmitNew .st_data payload dataLen now } where
  shape := by
    intro i packetType data hi
    rw [SentPackets.chunks_transmitNew] at hi
    rcases getElem?_append_singleton hi with hi | ⟨-, heq⟩
    · rcases h.shape i packetType data hi with hdata | ⟨-, -, -, hfin⟩
      · exact .inl hdata
      · rw [hl] at hfin
        cases hfin
    · cases heq
      exact .inl ⟨rfl, hne payload (by simp)⟩
  fin := by
    intro f hf
    change e.localFin = some f at hf
    rw [hl] at hf
    cases hf
  hand := by
    refine .inr (.inl ⟨hl, payloads, ?_, fun p hp => hne p (List.mem_cons_of_mem _ hp)⟩)
    rw [SentPackets.nextSeqNum_transmitNew]

/-- Sending the FIN. -/
theorem Ledger.sendFin {pendingWrites : List QueuedWrite} {items : List Item} {e : Established}
    {dataLen : Uint32} {now : Time} (h : Ledger pendingWrites items e)
    (hl : e.localFin = some e.sentPackets.nextSeqNum)
    (hlen : e.sentPackets.packets.length < 65536) :
    Ledger pendingWrites []
      { e with sentPackets := e.sentPackets.transmitNew .st_fin [] dataLen now } where
  shape := by
    intro i packetType data hi
    rw [SentPackets.chunks_transmitNew] at hi ⊢
    rcases getElem?_append_singleton hi with hi | ⟨rfl, heq⟩
    · rcases h.shape i packetType data hi with hdata | ⟨-, -, hlast, hfin⟩
      · exact .inl hdata
      · -- an earlier FIN would have the number of this one
        have hidx := congrArg e.sentPackets.seqNumIndex (Option.some.inj (hl.symm.trans hfin))
        rw [SentPackets.length_chunks] at hlast
        rw [SentPackets.seqNumIndex_next _ hlen,
          SentPackets.seqNumIndex_number _ (by omega)] at hidx
        omega
    · cases heq
      refine .inr ⟨rfl, rfl, ?_, ?_⟩
      · rw [List.length_append, List.length_singleton]
      · rw [SentPackets.length_chunks]
        exact hl.trans (congrArg some (SentPackets.nextSeqNum_eq _))
  fin := by
    intro f hf
    obtain rfl : e.sentPackets.nextSeqNum = f := Option.some.inj (hl.symm.trans hf)
    obtain ⟨hp, hb, -⟩ := h.fin _ hl
    exact ⟨hp, hb, .inl (SentPackets.recorded_transmitNew hlen)⟩
  hand := .inl fun item hi => absurd hi List.not_mem_nil

/-- What sending the next item does to the records: the packet sent is
recorded, and nothing recorded is lost. -/
theorem Ledger.send {pendingWrites : List QueuedWrite} {item : Item} {rest : List Item}
    {e : Established} {sp : SentPackets} {now : Time} (h : Ledger pendingWrites (item :: rest) e)
    (hwf : e.sentPackets.WF) (hlen : e.sentPackets.packets.length < 65536)
    (hok : e.sentPackets.onTransmit item.seqNum item.packetType item.body
      (BitVec.ofNat 32 item.body.length) now = .ok sp) :
    Ledger pendingWrites rest { e with sentPackets := sp } ∧
      sp.initSeqNum = e.sentPackets.initSeqNum ∧ e.sentPackets.chunks <+: sp.chunks ∧
      sp.Recorded item.seqNum item.packetType item.body := by
  rcases h.hand with hall | ⟨hl, payloads, hitems, hne⟩ | ⟨hitems, hl⟩
  · have hrec := hall item (by simp)
    have hres := hrec.resent hwf hok
    have hpre : e.sentPackets.chunks <+: sp.chunks := by rw [hres.chunks]
    exact ⟨h.resend hall hres hlen, hres.init, hpre, hrec.mono hres.init hpre⟩
  · rcases payloads with - | ⟨payload, payloads⟩
    · cases hitems
    · cases hitems
      obtain rfl := SentPackets.onTransmit_fresh hwf hlen hok
      refine ⟨h.sendData hl hne, rfl, ?_, SentPackets.recorded_transmitNew hlen⟩
      rw [SentPackets.chunks_transmitNew]
      exact List.prefix_append _ _
  · cases hitems
    obtain rfl := SentPackets.onTransmit_fresh hwf hlen hok
    refine ⟨h.sendFin hl hlen, rfl, ?_, SentPackets.recorded_transmitNew hlen⟩
    rw [SentPackets.chunks_transmitNew]
    exact List.prefix_append _ _

/-- The actions that send nothing keep the records of the packets, as long as
they keep those of the connection. -/
theorem Midcall.Recorded.of_ledger {c c' : Connection} {e e' : Established}
    {hand hand' : Option (List Item)} {w w' : Bytes} (hm : Midcall.Recorded ⟨c, hand, w⟩)
    (hs : c.state = .connected e) (hs' : c'.state = .connected e')
    (hend : c'.endpoint = c.endpoint) (htimed : ∀ p, c'.Timed p → c.Timed p)
    (hsent : c'.socketEvents = c.socketEvents) (hsp : e'.sentPackets = e.sentPackets)
    (hl : Ledger c'.pendingWrites (Midcall.items ⟨c', hand', w'⟩) e') :
    Midcall.Recorded ⟨c', hand', w'⟩ := by
  have hrec : ∀ p, c.Records p → c'.Records p := by
    rintro p ⟨e₁, he₁, hp⟩
    obtain rfl := Option.some.inj ((established_connected hs).symm.trans he₁)
    exact ⟨e', established_connected hs', hsp ▸ hp⟩
  have hsent' : ∀ p, c'.Sent p → c.Sent p := by
    intro p hp
    unfold Connection.Sent at hp ⊢
    rwa [hsent] at hp
  refine ⟨?_, ?_, ?_, ?_, ?_⟩
  · intro e₁ he₁
    obtain rfl := Option.some.inj ((established_connected hs').symm.trans he₁)
    exact hl
  · exact fun p hp => (hm.timed p (htimed p hp)).imp_right (hrec p)
  · exact fun p hp ht => hrec p (hm.sent p (hsent' p hp) ht)
  · intro p hp ht
    show c'.endpoint.type = _ ∧ _ = c'.endpoint.synNum ∧ _
    rw [hend]
    exact hm.syn p (hsent' p hp) ht
  · intro ht e₁ he₁
    obtain rfl := Option.some.inj ((established_connected hs').symm.trans he₁)
    change c'.endpoint.type = _ at ht
    show _ = c'.endpoint.synNum
    rw [hend] at ht ⊢
    rw [hsp]
    exact hm.init ht e (established_connected hs)

/-- The packet sent is recorded, and so is everything sent before. -/
theorem Midcall.Recorded.send {c : Connection} {e : Established} {item : Item} {rest : List Item}
    {w : Bytes} {p : Packet} {sp : SentPackets} {now : Time} {delay : Duration}
    (hm : Midcall.Recorded ⟨c, some (item :: rest), w⟩) (hs : c.state = .connected e)
    (hwf : e.sentPackets.WF) (hlen : e.sentPackets.packets.length < 65536)
    (hok : e.sentPackets.onTransmit item.seqNum item.packetType item.body
      (BitVec.ofNat 32 item.body.length) now = .ok sp) (hp : Carries e.recvBuf item p) :
    Midcall.Recorded ⟨({ c with
      state := .connected { e with sentPackets := sp }
      unacked := c.unacked.put item.seqNum p delay } : Connection).emit p, some rest, w⟩ := by
  obtain ⟨hl, hinit, hpre, hitem⟩ := (hm.ledger e (established_connected hs)).send hwf hlen hok
  have hnew : ∀ c' : Connection, c'.state = .connected { e with sentPackets := sp } →
      c'.Records p := by
    intro c' hs'
    refine ⟨_, established_connected hs', ?_⟩
    rw [hp.seqNum, hp.packetType, hp.body]
    exact hitem
  have hrec : ∀ (c' : Connection) q, c'.state = .connected { e with sentPackets := sp } →
      c.Records q → c'.Records q := by
    rintro c' q hs' ⟨e₁, he₁, hq⟩
    obtain rfl := Option.some.inj ((established_connected hs).symm.trans he₁)
    exact ⟨_, established_connected hs', hq.mono hinit hpre⟩
  refine ⟨?_, ?_, ?_, ?_, ?_⟩
  · rintro e' ⟨⟩
    exact hl
  · intro q hq
    rcases Connection.timed_put (c := c) hq with rfl | hq
    · exact .inr (hnew _ rfl)
    · exact (hm.timed q hq).imp_right (hrec _ q rfl)
  · intro q hq ht
    rcases Connection.sent_emit.mp hq with rfl | hq
    · exact hnew _ rfl
    · exact hrec _ q rfl (hm.sent q hq ht)
  · intro q hq ht
    rcases Connection.sent_emit.mp hq with rfl | hq
    · -- a SYN is not recorded
      have ht' : item.packetType = .st_syn := hp.packetType.symm.trans ht
      rcases hl.shape _ _ _ hitem with ⟨h, -⟩ | ⟨h, -⟩
      · cases ht'.symm.trans h
      · cases ht'.symm.trans h
    · exact hm.syn q hq ht
  · rintro ht e' ⟨⟩
    exact hinit.trans (hm.init ht e (established_connected hs))

/-- Lost packets are recorded. -/
theorem recorded_lostItems {s : SentPackets} (h : s.WF) {losts : List LostPacket}
    (hl : s.lostPacketsList = .ok losts) :
    ∀ item ∈ losts.map lostItem, s.Recorded item.seqNum item.packetType item.body := by
  obtain ⟨losts, hlist, -, hrec⟩ := SentPackets.lostPacketsList_spec h
  cases hl.symm.trans hlist
  intro item hi
  obtain ⟨lost, hlost, rfl⟩ := List.mem_map.mp hi
  obtain ⟨p, hp, ht, hd⟩ := hrec lost hlost
  have hchunk := SentPackets.chunks_getElem? hp
  rw [ht, hd] at hchunk
  exact hchunk

/-- So are packets that timed out. -/
theorem Midcall.Recorded.recorded_expired {c : Connection} {e : Established}
    {hand : Option (List Item)} {w : Bytes} {p : Packet} (hm : Midcall.Recorded ⟨c, hand, w⟩)
    (hs : c.state = .connected e) (ht : c.Timed p) (hsyn : p.header.packetType ≠ .st_syn) :
    ∀ item ∈ [expiredItem p],
      e.sentPackets.Recorded item.seqNum item.packetType item.body := by
  intro item hi
  obtain rfl := List.mem_singleton.mp hi
  obtain ⟨e₁, he₁, hrec⟩ := (hm.timed p ht).resolve_left hsyn
  obtain rfl := Option.some.inj ((established_connected hs).symm.trans he₁)
  exact hrec

theorem SendAct.recorded {guard : Guard} {m m' : Midcall}
    (h : SendAct guard m m') (hsound : m.Sound) (hsmall : m.conn.Small) (hm : m.Recorded) :
    m'.Recorded := by
  cases h with
  | enqueue data resultCh hacc =>
      refine ⟨?_, hm.timed, hm.sent, hm.syn, hm.init⟩
      intro e he
      have hl := hm.ledger e he
      refine ⟨hl.shape, ?_, hl.hand⟩
      intro f hf
      rw [acceptsWrite_localFin hacc he] at hf
      cases hf
  | flush hs hf =>
      have hl := hm.ledger _ (established_connected hs)
      exact hm.of_ledger hs rfl rfl (fun _ h => h) rfl rfl (hl.flush hf)
  | pickLost hs hl =>
      have hold := hm.ledger _ (established_connected hs)
      refine hm.of_ledger hs hs rfl (fun _ h => h) rfl rfl ⟨hold.shape, ?_, .inl ?_⟩
      · intro f hf
        exact ⟨(hold.fin f hf).1, (hold.fin f hf).2.1, .inl (hold.fin_recorded hf)⟩
      · exact recorded_lostItems (hsound _ (established_connected hs)).sentPackets hl
  | pickExpired hs ht hsyn =>
      have hold := hm.ledger _ (established_connected hs)
      refine hm.of_ledger hs hs rfl (fun _ h => h) rfl rfl ⟨hold.shape, ?_, .inl ?_⟩
      · intro f hf
        exact ⟨(hold.fin f hf).1, (hold.fin f hf).2.1, .inl (hold.fin_recorded hf)⟩
      · exact hm.recorded_expired hs ht hsyn
  | pickFin hs hl hp hb =>
      have hold := hm.ledger _ (established_connected hs)
      change Ledger (Connection.pendingWrites _) [] _ at hold
      rw [hp] at hold
      refine hm.of_ledger hs rfl rfl (fun _ h => h) rfl rfl ?_
      show Ledger (Connection.pendingWrites _) _ _
      rw [show Connection.pendingWrites _ = [] from hp]
      exact hold.pickFin hl hb
  | send hs hok hp =>
      have he := established_connected hs
      exact hm.send hs (hsound _ he).sentPackets (hsmall _ he) hok hp

/-! ### All actions keep the records -/

theorem ledger_establish (config : ConnectionConfig) (recvInit sentInit : Uint16)
    (pendingWrites : List QueuedWrite) :
    Ledger pendingWrites [] (Connection.establish config recvInit sentInit) where
  shape := by
    intro i packetType data hi
    cases hi
  fin := nofun
  hand := .inl fun item hi => absurd hi List.not_mem_nil

theorem Opens.recorded {m m' : Midcall} (h : Opens m m') (hm : m.Recorded) : m'.Recorded := by
  obtain ⟨c, hand, w⟩ := m
  obtain ⟨c', hand', w'⟩ := m'
  obtain ⟨hs, hend, ⟨recvInit, hc⟩, hhand, hhand', hw⟩ := h
  change c.state = .connecting at hs
  change c' = _ at hc
  change hand' = none at hhand'
  subst hc hhand'
  have hnone : ∀ p, ¬ c.Records p := by
    rintro p ⟨e, he, -⟩
    rw [Connection.established, hs] at he
    cases he
  refine ⟨?_, ?_, ?_, hm.syn, ?_⟩
  · rintro e ⟨⟩
    exact ledger_establish _ _ _ _
  · intro p hp
    exact .inl ((hm.timed p hp).resolve_right (hnone p))
  · intro p hp ht
    exact absurd (hm.sent p hp ht) (hnone p)
  · rintro - e ⟨⟩
    rfl

/-- The number of packets sent never falls. -/
theorem SendAct.small {guard : Guard} {m m' : Midcall}
    (h : SendAct guard m m') (hsound : m.Sound) (hsmall : m'.conn.Small) : m.conn.Small := by
  intro e he
  cases h with
  | enqueue | pickLost | pickExpired => exact hsmall e he
  | flush hs | pickFin hs =>
      obtain rfl := Option.some.inj ((established_connected hs).symm.trans he)
      have hlen := hsmall _ rfl
      exact hlen
  | send hs hok =>
      obtain rfl := Option.some.inj ((established_connected hs).symm.trans he)
      rcases SentPackets.onTransmit_ok (hsound _ he).sentPackets hok with ⟨-, hlen, -⟩ | hres
      · exact hlen
      · rw [← SentPackets.length_chunks, ← hres.chunks, SentPackets.length_chunks]
        exact hsmall _ rfl

section Actions

variable [Float64] {packet? : Option Packet} {guard : Guard} {m m' : Midcall}

theorem Act.small (h : Act packet? guard m m') (hsound : m.Sound) (hsmall : m'.conn.Small) :
    m.conn.Small := by
  intro e he
  rcases h.quiet hsound with hq | hsend | hopen
  · obtain ⟨e', he', hsame⟩ := hq.after he
    rw [← hsame.length]
    exact hsmall e' he'
  · exact hsend.small hsound hsmall e he
  · rw [Connection.established, hopen.before] at he
    cases he

/-- **Records**: while fewer than `2 ^ 16` packets have been sent, the actions
keep the records. -/
theorem Act.recorded (h : Act packet? guard m m') (hsound : m.Sound)
    (hm : m.conn.Small → m.Recorded) (hsmall : m'.conn.Small) : m'.Recorded := by
  have hbefore : m.conn.Small := h.small hsound hsmall
  rcases h.quiet hsound with hq | hsend | hopen
  · exact hq.recorded (hm hbefore)
  · exact hsend.recorded hsound hbefore (hm hbefore)
  · exact hopen.recorded (hm hbefore)

end Actions

/-- Nothing in hand is as good as an empty hand. -/
theorem Midcall.Recorded.rest {c : Connection} {hand : Option (List Item)} {w : Bytes}
    (h : Midcall.Recorded ⟨c, hand, w⟩) (hhand : hand.getD [] = []) :
    Midcall.Recorded ⟨c, none, w⟩ := by
  refine ⟨?_, h.timed, h.sent, h.syn, h.init⟩
  intro e he
  have hl := h.ledger e he
  rw [show Midcall.items ⟨c, hand, w⟩ = [] from hhand] at hl
  exact hl

/-! ### The start -/

theorem recorded_start_initiator (cid : ConnectionId) (config : ConnectionConfig) (rnd : Uint16)
    (now t₀ : Time) (w : Bytes) :
    Midcall.Recorded ⟨(newConnection cid config none rnd now).start t₀, none, w⟩ := by
  refine ⟨nofun, ?_, ?_, ?_, nofun⟩
  · exact fun p hp => .inl (timed_start hp).1
  · intro p hp ht
    rcases List.mem_singleton.mp hp with ⟨⟩
    cases ht
  · intro p hp ht
    rcases List.mem_singleton.mp hp with ⟨⟩
    exact ⟨rfl, rfl, rfl⟩

theorem recorded_start_acceptor (cid : ConnectionId) (config : ConnectionConfig) (syn : Packet)
    (rnd : Uint16) (now t₀ : Time) (w : Bytes) :
    Midcall.Recorded ⟨(newConnection cid config (some syn) rnd now).start t₀, none, w⟩ := by
  refine ⟨?_, ?_, ?_, ?_, nofun⟩
  · rintro e ⟨⟩
    exact ledger_establish _ _ _ _
  · exact fun p hp => .inl (timed_start hp).1
  · intro p hp ht
    rcases List.mem_singleton.mp hp with ⟨⟩
    cases ht
  · intro p hp ht
    rcases List.mem_singleton.mp hp with ⟨⟩
    cases ht

theorem recorded_start (cid : ConnectionId) (config : ConnectionConfig) (syn : Option Packet)
    (rnd : Uint16) (now t₀ : Time) (w : Bytes) :
    Midcall.Recorded ⟨(newConnection cid config syn rnd now).start t₀, none, w⟩ := by
  cases syn with
  | none => exact recorded_start_initiator cid config rnd now t₀ w
  | some syn => exact recorded_start_acceptor cid config syn rnd now t₀ w

end UtpGo
