/-
UtpGo/ConnStream.lean

No written byte is lost or moved on its way out: the bytes of the writes a
connection has accepted are those of the packets it has recorded, followed by
the fresh data in hand, the unread part of the send buffer and the pending
writes, in this order.

Main result: `Act.streamed`, the actions keep this.
-/
import UtpGo.ConnRecords

namespace UtpGo

/-- The bytes of the packets recorded. -/
def SentPackets.bytes (s : SentPackets) : Bytes := s.chunks.flatMap (·.2)

/-- The bytes in hand that are not recorded yet. -/
def Fresh (s : SentPackets) (items : List Item) (fresh : Bytes) : Prop :=
  (∀ item ∈ items, s.Recorded item.seqNum item.packetType item.body) ∧ fresh = [] ∨
  (∃ payloads, items = dataItems s.nextSeqNum payloads ∧ fresh = payloads.flatten) ∨
  items = [finItem s.nextSeqNum] ∧ fresh = []

/-- The bytes accepted, while there are buffers and before. -/
structure Midcall.Streamed (m : Midcall) : Prop where
  established : ∀ e, m.conn.established = some e → ∃ fresh,
    Fresh e.sentPackets m.items fresh ∧
    m.accepted = e.sentPackets.bytes ++ fresh ++ (e.sendBuf.unread ++ m.conn.queued)
  before : m.conn.established = none → m.accepted = m.conn.queued

theorem fresh_nil {s : SentPackets} {fresh : Bytes} (h : Fresh s [] fresh) : fresh = [] := by
  rcases h with ⟨-, h⟩ | ⟨payloads, hitems, rfl⟩ | ⟨hitems, -⟩
  · exact h
  · cases payloads with
    | nil => rfl
    | cons => cases hitems
  · cases hitems

theorem fresh_of_recorded {s : SentPackets} {items : List Item}
    (h : ∀ item ∈ items, s.Recorded item.seqNum item.packetType item.body) : Fresh s items [] :=
  .inl ⟨h, rfl⟩

/-! ### Sending -/

/-- The next item moves from the hand to the records, or is there already. -/
theorem Fresh.transmit {s s' : SentPackets} {item : Item} {rest : List Item} {fresh : Bytes}
    {now : Time} (h : Fresh s (item :: rest) fresh) (hwf : s.WF) (hlen : s.packets.length < 65536)
    (hok : s.onTransmit item.seqNum item.packetType item.body
      (BitVec.ofNat 32 item.body.length) now = .ok s') :
    ∃ fresh', Fresh s' rest fresh' ∧ s'.bytes ++ fresh' = s.bytes ++ fresh := by
  rcases h with ⟨hrec, rfl⟩ | ⟨payloads, hitems, rfl⟩ | ⟨hitems, rfl⟩
  · have hres := (hrec item (by simp)).resent hwf hok
    refine ⟨[], fresh_of_recorded fun i hi => ?_, ?_⟩
    · exact (hrec i (List.mem_cons_of_mem _ hi)).mono hres.init (by rw [hres.chunks])
    · rw [SentPackets.bytes, hres.chunks, SentPackets.bytes]
  · rcases payloads with - | ⟨payload, payloads⟩
    · cases hitems
    cases hitems
    obtain rfl := SentPackets.onTransmit_fresh hwf hlen hok
    refine ⟨payloads.flatten, .inr (.inl ⟨payloads, ?_, rfl⟩), ?_⟩
    · rw [SentPackets.nextSeqNum_transmitNew]
    · simp [SentPackets.bytes]
  · cases hitems
    obtain rfl := SentPackets.onTransmit_fresh hwf hlen hok
    refine ⟨[], fresh_of_recorded fun i hi => absurd hi List.not_mem_nil, ?_⟩
    simp [SentPackets.bytes, finItem]

theorem SendAct.streamed {guard : Guard} {m m' : Midcall} (h : SendAct guard m m')
    (hsound : m.Sound) (hsmall : m.conn.Small) (hrec : m.Recorded) (hm : m.Streamed) :
    m'.Streamed := by
  -- picking packets that are recorded changes nothing
  have hpick : ∀ {c : Connection} {e : Established} {items : List Item} {w : Bytes},
      m = ⟨c, none, w⟩ → c.state = .connected e →
      (∀ item ∈ items, e.sentPackets.Recorded item.seqNum item.packetType item.body) →
      Midcall.Streamed ⟨c, some items, w⟩ := by
    rintro c e items w rfl hs hall
    refine ⟨?_, fun hnone => ?_⟩
    · intro e₁ he₁
      obtain rfl := Option.some.inj ((established_connected hs).symm.trans he₁)
      obtain ⟨fresh, hfresh, heq⟩ := hm.established e he₁
      obtain rfl := fresh_nil hfresh
      exact ⟨[], fresh_of_recorded hall, heq⟩
    · cases (established_connected hs).symm.trans hnone
  cases h with
  | enqueue data resultCh hacc =>
      have hq : ∀ c : Connection, ({ c with
          pendingWrites := c.pendingWrites ++ [⟨data, 0, resultCh⟩] } : Connection).queued
            = c.queued ++ data := by
        intro c
        simp [Connection.queued]
      refine ⟨fun e he => ?_, fun hnone => ?_⟩
      · obtain ⟨fresh, hfresh, heq⟩ := hm.established e he
        refine ⟨fresh, hfresh, ?_⟩
        show _ ++ data = _
        rw [hq, ← List.append_assoc e.sendBuf.unread, ← List.append_assoc]
        exact congrArg (· ++ data) heq
      · show _ ++ data = _
        rw [hq]
        exact congrArg (· ++ data) (hm.before hnone)
  | flush hs hf =>
      refine ⟨?_, nofun⟩
      rintro e' ⟨⟩
      obtain ⟨fresh, hfresh, heq⟩ := hm.established _ (established_connected hs)
      obtain rfl := fresh_nil hfresh
      refine ⟨_, .inr (.inl ⟨_, rfl, rfl⟩), ?_⟩
      rw [List.append_nil] at heq
      rw [List.append_assoc]
      exact heq.trans (congrArg _ hf.stream)
  | pickLost hs hl =>
      exact hpick rfl hs
        (recorded_lostItems (hsound _ (established_connected hs)).sentPackets hl)
  | pickExpired hs ht hsyn => exact hpick rfl hs (hrec.recorded_expired hs ht hsyn)
  | pickFin hs =>
      refine ⟨?_, nofun⟩
      rintro e' ⟨⟩
      obtain ⟨fresh, hfresh, heq⟩ := hm.established _ (established_connected hs)
      obtain rfl := fresh_nil hfresh
      exact ⟨[], .inr (.inr ⟨rfl, rfl⟩), heq⟩
  | send hs hok hp =>
      have he := established_connected hs
      refine ⟨?_, nofun⟩
      rintro e' ⟨⟩
      obtain ⟨fresh, hfresh, heq⟩ := hm.established _ he
      obtain ⟨fresh', hfresh', heq'⟩ :=
        hfresh.transmit (hsound _ he).sentPackets (hsmall _ he) hok
      refine ⟨fresh', hfresh', ?_⟩
      show _ = SentPackets.bytes _ ++ _ ++ _
      rw [heq']
      exact heq

/-! ### All actions -/

theorem SameSender.fresh {hand : Option (List Item)} {e e' : Established} {items : List Item}
    {fresh : Bytes} (h : SameSender hand e e') (hf : Fresh e.sentPackets items fresh) :
    Fresh e'.sentPackets items fresh := by
  unfold Fresh
  rw [h.nextSeqNum]
  rcases hf with ⟨hall, hnil⟩ | hf
  · exact .inl ⟨fun item hi => h.recorded (hall item hi), hnil⟩
  · exact .inr hf

theorem Quiet.streamed {m m' : Midcall} (h : Quiet m m') (hm : m.Streamed) : m'.Streamed where
  established := by
    intro e' he'
    obtain ⟨e, he, hsame⟩ := h.before he'
    obtain ⟨fresh, hfresh, heq⟩ := hm.established e he
    refine ⟨fresh, ?_, ?_⟩
    · rw [Midcall.items, h.hand]
      exact hsame.fresh hfresh
    · have hbytes : e'.sentPackets.bytes = e.sentPackets.bytes := by
        rw [SentPackets.bytes, hsame.chunks, SentPackets.bytes]
      rw [h.accepted, heq, hsame.sendBuf, hbytes, Connection.queued, Connection.queued,
        h.pendingWrites]
  before := by
    intro hnone
    rw [h.accepted, Connection.queued, h.pendingWrites]
    refine hm.before ?_
    by_contra hsome
    obtain ⟨e, he⟩ := Option.ne_none_iff_exists'.mp hsome
    obtain ⟨e', he', -⟩ := h.after he
    cases hnone.symm.trans he'

theorem Opens.streamed {m m' : Midcall} (h : Opens m m') (hm : m.Streamed) : m'.Streamed := by
  obtain ⟨recvInit, hc⟩ := h.after
  have hnone : m.conn.established = none := by
    rw [Connection.established, h.before]
    rfl
  refine ⟨?_, ?_⟩
  · intro e he
    rw [hc] at he
    cases he
    refine ⟨[], ?_, ?_⟩
    · rw [Midcall.items, h.hand']
      exact fresh_of_recorded fun i hi => absurd hi List.not_mem_nil
    · rw [h.accepted, hm.before hnone, hc]
      rfl
  · intro hnone'
    rw [hc] at hnone'
    cases hnone'

/-- **Written bytes**: while fewer than `2 ^ 16` packets have been sent, the
actions keep the bytes accepted. -/
theorem Act.streamed [Float64] {packet? : Option Packet} {guard : Guard} {m m' : Midcall}
    (h : Act packet? guard m m') (hsound : m.Sound) (hsmall : m'.conn.Small) (hrec : m.Recorded)
    (hm : m.Streamed) : m'.Streamed := by
  rcases h.quiet hsound with hq | hsend | hopen
  · exact hq.streamed hm
  · exact hsend.streamed hsound (h.small hsound hsmall) hrec hm
  · exact hopen.streamed hm

theorem Midcall.Streamed.rest {c : Connection} {hand : Option (List Item)} {w : Bytes}
    (h : Midcall.Streamed ⟨c, hand, w⟩) (hhand : hand.getD [] = []) :
    Midcall.Streamed ⟨c, none, w⟩ := by
  refine ⟨fun e he => ?_, h.before⟩
  obtain ⟨fresh, hfresh, heq⟩ := h.established e he
  rw [show Midcall.items ⟨c, hand, w⟩ = [] from hhand] at hfresh
  exact ⟨fresh, hfresh, heq⟩

theorem streamed_start (cid : ConnectionId) (config : ConnectionConfig) (syn : Option Packet)
    (rnd : Uint16) (now t₀ : Time) :
    Midcall.Streamed ⟨(newConnection cid config syn rnd now).start t₀, none, []⟩ := by
  cases syn with
  | none => exact ⟨nofun, fun _ => rfl⟩
  | some syn =>
      refine ⟨?_, nofun⟩
      rintro e ⟨⟩
      exact ⟨[], fresh_of_recorded fun i hi => absurd hi List.not_mem_nil, rfl⟩

/-! ### What the peer may rely on -/

/-- What is recorded is a prefix of what was written. -/
theorem Midcall.Streamed.prefix_accepted {c : Connection} {e : Established} {w : Bytes}
    (h : Midcall.Streamed ⟨c, none, w⟩) (he : c.established = some e) :
    e.sentPackets.bytes <+: w := by
  obtain ⟨fresh, -, heq⟩ := h.established e he
  rw [show w = _ from heq, List.append_assoc]
  exact List.prefix_append _ _

/-- Once our FIN is settled it is everything. -/
theorem Midcall.Streamed.complete {c : Connection} {e : Established} {w : Bytes} {f : Uint16}
    (h : Midcall.Streamed ⟨c, none, w⟩) (hrec : Midcall.Recorded ⟨c, none, w⟩)
    (he : c.established = some e) (hf : e.localFin = some f) : e.sentPackets.bytes = w := by
  obtain ⟨fresh, hfresh, heq⟩ := h.established e he
  obtain rfl := fresh_nil hfresh
  obtain ⟨hp, hb, -⟩ := (hrec.ledger e he).fin f hf
  have hq : c.queued = [] := by
    rw [Connection.queued, show c.pendingWrites = [] from hp]
    rfl
  rw [show w = _ from heq, SendBuffer.unread_of_isEmpty hb, show Connection.queued _ = [] from hq,
    List.append_nil, List.append_nil, List.append_nil]

end UtpGo
