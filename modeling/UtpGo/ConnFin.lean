/-
UtpGo/ConnFin.lean

The FIN is the end of the outgoing stream.  A connection settles it once
everything written has been taken from the send buffer, under the next number,
and takes in no write after it; so nothing is left to be sent for the first
time, and what is sent from then on bears a number that has a record.

The invariant (`OneFin`) does not ask how many packets were sent.  Also when
the numbers have come round there is one number for the FIN, that of the
closing record.

Main result: `run_fin_last`.
-/
import UtpGo.ConnRecords
import UtpGo.ConnTransmit

namespace UtpGo

open Checked

/-! ### The number of the FIN -/

/-- The number of our FIN, once it is settled. -/
def Connection.localFin (c : Connection) : Option Uint16 := c.established.bind (·.localFin)

theorem Connection.localFin_established {c : Connection} {e : Established}
    (he : c.established = some e) : c.localFin = e.localFin := by
  rw [localFin, he]
  rfl

/-- One number for all FINs, and nothing fresh in hand after the FIN is
settled. -/
structure Midcall.OneFin (m : Midcall) : Prop where
  timed : ∀ p, m.conn.Timed p → m.conn.Indexed p
  sent : ∀ p, m.conn.Sent p → p.header.packetType.numbered = true → m.conn.Indexed p
  fin : ∀ p, m.conn.Timed p ∨ m.conn.Sent p → p.header.packetType = .st_fin →
    m.conn.localFin = some p.header.seqNum
  hand : ∀ item ∈ m.items, item.packetType = .st_fin → m.conn.localFin = some item.seqNum
  recorded : ∀ e, m.conn.established = some e → ∀ seqNum data,
    e.sentPackets.Recorded seqNum .st_fin data → e.localFin = some seqNum
  last : ∀ e, m.conn.established = some e → e.localFin ≠ none →
    m.conn.pendingWrites = [] ∧ e.sendBuf.isEmpty = true ∧
    ((∀ item ∈ m.items, e.sentPackets.seqNumIndex item.seqNum < e.sentPackets.packets.length) ∨
      ∃ fin, m.items = [finItem fin])

/-! ### Quiet actions -/

theorem Quiet.localFin {m m' : Midcall} (h : Quiet m m') : m'.conn.localFin = m.conn.localFin := by
  unfold Connection.localFin
  rcases he : m.conn.established with - | e
  · rcases he' : m'.conn.established with - | e'
    · rfl
    · obtain ⟨e, he₁, -⟩ := h.before he'
      cases he.symm.trans he₁
  · obtain ⟨e', he', hsame⟩ := h.after he
    rw [he']
    exact hsame.localFin

theorem Quiet.oneFin {m m' : Midcall} (h : Quiet m m') (hm : m.OneFin) : m'.OneFin where
  timed := fun p hp => h.indexed (hm.timed p (h.timed p hp))
  sent := by
    intro p hp ht
    rcases h.sent p hp with hp | hp
    · exact h.indexed (hm.sent p hp ht)
    · cases hp.numbered.symm.trans ht
  fin := by
    intro p hp ht
    rw [h.localFin]
    rcases hp with hp | hp
    · exact hm.fin p (.inl (h.timed p hp)) ht
    · rcases h.sent p hp with hp | hp
      · exact hm.fin p (.inr hp) ht
      · have hno := hp.numbered
        rw [ht] at hno
        cases hno
  hand := by
    intro item hi ht
    rw [h.localFin]
    rw [Midcall.items, h.hand] at hi
    exact hm.hand item hi ht
  recorded := by
    intro e' he' seqNum data hrec
    obtain ⟨e, he, hsame⟩ := h.before he'
    rw [hsame.localFin]
    exact hm.recorded e he seqNum data (hrec.mono hsame.init.symm (by rw [hsame.chunks]))
  last := by
    intro e' he' hfin
    obtain ⟨e, he, hsame⟩ := h.before he'
    rw [hsame.localFin] at hfin
    obtain ⟨hp, hb, hitems⟩ := hm.last e he hfin
    refine ⟨h.pendingWrites.trans hp, hsame.sendBuf ▸ hb, ?_⟩
    rw [Midcall.items, h.hand]
    simp only [SentPackets.seqNumIndex_congr hsame.init, hsame.length]
    exact hitems

/-! ### Settling and sending -/

theorem SentPackets.Recorded.of_transmitNew {s : SentPackets} {packetType packetType' : PacketType}
    {body body' : Bytes} {dataLen : Uint32} {now : Time} {seqNum : Uint16}
    (hlen : s.packets.length < 65536)
    (h : (s.transmitNew packetType body dataLen now).Recorded seqNum packetType' body') :
    s.Recorded seqNum packetType' body' ∨
      seqNum = s.nextSeqNum ∧ packetType = packetType' ∧ body = body' := by
  have hidx : (s.transmitNew packetType body dataLen now).seqNumIndex seqNum
      = s.seqNumIndex seqNum := seqNumIndex_congr rfl seqNum
  rw [Recorded, hidx, chunks_transmitNew] at h
  rcases getElem?_append_singleton h with h | ⟨hi, heq⟩
  · exact .inl h
  · cases heq
    rw [length_chunks, ← s.seqNumIndex_next hlen, seqNumIndex_inj] at hi
    exact .inr ⟨hi, rfl, rfl⟩

/-- Settling what to send. -/
theorem Midcall.OneFin.settle {c c' : Connection} {e e' : Established} {items : List Item}
    {w : Bytes} (hm : Midcall.OneFin ⟨c, none, w⟩) (hs : c.state = .connected e)
    (hs' : c'.state = .connected e') (htimed : ∀ p, c'.Timed p → c.Timed p)
    (hsent : ∀ p, c'.Sent p → c.Sent p) (hsp : e'.sentPackets = e.sentPackets)
    (hfin : ∀ fin, e.localFin = some fin → e'.localFin = some fin)
    (hhand : ∀ item ∈ items, item.packetType = .st_fin → e'.localFin = some item.seqNum)
    (hlast : e'.localFin ≠ none → c'.pendingWrites = [] ∧ e'.sendBuf.isEmpty = true ∧
      ((∀ item ∈ items, e.sentPackets.seqNumIndex item.seqNum < e.sentPackets.packets.length) ∨
        ∃ fin, items = [finItem fin])) : Midcall.OneFin ⟨c', some items, w⟩ := by
  have he := established_connected hs
  have he' := established_connected hs'
  have hloc : c'.localFin = e'.localFin := Connection.localFin_established he'
  refine ⟨?_, ?_, ?_, ?_, ?_, ?_⟩
  · exact fun p hp => (hm.timed p (htimed p hp)).of_sentPackets hs hs' hsp
  · exact fun p hp ht => (hm.sent p (hsent p hp) ht).of_sentPackets hs hs' hsp
  · intro p hp ht
    refine hloc.trans (hfin _ ?_)
    rw [← Connection.localFin_established he]
    exact hm.fin p (hp.imp (htimed p) (hsent p)) ht
  · exact fun item hi ht => hloc.trans (hhand item hi ht)
  · intro e₁ he₁ seqNum data hrec
    cases he'.symm.trans he₁
    rw [hsp] at hrec
    exact hfin _ (hm.recorded e he seqNum data hrec)
  · intro e₁ he₁ hne
    cases he'.symm.trans he₁
    rw [hsp]
    exact hlast hne

/-- Sending the next item. -/
theorem Midcall.OneFin.send {c : Connection} {e : Established} {item : Item} {rest : List Item}
    {w : Bytes} {p : Packet} {sp : SentPackets} {now : Time} {delay : Duration}
    (hm : Midcall.OneFin ⟨c, some (item :: rest), w⟩) (hs : c.state = .connected e)
    (hwf : e.sentPackets.WF)
    (hok : e.sentPackets.onTransmit item.seqNum item.packetType item.body
      (BitVec.ofNat 32 item.body.length) now = .ok sp) (hp : Carries e.recvBuf item p) :
    Midcall.OneFin ⟨({ c with
      state := .connected { e with sentPackets := sp }
      unacked := c.unacked.put item.seqNum p delay } : Connection).emit p, some rest, w⟩ := by
  have he := established_connected hs
  have hidx : ∀ x, e.sentPackets.seqNumIndex x < e.sentPackets.packets.length ∨
      x = item.seqNum → sp.seqNumIndex x < sp.packets.length :=
    fun x => SentPackets.index_lt_of_transmit hwf hok
  have hloc : c.localFin = e.localFin := Connection.localFin_established he
  have hfin : item.packetType = .st_fin → e.localFin = some item.seqNum := fun ht =>
    hloc.symm.trans (hm.hand item List.mem_cons_self ht)
  refine ⟨?_, ?_, ?_, ?_, ?_, ?_⟩
  · intro q hq
    rcases Connection.timed_put (c := c) hq with rfl | hq
    · exact .inr ⟨_, rfl, hidx _ (.inr hp.seqNum)⟩
    · exact (hm.timed q hq).of_connected hs rfl fun x hx => hidx x (.inl hx)
  · intro q hq ht
    rcases Connection.sent_emit.mp hq with rfl | hq
    · exact .inr ⟨_, rfl, hidx _ (.inr hp.seqNum)⟩
    · exact (hm.sent q hq ht).of_connected hs rfl fun x hx => hidx x (.inl hx)
  · intro q hq ht
    -- the packet is the one just sent, or it was there before
    have hcases : q = p ∨ c.Timed q ∨ c.Sent q := by
      rcases hq with hq | hq
      · exact (Connection.timed_put (c := c) hq).imp_right .inl
      · exact (Connection.sent_emit.mp hq).imp_right .inr
    rcases hcases with rfl | hq
    · show e.localFin = _
      rw [hp.seqNum]
      exact hfin (hp.packetType.symm.trans ht)
    · exact hloc.symm.trans (hm.fin q hq ht)
  · exact fun i hi ht => hloc.symm.trans (hm.hand i (List.mem_cons_of_mem _ hi) ht)
  · rintro e' ⟨⟩ seqNum data hrec
    rcases SentPackets.onTransmit_ok hwf hok with ⟨hnext, hlen, rfl⟩ | hres
    · rcases SentPackets.Recorded.of_transmitNew hlen hrec with hrec | ⟨rfl, ht, -⟩
      · exact hm.recorded e he seqNum data hrec
      · -- the record is that of the item
        rw [← hnext]
        exact hfin ht
    · exact hm.recorded e he seqNum data (hrec.mono hres.init.symm (by rw [hres.chunks]))
  · rintro e' ⟨⟩ hne
    obtain ⟨hpend, hb, hitems⟩ := hm.last e he hne
    refine ⟨hpend, hb, .inl fun i hi => ?_⟩
    rcases hitems with hall | ⟨fin, hone⟩
    · exact hidx _ (.inl (hall i (List.mem_cons_of_mem _ hi)))
    · rw [(List.cons.inj hone).2] at hi
      cases hi

/-- A packet that timed out has a record. -/
theorem Midcall.OneFin.index_expired {c : Connection} {e : Established}
    {hand : Option (List Item)} {w : Bytes} {p : Packet} (hm : Midcall.OneFin ⟨c, hand, w⟩)
    (hs : c.state = .connected e) (ht : c.Timed p) (hsyn : p.header.packetType ≠ .st_syn) :
    e.sentPackets.seqNumIndex p.header.seqNum < e.sentPackets.packets.length := by
  obtain ⟨e₁, he₁, hidx⟩ := (hm.timed p ht).resolve_left hsyn
  cases (established_connected hs).symm.trans he₁
  exact hidx

theorem SendAct.oneFin {guard : Guard} {m m' : Midcall} (h : SendAct guard m m')
    (hsound : m.Sound) (hm : m.OneFin) : m'.OneFin := by
  -- settling something in the same state
  have hsame : ∀ {c : Connection} {e : Established} {items : List Item} {w : Bytes},
      m = ⟨c, none, w⟩ → c.state = .connected e →
      (∀ item ∈ items, item.packetType = .st_fin → e.localFin = some item.seqNum) →
      (∀ item ∈ items,
        e.sentPackets.seqNumIndex item.seqNum < e.sentPackets.packets.length) →
      Midcall.OneFin ⟨c, some items, w⟩ := by
    rintro c e items w rfl hs hfin hidx
    refine hm.settle hs hs (fun _ h => h) (fun _ h => h) rfl (fun _ h => h) hfin fun hne => ?_
    obtain ⟨hp, hb, -⟩ := hm.last e (established_connected hs) hne
    exact ⟨hp, hb, .inl hidx⟩
  cases h with
  | enqueue data resultCh hacc =>
      refine ⟨hm.timed, hm.sent, hm.fin, hm.hand, hm.recorded, fun e he hne => ?_⟩
      exact absurd (acceptsWrite_localFin hacc he) hne
  | flush hs hf =>
      refine hm.settle hs rfl (fun _ h => h) (fun _ h => h) rfl (fun _ h => h) ?_ fun hne => ?_
      · intro item hi ht
        cases (mem_dataItems hi).1.symm.trans ht
      · -- the FIN is settled: there is nothing to take from the buffer
        obtain ⟨hp, hb, -⟩ := hm.last _ (established_connected hs) hne
        obtain ⟨rfl, hsb, hpend⟩ := hf.drained hp hb
        exact ⟨hpend, hsb, .inl fun item hi => absurd hi List.not_mem_nil⟩
  | pickLost hs hl =>
      have he := established_connected hs
      have hrec := recorded_lostItems (hsound _ he).sentPackets hl
      refine hsame rfl hs (fun item hi ht => ?_) fun item hi => (hrec item hi).index_lt
      exact hm.recorded _ he _ _ (ht ▸ hrec item hi)
  | pickExpired hs ht hsyn =>
      have he := established_connected hs
      refine hsame rfl hs (fun item hi hfin => ?_) fun item hi => ?_
      · obtain rfl := List.mem_singleton.mp hi
        exact (Connection.localFin_established he).symm.trans (hm.fin _ (.inl ht) hfin)
      · obtain rfl := List.mem_singleton.mp hi
        exact hm.index_expired hs ht hsyn
  | pickFin hs hl hp hb =>
      refine hm.settle hs rfl (fun _ h => h) (fun _ h => h) rfl (fun fin hfin => ?_) ?_ fun _ => ?_
      · cases hl.symm.trans hfin
      · intro item hi _
        obtain rfl := List.mem_singleton.mp hi
        rfl
      · exact ⟨hp, hb, .inr ⟨_, rfl⟩⟩
  | send hs hok hp =>
      exact hm.send hs (hsound _ (established_connected hs)).sentPackets hok hp

theorem Opens.oneFin {m m' : Midcall} (h : Opens m m') (hm : m.OneFin) : m'.OneFin := by
  obtain ⟨recvInit, hc⟩ := h.after
  have hnone : m.conn.established = none := congrArg ConnState.established h.before
  have hno : ∀ seqNum, m.conn.localFin ≠ some seqNum := by
    intro seqNum hfin
    rw [Connection.localFin, hnone] at hfin
    cases hfin
  have hsyn : ∀ p, m.conn.Indexed p → p.header.packetType = .st_syn := by
    intro p hp
    refine hp.resolve_right ?_
    rintro ⟨e, he, -⟩
    cases hnone.symm.trans he
  refine ⟨?_, ?_, ?_, ?_, ?_, ?_⟩
  · intro p hp
    rw [hc] at hp
    exact .inl (hsyn p (hm.timed p hp))
  · intro p hp ht
    rw [hc] at hp
    exact .inl (hsyn p (hm.sent p hp ht))
  · intro p hp ht
    rw [hc] at hp
    exact absurd (hm.fin p hp ht) (hno _)
  · intro item hi
    rw [Midcall.items, h.hand'] at hi
    cases hi
  · intro e he seqNum data hrec
    rw [hc] at he
    cases he
    cases hrec
  · intro e he hne
    rw [hc] at he
    cases he
    exact absurd rfl hne

theorem Act.oneFin [Float64] {packet? : Option Packet} {guard : Guard} {m m' : Midcall}
    (h : Act packet? guard m m') (hsound : m.Sound) (hm : m.OneFin) : m'.OneFin := by
  rcases h.quiet hsound with hq | hsend | hopen
  · exact hq.oneFin hm
  · exact hsend.oneFin hsound hm
  · exact hopen.oneFin hm

theorem Midcall.OneFin.rest {c : Connection} {hand : Option (List Item)} {w : Bytes}
    (h : Midcall.OneFin ⟨c, hand, w⟩) : Midcall.OneFin ⟨c, none, w⟩ := by
  refine ⟨h.timed, h.sent, h.fin, fun _ hi => absurd hi List.not_mem_nil, h.recorded, ?_⟩
  intro e he hne
  obtain ⟨hp, hb, -⟩ := h.last e he hne
  exact ⟨hp, hb, .inl fun _ hi => absurd hi List.not_mem_nil⟩

theorem oneFin_start (cid : ConnectionId) (config : ConnectionConfig) (syn : Option Packet)
    (rnd : Uint16) (now t₀ : Time) (w : Bytes) :
    Midcall.OneFin ⟨(newConnection cid config syn rnd now).start t₀, none, w⟩ := by
  have htimed : ∀ p, ((newConnection cid config syn rnd now).start t₀).Timed p →
      p.header.packetType = .st_syn := fun p hp => (timed_start hp).1
  have hsent : ∀ p, ((newConnection cid config syn rnd now).start t₀).Sent p →
      p.header.packetType.numbered = false := by
    intro p hp
    cases syn <;> rcases List.mem_singleton.mp hp with ⟨⟩ <;> rfl
  refine ⟨fun p hp => .inl (htimed p hp), ?_, ?_, fun _ hi => absurd hi List.not_mem_nil, ?_, ?_⟩
  · intro p hp ht
    cases (hsent p hp).symm.trans ht
  · rintro p (hp | hp) ht
    · cases (htimed p hp).symm.trans ht
    · have hno := hsent p hp
      rw [ht] at hno
      cases hno
  · intro e he seqNum data hchunk
    cases syn <;> cases he
    cases hchunk
  · intro e he hne
    cases syn <;> cases he
    exact absurd rfl hne

/-! ### After the FIN -/

/-- Our FIN is settled, nothing fresh is in hand, and as many packets have a
record as in `e₀`. -/
def Midcall.Spent (e₀ : Established) (m : Midcall) : Prop :=
  ∃ e, m.conn.established = some e ∧ e.localFin ≠ none ∧
    e.sentPackets.initSeqNum = e₀.sentPackets.initSeqNum ∧
    e.sentPackets.packets.length = e₀.sentPackets.packets.length ∧
    ∀ item ∈ m.items, e.sentPackets.seqNumIndex item.seqNum < e.sentPackets.packets.length

theorem SendAct.spent {guard : Guard} {m m' : Midcall} {e₀ : Established}
    (h : SendAct guard m m') (hsound : m.Sound) (hone : m.OneFin) (hm : m.Spent e₀) :
    m'.Spent e₀ := by
  obtain ⟨e₁, he₁, hne, hinit, hlen, hitems⟩ := hm
  have hsame : ∀ {c : Connection} {hand w} {e : Established}, m = ⟨c, hand, w⟩ →
      c.state = .connected e → e = e₁ := by
    rintro c hand w e rfl hs
    exact Option.some.inj ((established_connected hs).symm.trans he₁)
  cases h with
  | enqueue => exact ⟨e₁, he₁, hne, hinit, hlen, hitems⟩
  | flush hs hf =>
      obtain rfl := hsame rfl hs
      obtain ⟨hp, hb, -⟩ := hone.last _ he₁ hne
      obtain ⟨rfl, -, -⟩ := hf.drained hp hb
      exact ⟨_, rfl, hne, hinit, hlen, fun item hi => absurd hi List.not_mem_nil⟩
  | pickLost hs hl =>
      obtain rfl := hsame rfl hs
      have hrec := recorded_lostItems (hsound _ he₁).sentPackets hl
      exact ⟨_, he₁, hne, hinit, hlen, fun item hi => (hrec item hi).index_lt⟩
  | pickExpired hs ht hsyn =>
      obtain rfl := hsame rfl hs
      refine ⟨_, he₁, hne, hinit, hlen, fun item hi => ?_⟩
      obtain rfl := List.mem_singleton.mp hi
      exact hone.index_expired hs ht hsyn
  | pickFin hs hl =>
      obtain rfl := hsame rfl hs
      exact absurd hl hne
  | send hs hok =>
      obtain rfl := hsame rfl hs
      rcases SentPackets.onTransmit_ok (hsound _ he₁).sentPackets hok with
        ⟨hnext, hlt, -⟩ | hres
      · -- the next number has no record, but the item has one
        have hidx := hitems _ List.mem_cons_self
        rw [hnext, SentPackets.seqNumIndex_next _ hlt] at hidx
        exact absurd hidx (lt_irrefl _)
      · have hlen' : _ = _ := congrArg List.length hres.chunks
        rw [SentPackets.length_chunks, SentPackets.length_chunks] at hlen'
        refine ⟨_, rfl, hne, hres.init.trans hinit, hlen'.trans hlen, fun i hi => ?_⟩
        show SentPackets.seqNumIndex _ _ < List.length _
        rw [hlen', SentPackets.seqNumIndex_congr hres.init]
        exact hitems i (List.mem_cons_of_mem _ hi)

theorem Act.spent [Float64] {packet? : Option Packet} {guard : Guard} {m m' : Midcall}
    {e₀ : Established} (h : Act packet? guard m m') (hsound : m.Sound) (hone : m.OneFin)
    (hm : m.Spent e₀) : m'.Spent e₀ := by
  rcases h.quiet hsound with hq | hsend | hopen
  · obtain ⟨e, he, hne, hinit, hlen, hitems⟩ := hm
    obtain ⟨e', he', hsame⟩ := hq.after he
    refine ⟨e', he', hsame.localFin ▸ hne, hsame.init.trans hinit, hsame.length.trans hlen, ?_⟩
    rw [Midcall.items, hq.hand]
    simp only [SentPackets.seqNumIndex_congr hsame.init, hsame.length]
    exact hitems
  · exact hsend.spent hsound hone hm
  · obtain ⟨e, he, -⟩ := hm
    rw [Connection.established, hopen.before] at he
    cases he

theorem SentPackets.WF.exists_record {s : SentPackets} (h : s.WF) {seqNum : Uint16}
    (hidx : s.seqNumIndex seqNum < s.packets.length) : ∃ r ∈ s.packets, r.seqNum = seqNum := by
  have hr := List.getElem?_eq_getElem hidx
  refine ⟨_, List.getElem_mem hidx, ?_⟩
  rw [h.number _ _ hr, number_seqNumIndex]

/-! ### The end of the stream -/

namespace Connection

variable {c c' : Connection} {now : Time}

/-- What `shutdown` sends: nothing, or the FIN when nothing waits. -/
theorem shutdown_emits (hok : c.shutdown now = .ok c') : c'.socketEvents = c.socketEvents ∨
    ∃ e p, c.state = .connected e ∧ c.pendingWrites = [] ∧ e.sendBuf.isEmpty = true ∧
      p.header.packetType = .st_fin ∧ c'.socketEvents = c.socketEvents ++ [.outgoing p] := by
  rcases shutdown_inv hok with rfl | ⟨-, rfl⟩ | ⟨e, -, -, rfl⟩ | ⟨e, hs, -, hp, hb, htransmit⟩
  · exact .inl rfl
  · exact .inl rfl
  · exact .inl rfl
  · have hemits := transmit_emits htransmit
    exact .inr ⟨e, c.finPacket e now, hs, hp, hb, rfl, hemits⟩

/-- **The FIN is the end of the stream.**  In every state that a run leads to:
`shutdown` sends its FIN only while nothing is queued and the send buffer is
empty; all FINs sent bear one number; and once a FIN was sent, every DATA and
every FIN sent before or after, whatever happens, bears a number that has a
record already. -/
theorem run_fin_last [Float64] (cid : ConnectionId) (config : ConnectionConfig)
    (syn : Option Packet) (rnd : Uint16) (now t₀ : Time) {events : List Event}
    (hrun : ((newConnection cid config syn rnd now).start t₀).run events = .ok c) :
    (∀ t c', c.shutdown t = .ok c' → c'.socketEvents = c.socketEvents ∨
      ∃ e p, c.state = .connected e ∧ c.pendingWrites = [] ∧ e.sendBuf.isEmpty = true ∧
        p.header.packetType = .st_fin ∧ c'.socketEvents = c.socketEvents ++ [.outgoing p]) ∧
    (∀ p q, c.Sent p → c.Sent q → p.header.packetType = .st_fin →
      q.header.packetType = .st_fin → p.header.seqNum = q.header.seqNum) ∧
    ∀ p, c.Sent p → p.header.packetType = .st_fin → ∃ e, c.established = some e ∧
      ∀ more c', c.run more = .ok c' → ∀ q, c'.Sent q → q.header.packetType.numbered = true →
        ∃ r ∈ e.sentPackets.packets, r.seqNum = q.header.seqNum := by
  obtain ⟨w, hsound, hone⟩ := run_inv (I := Midcall.OneFin)
    (fun _ _ _ hact hs hm => hact.oneFin hs hm) (fun _ _ _ _ hm => hm.rest)
    (along_unguarded _ events) (sound_start cid config syn rnd now t₀ [])
    (oneFin_start cid config syn rnd now t₀ []) hrun
  refine ⟨fun t c' hok => shutdown_emits hok, fun p q hp hq htp htq => ?_, fun p hp ht => ?_⟩
  · exact Option.some.inj ((hone.fin p (.inr hp) htp).symm.trans (hone.fin q (.inr hq) htq))
  · obtain ⟨e, he, hfin⟩ := Option.bind_eq_some_iff.mp (hone.fin p (.inr hp) ht)
    refine ⟨e, he, fun more c' hmore q hq htq => ?_⟩
    have hne : e.localFin ≠ none := by
      rw [hfin]
      exact Option.some_ne_none _
    -- from here on nothing is recorded
    obtain ⟨w', -, hone', e', he', -, hinit, hlen, -⟩ := run_inv
      (I := fun m => m.OneFin ∧ m.Spent e)
      (fun _ _ _ hact hs hm => ⟨hact.oneFin hs hm.1, hact.spent hs hm.1 hm.2⟩)
      (fun _ _ _ _ hm => ⟨hm.1.rest, by
        obtain ⟨e', he', hne', hinit, hlen, -⟩ := hm.2
        exact ⟨e', he', hne', hinit, hlen, fun _ hi => absurd hi List.not_mem_nil⟩⟩)
      (along_unguarded _ more) hsound
      ⟨hone, e, he, hne, rfl, rfl, fun _ hi => absurd hi List.not_mem_nil⟩ hmore
    rcases hone'.sent q hq htq with hsyn | ⟨e₁, he₁, hidx⟩
    · rw [hsyn] at htq
      cases htq
    · cases he'.symm.trans he₁
      rw [SentPackets.seqNumIndex_congr hinit, hlen] at hidx
      exact (hsound e he).sentPackets.exists_record hidx

/-- A byte and the FIN are sent, as 5 and 6.  Another write and another
`shutdown` send nothing new. -/
theorem run_fin_last_write : ∃ c c' p e, @run exactFloat64 sampleAcceptor
      [.onWrite [7] 0 0, .processWrites 0, .shutdown 0] = .ok c ∧
    @run exactFloat64 c [.onWrite [8] 1 0, .processWrites 0, .shutdown 0] = .ok c' ∧
    c.Sent p ∧ p.header.packetType = .st_fin ∧ p.header.seqNum = 6 ∧ c.established = some e ∧
    ∀ q, c'.Sent q → q.header.packetType.numbered = true →
      ∃ r ∈ e.sentPackets.packets, r.seqNum = q.header.seqNum := by
  have hrun : ∃ c c' p, @run exactFloat64 sampleAcceptor
        [.onWrite [7] 0 0, .processWrites 0, .shutdown 0] = .ok c ∧
      @run exactFloat64 c [.onWrite [8] 1 0, .processWrites 0, .shutdown 0] = .ok c' ∧
      c.socketEvents.getLast? = some (.outgoing p) ∧
      p.header.packetType = .st_fin ∧ p.header.seqNum = 6 :=
    ⟨_, _, _, rfl, rfl, rfl, rfl, rfl⟩
  let := exactFloat64
  obtain ⟨c, c', p, hwait, hmore, hlast, ht, hnum⟩ := hrun
  have hsent : c.Sent p := List.mem_of_getLast? hlast
  obtain ⟨-, -, hfin⟩ := run_fin_last _ _ _ _ _ _ hwait
  obtain ⟨e, he, hrecords⟩ := hfin p hsent ht
  exact ⟨c, c', p, e, hwait, hmore, hsent, ht, hnum, he, hrecords _ c' hmore⟩

end Connection

end UtpGo
