/-
UtpGo/PairShake.lean

The handshake of a pair of connections.  A connection shows its peer a `View`
that only grows: the packets it has numbered, and the numbers it has accepted.
The initiator takes the number of the acceptor's stream from the first STATE
packet that acknowledges its SYN.  The acceptor answers nothing but packets of
the stream, of which the initiator sends none before it is connected, so that
this STATE packet is the one of the acceptor's start (`OfHandshake.state`).

Main results: `Act.view_le`, the view grows with every action, and
`Act.shaken`, the numbers of both streams are those of the handshake.
-/
import UtpGo.ConnRecords

namespace UtpGo

open Circular

/-! ### The numbers of a pair -/

def EndpointType.other : EndpointType → EndpointType
  | .initiator => .acceptor
  | .acceptor => .initiator

/-- The two numbers of the handshake. -/
structure Handshake where
  synNum : Uint16
  synAck : Uint16

/-- The first number of the stream of an end. -/
def Handshake.first (h : Handshake) : EndpointType → Uint16
  | .initiator => h.synNum + 1
  | .acceptor => h.synAck

section Numbers

variable {init first x : Uint16}

theorem ahead_init (h : init + 1 = first) (hx : ahead first x < 65535) :
    ahead init x = ahead first x + 1 := by
  subst h
  unfold ahead at hx ⊢
  bv_omega

theorem ahead_first_lt {n : Nat} (h : init + 1 = first) (hn : n < 65536) :
    ahead first x < n ↔ 1 ≤ ahead init x ∧ ahead init x ≤ n := by
  subst h
  unfold ahead
  bv_omega

theorem ahead_first_succ (h : init + 1 = first) : ahead first (x + 1) = ahead init x := by
  subst h
  unfold ahead
  bv_omega

theorem SentPackets.seqNumIndex_eq_ahead {s : SentPackets} (h : s.initSeqNum + 1 = first) :
    s.seqNumIndex x = ahead first x := by
  rw [seqNumIndex_eq, ← h, ahead]
  congr 1
  ring

end Numbers

/-! ### Views -/

/-- What an end shows to its peer. -/
structure View where
  chunks : List (PacketType × Bytes)
  accepted : Set Uint16

namespace View

instance : Preorder View where
  le u v := u.chunks <+: v.chunks ∧ u.accepted ⊆ v.accepted
  le_refl u := ⟨List.prefix_refl _, subset_rfl⟩
  le_trans _ _ _ h h' := ⟨h.1.trans h'.1, h.2.trans h'.2⟩

variable {u v : View}

theorem getElem?_mono (h : u ≤ v) {i : Nat} {chunk : PacketType × Bytes}
    (hi : u.chunks[i]? = some chunk) : v.chunks[i]? = some chunk := by
  obtain ⟨t, ht⟩ := h.1
  rw [← ht, List.getElem?_append_left (List.getElem?_eq_some_iff.mp hi).1]
  exact hi

/-- The body of each packet. -/
def chunk (v : View) (k : Nat) : Option Bytes := (v.chunks[k]?).map (·.2)

theorem chunk_mono (h : u ≤ v) (k : Nat) (body : Bytes) (hk : u.chunk k = some body) :
    v.chunk k = some body := by
  obtain ⟨⟨packetType, data⟩, hchunk, rfl⟩ := Option.map_eq_some_iff.mp hk
  rw [chunk, getElem?_mono h hchunk]
  rfl

/-- Data comes first, and the FIN last. -/
structure Proper (v : View) : Prop where
  length : v.chunks.length < 65534
  shape : ∀ i packetType data, v.chunks[i]? = some (packetType, data) →
    packetType = .st_data ∧ data ≠ [] ∨
    packetType = .st_fin ∧ data = [] ∧ i + 1 = v.chunks.length

theorem Proper.lt (h : v.Proper) {i : Nat} {chunk : PacketType × Bytes}
    (hi : v.chunks[i]? = some chunk) : i < 65534 :=
  (List.getElem?_eq_some_iff.mp hi).1.trans h.length

end View

def Established.view (e : Established) : View :=
  ⟨e.sentPackets.chunks, {x | e.recvBuf.Holds x}⟩

def Connection.view (c : Connection) : View := c.established.elim ⟨[], ∅⟩ Established.view

theorem Connection.view_established {c : Connection} {e : Established}
    (he : c.established = some e) : c.view = e.view := by
  rw [view, he]
  rfl

theorem Connection.view_congr {c c' : Connection} (h : c'.established = c.established) :
    c'.view = c.view := by
  rw [view, view, h]

theorem Connection.view_connecting {c : Connection} (hs : c.state = .connecting) :
    c.view = ⟨[], ∅⟩ := by
  rw [view, established, hs]
  rfl

/-! ### The view grows -/

theorem view_le_of_connected {c c' : Connection} {e e' : Established} (hs : c.state = .connected e)
    (hs' : c'.state = .connected e') (hpre : e.sentPackets.chunks <+: e'.sentPackets.chunks)
    (hholds : ∀ x, e.recvBuf.Holds x → e'.recvBuf.Holds x) : c.view ≤ c'.view := by
  rw [Connection.view_established (established_connected hs),
    Connection.view_established (established_connected hs')]
  exact ⟨hpre, hholds⟩

theorem ReceiveBuffer.Holds.write {rb rb' : ReceiveBuffer} (h : rb.WF) {data : Bytes}
    {seqNum : Uint16} {err : Option RecvError} (hw : rb.write data seqNum = .ok (rb', err))
    {x : Uint16} (hx : rb.Holds x) : rb'.Holds x := by
  obtain ⟨rb₁, err₁, hw₁, hout⟩ := rb.write_spec h data seqNum
  cases hw₁.symm.trans hw
  rcases hout with ⟨-, -, hwrote⟩ | ⟨-, rfl, -⟩
  · exact (hwrote.holds x).mpr (.inr hx)
  · exact hx

theorem SendAct.view_le {guard : Guard} {m m' : Midcall} (h : SendAct guard m m')
    (hsound : m.Sound) : m.conn.view ≤ m'.conn.view := by
  cases h with
  | enqueue | pickLost | pickExpired => exact le_rfl
  | flush hs | pickFin hs => exact view_le_of_connected hs rfl (List.prefix_refl _) fun _ h => h
  | send hs hok =>
      have hwf := (hsound _ (established_connected hs)).sentPackets
      exact view_le_of_connected hs rfl (SentPackets.transmitted_of_ok hwf hok).chunks fun _ h => h

/-- The view grows with every action. -/
theorem Act.view_le [Float64] {packet? : Option Packet} {guard : Guard} {m m' : Midcall}
    (h : Act packet? guard m m') (hsound : m.Sound) : m.conn.view ≤ m'.conn.view := by
  cases h with
  | sends h => exact h.view_le hsound
  | book h => exact (Connection.view_congr (congrArg ConnState.established h.state)).ge
  | emitState | emitReset | emitSyn | endOfStream | closedRead => exact le_rfl
  | backOff hs | beginClosing hs =>
      exact view_le_of_connected hs rfl (List.prefix_refl _) fun _ h => h
  | recvData _ _ hs _ hw | recvFin _ _ hs _ hw =>
      have hwf := (hsound _ (established_connected hs)).recvBuf
      exact view_le_of_connected hs rfl (List.prefix_refl _) fun _ hx => hx.write hwf hw
  | readOut _ hs hr =>
      have hdid := ReceiveBuffer.didRead_of_ok (hsound _ (established_connected hs)).recvBuf hr
      exact view_le_of_connected hs rfl (List.prefix_refl _) fun x hx => (hdid.holds x).mpr hx
  | acked _ _ hs hok =>
      have hacks := (SentPackets.acks_of_ok (hsound _ (established_connected hs)).sentPackets hok).1
      refine view_le_of_connected hs rfl ?_ fun _ h => h
      rw [hacks.chunks]
  | close _ h =>
      refine le_of_eq (Connection.view_congr ?_).symm
      exact h.established
  | establish _ _ hs =>
      rw [Connection.view_connecting hs]
      exact ⟨List.nil_prefix, Set.empty_subset _⟩

/-! ### The types of packets -/

/-- What is recorded, timed or in hand is part of the stream, but for the SYN
of the initiator. -/
structure Midcall.Typed (m : Midcall) : Prop where
  chunks : ∀ e, m.conn.established = some e → ∀ chunk ∈ e.sentPackets.chunks,
    chunk.1.numbered = true
  timed : ∀ p, m.conn.Timed p →
    p.header.packetType = .st_syn ∨ p.header.packetType.numbered = true
  items : ∀ item ∈ m.items, item.packetType.numbered = true

theorem Quiet.typed {m m' : Midcall} (h : Quiet m m') (hm : m.Typed) : m'.Typed where
  chunks := by
    intro e' he'
    obtain ⟨e, he, hsame⟩ := h.before he'
    rw [hsame.chunks]
    exact hm.chunks e he
  timed := fun p hp => hm.timed p (h.timed p hp)
  items := by
    rw [Midcall.items, h.hand]
    exact hm.items

theorem SendAct.typed {guard : Guard} {m m' : Midcall} (h : SendAct guard m m')
    (hsound : m.Sound) (hm : m.Typed) : m'.Typed := by
  cases h with
  | enqueue => exact ⟨hm.chunks, hm.timed, hm.items⟩
  | flush hs =>
      refine ⟨?_, hm.timed, fun item hi => ?_⟩
      swap
      · rw [(mem_dataItems hi).1]
        rfl
      rintro e ⟨⟩
      have hold := hm.chunks _ (established_connected hs)
      exact hold
  | pickLost hs hl =>
      refine ⟨hm.chunks, hm.timed, fun item hi => ?_⟩
      have he := established_connected hs
      have hrec := recorded_lostItems (hsound _ he).sentPackets hl item hi
      exact hm.chunks _ he _ (List.mem_of_getElem? hrec)
  | pickExpired _ ht hsyn =>
      refine ⟨hm.chunks, hm.timed, fun item hi => ?_⟩
      obtain rfl := List.mem_singleton.mp hi
      exact (hm.timed _ ht).resolve_left hsyn
  | pickFin hs =>
      refine ⟨?_, hm.timed, fun item hi => ?_⟩
      · rintro e ⟨⟩
        have hold := hm.chunks _ (established_connected hs)
        exact hold
      · obtain rfl := List.mem_singleton.mp hi
        rfl
  | @send c _ _ _ _ _ _ _ _ hs hok hp =>
      have he := established_connected hs
      have hitem := hm.items _ List.mem_cons_self
      refine ⟨?_, ?_, fun item hi => hm.items item (List.mem_cons_of_mem _ hi)⟩
      · rintro e ⟨⟩
        exact SentPackets.forall_chunks_of_transmit (hsound _ he).sentPackets (hm.chunks _ he)
          hitem hok
      · intro q hq
        rcases Connection.timed_put (c := c) hq with rfl | hq
        · rw [hp.packetType]
          exact .inr hitem
        · exact hm.timed q hq

theorem Opens.typed {m m' : Midcall} (h : Opens m m') (hm : m.Typed) : m'.Typed := by
  obtain ⟨recvInit, hc⟩ := h.after
  refine ⟨?_, ?_, ?_⟩
  · intro e he
    rw [hc] at he
    cases he
    exact fun chunk hchunk => absurd hchunk List.not_mem_nil
  · rw [hc]
    exact hm.timed
  · rw [Midcall.items, h.hand']
    exact fun item hi => absurd hi List.not_mem_nil

theorem Act.typed [Float64] {packet? : Option Packet} {guard : Guard} {m m' : Midcall}
    (h : Act packet? guard m m') (hsound : m.Sound) (hm : m.Typed) : m'.Typed := by
  rcases h.quiet hsound with hq | hsend | hopen
  · exact hq.typed hm
  · exact hsend.typed hsound hm
  · exact hopen.typed hm

theorem Midcall.Typed.rest {c : Connection} {hand : Option (List Item)} {w : Bytes}
    (h : Midcall.Typed ⟨c, hand, w⟩) : Midcall.Typed ⟨c, none, w⟩ :=
  ⟨h.chunks, h.timed, fun _ hi => absurd hi List.not_mem_nil⟩

theorem typed_start (cid : ConnectionId) (config : ConnectionConfig) (syn : Option Packet)
    (rnd : Uint16) (now t₀ : Time) (w : Bytes) :
    Midcall.Typed ⟨(newConnection cid config syn rnd now).start t₀, none, w⟩ := by
  refine ⟨?_, fun p hp => .inl (timed_start hp).1, fun _ hi => absurd hi List.not_mem_nil⟩
  cases syn with
  | none => nofun
  | some syn =>
      rintro e ⟨⟩ chunk hchunk
      exact absurd hchunk List.not_mem_nil

/-! ### The handshake -/

/-- What a packet from an end `t` says about the handshake; `u` is the view of
its sender and `v` that of the end it is sent to.  A STATE packet of the
acceptor carries the number of the handshake, unless the initiator has passed
the handshake. -/
structure OfHandshake (h : Handshake) (t : EndpointType) (u v : View) (p : Packet) : Prop where
  noReset : p.header.packetType ≠ .st_reset
  syn : p.header.packetType = .st_syn → t = .initiator ∧ p.header.seqNum = h.synNum
  stream : p.header.packetType.numbered = true → u.chunks ≠ []
  state : p.header.packetType = .st_state → t = .acceptor →
    p.header.seqNum = h.synAck ∨ v.chunks ≠ []

/-- The buffers of an end start from the numbers of the handshake. -/
structure Numbered (h : Handshake) (t : EndpointType) (e : Established) : Prop where
  sent : e.sentPackets.initSeqNum + 1 = h.first t
  recv : e.recvBuf.initSeqNum + 1 = h.first t.other

/-- An end `t` whose peer has the view `v`. -/
structure Midcall.Shaken (h : Handshake) (t : EndpointType) (v : View) (m : Midcall) : Prop where
  type : m.conn.endpoint.type = t
  synNum : m.conn.endpoint.synNum = h.synNum
  synAck : t = .acceptor → m.conn.endpoint.synAck = h.synAck
  acceptor : t = .acceptor → m.conn.established ≠ none ∧ m.conn.synState.isSome
  numbers : ∀ e, m.conn.established = some e → Numbered h t e
  sent : ∀ p, m.conn.Sent p → OfHandshake h t m.conn.view v p

section Shaken

variable {h : Handshake} {t : EndpointType} {u u' v v' : View} {p : Packet} {m m' : Midcall}

theorem View.ne_nil_mono (hle : u ≤ v) (hu : u.chunks ≠ []) : v.chunks ≠ [] :=
  fun hnil => hu (List.prefix_nil.mp (hnil ▸ hle.1))

theorem OfHandshake.mono (hp : OfHandshake h t u v p) (hu : u ≤ u') (hv : v ≤ v') :
    OfHandshake h t u' v' p where
  noReset := hp.noReset
  syn := hp.syn
  stream := fun ht => View.ne_nil_mono hu (hp.stream ht)
  state := fun ht hend => (hp.state ht hend).imp_right (View.ne_nil_mono hv)

/-- More of the peer's view does no harm. -/
theorem Midcall.Shaken.mono (hm : m.Shaken h t v) (hv : v ≤ v') : m.Shaken h t v' :=
  { hm with sent := fun p hp => (hm.sent p hp).mono le_rfl hv }

/-- What has to be checked when an end moves on. -/
theorem Midcall.Shaken.next {c c' : Connection} {hand hand' : Option (List Item)} {w w' : Bytes}
    (hm : Midcall.Shaken h t v ⟨c, hand, w⟩) (hle : c.view ≤ c'.view)
    (htype : c'.endpoint.type = c.endpoint.type) (hsynNum : c'.endpoint.synNum = c.endpoint.synNum)
    (hsynAck : c'.endpoint.synAck = c.endpoint.synAck)
    (hsyn : c.synState.isSome → c'.synState.isSome)
    (hopen : c'.established = none → c.established = none)
    (hnum : ∀ e', c'.established = some e' → (∃ e, c.established = some e ∧
      e'.sentPackets.initSeqNum = e.sentPackets.initSeqNum ∧
      e'.recvBuf.initSeqNum = e.recvBuf.initSeqNum) ∨ Numbered h t e')
    (hsent : ∀ p, c'.Sent p → c.Sent p ∨ OfHandshake h t c'.view v p) :
    Midcall.Shaken h t v ⟨c', hand', w'⟩ where
  type := htype.trans hm.type
  synNum := hsynNum.trans hm.synNum
  synAck := fun ht => hsynAck.trans (hm.synAck ht)
  acceptor := by
    intro ht
    obtain ⟨hest, hstate⟩ := hm.acceptor ht
    exact ⟨fun hnone => hest (hopen hnone), hsyn hstate⟩
  numbers := by
    intro e' he'
    rcases hnum e' he' with ⟨e, he, hs, hr⟩ | hnum
    · have hold := hm.numbers e he
      exact ⟨by rw [hs, hold.sent], by rw [hr, hold.recv]⟩
    · exact hnum
  sent := by
    intro p hp
    rcases hsent p hp with hp | hp
    · exact (hm.sent p hp).mono hle le_rfl
    · exact hp

/-- A new state of a connected end. -/
theorem Midcall.Shaken.of_state {c c' : Connection} {e e' : Established}
    {hand hand' : Option (List Item)} {w w' : Bytes} (hm : Midcall.Shaken h t v ⟨c, hand, w⟩)
    (hs : c.state = .connected e) (hs' : c'.state = .connected e') (hle : c.view ≤ c'.view)
    (hend : c'.endpoint = c.endpoint) (hsyn : c'.synState = c.synState)
    (hsent : e'.sentPackets.initSeqNum = e.sentPackets.initSeqNum)
    (hrecv : e'.recvBuf.initSeqNum = e.recvBuf.initSeqNum)
    (hpackets : ∀ p, c'.Sent p → c.Sent p ∨ OfHandshake h t c'.view v p) :
    Midcall.Shaken h t v ⟨c', hand', w'⟩ := by
  refine hm.next hle (by rw [hend]) (by rw [hend]) (by rw [hend]) (by rw [hsyn]; exact id)
    ?_ ?_ hpackets
  · intro hnone
    cases (established_connected hs').symm.trans hnone
  · intro e₁ he₁
    obtain rfl := Option.some.inj ((established_connected hs').symm.trans he₁)
    exact .inl ⟨e, established_connected hs, hsent, hrecv⟩

/-- The same buffers. -/
theorem Midcall.Shaken.of_established {c c' : Connection} {hand hand' : Option (List Item)}
    {w w' : Bytes} (hm : Midcall.Shaken h t v ⟨c, hand, w⟩)
    (hest : c'.established = c.established) (htype : c'.endpoint.type = c.endpoint.type)
    (hsynNum : c'.endpoint.synNum = c.endpoint.synNum)
    (hsynAck : c'.endpoint.synAck = c.endpoint.synAck)
    (hsyn : c.synState.isSome → c'.synState.isSome)
    (hpackets : ∀ p, c'.Sent p → c.Sent p ∨ OfHandshake h t c'.view v p) :
    Midcall.Shaken h t v ⟨c', hand', w'⟩ :=
  hm.next (Connection.view_congr hest).ge htype hsynNum hsynAck hsyn (fun hnone => hest ▸ hnone)
    (fun e he => .inl ⟨e, hest.symm.trans he, rfl, rfl⟩) hpackets

theorem Midcall.Shaken.of_emit {c : Connection} {hand : Option (List Item)} {w : Bytes}
    (hm : Midcall.Shaken h t v ⟨c, hand, w⟩) (hp : OfHandshake h t c.view v p) :
    Midcall.Shaken h t v ⟨c.emit p, hand, w⟩ := by
  refine hm.of_established rfl rfl rfl rfl id fun q hq => ?_
  rcases Connection.sent_emit.mp hq with rfl | hq
  · exact .inr hp
  · exact .inl hq

theorem SendAct.shaken {guard : Guard} (hact : SendAct guard m m') (hsound : m.Sound)
    (htyped : m.Typed) (hm : m.Shaken h t v) : m'.Shaken h t v := by
  have hle := hact.view_le hsound
  cases hact with
  | enqueue | pickLost | pickExpired => exact { hm with }
  | flush hs | pickFin hs => exact hm.of_state hs rfl hle rfl rfl rfl rfl fun _ => .inl
  | send hs hok hp =>
      have hwf := (hsound _ (established_connected hs)).sentPackets
      have hnum := htyped.items _ List.mem_cons_self
      rw [← hp.packetType] at hnum
      have hsp := SentPackets.transmitted_of_ok hwf hok
      refine hm.of_state hs rfl hle rfl rfl hsp.init rfl fun q hq => ?_
      rcases Connection.sent_emit.mp hq with rfl | hq
      · refine .inr ⟨?_, ?_, fun _ => hsp.nonempty, ?_⟩
        all_goals
          intro ht
          rw [ht] at hnum
          cases hnum
      · exact .inl hq

/-- A STATE packet: the acceptor sends one when it is connected, to answer a
packet of the stream. -/
theorem ofHandshake_statePacket {c : Connection} {hand : Option (List Item)} {w : Bytes}
    {q : Packet} {now : Time} (hgen : OfHandshake h t.other v u q)
    (hwhy : q.header.packetType.numbered = true ∨
      q.header.packetType = .st_syn ∧ c.synState = none)
    (hm : Midcall.Shaken h t v ⟨c, hand, w⟩) (hp : c.statePacket now = some p) :
    OfHandshake h t c.view v p := by
  have htype : p.header.packetType = .st_state := by
    rcases Connection.statePacket_inv hp with ⟨-, -, rfl⟩ | ⟨e, -, rfl⟩
    · rfl
    · rfl
  refine ⟨by rw [htype]; nofun, by rw [htype]; nofun, by rw [htype]; nofun, fun _ hend => ?_⟩
  rcases hwhy with hnum | ⟨-, hsyn⟩
  · exact .inr (hgen.stream hnum)
  · have hstate := (hm.acceptor hend).2
    rw [show Connection.synState _ = none from hsyn] at hstate
    cases hstate

variable [Float64] {packet? : Option Packet} {guard : Guard}

/-- **Handshake**: the numbers of both streams stay those of the handshake. -/
theorem Act.shaken (hact : Act packet? guard m m')
    (hgen : ∀ p, packet? = some p → OfHandshake h t.other v u p) (hu : u ≤ m.conn.view)
    (hsound : m.Sound) (htyped : m.Typed) (hm : m.Shaken h t v) : m'.Shaken h t v := by
  have hle := hact.view_le hsound
  cases hact with
  | sends hact => exact hact.shaken hsound htyped hm
  | book hcore =>
      refine hm.of_established (congrArg ConnState.established hcore.state) hcore.endpointType
        hcore.synNum hcore.synAck hcore.synState fun p hp => .inl ?_
      unfold Connection.Sent at hp ⊢
      rwa [hcore.socketEvents] at hp
  | backOff hs | beginClosing hs =>
      exact hm.of_state hs rfl hle rfl rfl rfl rfl fun _ => .inl
  | emitState hq hwhy hp => exact hm.of_emit (ofHandshake_statePacket (hgen _ hq) hwhy hm hp)
  | emitReset rnd hq ht hsyn =>
      -- only the acceptor receives a SYN, and it has answered at its start
      have hother := ((hgen _ hq).syn ht).1
      have hacc : t = .acceptor := by
        cases t with
        | initiator => cases hother
        | acceptor => rfl
      have hstate := (hm.acceptor hacc).2
      rw [show Connection.synState _ = none from hsyn] at hstate
      cases hstate
  | emitSyn _ hend =>
      refine hm.of_emit ⟨nofun, fun _ => ⟨?_, hm.synNum⟩, nofun, nofun⟩
      exact hm.type.symm.trans hend
  | recvData _ _ hs _ hw | recvFin _ _ hs _ hw =>
      have hinit := ReceiveBuffer.initSeqNum_write (hsound _ (established_connected hs)).recvBuf hw
      exact hm.of_state hs rfl hle rfl rfl rfl hinit fun _ => .inl
  | readOut _ hs hr =>
      have hdid := ReceiveBuffer.didRead_of_ok (hsound _ (established_connected hs)).recvBuf hr
      exact hm.of_state hs rfl hle rfl rfl rfl hdid.init fun _ => .inl
  | endOfStream | closedRead => exact hm.of_established rfl rfl rfl rfl id fun _ => .inl
  | acked _ _ hs hok =>
      have hacks := (SentPackets.acks_of_ok (hsound _ (established_connected hs)).sentPackets hok).1
      exact hm.of_state hs rfl hle rfl rfl hacks.init rfl fun _ => .inl
  | close _ hc =>
      refine hm.of_established ?_ rfl rfl rfl id fun _ => .inl
      exact hc.established
  | establish hp ht hs hend =>
      have hti := hm.type.symm.trans hend
      subst hti
      refine hm.next hle rfl rfl rfl id nofun ?_ fun _ => .inl
      rintro e ⟨⟩
      refine .inr ⟨congrArg (· + 1) hm.synNum, ?_⟩
      rcases (hgen _ hp).state ht rfl with hseq | hne
      · show _ - 1 + 1 = h.synAck
        rw [hseq]
        ring
      · -- an initiator that is connecting has not sent anything
        refine absurd ?_ (View.ne_nil_mono hu hne)
        rw [Connection.view_connecting hs]

end Shaken

end UtpGo
