/-
UtpGo/PairEnd.lean

One end of a pair of connections.  `Genuine` says what a packet tells about
the end that sent it, and `Midcall.Honest` what an end has learnt from a peer
with a given view: its receive buffer holds the peer's packets, what it counts
as acknowledged the peer has accepted, and it has closed for no reason but a
timeout.

Main result: `Act.honest`, an end that receives genuine packets stays honest.
-/
import UtpGo.InOrder
import UtpGo.PairShake

namespace UtpGo

open Circular Reassembly

/-! ### Genuine packets -/

/-- What a packet from an end `t` with view `u` acknowledges. -/
structure Acking (h : Handshake) (t : EndpointType) (u : View) (p : Packet) : Prop where
  cumulative : p.header.packetType.carriesAck = true → ∀ x,
    ahead (h.first t.other) x < ahead (h.first t.other) (p.header.ackNum + 1) → x ∈ u.accepted
  selective : p.header.packetType.carriesAck = true → ∀ s, p.eack = some s →
    ∀ i, s.acked[i]? = some true → p.header.ackNum + 2 + BitVec.ofNat 16 i ∈ u.accepted

/-- A packet from an end `t` with view `u` to an end with view `v`. -/
structure Genuine (h : Handshake) (t : EndpointType) (u v : View) (p : Packet) : Prop
    extends OfHandshake h t u v p, Acking h t u p where
  recorded : p.header.packetType.numbered = true →
    u.chunks[ahead (h.first t) p.header.seqNum]? = some (p.header.packetType, p.body)

section Genuine

variable {h : Handshake} {t : EndpointType} {u u' : View} {p : Packet}

theorem Acking.mono (hp : Acking h t u p) (hu : u ≤ u') : Acking h t u' p where
  cumulative := fun hack x hx => hu.2 (hp.cumulative hack x hx)
  selective := fun hack s hs i hi => hu.2 (hp.selective hack s hs i hi)

/-- A packet that acknowledges what the receive buffer holds now. -/
theorem acking_of_recvBuf {rb : ReceiveBuffer} (hinit : rb.initSeqNum + 1 = h.first t.other)
    (hacc : ∀ x, rb.Holds x → x ∈ u.accepted) (hack : p.header.ackNum = rb.ackNum)
    (heack : p.eack = rb.selectiveAck) : Acking h t u p where
  cumulative := by
    intro _ x hx
    rw [hack, ahead_first_succ hinit, rb.ahead_ackNum] at hx
    exact hacc x (.inl ((ahead_first_lt hinit rb.consumed.isLt).mp hx))
  selective := by
    intro _ s hs i hi
    rw [heack] at hs
    rw [hack]
    exact hacc _ (.inr ((ReceiveBuffer.selectiveAck_spec hs).2 i hi))

end Genuine

/-! ### Honest ends -/

/-- The buffers of an end `t` whose peer has the view `v`, when `out` has been
read already. -/
structure Received (h : Handshake) (t : EndpointType) (v : View) (out : Bytes)
    (e : Established) : Prop where
  content : e.recvBuf.Content v.chunk out
  remoteFin : ∀ f, e.remoteFin = some f →
    v.chunks[ahead (h.first t.other) f]? = some (.st_fin, [])
  acked : ∀ i, e.sentPackets.Acked i → h.first t + BitVec.ofNat 16 i ∈ v.accepted

/-- Everything up to the FIN has been read. -/
def View.ReadToEnd (v : View) (out : Bytes) : Prop :=
  ∃ k, v.chunks[k]? = some (.st_fin, []) ∧ (∀ i < k + 1, (v.chunk i).isSome) ∧
    inOrder v.chunk (k + 1) <+: out

/-- An end `t` of a connection whose peer has the view `v`. -/
structure Midcall.Honest (h : Handshake) (t : EndpointType) (v : View) (m : Midcall) : Prop where
  received : ∀ e, m.conn.established = some e → Received h t v m.conn.readStream e
  unread : m.conn.established = none → m.conn.readStream = []
  eof : m.conn.config.maxPacketSize ≠ 0 → (∃ r ∈ m.conn.reads, r.err = some .eof) →
    v.ReadToEnd m.conn.readStream
  closed : ∀ e err, m.conn.state = .closed e (some err) → err = .errTimedOut
  sent : ∀ p, m.conn.Sent p → Acking h t m.conn.view p

section Honest

variable {h : Handshake} {t : EndpointType} {v v' : View} {out : Bytes} {e e' : Established}
  {m : Midcall}

theorem Received.mono (hr : Received h t v out e) (hv : v ≤ v') : Received h t v' out e where
  content := hr.content.mono (View.chunk_mono hv)
  remoteFin := fun f hf => View.getElem?_mono hv (hr.remoteFin f hf)
  acked := fun i hi => hv.2 (hr.acked i hi)

theorem received_establish {config : ConnectionConfig} {recvInit sentInit : Uint16}
    (hout : out = []) : Received h t v out (Connection.establish config recvInit sentInit) := by
  subst hout
  refine ⟨ReceiveBuffer.content_new _ _ _, nofun, ?_⟩
  rintro i ⟨p, hp, -⟩
  cases hp

theorem View.ReadToEnd.mono (hr : v.ReadToEnd out) (hv : v ≤ v') {out' : Bytes}
    (hout : out <+: out') : v'.ReadToEnd out' := by
  obtain ⟨k, hk, hsome, hpre⟩ := hr
  refine ⟨k, View.getElem?_mono hv hk, ?_, ?_⟩
  · intro i hi
    obtain ⟨body, hbody⟩ := Option.isSome_iff_exists.mp (hsome i hi)
    rw [View.chunk_mono hv i body hbody]
    rfl
  · rw [← inOrder_mono (View.chunk_mono hv) hsome]
    exact hpre.trans hout

/-- More of the peer's view does no harm. -/
theorem Midcall.Honest.mono (hm : m.Honest h t v) (hv : v ≤ v') : m.Honest h t v' where
  received := fun e he => (hm.received e he).mono hv
  unread := hm.unread
  eof := fun hsize hr => (hm.eof hsize hr).mono hv (List.prefix_refl _)
  closed := hm.closed
  sent := hm.sent

/-- What has to be checked when an end moves on. -/
theorem Midcall.Honest.next {c c' : Connection} {hand hand' : Option (List Item)} {w w' : Bytes}
    {rs : List ReadOrWriteResult} (hm : Midcall.Honest h t v ⟨c, hand, w⟩)
    (hle : c.view ≤ c'.view) (hconfig : c'.config = c.config)
    (hreads : c'.reads = c.reads ++ rs)
    (hopen : c'.established = none → c.established = none ∧ c'.readStream = c.readStream)
    (hr : ∀ e, c'.established = some e → Received h t v c'.readStream e)
    (heof : c.config.maxPacketSize ≠ 0 → (∃ r ∈ rs, r.err = some .eof) →
      v.ReadToEnd c'.readStream)
    (hclosed : ∀ e err, c'.state = .closed e (some err) →
      err = .errTimedOut ∨ c.state = .closed e (some err))
    (hsent : ∀ p, c'.Sent p → c.Sent p ∨ Acking h t c'.view p) :
    Midcall.Honest h t v ⟨c', hand', w'⟩ where
  received := hr
  unread := by
    intro hnone
    obtain ⟨hnone, hstream⟩ := hopen hnone
    exact hstream.trans (hm.unread hnone)
  eof := by
    rintro hsize ⟨r, hr, herr⟩
    change c'.config.maxPacketSize ≠ 0 at hsize
    rw [hconfig] at hsize
    change r ∈ c'.reads at hr
    rw [hreads] at hr
    rcases List.mem_append.mp hr with hr | hr
    · refine (hm.eof hsize ⟨r, hr, herr⟩).mono le_rfl ?_
      show c.readStream <+: c'.readStream
      rw [Connection.readStream, Connection.readStream, hreads, List.flatMap_append]
      exact List.prefix_append _ _
    · exact heof hsize ⟨r, hr, herr⟩
  closed := fun e err hs => (hclosed e err hs).elim id (hm.closed e err)
  sent := by
    intro p hp
    rcases hsent p hp with hp | hp
    · exact (hm.sent p hp).mono hle
    · exact hp

/-- A new state of a connected end that has read nothing more. -/
theorem Midcall.Honest.of_state {c c' : Connection} {hand hand' : Option (List Item)}
    {w w' : Bytes} (hm : Midcall.Honest h t v ⟨c, hand, w⟩) (hs : c.state = .connected e)
    (hs' : c'.state = .connected e') (hle : c.view ≤ c'.view)
    (hconfig : c'.config = c.config) (hreads : c'.reads = c.reads)
    (hsent : ∀ p, c'.Sent p → c.Sent p ∨ Acking h t c'.view p)
    (hr : Received h t v c.readStream e → Received h t v c.readStream e') :
    Midcall.Honest h t v ⟨c', hand', w'⟩ := by
  have hstream : c'.readStream = c.readStream := by
    rw [Connection.readStream, hreads, Connection.readStream]
  refine hm.next hle hconfig (hreads.trans (List.append_nil _).symm) ?_ ?_ ?_ ?_ hsent
  · intro hnone
    cases (established_connected hs').symm.trans hnone
  · intro e₁ he₁
    obtain rfl := Option.some.inj ((established_connected hs').symm.trans he₁)
    rw [hstream]
    exact hr (hm.received e (established_connected hs))
  · rintro - ⟨r, hr, -⟩
    cases hr
  · intro e₁ err hc
    cases hs'.symm.trans hc

/-- Another result for the reader. -/
theorem Midcall.Honest.of_reads {c : Connection} {hand : Option (List Item)} {w : Bytes}
    (hm : Midcall.Honest h t v ⟨c, hand, w⟩) {r : ReadOrWriteResult} (hlen : r.len = 0)
    (heof : c.config.maxPacketSize ≠ 0 → r.err = some .eof → v.ReadToEnd c.readStream) :
    Midcall.Honest h t v ⟨{ c with reads := c.reads ++ [r] }, hand, w⟩ := by
  have hstream : Connection.readStream { c with reads := c.reads ++ [r] } = c.readStream := by
    rw [Connection.readStream_append rfl, hlen, List.take_zero, List.append_nil]
  refine hm.next le_rfl rfl rfl (fun hnone => ⟨hnone, hstream⟩) ?_ ?_
    (fun _ _ => .inr) fun _ => .inl
  · rw [hstream]
    exact hm.received
  · rintro hsize ⟨r', hr', herr⟩
    obtain rfl := List.mem_singleton.mp hr'
    rw [hstream]
    exact heof hsize herr

/-- Another packet sent. -/
theorem Midcall.Honest.of_emit {c : Connection} {hand : Option (List Item)} {w : Bytes}
    (hm : Midcall.Honest h t v ⟨c, hand, w⟩) {p : Packet} (hp : Acking h t c.view p) :
    Midcall.Honest h t v ⟨c.emit p, hand, w⟩ := by
  refine hm.next le_rfl rfl (List.append_nil _).symm (fun hnone => ⟨hnone, rfl⟩)
    hm.received nofun (fun _ _ => .inr) ?_
  intro q hq
  rcases Connection.sent_emit.mp hq with rfl | hq
  · exact .inr hp
  · exact .inl hq

/-- Bookkeeping. -/
theorem Midcall.Honest.of_book {c c' : Connection} {hand : Option (List Item)} {w : Bytes}
    (hm : Midcall.Honest h t v ⟨c, hand, w⟩) (hcore : SameCore c c') :
    Midcall.Honest h t v ⟨c', hand, w⟩ := by
  have hest : c'.established = c.established := congrArg ConnState.established hcore.state
  have hstream : c'.readStream = c.readStream := by
    rw [Connection.readStream, hcore.reads, Connection.readStream]
  refine hm.next (Connection.view_congr hest).ge hcore.config
    (hcore.reads.trans (List.append_nil _).symm) (fun hnone => ⟨hest ▸ hnone, hstream⟩) ?_ ?_
    ?_ ?_
  · intro e he
    rw [hstream]
    exact hm.received e (hest ▸ he)
  · rintro - ⟨r, hr, -⟩
    cases hr
  · intro e err hs
    exact .inr (hcore.state ▸ hs)
  · intro p hp
    refine .inl ?_
    unfold Connection.Sent at hp ⊢
    rwa [hcore.socketEvents] at hp

/-- A chunk handed to the reader. -/
theorem Midcall.Honest.readOut {c : Connection} {hand : Option (List Item)} {w : Bytes}
    {rb : ReceiveBuffer} (hm : Midcall.Honest h t v ⟨c, hand, w⟩) (hs : c.state = .connected e)
    (hwf : e.recvBuf.WF) (hr : e.recvBuf.read c.config.maxPacketSize.toNat = .ok (out, rb))
    (hle : c.view ≤ Connection.view { c with
      state := .connected { e with recvBuf := rb }
      reads := c.reads ++ [Connection.readResult c.config out] }) :
    Midcall.Honest h t v ⟨{ c with
      state := .connected { e with recvBuf := rb }
      reads := c.reads ++ [Connection.readResult c.config out] }, hand, w⟩ := by
  have hold := hm.received e (established_connected hs)
  refine hm.next hle rfl rfl nofun ?_ ?_ nofun fun _ => .inl
  · rintro e' ⟨⟩
    have hstream : Connection.readStream { c with
        state := .connected { e with recvBuf := rb }
        reads := c.reads ++ [Connection.readResult c.config out] } = c.readStream ++ out := by
      rw [Connection.readStream_append rfl, Connection.take_readResult]
    rw [hstream]
    exact ⟨(ReceiveBuffer.didRead_of_ok hwf hr).content hold.content, hold.remoteFin, hold.acked⟩
  · rintro - ⟨r, hmem, herr⟩
    obtain rfl := List.mem_singleton.mp hmem
    cases herr

/-- A STATE packet acknowledges what the receive buffer holds. -/
theorem acking_statePacket {c : Connection} {hand : Option (List Item)} {w : Bytes} {p : Packet}
    {now : Time} (hsh : Midcall.Shaken h t v ⟨c, hand, w⟩) (hp : c.statePacket now = some p) :
    Acking h t c.view p := by
  rcases Connection.statePacket_inv hp with ⟨hs, hend, -⟩ | ⟨e, hs, rfl⟩
  · -- an acceptor is never connecting
    have hacc := hsh.type.symm.trans hend
    exact absurd (congrArg ConnState.established hs) (hsh.acceptor hacc).1
  · have he := established_connected hs
    refine acking_of_recvBuf (hsh.numbers e he).recv (fun x hx => ?_) rfl rfl
    rw [Connection.view_established he]
    exact hx

end Honest

/-! ### What an end takes from its peer -/

/-- What arrives from a peer with view `v` at an end whose view was `u`: the
packet is genuine, and the peer has accepted nothing but packets of ours. -/
structure Supplied (h : Handshake) (t : EndpointType) (u v : View) (packet? : Option Packet) :
    Prop where
  proper : v.Proper
  accepted : ∀ x ∈ v.accepted, ahead (h.first t) x < u.chunks.length
  genuine : ∀ p, packet? = some p → Genuine h t.other v u p

section Supplied

variable {h : Handshake} {t : EndpointType} {u v : View} {packet? : Option Packet}
  {out : Bytes} {e : Established} {p : Packet}

theorem EndpointType.other_other (t : EndpointType) : t.other.other = t := by cases t <;> rfl

/-- The number of a packet of the stream, counted from the initial one. -/
theorem Supplied.index (hsup : Supplied h t u v packet?) (hn : Numbered h t e)
    {x : Uint16} {chunk : PacketType × Bytes}
    (hx : v.chunks[ahead (h.first t.other) x]? = some chunk) :
    ahead e.recvBuf.initSeqNum x = ahead (h.first t.other) x + 1 :=
  ahead_init hn.recv ((hsup.proper.lt hx).trans (by omega))

/-- Taking a packet of the stream. -/
theorem Received.write (hr : Received h t v out e) (hn : Numbered h t e)
    (hsup : Supplied h t u v packet?) (hwf : e.recvBuf.WF) (hp : packet? = some p)
    (ht : p.header.packetType.numbered = true) {rb : ReceiveBuffer} {err : Option RecvError}
    (hw : e.recvBuf.write p.body p.header.seqNum = .ok (rb, err)) : rb.Content v.chunk out := by
  obtain ⟨rb₁, err₁, hw₁, hout⟩ := e.recvBuf.write_spec hwf p.body p.header.seqNum
  cases hw₁.symm.trans hw
  rcases hout with ⟨-, -, hwrote⟩ | ⟨-, rfl, -⟩
  · refine hwrote.content _ _ ?_ hr.content
    have hrec := (hsup.genuine p hp).recorded ht
    rw [hsup.index hn hrec, Nat.add_sub_cancel, View.chunk, hrec]
    rfl
  · exact hr.content

theorem View.Proper.fin_last (h : v.Proper) {i : Nat} {body : Bytes}
    (hi : v.chunks[i]? = some (.st_fin, body)) : body = [] ∧ i + 1 = v.chunks.length := by
  rcases h.shape i _ _ hi with ⟨hne, -⟩ | ⟨-, hbody, hlast⟩
  · cases hne
  · exact ⟨hbody, hlast⟩

/-- Data packets lie before the FIN. -/
theorem Supplied.not_beyondFin (hsup : Supplied h t u v packet?) (hn : Numbered h t e)
    (hr : Received h t v out e) (hp : packet? = some p) (ht : p.header.packetType = .st_data) :
    Connection.beyondFin e p.header.seqNum = false := by
  unfold Connection.beyondFin
  split
  · rename_i f hf
    have hfin := hr.remoteFin f hf
    have hdata := (hsup.genuine p hp).recorded (by rw [ht]; rfl)
    have hlast := (hsup.proper.fin_last hfin).2
    have hlt := (List.getElem?_eq_some_iff.mp hdata).1
    rw [Bool.not_eq_false', CircularRangeInclusive.contains_iff]
    show ahead e.recvBuf.initSeqNum _ ≤ ahead e.recvBuf.initSeqNum f
    rw [hsup.index hn hdata, hsup.index hn hfin]
    omega
  · rfl

/-- A FIN is recorded as such. -/
theorem Supplied.fin_recorded (hsup : Supplied h t u v packet?) (hp : packet? = some p)
    (ht : p.header.packetType = .st_fin) :
    v.chunks[ahead (h.first t.other) p.header.seqNum]? = some (.st_fin, []) := by
  have hrec := (hsup.genuine p hp).recorded (by rw [ht]; rfl)
  rw [ht] at hrec
  rw [← (hsup.proper.fin_last hrec).1]
  exact hrec

/-- There is one FIN. -/
theorem Supplied.fin_unique (hsup : Supplied h t u v packet?) (hr : Received h t v out e)
    (hp : packet? = some p) (ht : p.header.packetType = .st_fin) {f : Uint16}
    (hf : e.remoteFin = some f) : p.header.seqNum = f := by
  have h₁ := (hsup.proper.fin_last (hsup.fin_recorded hp ht)).2
  have h₂ := (hsup.proper.fin_last (hr.remoteFin f hf)).2
  exact (ahead_inj (h.first t.other)).mp (by omega)

/-- What an acknowledgement covers, the peer has accepted. -/
theorem Supplied.covered (hsup : Supplied h t u v packet?) (hn : Numbered h t e)
    (hp : packet? = some p) (ht : p.header.packetType.carriesAck = true) {j : Nat}
    (hj : e.sentPackets.Covered p.header.ackNum p.eack j) :
    h.first t + BitVec.ofNat 16 j ∈ v.accepted := by
  have hgen := hsup.genuine p hp
  obtain ⟨⟨hne, -⟩, hle | ⟨s, i, hs, ⟨hflag, -⟩, rfl⟩⟩ := hj
  · have hlt := e.sentPackets.seqNumIndex_lt p.header.ackNum
    refine hgen.cumulative ht _ ?_
    rw [EndpointType.other_other, ahead_first_succ hn.sent,
      e.sentPackets.ahead_eq_index hne, ahead_add_ofNat (by omega)]
    omega
  · rw [SentPackets.seqNumIndex_eq_ahead hn.sent, add_ahead]
    exact hgen.selective ht s hs i hflag

/-- No acknowledgement goes beyond what was sent. -/
theorem Supplied.ackNum_le (hsup : Supplied h t u v packet?) (hn : Numbered h t e)
    (hle : u.chunks.length ≤ e.sentPackets.packets.length) (hp : packet? = some p)
    (ht : p.header.packetType.carriesAck = true) :
    ahead e.sentPackets.initSeqNum p.header.ackNum ≤ e.sentPackets.packets.length := by
  by_contra hlt
  -- otherwise the peer has accepted the number that would come next
  have hbound := ahead_lt e.sentPackets.initSeqNum p.header.ackNum
  have hnext := (hsup.genuine p hp).cumulative ht
    (h.first t + BitVec.ofNat 16 e.sentPackets.packets.length) (by
      rw [EndpointType.other_other, ahead_first_succ hn.sent, ahead_add_ofNat (by omega)]
      omega)
  have hidx := hsup.accepted _ hnext
  rw [ahead_add_ofNat (by omega)] at hidx
  omega

/-- The end of the stream is reported when everything has been read. -/
theorem Received.readToEnd (hr : Received h t v out e) (hn : Numbered h t e)
    (hsup : Supplied h t u v packet?) {f : Uint16} (hf : e.remoteFin = some f)
    (hack : e.recvBuf.ackNum = f) (hdry : e.recvBuf.offset = 0) : v.ReadToEnd out := by
  have hfin := hr.remoteFin f hf
  have hcons : e.recvBuf.consumed.toNat = ahead (h.first t.other) f + 1 := by
    rw [← e.recvBuf.ahead_ackNum, hack, hsup.index hn hfin]
  have hstream := hr.content.stream
  rw [hdry, List.take_zero, List.append_nil, hcons] at hstream
  refine ⟨_, hfin, ?_, hstream ▸ List.prefix_refl _⟩
  rw [← hcons]
  exact hr.content.known

end Supplied

/-- An honest end closes because of a timeout only, if with an error. -/
theorem Supplied.closes {h : Handshake} {t : EndpointType} {u v : View}
    {packet? : Option Packet} {c : Connection} {hand : Option (List Item)} {w : Bytes}
    {st : ConnState} (hsup : Supplied h t u v packet?) (hle : u ≤ c.view)
    (hsh : Midcall.Shaken h t v ⟨c, hand, w⟩) (hm : Midcall.Honest h t v ⟨c, hand, w⟩)
    (hc : Closes packet? c st) {e : Option Established} {err : ConnError}
    (hst : st = .closed e (some err)) : err = .errTimedOut := by
  cases hc with
  | timedOut =>
      cases hst
      rfl
  | shutdown | localFin | remoteFin | bothFins => cases hst
  | invalidAck hp ht hs hack =>
      have he := established_connected hs
      have hlen := hle.1.length_le
      rw [Connection.view_established he, Established.view, SentPackets.length_chunks] at hlen
      exact absurd (hsup.ackNum_le (hsh.numbers _ he) hlen hp ht) (not_le.mpr hack)
  | invalidSyn hp ht _ hnum =>
      exact absurd (((hsup.genuine _ hp).syn ht).2.trans hsh.synNum.symm) hnum
  | synFromAcceptor hp ht hend =>
      have hother := ((hsup.genuine _ hp).syn ht).1
      rw [← hsh.type, show EndpointType.other _ = _ from congrArg _ hend] at hother
      cases hother
  | emptyData hp ht hbody =>
      have hrec := (hsup.genuine _ hp).recorded (by rw [ht]; rfl)
      rw [ht, hbody] at hrec
      rcases hsup.proper.shape _ _ _ hrec with ⟨-, hne⟩ | ⟨hfin, -⟩
      · exact absurd rfl hne
      · cases hfin
  | invalidFin hp ht hs hfin hne =>
      exact absurd (hsup.fin_unique (hm.received _ (established_connected hs)) hp ht hfin) hne
  | reset hp ht => exact absurd ht (hsup.genuine _ hp).noReset
  | invalidSeqNum hp ht hs hfin =>
      have he := established_connected hs
      rw [hsup.not_beyondFin (hsh.numbers _ he) (hm.received _ he) hp ht] at hfin
      cases hfin

/-! ### Actions of an honest end -/

section Actions

variable {h : Handshake} {t : EndpointType} {u v : View} {guard : Guard} {m m' : Midcall}

theorem SendAct.honest (hact : SendAct guard m m') (hsound : m.Sound) (hsh : m.Shaken h t v)
    (hm : m.Honest h t v) : m'.Honest h t v := by
  have hle := hact.view_le hsound
  cases hact with
  | enqueue | pickLost | pickExpired => exact { hm with }
  | flush hs | pickFin hs =>
      exact hm.of_state hs rfl hle rfl rfl (fun _ => .inl) fun hr =>
        ⟨hr.content, hr.remoteFin, hr.acked⟩
  | send hs hok hp =>
      have he := established_connected hs
      have hsp := SentPackets.transmitted_of_ok (hsound _ he).sentPackets hok
      refine hm.of_state hs rfl hle rfl rfl ?_ fun hr => ?_
      · intro q hq
        rcases Connection.sent_emit.mp hq with rfl | hq
        · exact .inr (acking_of_recvBuf (hsh.numbers _ he).recv (fun _ h => h) hp.ackNum hp.eack)
        · exact .inl hq
      · exact ⟨hr.content, hr.remoteFin, fun i hi => hr.acked i ((hsp.acked i).mp hi)⟩

variable [Float64] {packet? : Option Packet}

/-- **Honest ends stay honest**: an end that receives genuine packets keeps
what it knows of its peer. -/
theorem Act.honest (hact : Act packet? guard m m') (hsup : Supplied h t u v packet?)
    (hu : u ≤ m.conn.view) (hsound : m.Sound) (hsh : m.Shaken h t v) (hm : m.Honest h t v) :
    m'.Honest h t v := by
  have hle := hact.view_le hsound
  cases hact with
  | sends hact => exact hact.honest hsound hsh hm
  | book hcore => exact hm.of_book hcore
  | backOff hs =>
      exact hm.of_state hs rfl hle rfl rfl (fun _ => .inl) fun hr =>
        ⟨hr.content, hr.remoteFin, hr.acked⟩
  | beginClosing hs hc =>
      exact hm.of_state hs rfl hle rfl rfl (fun _ => .inl) fun hr =>
        ⟨hr.content, nofun, hr.acked⟩
  | emitState _ _ hp => exact hm.of_emit (acking_statePacket hsh hp)
  | emitReset rnd => exact hm.of_emit ⟨nofun, nofun⟩
  | emitSyn => exact hm.of_emit ⟨nofun, nofun⟩
  | recvData hp ht hs _ hw =>
      have he := established_connected hs
      refine hm.of_state hs rfl hle rfl rfl (fun _ => .inl) fun hr => ?_
      exact ⟨hr.write (hsh.numbers _ he) hsup (hsound _ he).recvBuf hp (by rw [ht]; rfl) hw,
        hr.remoteFin, hr.acked⟩
  | recvFin hp ht hs _ hw =>
      have he := established_connected hs
      refine hm.of_state hs rfl hle rfl rfl (fun _ => .inl) fun hr => ?_
      refine ⟨hr.write (hsh.numbers _ he) hsup (hsound _ he).recvBuf hp (by rw [ht]; rfl) hw,
        ?_, hr.acked⟩
      rintro f ⟨⟩
      exact hsup.fin_recorded hp ht
  | readOut _ hs hr => exact hm.readOut hs (hsound _ (established_connected hs)).recvBuf hr hle
  | endOfStream hs heof hdry =>
      have he := established_connected hs
      refine hm.of_reads rfl fun hsize _ => ?_
      unfold Connection.eof at heof
      rw [hs] at heof
      dsimp only at heof
      split at heof
      · rename_i f hf
        exact (hm.received _ he).readToEnd (hsh.numbers _ he) hsup hf (of_decide_eq_true heof)
          (hdry hsize)
      · cases heof
  | closedRead hs =>
      refine hm.of_reads rfl fun _ heof => ?_
      obtain ⟨err, -, herr⟩ := Option.map_eq_some_iff.mp heof
      cases herr
  | acked hp ht hs hok _ =>
      have he := established_connected hs
      have hacks := (SentPackets.acks_of_ok (hsound _ he).sentPackets hok).1
      refine hm.of_state hs rfl hle rfl rfl (fun _ => .inl) fun hr => ?_
      refine ⟨hr.content, hr.remoteFin, fun i hi => ?_⟩
      rcases hacks.acked i hi with hi | hi
      · exact hr.acked i hi
      · exact hsup.covered (hsh.numbers _ he) hp ht hi
  | close _ hc =>
      refine hm.next hle rfl (List.append_nil _).symm ?_ ?_ nofun ?_ fun _ => .inl
      · exact fun hnone => ⟨hc.established.symm.trans hnone, rfl⟩
      · exact fun e he => hm.received e (hc.established.symm.trans he)
      · exact fun e err hst => .inl (hsup.closes hu hsh hm hc hst)
  | establish _ _ hs =>
      have hnone : Connection.established _ = none := congrArg ConnState.established hs
      refine hm.next hle rfl (List.append_nil _).symm nofun ?_ nofun nofun fun _ => .inl
      rintro e ⟨⟩
      exact received_establish (hm.unread hnone)

end Actions

end UtpGo
