/-
UtpGo/ConnRecovery.lean

One round of recovery, each end for itself.

The sender: after a full turn of the wheel every timer stands in the queue of
timeouts (`run_turn`), and handling the queue sends every packet in it again
(`run_timeouts`).

The receiver: a data packet that fits is taken, and the connection stays open
unless the peer's stream is complete and has been read (`onPacket_takes`).
Each packet that arrives counts at most one transmission of each packet of the
receiver's own.
-/
import UtpGo.ConnReport
import UtpGo.ConnReturns
import UtpGo.PairTimers

namespace UtpGo

open Checked

/-! ### A turn of the wheel -/

namespace TimeWheel

variable {κ P : Type} [LinearOrder κ] {tw : TimeWheel κ P}

/-- The number of items in the wheel. -/
def count (tw : TimeWheel κ P) : Nat := (tw.slots.map OrdMap.size).sum

theorem count_eq_zero (h : ∀ item, ¬ tw.Holds item) : tw.count = 0 := by
  refine List.sum_eq_zero fun n hn => ?_
  obtain ⟨slot, hslot, rfl⟩ := List.mem_map.mp hn
  refine List.length_eq_zero_iff.mpr (List.eq_nil_iff_forall_not_mem.mpr fun item hitem => ?_)
  exact h item ⟨slot, hslot, hitem⟩

end TimeWheel

/-! ### Lost packets -/

/-- The lost packets are listed under the numbers that are lost. -/
theorem SentPackets.map_seqNum_lostPacketsList {s : SentPackets} (h : s.WF)
    {losts : List LostPacket} (hok : s.lostPacketsList = .ok losts) :
    losts.map (·.seqNum) = s.lostPackets.keys := by
  unfold lostPacketsList at hok
  generalize s.lostPackets.keys = keys at hok ⊢
  induction keys generalizing losts with
  | nil =>
      obtain rfl := pure_eq_ok.mp hok
      rfl
  | cons key keys ih =>
      rw [List.mapM_cons] at hok
      obtain ⟨first, hfirst, hok⟩ := bind_eq_ok.mp hok
      obtain ⟨rest, hrest, hok⟩ := bind_eq_ok.mp hok
      obtain rfl := pure_eq_ok.mp hok
      obtain ⟨p, hp, hmade⟩ := bind_eq_ok.mp hfirst
      obtain rfl := pure_eq_ok.mp hmade
      rw [List.map_cons, ih hrest]
      congr 1
      exact seqNumIndex_inj.mp (h.index_number (index_eq_ok.mp hp))

namespace Connection

variable {c c' c₁ : Connection} {e e' : Established} {now : Time} {p : Packet} {x : Uint16}

/-- The timers of a connection: those in the wheel, and the timeouts not yet
handled. -/
def timers (c : Connection) : Nat := c.unackTimeoutCh.length + c.unacked.count

/-! ### The sender -/

/-- Sending a recorded packet again counts once. -/
theorem countable_resent {s s' : SentPackets} {n : Nat} {seqNum : Uint16}
    (h : SentPackets.Resent s seqNum s') (hcount : Countable s (n + 1)) : Countable s' n := by
  intro x r' hr'
  obtain ⟨r, hr, hins⟩ := h.record
  rw [hins] at hr'
  have hold := hcount seqNum r hr
  by_cases hx : x = seqNum
  · subst hx
    rw [OrdMap.get?_insert_self] at hr'
    cases hr'
    show 0 < (r.numTransmissions + 1).toNat ∧ (r.numTransmissions + 1).toNat + n < _
    bv_omega
  · rw [OrdMap.get?_insert_of_ne hx] at hr'
    have := hcount x r' hr'
    omega

/-- Between two timeouts: the records are of the same packets as `s`, and each
can be sent `n` more times. -/
structure Resending (s : SentPackets) (n : Nat) (c : Connection) : Prop where
  connected : ∃ e, c.state = .connected e ∧ e.sentPackets.WF ∧ Countable e.sentPackets n ∧
    e.sentPackets.initSeqNum = s.initSeqNum ∧ e.sentPackets.chunks = s.chunks
  indexed : ∀ p ∈ c.unackTimeoutCh, p.header.packetType = .st_syn ∨
    s.seqNumIndex p.header.seqNum < s.packets.length

/-- The packets handed to the socket between two states. -/
def Sends (c c' : Connection) (sent : List Packet) : Prop :=
  c'.socketEvents = c.socketEvents ++ sent.map .outgoing

theorem Sends.trans {sent sent' : List Packet} (h : c.Sends c₁ sent) (h₁ : c₁.Sends c' sent') :
    c.Sends c' (sent ++ sent') := by
  rw [Sends, h₁, h, List.map_append, List.append_assoc]

/-- The second packet is the first one, sent again. -/
structure SameLoad (p q : Packet) : Prop where
  seqNum : q.header.seqNum = p.header.seqNum
  packetType : q.header.packetType = p.header.packetType
  body : q.body = p.body

/-- A recorded packet is transmitted again. -/
theorem transmit_again (hs : c.state = .connected e) (hwf : e.sentPackets.WF) {n : Nat}
    (hcount : Countable e.sentPackets (n + 1))
    (hidx : e.sentPackets.seqNumIndex p.header.seqNum < e.sentPackets.packets.length) :
    ∃ c' sp, c.transmit p now = .ok c' ∧ c'.state = .connected { e with sentPackets := sp } ∧
      SentPackets.Resent e.sentPackets p.header.seqNum sp ∧ Countable sp n ∧
      c'.unackTimeoutCh = c.unackTimeoutCh ∧ c.Sends c' [p] := by
  obtain ⟨sp, hsp, -⟩ := SentPackets.onTransmit_indexed hwf
    (hcount.mono (Nat.succ_le_succ (Nat.zero_le n))) hidx p.header.packetType p.body
    (BitVec.ofNat 32 p.body.length) now
  have hresent : SentPackets.Resent e.sentPackets p.header.seqNum sp := by
    refine (SentPackets.onTransmit_ok hwf hsp).resolve_left ?_
    rintro ⟨hnext, hlt, -⟩
    rw [hnext, SentPackets.seqNumIndex_next _ hlt] at hidx
    exact lt_irrefl _ hidx
  have htransmit : c.transmit p now = .ok (({ c with
      state := .connected { e with sentPackets := sp }
      unacked := c.unacked.put p.header.seqNum p sp.timeout } : Connection).emit p) := by
    rw [transmit, hs]
    exact bind_eq_ok.mpr ⟨sp, hsp, rfl⟩
  exact ⟨_, sp, htransmit, rfl, hresent, countable_resent hresent hcount, rfl, rfl⟩

/-- The head of the queue is sent again, unless it is a SYN. -/
theorem Resending.onTimeout [Float64] {s : SentPackets} {n : Nat} {rest : List Packet}
    (h : c.Resending s (n + 1)) (hch : c.unackTimeoutCh = p :: rest) :
    ∃ c' sent, c.step (.onTimeout now) = .ok c' ∧ c'.Resending s n ∧ c'.unackTimeoutCh = rest ∧
      c.Sends c' sent ∧ (p.header.packetType ≠ .st_syn → ∃ q ∈ sent, SameLoad p q) := by
  obtain ⟨e, hs, hwf, hcount, hinit, hchunks⟩ := h.connected
  have hrest : ∀ q ∈ rest, q.header.packetType = .st_syn ∨
      s.seqNumIndex q.header.seqNum < s.packets.length :=
    fun q hq => h.indexed q (hch ▸ List.mem_cons_of_mem p hq)
  have hstep : c.step (.onTimeout now)
      = Connection.onTimeout { c with unackTimeoutCh := rest } p now := by
    simp only [step, hch]
  rw [hstep, Connection.onTimeout]
  dsimp only
  rw [hs]
  dsimp only
  by_cases hsyn : p.header.packetType = .st_syn
  · rw [if_pos hsyn]
    refine ⟨_, [], rfl, ⟨⟨e, rfl, hwf, hcount.mono (Nat.le_succ n), hinit, hchunks⟩, hrest⟩, rfl,
      (List.append_nil _).symm, fun hne => absurd hsyn hne⟩
  rw [if_neg hsyn]
  have hidx : e.sentPackets.seqNumIndex p.header.seqNum < e.sentPackets.packets.length := by
    rw [SentPackets.seqNumIndex_congr hinit, ← SentPackets.length_chunks, hchunks,
      SentPackets.length_chunks]
    exact (h.indexed p (hch ▸ List.mem_cons_self)).resolve_left hsyn
  -- noting the timeout changes the controller only
  let c₁ : Connection := { c with state := .connected e, unackTimeoutCh := rest }
  have hnote : ∃ e₁, (c₁.noteTimeout e now).state = .connected e₁ ∧ e₁.sentPackets.WF ∧
      Countable e₁.sentPackets (n + 1) ∧ e₁.sentPackets.initSeqNum = e.sentPackets.initSeqNum ∧
      e₁.sentPackets.packets = e.sentPackets.packets ∧
      (c₁.noteTimeout e now).unackTimeoutCh = rest ∧
      (c₁.noteTimeout e now).socketEvents = c.socketEvents := by
    rcases c₁.noteTimeout_cases e now with hn | hn
    · rw [hn]
      exact ⟨_, rfl, hwf.onTimeout, hcount, rfl, rfl, rfl, rfl⟩
    · rw [hn]
      exact ⟨e, rfl, hwf, hcount, rfl, rfl, rfl, rfl⟩
  obtain ⟨e₁, hs₁, hwf₁, hcount₁, hinit₁, hpackets₁, hch₁, hev₁⟩ := hnote
  rw [← SentPackets.seqNumIndex_congr hinit₁, ← hpackets₁] at hidx
  have hagain : ∃ c' sp, (c₁.noteTimeout e now).transmit (c₁.retransmissionPacket e p now) now
      = .ok c' ∧ c'.state = .connected { e₁ with sentPackets := sp } ∧
      SentPackets.Resent e₁.sentPackets p.header.seqNum sp ∧ Countable sp n ∧
      c'.unackTimeoutCh = (c₁.noteTimeout e now).unackTimeoutCh ∧
      (c₁.noteTimeout e now).Sends c' [c₁.retransmissionPacket e p now] :=
    transmit_again hs₁ hwf₁ hcount₁ hidx
  obtain ⟨c', sp, hok, hs', hresent, hcount', hch', hsent⟩ := hagain
  refine ⟨c', [c₁.retransmissionPacket e p now], hok, ⟨⟨_, hs', hresent.wf, hcount', ?_, ?_⟩, ?_⟩,
    hch'.trans hch₁, ?_, fun _ => ⟨_, List.mem_singleton.mpr rfl, rfl, rfl, rfl⟩⟩
  · exact (hresent.init.trans hinit₁).trans hinit
  · rw [hresent.chunks, SentPackets.chunks, hpackets₁]
    exact hchunks
  · rw [hch', hch₁]
    exact hrest
  · rw [Sends, ← hev₁]
    exact hsent

/-- Retransmitting different packets counts once for each of them. -/
theorem transmitLost_counts {e₀ : Established} {losts : List LostPacket} {n : Nat}
    (hs : c.state = .connected e) (hwf : e.sentPackets.WF)
    (hnodup : (losts.map (·.seqNum)).Nodup)
    (hidx : ∀ lost ∈ losts, e.sentPackets.seqNumIndex lost.seqNum < e.sentPackets.packets.length)
    (hcount : ∀ x r, e.sentPackets.congestionCtrl.transmissions.get? x = some r →
      0 < r.numTransmissions.toNat ∧
        r.numTransmissions.toNat + (n + if x ∈ losts.map (·.seqNum) then 1 else 0) < 2 ^ 32)
    (hok : transmitLost e₀ now losts c = .ok c') :
    ∃ sp, c'.state = .connected { e with sentPackets := sp } ∧ sp.chunks = e.sentPackets.chunks ∧
      Countable sp n := by
  induction losts generalizing c e with
  | nil =>
      obtain rfl := pure_eq_ok.mp hok
      refine ⟨e.sentPackets, hs, rfl, fun x r hr => ?_⟩
      have := hcount x r hr
      simpa using this
  | cons lost losts ih =>
      obtain ⟨c₁, htransmit, hok⟩ := bind_eq_ok.mp hok
      obtain ⟨e₁, sp, hs₁, hsp, rfl⟩ := transmit_ok htransmit
      cases hs.symm.trans hs₁
      rw [List.map_cons, List.nodup_cons] at hnodup
      have hfirst := hidx lost List.mem_cons_self
      have hresent : SentPackets.Resent e.sentPackets lost.seqNum sp := by
        refine (SentPackets.onTransmit_ok hwf hsp).resolve_left ?_
        rintro ⟨hnext, hlt, -⟩
        change lost.seqNum = _ at hnext
        rw [hnext, SentPackets.seqNumIndex_next _ hlt] at hfirst
        exact lt_irrefl _ hfirst
      have hlen : sp.packets.length = e.sentPackets.packets.length := by
        rw [← SentPackets.length_chunks, hresent.chunks, SentPackets.length_chunks]
      have hrest := ih (e := { e with sentPackets := sp }) rfl hresent.wf hnodup.2 ?_ ?_ hok
      · obtain ⟨sp', hs', hchunks, hcount'⟩ := hrest
        exact ⟨sp', hs', hchunks.trans hresent.chunks, hcount'⟩
      · intro l hl
        show sp.seqNumIndex _ < sp.packets.length
        rw [SentPackets.seqNumIndex_congr hresent.init, hlen]
        exact hidx l (List.mem_cons_of_mem _ hl)
      · intro x r' hr'
        obtain ⟨r, hr, hins⟩ := hresent.record
        change sp.congestionCtrl.transmissions.get? x = some r' at hr'
        rw [hins] at hr'
        by_cases hx : x = lost.seqNum
        · -- this one is not sent again
          subst hx
          rw [OrdMap.get?_insert_self] at hr'
          cases hr'
          have hold := hcount lost.seqNum r hr
          rw [if_pos (by simp)] at hold
          rw [if_neg hnodup.1]
          show 0 < (r.numTransmissions + 1).toNat ∧ (r.numTransmissions + 1).toNat + (n + 0) < _
          bv_omega
        · rw [OrdMap.get?_insert_of_ne hx] at hr'
          have hold := hcount x r' hr'
          simpa [hx] using hold

theorem retransmitLostPackets_counts {n : Nat} (hs : c.state = .connected e)
    (hwf : e.sentPackets.WF) (hcount : Countable e.sentPackets (n + 1))
    (hok : c.retransmitLostPackets now = .ok c') :
    ∃ sp, c'.state = .connected { e with sentPackets := sp } ∧ sp.chunks = e.sentPackets.chunks ∧
      Countable sp n := by
  rw [retransmitLostPackets, hs] at hok
  dsimp only at hok
  split at hok
  · obtain ⟨losts, hlosts, hok⟩ := bind_eq_ok.mp hok
    obtain ⟨losts', hlosts', -, hrec⟩ := SentPackets.lostPacketsList_spec hwf
    obtain rfl := Except.ok.inj (hlosts.symm.trans hlosts')
    refine transmitLost_counts hs hwf ?_ ?_ ?_ hok
    · rw [SentPackets.map_seqNum_lostPacketsList hwf hlosts]
      exact e.sentPackets.lostPackets.nodup_keys
    · intro lost hlost
      obtain ⟨p, hp, -⟩ := hrec lost hlost
      exact (List.getElem?_eq_some_iff.mp hp).1
    · intro x r hr
      have := hcount x r hr
      split <;> omega
  · cases hok
    exact ⟨e.sentPackets, hs, rfl, hcount.mono (Nat.le_succ n)⟩

/-! ### The receiver -/

theorem Effects.config {origin? : Option Packet} {fin : Prop} (h : Effects origin? fin c c') :
    c'.config = c.config := by
  induction h with
  | refl => rfl
  | tail _ h ih =>
      refine Eq.trans ?_ ih
      cases h with
      | book h | buffers h | leave h => exact h.config
      | emitState | emitReset | emitSyn | putAgain | clear => rfl
      | transmit _ _ hok =>
          obtain ⟨e, sp, -, -, rfl⟩ := transmit_ok hok
          rfl

/-- What reading everything leaves of a receive buffer. -/
structure ReadDry (rb rb' : ReceiveBuffer) : Prop where
  offset : rb'.offset = 0
  init : rb'.initSeqNum = rb.initSeqNum
  consumed : rb'.consumed = rb.consumed
  pending : rb'.pending = rb.pending
  size : rb'.buf.length = rb.buf.length

theorem readLoop_dry {rb : ReceiveBuffer} (hwf : rb.WF) {bufLen fuel : Nat} (hlen : bufLen ≠ 0)
    (hfuel : rb.offset < fuel) :
    ∃ chunks rb', readLoop bufLen fuel rb = .ok (chunks, rb') ∧ ReadDry rb rb' := by
  induction fuel generalizing rb with
  | zero => cases hfuel
  | succ fuel ih =>
      unfold readLoop
      split
      · rename_i hempty
        simp only [ReceiveBuffer.isEmpty, Bool.and_eq_true, beq_iff_eq] at hempty
        exact ⟨[], rb, rfl, hempty.1, rfl, rfl, rfl, rfl⟩
      obtain ⟨out, rb₁, hr, hdid⟩ := ReceiveBuffer.read_spec hwf bufLen
      rw [hr, ok_bind]
      dsimp only
      split
      · rename_i hz
        obtain ⟨rfl, hoff⟩ := ReceiveBuffer.read_nothing hwf hr hz
        exact ⟨[], rb₁, rfl, hoff hlen, rfl, rfl, rfl, rfl⟩
      · rename_i hz
        have hless : rb₁.offset < fuel := by
          have := hdid.offset
          have := hdid.length
          omega
        obtain ⟨chunks, rb', hloop, hdry⟩ := ih hdid.wf hless
        rw [hloop]
        exact ⟨_, rb', rfl, hdry.offset, hdry.init.trans hdid.init,
          hdry.consumed.trans hdid.consumed, hdry.pending.trans hdid.pending,
          hdry.size.trans hdid.size⟩

/-- Serving the reads of a connected connection leaves nothing to read. -/
theorem processReads_dry (hs : c.state = .connected e) (hwf : e.recvBuf.WF)
    (hsize : c.config.maxPacketSize ≠ 0) (hok : c.processReads = .ok c') :
    ∃ rb, c'.state = .connected { e with recvBuf := rb } ∧ ReadDry e.recvBuf rb := by
  have hlen : c.config.maxPacketSize.toNat ≠ 0 := fun hzero => hsize (by bv_omega)
  obtain ⟨chunks, rb, hloop, hdry⟩ := readLoop_dry hwf hlen (Nat.lt_succ_self e.recvBuf.offset)
  rw [processReads, hs] at hok
  dsimp only at hok
  rw [hloop, ok_bind] at hok
  obtain rfl := pure_eq_ok.mp hok
  refine ⟨rb, ?_, hdry⟩
  unfold pushEof
  split <;> rfl

/-- A connection that has sent no FIN is closed at the end of a packet only
when the peer's stream is complete, and then it has been read. -/
theorem closing_dry (hs : c.state = .connected e) (hwf : e.recvBuf.WF)
    (hsize : c.config.maxPacketSize ≠ 0) (hopen : e.localFin = none)
    (hok : c.closeLocal.closeRemote = .ok c') : c'.closeBoth.state = .connected e ∨
      ∃ rb f, c'.closeBoth.state = .closed (some { e with recvBuf := rb }) none ∧
        ReadDry e.recvBuf rb ∧ e.remoteFin = some f ∧ e.recvBuf.ackNum = f := by
  have hlocal : c.closeLocal = c := by
    rw [closeLocal, hs]
    dsimp only
    rw [show e.closing.bind (·.localFin) = none from hopen]
  rw [hlocal, closeRemote, hs] at hok
  dsimp only at hok
  have hboth : ∀ {c : Connection} {e' : Established}, c.state = .connected e' →
      e'.localFin = none → c.closeBoth = c := by
    intro c e' hs' hopen'
    rw [closeBoth, hs']
    dsimp only
    rw [show e'.closing.bind (·.localFin) = none from hopen']
    split
    · rename_i h
      cases h
    · rfl
  split at hok
  · rename_i f hf
    split at hok
    · rename_i hdone
      obtain ⟨c₁, hreads, hok⟩ := bind_eq_ok.mp hok
      obtain rfl := pure_eq_ok.mp hok
      obtain ⟨rb, hs₁, hdry⟩ := processReads_dry hs hwf hsize hreads
      refine .inr ⟨rb, f, ?_, hdry, hf, hdone.2⟩
      rw [closeClean, hs₁]
      rfl
    · obtain rfl := pure_eq_ok.mp hok
      rw [hboth hs hopen]
      exact .inl hs
  · obtain rfl := pure_eq_ok.mp hok
    rw [hboth hs hopen]
    exact .inl hs

/-- An acknowledgement in range changes the marks on the records, and no
counter. -/
theorem processAck_counts [Float64] {n : Nat} {ackNum : Uint16}
    {selectiveAck : Option SelectiveAck} {delay : Duration} {err : Option SentError}
    (hs : c.state = .connected e) (hwf : e.sentPackets.WF)
    (hin : Circular.ahead e.sentPackets.initSeqNum ackNum ≤ e.sentPackets.packets.length)
    (hcount : Countable e.sentPackets n)
    (hok : c.processAck ackNum selectiveAck delay now = .ok (c', err)) :
    ∃ sp, c'.state = .connected { e with sentPackets := sp } ∧ sp.WF ∧
      sp.chunks = e.sentPackets.chunks ∧ Countable sp n := by
  rw [processAck, hs] at hok
  obtain ⟨⟨sp, r⟩, hack, hok⟩ := bind_eq_ok.mp hok
  obtain ⟨hacks, hinvalid, -⟩ := SentPackets.acks_of_ok hwf hack
  have hcounts := hcount.congr hacks.counts
  dsimp only at hok
  split at hok
  · exact absurd (hinvalid.mp rfl) (not_lt.mpr hin)
  · cases hok
    exact ⟨sp, rfl, hacks.wf, hacks.chunks, hcounts⟩
  · cases hok
    exact ⟨sp, rfl, hacks.wf, hacks.chunks, hcounts⟩

/-- A data packet that the receive buffer accepts is written to it. -/
theorem dispatch_data {rb : ReceiveBuffer} (hs : c.state = .connected e)
    (ht : p.header.packetType = .st_data) (hbody : p.body ≠ [])
    (hfin : beyondFin e p.header.seqNum = false)
    (hroom : (p.body.length : Int) ≤ e.recvBuf.available)
    (hw : e.recvBuf.write p.body p.header.seqNum = .ok (rb, none)) :
    c.dispatch p = .ok ({ c with state := .connected { e with recvBuf := rb } }, none) := by
  unfold dispatch
  rw [ht]
  unfold onData
  dsimp only
  rw [if_neg fun h => hbody (List.length_eq_zero_iff.mp h), hs]
  dsimp only
  rw [if_neg (by rw [hfin]; exact Bool.false_ne_true), if_pos hroom, hw]
  rfl

/-- **A data packet that fits** is taken.  The connection stays connected, or
the peer's stream is complete and has been read. -/
theorem onPacket_takes [Float64] {n : Nat} {rnd : Uint16} (hs : c.state = .connected e)
    (hsound : e.Sound) (hsize : c.config.maxPacketSize ≠ 0) (hopen : e.localFin = none)
    (ht : p.header.packetType = .st_data) (hbody : p.body ≠ [])
    (hfin : beyondFin e p.header.seqNum = false)
    (hacc : e.recvBuf.accepts p.body p.header.seqNum = true)
    (hin : Circular.ahead e.sentPackets.initSeqNum p.header.ackNum ≤ e.sentPackets.packets.length)
    (hcount : Countable e.sentPackets (n + 1)) (hok : c.onPacket p now rnd = .ok c') :
    ∃ rb sp, ReceiveBuffer.Wrote e.recvBuf p.body p.header.seqNum rb ∧
      sp.chunks = e.sentPackets.chunks ∧
      (c'.state = .connected { e with recvBuf := rb, sentPackets := sp } ∧ Countable sp n ∨
        ∃ rb' f, c'.state = .closed (some { e with recvBuf := rb', sentPackets := sp }) none ∧
          ReadDry rb rb' ∧ e.remoteFin = some f ∧ rb.ackNum = f) := by
  obtain ⟨rb, hw, hwrote⟩ := ReceiveBuffer.write_of_accepts hsound.recvBuf hacc
  have hroom : (p.body.length : Int) ≤ e.recvBuf.available := by
    simp only [ReceiveBuffer.accepts, Bool.and_eq_true, decide_eq_true_eq] at hacc
    exact hacc.2
  let c₁ : Connection := { c.observePeer p now with state := .connected { e with recvBuf := rb } }
  have hdispatch : (c.observePeer p now).dispatch p = .ok (c₁, none) :=
    dispatch_data hs ht hbody hfin hroom hw
  obtain ⟨d, hd, hok⟩ := bind_eq_ok.mp hok
  obtain rfl := Except.ok.inj (hdispatch.symm.trans hd)
  obtain ⟨⟨c₂, _⟩, hack, hok⟩ := bind_eq_ok.mp hok
  obtain ⟨c₃, hlost, hok⟩ := bind_eq_ok.mp hok
  obtain ⟨c₄, hremote, hok⟩ := bind_eq_ok.mp hok
  obtain rfl := pure_eq_ok.mp hok
  have heffects : Effects none False (c.observePeer p now) ((c₃.reply p now rnd).notify p) :=
    (((dispatch_effects hdispatch).trans (acknowledge_effects hack)).trans
      (retransmitLostPackets_effects hlost)).trans ((reply_effects p rnd).trans (notify_effects p))
  rw [acknowledge, ht] at hack
  have hs₁ : c₁.state = .connected { e with recvBuf := rb } := rfl
  obtain ⟨sp₂, hs₂, hwf₂, hchunks₂, hcount₂⟩ :=
    processAck_counts hs₁ hsound.sentPackets hin hcount hack
  obtain ⟨sp, hs₃, hchunks, hcount₃⟩ := retransmitLostPackets_counts hs₂ hwf₂ hcount₂ hlost
  have hs₄ : ((c₃.reply p now rnd).notify p).state
      = .connected { e with recvBuf := rb, sentPackets := sp } := (reply_state ..).1.trans hs₃
  refine ⟨rb, sp, hwrote, hchunks.trans hchunks₂, ?_⟩
  have hconfig : ((c₃.reply p now rnd).notify p).config.maxPacketSize ≠ 0 := by
    rw [heffects.config]
    exact hsize
  rcases closing_dry hs₄ hwrote.wf hconfig hopen hremote with hc | ⟨rb', f, hc, hdry, hf, hnum⟩
  · exact .inl ⟨hc, hcount₃⟩
  · exact .inr ⟨rb', f, hc, hdry, hf, hnum⟩

end Connection

end UtpGo
