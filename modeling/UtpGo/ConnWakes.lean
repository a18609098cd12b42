/-
UtpGo/ConnWakes.lean

How the reader of a connection is woken up.  The loop serves reads when it
finds a signal on `readable`.  Every packet that can add to the stream leaves a
signal there (`notify`), and a signal is taken only to serve all that can be
read.  So data that arrived in order never waits without a signal, nor does the
end of the stream (`Roused`).

Main result: `run_wakes_reader`, a reader for whom no signal is pending has got
everything that was received in order.
-/
import UtpGo.ConnReads
import UtpGo.ConnRecovery

namespace UtpGo

open Checked

namespace Connection

variable {c c' c₁ : Connection} {e : Established} {now : Time} {p : Packet}

/-! ### The side of the reader -/

/-- Nothing has changed for the reader, unless the connection has been
closed. -/
structure KeepsReader (c c' : Connection) : Prop where
  readable : c'.readable = c.readable
  reads : c'.reads = c.reads
  connected : ∀ e', c'.state = .connected e' → ∃ e, c.state = .connected e ∧
    e'.recvBuf = e.recvBuf ∧ e'.remoteFin = e.remoteFin

namespace KeepsReader

theorem refl (c : Connection) : KeepsReader c c := ⟨rfl, rfl, fun e hs => ⟨e, hs, rfl, rfl⟩⟩

theorem trans (h : KeepsReader c c₁) (h₁ : KeepsReader c₁ c') : KeepsReader c c' where
  readable := h₁.readable.trans h.readable
  reads := h₁.reads.trans h.reads
  connected := by
    intro e' hs'
    obtain ⟨e₁, hs₁, hrb₁, hfin₁⟩ := h₁.connected e' hs'
    obtain ⟨e, hs, hrb, hfin⟩ := h.connected e₁ hs₁
    exact ⟨e, hs, hrb₁.trans hrb, hfin₁.trans hfin⟩

theorem of_state (hr : c'.readable = c.readable) (hreads : c'.reads = c.reads)
    (hstate : c'.state = c.state) : KeepsReader c c' :=
  ⟨hr, hreads, fun e' hs' => ⟨e', hstate ▸ hs', rfl, rfl⟩⟩

theorem of_connected {e' : Established} (hr : c'.readable = c.readable)
    (hreads : c'.reads = c.reads) (hs : c.state = .connected e) (hs' : c'.state = .connected e')
    (hrb : e'.recvBuf = e.recvBuf) (hfin : e'.remoteFin = e.remoteFin) : KeepsReader c c' := by
  refine ⟨hr, hreads, fun e₁ hs₁ => ⟨e, hs, ?_⟩⟩
  cases hs'.symm.trans hs₁
  exact ⟨hrb, hfin⟩

theorem of_closed (hr : c'.readable = c.readable) (hreads : c'.reads = c.reads)
    (hclosed : c'.Closed) : KeepsReader c c' :=
  ⟨hr, hreads, fun _ hs' => (hclosed.not_connected hs').elim⟩

end KeepsReader

theorem keepsReader_reset (err : ConnError) : KeepsReader c (c.reset err) := by
  refine .of_closed ?_ ?_ (c.reset_closed err) <;> rw [reset_eq]

theorem keepsReader_transmit (hok : c.transmit p now = .ok c') : KeepsReader c c' := by
  obtain ⟨e, sp, hs, -, rfl⟩ := transmit_ok hok
  exact .of_connected rfl rfl hs rfl rfl rfl

theorem keepsReader_transmitPayloads {e₀ : Established} {payloads : List Bytes} {seqNum : Uint16}
    (hok : transmitPayloads e₀ now payloads seqNum c = .ok c') : KeepsReader c c' := by
  induction payloads generalizing seqNum c with
  | nil =>
      obtain rfl := pure_eq_ok.mp hok
      exact .refl c
  | cons payload payloads ih =>
      obtain ⟨c₁, htransmit, hok⟩ := bind_eq_ok.mp hok
      exact (keepsReader_transmit htransmit).trans (ih hok)

theorem keepsReader_transmitLost {e₀ : Established} {losts : List LostPacket}
    (hok : transmitLost e₀ now losts c = .ok c') : KeepsReader c c' := by
  induction losts generalizing c with
  | nil =>
      obtain rfl := pure_eq_ok.mp hok
      exact .refl c
  | cons lost losts ih =>
      obtain ⟨c₁, htransmit, hok⟩ := bind_eq_ok.mp hok
      exact (keepsReader_transmit htransmit).trans (ih hok)

theorem keepsReader_retransmitLostPackets (hok : c.retransmitLostPackets now = .ok c') :
    KeepsReader c c' := by
  unfold retransmitLostPackets at hok
  split at hok
  · split at hok
    · obtain ⟨losts, -, hok⟩ := bind_eq_ok.mp hok
      exact keepsReader_transmitLost hok
    · cases hok
      exact .refl c
  · cases hok
    exact .refl c

theorem keepsReader_processWrites (hok : c.processWrites now = .ok c') : KeepsReader c c' := by
  unfold processWrites at hok
  split at hok
  · cases hok
    exact .refl c
  · cases hok
    exact .of_state rfl rfl rfl
  · rename_i e hs
    obtain ⟨⟨payloads, sb⟩, -, hok⟩ := bind_eq_ok.mp hok
    obtain ⟨r, -, hok⟩ := bind_eq_ok.mp hok
    refine KeepsReader.trans ?_ (keepsReader_transmitPayloads hok)
    exact .of_connected rfl rfl hs rfl rfl rfl

theorem keepsReader_onWrite {data : Bytes} {resultCh : Nat}
    (hok : c.onWrite data resultCh now = .ok c') : KeepsReader c c' := by
  obtain ⟨c₁, hwrites, hok⟩ := bind_eq_ok.mp hok
  obtain rfl := pure_eq_ok.mp hok
  have h₁ := keepsReader_processWrites hwrites
  refine KeepsReader.trans ?_ (h₁.trans (.of_state rfl rfl rfl))
  split <;> exact .of_state rfl rfl rfl

theorem keepsReader_shutdown (hok : c.shutdown now = .ok c') : KeepsReader c c' := by
  rcases shutdown_inv hok with rfl | ⟨-, rfl⟩ | ⟨e, hs, hnone, rfl⟩ | ⟨e, hs, -, -, -, htransmit⟩
  · exact .refl _
  · exact .of_closed rfl rfl ⟨_, _, rfl⟩
  · refine .of_connected rfl rfl hs rfl rfl ?_
    rw [Established.remoteFin, Established.remoteFin, hnone]
    rfl
  · refine KeepsReader.trans ?_ (keepsReader_transmit htransmit)
    exact .of_connected rfl rfl hs rfl rfl rfl

theorem keepsReader_onTimeout (hok : c.onTimeout p now = .ok c') : KeepsReader c c' := by
  unfold onTimeout at hok
  split at hok
  · rename_i hs
    split at hok
    · cases hok
      exact .refl c
    · split at hok
      · cases hok
        exact .of_closed rfl rfl ⟨_, _, rfl⟩
      · obtain ⟨unacked, -, hok⟩ := bind_eq_ok.mp hok
        cases hok
        exact .of_state rfl rfl rfl
  · rename_i e hs
    split at hok
    · cases hok
      exact .refl c
    · refine KeepsReader.trans ?_ (keepsReader_transmit hok)
      rcases c.noteTimeout_cases e now with h | h
      · rw [h]
        exact .of_connected rfl rfl hs rfl rfl rfl
      · rw [h]
        exact .refl c
  · cases hok
    exact .refl c

theorem keepsReader_reply (p : Packet) (rnd : Uint16) : KeepsReader c (c.reply p now rnd) := by
  unfold reply
  split
  · split
    · exact .refl c
    · split <;> exact .of_state rfl rfl rfl
  · cases c.statePacket now <;> exact .of_state rfl rfl rfl
  · cases c.statePacket now <;> exact .of_state rfl rfl rfl
  · exact .refl c

theorem keepsReader_closeLocal : KeepsReader c c.closeLocal := by
  unfold closeLocal
  split
  · split
    · split
      · exact .of_closed rfl rfl ⟨_, _, rfl⟩
      · exact .refl c
    · exact .refl c
  · exact .refl c

theorem keepsReader_closeBoth : KeepsReader c c.closeBoth := by
  unfold closeBoth
  split
  · rename_i e hs
    split
    · unfold closeClean
      rw [hs]
      exact .of_closed rfl rfl ⟨_, _, rfl⟩
    · exact .refl c
  · exact .refl c

theorem keepsReader_acknowledge [Float64] {err : Option SentError}
    (hok : c.acknowledge p now = .ok (c', err)) : KeepsReader c c' := by
  rcases acknowledge_cases hok with ⟨-, delay, hok⟩ | rfl
  swap
  · exact .refl _
  unfold processAck at hok
  split at hok
  swap
  · cases hok
    exact .refl c
  rename_i e hs
  obtain ⟨⟨sp, r⟩, -, hok⟩ := bind_eq_ok.mp hok
  dsimp only at hok
  let c₁ : Connection := { c with state := .connected { e with sentPackets := sp } }
  have h₁ : KeepsReader c c₁ := .of_connected rfl rfl hs rfl rfl rfl
  split at hok
  · cases hok
    exact h₁.trans (keepsReader_reset _)
  · cases hok
    exact h₁
  · cases hok
    exact .of_connected rfl rfl hs rfl rfl rfl

/-! ### Nothing waits unnoticed -/

/-- The packets that leave a signal for the reader. -/
def Rousing (p : Packet) : Prop := p.body.length > 0 ∨ p.header.packetType = .st_fin

/-- What a connected connection has for its reader is announced by a signal:
data that can be read, and the end of the stream until it is reported. -/
structure Roused (c : Connection) : Prop where
  data : ∀ e, c.state = .connected e → 0 < e.recvBuf.offset → 0 < c.readable
  ended : ∀ e, c.state = .connected e → e.remoteFin = some e.recvBuf.ackNum →
    0 < c.readable ∨ eofResult ∈ c.reads

theorem Roused.of_closed (h : c.Closed) : c.Roused :=
  ⟨fun _ hs => (h.not_connected hs).elim, fun _ hs => (h.not_connected hs).elim⟩

theorem Roused.of_readable (h : 0 < c.readable) : c.Roused := ⟨fun _ _ _ => h, fun _ _ _ => .inl h⟩

theorem Roused.of_fresh (hoff : e.recvBuf.offset = 0) (hfin : e.remoteFin = none)
    (hs : c.state = .connected e) : c.Roused := by
  constructor
  · intro e' hs' hpos
    cases hs.symm.trans hs'
    omega
  · intro e' hs' hend
    cases hs.symm.trans hs'
    cases hfin.symm.trans hend

theorem Roused.keep (h : c.Roused) (hkeep : KeepsReader c c') : c'.Roused := by
  constructor
  · intro e' hs' hpos
    obtain ⟨e, hs, hrb, -⟩ := hkeep.connected e' hs'
    rw [hkeep.readable]
    exact h.data e hs (hrb ▸ hpos)
  · intro e' hs' hend
    obtain ⟨e, hs, hrb, hfin⟩ := hkeep.connected e' hs'
    rw [hkeep.readable, hkeep.reads]
    exact h.ended e hs (by rw [← hfin, hend, hrb])

/-- A packet that leaves no signal does not touch the receive buffer, except
that it may create one. -/
theorem Roused.dispatch {err : Option HandleError} (h : c.Roused) (hp : ¬ Rousing p)
    (hok : c.dispatch p = .ok (c', err)) : c'.Roused := by
  unfold Connection.dispatch at hok
  split at hok
  · cases hok
    refine h.keep ?_
    unfold onSyn
    dsimp only
    split
    · exact .refl c
    · exact .refl c
    · exact keepsReader_reset _
  · cases hok
    unfold onState
    split
    · split
      · exact .of_fresh rfl rfl rfl
      · exact h
    · exact h
  · -- a DATA packet without data resets the connection
    have hnil : p.body.length = 0 := Nat.eq_zero_of_not_pos fun hpos => hp (.inl hpos)
    unfold onData at hok
    rw [if_pos hnil] at hok
    dsimp only at hok
    obtain ⟨e₁, err₁, hs₁⟩ := c.reset_closed .errEmptyDataPayload
    rw [hs₁] at hok
    cases hok
    exact .of_closed ⟨_, _, hs₁⟩
  · exact absurd (.inr ‹_›) hp
  · cases hok
    refine h.keep ?_
    unfold onReset
    split
    · exact .refl c
    · exact keepsReader_reset _

theorem roused_closeClean (c : Connection) : c.closeClean.Roused := by
  have hnot : ∀ e, c.closeClean.state ≠ .connected e := by
    intro e hs'
    unfold closeClean at hs'
    split at hs'
    · cases hs'
    · rename_i hs
      exact hs e hs'
  exact ⟨fun e hs => absurd hs (hnot e), fun e hs => absurd hs (hnot e)⟩

/-- Serving the reads leaves no data behind, and reports the end that has been
reached. -/
theorem roused_processReads (hwf : ∀ e, c.state = .connected e → e.recvBuf.WF)
    (hsize : c.config.maxPacketSize ≠ 0) (hok : c.processReads = .ok c') : c'.Roused := by
  rcases hs : c.state with - | e | ⟨e, err⟩
  · rw [processReads, hs] at hok
    cases hok
    constructor
    · intro e' hs'
      cases hs.symm.trans hs'
    · intro e' hs'
      cases hs.symm.trans hs'
  · obtain ⟨rb, hs', hdry⟩ := processReads_dry hs (hwf e hs) hsize hok
    constructor
    · intro e₁ hs₁ hpos
      cases hs'.symm.trans hs₁
      rw [show Established.recvBuf _ = rb from rfl, hdry.offset] at hpos
      cases hpos
    · intro e₁ hs₁ hend
      cases hs'.symm.trans hs₁
      refine .inr ?_
      rw [processReads, hs] at hok
      obtain ⟨⟨chunks, rb₁⟩, -, hok⟩ := bind_eq_ok.mp hok
      obtain rfl := pure_eq_ok.mp hok
      unfold pushEof at hs' ⊢
      split
      · exact List.mem_append_right _ (List.mem_singleton.mpr rfl)
      · -- the end has been reached, so it is reported
        rename_i heof
        rw [if_neg heof] at hs'
        cases hs'
        exact absurd ((eof_connected rfl).mpr hend) heof
  · rw [processReads, hs] at hok
    cases hok
    exact .of_closed ⟨e, err, rfl⟩

variable [Float64]

theorem Roused.onPacket {rnd : Uint16} (h : c.Roused) (hok : c.onPacket p now rnd = .ok c') :
    c'.Roused := by
  obtain ⟨⟨c₁, _⟩, hdispatch, hok⟩ := bind_eq_ok.mp hok
  obtain ⟨⟨c₂, _⟩, hack, hok⟩ := bind_eq_ok.mp hok
  obtain ⟨c₃, hlost, hok⟩ := bind_eq_ok.mp hok
  obtain ⟨c₄, hremote, hok⟩ := bind_eq_ok.mp hok
  obtain rfl := pure_eq_ok.mp hok
  have hnotified : ((c₃.reply p now rnd).notify p).Roused := by
    by_cases hp : Rousing p
    · refine .of_readable ?_
      rw [notify, show (if p.body.length > 0 ∨ p.header.packetType = .st_fin then
        signal (c₃.reply p now rnd).readable else (c₃.reply p now rnd).readable) = _ from if_pos hp]
      dsimp only [signal]
      omega
    · have h₁ : c₁.Roused :=
        (h.keep (.of_state rfl rfl rfl : KeepsReader c (c.observePeer p now))).dispatch hp hdispatch
      have h₃ : c₃.Roused := (h₁.keep (keepsReader_acknowledge hack)).keep
        (keepsReader_retransmitLostPackets hlost)
      have hreply : (c₃.reply p now rnd).Roused := h₃.keep (keepsReader_reply p rnd)
      refine hreply.keep (.of_state ?_ rfl rfl)
      exact if_neg hp
  refine Roused.keep ?_ keepsReader_closeBoth
  have hlocal := hnotified.keep keepsReader_closeLocal
  rcases closeRemote_cases hremote with rfl | ⟨c₅, hreads, rfl⟩
  · exact hlocal
  · exact roused_closeClean c₅

theorem Roused.step {ev : Event} {w : Bytes} (h : c.Roused) (hsound : Midcall.Sound ⟨c, none, w⟩)
    (hsize : c.config.maxPacketSize ≠ 0) (hok : c.step ev = .ok c') : c'.Roused := by
  cases ev with
  | onPacket p now rnd => exact h.onPacket hok
  | onWrite data resultCh now => exact h.keep (keepsReader_onWrite hok)
  | processWrites now =>
      have hsignal : KeepsReader c { c with writable := c.writable - 1 } := .of_state rfl rfl rfl
      exact h.keep (hsignal.trans (keepsReader_processWrites hok))
  | processReads =>
      have hwf : ∀ e, c.state = .connected e → e.recvBuf.WF :=
        fun e hs => (hsound e (established_connected hs)).recvBuf
      exact roused_processReads (c := { c with readable := c.readable - 1 }) hwf hsize hok
  | tick order =>
      simp only [Connection.step] at hok
      split at hok
      · cases hok
        exact h.keep (.of_state rfl rfl rfl)
      · cases hok
        exact h
  | onTimeout now =>
      simp only [Connection.step] at hok
      split at hok
      · cases hok
        exact h
      · rename_i p rest hch
        have hpop : KeepsReader c { c with unackTimeoutCh := rest } := .of_state rfl rfl rfl
        exact h.keep (hpop.trans (keepsReader_onTimeout hok))
  | onIdleTimeout =>
      cases hok
      unfold onIdleTimeout
      split
      · exact h
      · exact .of_closed ⟨_, _, rfl⟩
      · exact .of_closed ⟨_, _, rfl⟩
  | shutdown now => exact h.keep (keepsReader_shutdown hok)

omit [Float64] in
theorem roused_start (cid : ConnectionId) (config : ConnectionConfig) (syn : Option Packet)
    (rnd : Uint16) (now t₀ : Time) : ((newConnection cid config syn rnd now).start t₀).Roused := by
  cases syn with
  | none =>
      constructor
      · intro e hs
        cases hs
      · intro e hs
        cases hs
  | some syn => exact .of_fresh rfl rfl rfl

/-- A run from a state in which nothing waits unnoticed. -/
theorem Roused.run {config : ConnectionConfig} {got : Packet → Prop} {events : List Event}
    {w : Bytes} (h : c.Roused) (hsound : Midcall.Sound ⟨c, none, w⟩) (htraced : c.Traced got)
    (hconfig : c.config = config) (hsize : config.maxPacketSize ≠ 0)
    (hgot : ∀ ev ∈ events, ∀ p, ev.packet? = some p → got p) (hrun : c.run events = .ok c') :
    c'.Roused ∧ c'.Traced got ∧ c'.config = config := by
  induction events generalizing c w with
  | nil =>
      obtain rfl := pure_eq_ok.mp hrun
      exact ⟨h, htraced, hconfig⟩
  | cons ev events ih =>
      obtain ⟨c₁, hstep, hrun⟩ := bind_eq_ok.mp hrun
      obtain ⟨hand, -, hsound₁, hconfig₁, htraced₁⟩ := step_inv (w := w)
        (I := fun m => m.conn.config = config ∧ m.conn.Traced got)
        (fun m m' hact hs hI => ⟨hact.config.trans hI.1,
          hact.traced hs (hgot ev List.mem_cons_self) hI.2⟩)
        (guarded_unguarded c ev) hsound ⟨hconfig, htraced⟩ hstep
      exact ih (w := w) (h.step hsound (hconfig ▸ hsize) hstep) hsound₁ htraced₁ hconfig₁
        (fun ev' hev' => hgot ev' (List.mem_cons_of_mem ev hev')) hrun

/-- **No read is forgotten**: in every state of every run, if no signal for the
reader is pending then the reader has got every byte that was received in
order, and the end of the stream if the peer's FIN has been reached. -/
theorem run_wakes_reader (cid : ConnectionId) (config : ConnectionConfig) (syn : Option Packet)
    (rnd : Uint16) (now t₀ : Time) {events : List Event} (hsize : config.maxPacketSize ≠ 0)
    (hrun : ((newConnection cid config syn rnd now).start t₀).run events = .ok c)
    (hs : c.state = .connected e) (hnone : c.readable = 0) :
    (∃ calls st, ReceiveBuffer.run config.bufferSize e.recvBuf.initSeqNum calls = .ok st ∧
      st.rb = e.recvBuf ∧ (∀ data seqNum, .write data seqNum ∈ calls →
        ∃ p now rnd, .onPacket p now rnd ∈ events ∧ p.body = data ∧ p.header.seqNum = seqNum) ∧
      c.readStream = st.consumedBytes) ∧
    (e.remoteFin = some e.recvBuf.ackNum → eofResult ∈ c.reads) := by
  have hstart := reads_start cid config syn rnd now t₀
    fun p => ∃ now rnd, .onPacket p now rnd ∈ events
  obtain ⟨hroused, htraced, hconfig⟩ := (roused_start cid config syn rnd now t₀).run
    (sound_start cid config syn rnd now t₀ []) hstart.traced hstart.shaped.same hsize
    (by
      intro ev hev p hp
      cases ev with
      | onPacket q now rnd =>
          cases hp
          exact ⟨now, rnd, hev⟩
      | onWrite | processWrites | processReads | tick | onTimeout | onIdleTimeout | shutdown =>
          cases hp) hrun
  constructor
  · obtain ⟨calls, accepted, hcalls, hwrites⟩ := htraced.after _ (recvBuf?_connected hs)
    rw [hconfig] at hcalls
    refine ⟨calls, _, hcalls, rfl, ?_, ?_⟩
    · intro data seqNum hmem
      obtain ⟨p, ⟨now, rnd, hev⟩, hbody, hseq⟩ := hwrites data seqNum hmem
      exact ⟨p, now, rnd, hev, hbody, hseq⟩
    · -- no signal, so nothing is left in the buffer
      have hoff : e.recvBuf.offset = 0 := by
        rcases Nat.eq_zero_or_pos e.recvBuf.offset with hoff | hpos
        · exact hoff
        · have := hroused.data e hs hpos
          omega
      rw [(ReceiveBuffer.RunInv.of_run hcalls).consumedBytes]
      show _ = _ ++ e.recvBuf.buf.take e.recvBuf.offset
      rw [hoff, List.take_zero, List.append_nil]
  · intro hend
    exact (hroused.ended e hs hend).resolve_left (by omega)

omit [Float64] in
/-- A byte arrives and is served, and no signal is left. -/
theorem run_wakes_reader_byte : ∃ c e, @run exactFloat64 sampleAcceptor
      [.onPacket (((newPacketBuilder .st_data 1 0 1000 101).withAckNum 4).withPayload
        [7]).build 0 0, .processReads] = .ok c ∧
    c.state = .connected e ∧ c.readStream = [7] ∧ ∃ calls st,
      ReceiveBuffer.run 16 e.recvBuf.initSeqNum calls = .ok st ∧ st.consumedBytes = [7] := by
  let := exactFloat64
  have hrun : ∃ c e, sampleAcceptor.run
      [.onPacket (((newPacketBuilder .st_data 1 0 1000 101).withAckNum 4).withPayload
        [7]).build 0 0, .processReads] = .ok c ∧
      c.state = .connected e ∧ c.readable = 0 ∧ c.readStream = [7] :=
    ⟨_, _, rfl, rfl, rfl, rfl⟩
  obtain ⟨c, e, hrun, hs, hnone, hstream⟩ := hrun
  obtain ⟨⟨calls, st, hcalls, -, -, heq⟩, -⟩ :=
    run_wakes_reader _ _ _ _ _ _ (by decide) hrun hs hnone
  exact ⟨c, e, hrun, hs, hstream, calls, st, hcalls, heq.symm.trans hstream⟩

end Connection

end UtpGo
