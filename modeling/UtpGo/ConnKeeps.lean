/-
UtpGo/ConnKeeps.lean

What the handlers of a connection leave alone.  Only transmitting, processing
an acknowledgement and the tick touch the timers and the records of a
connected connection, only `processReads` hands something to the reader, and
only `onWrite` and `processWrites` have to do with the writes that wait.
Everything else leaves all of them alone (`KeepsAll`), or has closed the
connection.
-/
import UtpGo.ConnTransmit

namespace UtpGo

open Checked

namespace Connection

variable {c c' c₁ : Connection} {e : Established} {now : Time}

/-- The timers and the records are the same, unless the connection has been
closed. -/
structure KeepsTimers (c c' : Connection) : Prop where
  unacked : c'.unacked = c.unacked
  connected : ∀ e', c'.state = .connected e' →
    ∃ e, c.state = .connected e ∧ e'.sentPackets = e.sentPackets

theorem KeepsTimers.refl (c : Connection) : KeepsTimers c c :=
  ⟨rfl, fun e' hs => ⟨e', hs, rfl⟩⟩

theorem KeepsTimers.trans (h : KeepsTimers c c₁) (h₁ : KeepsTimers c₁ c') : KeepsTimers c c' where
  unacked := h₁.unacked.trans h.unacked
  connected := by
    intro e' hs'
    obtain ⟨e₁, hs₁, heq₁⟩ := h₁.connected e' hs'
    obtain ⟨e, hs, heq⟩ := h.connected e₁ hs₁
    exact ⟨e, hs, heq₁.trans heq⟩

/-- The same state, with other fields changed. -/
theorem KeepsTimers.of_state (hun : c'.unacked = c.unacked) (hstate : c'.state = c.state) :
    KeepsTimers c c' :=
  ⟨hun, fun e' hs' => ⟨e', hstate ▸ hs', rfl⟩⟩

/-- Other buffers, with the same records. -/
theorem KeepsTimers.of_connected {e' : Established} (hs : c.state = .connected e)
    (hun : c'.unacked = c.unacked) (hs' : c'.state = .connected e')
    (heq : e'.sentPackets = e.sentPackets) : KeepsTimers c c' := by
  refine ⟨hun, fun e₁ hs₁ => ⟨e, hs, ?_⟩⟩
  cases hs'.symm.trans hs₁
  exact heq

theorem KeepsTimers.of_closed (hun : c'.unacked = c.unacked) (hclosed : c'.Closed) :
    KeepsTimers c c' :=
  ⟨hun, fun _ hs' => (hclosed.not_connected hs').elim⟩

/-- Nothing was handed to the reader either. -/
structure Keeps (c c' : Connection) : Prop extends KeepsTimers c c' where
  reads : c'.reads = c.reads

/-- Nothing was handed to the reader or to a writer, and the writes that wait
are the same. -/
structure SameHands (c c' : Connection) : Prop where
  reads : c'.reads = c.reads
  pendingWrites : c'.pendingWrites = c.pendingWrites
  results : c'.results = c.results

theorem SameHands.refl (c : Connection) : SameHands c c := ⟨rfl, rfl, rfl⟩

theorem SameHands.trans (h : SameHands c c₁) (h₁ : SameHands c₁ c') : SameHands c c' :=
  ⟨h₁.reads.trans h.reads, h₁.pendingWrites.trans h.pendingWrites, h₁.results.trans h.results⟩

/-- All of it is left alone. -/
structure KeepsAll (c c' : Connection) : Prop extends Keeps c c', SameHands c c'

theorem KeepsAll.of_hands (h : KeepsTimers c c') (hands : SameHands c c') : KeepsAll c c' :=
  ⟨⟨h, hands.reads⟩, hands.pendingWrites, hands.results⟩

theorem KeepsAll.refl (c : Connection) : KeepsAll c c := .of_hands (.refl c) (.refl c)

theorem KeepsAll.trans (h : KeepsAll c c₁) (h₁ : KeepsAll c₁ c') : KeepsAll c c' :=
  .of_hands (h.toKeepsTimers.trans h₁.toKeepsTimers) (h.toSameHands.trans h₁.toSameHands)

theorem KeepsAll.of_state (hun : c'.unacked = c.unacked) (hands : SameHands c c')
    (hstate : c'.state = c.state) : KeepsAll c c' := .of_hands (.of_state hun hstate) hands

theorem KeepsAll.of_connected {e' : Established} (hs : c.state = .connected e)
    (hun : c'.unacked = c.unacked) (hands : SameHands c c')
    (hs' : c'.state = .connected e') (heq : e'.sentPackets = e.sentPackets) : KeepsAll c c' :=
  .of_hands (.of_connected hs hun hs' heq) hands

theorem KeepsAll.of_closed (hun : c'.unacked = c.unacked) (hands : SameHands c c')
    (hclosed : c'.Closed) : KeepsAll c c' := .of_hands (.of_closed hun hclosed) hands

/-! ### Handlers -/

theorem keeps_reset (err : ConnError) : KeepsAll c (c.reset err) := by
  refine .of_closed ?_ ?_ (c.reset_closed err)
  · rw [reset_eq]
  · rw [reset_eq]
    exact ⟨rfl, rfl, rfl⟩

theorem keeps_observePeer (p : Packet) : KeepsAll c (c.observePeer p now) :=
  .of_state rfl ⟨rfl, rfl, rfl⟩ rfl

theorem keeps_onSyn (seqNum : Uint16) : KeepsAll c (c.onSyn seqNum) := by
  unfold onSyn
  dsimp only
  split
  · exact .refl c
  · exact .refl c
  · exact keeps_reset _

theorem keeps_onReset : KeepsAll c c.onReset := by
  unfold onReset
  split
  · exact .refl c
  · exact keeps_reset _

theorem keeps_onData {seqNum : Uint16} {data : Bytes} {err : Option HandleError}
    (hok : c.onData seqNum data = .ok (c', err)) : KeepsAll c c' := by
  have hfirst : KeepsAll c (if data.length = 0 then c.reset .errEmptyDataPayload else c) := by
    split
    · exact keeps_reset _
    · exact .refl c
  unfold onData at hok
  generalize (if data.length = 0 then c.reset .errEmptyDataPayload else c) = c₁ at hfirst hok
  refine hfirst.trans ?_
  dsimp only at hok
  split at hok
  · split at hok <;> cases hok <;> exact .refl _
  · rename_i e hs
    split at hok
    · cases hok
      exact .of_closed rfl ⟨rfl, rfl, rfl⟩ ⟨_, _, rfl⟩
    split at hok
    · obtain ⟨⟨rb, err₁⟩, -, hrest⟩ := bind_eq_ok.mp hok
      cases hrest
      exact .of_connected hs rfl ⟨rfl, rfl, rfl⟩ rfl rfl
    · cases hok
      exact .refl _
  · cases hok
    exact .refl _

theorem keeps_onFin {seqNum : Uint16} {data : Bytes} {err : Option HandleError}
    (hok : c.onFin seqNum data = .ok (c', err)) : KeepsAll c c' := by
  unfold onFin at hok
  split at hok
  swap
  · cases hok
    exact .refl c
  rename_i e hs
  split at hok
  · split at hok
    · split at hok
      · cases hok
        exact keeps_reset _
      · cases hok
        exact .refl c
    · obtain ⟨⟨rb, err₁⟩, -, hrest⟩ := bind_eq_ok.mp hok
      cases hrest
      exact .of_connected hs rfl ⟨rfl, rfl, rfl⟩ rfl rfl
  · obtain ⟨⟨rb, err₁⟩, -, hrest⟩ := bind_eq_ok.mp hok
    cases err₁ with
    | none =>
        cases hrest
        exact .of_connected hs rfl ⟨rfl, rfl, rfl⟩ rfl rfl
    | some err₁ =>
        cases hrest
        exact .of_connected hs rfl ⟨rfl, rfl, rfl⟩ rfl rfl

/-- Before its acknowledgement is processed a packet leaves them alone, or it
ends the handshake. -/
theorem dispatch_keeps {p : Packet} {err : Option HandleError}
    (hok : c.dispatch p = .ok (c', err)) : KeepsAll c c' ∨ SameHands c c' ∧
      ∃ recvInit sentInit, c'.state = .connected (establish c.config recvInit sentInit) := by
  unfold dispatch at hok
  split at hok
  · cases hok
    exact .inl (keeps_onSyn _)
  · cases hok
    unfold onState
    split
    · split
      · exact .inr ⟨⟨rfl, rfl, rfl⟩, _, _, rfl⟩
      · exact .inl (.refl c)
    · exact .inl (.refl c)
  · exact .inl (keeps_onData hok)
  · exact .inl (keeps_onFin hok)
  · cases hok
    exact .inl keeps_onReset

theorem keeps_reply (p : Packet) (rnd : Uint16) : KeepsAll c (c.reply p now rnd) := by
  have hemit : KeepsAll c ((c.statePacket now).elim c c.emit) := by
    cases c.statePacket now with
    | none => exact .refl c
    | some statePacket => exact .of_state rfl ⟨rfl, rfl, rfl⟩ rfl
  unfold reply
  split
  · split
    · exact .refl c
    · split
      · exact .of_state rfl ⟨rfl, rfl, rfl⟩ rfl
      · exact .of_state rfl ⟨rfl, rfl, rfl⟩ rfl
  · exact hemit
  · exact hemit
  · exact .refl c

theorem keeps_notify (p : Packet) : KeepsAll c (c.notify p) := .of_state rfl ⟨rfl, rfl, rfl⟩ rfl

/-- Serving the reads changes what was read, and the receive buffer of a
connected connection. -/
theorem processReads_frame (hok : c.processReads = .ok c') :
    (∃ reads, c' = { c with reads }) ∨ ∃ e recvBuf reads, c.state = .connected e ∧
      c' = { c with state := .connected { e with recvBuf }, reads } := by
  unfold processReads at hok
  split at hok
  · cases hok
    exact .inl ⟨_, rfl⟩
  · cases hok
    exact .inl ⟨_, rfl⟩
  · rename_i e hs
    obtain ⟨⟨chunks, rb⟩, -, hrest⟩ := bind_eq_ok.mp hok
    obtain rfl := pure_eq_ok.mp hrest
    unfold pushEof
    split
    · exact .inr ⟨e, rb, _, hs, rfl⟩
    · exact .inr ⟨e, rb, _, hs, rfl⟩

theorem keepsTimers_processReads (hok : c.processReads = .ok c') : KeepsTimers c c' := by
  rcases processReads_frame hok with ⟨reads, rfl⟩ | ⟨e, rb, reads, hs, rfl⟩
  · exact .of_state rfl rfl
  · exact .of_connected hs rfl rfl rfl

theorem keeps_closeLocal : KeepsAll c c.closeLocal := by
  unfold closeLocal
  split
  · split
    · split
      · exact .of_closed rfl ⟨rfl, rfl, rfl⟩ ⟨_, _, rfl⟩
      · exact .refl c
    · exact .refl c
  · exact .refl c

theorem keeps_closeClean : KeepsAll c c.closeClean := by
  unfold closeClean
  split
  · exact .of_closed rfl ⟨rfl, rfl, rfl⟩ ⟨_, _, rfl⟩
  · exact .refl c

/-- The second closing case reads what is left and closes, or it does not
apply. -/
theorem closeRemote_cases (hok : c.closeRemote = .ok c') :
    c' = c ∨ ∃ c₁, c.processReads = .ok c₁ ∧ c' = c₁.closeClean := by
  unfold closeRemote at hok
  split at hok
  · split at hok
    · split at hok
      · obtain ⟨c₁, hreads, hok⟩ := bind_eq_ok.mp hok
        exact .inr ⟨c₁, hreads, (pure_eq_ok.mp hok).symm⟩
      · cases hok
        exact .inl rfl
    · cases hok
      exact .inl rfl
  · cases hok
    exact .inl rfl

theorem keepsTimers_closeRemote (hok : c.closeRemote = .ok c') : KeepsTimers c c' := by
  rcases closeRemote_cases hok with rfl | ⟨c₁, hreads, rfl⟩
  · exact .refl _
  · exact (keepsTimers_processReads hreads).trans keeps_closeClean.toKeepsTimers

theorem keeps_closeBoth : KeepsAll c c.closeBoth := by
  unfold closeBoth
  split
  · split
    · exact keeps_closeClean
    · exact .refl c
  · exact .refl c

theorem keeps_onIdleTimeout : KeepsAll c c.onIdleTimeout := by
  unfold onIdleTimeout
  split
  · exact .refl c
  · exact .of_closed rfl ⟨rfl, rfl, rfl⟩ ⟨_, _, rfl⟩
  · exact .of_closed rfl ⟨rfl, rfl, rfl⟩ ⟨_, _, rfl⟩

/-! ### What is handed over -/

theorem hands_transmit {p : Packet} (hok : c.transmit p now = .ok c') : SameHands c c' := by
  obtain ⟨e, sp, -, -, rfl⟩ := transmit_ok hok
  exact ⟨rfl, rfl, rfl⟩

theorem hands_transmitPayloads {e₀ : Established} {payloads : List Bytes} {seqNum : Uint16}
    (hok : transmitPayloads e₀ now payloads seqNum c = .ok c') : SameHands c c' := by
  induction payloads generalizing seqNum c with
  | nil =>
      obtain rfl := pure_eq_ok.mp hok
      exact .refl c
  | cons payload payloads ih =>
      obtain ⟨c₁, htransmit, hok⟩ := bind_eq_ok.mp hok
      exact (hands_transmit htransmit).trans (ih hok)

theorem hands_transmitLost {e₀ : Established} {losts : List LostPacket}
    (hok : transmitLost e₀ now losts c = .ok c') : SameHands c c' := by
  induction losts generalizing c with
  | nil =>
      obtain rfl := pure_eq_ok.mp hok
      exact .refl c
  | cons lost losts ih =>
      obtain ⟨c₁, htransmit, hok⟩ := bind_eq_ok.mp hok
      exact (hands_transmit htransmit).trans (ih hok)

theorem reads_processWrites (hok : c.processWrites now = .ok c') : c'.reads = c.reads := by
  unfold processWrites at hok
  split at hok
  · cases hok
    rfl
  · cases hok
    rfl
  · obtain ⟨⟨payloads, sb⟩, -, hok⟩ := bind_eq_ok.mp hok
    obtain ⟨r, -, hok⟩ := bind_eq_ok.mp hok
    exact (hands_transmitPayloads hok).reads

theorem reads_onWrite {data : Bytes} {resultCh : Nat} (hok : c.onWrite data resultCh now = .ok c') :
    c'.reads = c.reads := by
  obtain ⟨c₁, hwrites, hok⟩ := bind_eq_ok.mp hok
  obtain rfl := pure_eq_ok.mp hok
  refine (reads_processWrites hwrites).trans ?_
  split <;> rfl

theorem hands_shutdown (hok : c.shutdown now = .ok c') : SameHands c c' := by
  rcases shutdown_inv hok with rfl | ⟨-, rfl⟩ | ⟨e, -, -, rfl⟩ | ⟨e, -, -, -, -, htransmit⟩
  · exact .refl _
  · exact ⟨rfl, rfl, rfl⟩
  · exact ⟨rfl, rfl, rfl⟩
  · have hands := hands_transmit htransmit
    exact ⟨hands.reads, hands.pendingWrites, hands.results⟩

theorem hands_onTimeout {p : Packet} (hok : c.onTimeout p now = .ok c') : SameHands c c' := by
  unfold onTimeout at hok
  split at hok
  · split at hok
    · cases hok
      exact .refl c
    · split at hok
      · cases hok
        exact ⟨rfl, rfl, rfl⟩
      · obtain ⟨unacked, -, hok⟩ := bind_eq_ok.mp hok
        cases hok
        exact ⟨rfl, rfl, rfl⟩
  · rename_i e hs
    split at hok
    · cases hok
      exact .refl c
    · refine SameHands.trans ?_ (hands_transmit hok)
      rcases c.noteTimeout_cases e now with h | h <;> rw [h] <;> exact ⟨rfl, rfl, rfl⟩
  · cases hok
    exact .refl c

theorem hands_retransmitLostPackets (hok : c.retransmitLostPackets now = .ok c') :
    SameHands c c' := by
  unfold retransmitLostPackets at hok
  split at hok
  · split at hok
    · obtain ⟨losts, -, hok⟩ := bind_eq_ok.mp hok
      exact hands_transmitLost hok
    · cases hok
      exact .refl c
  · cases hok
    exact .refl c

variable [Float64]

theorem acknowledge_cases {p : Packet} {err : Option SentError}
    (hok : c.acknowledge p now = .ok (c', err)) :
    (p.header.packetType.carriesAck = true ∧ ∃ delay,
      c.processAck p.header.ackNum p.eack delay now = .ok (c', err)) ∨ c' = c := by
  unfold acknowledge at hok
  split at hok
  · rename_i ht
    exact .inl ⟨by rw [ht]; rfl, _, hok⟩
  · rename_i ht
    exact .inl ⟨by rw [ht]; rfl, _, hok⟩
  · rename_i ht
    exact .inl ⟨by rw [ht]; rfl, _, hok⟩
  · cases hok
    exact .inr rfl

theorem hands_acknowledge {p : Packet} {err : Option SentError}
    (hok : c.acknowledge p now = .ok (c', err)) : SameHands c c' := by
  rcases acknowledge_cases hok with ⟨-, delay, hok⟩ | rfl
  swap
  · exact .refl _
  unfold processAck at hok
  split at hok
  swap
  · cases hok
    exact .refl c
  rename_i e hs
  obtain ⟨⟨sp, r⟩, -, hok⟩ := bind_eq_ok.mp hok
  dsimp only at hok
  split at hok
  · cases hok
    have hands := (keeps_reset (c := { c with
      state := .connected { e with sentPackets := sp } }) .errInvalidAckNum).toSameHands
    exact ⟨hands.reads, hands.pendingWrites, hands.results⟩
  · cases hok
    exact ⟨rfl, rfl, rfl⟩
  · cases hok
    exact ⟨rfl, rfl, rfl⟩

theorem hands_beforeClosing {p : Packet} {rnd : Uint16}
    (hok : c.beforeClosing p now rnd = .ok c') : SameHands c c' := by
  obtain ⟨⟨c₁, _⟩, hdispatch, hok⟩ := bind_eq_ok.mp hok
  obtain ⟨⟨c₂, _⟩, hack, hok⟩ := bind_eq_ok.mp hok
  obtain ⟨c₃, hlost, hok⟩ := bind_eq_ok.mp hok
  obtain rfl := pure_eq_ok.mp hok
  have hobserve : SameHands c (c.observePeer p now) := (keeps_observePeer p).toSameHands
  have h₁ : SameHands c c₁ := by
    rcases dispatch_keeps hdispatch with hkeeps | ⟨hands, -⟩
    · exact hobserve.trans hkeeps.toSameHands
    · exact hobserve.trans hands
  have hclosing : KeepsAll c₃ ((c₃.reply p now rnd).notify p).closeLocal :=
    ((keeps_reply p rnd).trans (keeps_notify p)).trans keeps_closeLocal
  exact ((h₁.trans (hands_acknowledge hack)).trans (hands_retransmitLostPackets hlost)).trans
    hclosing.toSameHands

omit [Float64] in
/-- The events that can hand something over: a packet, a write, and the signals
to read and to write. -/
def Event.handsOver : Event → Bool
  | .onPacket _ _ _ | .onWrite _ _ _ | .processWrites _ | .processReads => true
  | .tick _ | .onTimeout _ | .onIdleTimeout | .shutdown _ => false

theorem hands_step {ev : Event} (hok : c.step ev = .ok c') (hev : ev.handsOver = false) :
    SameHands c c' := by
  cases ev with
  | onPacket | onWrite | processWrites | processReads => cases hev
  | tick order =>
      simp only [step] at hok
      split at hok <;> cases hok <;> exact ⟨rfl, rfl, rfl⟩
  | onTimeout now =>
      simp only [step] at hok
      split at hok
      · cases hok
        exact .refl c
      · have hands := hands_onTimeout hok
        exact ⟨hands.reads, hands.pendingWrites, hands.results⟩
  | onIdleTimeout =>
      cases hok
      exact keeps_onIdleTimeout.toSameHands
  | shutdown now => exact hands_shutdown hok

/-- Apart from a packet that is handled and from reading, no event hands
something to the reader. -/
theorem reads_step {ev : Event} (hok : c.step ev = .ok c') (hp : ev.packet? = none)
    (hr : ev ≠ .processReads) : c'.reads = c.reads := by
  cases ev with
  | onPacket => cases hp
  | processReads => exact absurd rfl hr
  | onWrite data resultCh now => exact reads_onWrite hok
  | processWrites now =>
      have hreads := reads_processWrites hok
      exact hreads
  | tick | onTimeout | onIdleTimeout | shutdown => exact (hands_step hok rfl).reads

omit [Float64] in
theorem writes_processReads (hok : c.processReads = .ok c') :
    c'.pendingWrites = c.pendingWrites ∧ c'.results = c.results := by
  rcases processReads_frame hok with ⟨reads, rfl⟩ | ⟨e, rb, reads, -, rfl⟩
  · exact ⟨rfl, rfl⟩
  · exact ⟨rfl, rfl⟩

omit [Float64] in
theorem writes_closeRemote (hok : c.closeRemote = .ok c') :
    c'.pendingWrites = c.pendingWrites ∧ c'.results = c.results := by
  rcases closeRemote_cases hok with rfl | ⟨c₁, hreads, rfl⟩
  · exact ⟨rfl, rfl⟩
  · obtain ⟨hpending, hresults⟩ := writes_processReads hreads
    have hclean : KeepsAll c₁ c₁.closeClean := keeps_closeClean
    exact ⟨hclean.pendingWrites.trans hpending, hclean.results.trans hresults⟩

/-- A packet has nothing to do with the writes. -/
theorem writes_onPacket {p : Packet} {rnd : Uint16} (hok : c.onPacket p now rnd = .ok c') :
    c'.pendingWrites = c.pendingWrites ∧ c'.results = c.results := by
  rw [onPacket_eq] at hok
  obtain ⟨c₁, hbefore, hok⟩ := bind_eq_ok.mp hok
  obtain ⟨c₂, hremote, hok⟩ := bind_eq_ok.mp hok
  obtain rfl := pure_eq_ok.mp hok
  have hands := hands_beforeClosing hbefore
  obtain ⟨hpending, hresults⟩ := writes_closeRemote hremote
  have hboth : KeepsAll c₂ c₂.closeBoth := keeps_closeBoth
  exact ⟨(hboth.pendingWrites.trans hpending).trans hands.pendingWrites,
    (hboth.results.trans hresults).trans hands.results⟩

end Connection

end UtpGo
