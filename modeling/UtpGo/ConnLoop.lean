/-
UtpGo/ConnLoop.lean

The event loop: `eventLoop` in `conn.go`.  After every event it looks at the
shutdown flag of the stream, and when the connection is closed it takes its
leave: it hands what is left to the reader unless the stream is at its end,
answers the writes that wait, and tells the socket.

A closed connection always counts as being at the end of its stream, so
nothing is handed over when the loop returns.  What the reader gets, it gets
before.

Main results: `eventLoop_serves_iff`, at the return of the loop everything
received in order has been handed to the reader, with the end after it,
exactly if the end had been reported before or the last packet closes the
connection because the peer's stream is complete; `endReported_iff`, the end is
reported before the last turn exactly if a turn serves the reads at the end of
the stream; and `reset_withholds`, a loop that returns upon a reset with a byte
still in its receive buffer.
-/
import UtpGo.ConnKeeps

namespace UtpGo

open Checked

/-! ### The loop -/

namespace Connection

/-- One turn of the loop: the event selected, and whether the stream's
shutdown flag was found set after it.  A turn that only sets the flag is one
with the event `shutdown`, and a tick of the timers counts as a turn. -/
structure Turn where
  event : Event
  shutdown : Bool
  now : Time

def isClosed (c : Connection) : Bool :=
  match c.state with
  | .closed _ _ => true
  | _ => false

variable [Float64]

/-- A turn, up to the test for `ConnClosed`. -/
def turn (c : Connection) (t : Turn) : GoM Connection := do
  let c ← c.step t.event
  if t.shutdown ∧ ¬ c.isClosed then c.shutdown t.now else pure c

omit [Float64] in
/-- The end of the loop.  `RecvBuf.close` does nothing. -/
def leave (c : Connection) (now : Time) : GoM Connection := do
  let c ← if ¬ c.eof then c.processReads else pure c
  let c ← c.processWrites now
  pure { c with socketEvents := c.socketEvents ++ [.shutdown] }

end Connection

/-- The loop waits for its next event, or it has returned. -/
inductive LoopState where
  | waiting (c : Connection)
  | returned (c : Connection)

namespace Connection

variable [Float64]

def loopStep : LoopState → Turn → GoM LoopState
  | .returned c, _ => pure (.returned c)
  | .waiting c, t => do
      let c ← c.turn t
      if c.isClosed then do
        let c ← c.leave t.now
        pure (.returned c)
      else pure (.waiting c)

def eventLoop (c : Connection) (turns : List Turn) : GoM LoopState :=
  turns.foldlM loopStep (.waiting c)

variable {c c' : Connection} {now : Time}

omit [Float64] in
theorem isClosed_iff : c.isClosed = true ↔ c.Closed := by
  unfold isClosed Closed
  cases c.state <;> simp

end Connection

/-! ### The bytes received in order -/

namespace Connection

/-- The bytes that the receive buffer has consumed and still holds. -/
def buffered (c : Connection) : Bytes :=
  c.established.elim [] fun e => e.recvBuf.buf.take e.recvBuf.offset

/-- All bytes that the receive buffer has consumed. -/
def consumedStream (c : Connection) : Bytes := c.readStream ++ c.buffered

theorem buffered_connected {c : Connection} {e : Established} (hs : c.state = .connected e) :
    c.buffered = e.recvBuf.buf.take e.recvBuf.offset := by
  rw [buffered, established_connected hs]
  rfl

theorem consumedStream_congr {c c' : Connection} (hreads : c'.reads = c.reads)
    (hbuf : c.buffered <+: c'.buffered) : c.consumedStream <+: c'.consumedStream := by
  rw [consumedStream, consumedStream, readStream, readStream, hreads]
  exact (List.prefix_append_right_inj _).mpr hbuf

end Connection

/-- A byte consumed stays in the buffer until the reader gets it. -/
theorem Act.consumedStream [Float64] {packet? : Option Packet} {guard : Guard} {m m' : Midcall}
    (h : Act packet? guard m m') (hsound : m.Sound) :
    m.conn.consumedStream <+: m'.conn.consumedStream := by
  -- another state with the same buffer
  have hkeep : ∀ {c c' : Connection} {e e' : Established}, c'.reads = c.reads →
      c.state = .connected e → c'.state = .connected e' → e'.recvBuf = e.recvBuf →
      c.consumedStream <+: c'.consumedStream := by
    intro c c' e e' hreads hs hs' hrb
    refine Connection.consumedStream_congr hreads ?_
    rw [Connection.buffered_connected hs, Connection.buffered_connected hs', hrb]
  have hend : ∀ {c : Connection} {r : ReadOrWriteResult}, r.len = 0 →
      c.consumedStream <+: Connection.consumedStream { c with reads := c.reads ++ [r] } := by
    intro c r hlen
    show _ <+: _ ++ c.buffered
    rw [Connection.readStream_append rfl, hlen, List.take_zero, List.append_nil]
    exact List.prefix_refl _
  cases h with
  | sends h =>
      cases h with
      | enqueue | pickLost | pickExpired => exact List.prefix_refl _
      | flush hs | pickFin hs => exact hkeep rfl hs rfl rfl
      | send hs => exact hkeep rfl hs rfl rfl
  | book h =>
      refine Connection.consumedStream_congr h.reads ?_
      unfold Connection.buffered Connection.established
      rw [h.state]
  | emitState | emitReset | emitSyn => exact List.prefix_refl _
  | backOff hs | beginClosing hs | acked _ _ hs => exact hkeep rfl hs rfl rfl
  | recvData _ _ hs _ hw | recvFin _ _ hs _ hw =>
      refine Connection.consumedStream_congr rfl ?_
      rw [Connection.buffered_connected hs]
      exact ReceiveBuffer.write_prefix (hsound _ (established_connected hs)).recvBuf hw
  | @readOut c e hand w out rb _ hs hr =>
      have hdid := ReceiveBuffer.didRead_of_ok (hsound _ (established_connected hs)).recvBuf hr
      have heq : Connection.readStream { c with
          state := .connected { e with recvBuf := rb }
          reads := c.reads ++ [Connection.readResult c.config out] } = c.readStream ++ out := by
        rw [Connection.readStream_append rfl, Connection.take_readResult]
      rw [Connection.consumedStream, Connection.buffered_connected hs, ← hdid.stream,
        ← List.append_assoc, ← heq]
      exact List.prefix_refl _
  | endOfStream | closedRead => exact hend rfl
  | close _ h =>
      refine Connection.consumedStream_congr rfl ?_
      show _ <+: Option.elim (ConnState.established _) [] _
      rw [h.established]
      exact List.prefix_refl _
  | establish _ _ hs =>
      refine Connection.consumedStream_congr rfl ?_
      unfold Connection.buffered Connection.established
      rw [hs]
      exact List.nil_prefix

/-! ### The end of the stream -/

/-- The peer's stream is complete, and everything consumed has been read. -/
structure Established.Ended (e : Established) : Prop where
  read : e.recvBuf.offset = 0
  complete : e.remoteFin = some e.recvBuf.ackNum

/-- After the end of its stream a receive buffer takes nothing more: what is
not beyond the FIN was written before. -/
theorem Established.Ended.write {e : Established} (h : e.Ended) {p : Packet} {rb : ReceiveBuffer}
    {err : Option RecvError} (hfin : Connection.beyondFin e p.header.seqNum = false)
    (hw : e.recvBuf.write p.body p.header.seqNum = .ok (rb, err)) : rb = e.recvBuf := by
  have hbind : e.closing.bind (·.remoteFin) = some e.recvBuf.ackNum := h.complete
  have hwritten : e.recvBuf.wasWritten p.header.seqNum = true := by
    rw [Connection.beyondFin, hbind] at hfin
    unfold ReceiveBuffer.wasWritten
    have hin : (newCircularRangeInclusive e.recvBuf.initSeqNum e.recvBuf.ackNum).contains
        p.header.seqNum = true := by
      simpa using hfin
    rw [Bool.or_eq_true]
    exact .inr hin
  rw [ReceiveBuffer.write_of_wasWritten hwritten] at hw
  cases hw
  rfl

theorem Connection.eof_connected {c : Connection} {e : Established}
    (hs : c.state = .connected e) : c.eof = true ↔ e.remoteFin = some e.recvBuf.ackNum := by
  show _ ↔ e.closing.bind (·.remoteFin) = _
  unfold eof
  rw [hs]
  dsimp only
  split
  · rename_i remoteFin hfin
    rw [hfin, decide_eq_true_iff, Option.some.injEq, eq_comm]
  · rename_i hnone
    rw [hnone]
    exact iff_of_false Bool.false_ne_true (Option.some_ne_none _).symm

theorem Connection.ended_of_eof {c : Connection} {e : Established} (hs : c.state = .connected e)
    (heof : c.eof = true) (hoff : e.recvBuf.offset = 0) : e.Ended :=
  ⟨hoff, (eof_connected hs).mp heof⟩

theorem Established.Ended.read_nothing {e : Established} (h : e.Ended) (hwf : e.recvBuf.WF)
    {bufLen : Nat} {out : Bytes} {rb : ReceiveBuffer}
    (hr : e.recvBuf.read bufLen = .ok (out, rb)) :
    Established.Ended { e with recvBuf := rb } := by
  have hdid := ReceiveBuffer.didRead_of_ok hwf hr
  refine ⟨?_, ?_⟩
  · show rb.offset = 0
    rw [hdid.offset, h.read, Nat.zero_sub]
  · show e.remoteFin = some (rb.initSeqNum + rb.consumed)
    rw [hdid.init, hdid.consumed]
    exact h.complete

section Ended

variable [Float64] {packet? : Option Packet} {guard : Guard} {m m' : Midcall}

/-- The connection has or had buffers, and its stream has ended. -/
def Midcall.AtEnd (m : Midcall) : Prop := ∃ e, m.conn.established = some e ∧ e.Ended

/-- Once the stream has ended it stays so, also when the connection is
closed. -/
theorem Act.atEnd (h : Act packet? guard m m') (hsound : m.Sound) (hm : m.AtEnd) : m'.AtEnd := by
  obtain ⟨e₀, he₀, hended⟩ := hm
  have hsame : ∀ {c : Connection} {hand w} {e : Established}, m = ⟨c, hand, w⟩ →
      c.state = .connected e → e.Ended := by
    rintro c hand w e rfl hs
    cases (established_connected hs).symm.trans he₀
    exact hended
  cases h with
  | sends h =>
      cases h with
      | enqueue | pickLost | pickExpired => exact ⟨e₀, he₀, hended⟩
      | flush hs | pickFin hs | send hs =>
          have h := hsame rfl hs
          exact ⟨_, rfl, h.read, h.complete⟩
  | book h => exact ⟨e₀, (congrArg ConnState.established h.state).trans he₀, hended⟩
  | emitState | emitReset | emitSyn | endOfStream | closedRead => exact ⟨e₀, he₀, hended⟩
  | backOff hs | acked _ _ hs =>
      have h := hsame rfl hs
      exact ⟨_, rfl, h.read, h.complete⟩
  | beginClosing hs hc =>
      have h := (hsame rfl hs).complete
      rw [Established.remoteFin, hc] at h
      cases h
  | recvData _ _ hs hfin hw =>
      have h := hsame rfl hs
      refine ⟨_, rfl, ?_⟩
      rw [h.write hfin hw]
      exact ⟨h.read, h.complete⟩
  | recvFin _ _ hs hfin =>
      have h := (hsame rfl hs).complete
      rw [hfin] at h
      cases h
  | readOut _ hs hr =>
      have hwf := (hsound _ (established_connected hs)).recvBuf
      exact ⟨_, rfl, (hsame rfl hs).read_nothing hwf hr⟩
  | close _ h => exact ⟨e₀, h.established.trans he₀, hended⟩
  | establish _ _ hs => cases (congrArg ConnState.established hs).symm.trans he₀

/-- What an action hands to the reader, before the connection is closed: data,
or the end of the stream. -/
theorem Act.reads (h : Act packet? guard m m') (hopen : ¬ m.conn.Closed) :
    m'.conn.reads = m.conn.reads ∨ ∃ e, m.conn.state = .connected e ∧
      ((∃ out, m'.conn.reads = m.conn.reads ++ [Connection.readResult m.conn.config out]) ∨
        m'.conn.reads = m.conn.reads ++ [{ err := some .eof }] ∧
          (m.conn.config.maxPacketSize ≠ 0 → e.Ended)) := by
  cases h with
  | sends h => cases h <;> exact .inl rfl
  | book h => exact .inl h.reads
  | readOut _ hs => exact .inr ⟨_, hs, .inl ⟨_, rfl⟩⟩
  | endOfStream hs heof hdry =>
      exact .inr ⟨_, hs, .inr ⟨rfl, fun hsize => Connection.ended_of_eof hs heof (hdry hsize)⟩⟩
  | closedRead hs => exact absurd ⟨_, _, hs⟩ hopen
  | backOff | beginClosing | emitState | emitReset | emitSyn | recvData | recvFin | acked | close
  | establish => exact .inl rfl

/-- Before the connection is closed, a result without data reports the end of
a stream that has ended. -/
structure Midcall.Reported (m : Midcall) : Prop where
  size : m.conn.config.maxPacketSize ≠ 0
  ended : ¬ m.conn.Closed → ∀ r ∈ m.conn.reads, r.data = [] → r.err = some .eof ∧ m.AtEnd

omit [Float64] in
/-- A buffer of the packet size is handed over, whatever was read. -/
theorem data_readResult {config : ConnectionConfig} (hsize : config.maxPacketSize ≠ 0)
    (out : Bytes) : (Connection.readResult config out).data ≠ [] := by
  intro hnil
  have hlen := congrArg List.length hnil
  simp only [Connection.readResult, List.length_append, List.length_replicate,
    List.length_nil] at hlen
  exact hsize (by bv_omega)

theorem Act.reported (h : Act packet? guard m m') (hsound : m.Sound) (hm : m.Reported) :
    m'.Reported := by
  refine ⟨h.config ▸ hm.size, ?_⟩
  intro hopen' r hr hdata
  have hopen : ¬ m.conn.Closed := fun hclosed => hopen' (h.stays_closed hclosed)
  rcases h.reads hopen with heq | ⟨e, hs, ⟨out, heq⟩ | ⟨heq, hended⟩⟩
  · rw [heq] at hr
    obtain ⟨herr, hend⟩ := hm.ended hopen r hr hdata
    exact ⟨herr, h.atEnd hsound hend⟩
  · rw [heq, List.mem_append, List.mem_singleton] at hr
    rcases hr with hr | rfl
    · obtain ⟨herr, hend⟩ := hm.ended hopen r hr hdata
      exact ⟨herr, h.atEnd hsound hend⟩
    · exact absurd hdata (data_readResult hm.size out)
  · have hend : m.AtEnd := ⟨e, established_connected hs, hended hm.size⟩
    rw [heq, List.mem_append, List.mem_singleton] at hr
    rcases hr with hr | rfl
    · exact ⟨(hm.ended hopen r hr hdata).1, h.atEnd hsound hend⟩
    · exact ⟨rfl, h.atEnd hsound hend⟩

end Ended

/-! ### Closing -/

namespace Connection

/-- The second closing case applies: the peer's stream is complete, and
nothing is in flight. -/
def remoteDone (c : Connection) : Bool :=
  match c.state with
  | .connected e =>
      match e.closing.bind (·.remoteFin) with
      | some remoteFin => ¬ e.sentPackets.hasUnackedPackets ∧ e.recvBuf.ackNum = remoteFin
      | none => false
  | _ => false

variable {c c' : Connection} {now : Time}

theorem closeRemote_of_not_done (h : c.remoteDone = false) : c.closeRemote = pure c := by
  unfold remoteDone at h
  unfold closeRemote
  split
  · rename_i e hs
    rw [hs] at h
    dsimp only at h
    split
    · rename_i remoteFin hfin
      rw [hfin] at h
      exact if_neg (of_decide_eq_false h)
    · rfl
  · rfl

theorem closeRemote_eq (h : c.remoteDone = true) : ∃ e, c.state = .connected e ∧
    e.closing.bind (·.remoteFin) = some e.recvBuf.ackNum ∧
    c.closeRemote = (do let c ← c.processReads; pure c.closeClean) := by
  unfold remoteDone at h
  split at h
  swap
  · cases h
  rename_i e hs
  split at h
  swap
  · cases h
  rename_i remoteFin hfin
  have hdone := of_decide_eq_true h
  refine ⟨e, hs, hfin.trans (congrArg some hdone.2.symm), ?_⟩
  unfold closeRemote
  rw [hs]
  dsimp only
  rw [hfin]
  exact if_pos hdone

theorem closeRemote_closes (h : c.remoteDone = true) (hok : c.closeRemote = .ok c') :
    c'.Closed := by
  obtain ⟨e, hs, -, heq⟩ := closeRemote_eq h
  rw [heq] at hok
  obtain ⟨c₁, hreads, hok⟩ := bind_eq_ok.mp hok
  obtain rfl := pure_eq_ok.mp hok
  have hconn : ∃ e, c₁.state = .connected e := by
    rcases processReads_frame hreads with ⟨reads, rfl⟩ | ⟨e₁, rb, reads, -, rfl⟩
    · exact ⟨e, hs⟩
    · exact ⟨_, rfl⟩
  obtain ⟨e₁, hs₁⟩ := hconn
  rw [closeClean, hs₁]
  exact ⟨_, _, rfl⟩

theorem Closed.closeBoth (h : c.Closed) : c.closeBoth = c := by
  obtain ⟨e, err, hs⟩ := h
  rw [Connection.closeBoth, hs]

/-- Serving the reads of a connected connection hands over data until there is
nothing to read, and then the end of the stream if it is there. -/
theorem processReads_connected [Float64] {e : Established} (hs : c.state = .connected e)
    (hwf : e.recvBuf.WF) (hok : c.processReads = .ok c') : ∃ chunks rb,
      readLoop c.config.maxPacketSize.toNat (e.recvBuf.offset + 1) e.recvBuf = .ok (chunks, rb) ∧
      rb.ackNum = e.recvBuf.ackNum ∧ (c.config.maxPacketSize ≠ 0 → rb.offset = 0) ∧
      c' = pushEof { c with
        state := .connected { e with recvBuf := rb }
        reads := c.reads ++ chunks.map (readResult c.config) } := by
  obtain ⟨chunks, rb, hloop, -, hnum, hdry⟩ := @readLoop_acts _ none unguarded c e [] none
    (e.recvBuf.offset + 1) hs hwf rfl
  rw [processReads, hs] at hok
  dsimp only at hok
  rw [hloop, ok_bind] at hok
  exact ⟨chunks, rb, hloop, hnum, fun hsize => hdry hsize (Nat.lt_succ_self _),
    (pure_eq_ok.mp hok).symm⟩

/-- The second closing case reads everything and reports the end. -/
theorem closeRemote_of_done [Float64] (hsound : Midcall.Sound ⟨c, none, []⟩)
    (hsize : c.config.maxPacketSize ≠ 0) (h : c.remoteDone = true)
    (hok : c.closeRemote = .ok c') : ∃ e reads, c'.state = .closed (some e) none ∧
      e.recvBuf.offset = 0 ∧ c'.reads = reads ++ [{ err := some .eof }] := by
  obtain ⟨e, hs, hfin, heq⟩ := closeRemote_eq h
  rw [heq] at hok
  obtain ⟨c₁, hreads, hok⟩ := bind_eq_ok.mp hok
  obtain rfl := pure_eq_ok.mp hok
  -- the loop of `processReads` leaves nothing, and the stream is at its end
  obtain ⟨chunks, rb, -, hnum, hdry, rfl⟩ :=
    processReads_connected hs (hsound e (established_connected hs)).recvBuf hreads
  rw [pushEof, if_pos]
  · exact ⟨_, _, rfl, hdry hsize, rfl⟩
  · refine (eof_connected rfl).mpr ?_
    exact hfin.trans (congrArg some hnum.symm)

theorem transmit_connected {p : Packet} (hok : c.transmit p now = .ok c') :
    ∃ e, c'.state = .connected e := by
  unfold transmit at hok
  split at hok
  · obtain ⟨sp, -, hok⟩ := bind_eq_ok.mp hok
    obtain rfl := pure_eq_ok.mp hok
    exact ⟨_, rfl⟩
  · cases hok

/-- A shutdown closes a connection only before it is connected. -/
theorem shutdown_closes {e : Established} {err : Option ConnError}
    (hok : c.shutdown now = .ok c') (hclosed : c'.state = .closed (some e) err) : c' = c := by
  rcases shutdown_inv hok with rfl | ⟨-, rfl⟩ | ⟨e₀, -, -, rfl⟩ | ⟨e₀, -, -, -, -, htransmit⟩
  · rfl
  · cases hclosed
  · cases hclosed
  · obtain ⟨e₁, hs⟩ := transmit_connected htransmit
    cases hclosed.symm.trans hs

theorem processReads_closes {e : Option Established} {err : Option ConnError}
    (hok : c.processReads = .ok c') (hclosed : c'.state = .closed e err) : c.Closed := by
  rcases processReads_frame hok with ⟨reads, rfl⟩ | ⟨e₁, rb, reads, -, rfl⟩
  · exact ⟨e, err, hclosed⟩
  · cases hclosed

/-- A closed connection takes its leave: it answers the writes that wait and
tells the socket. -/
theorem leave_of_closed {e : Option Established} {err : Option ConnError}
    (hs : c.state = .closed e err) : c.leave now = .ok { c with
      results := c.results ++ c.pendingWrites.map fun w => (w.resultCh, .ofConnErr err)
      socketEvents := c.socketEvents ++ [.shutdown] } := by
  have heof : c.eof = true := by
    rw [eof, hs]
  have hwrites : c.processWrites now = .ok { c with
      results := c.results ++ c.pendingWrites.map fun w => (w.resultCh, .ofConnErr err) } := by
    unfold processWrites
    rw [hs]
    rfl
  rw [leave, if_neg (not_not.mpr heof), pure_bind]
  show (do let c ← c.processWrites now; _) = _
  rw [hwrites]
  rfl

theorem leave_closed {e : Option Established} {err : Option ConnError}
    (hs : c.state = .closed e err) (hok : c.leave now = .ok c') :
    c'.reads = c.reads ∧ c'.state = .closed e err := by
  rw [leave_of_closed hs] at hok
  cases hok
  exact ⟨rfl, hs⟩

/-! ### The last turn -/

variable [Float64]

/-- The event is a packet upon which the second closing case applies. -/
def Drains (c : Connection) (ev : Event) : Prop :=
  ∃ p now rnd c₁, ev = .onPacket p now rnd ∧ c.beforeClosing p now rnd = .ok c₁ ∧
    c₁.remoteDone = true

theorem not_drains {ev : Event} (h : ev.packet? = none) : ¬ c.Drains ev := by
  rintro ⟨p, now, rnd, c₁, rfl, -⟩
  cases h

/-- How an event closes a connection: the second closing case reads
everything and reports the end, and all other ways hand nothing over. -/
theorem step_closes {ev : Event} {e : Established} {err : Option ConnError}
    (hsound : Midcall.Sound ⟨c, none, []⟩) (hsize : c.config.maxPacketSize ≠ 0)
    (hopen : ¬ c.Closed) (hok : c.step ev = .ok c') (hclosed : c'.state = .closed (some e) err) :
    (c.Drains ev ∧ e.recvBuf.offset = 0 ∧ ∃ reads, c'.reads = reads ++ [{ err := some .eof }]) ∨
    (¬ c.Drains ev ∧ c'.reads = c.reads) := by
  cases ev with
  | onPacket p now rnd =>
      change c.onPacket p now rnd = .ok c' at hok
      rw [onPacket_eq] at hok
      obtain ⟨c₁, hbefore, hok⟩ := bind_eq_ok.mp hok
      obtain ⟨c₂, hremote, hok⟩ := bind_eq_ok.mp hok
      obtain rfl := pure_eq_ok.mp hok
      cases hdone : c₁.remoteDone with
      | true =>
          obtain ⟨⟨_, hand, w⟩, hreach, rfl, -, -⟩ :=
            (@beforeClosing_plays _ unguarded _ _ _ _ rnd hsound).ok c₁ hbefore
          have hinv := reach_inv (I := fun m : Midcall => m.Sound ∧
              m.conn.config.maxPacketSize ≠ 0) (fun m m' hact hI =>
            ⟨Act.sound hact hI.1, Act.config hact ▸ hI.2⟩) ⟨hsound, hsize⟩ hreach
          obtain ⟨e₂, reads, hs₂, hoff, hreads⟩ :=
            closeRemote_of_done hinv.1 hinv.2 hdone hremote
          rw [Closed.closeBoth ⟨_, _, hs₂⟩] at hclosed ⊢
          cases hs₂.symm.trans hclosed
          exact .inl ⟨⟨p, now, rnd, _, rfl, hbefore, hdone⟩, hoff, reads, hreads⟩
      | false =>
          rw [closeRemote_of_not_done hdone] at hremote
          obtain rfl := pure_eq_ok.mp hremote
          refine .inr ⟨?_, keeps_closeBoth.reads.trans (hands_beforeClosing hbefore).reads⟩
          rintro ⟨p', now', rnd', c₂, hev, hbefore', hdone'⟩
          cases hev
          cases hbefore.symm.trans hbefore'
          cases hdone.symm.trans hdone'
  | processReads =>
      have hold := processReads_closes hok hclosed
      exact absurd hold hopen
  | onWrite | processWrites | tick | onTimeout | onIdleTimeout | shutdown =>
      exact .inr ⟨not_drains rfl, reads_step hok rfl (by rintro ⟨⟩)⟩

/-- A turn that closes a connection with buffers closes it by its event. -/
theorem turn_closes {t : Turn} {e : Established} {err : Option ConnError}
    (hok : c.turn t = .ok c') (hclosed : c'.state = .closed (some e) err) :
    c.step t.event = .ok c' := by
  obtain ⟨c₁, hstep, hok⟩ := bind_eq_ok.mp hok
  split at hok
  · rw [shutdown_closes hok hclosed]
    exact hstep
  · obtain rfl := pure_eq_ok.mp hok
    exact hstep

/-! ### Runs of the loop -/

theorem run_singleton {ev : Event} (hok : c.step ev = .ok c') : c.run [ev] = .ok c' := by
  show (do let c ← c.step ev; _) = _
  rw [hok]
  rfl

/-- A turn is its event, and a shutdown after it if the flag is set. -/
theorem turn_cases {t : Turn} (hok : c.turn t = .ok c') :
    c.run [t.event] = .ok c' ∨ c.run [t.event, .shutdown t.now] = .ok c' := by
  obtain ⟨c₁, hstep, hok⟩ := bind_eq_ok.mp hok
  split at hok
  · right
    show (do let c ← c.step t.event; _) = _
    rw [hstep, ok_bind]
    exact run_singleton hok
  · obtain rfl := pure_eq_ok.mp hok
    exact .inl (run_singleton hstep)

theorem turn_run {t : Turn} (hok : c.turn t = .ok c') : ∃ events, c.run events = .ok c' := by
  rcases turn_cases hok with hrun | hrun
  · exact ⟨_, hrun⟩
  · exact ⟨_, hrun⟩

theorem run_append {events events' : List Event} {c₁ : Connection}
    (h : c.run events = .ok c₁) (h' : c₁.run events' = .ok c') :
    c.run (events ++ events') = .ok c' := by
  unfold run at h h' ⊢
  rw [List.foldlM_append, h]
  exact h'

theorem returned_stays {turns : List Turn} {s : LoopState}
    (hok : turns.foldlM loopStep (.returned c) = .ok s) : s = .returned c := by
  induction turns with
  | nil => exact (pure_eq_ok.mp hok).symm
  | cons t turns ih => exact ih hok

/-- A loop that waits after a turn waited before it. -/
theorem loopStep_waits {s : LoopState} {t : Turn} (hok : loopStep s t = .ok (.waiting c')) :
    ∃ c, s = .waiting c ∧ c.turn t = .ok c' ∧ ¬ c'.Closed := by
  cases s with
  | returned c => cases hok
  | waiting c =>
      obtain ⟨c₁, hturn, hok⟩ := bind_eq_ok.mp hok
      split at hok
      · obtain ⟨c₂, -, hok⟩ := bind_eq_ok.mp hok
        cases pure_eq_ok.mp hok
      · rename_i hnot
        cases pure_eq_ok.mp hok
        exact ⟨c, rfl, hturn, fun h => hnot (isClosed_iff.mpr h)⟩

/-- A loop that waits has taken the connection through a run, and has not
closed it. -/
theorem eventLoop_run {turns : List Turn} (hopen : ¬ c.Closed)
    (hok : c.eventLoop turns = .ok (.waiting c')) :
    (∃ events, c.run events = .ok c') ∧ ¬ c'.Closed := by
  induction turns generalizing c with
  | nil =>
      cases pure_eq_ok.mp hok
      exact ⟨⟨[], rfl⟩, hopen⟩
  | cons t turns ih =>
      obtain ⟨s, hstep, hok⟩ := bind_eq_ok.mp hok
      rcases s with c₁ | c₁
      swap
      · cases returned_stays hok
      obtain ⟨_, ⟨⟩, hturn, hopen₁⟩ := loopStep_waits hstep
      obtain ⟨⟨events, hrun⟩, hopen'⟩ := ih hopen₁ hok
      obtain ⟨events₁, hrun₁⟩ := turn_run hturn
      exact ⟨⟨events₁ ++ events, run_append hrun₁ hrun⟩, hopen'⟩

/-- The turn upon which the loop returns. -/
theorem loopStep_returns {t : Turn} {e : Established} {err : Option ConnError}
    (hok : loopStep (.waiting c) t = .ok (.returned c'))
    (hclosed : c'.state = .closed (some e) err) : ∃ c₁, c.step t.event = .ok c₁ ∧
      c₁.state = .closed (some e) err ∧ c'.reads = c₁.reads := by
  obtain ⟨c₁, hturn, hok⟩ := bind_eq_ok.mp hok
  split at hok
  swap
  · cases pure_eq_ok.mp hok
  rename_i hc
  obtain ⟨c₂, hleave, hok⟩ := bind_eq_ok.mp hok
  cases pure_eq_ok.mp hok
  obtain ⟨e₁, err₁, hs₁⟩ := isClosed_iff.mp hc
  obtain ⟨hreads, hs₂⟩ := leave_closed hs₁ hleave
  cases hs₂.symm.trans hclosed
  exact ⟨c₁, turn_closes hturn hs₁, hs₁, hreads⟩

theorem run_consumedStream {events : List Event} {w : Bytes}
    (hsound : Midcall.Sound ⟨c, none, w⟩) (hrun : c.run events = .ok c') :
    c.consumedStream <+: c'.consumedStream := by
  obtain ⟨_, -, hpre⟩ := run_inv (I := fun m => c.consumedStream <+: m.conn.consumedStream)
    (fun _ _ _ hact hs hm => hm.trans (hact.consumedStream hs)) (fun _ _ _ _ hm => hm)
    (along_unguarded c events) hsound (List.prefix_refl _) hrun
  exact hpre

/-! ### What the reader gets -/

omit [Float64] in
/-- Everything consumed has been handed to the reader, and after it a result
without data, which ends `ReadToEOF`: the end of the stream, or the error of
the connection. -/
structure Served (c : Connection) (err : Option ConnError) : Prop where
  pushed : c.readStream = c.consumedStream
  terminal : ∃ r, c.reads.getLast? = some r ∧ r.data = [] ∧
    (r.err = some .eof ∨ r.err = err.map .conn)

/-- The last result handed to the reader was one without data. -/
def EndReported (c : Connection) : Prop := ∃ r, c.reads.getLast? = some r ∧ r.data = []

/-- In one of the turns, taken from `c` on, the loop served the reads at the end
of the stream. -/
def EndServed (c : Connection) (turns : List Turn) : Prop :=
  ∃ turns₁ t turns₂ c₁, turns = turns₁ ++ t :: turns₂ ∧
    c.eventLoop turns₁ = .ok (.waiting c₁) ∧ t.event = .processReads ∧ c₁.eof = true

omit [Float64] in
theorem not_closed_start (cid : ConnectionId) (config : ConnectionConfig) (syn : Option Packet)
    (rnd : Uint16) (now t₀ : Time) :
    ¬ ((newConnection cid config syn rnd now).start t₀).Closed := by
  rintro ⟨e, err, hs⟩
  cases syn <;> cases hs

omit [Float64] in
theorem reported_start (cid : ConnectionId) {config : ConnectionConfig} (syn : Option Packet)
    (rnd : Uint16) (now t₀ : Time) (w : Bytes) (hsize : config.maxPacketSize ≠ 0) :
    Midcall.Reported ⟨(newConnection cid config syn rnd now).start t₀, none, w⟩ := by
  cases syn with
  | none => exact ⟨hsize, fun _ _ hr => absurd hr List.not_mem_nil⟩
  | some syn => exact ⟨hsize, fun _ _ hr => absurd hr List.not_mem_nil⟩

omit [Float64] in
/-- An end that was reported is the end of the stream. -/
theorem eof_of_endReported {w : Bytes} (hrep : Midcall.Reported ⟨c, none, w⟩) (hopen : ¬ c.Closed)
    (h : c.EndReported) : c.eof = true := by
  obtain ⟨r, hr, hdata⟩ := h
  obtain ⟨-, e, he, hended⟩ := hrep.ended hopen r (List.mem_of_getLast? hr) hdata
  have hs : c.state = .connected e := by
    rcases hs : c.state with - | e' | ⟨e', err⟩
    · cases (congrArg ConnState.established hs).symm.trans he
    · cases (established_connected hs).symm.trans he
      rfl
    · exact absurd ⟨e', err, hs⟩ hopen
  exact (eof_connected hs).mpr hended.complete

/-- Serving the reads reports the end exactly at the end of the stream. -/
theorem processReads_endReported {w : Bytes} (hsound : Midcall.Sound ⟨c, none, w⟩)
    (hrep : Midcall.Reported ⟨c, none, w⟩) (hopen : ¬ c.Closed) (hok : c.processReads = .ok c') :
    c'.EndReported ↔ c.eof = true := by
  rcases hs : c.state with - | e | ⟨e, err⟩
  · rw [processReads, hs] at hok
    obtain rfl := pure_eq_ok.mp hok
    refine ⟨eof_of_endReported hrep hopen, fun heof => ?_⟩
    rw [eof, hs] at heof
    cases heof
  swap
  · exact absurd ⟨e, err, hs⟩ hopen
  obtain ⟨chunks, rb, -, hnum, -, rfl⟩ :=
    processReads_connected hs (hsound e (established_connected hs)).recvBuf hok
  have hsame : eof { c with
      state := .connected { e with recvBuf := rb }
      reads := c.reads ++ chunks.map (readResult c.config) } = true ↔ c.eof = true := by
    rw [eof_connected hs, eof_connected rfl]
    show _ = some rb.ackNum ↔ _
    rw [hnum]
    rfl
  unfold pushEof
  split
  · rename_i heof
    exact iff_of_true ⟨_, List.getLast?_concat, rfl⟩ (hsame.mp heof)
  · -- nothing but data was handed over, if anything
    rename_i hnot
    refine iff_of_false ?_ fun heof => hnot (hsame.mpr heof)
    rintro ⟨r, hr, hdata⟩
    dsimp only at hr
    rcases List.eq_nil_or_concat chunks with rfl | ⟨front, last, rfl⟩
    · rw [List.map_nil, List.append_nil] at hr
      exact hnot (hsame.mpr (eof_of_endReported hrep hopen ⟨r, hr, hdata⟩))
    · rw [List.concat_eq_append, List.map_append, ← List.append_assoc, List.map_singleton,
        List.getLast?_concat] at hr
      cases hr
      exact data_readResult hrep.size last hdata

/-- A packet that does not close the connection hands nothing over. -/
theorem reads_onPacket {p : Packet} {rnd : Uint16} (hopen : ¬ c'.Closed)
    (hok : c.onPacket p now rnd = .ok c') : c'.reads = c.reads := by
  rw [onPacket_eq] at hok
  obtain ⟨c₁, hbefore, hok⟩ := bind_eq_ok.mp hok
  obtain ⟨c₂, hremote, hok⟩ := bind_eq_ok.mp hok
  obtain rfl := pure_eq_ok.mp hok
  cases hdone : c₁.remoteDone with
  | true =>
      have hclosed := closeRemote_closes hdone hremote
      exact absurd (hclosed.closeBoth.symm ▸ hclosed) hopen
  | false =>
      rw [closeRemote_of_not_done hdone] at hremote
      obtain rfl := pure_eq_ok.mp hremote
      exact keeps_closeBoth.reads.trans (hands_beforeClosing hbefore).reads

/-- As long as the connection is open the last result is one without data if it
was so before, or if the event serves the reads at the end of the stream. -/
theorem step_endReported {ev : Event} {w : Bytes} (hsound : Midcall.Sound ⟨c, none, w⟩)
    (hrep : Midcall.Reported ⟨c, none, w⟩) (hopen : ¬ c.Closed) (hok : c.step ev = .ok c')
    (hopen' : ¬ c'.Closed) :
    c'.EndReported ↔ c.EndReported ∨ (ev = .processReads ∧ c.eof = true) := by
  have hsame : c'.reads = c.reads → ev ≠ .processReads →
      (c'.EndReported ↔ c.EndReported ∨ (ev = .processReads ∧ c.eof = true)) := by
    intro hreads hne
    unfold EndReported
    rw [hreads, or_iff_left fun h => hne h.1]
  cases ev with
  | processReads =>
      have hserved : c'.EndReported ↔ c.eof = true :=
        processReads_endReported (c := { c with readable := c.readable - 1 }) (w := w)
          hsound ⟨hrep.size, hrep.ended⟩ hopen hok
      refine hserved.trans ⟨?_, ?_⟩
      · exact fun heof => .inr ⟨rfl, heof⟩
      · rintro (hold | ⟨-, heof⟩)
        · exact eof_of_endReported hrep hopen hold
        · exact heof
  | onPacket p now rnd => exact hsame (reads_onPacket hopen' hok) (by rintro ⟨⟩)
  | onWrite | processWrites | tick | onTimeout | onIdleTimeout | shutdown =>
      exact hsame (reads_step hok rfl (by rintro ⟨⟩)) (by rintro ⟨⟩)

theorem turn_endReported {t : Turn} {w : Bytes} (hsound : Midcall.Sound ⟨c, none, w⟩)
    (hrep : Midcall.Reported ⟨c, none, w⟩) (hopen : ¬ c.Closed) (hok : c.turn t = .ok c')
    (hopen' : ¬ c'.Closed) :
    c'.EndReported ↔ c.EndReported ∨ (t.event = .processReads ∧ c.eof = true) := by
  obtain ⟨c₁, hstep, hok⟩ := bind_eq_ok.mp hok
  -- the shutdown after the event hands nothing over
  have hafter : c'.reads = c₁.reads ∧ ¬ c₁.Closed := by
    split at hok
    · rename_i hflag
      exact ⟨(hands_shutdown hok).reads, fun h => hflag.2 (isClosed_iff.mpr h)⟩
    · obtain rfl := pure_eq_ok.mp hok
      exact ⟨rfl, hopen'⟩
  have hcongr : c'.EndReported ↔ c₁.EndReported := by
    unfold EndReported
    rw [hafter.1]
  exact hcongr.trans (step_endReported hsound hrep hopen hstep hafter.2)

/-- What a run keeps, at the states in which the loop waits. -/
theorem eventLoop_reported {turns : List Turn} {w : Bytes} (hopen : ¬ c.Closed)
    (hsound : Midcall.Sound ⟨c, none, w⟩) (hrep : Midcall.Reported ⟨c, none, w⟩)
    (hwait : c.eventLoop turns = .ok (.waiting c')) :
    ¬ c'.Closed ∧ ∃ w', Midcall.Sound ⟨c', none, w'⟩ ∧ Midcall.Reported ⟨c', none, w'⟩ := by
  obtain ⟨⟨events, hrun⟩, hopen'⟩ := eventLoop_run hopen hwait
  obtain ⟨w', hsound', hrep'⟩ := run_inv (I := Midcall.Reported)
    (fun _ _ _ hact hs hm => hact.reported hs hm) (fun _ _ _ _ hm => ⟨hm.size, hm.ended⟩)
    (along_unguarded _ events) hsound hrep hrun
  exact ⟨hopen', w', hsound', hrep'⟩

/-- **When the end has been reported**: in one of the turns the loop served the
reads at the end of the stream. -/
theorem endReported_iff {turns : List Turn} {w : Bytes} (hopen : ¬ c.Closed)
    (hsound : Midcall.Sound ⟨c, none, w⟩) (hrep : Midcall.Reported ⟨c, none, w⟩)
    (hnew : c.reads = []) (hwait : c.eventLoop turns = .ok (.waiting c')) :
    c'.EndReported ↔ c.EndServed turns := by
  have hocc := foldlM_occurs_iff (P := fun s => ∃ c, s = .waiting c ∧ c.EndReported)
    (Q := fun s t => ∃ c, s = .waiting c ∧ t.event = .processReads ∧ c.eof = true) hwait ?_
  · have hstart : ¬ c.EndReported := by
      rintro ⟨r, hr, -⟩
      rw [hnew] at hr
      cases hr
    constructor
    · intro hend
      rcases hocc.mp ⟨c', rfl, hend⟩ with ⟨_, ⟨⟩, hend₀⟩ |
        ⟨turns₁, t, turns₂, _, heq, hwait₁, c₁, rfl, h⟩
      · exact absurd hend₀ hstart
      · exact ⟨turns₁, t, turns₂, c₁, heq, hwait₁, h⟩
    · rintro ⟨turns₁, t, turns₂, c₁, heq, hwait₁, h⟩
      obtain ⟨_, ⟨⟩, hend⟩ := hocc.mpr (.inr ⟨turns₁, t, turns₂, _, heq, hwait₁, c₁, rfl, h⟩)
      exact hend
  · -- the loop waited before and after the turn
    rintro turns₁ t turns₂ s₁ s₂ - hwait₁ hstep hrest
    rcases s₂ with c₂ | c₂
    swap
    · cases returned_stays hrest
    obtain ⟨c₁, rfl, hturn, hopen₂⟩ := loopStep_waits hstep
    obtain ⟨hopen₁, w₁, hsound₁, hrep₁⟩ := eventLoop_reported hopen hsound hrep hwait₁
    have hone := turn_endReported hsound₁ hrep₁ hopen₁ hturn hopen₂
    simpa using hone

/-- **What the reader gets from a loop that returns**: everything consumed at
any time, followed by the end of the stream, if and only if the end was
reported before the last turn, or the event of the last turn is a packet upon
which the second closing case applies.  The end was reported if and only if one
of the turns served the reads when the stream was at its end. -/
theorem eventLoop_serves_iff (cid : ConnectionId) (config : ConnectionConfig)
    (syn : Option Packet) (rnd : Uint16) (now t₀ : Time) {turns : List Turn} {t : Turn}
    {e : Established} {err : Option ConnError} (hsize : config.maxPacketSize ≠ 0)
    (hwait : ((newConnection cid config syn rnd now).start t₀).eventLoop turns = .ok (.waiting c))
    (hlast : loopStep (.waiting c) t = .ok (.returned c'))
    (hclosed : c'.state = .closed (some e) err) :
    (∀ turns₁ c₁, turns₁ <+: turns →
      ((newConnection cid config syn rnd now).start t₀).eventLoop turns₁ = .ok (.waiting c₁) →
      c₁.consumedStream <+: c'.consumedStream) ∧
    (c'.Served err ↔ c.EndReported ∨ c.Drains t.event) ∧
    (c.EndReported ↔ ((newConnection cid config syn rnd now).start t₀).EndServed turns) := by
  have hopen₀ := not_closed_start cid config syn rnd now t₀
  have hsound₀ := sound_start cid config syn rnd now t₀ []
  have hrep₀ := reported_start cid syn rnd now t₀ [] hsize
  obtain ⟨c₂, hstep, hs₂, hreads⟩ := loopStep_returns hlast hclosed
  have hbuf : c'.buffered = c₂.buffered := by
    unfold buffered established
    rw [hclosed, hs₂]
  refine ⟨?_, ?_, endReported_iff hopen₀ hsound₀ hrep₀ (by cases syn <;> rfl) hwait⟩
  · rintro turns₁ c₁ ⟨turns₂, rfl⟩ hwait₁
    -- the loop goes on from the state it waited in
    have hrest : c₁.eventLoop turns₂ = .ok (.waiting c) := by
      unfold eventLoop at hwait hwait₁ ⊢
      rwa [List.foldlM_append, hwait₁, ok_bind] at hwait
    obtain ⟨⟨events₁, hrun₁⟩, hopen₁⟩ := eventLoop_run hopen₀ hwait₁
    obtain ⟨⟨events₂, hrun₂⟩, -⟩ := eventLoop_run hopen₁ hrest
    obtain ⟨_, hsound₁, -⟩ := run_inv (I := fun _ => True) (fun _ _ _ _ _ _ => trivial)
      (fun _ _ _ _ _ => trivial) (along_unguarded _ events₁) hsound₀ trivial hrun₁
    refine (run_consumedStream hsound₁ (run_append hrun₂ (run_singleton hstep))).trans ?_
    exact consumedStream_congr hreads (hbuf ▸ List.prefix_refl _)
  · obtain ⟨hopen, w, hsound, hrep⟩ := eventLoop_reported hopen₀ hsound₀ hrep₀ hwait
    have hpushed : e.recvBuf.offset = 0 → c'.readStream = c'.consumedStream := by
      intro hoff
      rw [consumedStream, hbuf, buffered, established, hs₂]
      show _ = _ ++ e.recvBuf.buf.take e.recvBuf.offset
      rw [hoff, List.take_zero, List.append_nil]
    rcases step_closes hsound hrep.size hopen hstep hs₂ with
      ⟨hdrains, hoff, reads, hlast'⟩ | ⟨hnot, hsame⟩
    · refine ⟨fun _ => .inr hdrains, fun _ =>
        ⟨hpushed hoff, { err := some .eof }, ?_, rfl, .inl rfl⟩⟩
      rw [hreads, hlast', List.getLast?_concat]
    · rw [hsame] at hreads
      constructor
      · rintro ⟨-, r, hr, hdata, -⟩
        exact .inl ⟨r, hreads ▸ hr, hdata⟩
      · rintro (⟨r, hr, hdata⟩ | hdrains)
        swap
        · exact absurd hdrains hnot
        -- the end was reported, so that the stream had ended, and stays so
        obtain ⟨herr, hend⟩ := hrep.ended hopen r (List.mem_of_getLast? hr) hdata
        obtain ⟨hand, -, -, e₂, he₂, hended⟩ := step_inv (I := Midcall.AtEnd)
          (fun _ _ hact hs hm => hact.atEnd hs hm) (guarded_unguarded c t.event) hsound hend hstep
        have he : c₂.established = some e := congrArg ConnState.established hs₂
        cases he.symm.trans he₂
        exact ⟨hpushed hended.read, r, hreads ▸ hr, hdata, .inl herr⟩

omit [Float64] in
/-- A byte and the FIN after it: the reader gets both. -/
theorem eventLoop_serves_data : ∃ c c' e,
    @eventLoop exactFloat64 sampleAcceptor
      [⟨.onPacket (((newPacketBuilder .st_data 1 0 1000 101).withAckNum 4).withPayload [7]).build
        0 0, false, 0⟩] = .ok (.waiting c) ∧
    @loopStep exactFloat64 (.waiting c)
      ⟨.onPacket ((newPacketBuilder .st_fin 1 0 1000 102).withAckNum 4).build 0 0, false, 0⟩ =
      .ok (.returned c') ∧
    c'.state = .closed (some e) none ∧ c'.Served none := by
  have hrun : ∃ c c' c₁ e, @eventLoop exactFloat64 sampleAcceptor
      [⟨.onPacket (((newPacketBuilder .st_data 1 0 1000 101).withAckNum 4).withPayload [7]).build
        0 0, false, 0⟩] = .ok (.waiting c) ∧
      @loopStep exactFloat64 (.waiting c)
        ⟨.onPacket ((newPacketBuilder .st_fin 1 0 1000 102).withAckNum 4).build 0 0, false, 0⟩ =
        .ok (.returned c') ∧
      c'.state = .closed (some e) none ∧
      @beforeClosing exactFloat64 c
        ((newPacketBuilder .st_fin 1 0 1000 102).withAckNum 4).build 0 0 = .ok c₁ ∧
      c₁.remoteDone = true :=
    ⟨_, _, _, _, rfl, rfl, rfl, rfl, rfl⟩
  let := exactFloat64
  obtain ⟨c, c', c₁, e, hwait, hlast, hclosed, hbefore, hdone⟩ := hrun
  obtain ⟨-, hserves, -⟩ := eventLoop_serves_iff _ _ _ _ _ _ (by decide) hwait hlast hclosed
  exact ⟨c, c', e, hwait, hlast, hclosed, hserves.mpr (.inr ⟨_, _, _, c₁, rfl, hbefore, hdone⟩)⟩

omit [Float64] in
/-- A byte and a reset after it, both handled before the reader is served: the
loop returns, the byte stays in the buffer, and the reader is not told. -/
theorem reset_withholds : ∃ c e, @eventLoop exactFloat64 sampleAcceptor
      [⟨.onPacket (((newPacketBuilder .st_data 1 0 1000 101).withAckNum 4).withPayload [7]).build
          0 0, false, 0⟩,
        ⟨.onPacket (newPacketBuilder .st_reset 1 0 1000 0).build 0 0, false, 0⟩] =
      .ok (.returned c) ∧
    c.state = .closed (some e) (some .errReset) ∧ c.consumedStream = [7] ∧ c.reads = [] :=
  ⟨_, _, rfl, rfl, rfl, rfl⟩

end Connection

end UtpGo
