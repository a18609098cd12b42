/-
UtpGo/ConnForward.lean

The state machine of a connection only moves forward.  A connection is
connecting, connected and closed, in this order; a FIN in the closing record
keeps its number; and the buffers keep the numbers they began with.

`Forward` relates a state of a connection to one that comes later.  Every
action is a step of it (`Act.forward`), so that every run is one too.

The error of a closed connection is another matter.  `reset` does not look at
the state, and an empty DATA packet handed to a closed connection would
replace the error; but the loop returns with the event that closes the
connection, and hands it none.

Main result: `serveAll_forward`, any state of the loop and any later one.
-/
import UtpGo.ConnExit

namespace UtpGo

open Checked Relation

/-! ### Going forward -/

inductive ConnStateType where
  | connConnecting
  | connConnected
  | connClosed
  deriving DecidableEq, Repr

def ConnState.stateType : ConnState → ConnStateType
  | .connecting => .connConnecting
  | .connected _ => .connConnected
  | .closed _ _ => .connClosed

/-- The field `Err`, which is assigned together with `ConnClosed` only. -/
def ConnState.err : ConnState → Option ConnError
  | .closed _ err => err
  | _ => none

/-- The moves of `stateType`. -/
inductive ConnStateType.Moves : ConnStateType → ConnStateType → Prop where
  | connects : Moves .connConnecting .connConnected
  | fails : Moves .connConnecting .connClosed
  | closes : Moves .connConnected .connClosed

/-- The buffers go on: their numbers stay, and a FIN that is set stays. -/
structure Established.Forward (e e' : Established) : Prop where
  recvInit : e'.recvBuf.initSeqNum = e.recvBuf.initSeqNum
  sentInit : e'.sentPackets.initSeqNum = e.sentPackets.initSeqNum
  closing : e.closing.isSome → e'.closing.isSome
  localFin : ∀ fin, e.localFin = some fin → e'.localFin = some fin
  remoteFin : ∀ fin, e.remoteFin = some fin → e'.remoteFin = some fin

/-- The connection goes on. -/
structure Connection.Forward (c c' : Connection) : Prop where
  stateType : ReflTransGen ConnStateType.Moves c.state.stateType c'.state.stateType
  established : ∀ e, c.established = some e → ∃ e', c'.established = some e' ∧ e.Forward e'

namespace Established.Forward

variable {e e₁ e' : Established}

protected theorem refl (e : Established) : e.Forward e :=
  ⟨rfl, rfl, id, fun _ => id, fun _ => id⟩

protected theorem trans (h : e.Forward e₁) (h' : e₁.Forward e') : e.Forward e' where
  recvInit := h'.recvInit.trans h.recvInit
  sentInit := h'.sentInit.trans h.sentInit
  closing := fun hc => h'.closing (h.closing hc)
  localFin := fun fin hfin => h'.localFin fin (h.localFin fin hfin)
  remoteFin := fun fin hfin => h'.remoteFin fin (h.remoteFin fin hfin)

/-- The closing record is not touched. -/
theorem of_closing (hr : e'.recvBuf.initSeqNum = e.recvBuf.initSeqNum)
    (hs : e'.sentPackets.initSeqNum = e.sentPackets.initSeqNum) (hc : e'.closing = e.closing) :
    e.Forward e' := by
  refine ⟨hr, hs, fun h => hc ▸ h, fun fin h => ?_, fun fin h => ?_⟩
  · rwa [Established.localFin, hc]
  · rwa [Established.remoteFin, hc]

end Established.Forward

namespace Connection.Forward

variable {c c₁ c' : Connection}

theorem of_state (h : c'.state = c.state) : c.Forward c' := by
  refine ⟨by rw [h], fun e he => ⟨e, ?_, .refl e⟩⟩
  rwa [Connection.established, h]

theorem of_connected {e e' : Established} (hs : c.state = .connected e)
    (hs' : c'.state = .connected e') (h : e.Forward e') : c.Forward c' := by
  refine ⟨by rw [hs, hs']; exact .refl, fun e₀ he₀ => ⟨e', established_connected hs', ?_⟩⟩
  cases (established_connected hs).symm.trans he₀
  exact h

protected theorem trans (h : c.Forward c₁) (h' : c₁.Forward c') : c.Forward c' := by
  refine ⟨h.stateType.trans h'.stateType, fun e he => ?_⟩
  obtain ⟨e₁, he₁, hforward₁⟩ := h.established e he
  obtain ⟨e', he', hforward⟩ := h'.established e₁ he₁
  exact ⟨e', he', hforward₁.trans hforward⟩

/-- Whatever the state was, it may be closed. -/
theorem of_closed {st : ConnState} (hclosed : ∃ e err, st = .closed e err)
    (hkept : st.established = c.established) : c.Forward { c with state := st } := by
  refine ⟨?_, fun e he => ⟨e, hkept.trans he, .refl e⟩⟩
  obtain ⟨e, err, rfl⟩ := hclosed
  rcases hs : c.state with - | e₀ | ⟨e₀, err₀⟩
  · exact .single .fails
  · exact .single .closes
  · exact .refl

end Connection.Forward

/-- Every action goes forward. -/
theorem Act.forward [Float64] {packet? : Option Packet} {guard : Guard} {m m' : Midcall}
    (h : Act packet? guard m m') (hsound : m.Sound) : m.conn.Forward m'.conn := by
  have hbufs : ∀ {c : Connection} {e : Established} {hand w}, m = ⟨c, hand, w⟩ →
      c.state = .connected e → e.Sound := by
    rintro c e hand w rfl hs
    exact hsound e (established_connected hs)
  cases h with
  | sends h =>
      cases h with
      | enqueue | pickLost | pickExpired => exact .of_state rfl
      | flush hs => exact .of_connected hs rfl (.of_closing rfl rfl rfl)
      | send hs hok =>
          have hsent := SentPackets.transmitted_of_ok (hbufs rfl hs).sentPackets hok
          exact .of_connected hs rfl (.of_closing rfl hsent.init rfl)
      | pickFin hs hl =>
          -- our FIN is set for the first time, and the peer's is copied
          refine .of_connected hs rfl ⟨rfl, rfl, fun _ => rfl, fun fin hfin => ?_, fun _ h => h⟩
          cases hl.symm.trans hfin
  | book h => exact .of_state h.state
  | emitState | emitReset | emitSyn | endOfStream | closedRead => exact .of_state rfl
  | backOff hs => exact .of_connected hs rfl (.of_closing rfl rfl rfl)
  | beginClosing hs hc =>
      refine .of_connected hs rfl ⟨rfl, rfl, fun _ => rfl, fun fin hfin => ?_, fun fin hfin => ?_⟩
      · rw [Established.localFin, hc] at hfin
        cases hfin
      · rw [Established.remoteFin, hc] at hfin
        cases hfin
  | recvData _ _ hs _ hw =>
      have hinit := ReceiveBuffer.initSeqNum_write (hbufs rfl hs).recvBuf hw
      exact .of_connected hs rfl (.of_closing hinit rfl rfl)
  | recvFin _ _ hs hl hw =>
      have hinit := ReceiveBuffer.initSeqNum_write (hbufs rfl hs).recvBuf hw
      refine .of_connected hs rfl ⟨hinit, rfl, fun _ => rfl, fun _ h => h, fun fin hfin => ?_⟩
      cases hl.symm.trans hfin
  | readOut _ hs hr =>
      have hdid := ReceiveBuffer.didRead_of_ok (hbufs rfl hs).recvBuf hr
      exact .of_connected hs rfl (.of_closing hdid.init rfl rfl)
  | acked _ _ hs hok =>
      have hacks := (SentPackets.acks_of_ok (hbufs rfl hs).sentPackets hok).1
      exact .of_connected hs rfl (.of_closing rfl hacks.init rfl)
  | close _ h => exact .of_closed h.closed h.established
  | @establish c w p _ _ hs =>
      have hnone : c.established = none := congrArg ConnState.established hs
      refine ⟨?_, fun e he => ?_⟩
      · rw [show c.state = .connecting from hs]
        exact .single .connects
      · cases hnone.symm.trans he

/-! ### Runs of the loop -/

namespace Connection

variable [Float64] {c c' : Connection}

theorem run_forward {events : List Event} {w : Bytes} (hsound : Midcall.Sound ⟨c, none, w⟩)
    (hrun : c.run events = .ok c') :
    ∃ w' : Bytes, Midcall.Sound ⟨c', none, w'⟩ ∧ c.Forward c' :=
  run_inv (I := fun m => c.Forward m.conn) (fun _ _ _ hact hs hm => hm.trans (hact.forward hs))
    (fun _ _ _ _ hm => hm) (along_unguarded c events) hsound (.of_state rfl) hrun

omit [Float64] in
theorem err_of_open (h : ¬ c.Closed) : c.state.err = none := by
  rcases hs : c.state with - | e | ⟨e, err⟩
  · rfl
  · rfl
  · exact absurd ⟨e, err, hs⟩ h

/-- What one event makes of a loop that waits: it waits in a later state, not
closed, or it has returned, with the error the event left. -/
theorem serve_forward {ev : LoopEvent} {s : LoopState} (hwaits : c.Waits)
    (hok : serve (.waiting c) ev = .ok s) :
    c.Forward s.conn ∧ ∀ c₁, s = .waiting c₁ → c₁.Waits := by
  rcases serve_cases hok with ⟨-, rfl⟩ | ⟨t, c₁, -, hturn, hnext⟩
  · refine ⟨.of_state rfl, ?_⟩
    rintro c₁ ⟨⟩
  · obtain ⟨events, hrun⟩ := turn_run hturn
    obtain ⟨w, hsound⟩ := hwaits.sound
    obtain ⟨w₁, hsound₁, hforward⟩ := run_forward hsound hrun
    rcases hnext with ⟨hopen, rfl⟩ | ⟨⟨e, err, hs⟩, c₂, hleave, rfl⟩
    · refine ⟨hforward, ?_⟩
      rintro c₂ ⟨⟩
      exact ⟨⟨w₁, hsound₁⟩, hopen⟩
    · refine ⟨hforward.trans (.of_state ?_), ?_⟩
      · exact (leave_closed hs hleave).2.trans hs.symm
      · rintro c₃ ⟨⟩

/-- From a state of the loop on. -/
theorem served_forward {events : List LoopEvent} {s s' : LoopState}
    (hwaits : ∀ c, s = .waiting c → c.Waits) (hok : events.foldlM serve s = .ok s') :
    s.conn.Forward s'.conn ∧ (∀ c, s' = .waiting c → c.Waits) ∧
      ∀ c, s = .returned c → s' = .returned c := by
  refine foldlM_inv (fun s₁ : LoopState => s.conn.Forward s₁.conn ∧
    (∀ c, s₁ = .waiting c → c.Waits) ∧ ∀ c, s = .returned c → s₁ = .returned c)
    hok ⟨.of_state rfl, hwaits, fun _ h => h⟩ ?_
  rintro s₁ ev s₂ - ⟨hforward, hwaits₁, hreturned⟩ hstep
  rcases s₁ with c₁ | c₁
  · obtain ⟨hforward₂, hwaits₂⟩ := serve_forward (hwaits₁ c₁ rfl) hstep
    refine ⟨hforward.trans hforward₂, hwaits₂, fun c hc => ?_⟩
    cases hreturned c hc
  · obtain rfl := serve_returned hstep
    exact ⟨hforward, hwaits₁, hreturned⟩

/-- **A connection only moves forward.**  Take any state of the loop, and one
that comes later, the same perhaps.  `stateType` has gone along its moves; the
buffers, once there, have kept their initial numbers, and the closing record
its FINs; and the error is nil before the connection is closed and stays the
one it was closed with. -/
theorem serveAll_forward (cid : ConnectionId) (config : ConnectionConfig) (syn : Option Packet)
    (rnd : Uint16) (now t₀ : Time) {events more : List LoopEvent} {s s' : LoopState}
    (hrun : ((newConnection cid config syn rnd now).start t₀).serveAll events = .ok s)
    (hmore : ((newConnection cid config syn rnd now).start t₀).serveAll (events ++ more)
      = .ok s') :
    ReflTransGen ConnStateType.Moves s.conn.state.stateType s'.conn.state.stateType ∧
    (∀ e, s.conn.established = some e → ∃ e', s'.conn.established = some e' ∧
      e'.recvBuf.initSeqNum = e.recvBuf.initSeqNum ∧
      e'.sentPackets.initSeqNum = e.sentPackets.initSeqNum ∧
      ∀ closing, e.closing = some closing → ∃ closing', e'.closing = some closing' ∧
        (∀ fin, closing.localFin = some fin → closing'.localFin = some fin) ∧
        ∀ fin, closing.remoteFin = some fin → closing'.remoteFin = some fin) ∧
    (¬ s.conn.Closed → s.conn.state.err = none) ∧
    (s.conn.Closed → s'.conn.state = s.conn.state) := by
  unfold serveAll at hrun hmore
  rw [List.foldlM_append, hrun, ok_bind] at hmore
  obtain ⟨-, hwaits, -⟩ := served_forward (s := .waiting _) (by
    rintro c ⟨⟩
    exact waits_start cid config syn rnd now t₀) hrun
  obtain ⟨hforward, -, hreturned⟩ := served_forward hwaits hmore
  refine ⟨hforward.stateType, fun e he => ?_, err_of_open, fun hclosed => ?_⟩
  · obtain ⟨e', he', h⟩ := hforward.established e he
    refine ⟨e', he', h.recvInit, h.sentInit, fun closing hc => ?_⟩
    obtain ⟨closing', hc'⟩ := Option.isSome_iff_exists.mp (h.closing (hc ▸ rfl))
    refine ⟨closing', hc', fun fin hfin => ?_, fun fin hfin => ?_⟩
    · have hset := h.localFin fin (by rw [Established.localFin, hc]; exact hfin)
      rwa [Established.localFin, hc'] at hset
    · have hset := h.remoteFin fin (by rw [Established.remoteFin, hc]; exact hfin)
      rwa [Established.remoteFin, hc'] at hset
  · -- a loop that waits is not closed, and one that has returned stays as it is
    rcases s with c | c
    · exact absurd hclosed (hwaits c rfl).opened
    · rw [hreturned c rfl]

omit [Float64] in
/-- A FIN is sent, and a reset comes: the FIN keeps its number. -/
theorem serveAll_forward_reset : ∃ c c' e, @serveAll exactFloat64 sampleAcceptor
      [.turn ⟨.shutdown 0, false, 0⟩] = .ok (.waiting c) ∧
    @serveAll exactFloat64 sampleAcceptor ([.turn ⟨.shutdown 0, false, 0⟩] ++
      [.turn ⟨.onPacket (newPacketBuilder .st_reset 1 0 1000 0).build 0 0, false, 0⟩])
      = .ok (.returned c') ∧
    c.state = .connected e ∧ e.closing = some ⟨some 5, none⟩ ∧ c'.Closed ∧
    ∃ e' closing', c'.established = some e' ∧ e'.closing = some closing' ∧
      closing'.localFin = some 5 := by
  have hrun : ∃ c c' e, @serveAll exactFloat64 sampleAcceptor
        [.turn ⟨.shutdown 0, false, 0⟩] = .ok (.waiting c) ∧
      @serveAll exactFloat64 sampleAcceptor ([.turn ⟨.shutdown 0, false, 0⟩] ++
        [.turn ⟨.onPacket (newPacketBuilder .st_reset 1 0 1000 0).build 0 0, false, 0⟩])
        = .ok (.returned c') ∧
      c.state = .connected e ∧ e.closing = some ⟨some 5, none⟩ ∧ c'.Closed :=
    ⟨_, _, _, rfl, rfl, rfl, rfl, _, _, rfl⟩
  let := exactFloat64
  obtain ⟨c, c', e, hwait, hreturn, hs, hc, hclosed⟩ := hrun
  obtain ⟨-, hkeep, -, -⟩ := serveAll_forward _ _ _ _ _ _ hwait hreturn
  obtain ⟨e', he', -, -, hclosing⟩ := hkeep e (established_connected hs)
  obtain ⟨closing', hc', hfin, -⟩ := hclosing _ hc
  exact ⟨c, c', e, hwait, hreturn, hs, hc, hclosed, e', closing', he', hc', hfin 5 rfl⟩

end Connection

end UtpGo
