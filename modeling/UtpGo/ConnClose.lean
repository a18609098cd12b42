/-
UtpGo/ConnClose.lean

Closing without an error.  A connection that has settled its FIN has nothing
left to write, in every state; and a connection that is closed cleanly
without having sent a FIN has received the whole stream of the peer and has
every packet acknowledged (`Midcall.Settled`).

Main result: `run_closes_complete`, a clean close before our own FIN does not
truncate the stream of the peer.  After our own FIN it may: a reset, the FIN of
the peer and the acknowledgement of our FIN each close the connection with data
of the peer missing (`reset_closes_incomplete`, `fin_closes_incomplete`,
`ack_closes_incomplete`).

A FIN that the receive buffer has no room for is refused.  `onFin_refused_iff`
says when that leaves everything as it was: while the connection has no
closing record.  With one, the number of the FIN is noted before the buffer is
asked, and the FIN sent again is taken for one received (`refused_fin_lost`).
-/
import UtpGo.ConnRecords

namespace UtpGo

open Checked

/-! ### How a connection gets closed -/

/-- A connection is closed by one of the closing actions. -/
theorem Act.closed [Float64] {packet? : Option Packet} {guard : Guard}
    {m m' : Midcall} (h : Act packet? guard m m') {e : Option Established} {err : Option ConnError}
    (hs : m'.conn.state = .closed e err) :
    m.conn.state = .closed e err ∨ Closes packet? m.conn (.closed e err) := by
  cases h with
  | sends h =>
      cases h with
      | enqueue | pickLost | pickExpired => exact .inl hs
      | flush | pickFin | send => cases hs
  | book h => exact .inl (h.state.symm.trans hs)
  | emitState | emitReset | emitSyn | endOfStream | closedRead => exact .inl hs
  | backOff | beginClosing | recvData | recvFin | readOut | acked | establish => cases hs
  | close _ h =>
      change _ = _ at hs
      exact .inr (hs ▸ h)

/-- What is established stays so. -/
theorem Act.established [Float64] {packet? : Option Packet}
    {guard : Guard} {m m' : Midcall} (h : Act packet? guard m m')
    (hsound : m.Sound) (hm : m.conn.established ≠ none) : m'.conn.established ≠ none := by
  obtain ⟨e, he⟩ := Option.ne_none_iff_exists'.mp hm
  rcases h.quiet hsound with hq | hsend | hopen
  · obtain ⟨e', he', -⟩ := hq.after he
    rw [he']
    simp
  · cases hsend with
    | enqueue | pickLost | pickExpired => exact hm
    | flush | pickFin | send => nofun
  · rw [Connection.established, hopen.before] at he
    cases he

/-- A reset closes cleanly only after our FIN. -/
theorem reset_clean {c : Connection} {err : ConnError} {e : Established}
    (h : (c.reset err).state = .closed (some e) none) : e.localFin ≠ none := by
  unfold Connection.reset at h
  split at h
  · cases h
  · split at h
    · rename_i hfin
      cases h
      rw [Established.localFin, hfin]
      simp
    · cases h
  · cases h

theorem Closes.clean {packet? : Option Packet} {c : Connection} {e : Established}
    (h : Closes packet? c (.closed (some e) none)) (hl : e.localFin = none) :
    e.remoteFin = some e.recvBuf.ackNum ∧ e.sentPackets.hasUnackedPackets = false := by
  generalize hst : ConnState.closed (some e) none = st at h
  cases h with
  | invalidAck | invalidSyn | synFromAcceptor | emptyData | invalidFin | reset =>
      exact absurd hl (reset_clean hst.symm)
  | invalidSeqNum | shutdown => cases hst
  | timedOut => cases (ConnState.closed.inj hst).2
  | localFin _ hfin =>
      cases hst
      rw [hl] at hfin
      cases hfin
  | remoteFin _ hfin hun hack =>
      cases hst
      exact ⟨hfin.trans (congrArg some hack.symm), hun⟩
  | bothFins _ _ hfin =>
      cases hst
      rw [hl] at hfin
      cases hfin

/-! ### The invariant -/

structure Midcall.Settled (m : Midcall) : Prop where
  /-- Once our FIN is settled nothing waits to be written. -/
  dry : ∀ e f, m.conn.established = some e → e.localFin = some f →
    m.conn.pendingWrites = [] ∧ e.sendBuf.isEmpty = true
  /-- A clean close without our FIN. -/
  done : ∀ e, m.conn.state = .closed (some e) none → e.localFin = none →
    e.remoteFin = some e.recvBuf.ackNum ∧ e.sentPackets.hasUnackedPackets = false

theorem Quiet.dry {m m' : Midcall} (h : Quiet m m') (hm : m.Settled) {e' : Established}
    {f : Uint16} (he' : m'.conn.established = some e') (hf : e'.localFin = some f) :
    m'.conn.pendingWrites = [] ∧ e'.sendBuf.isEmpty = true := by
  obtain ⟨e, he, hsame⟩ := h.before he'
  rw [h.pendingWrites, hsame.sendBuf]
  exact hm.dry e f he (hsame.localFin.symm.trans hf)

theorem SendAct.dry {guard : Guard} {m m' : Midcall}
    (h : SendAct guard m m') (hm : m.Settled) {e' : Established} {f : Uint16}
    (he' : m'.conn.established = some e') (hf : e'.localFin = some f) :
    m'.conn.pendingWrites = [] ∧ e'.sendBuf.isEmpty = true := by
  cases h with
  | enqueue data resultCh hacc =>
      rw [acceptsWrite_localFin hacc he'] at hf
      cases hf
  | flush hs hflush =>
      cases he'
      obtain ⟨hp, hb⟩ := hm.dry _ f (established_connected hs) hf
      obtain ⟨-, hsb, hpend⟩ := hflush.drained hp hb
      exact ⟨hpend, hsb⟩
  | pickLost | pickExpired => exact hm.dry e' f he' hf
  | pickFin _ _ hp hb =>
      cases he'
      exact ⟨hp, hb⟩
  | send hs =>
      cases he'
      have hdry := hm.dry _ f (established_connected hs) hf
      exact hdry

theorem Act.settled [Float64] {packet? : Option Packet} {guard : Guard}
    {m m' : Midcall} (h : Act packet? guard m m') (hsound : m.Sound) (hm : m.Settled) :
    m'.Settled where
  dry := by
    intro e' f he' hf
    rcases h.quiet hsound with hq | hsend | hopen
    · exact hq.dry hm he' hf
    · exact hsend.dry hm he' hf
    · obtain ⟨recvInit, hc⟩ := hopen.after
      rw [hc] at he'
      cases he'
      cases hf
  done := by
    intro e hs hl
    rcases h.closed hs with hold | hclose
    · exact hm.done e hold hl
    · exact hclose.clean hl

theorem settled_start (cid : ConnectionId) (config : ConnectionConfig) (syn : Option Packet)
    (rnd : Uint16) (now t₀ : Time) (w : Bytes) :
    Midcall.Settled ⟨(newConnection cid config syn rnd now).start t₀, none, w⟩ := by
  cases syn with
  | none => exact ⟨nofun, nofun⟩
  | some syn =>
      refine ⟨?_, nofun⟩
      rintro e f ⟨⟩ hf
      cases hf

/-! ### The peer's stream -/

namespace Connection

variable [Float64]

/-- **A clean close is complete**: a connection that is closed without an
error, in any state of a run, after the FIN of the peer and before its own,
has consumed the peer's stream up to that FIN. -/
theorem run_closes_complete (cid : ConnectionId) (config : ConnectionConfig)
    (syn : Option Packet) (rnd : Uint16) (now t₀ : Time) (events : List Event)
    (c : Connection) (e : Established) (f : Uint16)
    (hrun : ((newConnection cid config syn rnd now).start t₀).run events = .ok c)
    (hclosed : c.state = .closed (some e) none) (hfin : e.remoteFin = some f)
    (hl : e.localFin = none) : e.recvBuf.ackNum = f := by
  obtain ⟨w, -, hset⟩ := run_inv (I := Midcall.Settled)
    (fun _ _ _ hact hs hm => hact.settled hs hm) (fun _ _ _ _ hm => ⟨hm.dry, hm.done⟩)
    (along_unguarded _ events) (sound_start cid config syn rnd now t₀ [])
    (settled_start cid config syn rnd now t₀ []) hrun
  have hend := (hset.done e hclosed hl).1
  exact Option.some.inj (hend.symm.trans hfin)

omit [Float64] in
/-- The FIN comes before the data it follows, which closes the connection. -/
theorem run_closes_complete_data : ∃ c e, @run exactFloat64 sampleAcceptor
      [.onPacket ((newPacketBuilder .st_fin 1 0 1000 102).withAckNum 4).build 0 0,
        .onPacket (((newPacketBuilder .st_data 1 0 1000 101).withAckNum 4).withPayload [7]).build
          0 0] = .ok c ∧
    c.state = .closed (some e) none ∧ e.remoteFin = some 102 ∧ e.recvBuf.ackNum = 102 := by
  let := exactFloat64
  have hrun : ∃ c e, sampleAcceptor.run
      [.onPacket ((newPacketBuilder .st_fin 1 0 1000 102).withAckNum 4).build 0 0,
        .onPacket (((newPacketBuilder .st_data 1 0 1000 101).withAckNum 4).withPayload [7]).build
          0 0] = .ok c ∧
      c.state = .closed (some e) none ∧ e.remoteFin = some 102 ∧ e.localFin = none :=
    ⟨_, _, rfl, rfl, rfl, rfl⟩
  obtain ⟨c, e, hc, hclosed, hfin, hl⟩ := hrun
  exact ⟨c, e, hc, hclosed, hfin,
    run_closes_complete _ _ _ _ _ _ _ c e 102 hc hclosed hfin hl⟩

omit [Float64] in
/-- A reset that arrives after our FIN closes the connection without an
error, with the FIN of the peer received and the data before it missing. -/
theorem reset_closes_incomplete : ∃ c e, @run exactFloat64 sampleAcceptor
      [.onPacket ((newPacketBuilder .st_fin 1 0 1000 103).withAckNum 4).build 0 0, .shutdown 0,
        .onPacket (newPacketBuilder .st_reset 1 0 1000 0).build 0 0] = .ok c ∧
    c.state = .closed (some e) none ∧ e.remoteFin = some 103 ∧ e.recvBuf.ackNum = 100 :=
  ⟨_, _, rfl, rfl, rfl, rfl⟩

omit [Float64] in
/-- So does the FIN of the peer that crosses ours, with the two packets before
it missing. -/
theorem fin_closes_incomplete : ∃ c e, @run exactFloat64 sampleAcceptor
      [.shutdown 0, .onPacket ((newPacketBuilder .st_fin 1 0 1000 103).withAckNum 4).build 0 0]
        = .ok c ∧
    c.state = .closed (some e) none ∧ e.remoteFin = some 103 ∧ e.recvBuf.ackNum = 100 ∧
      e.localFin = some 5 ∧ e.sentPackets.lastAckNum = none :=
  ⟨_, _, rfl, rfl, rfl, rfl, rfl, rfl⟩

omit [Float64] in
/-- And so does the acknowledgement of our FIN, when the FIN of the peer came
before the data it follows. -/
theorem ack_closes_incomplete : ∃ c e, @run exactFloat64 sampleAcceptor
      [.onPacket ((newPacketBuilder .st_fin 1 0 1000 103).withAckNum 4).build 0 0, .shutdown 0,
        .onPacket ((newPacketBuilder .st_state 1 0 1000 101).withAckNum 5).build 0 0] = .ok c ∧
    c.state = .closed (some e) none ∧ e.remoteFin = some 103 ∧ e.recvBuf.ackNum = 100 ∧
      e.localFin = some 5 ∧ e.sentPackets.lastAckNum = some 5 :=
  ⟨_, _, rfl, rfl, rfl, rfl, rfl, rfl⟩

/-! ### A FIN that is refused -/

omit [Float64] in
/-- A write that fails changes nothing. -/
theorem write_failed {rb rb' : ReceiveBuffer} {data : Bytes} {seqNum : Uint16} {err : RecvError}
    (hw : rb.write data seqNum = .ok (rb', some err)) : rb' = rb := by
  unfold ReceiveBuffer.write at hw
  split at hw
  · cases hw
  split at hw
  · cases hw
    rfl
  · obtain ⟨rb₁, -, hw⟩ := bind_eq_ok.mp hw
    cases hw

omit [Float64] in
/-- **A refused FIN** leaves the receive buffer as it was in every connected
state.  The closing record stays as it was exactly when there is none, and
then a FIN sent again is handled like the first.  Otherwise the FIN counts as
received: when it is sent again nothing happens, whatever its body. -/
theorem onFin_refused_iff {c c' : Connection} {e : Established} {seqNum : Uint16} {data : Bytes}
    {err : HandleError} (hs : c.state = .connected e)
    (hok : c.onFin seqNum data = .ok (c', some err)) :
    ∃ e', c'.state = .connected e' ∧ e'.recvBuf = e.recvBuf ∧
      (e'.closing = e.closing ↔ e.closing = none) ∧ (e.closing = none → c' = c) ∧
      (e.closing ≠ none → ∀ data', c'.onFin seqNum data' = .ok (c', none)) := by
  rw [onFin, hs] at hok
  dsimp only at hok
  rcases hc : e.closing with - | closing
  · -- the buffer is asked first
    rw [hc] at hok
    obtain ⟨⟨rb, err₁⟩, hw, hok⟩ := bind_eq_ok.mp hok
    cases err₁ with
    | none => cases hok
    | some err₁ =>
        cases hok
        obtain rfl := write_failed hw
        have hsame : { c with state := .connected { e with closing := none } } = c := by
          rw [← hc, ← hs]
        rw [hsame]
        exact ⟨e, hs, rfl, ⟨fun _ => rfl, fun _ => hc⟩, fun _ => rfl, fun hne => absurd rfl hne⟩
  · -- the number is noted first
    rw [hc] at hok
    dsimp only at hok
    split at hok
    · split at hok <;> cases hok
    · rename_i hnone
      obtain ⟨⟨rb, err₁⟩, hw, hok⟩ := bind_eq_ok.mp hok
      cases err₁ with
      | none => cases hok
      | some err₁ =>
        cases hok
        obtain rfl := write_failed hw
        refine ⟨_, rfl, rfl, ⟨fun heq => ?_, nofun⟩, nofun, ?_⟩
        · have hfin := congrArg ClosingRecord.remoteFin (Option.some.inj heq)
          rw [hnone] at hfin
          cases hfin
        · intro _ data'
          rw [onFin]
          dsimp only
          rw [if_neg (fun h => h rfl)]
          rfl

omit [Float64] in
/-- Before any shutdown a FIN with more bytes than the buffer has changes
nothing. -/
theorem onFin_refused_iff_open : ∃ e, sampleAcceptor.state = .connected e ∧ e.closing = none ∧
    sampleAcceptor.onFin 101 (List.replicate 17 0)
      = .ok (sampleAcceptor, some (.recvBuffer .insufficientSpace)) := by
  have hrun : ∃ c' e, sampleAcceptor.onFin 101 (List.replicate 17 0)
        = .ok (c', some (.recvBuffer .insufficientSpace)) ∧
      sampleAcceptor.state = .connected e ∧ e.closing = none := ⟨_, _, rfl, rfl, rfl⟩
  obtain ⟨c', e, hok, hs, hc⟩ := hrun
  obtain ⟨e', -, -, -, hsame, -⟩ := onFin_refused_iff hs hok
  exact ⟨e, hs, hc, hsame hc ▸ hok⟩

omit [Float64] in
/-- After our own FIN it is noted all the same: sent again without the bytes
it is ignored, and the peer's stream never ends. -/
theorem refused_fin_lost : ∃ c c' e e', @run exactFloat64 sampleAcceptor [.shutdown 0] = .ok c ∧
    c.state = .connected e ∧ e.remoteFin = none ∧
    c.onFin 101 (List.replicate 17 0) = .ok (c', some (.recvBuffer .insufficientSpace)) ∧
    c'.state = .connected e' ∧ e'.remoteFin = some 101 ∧ e'.recvBuf.ackNum = 100 ∧
    c'.onFin 101 [] = .ok (c', none) ∧ c'.eof = false :=
  ⟨_, _, _, _, rfl, rfl, rfl, rfl, rfl, rfl, rfl, rfl, rfl⟩

end Connection

end UtpGo
