/-
UtpGo/ConnSteps.lean

Every event of a connection as a sequence of actions: reads, timeouts and
incoming packets handler by handler, and then `step_plays`, from which each
invariant of a run is obtained by checking the actions only.
-/
import UtpGo.ConnWrites

namespace UtpGo

open Checked Relation

/-- A read that returns nothing changes nothing. -/
theorem ReceiveBuffer.read_nothing {rb rb' : ReceiveBuffer} (h : rb.WF) {bufLen : Nat} {out : Bytes}
    (hr : rb.read bufLen = .ok (out, rb')) (hlen : out.length = 0) :
    rb' = rb ∧ (bufLen ≠ 0 → rb.offset = 0) := by
  have hdid := didRead_of_ok h hr
  unfold ReceiveBuffer.read at hr
  by_cases hz : bufLen = 0
  · rw [if_pos hz, pure_eq_ok] at hr
    exact ⟨(congrArg Prod.snd hr).symm, fun hne => absurd hz hne⟩
  · have hoff : rb.offset = 0 := by
      have := hdid.length
      omega
    rw [if_neg hz] at hr
    simp only [hoff, Nat.min_zero, bind_eq_ok, slice_eq_ok, pure_eq_ok, Prod.mk.injEq] at hr
    obtain ⟨_, ⟨_, _, rfl⟩, _, ⟨_, _, rfl⟩, _, rfl⟩ := hr
    refine ⟨?_, fun _ => hoff⟩
    rcases rb with ⟨buf, offset, pending, initSeqNum, consumed⟩
    cases hoff
    rfl

/-! ### Events -/

namespace Connection

/-- The packet an event delivers. -/
def Event.packet? : Event → Option Packet
  | .onPacket p _ _ => some p
  | _ => none

/-- The bytes an event adds to the stream written. -/
def Event.accepts (c : Connection) : Event → Bytes
  | .onWrite data _ _ => if c.acceptsWrite then data else []
  | _ => []

/-- Nothing is assumed. -/
def unguarded : Guard := ⟨fun _ _ => True, fun _ => True⟩

/-- The guard holds of the packet whose timeout the event handles, or of the
state in which it settles the FIN. -/
structure Event.Guarded (guard : Guard) (c : Connection) (ev : Event) : Prop where
  timeout : ∀ now e p rest, ev = .onTimeout now → c.state = .connected e →
    c.unackTimeoutCh = p :: rest → p.header.packetType ≠ .st_syn → guard.timeout e p
  fin : ∀ now e, ev = .shutdown now → c.state = .connected e → e.localFin = none →
    c.pendingWrites = [] → e.sendBuf.isEmpty = true → guard.fin e

end Connection

variable [Float64] {packet? : Option Packet} {guard : Guard}

namespace Connection

variable {c : Connection} {e : Established} {w : Bytes} {now : Time} {hand : Option (List Item)}

/-! ### Reads -/

/-- Every chunk of the loop of `processReads` is one action; with enough
fuel nothing readable is left. -/
theorem readLoop_acts (fuel : Nat) (hs : c.state = .connected e) (hwf : e.recvBuf.WF)
    (hhand : hand.getD [] = []) : ∃ chunks rb,
      readLoop c.config.maxPacketSize.toNat fuel e.recvBuf = .ok (chunks, rb) ∧
      ReflTransGen (Act packet? guard) ⟨c, hand, w⟩ ⟨{ c with
        state := .connected { e with recvBuf := rb }
        reads := c.reads ++ chunks.map (readResult c.config) }, hand, w⟩ ∧
      rb.ackNum = e.recvBuf.ackNum ∧
      (c.config.maxPacketSize ≠ 0 → e.recvBuf.offset < fuel → rb.offset = 0) := by
  have hstay : (⟨c, hand, w⟩ : Midcall) = ⟨{ c with
      state := .connected { e with recvBuf := e.recvBuf }
      reads := c.reads ++ [].map (readResult c.config) }, hand, w⟩ := by
    rw [← hs, List.map_nil, List.append_nil]
  induction fuel generalizing c e with
  | zero => exact ⟨[], e.recvBuf, rfl, hstay ▸ .refl, rfl, fun _ hf => absurd hf (by omega)⟩
  | succ fuel ih =>
      unfold readLoop
      split
      · rename_i hempty
        refine ⟨[], e.recvBuf, rfl, hstay ▸ .refl, rfl, fun _ _ => ?_⟩
        simp only [ReceiveBuffer.isEmpty, Bool.and_eq_true, beq_iff_eq] at hempty
        exact hempty.1
      obtain ⟨out, rb₁, hr, hdid⟩ := ReceiveBuffer.read_spec hwf c.config.maxPacketSize.toNat
      rw [hr, ok_bind]
      dsimp only
      split
      · rename_i hz
        obtain ⟨rfl, hoff⟩ := ReceiveBuffer.read_nothing hwf hr hz
        refine ⟨[], e.recvBuf, rfl, hstay ▸ .refl, rfl, fun hne _ => hoff ?_⟩
        intro hzero
        exact hne (by bv_omega)
      · rename_i hz
        have hact : Act packet? guard ⟨c, hand, w⟩ ⟨{ c with
            state := .connected { e with recvBuf := rb₁ }
            reads := c.reads ++ [readResult c.config out] }, hand, w⟩ := .readOut hhand hs hr
        obtain ⟨chunks, rb, hloop, hacts, hnum, hdry⟩ := ih (c := { c with
            state := .connected { e with recvBuf := rb₁ }
            reads := c.reads ++ [readResult c.config out] })
          (e := { e with recvBuf := rb₁ }) rfl hdid.wf (by simp)
        refine ⟨out :: chunks, rb, ?_, ?_, ?_, ?_⟩
        · rw [show readLoop c.config.maxPacketSize.toNat fuel rb₁ = .ok (chunks, rb) from hloop]
          rfl
        · rw [List.map_cons]
          have happ := hacts.head hact
          simpa only [List.append_assoc, List.singleton_append] using happ
        · rw [hnum]
          show rb₁.initSeqNum + rb₁.consumed = _
          rw [hdid.init, hdid.consumed]
          rfl
        · intro hne hf
          refine hdry hne ?_
          show rb₁.offset < fuel
          have := hdid.offset
          have := hdid.length
          omega

theorem processReads_plays (hm : Midcall.Sound ⟨c, hand, w⟩) (hhand : hand.getD [] = []) :
    Plays packet? guard ⟨c, hand, w⟩ c.processReads fun c' m => m = ⟨c', hand, w⟩ ∧
      ∀ e, c.state = .connected e → ∃ rb, c'.state = .connected { e with recvBuf := rb } ∧
        rb.ackNum = e.recvBuf.ackNum := by
  unfold processReads
  split
  · rename_i hs
    exact .pure ⟨rfl, fun e he => by rw [hs] at he; cases he⟩
  · rename_i e err hs
    exact .step (.closedRead hs) (.pure ⟨rfl, fun e he => by rw [hs] at he; cases he⟩)
  · rename_i e hs
    have hwf : e.recvBuf.WF := (hm e (established_connected hs)).recvBuf
    obtain ⟨chunks, rb, hloop, hacts, hnum, hdry⟩ :=
      readLoop_acts (e.recvBuf.offset + 1) hs hwf hhand
    refine .ok_bind hloop (.steps hacts ?_)
    dsimp only
    unfold pushEof
    split
    · rename_i heof
      refine .step (.endOfStream rfl heof fun hne => hdry hne (by omega)) (.pure ⟨rfl, ?_⟩)
      intro e' he'
      rw [hs] at he'
      cases he'
      exact ⟨rb, rfl, hnum⟩
    · refine .pure ⟨rfl, ?_⟩
      intro e' he'
      rw [hs] at he'
      cases he'
      exact ⟨rb, rfl, hnum⟩

/-! ### Timeouts -/

omit [Float64] in
theorem carries_retransmissionPacket (c : Connection) (e : Established) (p : Packet) (now : Time) :
    Carries e.recvBuf (expiredItem p) (c.retransmissionPacket e p now) :=
  ⟨rfl, rfl, rfl, rfl, rfl, rfl, rfl⟩

omit [Float64] in
theorem noteTimeout_cases (c : Connection) (e : Established) (now : Time) :
    c.noteTimeout e now = { c with
        state := .connected { e with sentPackets := e.sentPackets.onTimeout }
        latestTimeout := some now } ∨ c.noteTimeout e now = c := ite_eq_or_eq _ _ _

/-- A timeout is at most a change of the controller. -/
theorem noteTimeout_acts {p : Packet} (hs : c.state = .connected e) (now : Time) :
    ReflTransGen (Act packet? guard) ⟨c, some [expiredItem p], w⟩
      ⟨c.noteTimeout e now, some [expiredItem p], w⟩ := by
  rcases c.noteTimeout_cases e now with h | h
  · rw [h]
    refine .head (.backOff hs) (.single (.book ?_))
    exact ⟨rfl, rfl, rfl, rfl, rfl, rfl, fun _ h => h, rfl, rfl, id⟩
  · rw [h]

omit [Float64] in
theorem noteTimeout_state (hs : c.state = .connected e) (now : Time) :
    ∃ sp, (c.noteTimeout e now).state = .connected { e with sentPackets := sp } := by
  rcases c.noteTimeout_cases e now with h | h
  · rw [h]
    exact ⟨e.sentPackets.onTimeout, rfl⟩
  · rw [h]
    exact ⟨e.sentPackets, hs⟩

omit [Float64] in
/-- Taking a timed-out packet from the queue, and perhaps putting it back on
the wheel. -/
theorem sameCore_popTimeout {p : Packet} {rest : List Packet} (hch : c.unackTimeoutCh = p :: rest)
    (attempts : Int) {unacked : TimeWheel Uint16 Packet}
    (hput : ∀ item, unacked.Holds item → item.2 = p ∨ c.unacked.Holds item) :
    SameCore c { c with
      unackTimeoutCh := rest, endpoint := { c.endpoint with attempts }, unacked } where
  state := rfl
  config := rfl
  endpointType := rfl
  synNum := rfl
  synAck := rfl
  socketEvents := rfl
  timed := by
    rintro q (hq | ⟨k, hq⟩)
    · exact .inl (hch ▸ List.mem_cons_of_mem p hq)
    · rcases hput _ hq with rfl | hq
      · exact .inl (hch ▸ List.mem_cons_self)
      · exact .inr ⟨k, hq⟩
  reads := rfl
  pendingWrites := rfl
  synState := id

/-- The handler of a timed-out packet.  The packet is chosen before it is
taken from the queue, while it is still known to be timed. -/
theorem onTimeout_plays {p : Packet} {rest : List Packet} (hch : c.unackTimeoutCh = p :: rest)
    (hg : ∀ e, c.state = .connected e → p.header.packetType ≠ .st_syn → guard.timeout e p) :
    Plays packet? guard ⟨c, none, w⟩ ({ c with unackTimeoutCh := rest }.onTimeout p now)
      (Done w) := by
  have hpop : ∀ hand, Act packet? guard ⟨c, hand, w⟩ ⟨{ c with unackTimeoutCh := rest }, hand, w⟩ :=
    fun hand => .book (sameCore_popTimeout hch c.endpoint.attempts fun _ h => .inr h)
  unfold onTimeout
  dsimp only
  split
  · rename_i hs
    split
    · exact .step (hpop none) (.pure ⟨rfl, rfl, rfl⟩)
    · rename_i hend
      split
      · let c₁ : Connection := { c with
          unackTimeoutCh := rest
          connectedCh := c.connectedCh ++ [some .errTimedOut] }
        have hbook : Act packet? guard ⟨{ c with unackTimeoutCh := rest }, none, w⟩
            ⟨c₁, none, w⟩ :=
          .book ⟨rfl, rfl, rfl, rfl, rfl, rfl, fun _ h => h, rfl, rfl, id⟩
        have hnone : c₁.established = none := by
          show c.state.established = none
          rw [hs]
          rfl
        have hclose : Act packet? guard ⟨c₁, none, w⟩
            ⟨{ c₁ with state := .closed none (some .errTimedOut) }, none, w⟩ :=
          .close rfl (hnone ▸ .timedOut)
        exact .step (hpop none) (.step hbook (.step hclose (.pure ⟨rfl, rfl, rfl⟩)))
      · generalize synBackoff _ _ = timeout
        rcases hput : (c.unacked.putSigned c.endpoint.synNum p timeout : GoM _) with
          panic | unacked
        · -- a negative slot is a panic of Go's own
          obtain rfl := TimeWheel.putSigned_error hput
          exact .throw (.inl fun _ h => by cases h)
        · refine .step (.book (sameCore_popTimeout hch (c.endpoint.attempts + 1) ?_))
            (.step (.emitSyn hs hend) (.pure ⟨rfl, rfl, rfl⟩))
          rintro ⟨k, q⟩ hq
          rcases TimeWheel.Holds.of_putSigned hput hq with heq | hq
          · cases heq
            exact .inl rfl
          · exact .inr hq
  · rename_i e hs
    split
    · exact .step (hpop none) (.pure ⟨rfl, rfl, rfl⟩)
    · rename_i hsyn
      have htimed : c.Timed p := .inl (hch ▸ List.mem_cons_self)
      refine .step (.sends (.pickExpired hs htimed hsyn (hg e hs hsyn))) (.step (hpop _) ?_)
      obtain ⟨sp, hs'⟩ := noteTimeout_state (c := { c with unackTimeoutCh := rest }) hs now
      refine .steps (noteTimeout_acts (c := { c with unackTimeoutCh := rest }) hs now) ?_
      have hp := carries_retransmissionPacket { c with unackTimeoutCh := rest } e p now
      refine (transmit_plays (e := { e with sentPackets := sp }) hs' hp).weaken ?_
      rintro c' - ⟨rfl, -⟩
      exact ⟨rfl, rfl, rfl⟩
  · exact .step (hpop none) (.pure ⟨rfl, rfl, rfl⟩)

theorem onIdleTimeout_acts :
    ReflTransGen (Act packet? guard) ⟨c, none, w⟩ ⟨c.onIdleTimeout, none, w⟩ := by
  unfold onIdleTimeout
  split
  · exact .refl
  · rename_i hs
    have hnone : c.established = none := by rw [established, hs]; rfl
    exact .single (.close rfl (hnone ▸ .timedOut))
  · rename_i e hs
    exact .single (.close rfl (established_connected hs ▸ .timedOut))

/-! ### Incoming packets -/

omit [Float64] in
theorem reset_eq (c : Connection) (err : ConnError) :
    c.reset err = { c with state := (c.reset err).state } := by
  unfold reset
  split
  · rfl
  · split <;> rfl
  · rfl

omit [Float64] in
/-- A reset always closes the connection. -/
theorem reset_closed (c : Connection) (err : ConnError) :
    ∃ e err', (c.reset err).state = .closed e err' := by
  unfold reset
  split
  · exact ⟨_, _, rfl⟩
  · split
    · exact ⟨_, _, rfl⟩
    · exact ⟨_, _, rfl⟩
  · exact ⟨_, _, rfl⟩

omit [Float64] in
theorem sameCore_observePeer (c : Connection) (p : Packet) (now : Time) :
    SameCore c (c.observePeer p now) :=
  ⟨rfl, rfl, rfl, rfl, rfl, rfl, fun _ h => h, rfl, rfl, id⟩

variable {p : Packet}

theorem reset_act {err : ConnError} (h : Closes (some p) c (c.reset err).state) :
    Act (some p) guard ⟨c, none, w⟩ ⟨c.reset err, none, w⟩ := by
  rw [reset_eq]
  exact .close rfl h

theorem onSyn_acts (ht : p.header.packetType = .st_syn) :
    ReflTransGen (Act (some p) guard) ⟨c, none, w⟩ ⟨c.onSyn p.header.seqNum, none, w⟩ := by
  unfold onSyn
  dsimp only
  rcases hend : c.endpoint.type with - | -
  · dsimp only
    split
    · exact .refl
    · exact .refl
    · rename_i heq _
      cases heq
      exact .single (reset_act (.synFromAcceptor rfl ht hend))
  · dsimp only
    by_cases hnum : p.header.seqNum ≠ c.endpoint.synNum
    · rw [if_pos hnum]
      split
      · exact .refl
      · exact .refl
      · rename_i heq _
        cases heq
        exact .single (reset_act (.invalidSyn rfl ht hend hnum))
    · rw [if_neg hnum]

theorem onState_acts (ht : p.header.packetType = .st_state) :
    ReflTransGen (Act (some p) guard) ⟨c, none, w⟩
      ⟨c.onState p.header.seqNum p.header.ackNum, none, w⟩ := by
  unfold onState
  split
  · rename_i hs
    split
    · rename_i h
      refine .head (.establish rfl ht hs h.1 h.2) (.single (.book ?_))
      exact ⟨rfl, rfl, rfl, rfl, rfl, rfl, fun _ h => h, rfl, rfl, id⟩
    · exact .refl
  · exact .refl

theorem onReset_acts (ht : p.header.packetType = .st_reset) :
    ReflTransGen (Act (some p) guard) ⟨c, none, w⟩ ⟨c.onReset, none, w⟩ := by
  unfold onReset
  split
  · exact .refl
  · exact .single (reset_act (.reset rfl ht))

theorem onData_plays (hm : Midcall.Sound ⟨c, none, w⟩) (ht : p.header.packetType = .st_data) :
    Plays (some p) guard ⟨c, none, w⟩ (c.onData p.header.seqNum p.body) fun r m =>
      m = ⟨r.1, none, w⟩ := by
  by_cases hbody : p.body.length = 0
  · -- without data the connection is reset, and nothing is written
    obtain ⟨e, err, hclosed⟩ := c.reset_closed .errEmptyDataPayload
    have heq : c.onData p.header.seqNum p.body = pure (c.reset .errEmptyDataPayload, none) := by
      unfold onData
      dsimp only
      rw [if_pos hbody, hclosed]
    rw [heq]
    have hnil : p.body = [] := List.length_eq_zero_iff.mp hbody
    exact .step (reset_act (.emptyData rfl ht hnil)) (.pure rfl)
  · unfold onData
    dsimp only
    rw [if_neg hbody]
    split
    · split
      · exact .pure rfl
      · exact .pure rfl
    · rename_i e hs
      split
      · rename_i hfin
        exact .step (.close rfl (.invalidSeqNum rfl ht hs hfin)) (.pure rfl)
      · rename_i hfin
        split
        · obtain ⟨rb, err, hw, -⟩ := ReceiveBuffer.write_spec
            (hm e (established_connected hs)).recvBuf p.body p.header.seqNum
          refine .ok_bind hw ?_
          exact .step (.recvData rfl ht hs (Bool.eq_false_of_not_eq_true hfin) hw) (.pure rfl)
        · exact .pure rfl
    · exact .pure rfl

theorem onFin_plays (hm : Midcall.Sound ⟨c, none, w⟩) (ht : p.header.packetType = .st_fin) :
    Plays (some p) guard ⟨c, none, w⟩ (c.onFin p.header.seqNum p.body) fun r m =>
      m = ⟨r.1, none, w⟩ := by
  unfold onFin
  split
  swap
  · exact .pure rfl
  rename_i e hs
  obtain ⟨rb, err, hw, hout⟩ := ReceiveBuffer.write_spec
    (hm e (established_connected hs)).recvBuf p.body p.header.seqNum
  split
  · rename_i closing hc
    have hl : e.localFin = closing.localFin := by rw [Established.localFin, hc]; rfl
    have hr : e.remoteFin = closing.remoteFin := by rw [Established.remoteFin, hc]; rfl
    split
    · rename_i remoteFin hfin
      split
      · rename_i hne
        exact .step (reset_act (.invalidFin rfl ht hs (hr.trans hfin) hne)) (.pure rfl)
      · exact .pure rfl
    · rename_i hfin
      refine .ok_bind hw ?_
      dsimp only
      rw [← hl]
      exact .step (.recvFin rfl ht hs (hr.trans hfin) hw) (.pure rfl)
  · rename_i hc
    have hl : e.localFin = none := by rw [Established.localFin, hc]; rfl
    have hr : e.remoteFin = none := by rw [Established.remoteFin, hc]; rfl
    refine .ok_bind hw ?_
    rcases err with - | err
    · dsimp only
      rw [← hl]
      exact .step (.recvFin rfl ht hs hr hw) (.pure rfl)
    · -- a FIN for which there is no room is not recorded
      have hrb : rb = e.recvBuf := by
        rcases hout with ⟨-, herr, -⟩ | ⟨-, hrb, -⟩
        · cases herr
        · exact hrb
      dsimp only
      refine .pure ?_
      rw [hrb, ← hs]

theorem dispatch_plays (hm : Midcall.Sound ⟨c, none, w⟩) :
    Plays (some p) guard ⟨c, none, w⟩ (c.dispatch p) fun r m => m = ⟨r.1, none, w⟩ := by
  unfold dispatch
  rcases ht : p.header.packetType with - | - | - | - | -
  · exact onData_plays hm ht
  · exact onFin_plays hm ht
  · exact .steps (onState_acts ht) (.pure rfl)
  · exact .steps (onReset_acts ht) (.pure rfl)
  · exact .steps (onSyn_acts ht) (.pure rfl)

/-! ### Acknowledgements and the answer -/

theorem processAck_plays (hm : Midcall.Sound ⟨c, none, w⟩)
    (ht : p.header.packetType.carriesAck = true) (delay : Duration) :
    Plays (some p) guard ⟨c, none, w⟩ (c.processAck p.header.ackNum p.eack delay now) fun r m =>
      m = ⟨r.1, none, w⟩ := by
  unfold processAck
  split
  swap
  · exact .pure rfl
  rename_i e hs
  have hwf : e.sentPackets.WF := (hm e (established_connected hs)).sentPackets
  rcases SentPackets.onAck_spec delay now hwf p.header.ackNum p.eack with
    ⟨-, herr⟩ | ⟨-, sp, r, hok, -, hinv, hsame⟩
  · rw [herr]
    exact .throw (.inl fun v hv => by cases hv)
  refine .ok_bind hok ?_
  dsimp only
  split
  · -- an invalid number leaves the packets as they were
    rw [hsame rfl, ← hs]
    exact .step (reset_act (.invalidAck rfl ht hs (hinv.mp rfl))) (.pure rfl)
  · rename_i err hne
    exact .step (.acked rfl ht hs hok (by rintro ⟨⟩; exact hne rfl)) (.pure rfl)
  · rename_i fullAcked selectedAcks
    refine .step (.acked rfl ht hs hok (by simp)) (.step (.book ?_) (.pure rfl))
    exact ⟨rfl, rfl, rfl, rfl, rfl, rfl, fun q hq => timed_of_clear (c := c) hq, rfl, rfl, id⟩

theorem acknowledge_plays (hm : Midcall.Sound ⟨c, none, w⟩) :
    Plays (some p) guard ⟨c, none, w⟩ (c.acknowledge p now) fun r m => m = ⟨r.1, none, w⟩ := by
  unfold acknowledge
  rcases ht : p.header.packetType with - | - | - | - | -
  · exact processAck_plays hm (by rw [ht]; rfl) _
  · exact processAck_plays hm (by rw [ht]; rfl) _
  · exact processAck_plays hm (by rw [ht]; rfl) _
  · exact .pure rfl
  · exact .pure rfl

omit [Float64] in
theorem carries_lostPacket (c : Connection) (e : Established) (lost : LostPacket) (now : Time) :
    Carries e.recvBuf (lostItem lost) (c.lostPacket e lost now) :=
  ⟨rfl, rfl, rfl, rfl, rfl, rfl, rfl⟩

theorem transmitLost_plays {e₀ : Established} (losts : List LostPacket)
    (hm : Midcall.Sound ⟨c, some (losts.map lostItem), w⟩)
    (hs : c.state = .connected e) (hrb : e.recvBuf = e₀.recvBuf) :
    Plays packet? guard ⟨c, some (losts.map lostItem), w⟩ (transmitLost e₀ now losts c)
      (Done w) := by
  induction losts generalizing c e with
  | nil => exact .pure ⟨rfl, rfl, rfl⟩
  | cons lost losts ih =>
      have hp : Carries e.recvBuf (lostItem lost) (c.lostPacket e₀ lost now) := by
        rw [hrb]
        exact carries_lostPacket c e₀ lost now
      refine Plays.bind hm (transmit_plays hs hp) ?_
      rintro c' - hm' ⟨rfl, sp, hs'⟩
      exact ih hm' hs' hrb

theorem retransmitLostPackets_plays (hm : Midcall.Sound ⟨c, none, w⟩) :
    Plays packet? guard ⟨c, none, w⟩ (c.retransmitLostPackets now) (Done w) := by
  unfold retransmitLostPackets
  split
  · rename_i e hs
    split
    · obtain ⟨losts, hl, -⟩ :=
        SentPackets.lostPacketsList_spec (hm e (established_connected hs)).sentPackets
      have hact : Act packet? guard ⟨c, none, w⟩ _ := .sends (.pickLost hs hl)
      exact .ok_bind hl (.step hact (transmitLost_plays losts (hact.sound hm) hs rfl))
    · exact .pure ⟨rfl, rfl, rfl⟩
  · exact .pure ⟨rfl, rfl, rfl⟩

theorem reply_acts (rnd : Uint16) : ReflTransGen (Act (some p) guard) ⟨c, hand, w⟩
    ⟨c.reply p now rnd, hand, w⟩ := by
  have hstate : p.header.packetType.numbered = true → ReflTransGen (Act (some p) guard)
      ⟨c, hand, w⟩ ⟨(c.statePacket now).elim c c.emit, hand, w⟩ := by
    intro ht
    rcases hp : c.statePacket now with - | statePacket
    · exact .refl
    · exact .single (.emitState rfl (.inl ht) hp)
  unfold reply
  rcases ht : p.header.packetType with - | - | - | - | -
  · exact hstate (by rw [ht]; rfl)
  · exact hstate (by rw [ht]; rfl)
  · exact .refl
  · exact .refl
  · rcases hsyn : c.synState with - | synState
    · dsimp only
      split
      · rename_i statePacket hp
        refine .head (.emitState rfl (.inr ⟨ht, hsyn⟩) hp) (.single (.book ?_))
        exact ⟨rfl, rfl, rfl, rfl, rfl, rfl, fun _ h => h, rfl, rfl, fun _ => rfl⟩
      · exact .single (.emitReset rnd rfl ht hsyn)
    · exact .refl

/-! ### Closing -/

theorem closeLocal_acts (hhand : hand.getD [] = []) :
    ReflTransGen (Act packet? guard) ⟨c, hand, w⟩ ⟨c.closeLocal, hand, w⟩ := by
  unfold closeLocal
  split
  · rename_i e hs
    split
    · rename_i localFin hfin
      split
      · rename_i hack
        exact .single (.close hhand (.localFin hs hfin hack))
      · exact .refl
    · exact .refl
  · exact .refl

theorem closeBoth_acts (hhand : hand.getD [] = []) :
    ReflTransGen (Act packet? guard) ⟨c, hand, w⟩ ⟨c.closeBoth, hand, w⟩ := by
  unfold closeBoth closeClean
  split
  · rename_i e hs
    split
    · rename_i hfin hfin'
      exact .single (.close hhand (.bothFins hs hfin hfin'))
    · exact .refl
  · exact .refl

theorem closeRemote_plays (hm : Midcall.Sound ⟨c, hand, w⟩) (hhand : hand.getD [] = []) :
    Plays packet? guard ⟨c, hand, w⟩ c.closeRemote fun c' m => m = ⟨c', hand, w⟩ := by
  unfold closeRemote
  split
  swap
  · exact .pure rfl
  rename_i e hs
  split
  swap
  · exact .pure rfl
  rename_i remoteFin hfin
  split
  swap
  · exact .pure rfl
  rename_i hdone
  refine Plays.bind hm (processReads_plays hm hhand) ?_
  rintro c' - - ⟨rfl, hstate⟩
  obtain ⟨rb, hs', hnum⟩ := hstate e hs
  unfold closeClean
  rw [hs']
  refine .step (.close hhand (.remoteFin hs' hfin ?_ (hnum.trans hdone.2))) (.pure rfl)
  exact Bool.eq_false_of_not_eq_true hdone.1

/-- `onPacket` up to the second closing case. -/
def beforeClosing (c : Connection) (packet : Packet) (now : Time) (rnd : Uint16) :
    GoM Connection := do
  let (c, _) ← (c.observePeer packet now).dispatch packet
  let (c, _) ← c.acknowledge packet now
  let c ← c.retransmitLostPackets now
  pure ((c.reply packet now rnd).notify packet).closeLocal

theorem onPacket_eq (c : Connection) (p : Packet) (now : Time) (rnd : Uint16) :
    c.onPacket p now rnd = (do
      let c ← c.beforeClosing p now rnd
      let c ← c.closeRemote
      pure c.closeBoth) := by
  simp only [onPacket, beforeClosing, bind_assoc, pure_bind]

theorem beforeClosing_plays (rnd : Uint16) (hm : Midcall.Sound ⟨c, none, w⟩) :
    Plays (some p) guard ⟨c, none, w⟩ (c.beforeClosing p now rnd) (Done w) := by
  unfold beforeClosing
  have hobs : Act (some p) guard ⟨c, none, w⟩ ⟨c.observePeer p now, none, w⟩ :=
    .book (sameCore_observePeer c p now)
  refine .step hobs (Plays.bind (hobs.sound hm) (dispatch_plays (hobs.sound hm)) ?_)
  rintro ⟨c₁, _⟩ _ hm₁ rfl
  refine Plays.bind hm₁ (acknowledge_plays hm₁) ?_
  rintro ⟨c₂, _⟩ _ hm₂ rfl
  refine Plays.bind hm₂ (retransmitLostPackets_plays hm₂) ?_
  rintro _ ⟨c₃, hand, w₃⟩ hm₃ ⟨rfl, hhand, rfl⟩
  -- nothing is left in hand: the answer, the signals and the first closing case
  have hnotify : Act (some p) guard ⟨c₃.reply p now rnd, hand, w₃⟩
      ⟨(c₃.reply p now rnd).notify p, hand, w₃⟩ :=
    .book ⟨rfl, rfl, rfl, rfl, rfl, rfl, fun _ h => h, rfl, rfl, id⟩
  have hacts := ((reply_acts rnd).tail hnotify).trans (closeLocal_acts hhand)
  exact .steps hacts (.pure ⟨rfl, hhand, rfl⟩)

theorem onPacket_plays (rnd : Uint16) (hm : Midcall.Sound ⟨c, none, w⟩) :
    Plays (some p) guard ⟨c, none, w⟩ (c.onPacket p now rnd) (Done w) := by
  rw [onPacket_eq]
  refine Plays.bind hm (beforeClosing_plays rnd hm) ?_
  rintro _ ⟨c₁, hand, w₁⟩ hm₁ ⟨rfl, hhand, rfl⟩
  refine Plays.bind hm₁ (closeRemote_plays hm₁ hhand) ?_
  rintro c₂ _ - rfl
  exact .steps (closeBoth_acts hhand) (.pure ⟨rfl, hhand, rfl⟩)

/-! ### Steps -/

theorem tick_acts {order : List (Uint16 × Packet)} (hperm : order.isPerm c.unacked.due = true) :
    Act packet? guard ⟨c, hand, w⟩ ⟨{ c with
      unacked := c.unacked.tick
      unackTimeoutCh := c.unackTimeoutCh ++ order.map (·.2) }, hand, w⟩ := by
  have htimed : ∀ q, Timed { c with
      unacked := c.unacked.tick, unackTimeoutCh := c.unackTimeoutCh ++ order.map (·.2) } q →
      c.Timed q := fun _ => timed_of_tick (List.isPerm_iff.mp hperm)
  exact .book ⟨rfl, rfl, rfl, rfl, rfl, rfl, htimed, rfl, rfl, id⟩

/-- **Steps are actions**: an event of a connection is a sequence of
actions, at the end of which nothing is left to send. -/
theorem step_plays (ev : Event) (hm : Midcall.Sound ⟨c, none, w⟩) (hg : ev.Guarded guard c) :
    Plays ev.packet? guard ⟨c, none, w⟩ (c.step ev) (Done (w ++ ev.accepts c)) := by
  cases ev with
  | onPacket p now rnd =>
      simp only [Event.accepts, List.append_nil]
      exact onPacket_plays rnd hm
  | onWrite data resultCh now => exact onWrite_plays data resultCh hm
  | processWrites now =>
      simp only [Event.accepts, List.append_nil]
      have hact : Act none guard ⟨c, none, w⟩ ⟨_, none, w⟩ :=
        .book (sameCore_writable c (c.writable - 1))
      exact .step hact (processWrites_plays (hact.sound hm))
  | processReads =>
      simp only [Event.accepts, List.append_nil]
      have hact : Act none guard ⟨c, none, w⟩ ⟨{ c with readable := c.readable - 1 }, none, w⟩ :=
        .book ⟨rfl, rfl, rfl, rfl, rfl, rfl, fun _ h => h, rfl, rfl, id⟩
      refine .step hact ((processReads_plays (hact.sound hm) rfl).weaken ?_)
      rintro c' m ⟨rfl, -⟩
      exact ⟨rfl, rfl, rfl⟩
  | tick order =>
      simp only [Event.accepts, List.append_nil, step]
      split
      · rename_i hperm
        exact .step (tick_acts hperm) (.pure ⟨rfl, rfl, rfl⟩)
      · exact .pure ⟨rfl, rfl, rfl⟩
  | onTimeout now =>
      simp only [Event.accepts, List.append_nil, step]
      split
      · exact .pure ⟨rfl, rfl, rfl⟩
      · rename_i p rest hch
        exact onTimeout_plays hch fun e hs => hg.timeout now e p rest rfl hs hch
  | onIdleTimeout =>
      simp only [Event.accepts, List.append_nil]
      exact .steps onIdleTimeout_acts (.pure ⟨rfl, rfl, rfl⟩)
  | shutdown now =>
      simp only [Event.accepts, List.append_nil]
      exact shutdown_plays fun e => hg.fin now e rfl

/-! ### Invariants of steps and runs -/

/-- The invariant rule of a step: what every action keeps, the step keeps. -/
theorem step_inv {I : Midcall → Prop} {ev : Event} {c' : Connection}
    (hact : ∀ m m', Act ev.packet? guard m m' → m.Sound → I m → I m')
    (hg : ev.Guarded guard c) (hm : Midcall.Sound ⟨c, none, w⟩) (h : I ⟨c, none, w⟩)
    (hok : c.step ev = .ok c') : ∃ hand, hand.getD [] = [] ∧
      Midcall.Sound ⟨c', hand, w ++ ev.accepts c⟩ ∧ I ⟨c', hand, w ++ ev.accepts c⟩ := by
  obtain ⟨⟨c₁, hand, w₁⟩, hreach, rfl, hhand, hw⟩ := (step_plays ev hm hg).ok c' hok
  obtain rfl : w₁ = w ++ ev.accepts c := hw
  have hinv := reach_inv (I := fun m : Midcall => m.Sound ∧ I m) (fun m m' hR hI =>
    ⟨hR.sound hI.1, hact m m' hR hI.1 hI.2⟩) ⟨hm, h⟩ hreach
  exact ⟨hand, hhand, hinv.1, hinv.2⟩

/-- Every event of the run satisfies the condition in the state it meets. -/
def Along (P : Connection → Event → Prop) : Connection → List Event → Prop
  | _, [] => True
  | c, ev :: events => P c ev ∧ ∀ c', c.step ev = .ok c' → Along P c' events

/-- A condition that holds of the events in any state. -/
theorem along_of_forall {P : Connection → Event → Prop} {events : List Event}
    (h : ∀ ev ∈ events, ∀ c, P c ev) : Along P c events := by
  induction events generalizing c with
  | nil => trivial
  | cons ev events ih =>
      exact ⟨h ev (by simp) c, fun c' _ => ih fun ev' hev => h ev' (List.mem_cons_of_mem _ hev)⟩

omit [Float64] in
theorem guarded_unguarded (c : Connection) (ev : Event) : ev.Guarded unguarded c :=
  ⟨fun _ _ _ _ _ _ _ _ => trivial, fun _ _ _ _ _ _ _ => trivial⟩

theorem along_unguarded (c : Connection) (events : List Event) :
    Along (fun c ev => ev.Guarded unguarded c) c events :=
  along_of_forall fun ev _ c => guarded_unguarded c ev

/-- The invariant rule of a run, by the actions its events can take.  Between
two events nothing is in hand. -/
theorem run_inv_mem {I : Midcall → Prop} {events : List Event} {c' : Connection}
    (hact : ∀ ev ∈ events, ∀ m m', Act ev.packet? guard m m' → m.Sound → I m → I m')
    (hrest : ∀ c hand w, hand.getD [] = [] → I ⟨c, hand, w⟩ → I ⟨c, none, w⟩)
    (hg : Along (fun c ev => ev.Guarded guard c) c events) (hm : Midcall.Sound ⟨c, none, w⟩)
    (h : I ⟨c, none, w⟩) (hok : c.run events = .ok c') :
    ∃ w', Midcall.Sound ⟨c', none, w'⟩ ∧ I ⟨c', none, w'⟩ := by
  induction events generalizing c w with
  | nil =>
      simp only [run, List.foldlM_nil, pure_eq_ok] at hok
      exact ⟨w, hok ▸ hm, hok ▸ h⟩
  | cons ev events ih =>
      simp only [run, List.foldlM_cons, bind_eq_ok] at hok
      obtain ⟨c₁, hstep, hrun⟩ := hok
      obtain ⟨hand, hhand, hm₁, h₁⟩ := step_inv (hact ev List.mem_cons_self) hg.1 hm h hstep
      exact ih (fun ev' hev => hact ev' (List.mem_cons_of_mem _ hev)) (hg.2 c₁ hstep) hm₁
        (hrest _ _ _ hhand h₁) hrun

/-- The rule for an invariant that every action keeps. -/
theorem run_inv {I : Midcall → Prop} {events : List Event} {c' : Connection}
    (hact : ∀ packet? m m', Act packet? guard m m' → m.Sound → I m → I m')
    (hrest : ∀ c hand w, hand.getD [] = [] → I ⟨c, hand, w⟩ → I ⟨c, none, w⟩)
    (hg : Along (fun c ev => ev.Guarded guard c) c events) (hm : Midcall.Sound ⟨c, none, w⟩)
    (h : I ⟨c, none, w⟩) (hok : c.run events = .ok c') :
    ∃ w', Midcall.Sound ⟨c', none, w'⟩ ∧ I ⟨c', none, w'⟩ :=
  run_inv_mem (fun ev _ => hact ev.packet?) hrest hg hm h hok

end Connection

end UtpGo
