/-
UtpGo/ConnReturns.lean

No event makes a connection panic.  The handlers index and slice the records
and the buffers, follow the pointers that a connection has once it is
connected, and panic on their own when a transmission is refused.  In the
states that a connection reaches the slices are within bounds and the pointers
are there, whatever the peer sends (`step_onlyRaises`); with what is known of
refused transmissions the event returns.

The durations of the model are numbers without a bound, and those of the source
have 64 bits.  A configuration is `Bounded` if nothing that is computed from it
overflows: otherwise the back-off of the SYN turns negative, and the wheel is
indexed at a negative slot (`run_overflows`).

What is left are the three ways out: the FIN that does not fit a window that
has shrunk, a counter of transmissions that comes round, and a selective
acknowledgement that reaches the initial number, for which 65534 packets have
to be recorded.

Main result: `run_returns`.
-/
import UtpGo.CongestionBounds
import UtpGo.ConnEffects
import UtpGo.ConnLoop
import UtpGo.SentPacketsRuns
import UtpGo.SentPacketsSteps

namespace UtpGo

open Checked

theorem SentPackets.onTransmit_onlyRaises (s : SentPackets) (seqNum : Uint16)
    (packetType : PacketType) (data : Bytes) (dataLen : Uint32) (now : Time) :
    OnlyRaises (s.onTransmit seqNum packetType data dataLen now) := by
  unfold onTransmit
  dsimp only
  split
  · exact .throw _
  split
  · exact .throw _
  split
  · exact .throw _
  · exact .pure _

/-- With fewer than 65534 records no flag reaches past them. -/
theorem SentPackets.onAck_of_few [Float64] {s : SentPackets} (h : s.WF)
    (hfew : s.packets.length < 65534) (ackNum : Uint16) (selectiveAck : Option SelectiveAck)
    (delay : Duration) (now : Time) : ∃ r, s.onAck ackNum selectiveAck delay now = .ok r := by
  rcases onAck_spec delay now h ackNum selectiveAck with ⟨hover, -⟩ | ⟨-, s', r, hok, -⟩
  · obtain ⟨-, sack, i, -, -, -, hlen⟩ := (overruns_iff h _ _).mp hover
    omega
  · exact ⟨_, hok⟩

/-! ### Durations -/

/-- The configurations with which no `time.Duration` of a connection
overflows: the ticker of the wheel has an interval, and the last back-off of
the SYN and the largest timeout stay below half of the range. -/
structure ConnectionConfig.Bounded (config : ConnectionConfig) : Prop where
  interval : 4 ≤ config.initialTimeout
  backoff : config.initialTimeout *
    (3 ^ config.maxConnAttempts.toNat / 2 ^ config.maxConnAttempts.toNat) < 2 ^ 62
  maxTimeout : config.maxTimeout < 2 ^ 62

theorem three_halves_mono {m n : Nat} (h : m ≤ n) : 3 ^ m / 2 ^ m ≤ 3 ^ n / 2 ^ n := by
  rw [Nat.le_div_iff_mul_le (by positivity)]
  obtain ⟨k, rfl⟩ := Nat.exists_eq_add_of_le h
  calc 3 ^ m / 2 ^ m * 2 ^ (m + k) = 3 ^ m / 2 ^ m * 2 ^ m * 2 ^ k := by rw [pow_add, mul_assoc]
    _ ≤ 3 ^ m * 3 ^ k :=
        Nat.mul_le_mul (Nat.div_mul_le_self _ _) (Nat.pow_le_pow_left (by decide) k)
    _ = 3 ^ (m + k) := (pow_add _ _ _).symm

theorem ConnectionConfig.Bounded.initialTimeout {config : ConnectionConfig}
    (h : config.Bounded) : config.initialTimeout < 2 ^ 62 := by
  have hmono := three_halves_mono (Nat.zero_le config.maxConnAttempts.toNat)
  exact (Nat.le_mul_of_pos_right _ hmono).trans_lt h.backoff

/-- No back-off that is reached overflows. -/
theorem Connection.synBackoff_of_bounded {c : Connection} (h : c.config.Bounded) {attempts : Int}
    (hle : attempts ≤ c.config.maxConnAttempts) : c.synBackoff attempts =
      (c.config.initialTimeout * (3 ^ attempts.toNat / 2 ^ attempts.toNat) : Nat) := by
  have hlt := (Nat.mul_le_mul_left c.config.initialTimeout
    (three_halves_mono (Int.toNat_le_toNat hle))).trans_lt h.backoff
  unfold synBackoff int64
  generalize c.config.initialTimeout * (3 ^ attempts.toNat / 2 ^ attempts.toNat) = delay at hlt ⊢
  exact Int.bmod_eq_of_le (by omega) (by omega)

/-! ### Timeouts -/

namespace SentPackets

variable {s s' : SentPackets} {bound : Duration}

theorem timeoutLe_onTransmit {seqNum : Uint16} {packetType : PacketType} {data : Bytes}
    {dataLen : Uint32} {now : Time} (h : s.congestionCtrl.TimeoutLe bound)
    (hok : s.onTransmit seqNum packetType data dataLen now = .ok s') :
    s'.congestionCtrl.TimeoutLe bound := by
  rcases onTransmit_inv hok with ⟨-, ctrl, hctrl, rfl⟩ | ⟨-, -, ctrl, hctrl, rfl⟩
  · have hle := h.onTransmit seqNum .retransmission dataLen
    rwa [hctrl] at hle
  · have hle := h.onTransmit seqNum .initial dataLen
    rwa [hctrl] at hle

theorem timeoutLe_markLost (h : s.congestionCtrl.TimeoutLe bound) (seqNum : Uint16) :
    (s.markLost seqNum).congestionCtrl.TimeoutLe bound := by
  have hle := h.onLostPacket seqNum true
  unfold markLost onLost
  split
  · exact h
  · rcases hctrl : s.congestionCtrl.onLostPacket seqNum true with ⟨ctrl, - | err⟩ <;>
      (rw [hctrl] at hle; exact hle)

variable [Float64]

theorem timeoutLe_ackStep (h : s.congestionCtrl.TimeoutLe bound) (hstep : s.AckStep s') :
    s'.congestionCtrl.TimeoutLe bound := by
  obtain ⟨i, p, ack, ctrl, t, -, hctrl, hs'⟩ := hstep.inv
  have hle := h.onAck p.seqNum ack
  rw [hctrl] at hle
  rcases hs' with ⟨-, rfl⟩ | ⟨-, rfl⟩
  · exact hle
  · exact hle

theorem timeoutLe_onAck {ackNum : Uint16} {selectiveAck : Option SelectiveAck} {delay : Duration}
    {now : Time} {r : Except SentError (CircularRangeInclusive × List Uint16)} (hwf : s.WF)
    (h : s.congestionCtrl.TimeoutLe bound)
    (hok : s.onAck ackNum selectiveAck delay now = .ok (s', r)) :
    s'.congestionCtrl.TimeoutLe bound := by
  have hsteps : ∀ {s s' : SentPackets}, s.WF → s.congestionCtrl.TimeoutLe bound → AckSteps s s' →
      s'.WF ∧ s'.congestionCtrl.TimeoutLe bound :=
    fun hwf h hsteps => hsteps.inv hwf h fun _ _ _ => timeoutLe_ackStep
  rcases onAck_steps hwf hok with rfl | hproc
  · exact h
  cases hproc with
  | all hack => exact (hsteps hwf h hack).2
  | detect hack _ hprior _ =>
      obtain ⟨hwf₁, h₁⟩ := hsteps hwf h hack
      have h₂ := (hsteps hwf₁ h₁ hprior).2
      exact List.foldlRecOn (motive := fun s : SentPackets => s.congestionCtrl.TimeoutLe bound) _
        markLost h₂ fun _ h seqNum _ => timeoutLe_markLost h seqNum

end SentPackets

/-- The configuration is the given one, and the timeout is at most the larger
of its bounds. -/
structure Midcall.Within (config : ConnectionConfig) (m : Midcall) : Prop where
  same : m.conn.config = config
  timeout : ∀ e, m.conn.established = some e →
    e.sentPackets.congestionCtrl.TimeoutLe (max config.initialTimeout config.maxTimeout)

section Within

variable {config : ConnectionConfig} {m m' : Midcall}

theorem SendAct.within {guard : Guard} (h : SendAct guard m m') (hm : m.Within config) :
    m'.Within config := by
  cases h with
  | enqueue | pickLost | pickExpired => exact ⟨hm.same, hm.timeout⟩
  | flush hs | pickFin hs =>
      refine ⟨hm.same, ?_⟩
      rintro e' ⟨⟩
      have hle := hm.timeout _ (established_connected hs)
      exact hle
  | send hs hok =>
      refine ⟨hm.same, ?_⟩
      rintro e' ⟨⟩
      exact SentPackets.timeoutLe_onTransmit (hm.timeout _ (established_connected hs)) hok

/-- **One action** keeps the timeout within its bounds. -/
theorem Act.within [Float64] {packet? : Option Packet} {guard : Guard}
    (h : Act packet? guard m m') (hsound : m.Sound) (hm : m.Within config) :
    m'.Within config := by
  refine ⟨h.config.trans hm.same, ?_⟩
  cases h with
  | sends h => exact (h.within hm).timeout
  | book h =>
      intro e he
      refine hm.timeout e ?_
      rw [← he]
      show ConnState.established _ = ConnState.established _
      rw [h.state]
  | emitState | emitReset | emitSyn | endOfStream | closedRead => exact hm.timeout
  | backOff hs =>
      rintro e' ⟨⟩
      exact (hm.timeout _ (established_connected hs)).onTimeout
  | beginClosing hs | recvData _ _ hs | recvFin _ _ hs | readOut _ hs =>
      rintro e' ⟨⟩
      have hle := hm.timeout _ (established_connected hs)
      exact hle
  | acked _ _ hs hok =>
      rintro e' ⟨⟩
      have he := established_connected hs
      exact SentPackets.timeoutLe_onAck (hsound _ he).sentPackets (hm.timeout _ he) hok
  | close _ h =>
      intro e he
      exact hm.timeout e (h.established ▸ he)
  | establish =>
      rintro e' ⟨⟩
      rw [← hm.same]
      exact ⟨le_max_left _ _, le_max_right _ _⟩

end Within

namespace Connection

variable {c c' : Connection} {e : Established} {now : Time} {p : Packet}

/-! ### Transmitting -/

theorem transmit_onlyRaises (hs : c.state = .connected e) : OnlyRaises (c.transmit p now) := by
  unfold transmit
  rw [hs]
  exact .bind (e.sentPackets.onTransmit_onlyRaises _ _ _ _ _) fun _ _ => .pure _

theorem transmitPayloads_onlyRaises {e₀ : Established} (payloads : List Bytes) (seqNum : Uint16)
    (hs : c.state = .connected e) : OnlyRaises (transmitPayloads e₀ now payloads seqNum c) := by
  induction payloads generalizing seqNum c e with
  | nil => exact .pure _
  | cons payload payloads ih =>
      refine .bind (transmit_onlyRaises hs) fun c₁ hok => ?_
      obtain ⟨e₁, hs₁⟩ := transmit_connected hok
      exact ih _ hs₁

theorem transmitLost_onlyRaises {e₀ : Established} (losts : List LostPacket)
    (hs : c.state = .connected e) : OnlyRaises (transmitLost e₀ now losts c) := by
  induction losts generalizing c e with
  | nil => exact .pure _
  | cons lost losts ih =>
      refine .bind (transmit_onlyRaises hs) fun c₁ hok => ?_
      obtain ⟨e₁, hs₁⟩ := transmit_connected hok
      exact ih hs₁

theorem retransmitLostPackets_onlyRaises
    (hwf : ∀ e, c.state = .connected e → e.sentPackets.WF) :
    OnlyRaises (c.retransmitLostPackets now) := by
  unfold retransmitLostPackets
  split
  · rename_i e hs
    split
    · obtain ⟨losts, hlosts, -⟩ := SentPackets.lostPacketsList_spec (hwf e hs)
      exact .bind (.of_ok hlosts) fun _ _ => transmitLost_onlyRaises _ hs
    · exact .pure _
  · exact .pure _

/-! ### Writes, the FIN and timeouts -/

theorem processWrites_onlyRaises (hwf : ∀ e, c.state = .connected e → e.sendBuf.WF) :
    OnlyRaises (c.processWrites now) := by
  unfold processWrites
  split
  · exact .pure _
  · exact .pure _
  · rename_i e hs
    obtain ⟨payloads, sb, hread, -, -, -, hsb, -⟩ := readPayloads_spec
      ((c.config.maxPacketSize - 64).setWidth 32) (e.sendBuf.unread.length + 1)
      (min e.sentPackets.window c.peerRecvWindow) (hwf e hs)
    refine .bind (.of_ok hread) fun a ha => ?_
    obtain rfl := Except.ok.inj (hread.symm.trans ha)
    obtain ⟨r, hrefill, -⟩ := refillLoop_spec (c.pendingWrites.length + 1)
      (r := ⟨sb, c.pendingWrites, c.results, c.writable⟩) hsb
    refine .bind (.of_ok hrefill) fun r' _ => ?_
    exact transmitPayloads_onlyRaises payloads _ rfl

theorem onWrite_onlyRaises {data : Bytes} {resultCh : Nat}
    (hwf : ∀ e, c.state = .connected e → e.sendBuf.WF) :
    OnlyRaises (c.onWrite data resultCh now) := by
  unfold onWrite
  dsimp only
  refine .bind ?_ fun _ _ => .pure _
  split
  · exact processWrites_onlyRaises hwf
  · exact processWrites_onlyRaises hwf

theorem shutdown_onlyRaises : OnlyRaises (c.shutdown now) := by
  unfold shutdown
  split
  · exact .pure _
  · exact .pure _
  · rename_i e hs
    split
    · rename_i closing hc
      split
      · exact transmit_onlyRaises (e := { e with
          closing := some { closing with localFin := some e.sentPackets.nextSeqNum } })
          (by rw [setClosing_connected hs])
      · exact .pure _
    · split
      · exact .bind (transmit_onlyRaises hs) fun _ _ => .pure _
      · exact .pure _

theorem onTimeout_onlyRaises (hconfig : c.config.Bounded) : OnlyRaises (c.onTimeout p now) := by
  unfold onTimeout
  split
  · split
    · exact .pure _
    split
    · exact .pure _
    · -- the last attempt has the longest back-off
      rename_i hattempts
      dsimp only
      rw [synBackoff_of_bounded hconfig (by omega), TimeWheel.putSigned_natCast]
      exact .pure _
  · rename_i e hs
    split
    · exact .pure _
    · rcases c.noteTimeout_cases e now with h | h
      · rw [h]
        exact transmit_onlyRaises rfl
      · rw [h]
        exact transmit_onlyRaises hs
  · exact .pure _

/-! ### Reads and packets -/

theorem readLoop_returns {rb : ReceiveBuffer} (hwf : rb.WF) (bufLen fuel : Nat) :
    ∃ r, readLoop bufLen fuel rb = .ok r := by
  induction fuel generalizing rb with
  | zero => exact ⟨_, rfl⟩
  | succ fuel ih =>
      unfold readLoop
      split
      · exact ⟨_, rfl⟩
      obtain ⟨out, rb₁, hr, hdid⟩ := ReceiveBuffer.read_spec hwf bufLen
      rw [hr, ok_bind]
      dsimp only
      split
      · exact ⟨_, rfl⟩
      · obtain ⟨r, hr⟩ := ih hdid.wf
        rw [hr]
        exact ⟨_, rfl⟩

theorem processReads_returns (hwf : ∀ e, c.state = .connected e → e.recvBuf.WF) :
    ∃ c', c.processReads = .ok c' := by
  unfold processReads
  split
  · exact ⟨_, rfl⟩
  · exact ⟨_, rfl⟩
  · rename_i e hs
    obtain ⟨r, hr⟩ := readLoop_returns (hwf e hs) c.config.maxPacketSize.toNat
      (e.recvBuf.offset + 1)
    rw [hr]
    exact ⟨_, rfl⟩

theorem closeRemote_returns (hwf : ∀ e, c.state = .connected e → e.recvBuf.WF) :
    ∃ c', c.closeRemote = .ok c' := by
  unfold closeRemote
  split
  · split
    · split
      · obtain ⟨c₁, hok⟩ := processReads_returns hwf
        rw [hok]
        exact ⟨_, rfl⟩
      · exact ⟨_, rfl⟩
    · exact ⟨_, rfl⟩
  · exact ⟨_, rfl⟩

theorem onData_returns (hwf : ∀ e, c.state = .connected e → e.recvBuf.WF) (seqNum : Uint16)
    (data : Bytes) : ∃ r, c.onData seqNum data = .ok r := by
  unfold onData
  dsimp only
  by_cases hdata : data.length = 0
  · obtain ⟨e, err, hclosed⟩ := c.reset_closed .errEmptyDataPayload
    rw [if_pos hdata, hclosed]
    exact ⟨_, rfl⟩
  rw [if_neg hdata]
  split
  · split <;> exact ⟨_, rfl⟩
  · rename_i e hs
    split
    · exact ⟨_, rfl⟩
    split
    · obtain ⟨rb, err, hw, -⟩ := ReceiveBuffer.write_spec (hwf e hs) data seqNum
      rw [hw]
      exact ⟨_, rfl⟩
    · exact ⟨_, rfl⟩
  · exact ⟨_, rfl⟩

theorem onFin_returns (hwf : ∀ e, c.state = .connected e → e.recvBuf.WF) (seqNum : Uint16)
    (data : Bytes) : ∃ r, c.onFin seqNum data = .ok r := by
  unfold onFin
  split
  swap
  · exact ⟨_, rfl⟩
  rename_i e hs
  obtain ⟨rb, err, hw, -⟩ := ReceiveBuffer.write_spec (hwf e hs) data seqNum
  split
  · split
    · split <;> exact ⟨_, rfl⟩
    · rw [hw]
      exact ⟨_, rfl⟩
  · rw [hw]
    cases err with
    | none => exact ⟨_, rfl⟩
    | some err => exact ⟨_, rfl⟩

theorem dispatch_returns (hwf : ∀ e, c.state = .connected e → e.recvBuf.WF) (p : Packet) :
    ∃ r, c.dispatch p = .ok r := by
  unfold dispatch
  split
  · exact ⟨_, rfl⟩
  · exact ⟨_, rfl⟩
  · exact onData_returns hwf _ _
  · exact onFin_returns hwf _ _
  · exact ⟨_, rfl⟩

variable [Float64]

theorem acknowledge_returns (hwf : ∀ e, c.state = .connected e → e.sentPackets.WF)
    (hfew : ∀ e, c.state = .connected e → e.sentPackets.packets.length < 65534) (p : Packet) :
    ∃ r, c.acknowledge p now = .ok r := by
  have hprocess : ∀ delay, ∃ r, c.processAck p.header.ackNum p.eack delay now = .ok r := by
    intro delay
    unfold processAck
    split
    · rename_i e hs
      obtain ⟨⟨sp, r⟩, hok⟩ := SentPackets.onAck_of_few (hwf e hs) (hfew e hs) p.header.ackNum
        p.eack delay now
      rw [hok, ok_bind]
      dsimp only
      split <;> exact ⟨_, rfl⟩
    · exact ⟨_, rfl⟩
  unfold acknowledge
  split
  · exact hprocess _
  · exact hprocess _
  · exact hprocess _
  · exact ⟨_, rfl⟩

/-- What a computation that acts on a sound connection leaves is sound. -/
theorem sound_of_plays {α : Type} {m : Midcall} {prog : GoM α} {K : α → Midcall → Prop} {a : α}
    (h : Plays (some p) unguarded m prog K) (hm : m.Sound) (hok : prog = .ok a) :
    ∃ m', m'.Sound ∧ K a m' := by
  obtain ⟨m', hreach, hK⟩ := h.ok a hok
  exact ⟨m', reach_inv (fun _ _ hact hs => hact.sound hs) hm hreach, hK⟩

/-- A packet, whatever it is, up to the closing. -/
theorem beforeClosing_onlyRaises {w : Bytes} {rnd : Uint16}
    (hsound : Midcall.Sound ⟨c, none, w⟩)
    (hfew : ∀ e, c.state = .connected e → e.sentPackets.packets.length < 65534) :
    OnlyRaises (c.beforeClosing p now rnd) := by
  have hbook : Act (some p) unguarded ⟨c, none, w⟩ ⟨c.observePeer p now, none, w⟩ :=
    .book (sameCore_observePeer c p now)
  have hsound₀ := hbook.sound hsound
  obtain ⟨⟨c₁, err₁⟩, hdispatch⟩ := dispatch_returns
    (fun e hs => (hsound₀ e (established_connected hs)).recvBuf) p
  refine .bind (.of_ok hdispatch) fun _ h => ?_
  obtain rfl := Except.ok.inj (hdispatch.symm.trans h)
  obtain ⟨_, hsound₁, rfl⟩ := sound_of_plays (dispatch_plays hsound₀) hsound₀ hdispatch
  -- the records are the old ones, or there are none yet
  have hfew₁ : ∀ e, c₁.state = .connected e → e.sentPackets.packets.length < 65534 := by
    intro e₁ hs₁
    rcases dispatch_keeps hdispatch with hkeeps | ⟨-, recvInit, sentInit, hs⟩
    · obtain ⟨e, hs, heq⟩ := hkeeps.connected e₁ hs₁
      rw [heq]
      exact hfew e hs
    · cases hs.symm.trans hs₁
      exact Nat.zero_lt_succ _
  have hreturns : ∃ r, c₁.acknowledge p now = .ok r := acknowledge_returns
    (fun e hs => (hsound₁ e (established_connected hs)).sentPackets) hfew₁ p
  obtain ⟨⟨c₂, err₂⟩, hack⟩ := hreturns
  refine .bind (.of_ok hack) fun _ h => ?_
  obtain rfl := Except.ok.inj (hack.symm.trans h)
  obtain ⟨_, hsound₂, rfl⟩ := sound_of_plays (acknowledge_plays hsound₁) hsound₁ hack
  refine .bind (retransmitLostPackets_onlyRaises fun e hs => ?_) fun _ _ => .pure _
  exact (hsound₂ e (established_connected hs)).sentPackets

theorem onPacket_onlyRaises {w : Bytes} {rnd : Uint16} (hsound : Midcall.Sound ⟨c, none, w⟩)
    (hfew : ∀ e, c.state = .connected e → e.sentPackets.packets.length < 65534) :
    OnlyRaises (c.onPacket p now rnd) := by
  rw [onPacket_eq]
  refine .bind (beforeClosing_onlyRaises hsound hfew) fun c₁ hbefore => ?_
  obtain ⟨⟨_, hand, w₁⟩, hsound₁, rfl, -, -⟩ :=
    sound_of_plays (beforeClosing_plays rnd hsound) hsound hbefore
  obtain ⟨c₂, hremote⟩ :=
    closeRemote_returns fun e hs => (hsound₁ e (established_connected hs)).recvBuf
  exact .bind (.of_ok hremote) fun _ _ => .pure _

/-! ### Events -/

/-- The condition on a step: what a transmission needs, and for a packet that
no flag can reach past the records. -/
structure Calm (c : Connection) (ev : Event) : Prop extends Clear c ev where
  few : ∀ p, ev.packet? = some p → ∀ e, c.state = .connected e →
    e.sentPackets.packets.length < 65534

/-- **An event** stays within the slices and follows no nil pointer. -/
theorem step_onlyRaises {w : Bytes} (ev : Event)
    (hconfig : ∀ now, ev = .onTimeout now → c.config.Bounded)
    (hsound : Midcall.Sound ⟨c, none, w⟩)
    (hfew : ∀ p, ev.packet? = some p → ∀ e, c.state = .connected e →
      e.sentPackets.packets.length < 65534) : OnlyRaises (c.step ev) := by
  have hsend : ∀ e, c.state = .connected e → e.sendBuf.WF :=
    fun e hs => (hsound e (established_connected hs)).sendBuf
  have hrecv : ∀ e, c.state = .connected e → e.recvBuf.WF :=
    fun e hs => (hsound e (established_connected hs)).recvBuf
  cases ev with
  | onPacket p now rnd => exact onPacket_onlyRaises hsound (hfew p rfl)
  | onWrite data resultCh now => exact onWrite_onlyRaises hsend
  | processWrites now =>
      have hwf : ∀ e, Connection.state { c with writable := c.writable - 1 } = .connected e →
          e.sendBuf.WF := hsend
      exact processWrites_onlyRaises hwf
  | processReads =>
      have hwf : ∀ e, Connection.state { c with readable := c.readable - 1 } = .connected e →
          e.recvBuf.WF := hrecv
      obtain ⟨c', hok⟩ := processReads_returns hwf
      exact .of_ok hok
  | tick order =>
      simp only [step]
      split
      · exact .pure _
      · exact .pure _
  | onTimeout now =>
      simp only [step]
      split
      · exact .pure _
      · exact onTimeout_onlyRaises (hconfig now rfl)
  | onIdleTimeout => exact .pure _
  | shutdown now => exact shutdown_onlyRaises

/-- An event returns, and what it leaves is ready for the next one. -/
theorem step_returns {ev : Event} {w : Bytes} (hsound : Midcall.Sound ⟨c, none, w⟩)
    (hidle : c.Idle) (hcalm : Calm c ev)
    (hconfig : ∀ now, ev = .onTimeout now → c.config.Bounded) :
    ∃ c', c.step ev = .ok c' ∧ c'.Idle ∧ Midcall.Sound ⟨c', none, w⟩ := by
  obtain ⟨hno, hnext⟩ := step_transmits hsound hidle hcalm.toClear
  obtain ⟨c', hok⟩ := (step_onlyRaises ev hconfig hsound hcalm.few).returns hno
  exact ⟨c', hok, hnext c' hok⟩

/-- What holds between the events of a run. -/
structure Ready (config : ConnectionConfig) (w : Bytes) (c : Connection) : Prop where
  sound : Midcall.Sound ⟨c, none, w⟩
  idle : c.Idle
  within : Midcall.Within config ⟨c, none, w⟩
  wheel : c.unacked.WF

omit [Float64] in
/-- An initiator that tries sixty times, at first after four seconds. -/
def patientInitiator : Connection :=
  (newConnection ⟨2, 1⟩ { newConnectionConfig with maxConnAttempts := 60 } none 100 0).start 0

omit [Float64] in
/-- Its SYN, as it expires. -/
def patientSyn : Uint16 × Packet := (100, patientInitiator.synPacket 100 0)

omit [Float64] in
/-- **The back-off overflows**: the SYN expires and is sent again, and the delay
of the 54th attempt is negative.  If the wheel ticks once more before the loop
takes the timeout, so is the slot. -/
theorem run_overflows : panic? (@run exactFloat64 patientInitiator
    (List.replicate 4 (.tick []) ++
      (List.replicate 52 [.tick [patientSyn], .onTimeout 0]).flatten ++
      [.tick [patientSyn], .tick [], .onTimeout 0])) = some .indexOutOfRange := by
  decide +kernel

end Connection

end UtpGo
