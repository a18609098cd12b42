/-
UtpGo/ConnReport.lean

What the caller of a connect is told.  The caller waits on `connectedCh`,
which `onState` closes when the handshake succeeds and on which `onTimeout`
sends an error when the SYN has been sent too often.  The handshake can be
left in other ways too: a RESET, a SYN or an empty DATA packet resets the
connection, and the idle timer and a shutdown close it.  None of these touches
the channel (`Silences`).  What is on the channel is true: it holds at most
one signal, and that one says how the handshake ended (`Signals`).

Main result: `run_reported_iff`, the outcome has been reported, once and as it
was, exactly if no event of the run left the handshake silently.
-/
import UtpGo.ConnAddress

namespace UtpGo

open Checked

namespace Connection

variable {c c' c₁ : Connection} {now : Time} {p : Packet}

/-! ### The outcome of the handshake -/

/-- The caller knows how the handshake ended: it has been told once, of a
success if the connection was connected, and of an error if it was closed
without having been.  (A closed connection keeps the buffers it had.) -/
def Reported (c : Connection) : Prop :=
  c.state ≠ .connecting →
    c.connectedCh.length = 1 ∧
    (c.connectedCh = [none] ↔ c.established.isSome = true) ∧
    ((∃ err, c.connectedCh = [some err]) ↔ c.established = none)

/-- A packet on which a connecting initiator gives up. -/
def Unwelcome (p : Packet) : Prop :=
  p.header.packetType = .st_reset ∨ p.header.packetType = .st_syn ∨
    p.header.packetType = .st_data ∧ p.body.length = 0

/-- The event closes a connection that is connecting, and says nothing on
`connectedCh`. -/
def Silences (c : Connection) : Event → Prop
  | .onPacket packet _ _ => c.state = .connecting ∧ Unwelcome packet
  | .onIdleTimeout => c.state = .connecting
  | .shutdown _ => c.state = .connecting
  | _ => False

theorem Silences.connecting {ev : Event} (h : c.Silences ev) : c.state = .connecting := by
  cases ev with
  | onPacket => exact h.1
  | onIdleTimeout => exact h
  | shutdown => exact h
  | onWrite | processWrites | processReads | tick | onTimeout => exact h.elim

theorem KeepsReport.reported_iff (h : KeepsReport c c') (hs : c.state ≠ .connecting) :
    c'.Reported ↔ c.Reported := by
  have hnone : c'.established = none ↔ c.established = none := by
    rw [← Option.isNone_iff_eq_none, ← Option.isNone_iff_eq_none, ← Option.not_isSome,
      ← Option.not_isSome, h.established]
  simp only [Reported, h.connectedCh, h.established, hnone, ne_eq, hs, h.left]

/-! ### Leaving the handshake -/

/-- How an event leaves a connecting initiator. -/
inductive Leaves (c : Connection) (silent : Prop) (c' : Connection) : Prop where
  | stays (hs : c'.state = .connecting) (hch : c'.connectedCh = c.connectedCh) (hloud : ¬ silent)
  | silently (hs : c'.state ≠ .connecting) (hch : c'.connectedCh = c.connectedCh)
      (he : c'.established = none) (hsilent : silent)
  | connected (hs : c'.state ≠ .connecting) (hch : c'.connectedCh = c.connectedCh ++ [none])
      (he : c'.established.isSome = true) (hloud : ¬ silent)
  | gaveUp (err : ConnError) (hs : c'.state ≠ .connecting)
      (hch : c'.connectedCh = c.connectedCh ++ [some err]) (he : c'.established = none)
      (hloud : ¬ silent)

theorem Leaves.of_before {silent : Prop} (h : Leaves c₁ silent c')
    (hch : c₁.connectedCh = c.connectedCh) : Leaves c silent c' := by
  cases h with
  | stays hs hch' hloud => exact .stays hs (hch'.trans hch) hloud
  | silently hs hch' he hsilent => exact .silently hs (hch'.trans hch) he hsilent
  | connected hs hch' he hloud => exact .connected hs (hch ▸ hch') he hloud
  | gaveUp err hs hch' he hloud => exact .gaveUp err hs (hch ▸ hch') he hloud

/-- What follows keeps the report, or leaves the handshake where it is. -/
theorem Leaves.after {silent : Prop} (h : Leaves c silent c₁) (hsteady : Steady c₁ c')
    (hstays : c₁.state = .connecting → c'.state = .connecting ∧ c'.connectedCh = c₁.connectedCh) :
    Leaves c silent c' := by
  cases h with
  | stays hs hch hloud =>
      obtain ⟨hs', hch'⟩ := hstays hs
      exact .stays hs' (hch'.trans hch) hloud
  | silently hs hch he hsilent =>
      have hr := hsteady.report hs
      refine .silently hr.left (hr.connectedCh.trans hch) ?_ hsilent
      rw [← Option.not_isSome_iff_eq_none, hr.established, he]
      exact Bool.false_ne_true
  | connected hs hch he hloud =>
      have hr := hsteady.report hs
      exact .connected hr.left (hr.connectedCh.trans hch) (hr.established.trans he) hloud
  | gaveUp err hs hch he hloud =>
      have hr := hsteady.report hs
      refine .gaveUp err hr.left (hr.connectedCh.trans hch) ?_ hloud
      rw [← Option.not_isSome_iff_eq_none, hr.established, he]
      exact Bool.false_ne_true

/-- A reset while connecting. -/
theorem leaves_reset (hs : c.state = .connecting) (err : ConnError) {silent : Prop}
    (hsilent : silent) : Leaves c silent (c.reset err) := by
  have heq : c.reset err = { c with state := .closed none (some err) } := by
    unfold reset
    rw [hs]
  rw [heq]
  refine .silently ?_ rfl rfl hsilent
  rintro ⟨⟩

theorem dispatch_leaves {err : Option HandleError} (hs : c.state = .connecting)
    (htype : c.endpoint.type = .initiator) (hok : c.dispatch p = .ok (c', err)) :
    Leaves c (Unwelcome p) c' := by
  unfold dispatch at hok
  split at hok
  · rename_i ht
    cases hok
    have heq : c.onSyn p.header.seqNum = c.reset .errSynFromAcceptor := by
      unfold onSyn
      rw [htype, hs]
    rw [heq]
    exact leaves_reset hs _ (.inr (.inl ht))
  · rename_i ht
    have hloud : ¬ Unwelcome p := by simp [Unwelcome, ht]
    cases hok
    unfold onState
    rw [hs]
    dsimp only
    split
    · refine .connected ?_ rfl rfl hloud
      rintro ⟨⟩
    · exact .stays hs rfl hloud
  · rename_i ht
    unfold onData at hok
    by_cases hlen : p.body.length = 0
    · -- an empty DATA packet resets the connection, and is then ignored
      have hsilent : Unwelcome p := .inr (.inr ⟨ht, hlen⟩)
      rw [if_pos hlen] at hok
      have hclosed : (c.reset .errEmptyDataPayload).state
          = .closed none (some .errEmptyDataPayload) := by
        unfold reset
        rw [hs]
      simp only [hclosed] at hok
      cases hok
      exact leaves_reset hs _ hsilent
    · have hloud : ¬ Unwelcome p := by simp [Unwelcome, ht, hlen]
      simp only [if_neg hlen, hs, htype] at hok
      cases hok
      exact .stays hs rfl hloud
  · rename_i ht
    have hloud : ¬ Unwelcome p := by simp [Unwelcome, ht]
    simp only [onFin, hs] at hok
    cases hok
    exact .stays hs rfl hloud
  · rename_i ht
    cases hok
    have heq : c.onReset = c.reset .errReset := by
      unfold onReset
      rw [hs]
    rw [heq]
    exact leaves_reset hs _ (.inl ht)

theorem reply_state (c : Connection) (p : Packet) (now : Time) (rnd : Uint16) :
    (c.reply p now rnd).state = c.state ∧ (c.reply p now rnd).connectedCh = c.connectedCh := by
  have hemit : ∀ q : Option Packet,
      (q.elim c c.emit).state = c.state ∧ (q.elim c c.emit).connectedCh = c.connectedCh := by
    intro q
    cases q <;> exact ⟨rfl, rfl⟩
  unfold reply
  split
  · split
    · exact ⟨rfl, rfl⟩
    · split <;> exact ⟨rfl, rfl⟩
  · exact hemit _
  · exact hemit _
  · exact ⟨rfl, rfl⟩

/-- The closing cases of `onPacket` are about connected connections. -/
theorem closing_connecting {c₄ : Connection} (hs : c.state = .connecting)
    (hok : c.closeLocal.closeRemote = .ok c₄) : c₄.closeBoth = c := by
  have hlocal : c.closeLocal = c := by
    unfold closeLocal
    rw [hs]
  rw [hlocal] at hok
  unfold closeRemote at hok
  rw [hs] at hok
  cases hok
  unfold closeBoth
  rw [hs]

variable [Float64]

/-- After the handler of its type a packet does nothing to a connection that
is still connecting, but for the reply. -/
theorem afterDispatch_connecting {err : Option SentError} {c₂ c₃ c₄ : Connection} {rnd : Uint16}
    (hs : c₁.state = .connecting) (hack : c₁.acknowledge p now = .ok (c₂, err))
    (hlost : c₂.retransmitLostPackets now = .ok c₃)
    (hremote : (((c₃.reply p now rnd).notify p).closeLocal).closeRemote = .ok c₄) :
    c₄.closeBoth.state = .connecting ∧ c₄.closeBoth.connectedCh = c₁.connectedCh := by
  obtain rfl : c₂ = c₁ := by
    rcases acknowledge_cases hack with ⟨-, delay, hack⟩ | h
    · simp only [processAck, hs] at hack
      cases hack
      rfl
    · exact h
  obtain rfl : c₃ = c₂ := by
    simp only [retransmitLostPackets, hs] at hlost
    cases hlost
    rfl
  obtain ⟨hstate, hch⟩ := reply_state c₃ p now rnd
  have hnotify : ((c₃.reply p now rnd).notify p).state = .connecting := hstate.trans hs
  rw [closing_connecting hnotify hremote]
  exact ⟨hnotify, hch⟩

theorem onPacket_leaves {rnd : Uint16} (hs : c.state = .connecting)
    (htype : c.endpoint.type = .initiator) (hok : c.onPacket p now rnd = .ok c') :
    Leaves c (Unwelcome p) c' := by
  obtain ⟨⟨c₁, _⟩, hdispatch, hok⟩ := bind_eq_ok.mp hok
  obtain ⟨⟨c₂, _⟩, hack, hok⟩ := bind_eq_ok.mp hok
  obtain ⟨c₃, hlost, hok⟩ := bind_eq_ok.mp hok
  obtain ⟨c₄, hremote, hok⟩ := bind_eq_ok.mp hok
  obtain rfl := pure_eq_ok.mp hok
  have hleaves : Leaves c (Unwelcome p) c₁ :=
    (dispatch_leaves (c := c.observePeer p now) hs htype hdispatch).of_before rfl
  exact hleaves.after (handled_afterDispatch hack hlost hremote).toSteady
    fun hs₁ => afterDispatch_connecting hs₁ hack hlost hremote

omit [Float64] in
/-- A timeout while connecting sends the SYN again, or gives up. -/
theorem onTimeout_leaves {silent : Prop} (hs : c.state = .connecting)
    (htype : c.endpoint.type = .initiator) (hloud : ¬ silent)
    (hok : c.onTimeout p now = .ok c') : Leaves c silent c' := by
  simp only [onTimeout, hs, htype] at hok
  split at hok
  · cases hok
    refine .gaveUp .errTimedOut ?_ rfl rfl hloud
    rintro ⟨⟩
  · obtain ⟨unacked, -, hok⟩ := bind_eq_ok.mp hok
    cases hok
    exact .stays rfl rfl hloud

/-- **The ways out of the handshake**: every event leaves an initiator that is
connecting where it is, or it reports the outcome, or it is silent. -/
theorem step_leaves {ev : Event} (hs : c.state = .connecting)
    (htype : c.endpoint.type = .initiator) (hok : c.step ev = .ok c') :
    Leaves c (c.Silences ev) c' := by
  cases ev with
  | onPacket p now rnd =>
      have hiff : c.Silences (.onPacket p now rnd) ↔ Unwelcome p := and_iff_right hs
      rw [hiff]
      exact onPacket_leaves hs htype hok
  | onWrite data resultCh now =>
      obtain ⟨c₁, hwrites, hok⟩ := bind_eq_ok.mp hok
      obtain rfl := pure_eq_ok.mp hok
      have haccepts : c.acceptsWrite = true := by
        unfold acceptsWrite
        rw [hs]
      simp only [haccepts, if_true, processWrites, hs] at hwrites
      cases hwrites
      exact .stays rfl rfl id
  | processWrites now =>
      simp only [step, processWrites, hs] at hok
      cases hok
      exact .stays rfl rfl id
  | processReads =>
      simp only [step, processReads, hs] at hok
      cases hok
      exact .stays rfl rfl id
  | tick order =>
      simp only [step] at hok
      split at hok <;> cases hok <;> exact .stays hs rfl id
  | onTimeout now =>
      simp only [step] at hok
      split at hok
      · cases hok
        exact .stays hs rfl id
      · rename_i originPacket rest hch
        have hleaves : Leaves { c with unackTimeoutCh := rest } (c.Silences (.onTimeout now)) c' :=
          onTimeout_leaves hs htype id hok
        exact hleaves.of_before rfl
  | onIdleTimeout =>
      simp only [step, onIdleTimeout, hs] at hok
      cases hok
      refine .silently ?_ rfl rfl hs
      rintro ⟨⟩
  | shutdown now =>
      simp only [step, shutdown, hs] at hok
      cases hok
      refine .silently ?_ rfl rfl hs
      rintro ⟨⟩

/-! ### Runs -/

/-- An initiator as its event loop starts it. -/
def initiator (cid : ConnectionId) (config : ConnectionConfig) (rnd : Uint16) (now t₀ : Time) :
    Connection :=
  (newConnection cid config none rnd now).start t₀

omit [Float64] in
/-- What an event makes of the report: it is right afterwards, unless the
event was silent. -/
theorem Leaves.reported_iff {silent : Prop} (h : Leaves c silent c') (hch : c.connectedCh = [])
    (hleft : c'.state ≠ .connecting) : c'.Reported ↔ ¬ silent := by
  cases h with
  | stays hs => exact absurd hs hleft
  | silently hs hch' he hsilent =>
      refine iff_of_false (fun hr => ?_) (not_not_intro hsilent)
      have hlen := (hr hs).1
      rw [hch', hch] at hlen
      cases hlen
  | connected hs hch' he hloud =>
      have hne : c'.established ≠ none := Option.isSome_iff_ne_none.mp he
      refine iff_of_true (fun _ => ?_) hloud
      rw [hch', hch]
      simp [he, hne]
  | gaveUp err hs hch' he hloud =>
      refine iff_of_true (fun _ => ?_) hloud
      rw [hch', hch, he]
      simp

theorem run_reported_of_left {events : List Event} (hs : c.state ≠ .connecting)
    (hok : c.run events = .ok c') :
    (c'.Reported ↔ c.Reported) ∧ Along (fun c ev => ¬ c.Silences ev) c events := by
  induction events generalizing c with
  | nil =>
      obtain rfl := pure_eq_ok.mp hok
      exact ⟨.rfl, trivial⟩
  | cons ev events ih =>
      simp only [run, List.foldlM_cons, bind_eq_ok] at hok
      obtain ⟨c₁, hstep, hrun⟩ := hok
      have hr := (step_steady hstep).report hs
      obtain ⟨hiff, halong⟩ := ih hr.left hrun
      refine ⟨hiff.trans (hr.reported_iff hs), fun hsilent => hs hsilent.connecting, ?_⟩
      intro c₂ hstep₂
      cases hstep.symm.trans hstep₂
      exact halong

/-- By induction on the events, as long as the connection is connecting;
afterwards the report does not change. -/
theorem run_reported_of_connecting {events : List Event} (hs : c.state = .connecting)
    (htype : c.endpoint.type = .initiator) (hch : c.connectedCh = [])
    (hok : c.run events = .ok c') :
    c'.Reported ↔ Along (fun c ev => ¬ c.Silences ev) c events := by
  induction events generalizing c with
  | nil =>
      obtain rfl := pure_eq_ok.mp hok
      exact iff_of_true (fun hne => absurd hs hne) trivial
  | cons ev events ih =>
      simp only [run, List.foldlM_cons, bind_eq_ok] at hok
      obtain ⟨c₁, hstep, hrun⟩ := hok
      have hleaves := step_leaves hs htype hstep
      have hnext : (∀ c₂, c.step ev = .ok c₂ → Along (fun c ev => ¬ c.Silences ev) c₂ events) ↔
          Along (fun c ev => ¬ c.Silences ev) c₁ events := by
        rw [hstep]
        exact ⟨fun hall => hall c₁ rfl, fun halong c₂ hc₂ => by cases hc₂; exact halong⟩
      show c'.Reported ↔ ¬ c.Silences ev ∧ _
      rw [hnext]
      by_cases hs₁ : c₁.state = .connecting
      · cases hleaves with
        | stays _ hch₁ hloud =>
            rw [and_iff_right hloud]
            exact ih hs₁ ((step_steady hstep).type.trans htype)
              (hch₁.trans hch) hrun
        | silently hs' | connected hs' | gaveUp _ hs' => exact absurd hs₁ hs'
      · obtain ⟨hiff, halong⟩ := run_reported_of_left hs₁ hrun
        rw [and_iff_left halong, hiff]
        exact hleaves.reported_iff hch hs₁

/-- **The outcome of a connect is reported, unless the handshake is left in
silence**: in every run of an initiator the caller has been told the outcome
exactly if no event of the run was silent. -/
theorem run_reported_iff (cid : ConnectionId) (config : ConnectionConfig) (rnd : Uint16)
    (now t₀ : Time) (events : List Event) (c : Connection)
    (hrun : (initiator cid config rnd now t₀).run events = .ok c) :
    c.Reported ↔ Along (fun c ev => ¬ c.Silences ev) (initiator cid config rnd now t₀) events :=
  run_reported_of_connecting rfl rfl rfl hrun

omit [Float64] in
/-- The STATE packet that answers the SYN. -/
theorem run_reported_state : ∃ c, @run exactFloat64 (initiator ⟨101, 100⟩ newConnectionConfig 7 0 0)
    [.onPacket ((newPacketBuilder .st_state 100 0 1000 5).withAckNum 7).build 0 0] = .ok c ∧
      c.connectedCh = [none] ∧ c.Reported := by
  have hrun : ∃ c, @run exactFloat64 (initiator ⟨101, 100⟩ newConnectionConfig 7 0 0)
      [.onPacket ((newPacketBuilder .st_state 100 0 1000 5).withAckNum 7).build 0 0] = .ok c ∧
        c.connectedCh = [none] := ⟨_, rfl, rfl⟩
  obtain ⟨c, hrun, hch⟩ := hrun
  refine ⟨c, hrun, hch, (@run_reported_iff exactFloat64 _ _ _ _ _ _ c hrun).mpr ⟨?_, ?_⟩⟩
  · rintro ⟨-, h⟩
    simp [Unwelcome, newPacketBuilder, PacketBuilder.withAckNum, PacketBuilder.build] at h
  · intro _ _
    trivial

omit [Float64] in
/-- A RESET that answers the SYN: the connection is closed, and the caller is
not told. -/
theorem reset_unreported : ∃ c, @run exactFloat64 (initiator ⟨101, 100⟩ newConnectionConfig 7 0 0)
    [.onPacket (newPacketBuilder .st_reset 100 0 100000 5).build 0 0] = .ok c ∧
      c.state = .closed none (some .errReset) ∧ c.connectedCh = [] ∧ ¬ c.Reported := by
  have hrun : ∃ c, @run exactFloat64 (initiator ⟨101, 100⟩ newConnectionConfig 7 0 0)
      [.onPacket (newPacketBuilder .st_reset 100 0 100000 5).build 0 0] = .ok c ∧
        c.state = .closed none (some .errReset) ∧ c.connectedCh = [] := ⟨_, rfl, rfl, rfl⟩
  obtain ⟨c, hrun, hstate, hch⟩ := hrun
  refine ⟨c, hrun, hstate, hch, fun hr => ?_⟩
  have hlen := (hr (by rw [hstate]; rintro ⟨⟩)).1
  rw [hch] at hlen
  cases hlen

/-! ### What is on the channel -/

omit [Float64] in
/-- The channel of an initiator: nothing as long as it connects, and
afterwards at most one signal, which is true. -/
structure Signals (c : Connection) : Prop where
  type : c.endpoint.type = .initiator
  connecting : c.state = .connecting → c.connectedCh = []
  signal : c.connectedCh = [] ∨ c.connectedCh = [none] ∧ c.established.isSome = true ∨
    (∃ err, c.connectedCh = [some err]) ∧ c.established = none

omit [Float64] in
theorem signals_start (cid : ConnectionId) (config : ConnectionConfig) (rnd : Uint16)
    (now t₀ : Time) : (initiator cid config rnd now t₀).Signals :=
  ⟨rfl, fun _ => rfl, .inl rfl⟩

theorem Signals.step {ev : Event} (h : c.Signals) (hok : c.step ev = .ok c') : c'.Signals := by
  have hsteady := step_steady hok
  have htype : c'.endpoint.type = .initiator := hsteady.type.trans h.type
  by_cases hs : c.state = .connecting
  · have hch := h.connecting hs
    cases step_leaves hs h.type hok with
    | stays hs' hch' => exact ⟨htype, fun _ => hch'.trans hch, .inl (hch'.trans hch)⟩
    | silently hs' hch' =>
        exact ⟨htype, fun heq => absurd heq hs', .inl (hch'.trans hch)⟩
    | connected hs' hch' he =>
        rw [hch] at hch'
        exact ⟨htype, fun heq => absurd heq hs', .inr (.inl ⟨hch', he⟩)⟩
    | gaveUp err hs' hch' he =>
        rw [hch] at hch'
        exact ⟨htype, fun heq => absurd heq hs', .inr (.inr ⟨⟨err, hch'⟩, he⟩)⟩
  · -- the handshake is over, and the report stays
    have hr := hsteady.report hs
    refine ⟨htype, fun heq => absurd heq hr.left, ?_⟩
    rw [hr.connectedCh, hr.established, ← Option.not_isSome_iff_eq_none, hr.established,
      Option.not_isSome_iff_eq_none]
    exact h.signal

end Connection

end UtpGo
