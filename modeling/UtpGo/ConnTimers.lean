/-
UtpGo/ConnTimers.lean

The timers of acknowledged packets.  `processAck` marks packets in the
records and then deletes their timers from the wheel.  The two get out of
step in four ways: `onAck` reports an error, and the timers stay, when no
packet is left unacknowledged; a packet flagged in a selective
acknowledgement loses its timer in one slot only; a timeout handled after
the packet was acknowledged starts its timer again; and from the `2 ^ 16`-th
packet on the numbers of acknowledged packets are used again.

Main results: `run_timers`, in a run that stays clear of these no timer is
live for an acknowledged packet after `processAck`, and `ack_leaves_timer`,
an acknowledgement of everything.
-/
import UtpGo.AckExchange
import UtpGo.ConnKeeps
import UtpGo.SentPacketsLoss

namespace UtpGo

open Checked

/-! ### Timers and records -/

/-- No timer of the wheel is that of an acknowledged packet. -/
def SentPackets.Untimed (s : SentPackets) (tw : TimeWheel Uint16 Packet) : Prop :=
  ∀ item, tw.Holds item → ¬ s.Acked (s.seqNumIndex item.1)

/-- The condition on an acknowledgement: after its own number and its flags
some packet is still unacknowledged, unless no packet that it covers has a
timer, and the packets it flags have their timer in one slot only. -/
def SentPackets.AckClears (s : SentPackets) (tw : TimeWheel Uint16 Packet) (ackNum : Uint16)
    (selectiveAck : Option SelectiveAck) : Prop :=
  s.Acceptable ackNum →
    ((∃ j < s.packets.length, ¬ s.Acked j ∧ j ≠ s.seqNumIndex ackNum ∧
        ¬ s.Selected ackNum selectiveAck j) ∨
      ∀ item, tw.Holds item → ¬ s.Covered ackNum selectiveAck (s.seqNumIndex item.1)) ∧
    ∀ key, s.Selected ackNum selectiveAck (s.seqNumIndex key) → tw.slotsOf key ≤ 1

namespace SentPackets

variable {s s' : SentPackets} {tw : TimeWheel Uint16 Packet}

/-- The numbers up to the one acknowledged lie in the range handed to the
timers. -/
theorem Acceptable.fullAcked {ackNum x : Uint16} (h : s.Acceptable ackNum)
    (hx : s.seqNumIndex x ≤ s.seqNumIndex ackNum) :
    (newCircularRangeInclusive s.initSeqNum ackNum).contains x = true := by
  rw [CircularRangeInclusive.contains_iff]
  show Circular.ahead s.initSeqNum x ≤ Circular.ahead s.initSeqNum ackNum
  rw [s.ahead_eq_index h.1]
  by_cases hinit : x = s.initSeqNum
  · rw [hinit]
    simp [Circular.ahead]
  · rw [s.ahead_eq_index hinit]
    omega

theorem Selected.mem_selectedAcks {ackNum key : Uint16} {selectiveAck : Option SelectiveAck}
    (h : s.Selected ackNum selectiveAck (s.seqNumIndex key)) :
    key ∈ (selectiveAck.map (selectedAcks ackNum)).getD [] := by
  obtain ⟨sack, i, rfl, hflag, hidx⟩ := h
  exact SentPackets.mem_selectedAcks.mpr ⟨i, hflag.1, (seqNumIndex_inj.mp hidx).symm⟩

variable [Float64] {ackNum : Uint16} {selectiveAck : Option SelectiveAck} {delay : Duration}
  {now : Time}

/-- When `onAck` reports what it acknowledged, deleting those timers is
enough. -/
theorem Untimed.cleared (hun : s.Untimed tw) (h : s.WF)
    (hclear : s.AckClears tw ackNum selectiveAck)
    {fullAcked : CircularRangeInclusive} {selected : List Uint16}
    (hok : s.onAck ackNum selectiveAck delay now = .ok (s', .ok (fullAcked, selected))) :
    s'.Untimed (selected.foldl TimeWheel.remove (tw.retain fullAcked.contains)) := by
  obtain ⟨hacks, -⟩ := acks_of_ok h hok
  obtain ⟨rfl, rfl⟩ := onAck_result h hok
  intro item hitem hacked
  obtain ⟨hheld, hout⟩ := (Connection.holds_of_removeAll hitem).of_retain
  rw [hacks.index] at hacked
  rcases hacks.acked _ hacked with hold | ⟨hacc, hle | hsel⟩
  · exact hun item hheld hold
  · rw [hacc.fullAcked hle] at hout
    cases hout
  · -- the key was in one slot, from which it has been deleted
    have hone : (tw.retain (newCircularRangeInclusive s.initSeqNum ackNum).contains).slotsOf
        item.1 ≤ 1 :=
      (TimeWheel.slotsOf_retain_le _ item.1).trans ((hclear hacc).2 item.1 hsel)
    have hpos := hitem.slotsOf_pos
    rw [TimeWheel.slotsOf_removeAll hsel.mem_selectedAcks hone] at hpos
    exact lt_irrefl 0 hpos

/-- When it reports an error, the timers that stay are those of packets not
acknowledged. -/
theorem Untimed.kept (hun : s.Untimed tw) (h : s.WF) (hclear : s.AckClears tw ackNum selectiveAck)
    {err : SentError} (herr : err ≠ .errInvalidAckNum)
    (hok : s.onAck ackNum selectiveAck delay now = .ok (s', .error err)) : s'.Untimed tw := by
  obtain ⟨hacks, -⟩ := acks_of_ok h hok
  obtain ⟨hacc, hall⟩ := onAck_none_left h hok herr
  intro item hitem hacked
  rw [hacks.index] at hacked
  rcases (hclear hacc).1 with ⟨j, hj, hun', hne, hsel⟩ | hfree
  · rcases hall j hj with hj | hj | hj
    · exact hun' hj
    · exact hne hj
    · exact hsel hj
  · rcases hacks.acked _ hacked with hold | hcov
    · exact hun item hitem hold
    · exact hfree item hitem hcov

end SentPackets

/-! ### Transmitting -/

namespace Connection

/-- While numbers do not come round, no timer of a connected connection is
that of an acknowledged packet. -/
def Live (c : Connection) : Prop := ∀ e, c.state = .connected e →
  e.sentPackets.packets.length < 65536 → e.sentPackets.Untimed c.unacked

variable {c c' c₁ : Connection} {e : Established} {now : Time}

theorem KeepsTimers.live (h : KeepsTimers c c') (hlive : c.Live) : c'.Live := by
  intro e' hs' hlen
  obtain ⟨e, hs, heq⟩ := h.connected e' hs'
  rw [heq] at hlen ⊢
  rw [h.unacked]
  exact hlive e hs hlen

theorem Live.of_closed (hclosed : c.Closed) : c.Live :=
  fun _ hs => (hclosed.not_connected hs).elim

/-- A packet that is not acknowledged is transmitted. -/
theorem Live.transmit (hlive : c.Live) (hs : c.state = .connected e) (hwf : e.sentPackets.WF)
    {p : Packet} (hfree : e.sentPackets.packets.length < 65536 →
      ¬ e.sentPackets.Acked (e.sentPackets.seqNumIndex p.header.seqNum))
    (hok : c.transmit p now = .ok c') : c'.Live ∧ ∃ sp,
      e.sentPackets.onTransmit p.header.seqNum p.header.packetType p.body
        (BitVec.ofNat 32 p.body.length) now = .ok sp ∧
      sp.WF ∧ c'.state = .connected { e with sentPackets := sp } := by
  rw [Connection.transmit, hs] at hok
  obtain ⟨sp, hsp, hok⟩ := bind_eq_ok.mp hok
  obtain rfl := pure_eq_ok.mp hok
  refine ⟨?_, sp, hsp, hwf.of_transmit hsp, rfl⟩
  have htr := SentPackets.transmitted_of_ok hwf hsp
  rintro _ ⟨⟩ hlen item hitem
  have hlen' : e.sentPackets.packets.length < 65536 := lt_of_le_of_lt htr.length_le hlen
  show ¬ sp.Acked (sp.seqNumIndex item.1)
  rw [htr.acked, SentPackets.seqNumIndex_congr htr.init]
  rcases TimeWheel.Holds.of_put hitem with rfl | hitem
  · exact hfree hlen'
  · exact hlive e hs hlen' item hitem

/-- The next number is not that of an acknowledged packet. -/
theorem not_acked_next {s : SentPackets} (hlen : s.packets.length < 65536) :
    ¬ s.Acked (s.seqNumIndex s.nextSeqNum) := by
  rw [s.seqNumIndex_next hlen]
  rintro ⟨p, hp, -⟩
  exact absurd (List.getElem?_eq_some_iff.mp hp).1 (lt_irrefl _)

theorem Live.transmitPayloads {e₀ : Established} {payloads : List Bytes} {seqNum : Uint16}
    (hlive : c.Live) (hs : c.state = .connected e) (hwf : e.sentPackets.WF)
    (hnext : e.sentPackets.packets.length < 65536 → seqNum = e.sentPackets.nextSeqNum)
    (hok : transmitPayloads e₀ now payloads seqNum c = .ok c') : c'.Live := by
  induction payloads generalizing seqNum c e with
  | nil =>
      obtain rfl := pure_eq_ok.mp hok
      exact hlive
  | cons payload payloads ih =>
      obtain ⟨c₁, htransmit, hrest⟩ := bind_eq_ok.mp hok
      obtain ⟨hlive₁, sp, hsp, hwf₁, hs₁⟩ := hlive.transmit hs hwf
        (fun hlen => hnext hlen ▸ not_acked_next hlen) htransmit
      refine ih hlive₁ hs₁ hwf₁ ?_ hrest
      intro hlen
      have hlen' : e.sentPackets.packets.length < 65536 :=
        lt_of_le_of_lt (SentPackets.transmitted_of_ok hwf hsp).length_le hlen
      obtain rfl := hnext hlen'
      rw [SentPackets.onTransmit_fresh hwf hlen' hsp]
      exact (SentPackets.nextSeqNum_transmitNew).symm

theorem Live.transmitLost {e₀ : Established} {losts : List LostPacket} (hlive : c.Live)
    (hs : c.state = .connected e) (hwf : e.sentPackets.WF)
    (hun : ∀ lost ∈ losts, ¬ e.sentPackets.Acked (e.sentPackets.seqNumIndex lost.seqNum))
    (hok : transmitLost e₀ now losts c = .ok c') : c'.Live := by
  induction losts generalizing c e with
  | nil =>
      obtain rfl := pure_eq_ok.mp hok
      exact hlive
  | cons lost losts ih =>
      obtain ⟨c₁, htransmit, hrest⟩ := bind_eq_ok.mp hok
      obtain ⟨hlive₁, sp, hsp, hwf₁, hs₁⟩ := hlive.transmit hs hwf
        (fun _ => hun lost (List.mem_cons_self ..)) htransmit
      refine ih hlive₁ hs₁ hwf₁ ?_ hrest
      intro lost' hlost'
      have htr := SentPackets.transmitted_of_ok hwf hsp
      show ¬ sp.Acked (sp.seqNumIndex lost'.seqNum)
      rw [htr.acked, SentPackets.seqNumIndex_congr htr.init]
      exact hun lost' (List.mem_cons_of_mem _ hlost')

/-! ### Writes, timeouts and the FIN -/

/-- The records of a connected connection satisfy their invariant. -/
def Recording (c : Connection) : Prop := ∀ e, c.state = .connected e → e.sentPackets.WF

theorem Live.processWrites (hlive : c.Live) (hwf : c.Recording)
    (hok : c.processWrites now = .ok c') : c'.Live := by
  unfold Connection.processWrites at hok
  split at hok
  · cases hok
    exact hlive
  · cases hok
    exact KeepsTimers.live (.of_state rfl rfl) hlive
  · rename_i e hs
    obtain ⟨⟨payloads, sb⟩, -, hok⟩ := bind_eq_ok.mp hok
    obtain ⟨r, -, hok⟩ := bind_eq_ok.mp hok
    have hkeeps : KeepsTimers c { c with
        state := .connected { e with sendBuf := r.sendBuf }
        pendingWrites := r.pendingWrites
        results := r.results
        writable := r.writable } := .of_connected hs rfl rfl rfl
    exact (hkeeps.live hlive).transmitPayloads rfl (hwf e hs) (fun _ => rfl) hok

theorem Live.onWrite {data : Bytes} {resultCh : Nat} (hlive : c.Live) (hwf : c.Recording)
    (hok : c.onWrite data resultCh now = .ok c') : c'.Live := by
  obtain ⟨c₂, hwrites, hok⟩ := bind_eq_ok.mp hok
  obtain rfl := pure_eq_ok.mp hok
  refine KeepsTimers.live (c := c₂) (.of_state rfl rfl) ?_
  -- the write is queued or answered, which no timer notices
  split at hwrites
  · refine Live.processWrites ?_ ?_ hwrites
    · exact KeepsTimers.live (c := c) (.of_state rfl rfl) hlive
    · exact hwf
  · refine Live.processWrites ?_ ?_ hwrites
    · exact KeepsTimers.live (c := c) (.of_state rfl rfl) hlive
    · exact hwf

theorem Live.shutdown (hlive : c.Live) (hwf : c.Recording) (hok : c.shutdown now = .ok c') :
    c'.Live := by
  rcases shutdown_inv hok with rfl | ⟨-, rfl⟩ | ⟨e, hs, -, rfl⟩ | ⟨e, hs, -, -, -, htransmit⟩
  · exact hlive
  · exact .of_closed ⟨_, _, rfl⟩
  · exact KeepsTimers.live (.of_connected hs rfl rfl rfl) hlive
  · have hclosing : KeepsTimers c { c with state := .connected { e with
        closing := some ⟨some e.sentPackets.nextSeqNum, e.remoteFin⟩ } } :=
      .of_connected hs rfl rfl rfl
    exact ((hclosing.live hlive).transmit rfl (hwf e hs) not_acked_next htransmit).1

theorem Live.onTimeout {p : Packet} (hlive : c.Live) (hwf : c.Recording)
    (hun : ∀ e, c.state = .connected e → p.header.packetType ≠ .st_syn →
      ¬ e.sentPackets.Acked (e.sentPackets.seqNumIndex p.header.seqNum))
    (hok : c.onTimeout p now = .ok c') : c'.Live := by
  unfold Connection.onTimeout at hok
  split at hok
  · rename_i hs
    split at hok
    · cases hok
      exact hlive
    split at hok
    · cases hok
      exact .of_closed ⟨_, _, rfl⟩
    · obtain ⟨unacked, -, hok⟩ := bind_eq_ok.mp hok
      cases hok
      rintro e hs'
      cases hs.symm.trans hs'
  · rename_i e hs
    split at hok
    · cases hok
      exact hlive
    rename_i hsyn
    -- noting the timeout changes nothing but the controller
    rcases c.noteTimeout_cases e now with h | h
    · rw [h] at hok
      refine (Live.transmit ?_ rfl (hwf e hs).onTimeout ?_ hok).1
      · rintro _ ⟨⟩ hlen
        exact hlive e hs hlen
      · exact fun _ => hun e hs hsyn
    · rw [h] at hok
      refine (hlive.transmit hs (hwf e hs) ?_ hok).1
      exact fun _ => hun e hs hsyn
  · cases hok
    exact hlive

/-! ### Packets -/

/-- The lost packets of a connected connection are known exactly. -/
def LossKnown (c : Connection) : Prop := ∀ e, c.state = .connected e → e.sentPackets.LossExact

theorem KeepsTimers.recording (h : KeepsTimers c c') (hwf : c.Recording) : c'.Recording := by
  intro e' hs'
  obtain ⟨e, hs, heq⟩ := h.connected e' hs'
  exact heq ▸ hwf e hs

theorem KeepsTimers.lossKnown (h : KeepsTimers c c') (hloss : c.LossKnown) : c'.LossKnown := by
  intro e' hs'
  obtain ⟨e, hs, heq⟩ := h.connected e' hs'
  exact heq ▸ hloss e hs

/-- The acknowledgement clears the timers of what it acknowledges. -/
def AckClears (c : Connection) (ackNum : Uint16) (selectiveAck : Option SelectiveAck) : Prop :=
  ∀ e, c.state = .connected e → e.sentPackets.AckClears c.unacked ackNum selectiveAck

theorem KeepsTimers.ackClears {ackNum : Uint16} {selectiveAck : Option SelectiveAck}
    (h : KeepsTimers c c') (hclear : c.AckClears ackNum selectiveAck) :
    c'.AckClears ackNum selectiveAck := by
  intro e' hs'
  obtain ⟨e, hs, heq⟩ := h.connected e' hs'
  rw [heq, h.unacked]
  exact hclear e hs

theorem Live.retransmitLostPackets (hlive : c.Live) (hwf : c.Recording) (hloss : c.LossKnown)
    (hok : c.retransmitLostPackets now = .ok c') : c'.Live := by
  unfold Connection.retransmitLostPackets at hok
  split at hok
  · rename_i e hs
    split at hok
    · obtain ⟨losts, hlosts, hok⟩ := bind_eq_ok.mp hok
      refine hlive.transmitLost hs (hwf e hs) ?_ hok
      intro lost hlost
      -- a lost packet is one that is not acknowledged
      have hcontains := SentPackets.seqNum_lostPacketsList (hwf e hs) hlosts hlost
      exact (((hloss e hs) _).mp hcontains |>.index (hwf e hs)).2
    · cases hok
      exact hlive
  · cases hok
    exact hlive

variable [Float64]

/-- **Processing an acknowledgement** that clears the timers of what it
acknowledges leaves no timer behind. -/
theorem Live.processAck {ackNum : Uint16} {selectiveAck : Option SelectiveAck} {delay : Duration}
    {err : Option SentError} (hlive : c.Live) (hwf : c.Recording)
    (hclear : c.AckClears ackNum selectiveAck)
    (hok : c.processAck ackNum selectiveAck delay now = .ok (c', err)) : c'.Live := by
  unfold Connection.processAck at hok
  split at hok
  swap
  · cases hok
    exact hlive
  rename_i e hs
  obtain ⟨⟨sp, r⟩, hack, hok⟩ := bind_eq_ok.mp hok
  have hlen := (SentPackets.acks_of_ok (hwf e hs) hack).1.length
  dsimp only at hok
  split at hok
  · cases hok
    exact .of_closed (reset_closed _ _)
  · rename_i err hne
    cases hok
    rintro _ ⟨⟩ hlen'
    refine (hlive e hs (hlen ▸ hlen')).kept (hwf e hs) (hclear e hs) (fun herr => ?_) hack
    exact hne (herr ▸ rfl)
  · cases hok
    rintro _ ⟨⟩ hlen'
    exact (hlive e hs (hlen ▸ hlen')).cleared (hwf e hs) (hclear e hs) hack

/-- What it leaves of the records. -/
theorem processAck_records {ackNum : Uint16} {selectiveAck : Option SelectiveAck}
    {delay : Duration} {err : Option SentError} (hwf : c.Recording) (hloss : c.LossKnown)
    (hok : c.processAck ackNum selectiveAck delay now = .ok (c', err)) :
    c'.Recording ∧ c'.LossKnown := by
  unfold Connection.processAck at hok
  split at hok
  swap
  · cases hok
    exact ⟨hwf, hloss⟩
  rename_i e hs
  obtain ⟨⟨sp, r⟩, hack, hok⟩ := bind_eq_ok.mp hok
  have hrec := (hwf e hs).onAck hack
  have hknown := (hloss e hs).onAck (hwf e hs) hack
  dsimp only at hok
  split at hok
  · cases hok
    have hclosed : (Connection.reset { c with state := .connected { e with sentPackets := sp } }
      .errInvalidAckNum).Closed := reset_closed _ _
    exact ⟨fun _ hs' => (hclosed.not_connected hs').elim,
      fun _ hs' => (hclosed.not_connected hs').elim⟩
  · cases hok
    exact ⟨by rintro _ ⟨⟩; exact hrec, by rintro _ ⟨⟩; exact hknown⟩
  · cases hok
    exact ⟨by rintro _ ⟨⟩; exact hrec, by rintro _ ⟨⟩; exact hknown⟩

omit [Float64] in
/-- With no packet sent there is nothing to acknowledge. -/
theorem live_establish {config : ConnectionConfig} {recvInit sentInit : Uint16}
    (hs : c.state = .connected (establish config recvInit sentInit)) :
    c.Live ∧ c.Recording ∧ c.LossKnown ∧
      ∀ ackNum selectiveAck, c.AckClears ackNum selectiveAck := by
  refine ⟨?_, ?_, ?_, ?_⟩
  · rintro e hs' - item - ⟨p, hp, -⟩
    cases hs.symm.trans hs'
    cases hp
  · intro e hs'
    cases hs.symm.trans hs'
    exact SentPackets.wf_new _ _
  · intro e hs'
    cases hs.symm.trans hs'
    exact SentPackets.lossExact_new _ _
  · rintro ackNum selectiveAck e hs' ⟨hne, hle⟩
    cases hs.symm.trans hs'
    have hzero : Circular.ahead sentInit ackNum ≤ 0 := hle
    have heq : ackNum = sentInit := by
      unfold Circular.ahead at hzero
      bv_omega
    exact absurd heq hne

theorem Live.beforeClosing {p : Packet} {rnd : Uint16} (hlive : c.Live) (hwf : c.Recording)
    (hloss : c.LossKnown)
    (hclear : p.header.packetType.carriesAck = true → c.AckClears p.header.ackNum p.eack)
    (hok : c.beforeClosing p now rnd = .ok c') : c'.Live := by
  obtain ⟨⟨c₁, _⟩, hdispatch, hok⟩ := bind_eq_ok.mp hok
  obtain ⟨⟨c₂, _⟩, hack, hok⟩ := bind_eq_ok.mp hok
  obtain ⟨c₃, hlost, hok⟩ := bind_eq_ok.mp hok
  obtain rfl := pure_eq_ok.mp hok
  have h₁ : c₁.Live ∧ c₁.Recording ∧ c₁.LossKnown ∧
      (p.header.packetType.carriesAck = true → c₁.AckClears p.header.ackNum p.eack) := by
    rcases dispatch_keeps hdispatch with hkeeps | ⟨-, recvInit, sentInit, hs₁⟩
    · have hkeeps₁ := ((keeps_observePeer p).trans hkeeps).toKeepsTimers
      exact ⟨hkeeps₁.live hlive, hkeeps₁.recording hwf, hkeeps₁.lossKnown hloss,
        fun ht => hkeeps₁.ackClears (hclear ht)⟩
    · obtain ⟨hlive₁, hwf₁, hloss₁, hclear₁⟩ := live_establish hs₁
      exact ⟨hlive₁, hwf₁, hloss₁, fun _ => hclear₁ _ _⟩
  obtain ⟨hlive₁, hwf₁, hloss₁, hclear₁⟩ := h₁
  have h₂ : c₂.Live ∧ c₂.Recording ∧ c₂.LossKnown := by
    rcases acknowledge_cases hack with ⟨ht, delay, hprocess⟩ | rfl
    · exact ⟨hlive₁.processAck hwf₁ (hclear₁ ht) hprocess,
        processAck_records hwf₁ hloss₁ hprocess⟩
    · exact ⟨hlive₁, hwf₁, hloss₁⟩
  obtain ⟨hlive₂, hwf₂, hloss₂⟩ := h₂
  have hkeeps : Keeps c₃ ((c₃.reply p now rnd).notify p).closeLocal :=
    (((keeps_reply p rnd).trans (keeps_notify p)).trans keeps_closeLocal).toKeeps
  exact hkeeps.live (hlive₂.retransmitLostPackets hwf₂ hloss₂ hlost)

theorem Live.onPacket {p : Packet} {rnd : Uint16} (hlive : c.Live) (hwf : c.Recording)
    (hloss : c.LossKnown)
    (hclear : p.header.packetType.carriesAck = true → c.AckClears p.header.ackNum p.eack)
    (hok : c.onPacket p now rnd = .ok c') : c'.Live := by
  rw [onPacket_eq] at hok
  obtain ⟨c₁, hbefore, hok⟩ := bind_eq_ok.mp hok
  obtain ⟨c₂, hremote, hok⟩ := bind_eq_ok.mp hok
  obtain rfl := pure_eq_ok.mp hok
  exact keeps_closeBoth.live ((keepsTimers_closeRemote hremote).live
    (hlive.beforeClosing hwf hloss hclear hbefore))

/-! ### Runs -/

/-- The condition on a step: a packet whose timeout is handled has not been
acknowledged, and an acknowledgement clears the timers of what it
acknowledges. -/
structure Tidy (c : Connection) (ev : Event) : Prop where
  timeout : ∀ now e p rest, ev = .onTimeout now → c.state = .connected e →
    c.unackTimeoutCh = p :: rest → p.header.packetType ≠ .st_syn →
      ¬ e.sentPackets.Acked (e.sentPackets.seqNumIndex p.header.seqNum)
  ack : ∀ p now rnd, ev = .onPacket p now rnd → p.header.packetType.carriesAck = true →
    c.AckClears p.header.ackNum p.eack

theorem Live.step {ev : Event} (hlive : c.Live) (hwf : c.Recording) (hloss : c.LossKnown)
    (htidy : Tidy c ev) (hok : c.step ev = .ok c') : c'.Live := by
  cases ev with
  | onPacket p now rnd => exact hlive.onPacket hwf hloss (htidy.ack p now rnd rfl) hok
  | onWrite data resultCh now => exact hlive.onWrite hwf hok
  | processWrites now =>
      refine Live.processWrites ?_ ?_ hok
      · exact KeepsTimers.live (c := c) (.of_state rfl rfl) hlive
      · exact hwf
  | processReads =>
      refine (keepsTimers_processReads hok).live ?_
      exact KeepsTimers.live (c := c) (.of_state rfl rfl) hlive
  | tick order =>
      simp only [Connection.step] at hok
      split at hok
      · cases hok
        intro e hs hlen item hitem
        exact hlive e hs hlen item hitem.of_tick
      · cases hok
        exact hlive
  | onTimeout now =>
      simp only [Connection.step] at hok
      split at hok
      · cases hok
        exact hlive
      · rename_i p rest hch
        refine Live.onTimeout ?_ ?_ ?_ hok
        · exact KeepsTimers.live (c := c) (.of_state rfl rfl) hlive
        · exact hwf
        · exact fun e hs => htidy.timeout now e p rest rfl hs hch
  | onIdleTimeout =>
      cases hok
      exact keeps_onIdleTimeout.live hlive
  | shutdown now => exact hlive.shutdown hwf hok

/-- The lost packets are known exactly after every action. -/
theorem act_lossExact {packet? : Option Packet} {guard : Guard} {m m' : Midcall}
    (h : Act packet? guard m m') (hsound : m.Sound)
    (hm : ∀ e, m.conn.established = some e → e.sentPackets.LossExact) :
    ∀ e, m'.conn.established = some e → e.sentPackets.LossExact := by
  intro e' he'
  cases h with
  | sends h =>
      cases h with
      | enqueue | pickLost | pickExpired => exact hm e' he'
      | flush hs | pickFin hs =>
          cases he'
          have h := hm _ (established_connected hs)
          exact h
      | send hs hok =>
          cases he'
          have he := established_connected hs
          exact (hm _ he).onTransmit (hsound _ he).sentPackets hok
  | book h =>
      refine hm e' ?_
      rw [← he']
      exact (congrArg ConnState.established h.state).symm
  | emitState | emitReset | emitSyn | endOfStream | closedRead => exact hm e' he'
  | backOff hs | beginClosing hs | recvData _ _ hs | recvFin _ _ hs | readOut _ hs =>
      cases he'
      have h := hm _ (established_connected hs)
      exact h
  | acked _ _ hs hok =>
      cases he'
      have he := established_connected hs
      exact (hm _ he).onAck (hsound _ he).sentPackets hok
  | close _ h =>
      refine hm e' ?_
      rw [← he']
      exact h.established.symm
  | establish =>
      cases he'
      exact SentPackets.lossExact_new _ _

/-- In a run whose steps meet the condition no timer is left behind. -/
theorem run_live {events : List Event} {w : Bytes} (hsound : Midcall.Sound ⟨c, none, w⟩)
    (hloss : ∀ e, c.established = some e → e.sentPackets.LossExact) (hlive : c.Live)
    (htidy : Along Tidy c events) (hok : c.run events = .ok c') :
    c'.Recording ∧ c'.Live := by
  induction events generalizing c w with
  | nil =>
      obtain rfl := pure_eq_ok.mp hok
      exact ⟨fun e hs => (hsound e (established_connected hs)).sentPackets, hlive⟩
  | cons ev events ih =>
      obtain ⟨c₁, hstep, hrun⟩ := bind_eq_ok.mp hok
      have hlive₁ := hlive.step (fun e hs => (hsound e (established_connected hs)).sentPackets)
        (fun e hs => hloss e (established_connected hs)) htidy.1 hstep
      obtain ⟨hand, -, hsound₁, hloss₁⟩ := step_inv
        (I := fun m => ∀ e, m.conn.established = some e → e.sentPackets.LossExact)
        (fun _ _ hact => act_lossExact hact) (guarded_unguarded c ev) hsound hloss hstep
      exact ih (w := w) hsound₁ hloss₁ hlive₁ (htidy.2 c₁ hstep) hrun

/-- A number in the range does not close the connection. -/
theorem processAck_connected {e : Established} {ackNum : Uint16}
    {selectiveAck : Option SelectiveAck} {delay : Duration} {err : Option SentError}
    (hs : c.state = .connected e) (hwf : e.sentPackets.WF)
    (hin : Circular.ahead e.sentPackets.initSeqNum ackNum ≤ e.sentPackets.packets.length)
    (hok : c.processAck ackNum selectiveAck delay now = .ok (c', err)) : ∃ e',
      c'.state = .connected e' ∧ e'.sentPackets.WF ∧
      e'.sentPackets.packets.length = e.sentPackets.packets.length := by
  rw [processAck, hs] at hok
  obtain ⟨⟨sp, r⟩, hack, hok⟩ := bind_eq_ok.mp hok
  obtain ⟨hacks, hinvalid, -⟩ := SentPackets.acks_of_ok hwf hack
  dsimp only at hok
  split at hok
  · exact absurd (hinvalid.mp rfl) (not_lt.mpr hin)
  · cases hok
    exact ⟨_, rfl, hacks.wf, hacks.length⟩
  · cases hok
    exact ⟨_, rfl, hacks.wf, hacks.length⟩

/-- **Acknowledged packets have no timer**, unless an acknowledgement is
answered with an error although it acknowledges packets, a flagged packet has
timers in two slots, an acknowledged packet is sent again on a timeout, or
numbers come round: in a run that stays clear of these, and while fewer than
`2 ^ 16` packets were sent, `processAck` leaves no slot with the key of an
acknowledged packet. -/
theorem run_timers (cid : ConnectionId) (config : ConnectionConfig) (syn : Option Packet)
    (rnd : Uint16) (t t₀ : Time) {events : List Event} {e : Established}
    (htidy : Along Tidy ((newConnection cid config syn rnd t).start t₀) events)
    (hrun : ((newConnection cid config syn rnd t).start t₀).run events = .ok c)
    (hs : c.state = .connected e) (hlen : e.sentPackets.packets.length < 65536)
    {ackNum : Uint16} {selectiveAck : Option SelectiveAck} {delay : Duration}
    {err : Option SentError} (hin : e.sentPackets.seqNumRange.contains ackNum = true)
    (hclear : c.AckClears ackNum selectiveAck)
    (hok : c.processAck ackNum selectiveAck delay now = .ok (c', err)) :
    ∃ e', c'.state = .connected e' ∧ ∀ slot ∈ c'.unacked.slots, ∀ key, slot.contains key = true →
      ¬ ∃ p ∈ e'.sentPackets.packets, p.seqNum = key ∧ p.acks ≠ [] := by
  obtain ⟨hwf, hlive⟩ : c.Recording ∧ c.Live := by
    refine run_live (sound_start cid config syn rnd t t₀ []) ?_ ?_ htidy hrun
    · intro e he
      cases syn with
      | none => cases he
      | some syn =>
          cases he
          exact SentPackets.lossExact_new _ _
    · cases syn with
      | none => exact fun e hs => nomatch hs
      | some syn => exact (live_establish rfl).1
  have hlive' := hlive.processAck hwf hclear hok
  obtain ⟨e', hs', hwf', hlen'⟩ := processAck_connected hs (hwf e hs)
    ((SentPackets.seqNumRange_contains _ hlen ackNum).mp hin) hok
  refine ⟨e', hs', ?_⟩
  intro slot hslot key hkey hacked
  obtain ⟨v, hv⟩ := OrdMap.contains_iff.mp hkey
  refine hlive' e' hs' (hlen'.trans_lt hlen) (key, v) ⟨slot, hslot, hv⟩ ?_
  exact hwf'.exists_number.mp hacked

omit [Float64] in
/-- The first of two packets is acknowledged. -/
theorem run_timers_first : ∃ c c' e',
    @run exactFloat64 sampleAcceptor [.onWrite [1] 0 0, .processWrites 0, .onWrite [2] 0 0,
      .processWrites 0] = .ok c ∧
    @processAck exactFloat64 c 5 none 0 0 = .ok (c', none) ∧ c'.state = .connected e' ∧
    ∀ slot ∈ c'.unacked.slots, ∀ key, slot.contains key = true →
      ¬ ∃ p ∈ e'.sentPackets.packets, p.seqNum = key ∧ p.acks ≠ [] := by
  have hrun : ∃ c c' e, @run exactFloat64 sampleAcceptor [.onWrite [1] 0 0, .processWrites 0,
      .onWrite [2] 0 0, .processWrites 0] = .ok c ∧
      @processAck exactFloat64 c 5 none 0 0 = .ok (c', none) ∧ c.state = .connected e ∧
      e.sentPackets.initSeqNum = 4 ∧ e.sentPackets.packets.map (·.acks) = [[], []] ∧
      e.sentPackets.seqNumRange.contains 5 = true :=
    ⟨_, _, _, rfl, rfl, rfl, rfl, rfl, rfl⟩
  let := exactFloat64
  obtain ⟨c, c', e, hrun, hok, hs, hinit, hacks, hin⟩ := hrun
  have hlen : e.sentPackets.packets.length = 2 := by
    simpa using congrArg List.length hacks
  have htidy : Along Tidy sampleAcceptor [.onWrite [1] 0 0, .processWrites 0, .onWrite [2] 0 0,
      .processWrites 0] := by
    refine along_of_forall fun ev hev c => ⟨?_, ?_⟩
    · rintro now e p rest rfl
      simp at hev
    · rintro p now rnd rfl
      simp at hev
  have hclear : c.AckClears 5 none := by
    intro e' hs' hacc
    cases hs.symm.trans hs'
    refine ⟨.inl ⟨1, by omega, ?_, ?_, ?_⟩, ?_⟩
    · -- the second packet has no acknowledgement
      rintro ⟨p, hp, hne⟩
      have hmap := congrArg (·[1]?) hacks
      simp [hp] at hmap
      exact hne hmap
    · rw [SentPackets.seqNumIndex_eq, hinit]
      decide
    · rintro ⟨sack, i, hsack, -⟩
      cases hsack
    · rintro key ⟨sack, i, hsack, -⟩
      cases hsack
  obtain ⟨e', hs', htimers⟩ := run_timers _ _ _ _ _ _ htidy hrun hs (by omega) hin hclear hok
  exact ⟨c, c', e', hrun, hok, hs', htimers⟩

omit [Float64] in
/-- The only packet sent is acknowledged: `processAck` reports that there is
nothing to acknowledge, and the timer of the packet stays. -/
theorem ack_leaves_timer : ∃ c c' e e',
    @run exactFloat64 sampleAcceptor [.onWrite [1] 0 0, .processWrites 0] = .ok c ∧
    c.state = .connected e ∧ e.sentPackets.seqNumRange.contains 5 = true ∧
    @processAck exactFloat64 c 5 none 0 0 = .ok (c', some .errNoneAckNum) ∧
    c'.state = .connected e' ∧ ∃ slot ∈ c'.unacked.slots, slot.contains 5 = true ∧
      ∃ p ∈ e'.sentPackets.packets, p.seqNum = 5 ∧ p.acks ≠ [] := by
  let := exactFloat64
  have hrun : ∃ c c' e e', run sampleAcceptor [.onWrite [1] 0 0, .processWrites 0] = .ok c ∧
      c.state = .connected e ∧ e.sentPackets.seqNumRange.contains 5 = true ∧
      c.processAck 5 none 0 0 = .ok (c', some .errNoneAckNum) ∧ c'.state = .connected e' ∧
      c'.unacked.slots.any (·.contains 5) = true ∧
      e'.sentPackets.packets.map (fun p => (p.seqNum, p.acks)) = [(5, [0])] :=
    ⟨_, _, _, _, rfl, rfl, rfl, rfl, rfl, rfl, rfl⟩
  obtain ⟨c, c', e, e', hrun, hs, hin, hok, hs', htimer, hacks⟩ := hrun
  obtain ⟨slot, hslot, hkey⟩ := List.any_eq_true.mp htimer
  obtain ⟨p, hp, heq⟩ : ∃ p ∈ e'.sentPackets.packets, (p.seqNum, p.acks) = (5, [0]) := by
    rw [← List.mem_map, hacks]
    exact List.mem_singleton.mpr rfl
  obtain ⟨hnum, hne⟩ := Prod.mk.inj heq
  exact ⟨c, c', e, e', hrun, hs, hin, hok, hs', slot, hslot, hkey, p, hp, hnum, by simp [hne]⟩

end Connection

end UtpGo
