/-
UtpGo/PairTimers.lean

Nothing that was sent is forgotten.  A packet is timed when it is sent for the
first time.  From then on its timer is moved to the queue of timeouts by a
tick, set again when the timeout is handled, and deleted only when the peer
acknowledges the packet.  So a packet that the peer has not accepted is timed
at any time: in the wheel under its number, or in the queue.

`Recalling` says of a handler that it forgets nothing and that it times what
it records; every handler has it except for the acknowledgement, the tick and
the timeout, which are treated on their own.

Main result: `pair_remembers`, in every state that a pair of connections
reaches before an end has sent 65534 packets.
-/
import UtpGo.ConnEffects
import UtpGo.ConnTimers
import UtpGo.DelaySetRuns
import UtpGo.Pair

namespace UtpGo

open Checked Circular Relation

/-! ### What a wheel keeps -/

namespace TimeWheel

variable {κ P : Type} [LinearOrder κ] {tw : TimeWheel κ P} {key k : κ} {value v : P}
  {delay : Duration}

theorem holds_iff_valueAt : tw.Holds (k, v) ↔ ∃ i, tw.valueAt i k = some v := by
  constructor
  · rintro ⟨slot, hslot, hitem⟩
    obtain ⟨i, hi⟩ := List.getElem?_of_mem hslot
    refine ⟨i, ?_⟩
    rw [valueAt, List.getD_eq_getElem?_getD, hi]
    exact OrdMap.get?_eq_some.mpr hitem
  · rintro ⟨i, hi⟩
    rw [valueAt, List.getD_eq_getElem?_getD] at hi
    rcases hs : tw.slots[i]? with - | slot
    · rw [hs] at hi
      cases hi
    · rw [hs] at hi
      exact ⟨slot, List.mem_of_getElem? hs, OrdMap.get?_eq_some.mp hi⟩

theorem WF.holds_put_self (h : tw.WF) : (tw.put key value delay).Holds (key, value) := by
  refine holds_iff_valueAt.mpr ⟨tw.slotFor delay, ?_⟩
  rw [valueAt_put h, if_pos ⟨rfl, rfl⟩]

theorem WF.holds_put_of_ne (h : tw.WF) (hne : k ≠ key) (hk : tw.Holds (k, v)) :
    (tw.put key value delay).Holds (k, v) := by
  obtain ⟨i, hi⟩ := holds_iff_valueAt.mp hk
  refine holds_iff_valueAt.mpr ⟨i, ?_⟩
  rw [valueAt_put h, if_neg fun hkey => hne hkey.2]
  exact hi

theorem holds_retain {shouldRemove : κ → Bool} (hkeep : shouldRemove k = false)
    (hk : tw.Holds (k, v)) : (tw.retain shouldRemove).Holds (k, v) := by
  obtain ⟨i, hi⟩ := holds_iff_valueAt.mp hk
  refine holds_iff_valueAt.mpr ⟨i, ?_⟩
  rw [valueAt_retain, hkeep]
  exact hi

theorem holds_removeAll {keys : List κ} (hkeep : k ∉ keys) (hk : tw.Holds (k, v)) :
    (keys.foldl remove tw).Holds (k, v) := by
  induction keys generalizing tw with
  | nil => exact hk
  | cons key keys ih =>
      rw [List.mem_cons, not_or] at hkeep
      refine ih hkeep.2 ?_
      obtain ⟨i, hi⟩ := holds_iff_valueAt.mp hk
      exact holds_iff_valueAt.mpr ⟨i, (valueAt_remove_of_ne hkeep.1).trans hi⟩

/-- A tick moves an item, or leaves it. -/
theorem holds_tick (hk : tw.Holds (k, v)) : (k, v) ∈ tw.due ∨ tw.tick.Holds (k, v) := by
  obtain ⟨i, hi⟩ := holds_iff_valueAt.mp hk
  by_cases hcur : i = tw.current
  · subst hcur
    exact .inl (mem_due.mpr hi)
  · refine .inr (holds_iff_valueAt.mpr ⟨i, ?_⟩)
    rw [valueAt_tick, if_neg hcur]
    exact hi

end TimeWheel

namespace Connection

variable {c c' c₁ : Connection} {e e' : Established} {now : Time} {p : Packet} {x : Uint16}

/-! ### Effects on the timers -/

section Effects

variable {origin? : Option Packet} {fin : Prop}

theorem Effect.unackTimeoutCh (h : Effect origin? fin c c') :
    c'.unackTimeoutCh = c.unackTimeoutCh := by
  cases h with
  | book h | buffers h | leave h => exact h.unackTimeoutCh
  | emitState | emitReset | emitSyn | putAgain | clear => rfl
  | transmit _ _ hok =>
      obtain ⟨e, sp, -, -, rfl⟩ := transmit_ok hok
      rfl

theorem Effects.unackTimeoutCh (h : Effects origin? fin c c') :
    c'.unackTimeoutCh = c.unackTimeoutCh := by
  induction h with
  | refl => rfl
  | tail _ h ih => exact h.unackTimeoutCh.trans ih

end Effects

/-! ### What is remembered -/

/-- A packet with this number is timed: in the wheel under its number, or in
the queue of timeouts. -/
def Recalls (c : Connection) (x : Uint16) : Prop :=
  ∃ p : Packet, (c.unacked.Holds (x, p) ∨ p ∈ c.unackTimeoutCh) ∧ p.header.seqNum = x ∧
    p.header.packetType.numbered = true

/-- Every number that a connected connection has used is timed, except for
those in `accepted`. -/
def Remembers (c : Connection) (accepted : Set Uint16) : Prop :=
  ∀ e, c.state = .connected e → ∀ x, e.sentPackets.seqNumIndex x < e.sentPackets.packets.length →
    x ∉ accepted → c.Recalls x

/-- The handler forgets no packet, and times those it records. -/
structure Recalling (c c' : Connection) : Prop where
  timers : ∀ x, c.Recalls x → c'.Recalls x
  records : ∀ e', c'.state = .connected e' → ∃ e, c.state = .connected e ∧
    ∀ x, e'.sentPackets.seqNumIndex x < e'.sentPackets.packets.length →
      e.sentPackets.seqNumIndex x < e.sentPackets.packets.length ∨ c'.Recalls x

theorem Recalling.refl (c : Connection) : Recalling c c :=
  ⟨fun _ h => h, fun e hs => ⟨e, hs, fun _ h => .inl h⟩⟩

theorem Recalling.trans (h : Recalling c c₁) (h₁ : Recalling c₁ c') : Recalling c c' where
  timers := fun x hx => h₁.timers x (h.timers x hx)
  records := by
    intro e' hs'
    obtain ⟨e₁, hs₁, hnew₁⟩ := h₁.records e' hs'
    obtain ⟨e, hs, hnew⟩ := h.records e₁ hs₁
    refine ⟨e, hs, fun x hx => ?_⟩
    rcases hnew₁ x hx with hx | hx
    · rcases hnew x hx with hx | hx
      · exact .inl hx
      · exact .inr (h₁.timers x hx)
    · exact .inr hx

theorem Recalling.remembers (h : Recalling c c') {accepted : Set Uint16}
    (hc : c.Remembers accepted) : c'.Remembers accepted := by
  intro e' hs' x hx hout
  obtain ⟨e, hs, hnew⟩ := h.records e' hs'
  rcases hnew x hx with hx | hx
  · exact h.timers x (hc e hs x hx hout)
  · exact hx

theorem Recalls.congr (hx : c.Recalls x) (hun : c'.unacked = c.unacked)
    (hch : c'.unackTimeoutCh = c.unackTimeoutCh) : c'.Recalls x := by
  unfold Recalls
  rw [hun, hch]
  exact hx

theorem KeepsTimers.recalling (h : KeepsTimers c c')
    (hch : c'.unackTimeoutCh = c.unackTimeoutCh) : Recalling c c' where
  timers := fun _ hx => hx.congr h.unacked hch
  records := by
    intro e' hs'
    obtain ⟨e, hs, heq⟩ := h.connected e' hs'
    refine ⟨e, hs, fun x hx => .inl ?_⟩
    rwa [heq] at hx

theorem remembers_closed (h : c.Closed) (accepted : Set Uint16) : c.Remembers accepted :=
  fun _ hs => (h.not_connected hs).elim

/-! ### Transmitting -/

/-- Setting the timer of a packet under its own number. -/
theorem Recalls.put {delay : Duration} (hw : c.unacked.WF)
    (hp : p.header.packetType.numbered = true)
    (hun : c'.unacked = c.unacked.put p.header.seqNum p delay)
    (hch : c'.unackTimeoutCh = c.unackTimeoutCh) (hx : c.Recalls x ∨ x = p.header.seqNum) :
    c'.Recalls x := by
  unfold Recalls
  rw [hun, hch]
  by_cases heq : x = p.header.seqNum
  · subst heq
    exact ⟨p, .inl hw.holds_put_self, rfl, hp⟩
  · obtain ⟨q, hq, hnum, htype⟩ := hx.resolve_right heq
    exact ⟨q, hq.imp_left (hw.holds_put_of_ne heq), hnum, htype⟩

theorem recalling_transmit (hw : c.unacked.WF) (hp : p.header.packetType.numbered = true)
    (hok : c.transmit p now = .ok c') : Recalling c c' ∧ c'.Recalls p.header.seqNum := by
  obtain ⟨e, sp, hs, hsp, rfl⟩ := transmit_ok hok
  refine ⟨⟨fun x hx => .put hw hp rfl rfl (.inl hx), ?_⟩, .put hw hp rfl rfl (.inr rfl)⟩
  rintro _ ⟨⟩
  refine ⟨e, hs, fun x hx => ?_⟩
  rcases SentPackets.onTransmit_inv hsp with ⟨-, ctrl, -, rfl⟩ | ⟨hidx, -, ctrl, -, rfl⟩
  · refine .inl (hx.trans_eq ?_)
    exact List.length_modify ..
  · -- one more number, which is that of the packet
    rcases Nat.lt_succ_iff_lt_or_eq.mp (hx.trans_eq List.length_append) with hx | hx
    · exact .inl hx
    · exact .inr (.put hw hp rfl rfl (.inr (SentPackets.seqNumIndex_inj.mp (hx.trans hidx.symm))))

theorem wheel_transmit (hw : c.unacked.WF) (hok : c.transmit p now = .ok c') :
    c'.unacked.WF := by
  obtain ⟨e, sp, -, -, rfl⟩ := transmit_ok hok
  exact hw.put

theorem recalling_transmitPayloads {e₀ : Established} {payloads : List Bytes} {seqNum : Uint16}
    (hw : c.unacked.WF) (hok : transmitPayloads e₀ now payloads seqNum c = .ok c') :
    Recalling c c' := by
  induction payloads generalizing seqNum c with
  | nil =>
      obtain rfl := pure_eq_ok.mp hok
      exact .refl c
  | cons payload payloads ih =>
      obtain ⟨c₁, htransmit, hok⟩ := bind_eq_ok.mp hok
      exact (recalling_transmit hw rfl htransmit).1.trans (ih (wheel_transmit hw htransmit) hok)

theorem recalling_transmitLost {e₀ : Established} {losts : List LostPacket} (hw : c.unacked.WF)
    (htyped : ∀ lost ∈ losts, lost.packetType.numbered = true)
    (hok : transmitLost e₀ now losts c = .ok c') : Recalling c c' := by
  induction losts generalizing c with
  | nil =>
      obtain rfl := pure_eq_ok.mp hok
      exact .refl c
  | cons lost losts ih =>
      obtain ⟨c₁, htransmit, hok⟩ := bind_eq_ok.mp hok
      have hfirst := recalling_transmit hw (htyped lost List.mem_cons_self) htransmit
      exact hfirst.1.trans (ih (wheel_transmit hw htransmit)
        (fun l hl => htyped l (List.mem_cons_of_mem _ hl)) hok)

/-- The records of a connected connection are of data and FIN packets. -/
def RecordsTyped (c : Connection) : Prop := ∀ e, c.state = .connected e →
  ∀ chunk ∈ e.sentPackets.chunks, chunk.1.numbered = true

theorem recalling_retransmitLostPackets (hw : c.unacked.WF) (htyped : c.RecordsTyped)
    (hok : c.retransmitLostPackets now = .ok c') : Recalling c c' := by
  unfold retransmitLostPackets at hok
  split at hok
  swap
  · cases hok
    exact .refl c
  rename_i e hs
  split at hok
  · obtain ⟨losts, hlosts, hok⟩ := bind_eq_ok.mp hok
    refine recalling_transmitLost hw (fun lost hl => ?_) hok
    exact htyped e hs _ (SentPackets.mem_lostPacketsList hlosts hl)
  · cases hok
    exact .refl c

/-! ### Writes and the FIN -/

theorem recalling_processWrites (hw : c.unacked.WF) (hok : c.processWrites now = .ok c') :
    Recalling c c' := by
  unfold processWrites at hok
  split at hok
  · cases hok
    exact .refl c
  · cases hok
    exact KeepsTimers.recalling (.of_state rfl rfl) rfl
  · rename_i e hs
    obtain ⟨⟨payloads, sb⟩, -, hok⟩ := bind_eq_ok.mp hok
    obtain ⟨r, -, hok⟩ := bind_eq_ok.mp hok
    have hfill : Recalling c { c with
        state := .connected { e with sendBuf := r.sendBuf }
        pendingWrites := r.pendingWrites
        results := r.results
        writable := r.writable } := KeepsTimers.recalling (.of_connected hs rfl rfl rfl) rfl
    exact hfill.trans (recalling_transmitPayloads hw hok)

theorem recalling_onWrite {data : Bytes} {resultCh : Nat} (hw : c.unacked.WF)
    (hok : c.onWrite data resultCh now = .ok c') : Recalling c c' := by
  obtain ⟨c₂, hwrites, hok⟩ := bind_eq_ok.mp hok
  obtain rfl := pure_eq_ok.mp hok
  have hlast : Recalling c₂ { c₂ with writable := signal c₂.writable } :=
    KeepsTimers.recalling (.of_state rfl rfl) rfl
  refine Recalling.trans ?_ hlast
  split at hwrites
  · have hqueued : Recalling c { c with
        pendingWrites := c.pendingWrites ++ [{ data, written := 0, resultCh }] } :=
      KeepsTimers.recalling (.of_state rfl rfl) rfl
    exact hqueued.trans (recalling_processWrites hw hwrites)
  · have hrejected : Recalling c { c with results := c.results ++ [(resultCh, c.rejectResult)] } :=
      KeepsTimers.recalling (.of_state rfl rfl) rfl
    exact hrejected.trans (recalling_processWrites hw hwrites)

theorem recalling_shutdown (hw : c.unacked.WF) (hok : c.shutdown now = .ok c') :
    Recalling c c' := by
  rcases shutdown_inv hok with rfl | ⟨-, rfl⟩ | ⟨e, hs, -, rfl⟩ | ⟨e, hs, -, -, -, htransmit⟩
  · exact .refl _
  · exact KeepsTimers.recalling (.of_closed rfl ⟨_, _, rfl⟩) rfl
  · exact KeepsTimers.recalling (.of_connected hs rfl rfl rfl) rfl
  · let c₁ : Connection := { c with state := .connected { e with
      closing := some ⟨some e.sentPackets.nextSeqNum, e.remoteFin⟩ } }
    have hclosing : Recalling c c₁ := KeepsTimers.recalling (.of_connected hs rfl rfl rfl) rfl
    have hfin : Recalling c₁ c' := (recalling_transmit (c := c₁) hw rfl htransmit).1
    exact hclosing.trans hfin

/-! ### Timeouts -/

/-- The head of the queue of timeouts, when it is not a SYN, is sent again and
timed again. -/
theorem recalling_onTimeout (hw : c.unacked.WF) (hs : c.state = .connected e)
    (hp : p.header.packetType = .st_syn ∨ p.header.packetType.numbered = true)
    (hok : c.onTimeout p now = .ok c') : Recalling c c' ∧
      (p.header.packetType.numbered = true → c'.Recalls p.header.seqNum) := by
  rw [onTimeout, hs] at hok
  dsimp only at hok
  split at hok
  · rename_i hsyn
    cases hok
    refine ⟨.refl _, fun hnum => ?_⟩
    rw [hsyn] at hnum
    cases hnum
  rename_i hsyn
  have hnum := hp.resolve_left hsyn
  have hnote : Recalling c (c.noteTimeout e now) ∧ (c.noteTimeout e now).unacked = c.unacked := by
    rcases c.noteTimeout_cases e now with h | h
    · rw [h]
      refine ⟨⟨fun _ hx => hx, ?_⟩, rfl⟩
      rintro _ ⟨⟩
      exact ⟨e, hs, fun x hx => .inl hx⟩
    · rw [h]
      exact ⟨.refl c, rfl⟩
  have hsend := recalling_transmit (p := c.retransmissionPacket e p now) (hnote.2.symm ▸ hw)
    hnum hok
  exact ⟨hnote.1.trans hsend.1, fun _ => hsend.2⟩

/-- No timeout ends the handshake with success. -/
theorem connected_of_onTimeout (hok : c.onTimeout p now = .ok c')
    (hs' : c'.state = .connected e') : ∃ e, c.state = .connected e := by
  unfold onTimeout at hok
  split at hok
  · rename_i hs
    split at hok
    · cases hok
      cases hs.symm.trans hs'
    split at hok
    · cases hok
      cases hs'
    · obtain ⟨unacked, -, hok⟩ := bind_eq_ok.mp hok
      cases hok
      cases hs.symm.trans hs'
  · rename_i e hs
    exact ⟨e, hs⟩
  · rename_i e err hs
    cases hok
    cases hs.symm.trans hs'

theorem remembers_onTimeout {accepted : Set Uint16} {rest : List Packet}
    (hc : c.Remembers accepted) (hw : c.unacked.WF) (hch : c.unackTimeoutCh = p :: rest)
    (hp : p.header.packetType = .st_syn ∨ p.header.packetType.numbered = true)
    (hok : Connection.onTimeout { c with unackTimeoutCh := rest } p now = .ok c') :
    c'.Remembers accepted := by
  intro e' hs' x hx hout
  obtain ⟨e, hs⟩ := connected_of_onTimeout hok hs'
  obtain ⟨hrec, hagain⟩ := recalling_onTimeout (c := { c with unackTimeoutCh := rest }) hw hs hp hok
  obtain ⟨e₁, hs₁, hnew⟩ := hrec.records e' hs'
  refine (hnew x hx).elim (fun hx => ?_) id
  obtain ⟨q, hq, hnum, htype⟩ := hc e₁ hs₁ x hx hout
  rw [hch, List.mem_cons] at hq
  -- the packet that times out is `p`, or another one that is still timed
  rcases hq with hq | rfl | hq
  · exact hrec.timers x ⟨q, .inl hq, hnum, htype⟩
  · exact hnum ▸ hagain htype
  · exact hrec.timers x ⟨q, .inr hq, hnum, htype⟩

/-- A tick moves timers to the queue. -/
theorem recalls_tick {order : List (Uint16 × Packet)} (horder : order.Perm c.unacked.due)
    (hx : c.Recalls x) : Recalls { c with
      unacked := c.unacked.tick, unackTimeoutCh := c.unackTimeoutCh ++ order.map (·.2) } x := by
  obtain ⟨p, hp, hnum, htype⟩ := hx
  refine ⟨p, ?_, hnum, htype⟩
  rcases hp with hp | hp
  · rcases TimeWheel.holds_tick hp with hdue | hkept
    · exact .inr (List.mem_append_right _ (List.mem_map.mpr ⟨_, horder.mem_iff.mpr hdue, rfl⟩))
    · exact .inl hkept
  · exact .inr (List.mem_append_left _ hp)

/-! ### Packets -/

/-- The numbers that a packet acknowledges, in full or selectively, are among
`accepted`. -/
structure AcksOnly (c : Connection) (accepted : Set Uint16) (p : Packet) : Prop where
  full : p.header.packetType.carriesAck = true → ∀ e, c.state = .connected e → ∀ x,
    e.sentPackets.seqNumIndex x < e.sentPackets.packets.length →
    (newCircularRangeInclusive e.sentPackets.initSeqNum p.header.ackNum).contains x = true →
      x ∈ accepted
  selected : p.header.packetType.carriesAck = true → ∀ s, p.eack = some s →
    ∀ x ∈ SentPackets.selectedAcks p.header.ackNum s, x ∈ accepted

theorem KeepsTimers.acksOnly {accepted : Set Uint16} (h : KeepsTimers c c')
    (hacks : c.AcksOnly accepted p) : c'.AcksOnly accepted p where
  full := by
    intro hcarries e' hs' x hx hin
    obtain ⟨e, hs, heq⟩ := h.connected e' hs'
    rw [heq] at hx hin
    exact hacks.full hcarries e hs x hx hin
  selected := hacks.selected

theorem KeepsTimers.recordsTyped (h : KeepsTimers c c') (htyped : c.RecordsTyped) :
    c'.RecordsTyped := by
  intro e' hs'
  obtain ⟨e, hs, heq⟩ := h.connected e' hs'
  exact heq ▸ htyped e hs

/-- What `onPacket` needs to remember all it has to. -/
structure Mindful (c : Connection) (accepted : Set Uint16) (p : Packet) : Prop where
  remembers : c.Remembers accepted
  recording : c.Recording
  typed : c.RecordsTyped
  acks : c.AcksOnly accepted p

/-- Up to the acknowledgement the records and the timers are the old ones, or
there are none yet. -/
theorem Mindful.dispatch {accepted : Set Uint16} {err : Option HandleError}
    (h : c.Mindful accepted p) (hok : (c.observePeer p now).dispatch p = .ok (c', err)) :
    c'.Mindful accepted p := by
  have heffects : Effects none False (c.observePeer p now) c' := dispatch_effects hok
  rcases dispatch_keeps hok with hkeeps | ⟨-, recvInit, sentInit, hs⟩
  · have hkeeps := ((keeps_observePeer p).trans hkeeps).toKeepsTimers
    exact ⟨(hkeeps.recalling heffects.unackTimeoutCh).remembers h.remembers,
      hkeeps.recording h.recording, hkeeps.recordsTyped h.typed, hkeeps.acksOnly h.acks⟩
  · refine ⟨?_, (live_establish hs).2.1, ?_, ?_, h.acks.selected⟩
    · intro e hs' x hx
      cases hs.symm.trans hs'
      cases hx
    · intro e hs' chunk hchunk
      cases hs.symm.trans hs'
      cases hchunk
    · intro _ e hs' x hx
      cases hs.symm.trans hs'
      cases hx

/-- After the retransmissions a packet is answered, and the connection may be
closed. -/
theorem recalling_finish {c₄ : Connection} {rnd : Uint16}
    (hremote : (((c.reply p now rnd).notify p).closeLocal).closeRemote = .ok c₄) :
    Recalling c c₄.closeBoth := by
  have heffects : Effects none False c c₄.closeBoth :=
    (((reply_effects p rnd).trans (notify_effects p)).trans closeLocal_effects).trans
      ((closeRemote_effects hremote).trans closeBoth_effects)
  have hkeeps : KeepsTimers c (((c.reply p now rnd).notify p).closeLocal) :=
    (((keeps_reply p rnd).trans (keeps_notify p)).trans keeps_closeLocal).toKeepsTimers
  exact ((hkeeps.trans (keepsTimers_closeRemote hremote)).trans
    keeps_closeBoth.toKeepsTimers).recalling heffects.unackTimeoutCh

variable [Float64]

/-- An acknowledgement deletes the timers of packets that the peer has
accepted. -/
theorem remembers_processAck {accepted : Set Uint16} {ackNum : Uint16}
    {selectiveAck : Option SelectiveAck} {delay : Duration} {err : Option SentError}
    (hc : c.Remembers accepted) (hwf : c.Recording)
    (hfull : ∀ e, c.state = .connected e → ∀ x,
      e.sentPackets.seqNumIndex x < e.sentPackets.packets.length →
      (newCircularRangeInclusive e.sentPackets.initSeqNum ackNum).contains x = true →
        x ∈ accepted)
    (hselected : ∀ s, selectiveAck = some s → ∀ x ∈ SentPackets.selectedAcks ackNum s,
      x ∈ accepted)
    (hok : c.processAck ackNum selectiveAck delay now = .ok (c', err)) :
    c'.Remembers accepted := by
  unfold processAck at hok
  split at hok
  swap
  · cases hok
    exact hc
  rename_i e hs
  obtain ⟨⟨sp, r⟩, hack, hok⟩ := bind_eq_ok.mp hok
  have hacks := (SentPackets.acks_of_ok (hwf e hs) hack).1
  have hsame : ∀ x, sp.seqNumIndex x < sp.packets.length →
      e.sentPackets.seqNumIndex x < e.sentPackets.packets.length := by
    intro x hx
    rwa [hacks.index, hacks.length] at hx
  dsimp only at hok
  split at hok
  · cases hok
    exact remembers_closed (reset_closed _ _) _
  · cases hok
    rintro _ ⟨⟩ x hx hout
    exact hc e hs x (hsame x hx) hout
  · obtain ⟨rfl, rfl⟩ := SentPackets.onAck_result (hwf e hs) hack
    cases hok
    rintro _ ⟨⟩ x hx hout
    obtain ⟨q, hq, hnum, htype⟩ := hc e hs x (hsame x hx) hout
    refine ⟨q, hq.imp_left fun hq => ?_, hnum, htype⟩
    refine TimeWheel.holds_removeAll ?_ (TimeWheel.holds_retain ?_ hq)
    · intro hmem
      rcases selectiveAck with - | s
      · cases hmem
      · exact hout (hselected s rfl x hmem)
    · rw [Bool.eq_false_iff]
      exact fun hin => hout (hfull e hs x (hsame x hx) hin)

theorem Mindful.acknowledge {accepted : Set Uint16} {err : Option SentError}
    (h : c.Mindful accepted p) (hok : c.acknowledge p now = .ok (c', err)) :
    c'.Remembers accepted ∧ c'.RecordsTyped := by
  rcases acknowledge_cases hok with ⟨hcarries, delay, hok⟩ | rfl
  swap
  · exact ⟨h.remembers, h.typed⟩
  refine ⟨remembers_processAck h.remembers h.recording (h.acks.full hcarries)
    (h.acks.selected hcarries) hok, ?_⟩
  unfold processAck at hok
  split at hok
  swap
  · cases hok
    exact h.typed
  rename_i e hs
  obtain ⟨⟨sp, r⟩, hack, hok⟩ := bind_eq_ok.mp hok
  have hchunks := (SentPackets.acks_of_ok (h.recording e hs) hack).1.chunks
  have htyped : ∀ chunk ∈ sp.chunks, chunk.1.numbered = true := hchunks ▸ h.typed e hs
  dsimp only at hok
  split at hok
  · cases hok
    have hclosed : Closed (reset { c with state := .connected { e with sentPackets := sp } }
      .errInvalidAckNum) := reset_closed _ _
    exact fun _ hs' => (hclosed.not_connected hs').elim
  · cases hok
    rintro _ ⟨⟩
    exact htyped
  · cases hok
    rintro _ ⟨⟩
    exact htyped

theorem remembers_onPacket {accepted : Set Uint16} {rnd : Uint16} (h : c.Mindful accepted p)
    (hw : c.unacked.WF) (hok : c.onPacket p now rnd = .ok c') : c'.Remembers accepted := by
  obtain ⟨⟨c₁, _⟩, hdispatch, hok⟩ := bind_eq_ok.mp hok
  obtain ⟨⟨c₂, _⟩, hack, hok⟩ := bind_eq_ok.mp hok
  obtain ⟨c₃, hlost, hok⟩ := bind_eq_ok.mp hok
  obtain ⟨c₄, hremote, hok⟩ := bind_eq_ok.mp hok
  obtain rfl := pure_eq_ok.mp hok
  obtain ⟨hrem, htyped⟩ := (h.dispatch hdispatch).acknowledge hack
  have heffects : Effects none False (c.observePeer p now) c₂ :=
    (dispatch_effects hdispatch).trans (acknowledge_effects hack)
  have hw₂ : c₂.unacked.WF := heffects.wheel hw
  exact ((recalling_retransmitLostPackets hw₂ htyped hlost).trans
    (recalling_finish hremote)).remembers hrem

/-- **A step forgets nothing**, provided that what a packet acknowledges is
among `accepted`. -/
theorem step_remembers {accepted : Set Uint16} {ev : Event} {w : Bytes}
    (hc : c.Remembers accepted) (hw : c.unacked.WF) (hsound : Midcall.Sound ⟨c, none, w⟩)
    (htyped : Midcall.Typed ⟨c, none, w⟩) (hacks : ∀ p, ev.packet? = some p →
      c.AcksOnly accepted p) (hok : c.step ev = .ok c') : c'.Remembers accepted := by
  cases ev with
  | onPacket p now rnd =>
      refine remembers_onPacket ⟨hc, ?_, ?_, hacks p rfl⟩ hw hok
      · exact fun e hs => (hsound e (established_connected hs)).sentPackets
      · exact fun e hs => htyped.chunks e (established_connected hs)
  | onWrite data resultCh now => exact (recalling_onWrite hw hok).remembers hc
  | processWrites now =>
      have hsignal : Recalling c { c with writable := c.writable - 1 } :=
        KeepsTimers.recalling (.of_state rfl rfl) rfl
      exact (hsignal.trans (recalling_processWrites hw hok)).remembers hc
  | processReads =>
      have hsignal : Recalling c { c with readable := c.readable - 1 } :=
        KeepsTimers.recalling (.of_state rfl rfl) rfl
      have heffects : Effects none False { c with readable := c.readable - 1 } c' :=
        processReads_effects hok
      have hread := (keepsTimers_processReads hok).recalling heffects.unackTimeoutCh
      exact (hsignal.trans hread).remembers hc
  | tick order =>
      rcases step_tick hok with rfl | ⟨horder, rfl⟩
      · exact hc
      · intro e hs x hx hout
        exact recalls_tick horder (hc e hs x hx hout)
  | onTimeout now =>
      rcases step_onTimeout hok with rfl | ⟨p, rest, hch, hok⟩
      · exact hc
      · refine remembers_onTimeout hc hw hch (htyped.timed p (.inl ?_)) hok
        show p ∈ c.unackTimeoutCh
        rw [hch]
        exact List.mem_cons_self
  | onIdleTimeout =>
      cases hok
      have heffects : Effects none False c c.onIdleTimeout := onIdleTimeout_effects
      exact (keeps_onIdleTimeout.toKeepsTimers.recalling heffects.unackTimeoutCh).remembers hc
  | shutdown now => exact (recalling_shutdown hw hok).remembers hc

end Connection

/-! ### The contract of an end -/

section Contract

variable {h : Handshake} {t : EndpointType} {config config' : ConnectionConfig} {a b : Peer}
  {u v v' : View} {p : Packet}

/-- What a packet of the peer acknowledges, the peer has accepted. -/
theorem Acking.acksOnly {c : Connection} (hp : Acking h t.other v p)
    (hnum : ∀ e, c.established = some e → Numbered h t e)
    (hlen : c.view.chunks.length < 65534) : c.AcksOnly v.accepted p where
  full := by
    intro hcarries e hs x hx hin
    have he := established_connected hs
    rw [Connection.view_established he, Established.view, SentPackets.length_chunks] at hlen
    have hfirst := (hnum e he).sent
    rw [SentPackets.seqNumIndex_eq_ahead hfirst] at hx
    rw [CircularRangeInclusive.contains_iff] at hin
    change ahead e.sentPackets.initSeqNum x ≤ ahead e.sentPackets.initSeqNum p.header.ackNum at hin
    refine hp.cumulative hcarries x ?_
    rw [EndpointType.other_other, ahead_first_succ hfirst]
    rw [ahead_init hfirst (by omega)] at hin
    exact hin
  selected := by
    intro hcarries s hsack x hx
    obtain ⟨i, hflag, rfl⟩ := SentPackets.mem_selectedAcks.mp hx
    exact hp.selective hcarries s hsack i hflag

/-- An end that is lawful, and remembers what a peer with the view `v` has not
accepted. -/
structure Peer.Careful (h : Handshake) (t : EndpointType) (config : ConnectionConfig) (a : Peer)
    (v : View) : Prop extends a.Lawful h t config v where
  wheel : a.conn.unacked.WF
  remembers : a.conn.view.chunks.length < 65534 → v.chunks.length < 65534 →
    a.conn.Remembers v.accepted

theorem Peer.Careful.mono (ha : a.Careful h t config v) (hv : v ≤ v') :
    a.Careful h t config v' where
  toLawful := ha.toLawful.mono hv
  wheel := ha.wheel
  remembers := by
    intro hown hpeer e hs x hx hout
    exact ha.remembers hown (hv.1.length_le.trans_lt hpeer) e hs x hx fun hin => hout (hv.2 hin)

/-- **The contract of an end**: its events forget nothing. -/
theorem careful_keeps [Float64] (h : Handshake) (t : EndpointType)
    (config config' : ConnectionConfig) :
    LossyPair.Keeps Peer.party (fun a => a.conn.view) (Peer.Careful h t config)
      (Peer.Careful h t.other config') where
  stable := fun hv ha => ha.mono hv
  step := by
    intro a b a' packet? ha hb hsent hstep
    obtain ⟨hlawful, hle⟩ := (lawful_keeps h t config config').step ha.toLawful hb.toLawful
      hsent hstep
    obtain ⟨ev, rfl, hok, -⟩ := hstep
    refine ⟨⟨hlawful, Connection.step_wheel hok ha.wheel, fun hlen hlen' => ?_⟩, hle⟩
    have hbefore := hle.1.length_le.trans_lt hlen
    have hsup := hb.supplied hlen' hbefore hsent
    refine Connection.step_remembers (ha.remembers hbefore hlen') ha.wheel ha.sound ha.typed ?_ hok
    intro p hp
    exact (hsup.genuine p hp).toAcking.acksOnly ha.shaken.numbers hbefore

end Contract

end UtpGo
