/-
UtpGo/ConnWrites.lean

The sending side of a connection as actions: `transmit` sends the next item
in hand, `processWrites` settles the fresh data and sends it, `shutdown` the
FIN.

The two loops of `processWrites` are described first, as functions on the
buffers: the payloads taken from the send buffer are a prefix of the stream
it holds (`readPayloads_spec`), and filling it up moves bytes from the
pending writes without losing one (`refillLoop_spec`).
-/
import UtpGo.ConnActs
import UtpGo.Traces

namespace UtpGo

open Checked

/-! ### The loops of `processWrites` -/

theorem readPayloads_spec (maxData : Uint32) (fuel : Nat) (windowSize : Uint32) {sb : SendBuffer}
    (h : sb.WF) : ∃ payloads sb',
      Connection.readPayloads maxData fuel windowSize sb = .ok (payloads, sb') ∧
      (∀ payload ∈ payloads, payload ≠ []) ∧ sb.unread = payloads.flatten ++ sb'.unread ∧
      payloads.flatten.length ≤ windowSize.toNat ∧ sb'.WF ∧
      (sb.pending = [] → payloads = [] ∧ sb'.pending = []) := by
  induction fuel generalizing windowSize sb with
  | zero => exact ⟨[], sb, rfl, by simp, rfl, by simp, h, fun he => ⟨rfl, he⟩⟩
  | succ fuel ih =>
      unfold Connection.readPayloads
      split
      swap
      · exact ⟨[], sb, rfl, by simp, rfl, by simp, h, fun he => ⟨rfl, he⟩⟩
      obtain ⟨data, sb₁, hr, hdid⟩ := SendBuffer.read_spec h (min windowSize maxData).toNat
      dsimp only
      rw [hr, ok_bind]
      dsimp only
      split
      · rename_i hz
        have hnil : data = [] := List.length_eq_zero_iff.mp hz
        refine ⟨[], sb₁, rfl, by simp, ?_, by simp, hdid.wf, fun he => ⟨rfl, (hdid.empty he).1⟩⟩
        rw [hdid.stream, hnil]
        rfl
      · rename_i hz
        have hlen : data.length ≤ windowSize.toNat := by
          refine hdid.length.trans ?_
          have : min windowSize maxData ≤ windowSize := min_le_left _ _
          bv_omega
        obtain ⟨payloads, sb', hok, hne, hstream, hwin, hwf, hnone⟩ :=
          ih (windowSize - BitVec.ofNat 32 data.length) hdid.wf
        refine ⟨data :: payloads, sb', ?_, ?_, ?_, ?_, hwf, ?_⟩
        · rw [hok]
          rfl
        · intro payload hp
          rcases List.mem_cons.mp hp with rfl | hp
          · rintro rfl
            exact hz rfl
          · exact hne payload hp
        · rw [hdid.stream, hstream, List.flatten_cons, List.append_assoc]
        · rw [List.flatten_cons, List.length_append]
          have hw := windowSize.isLt
          have hsub : (windowSize - BitVec.ofNat 32 data.length).toNat
              = windowSize.toNat - data.length := by
            bv_omega
          omega
        · intro he
          exact absurd (hdid.empty he).2 (by rintro rfl; exact hz rfl)

/-- The bytes waiting in the send buffer and in the pending writes. -/
def Connection.Refill.stream (r : Connection.Refill) : Bytes :=
  r.sendBuf.unread ++ r.pendingWrites.flatMap (·.data)

/-- One pass of the loop that fills the send buffer takes the first write
whole, or the part of it for which there is space. -/
inductive Connection.RefillPass (r : Connection.Refill) : Connection.Refill → Prop where
  | whole {writeReq : QueuedWrite} {rest : List QueuedWrite}
      (hp : r.pendingWrites = writeReq :: rest) :
      RefillPass r {
        sendBuf := { r.sendBuf with pending := r.sendBuf.pending ++ [writeReq.data] }
        pendingWrites := rest
        results := r.results ++
          [(writeReq.resultCh, { len := writeReq.data.length + writeReq.written })]
        writable := signal r.writable }
  | part {writeReq : QueuedWrite} {rest : List QueuedWrite} {n : Nat}
      (hp : r.pendingWrites = writeReq :: rest) (hn : n < writeReq.data.length) :
      RefillPass r { r with
        sendBuf := { r.sendBuf with pending := r.sendBuf.pending ++ [writeReq.data.take n] }
        pendingWrites := { writeReq with
          data := writeReq.data.drop n, written := writeReq.written + n } :: rest
        writable := signal r.writable }

/-- The loop stops, or it goes on after a pass. -/
theorem refillLoop_succ (fuel : Nat) (r : Connection.Refill) :
    Connection.refillLoop (fuel + 1) r = .ok r ∨ ∃ r₁, Connection.RefillPass r r₁ ∧
      Connection.refillLoop (fuel + 1) r = Connection.refillLoop fuel r₁ := by
  rw [Connection.refillLoop]
  rcases hp : r.pendingWrites with - | ⟨writeReq, rest⟩
  · exact .inl rfl
  dsimp only
  split
  · exact .inl rfl
  rename_i hspace
  right
  split
  · rename_i hfit
    rw [SendBuffer.write_of_le hfit, ok_bind]
    exact ⟨_, .whole hp, rfl⟩
  · -- the write is split where the space ends
    rename_i hfit
    have hlt : r.sendBuf.available.toNat < writeReq.data.length := by omega
    have hpart : ((writeReq.data.take r.sendBuf.available.toNat).length : Int)
        ≤ r.sendBuf.available := by
      rw [List.length_take]
      omega
    rw [slice_of_le (Nat.zero_le _) hlt.le, ok_bind, slice_of_le hlt.le (le_refl _), ok_bind,
      List.drop_zero, List.take_length, SendBuffer.write_of_le hpart, ok_bind]
    exact ⟨_, .part hp hlt, rfl⟩

theorem Connection.RefillPass.kept {r r₁ : Connection.Refill} (hpass : Connection.RefillPass r r₁)
    (h : r.sendBuf.WF) : r₁.sendBuf.WF ∧ r₁.stream = r.stream := by
  unfold Connection.Refill.stream
  cases hpass with
  | whole hp =>
      refine ⟨SendBuffer.wf_append h _, ?_⟩
      rw [hp, SendBuffer.unread_append h, List.flatMap_cons, List.append_assoc]
  | part hp hn =>
      refine ⟨SendBuffer.wf_append h _, ?_⟩
      rw [hp, SendBuffer.unread_append h, List.flatMap_cons, List.flatMap_cons, List.append_assoc,
        ← List.append_assoc (List.take _ _), List.take_append_drop]

theorem refillLoop_spec (fuel : Nat) {r : Connection.Refill} (h : r.sendBuf.WF) :
    ∃ r', Connection.refillLoop fuel r = .ok r' ∧ r'.sendBuf.WF ∧ r'.stream = r.stream ∧
      (r.pendingWrites = [] → r' = r) := by
  induction fuel generalizing r with
  | zero => exact ⟨r, rfl, h, rfl, fun _ => rfl⟩
  | succ fuel ih =>
      rcases refillLoop_succ fuel r with hstop | ⟨r₁, hpass, hloop⟩
      · exact ⟨r, hstop, h, rfl, fun _ => rfl⟩
      · obtain ⟨hwf, hstream⟩ := hpass.kept h
        obtain ⟨r', hok, hwf', hstream', -⟩ := ih hwf
        refine ⟨r', hloop.trans hok, hwf', hstream'.trans hstream, fun he => ?_⟩
        cases hpass with
        | whole hp => cases he.symm.trans hp
        | part hp => cases he.symm.trans hp

/-! ### Computations as actions -/

/-- The panics a handler may end in: one of Go's own, or the refusal of
`onTransmit` to send the next item. -/
def Fails (m : Midcall) (panic : Panic TransmitPanic) : Prop :=
  (∀ v, panic ≠ .raised v) ∨ ∃ e item rest now, m.conn.state = .connected e ∧
    m.hand = some (item :: rest) ∧
    e.sentPackets.onTransmit item.seqNum item.packetType item.body
      (BitVec.ofNat 32 item.body.length) now = .error panic

variable [Float64] {packet? : Option Packet} {guard : Guard}

/-- The computation only acts on the connection, and ends as `K` says. -/
abbrev Plays {α : Type} (packet? : Option Packet) (guard : Guard)
    (m : Midcall) (prog : GoM α) (K : α → Midcall → Prop) : Prop :=
  Follows (Act packet? guard) Fails m prog K

/-- A call is over when it has nothing left to send. -/
structure Done (w : Bytes) (c : Connection) (m : Midcall) : Prop where
  conn : m.conn = c
  items : m.items = []
  accepted : m.accepted = w

theorem Plays.bind {α β : Type} {m : Midcall} {prog : GoM α} {f : α → GoM β}
    {K : α → Midcall → Prop} {L : β → Midcall → Prop} (hm : m.Sound)
    (h : Plays packet? guard m prog K)
    (hf : ∀ a m', m'.Sound → K a m' → Plays packet? guard m' (f a) L) :
    Plays packet? guard m (prog >>= f) L :=
  Follows.bind (fun _ _ hact hs => hact.sound hs) hm h hf

namespace Connection

variable {c : Connection} {e : Established} {w : Bytes} {now : Time}

/-! ### Transmitting -/

omit [Float64] in
theorem carries_dataPacket (c : Connection) (e : Established) (seqNum : Uint16) (payload : Bytes)
    (now : Time) :
    Carries e.recvBuf ⟨seqNum, .st_data, payload, none, 1⟩ (c.dataPacket e seqNum payload now) :=
  ⟨rfl, rfl, rfl, rfl, rfl, rfl, rfl⟩

omit [Float64] in
theorem carries_finPacket (c : Connection) (e : Established) (now : Time) :
    Carries e.recvBuf (finItem e.sentPackets.nextSeqNum) (c.finPacket e now) :=
  ⟨rfl, rfl, rfl, rfl, rfl, rfl, rfl⟩

omit [Float64] in
/-- What transmitting does. -/
theorem transmit_ok {c' : Connection} {p : Packet} (hok : c.transmit p now = .ok c') :
    ∃ e sp, c.state = .connected e ∧
      e.sentPackets.onTransmit p.header.seqNum p.header.packetType p.body
        (BitVec.ofNat 32 p.body.length) now = .ok sp ∧
      c' = ({ c with
        state := .connected { e with sentPackets := sp }
        unacked := c.unacked.put p.header.seqNum p sp.timeout } : Connection).emit p := by
  unfold transmit at hok
  split at hok
  · rename_i e hs
    obtain ⟨sp, hsp, hok⟩ := bind_eq_ok.mp hok
    exact ⟨e, sp, hs, hsp, (pure_eq_ok.mp hok).symm⟩
  · cases hok

omit [Float64] in
theorem transmit_emits {c' : Connection} {p : Packet} (hok : c.transmit p now = .ok c') :
    c'.socketEvents = c.socketEvents ++ [.outgoing p] := by
  obtain ⟨e, sp, -, -, rfl⟩ := transmit_ok hok
  rfl

/-- Transmitting sends the next item in hand. -/
theorem transmit_plays {item : Item} {rest : List Item} {p : Packet}
    (hs : c.state = .connected e) (hp : Carries e.recvBuf item p) :
    Plays packet? guard ⟨c, some (item :: rest), w⟩ (c.transmit p now) fun c' m =>
      m = ⟨c', some rest, w⟩ ∧ ∃ sp, c'.state = .connected { e with sentPackets := sp } := by
  unfold transmit
  rw [hs]
  dsimp only
  rw [hp.seqNum, hp.packetType, hp.body]
  rcases hok : e.sentPackets.onTransmit item.seqNum item.packetType item.body
    (BitVec.ofNat 32 item.body.length) now with panic | sp
  · exact .throw (Or.inr ⟨e, item, rest, now, hs, rfl, hok⟩)
  · exact .step (.sends (.send hs hok hp)) (.pure ⟨rfl, sp, rfl⟩)

/-- Like every loop that transmits, this one takes the header fields from
the state before it; the receive buffer is still the same. -/
theorem transmitPayloads_plays {e₀ : Established} (payloads : List Bytes) (seqNum : Uint16)
    (hm : Midcall.Sound ⟨c, some (dataItems seqNum payloads), w⟩)
    (hs : c.state = .connected e) (hrb : e.recvBuf = e₀.recvBuf) :
    Plays packet? guard ⟨c, some (dataItems seqNum payloads), w⟩
      (transmitPayloads e₀ now payloads seqNum c) (Done w) := by
  induction payloads generalizing seqNum c e with
  | nil => exact .pure ⟨rfl, rfl, rfl⟩
  | cons payload payloads ih =>
      have hp : Carries e.recvBuf ⟨seqNum, .st_data, payload, none, 1⟩
          (c.dataPacket e₀ seqNum payload now) := by
        rw [hrb]
        exact carries_dataPacket c e₀ seqNum payload now
      refine Plays.bind hm (transmit_plays hs hp) ?_
      rintro c' - hm' ⟨rfl, sp, hs'⟩
      exact ih (seqNum + 1) hm' hs' hrb

/-! ### Writes -/

omit [Float64] in
theorem sameCore_writable (c : Connection) (n : Nat) : SameCore c { c with writable := n } :=
  ⟨rfl, rfl, rfl, rfl, rfl, rfl, fun _ h => h, rfl, rfl, id⟩

omit [Float64] in
theorem sameCore_results (c : Connection) (results : List (Nat × ReadOrWriteResult)) (n : Nat) :
    SameCore c { c with results, writable := n } :=
  ⟨rfl, rfl, rfl, rfl, rfl, rfl, fun _ h => h, rfl, rfl, id⟩

omit [Float64] in
/-- What the two loops of `processWrites` do together. -/
theorem flushes_of_loops {r : Refill} {payloads : List Bytes} {sb : SendBuffer}
    {windowSize : Uint32} (hwin : windowSize ≤ e.sentPackets.window)
    (hne : ∀ payload ∈ payloads, payload ≠ [])
    (hread : e.sendBuf.unread = payloads.flatten ++ sb.unread)
    (hlen : payloads.flatten.length ≤ windowSize.toNat)
    (hdry : e.sendBuf.pending = [] → payloads = [] ∧ sb.pending = [])
    (hwf : r.sendBuf.WF) (hstream : r.stream = sb.unread ++ c.queued)
    (hsame : c.pendingWrites = [] → r.sendBuf = sb ∧ r.pendingWrites = []) :
    Flushes c e payloads r.sendBuf r.pendingWrites where
  nonempty := hne
  stream := by
    rw [hread, List.append_assoc, ← hstream]
    rfl
  taken := by
    rw [hread, List.length_append]
    omega
  window := by
    have : windowSize.toNat ≤ e.sentPackets.window.toNat := hwin
    omega
  wf := hwf
  drained := by
    intro hp hb
    obtain ⟨hnil, hsb⟩ := hdry ((SendBuffer.isEmpty_iff _).mp hb)
    obtain ⟨hr, hpend⟩ := hsame hp
    refine ⟨hnil, ?_, hpend⟩
    rw [hr]
    exact (SendBuffer.isEmpty_iff _).mpr hsb

theorem processWrites_plays (hm : Midcall.Sound ⟨c, none, w⟩) :
    Plays packet? guard ⟨c, none, w⟩ (c.processWrites now) (Done w) := by
  unfold processWrites
  split
  · exact .pure ⟨rfl, rfl, rfl⟩
  · exact .step (.book (sameCore_results c _ c.writable)) (.pure ⟨rfl, rfl, rfl⟩)
  · rename_i e hs
    have hsound : e.Sound := hm e (established_connected hs)
    obtain ⟨payloads, sb, hread, hne, hstream, hlen, hwf, hdry⟩ := readPayloads_spec
      ((c.config.maxPacketSize - 64).setWidth 32) (e.sendBuf.unread.length + 1)
      (min e.sentPackets.window c.peerRecvWindow) hsound.sendBuf
    refine .ok_bind hread ?_
    obtain ⟨r, hrefill, hwf', hkept, hsame⟩ := refillLoop_spec (c.pendingWrites.length + 1)
      (r := ⟨sb, c.pendingWrites, c.results, c.writable⟩) hwf
    refine .ok_bind hrefill ?_
    have hflush : Flushes c e payloads r.sendBuf r.pendingWrites := by
      refine flushes_of_loops (min_le_left _ _) hne hstream hlen hdry hwf' hkept ?_
      intro hp
      rw [hsame hp]
      exact ⟨rfl, hp⟩
    have hact : Act packet? guard ⟨c, none, w⟩ _ := .sends (.flush hs hflush)
    refine .step hact (.step (.book (sameCore_results _ r.results r.writable)) ?_)
    have hm₁ := hact.sound hm
    exact transmitPayloads_plays payloads _ hm₁ rfl rfl

/-- A write is queued whole or not at all. -/
theorem onWrite_plays (data : Bytes) (resultCh : Nat) (hm : Midcall.Sound ⟨c, none, w⟩) :
    Plays packet? guard ⟨c, none, w⟩ (c.onWrite data resultCh now)
      (Done (w ++ if c.acceptsWrite then data else [])) := by
  unfold onWrite
  dsimp only
  have hrest : ∀ {c₁ : Connection} {w₁ : Bytes}, Midcall.Sound ⟨c₁, none, w₁⟩ →
      Plays packet? guard ⟨c₁, none, w₁⟩
        (c₁.processWrites now >>= fun c => pure { c with writable := signal c.writable })
        (Done w₁) := by
    intro c₁ w₁ hm₁
    refine Plays.bind hm₁ (processWrites_plays hm₁) ?_
    rintro c' ⟨c'', hand, w'⟩ - ⟨rfl, hitems, rfl⟩
    exact .step (.book (sameCore_writable _ _)) (.pure ⟨rfl, hitems, rfl⟩)
  by_cases hacc : c.acceptsWrite = true
  · rw [if_pos hacc, if_pos hacc]
    have hact : Act packet? guard ⟨c, none, w⟩ _ := .sends (.enqueue data resultCh hacc)
    exact .step hact (hrest (hact.sound hm))
  · rw [if_neg hacc, if_neg hacc, List.append_nil]
    have hact : Act packet? guard ⟨c, none, w⟩ ⟨_, none, w⟩ :=
      .book (sameCore_results c (c.results ++ [(resultCh, c.rejectResult)]) c.writable)
    exact .step hact (hrest (hact.sound hm))

/-! ### Shutdown -/

omit [Float64] in
theorem setClosing_connected (hs : c.state = .connected e) (closing : ClosingRecord) :
    c.setClosing closing = { c with state := .connected { e with closing := some closing } } := by
  rw [setClosing, hs]

omit [Float64] in
/-- The order in which the FIN is sent and recorded does not matter. -/
theorem transmit_setClosing {p : Packet} {closing : ClosingRecord} (hs : c.state = .connected e) :
    (c.transmit p now >>= fun c => pure (c.setClosing closing))
      = (c.setClosing closing).transmit p now := by
  unfold transmit setClosing
  rw [hs]
  dsimp only
  cases e.sentPackets.onTransmit p.header.seqNum p.header.packetType p.body
    (BitVec.ofNat 32 p.body.length) now with
  | error panic => rfl
  | ok sp => rfl

omit [Float64] in
/-- A shutdown that returns: nothing changed, the connection was still
connecting and is closed, it is closing and waits, or it is closing and the FIN
was sent. -/
theorem shutdown_inv {c' : Connection} (hok : c.shutdown now = .ok c') :
    c' = c ∨ (c.state = .connecting ∧ c' = { c with state := .closed none none }) ∨
    (∃ e, c.state = .connected e ∧ e.closing = none ∧
      c' = { c with state := .connected { e with closing := some ⟨none, none⟩ } }) ∨
    ∃ e, c.state = .connected e ∧ e.localFin = none ∧ c.pendingWrites = [] ∧
      e.sendBuf.isEmpty = true ∧
      ({ c with state := .connected { e with
        closing := some ⟨some e.sentPackets.nextSeqNum, e.remoteFin⟩ } } : Connection).transmit
          (c.finPacket e now) now = .ok c' := by
  unfold shutdown at hok
  split at hok
  · rename_i hs
    cases hok
    exact .inr (.inl ⟨hs, rfl⟩)
  · cases hok
    exact .inl rfl
  rename_i e hs
  split at hok
  · rename_i closing hc
    split at hok
    · rename_i hdry
      have hl : e.localFin = none := by
        rw [Established.localFin, hc]
        exact hdry.1
      have hr : e.remoteFin = closing.remoteFin := by
        rw [Established.remoteFin, hc]
        rfl
      dsimp only at hok
      rw [setClosing_connected hs, ← hr] at hok
      exact .inr (.inr (.inr ⟨e, hs, hl, List.length_eq_zero_iff.mp hdry.2.1, hdry.2.2, hok⟩))
    · cases hok
      exact .inl rfl
  · rename_i hc
    split at hok
    · rename_i hdry
      have hl : e.localFin = none := by
        rw [Established.localFin, hc]
        rfl
      have hr : e.remoteFin = none := by
        rw [Established.remoteFin, hc]
        rfl
      dsimp only at hok
      rw [transmit_setClosing hs, setClosing_connected hs, ← hr] at hok
      exact .inr (.inr (.inr ⟨e, hs, hl, List.length_eq_zero_iff.mp hdry.1, hdry.2, hok⟩))
    · rw [setClosing_connected hs] at hok
      exact .inr (.inr (.inl ⟨e, hs, hc, (pure_eq_ok.mp hok).symm⟩))

theorem sendFin_plays (hs : c.state = .connected e) (hl : e.localFin = none)
    (hp : c.pendingWrites.length = 0) (hb : e.sendBuf.isEmpty = true) (hg : guard.fin e) :
    Plays packet? guard ⟨c, none, w⟩
      ((c.setClosing ⟨some e.sentPackets.nextSeqNum, e.remoteFin⟩).transmit (c.finPacket e now) now)
      (Done w) := by
  rw [setClosing_connected hs]
  refine .step (.sends (.pickFin hs hl (List.length_eq_zero_iff.mp hp) hb hg)) ?_
  have hp : Carries e.recvBuf (finItem e.sentPackets.nextSeqNum) (c.finPacket e now) :=
    carries_finPacket c e now
  refine (transmit_plays (e := { e with
    closing := some ⟨some e.sentPackets.nextSeqNum, e.remoteFin⟩ }) rfl hp).weaken ?_
  rintro c' - ⟨rfl, -⟩
  exact ⟨rfl, rfl, rfl⟩

theorem shutdown_plays (hg : ∀ e, c.state = .connected e → e.localFin = none →
      c.pendingWrites = [] → e.sendBuf.isEmpty = true → guard.fin e) :
    Plays packet? guard ⟨c, none, w⟩ (c.shutdown now) (Done w) := by
  unfold shutdown
  rcases hs : c.state with - | e | ⟨e, err⟩
  · exact .step (.close rfl (.shutdown hs)) (.pure ⟨rfl, rfl, rfl⟩)
  · dsimp only
    rcases hc : e.closing with - | closing
    · have hl : e.localFin = none := by rw [Established.localFin, hc]; rfl
      have hr : e.remoteFin = none := by rw [Established.remoteFin, hc]; rfl
      dsimp only
      split
      · rename_i hdry
        rw [transmit_setClosing hs, ← hr]
        exact sendFin_plays hs hl hdry.1 hdry.2
          (hg e hs hl (List.length_eq_zero_iff.mp hdry.1) hdry.2)
      · rw [setClosing_connected hs]
        exact .step (.beginClosing hs hc) (.pure ⟨rfl, rfl, rfl⟩)
    · have hr : e.remoteFin = closing.remoteFin := by rw [Established.remoteFin, hc]; rfl
      dsimp only
      split
      · rename_i hdry
        have hl : e.localFin = none := by
          rw [Established.localFin, hc]
          exact hdry.1
        rw [← hr]
        exact sendFin_plays hs hl hdry.2.1 hdry.2.2
          (hg e hs hl (List.length_eq_zero_iff.mp hdry.2.1) hdry.2.2)
      · exact .pure ⟨rfl, rfl, rfl⟩
  · exact .pure ⟨rfl, rfl, rfl⟩

end Connection

end UtpGo
