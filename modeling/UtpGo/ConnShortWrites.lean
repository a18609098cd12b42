/-
UtpGo/ConnShortWrites.lean

Writes that come back short without an error.  A write that is answered by
`processWrites` comes back with its length.  The others come back with length
zero: a connection that is closing refuses a write with no error, and when it
is closed the writes that wait get its error, which is nil after an orderly
close.

`refusals` collects, along a run of the event loop, the writes that were
refused, and `Kept` says that these are the ones of the account.

Main result: `serveAll_full_or_error_iff`, every write comes back in full or
with an error if and only if those refused, and those that wait in a
connection closed without an error, have no bytes; and `short_writes`, a
refused write and a write lost in an orderly close.
-/
import UtpGo.ConnAnswers

namespace UtpGo

open Checked

/-- A write that waits has bytes left exactly if it had any. -/
theorem Outbox.mem_queuedWrites {o : Outbox Nat Byte} {q : QueuedWrite}
    (hq : q ∈ o.queuedWrites) :
    ∃ w ∈ o.rest, w.1 = q.resultCh ∧ (q.data = [] ↔ w.2 = []) := by
  rcases hrest : o.rest with - | ⟨w, tail⟩
  · rw [queuedWrites, hrest] at hq
    cases hq
  rw [queuedWrites_of_rest hrest, List.mem_cons] at hq
  rcases hq with rfl | hq
  · refine ⟨w, List.mem_cons_self, rfl, ?_⟩
    show w.2.drop o.moved = [] ↔ w.2 = []
    rcases o.begun with hz | ⟨w₁, tail₁, h₁, hlt⟩
    · rw [hz, List.drop_zero]
    · -- the write has been begun, and not been finished
      cases hrest.symm.trans h₁
      rw [List.drop_eq_nil_iff, ← List.length_eq_zero_iff]
      omega
  · obtain ⟨w', hw', rfl⟩ := List.mem_map.mp hq
    exact ⟨w', List.mem_cons_of_mem _ hw', rfl, Iff.rfl⟩

namespace Connection

/-! ### The results -/

/-- The result tells the writer that all was accepted, or it is an error. -/
def FullOrError (data : Bytes) (r : ReadOrWriteResult) : Prop :=
  r.err = none ∧ r.len = data.length ∨ r.err ≠ none

theorem fullOrError_empty_iff {data : Bytes} : FullOrError data {} ↔ data = [] := by
  rw [← List.length_eq_zero_iff]
  simp [FullOrError, eq_comm]

variable {o : Outbox Nat Byte} {refused writes : List (Nat × Bytes)} {placed : Bytes}

/-- The write that waits under an entry of `pendingWrites`. -/
theorem Ledger.waiting {pendingWrites : List QueuedWrite}
    {results : List (Nat × ReadOrWriteResult)}
    (h : Ledger o refused writes placed pendingWrites results) {q : QueuedWrite}
    (hq : q ∈ pendingWrites) :
    ∃ w ∈ writes, w.1 = q.resultCh ∧ (q.data = [] ↔ w.2 = []) := by
  rw [h.pending] at hq
  obtain ⟨w, hw, hch, hdata⟩ := Outbox.mem_queuedWrites hq
  refine ⟨w, h.all.mem_iff.mp ?_, hch, hdata⟩
  exact List.mem_append_left _ (List.mem_append_right _ hw)

/-- What the writes have been sent, when each has a channel of its own. -/
theorem Ledger.fullOrError_iff {c : Connection} {results : List (Nat × ReadOrWriteResult)}
    (h : Ledger o refused writes placed c.pendingWrites results)
    (hsent : c.results = results ++ c.failed) (hnodup : (writes.map (·.1)).Nodup) :
    (∀ w ∈ writes, ∀ r, (w.1, r) ∈ c.results → FullOrError w.2 r) ↔
      (∀ w ∈ refused, w.2 = []) ∧
      ∀ e, c.state = .closed e none → ∀ q ∈ c.pendingWrites, q.data = [] := by
  have hsame : ∀ w ∈ writes, ∀ w' ∈ writes, w'.1 = w.1 → w' = w := fun w hw w' hw' heq =>
    List.inj_on_of_nodup_map hnodup hw' hw heq
  have hrefused : ∀ w ∈ refused, w ∈ writes := fun w hw =>
    h.all.mem_iff.mp (List.mem_append_right _ hw)
  constructor
  · intro hall
    refine ⟨fun w hw => ?_, fun e hs q hq => ?_⟩
    · apply fullOrError_empty_iff.mp
      apply hall w (hrefused w hw)
      rw [hsent]
      apply List.mem_append_left
      exact h.sent.mem_iff.mpr (List.mem_append_right _ (List.mem_map_of_mem hw))
    · obtain ⟨w, hw, hch, hdata⟩ := h.waiting hq
      rw [hdata]
      apply fullOrError_empty_iff.mp
      apply hall w hw
      rw [hsent, failed, hs, hch]
      exact List.mem_append_right _ (List.mem_map_of_mem hq)
  · rintro ⟨hempty, hclosed⟩ w hw r hr
    rw [hsent, List.mem_append] at hr
    rcases hr with hr | hr
    · rw [h.sent.mem_iff, List.mem_append, List.mem_map, List.mem_map] at hr
      rcases hr with ⟨w', hw', heq⟩ | ⟨w', hw', heq⟩
      · -- answered by `processWrites`
        have hmem : w' ∈ writes := h.all.mem_iff.mp
          (List.mem_append_left _ (List.mem_append_left _ hw'))
        obtain ⟨hch, rfl⟩ := Prod.mk.inj heq
        rw [hsame w hw w' hmem hch]
        exact .inl ⟨rfl, rfl⟩
      · -- refused
        obtain ⟨hch, rfl⟩ := Prod.mk.inj heq
        rw [← hsame w hw w' (hrefused w' hw') hch]
        exact fullOrError_empty_iff.mpr (hempty w' hw')
    · -- the connection is closed
      unfold failed at hr
      split at hr
      · rename_i e err hs
        obtain ⟨q, hq, heq⟩ := List.mem_map.mp hr
        obtain ⟨hch, rfl⟩ := Prod.mk.inj heq
        obtain ⟨w', hw', hch', hdata⟩ := h.waiting hq
        cases err with
        | none =>
            rw [← hsame w hw w' hw' (hch'.trans hch)]
            exact fullOrError_empty_iff.mpr (hdata.mp (hclosed e hs q hq))
        | some err => exact .inr (Option.some_ne_none _)
      · cases hr

/-! ### Runs -/

variable [Float64]

/-- The writes refused in a run of the loop. -/
def refusals : LoopState → List LoopEvent → GoM (List (Nat × Bytes))
  | _, [] => pure []
  | s, ev :: events => do
      let s' ← serve s ev
      let later ← refusals s' events
      pure (s.refuses ev ++ later)

theorem kept_refusals {events : List LoopEvent} {w w' : Watched} (h : Kept refused w)
    (hok : events.foldlM watch w = .ok w') :
    ∃ later, refusals w.state events = .ok later ∧ Kept (refused ++ later) w' := by
  induction events generalizing refused w with
  | nil =>
      obtain rfl := pure_eq_ok.mp hok
      refine ⟨[], rfl, ?_⟩
      rw [List.append_nil]
      exact h
  | cons ev events ih =>
      rw [List.foldlM_cons] at hok
      obtain ⟨w₁, hwatch, hok⟩ := bind_eq_ok.mp hok
      obtain ⟨later, hlater, hkept⟩ := ih (h.watch hwatch) hok
      obtain ⟨s₁, hserve, hw₁⟩ := bind_eq_ok.mp hwatch
      obtain rfl := pure_eq_ok.mp hw₁
      have hrest : refusals s₁ events = .ok later := hlater
      refine ⟨w.state.refuses ev ++ later, ?_, ?_⟩
      · rw [refusals, hserve, ok_bind, hrest]
        rfl
      · rw [← List.append_assoc]
        exact hkept

/-- **When a short write is an error.**  Where each write has a channel of its
own, every result sent to a writer has no error and the length of the write,
or has an error, if and only if the writes refused have no bytes and, should
the connection have been closed without an error, neither have those that
wait. -/
theorem serveAll_full_or_error_iff (cid : ConnectionId) (config : ConnectionConfig)
    (syn : Option Packet) (rnd : Uint16) (now t₀ : Time) {events : List LoopEvent} {s : LoopState}
    (hrun : ((newConnection cid config syn rnd now).start t₀).serveAll events = .ok s) :
    ∃ writes placed refused,
      ((newConnection cid config syn rnd now).start t₀).watchAll events
        = .ok ⟨s, writes, placed⟩ ∧
      refusals (.waiting ((newConnection cid config syn rnd now).start t₀)) events
        = .ok refused ∧
      ((writes.map (·.1)).Nodup →
        ((∀ w ∈ writes, ∀ r, (w.1, r) ∈ s.conn.results → FullOrError w.2 r) ↔
          (∀ w ∈ refused, w.2 = []) ∧
          ∀ e, s.conn.state = .closed e none → ∀ q ∈ s.conn.pendingWrites, q.data = [])) := by
  obtain ⟨writes, placed, hwatch⟩ := watch_of_serve
    (w := ⟨.waiting ((newConnection cid config syn rnd now).start t₀), [], []⟩) hrun
  obtain ⟨refused, hrefused, hkept⟩ :=
    kept_refusals (kept_start cid config syn rnd now t₀) hwatch
  obtain ⟨o, results, hledger, hsent⟩ := hkept.ledger
  exact ⟨writes, placed, refused, hwatch, hrefused, hledger.fullOrError_iff hsent⟩

omit [Float64] in
/-- Two writes and a reset: the first write has come back in full, the second
with the error. -/
theorem serveAll_full_or_error_reset : ∃ s,
    @serveAll exactFloat64 sampleAcceptor twoWrites = .ok s ∧
    ∀ r, (8, r) ∈ s.conn.results → FullOrError (List.replicate 20 1) r := by
  have hrun : ∃ s placed e, @serveAll exactFloat64 sampleAcceptor twoWrites = .ok s ∧
      @watchAll exactFloat64 sampleAcceptor twoWrites
        = .ok ⟨s, [(7, [1, 2, 3]), (8, List.replicate 20 1)], placed⟩ ∧
      @refusals exactFloat64 (.waiting sampleAcceptor) twoWrites = .ok [] ∧
      s.conn.state = .closed e (some .errReset) :=
    ⟨_, _, _, rfl, rfl, rfl, rfl⟩
  let := exactFloat64
  obtain ⟨s, placed, e, hserve, hwatch, hrefusals, hs⟩ := hrun
  obtain ⟨writes, placed', refused, hwatch', hrefusals', hiff⟩ :=
    serveAll_full_or_error_iff _ _ _ _ _ _ hserve
  cases hwatch.symm.trans hwatch'
  cases hrefusals.symm.trans hrefusals'
  refine ⟨s, hserve, (hiff (by decide)).mpr ⟨nofun, ?_⟩ (8, List.replicate 20 1) (by simp)⟩
  intro e' hs'
  cases hs.symm.trans hs'

omit [Float64] in
/-- A write taken after the shutdown has begun comes back with nothing, and so
does a write that waits when the peer's FIN closes the connection. -/
theorem short_writes :
    (∃ s, @serveAll exactFloat64 sampleAcceptor
        [.turn ⟨.shutdown 0, true, 0⟩, .turn ⟨.onWrite [1, 2, 3] 7 0, false, 0⟩] = .ok s ∧
      s.conn.results = [(7, { err := none, len := 0 })]) ∧
    ∃ c, @serveAll exactFloat64 sampleAcceptor
        [.turn ⟨.onWrite (List.replicate 20 1) 7 0, false, 0⟩,
          .turn ⟨.onPacket ((newPacketBuilder .st_fin 1 0 1000 101).withAckNum 4).build 0 0,
            false, 0⟩] = .ok (.returned c) ∧
      c.results = [(7, { err := none, len := 0 })] :=
  ⟨⟨_, rfl, rfl⟩, ⟨_, rfl, rfl⟩⟩

end Connection

end UtpGo
