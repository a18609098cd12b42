/-
UtpGo/ConnAnswers.lean

Every write is answered once.  A write passed to `onWrite` is refused at once,
or it waits; `processWrites` moves the writes that wait to the send buffer, in
order and in parts, and answers each when its last byte has been moved; and
when the loop returns with a closed connection, those that still wait get its
error.

The writes are an outbox (`Ledger`): the writes that `processWrites` has
answered are those that have left it, and what has left it is what was placed
in the send buffer.  The bytes placed are read off the send buffer before and
after the loop that fills it (`placedIn`), and `watch` collects them along a
run of the event loop, together with the writes passed to `onWrite`.

Main result: `serveAll_answers`.
-/
import UtpGo.ConnExit
import UtpGo.Outbox

namespace UtpGo

open Checked

/-! ### The writes that wait, as an outbox -/

/-- The entries of `pendingWrites` for an outbox. -/
def Outbox.queuedWrites (o : Outbox Nat Byte) : List QueuedWrite :=
  match o.rest with
  | [] => []
  | w :: tail => ⟨w.2.drop o.moved, o.moved, w.1⟩ :: tail.map fun w => ⟨w.2, 0, w.1⟩

theorem Outbox.queuedWrites_of_rest {o : Outbox Nat Byte} {w : Nat × Bytes}
    {tail : List (Nat × Bytes)} (h : o.rest = w :: tail) :
    o.queuedWrites = ⟨w.2.drop o.moved, o.moved, w.1⟩ :: tail.map fun w => ⟨w.2, 0, w.1⟩ := by
  rw [queuedWrites, h]

theorem Outbox.queuedWrites_fresh {o : Outbox Nat Byte} (h : o.moved = 0) :
    o.queuedWrites = o.rest.map fun w => ⟨w.2, 0, w.1⟩ := by
  rcases hrest : o.rest with - | ⟨w, tail⟩
  · rw [queuedWrites, hrest]
    rfl
  · rw [queuedWrites_of_rest hrest, h]
    rfl

theorem Outbox.queuedWrites_push (o : Outbox Nat Byte) (w : Nat × Bytes) :
    (o.push w).queuedWrites = o.queuedWrites ++ [⟨w.2, 0, w.1⟩] := by
  rcases hrest : o.rest with - | ⟨w₁, tail⟩
  · have hmoved : o.moved = 0 := moved_of_rest_nil hrest
    have hmoved' : (o.push w).moved = 0 := hmoved
    rw [queuedWrites_fresh hmoved, queuedWrites_fresh hmoved', push, List.map_append]
    rfl
  · have hrest' : (o.push w).rest = w₁ :: (tail ++ [w]) := by
      show o.rest ++ [w] = _
      rw [hrest, List.cons_append]
    rw [queuedWrites_of_rest hrest, queuedWrites_of_rest hrest', List.map_append]
    rfl

theorem Outbox.queuedWrites_resultCh (o : Outbox Nat Byte) :
    o.queuedWrites.map (·.resultCh) = o.rest.map (·.1) := by
  rcases hrest : o.rest with - | ⟨w, tail⟩
  · rw [queuedWrites, hrest]
    rfl
  · rw [queuedWrites_of_rest hrest, List.map_cons, List.map_map]
    rfl

namespace Connection

/-- The answer to a write whose bytes have all been placed: no error, and the
length of the write. -/
def answer (w : Nat × Bytes) : Nat × ReadOrWriteResult := (w.1, { len := w.2.length })

/-- The answer to a write that a closing connection refuses. -/
def refusal (w : Nat × Bytes) : Nat × ReadOrWriteResult := (w.1, {})

/-! ### The loop that fills the send buffer -/

/-- The loop has moved bytes from the outbox to the send buffer, and has
answered the writes that were finished. -/
structure Fills (o : Outbox Nat Byte) (r : Refill) (o' : Outbox Nat Byte) (r' : Refill) :
    Prop where
  messages : o'.messages = o.messages
  queued : r'.pendingWrites = o'.queuedWrites
  wf : r'.sendBuf.WF
  answered : ∃ finished, o'.done = o.done ++ finished ∧
    r'.results = r.results ++ finished.map answer
  placed : ∃ new, o'.placed = o.placed ++ new ∧ r'.sendBuf.unread = r.sendBuf.unread ++ new

variable {o o₁ o' : Outbox Nat Byte} {r r₁ r' : Refill}

theorem Fills.refl (hq : r.pendingWrites = o.queuedWrites) (hwf : r.sendBuf.WF) :
    Fills o r o r where
  messages := rfl
  queued := hq
  wf := hwf
  answered := ⟨[], (List.append_nil _).symm, (List.append_nil _).symm⟩
  placed := ⟨[], (List.append_nil _).symm, (List.append_nil _).symm⟩

theorem Fills.trans (h : Fills o r o₁ r₁) (h₁ : Fills o₁ r₁ o' r') : Fills o r o' r' where
  messages := h₁.messages.trans h.messages
  queued := h₁.queued
  wf := h₁.wf
  answered := by
    obtain ⟨finished, hdone, hresults⟩ := h.answered
    obtain ⟨finished₁, hdone₁, hresults₁⟩ := h₁.answered
    refine ⟨finished ++ finished₁, ?_, ?_⟩
    · rw [hdone₁, hdone, List.append_assoc]
    · rw [hresults₁, hresults, List.map_append, List.append_assoc]
  placed := by
    obtain ⟨new, hplaced, hunread⟩ := h.placed
    obtain ⟨new₁, hplaced₁, hunread₁⟩ := h₁.placed
    refine ⟨new ++ new₁, ?_, ?_⟩
    · rw [hplaced₁, hplaced, List.append_assoc]
    · rw [hunread₁, hunread, List.append_assoc]

/-- A pass finishes the first write, or advances in it. -/
theorem RefillPass.fills (hpass : RefillPass r r₁) (hq : r.pendingWrites = o.queuedWrites)
    (hwf : r.sendBuf.WF) : ∃ o₁, Fills o r o₁ r₁ := by
  cases hpass with
  | whole hp =>
      rcases hrest : o.rest with - | ⟨w, tail⟩
      · rw [hq, Outbox.queuedWrites, hrest] at hp
        cases hp
      · rw [hq, Outbox.queuedWrites_of_rest hrest] at hp
        cases hp
        refine ⟨o.finish w tail, Outbox.messages_finish hrest, ?_, SendBuffer.wf_append hwf _,
          ⟨[w], rfl, ?_⟩, ⟨_, Outbox.placed_finish hrest, SendBuffer.unread_append hwf _⟩⟩
        · exact (Outbox.queuedWrites_fresh (o := o.finish w tail) rfl).symm
        · -- the two counters of the write add up to its length
          have hlen : (w.2.drop o.moved).length + o.moved = w.2.length := by
            rw [List.length_drop]
            exact Nat.sub_add_cancel (Outbox.moved_le hrest)
          show r.results ++ [(w.1, { len := (w.2.drop o.moved).length + o.moved })] = _
          rw [hlen]
          rfl
  | part hp hn =>
      rename_i writeReq rest n
      rcases hrest : o.rest with - | ⟨w, tail⟩
      · rw [hq, Outbox.queuedWrites, hrest] at hp
        cases hp
      · rw [hq, Outbox.queuedWrites_of_rest hrest] at hp
        cases hp
        have hlt : o.moved + n < w.2.length := by
          have hlen : n < (w.2.drop o.moved).length := hn
          rw [List.length_drop] at hlen
          omega
        refine ⟨o.advance hrest n hlt, rfl, ?_, SendBuffer.wf_append hwf _,
          ⟨[], (List.append_nil _).symm, (List.append_nil _).symm⟩,
          ⟨_, Outbox.placed_advance hrest hlt, SendBuffer.unread_append hwf _⟩⟩
        have hrest' : (o.advance hrest n hlt).rest = w :: tail := hrest
        rw [Outbox.queuedWrites_of_rest hrest', List.drop_drop]
        rfl

theorem refillLoop_fills (passes : Nat) (hq : r.pendingWrites = o.queuedWrites)
    (hwf : r.sendBuf.WF) (hok : refillLoop passes r = .ok r') : ∃ o', Fills o r o' r' := by
  induction passes generalizing r o with
  | zero =>
      obtain rfl := pure_eq_ok.mp hok
      exact ⟨o, .refl hq hwf⟩
  | succ passes ih =>
      rcases refillLoop_succ passes r with hstop | ⟨r₁, hpass, hloop⟩
      · cases hstop.symm.trans hok
        exact ⟨o, .refl hq hwf⟩
      · obtain ⟨o₁, h₁⟩ := hpass.fills hq hwf
        obtain ⟨o', h'⟩ := ih h₁.queued h₁.wf (hloop.symm.trans hok)
        exact ⟨o', h₁.trans h'⟩

/-! ### Calls of `processWrites` -/

/-- The write that an event passes to `onWrite`, with its `resultCh`. -/
def Event.write? : Event → Option (Nat × Bytes)
  | .onWrite data resultCh _ => some (resultCh, data)
  | _ => none

/-- `onWrite`, up to its call of `processWrites`. -/
def takeWrite (c : Connection) (data : Bytes) (resultCh : Nat) : Connection :=
  if c.acceptsWrite then
    { c with pendingWrites := c.pendingWrites ++ [{ data, written := 0, resultCh }] }
  else { c with results := c.results ++ [(resultCh, c.rejectResult)] }

/-- The connection with which an event calls `processWrites`. -/
def entering (c : Connection) : Event → Option Connection
  | .onWrite data resultCh _ => some (c.takeWrite data resultCh)
  | .processWrites _ => some { c with writable := c.writable - 1 }
  | _ => none

/-- The write that an event passes to `onWrite` and that is refused. -/
def refuses (c : Connection) (ev : Event) : List (Nat × Bytes) :=
  if c.acceptsWrite then [] else ev.write?.toList

/-- `processWrites` of a connected connection after some passes of the loop
that fills the send buffer: the buffer before that loop, and what the passes
have made of it. -/
def buffering (c : Connection) (e : Established) (passes : Nat) : GoM (SendBuffer × Refill) := do
  let windowSize := min e.sentPackets.window c.peerRecvWindow
  let maxData := (c.config.maxPacketSize - 64).setWidth 32
  let (_, sendBuf) ← readPayloads maxData (e.sendBuf.unread.length + 1) windowSize e.sendBuf
  let r ← refillLoop passes
    { sendBuf, pendingWrites := c.pendingWrites, results := c.results, writable := c.writable }
  pure (sendBuf, r)

/-- The bytes that the passes have placed in the send buffer. -/
def placedIn (p : SendBuffer × Refill) : Bytes := p.2.sendBuf.unread.drop p.1.unread.length

/-- The bytes that a call of `processWrites` places in the send buffer. -/
def placedBy (c : Connection) : Bytes :=
  match c.state with
  | .connected e =>
      match c.buffering e (c.pendingWrites.length + 1) with
      | .ok p => placedIn p
      | .error _ => []
  | _ => []

/-! ### The account of the writes -/

/-- The account of the writes passed to `onWrite`, with the bytes placed in the
send buffer and the results sent to the writers: those answered in order, with
no error and their length; those that wait, in order; and those refused.  All
bytes of those answered have been placed, and the last byte of one that waits
has not. -/
structure Account (writes : List (Nat × Bytes)) (placed : Bytes) (pendingWrites : List QueuedWrite)
    (results : List (Nat × ReadOrWriteResult)) (answered waiting refused : List (Nat × Bytes)) :
    Prop where
  all : (answered ++ waiting ++ refused).Perm writes
  inOrder : (answered ++ waiting).Sublist writes
  pending : pendingWrites.map (·.resultCh) = waiting.map (·.1)
  sent : results.Perm (answered.map answer ++ refused.map refusal)
  stream : placed <+: (answered ++ waiting).flatMap (·.2)
  finished : answered.flatMap (·.2) <+: placed
  unfinished : ∀ earlier w later, waiting = earlier ++ w :: later → w.2 ≠ [] →
    ¬ (answered ++ earlier ++ [w]).flatMap (·.2) <+: placed

/-- The account as it is kept: the writes that were not refused are an
outbox. -/
structure Ledger (o : Outbox Nat Byte) (refused writes : List (Nat × Bytes)) (placed : Bytes)
    (pendingWrites : List QueuedWrite) (results : List (Nat × ReadOrWriteResult)) : Prop where
  all : (o.messages ++ refused).Perm writes
  inOrder : o.messages.Sublist writes
  stream : o.placed = placed
  pending : pendingWrites = o.queuedWrites
  sent : results.Perm (o.done.map answer ++ refused.map refusal)

variable {refused writes : List (Nat × Bytes)} {placed : Bytes}

theorem Ledger.account {pendingWrites : List QueuedWrite} {results : List (Nat × ReadOrWriteResult)}
    (h : Ledger o refused writes placed pendingWrites results) :
    Account writes placed pendingWrites results o.done o.rest refused where
  all := h.all
  inOrder := h.inOrder
  pending := by rw [h.pending, Outbox.queuedWrites_resultCh]
  sent := h.sent
  stream := h.stream ▸ o.placed_prefix
  finished := h.stream ▸ o.done_prefix_placed
  unfinished := by
    intro earlier w later hrest hw
    rw [← h.stream]
    exact Outbox.not_placed_of_rest hrest hw

/-- A result for every write that does not wait. -/
theorem Account.channels {pendingWrites : List QueuedWrite}
    {results : List (Nat × ReadOrWriteResult)} {answered waiting refused : List (Nat × Bytes)}
    (h : Account writes placed pendingWrites results answered waiting refused) :
    (results.map (·.1) ++ pendingWrites.map (·.resultCh)).Perm (writes.map (·.1)) := by
  have hsent : (results.map (·.1)).Perm (answered.map (·.1) ++ refused.map (·.1)) := by
    have hperm := h.sent.map (·.1)
    rw [List.map_append, List.map_map, List.map_map] at hperm
    exact hperm
  have hall := h.all.map (·.1)
  rw [List.map_append, List.map_append] at hall
  rw [h.pending]
  calc (results.map (·.1) ++ waiting.map (·.1)).Perm
        (answered.map (·.1) ++ refused.map (·.1) ++ waiting.map (·.1)) := hsent.append_right _
    _ |>.Perm (answered.map (·.1) ++ waiting.map (·.1) ++ refused.map (·.1)) := by
        rw [List.append_assoc, List.append_assoc]
        exact List.perm_append_comm.append_left _
    _ |>.Perm (writes.map (·.1)) := hall

theorem Ledger.empty : Ledger .empty [] [] [] [] [] := ⟨.nil, .slnil, rfl, rfl, .nil⟩

theorem Ledger.fill {passes : Nat} (h : Ledger o refused writes placed r.pendingWrites r.results)
    (hwf : r.sendBuf.WF) (hok : refillLoop passes r = .ok r') :
    ∃ o' finished, Ledger o' refused writes (placed ++ placedIn (r.sendBuf, r')) r'.pendingWrites
        r'.results ∧
      o'.done = o.done ++ finished ∧ r'.results = r.results ++ finished.map answer ∧
      r'.sendBuf.unread = r.sendBuf.unread ++ placedIn (r.sendBuf, r') := by
  obtain ⟨o', hfills⟩ := refillLoop_fills passes h.pending hwf hok
  obtain ⟨finished, hdone, hresults⟩ := hfills.answered
  obtain ⟨new, hplaced, hunread⟩ := hfills.placed
  have hnew : placedIn (r.sendBuf, r') = new := by
    rw [placedIn, hunread, List.drop_left]
  rw [hnew]
  refine ⟨o', finished, ⟨?_, ?_, ?_, hfills.queued, ?_⟩, hdone, hresults, hunread⟩
  · rw [hfills.messages]
    exact h.all
  · rw [hfills.messages]
    exact h.inOrder
  · rw [hplaced, h.stream]
  · rw [hresults, hdone, List.map_append, List.append_assoc]
    refine (h.sent.append_right _).trans ?_
    rw [List.append_assoc]
    exact List.perm_append_comm.append_left _

/-! ### The events -/

variable {c c' c₁ : Connection} {e : Established} {now : Time}

theorem Ledger.takeWrite {data : Bytes} {resultCh : Nat} (hopen : ¬ c.Closed)
    (h : Ledger o refused writes placed c.pendingWrites c.results) :
    ∃ o', Ledger o' (refused ++ c.refuses (.onWrite data resultCh now))
      (writes ++ [(resultCh, data)]) placed
      (c.takeWrite data resultCh).pendingWrites (c.takeWrite data resultCh).results := by
  unfold Connection.takeWrite refuses
  split
  · rw [List.append_nil]
    refine ⟨o.push (resultCh, data), ?_, ?_, ?_, ?_, h.sent⟩
    · rw [Outbox.messages_push, List.append_assoc]
      refine (List.perm_append_comm.append_left _).trans ?_
      rw [← List.append_assoc]
      exact h.all.append_right _
    · rw [Outbox.messages_push]
      exact h.inOrder.append (.refl _)
    · rw [Outbox.placed_push]
      exact h.stream
    · rw [Outbox.queuedWrites_push, ← h.pending]
  · refine ⟨o, ?_, ?_, h.stream, h.pending, ?_⟩
    · rw [← List.append_assoc]
      exact h.all.append_right _
    · exact h.inOrder.trans (List.sublist_append_left _ _)
    · -- a connection that is not closed refuses without an error
      have hreject : c.rejectResult = {} := by
        unfold rejectResult
        split
        · exact absurd ⟨_, _, ‹_›⟩ hopen
        · rfl
      show (c.results ++ [(resultCh, c.rejectResult)]).Perm _
      rw [hreject, List.map_append, ← List.append_assoc]
      exact h.sent.append_right _

theorem refuses_none {ev : Event} (hwrite : ev.write? = none) : c.refuses ev = [] := by
  rw [refuses, hwrite, Option.toList_none, ite_self]

theorem state_takeWrite (c : Connection) (data : Bytes) (resultCh : Nat) :
    (c.takeWrite data resultCh).state = c.state := by
  unfold takeWrite
  split <;> rfl

theorem buffering_eq_ok {passes : Nat} {p : SendBuffer × Refill} (hwf : e.sendBuf.WF)
    (hok : c.buffering e passes = .ok p) : p.1.WF ∧
      refillLoop passes ⟨p.1, c.pendingWrites, c.results, c.writable⟩ = .ok p.2 := by
  obtain ⟨payloads, sb, hread, -, -, -, hwf', -⟩ := readPayloads_spec
    ((c.config.maxPacketSize - 64).setWidth 32) (e.sendBuf.unread.length + 1)
    (min e.sentPackets.window c.peerRecvWindow) hwf
  rw [buffering, hread, ok_bind] at hok
  obtain ⟨r, hloop, hok⟩ := bind_eq_ok.mp hok
  obtain rfl := pure_eq_ok.mp hok
  exact ⟨hwf', hloop⟩

theorem processWrites_connected (hs : c.state = .connected e)
    (hok : c.processWrites now = .ok c') : ∃ p, c.buffering e (c.pendingWrites.length + 1) = .ok p ∧
      c'.pendingWrites = p.2.pendingWrites ∧ c'.results = p.2.results := by
  unfold processWrites at hok
  rw [hs] at hok
  obtain ⟨⟨payloads, sb⟩, hread, hok⟩ := bind_eq_ok.mp hok
  obtain ⟨r, hloop, hok⟩ := bind_eq_ok.mp hok
  have hands := hands_transmitPayloads hok
  refine ⟨(sb, r), ?_, hands.pendingWrites, hands.results⟩
  rw [buffering, hread, ok_bind]
  dsimp only
  rw [hloop]
  rfl

variable {w : Bytes}

/-- The account after some passes of a call of `processWrites`. -/
theorem Ledger.buffering {passes : Nat} {p : SendBuffer × Refill}
    (h : Ledger o refused writes placed c.pendingWrites c.results)
    (hsound : Midcall.Sound ⟨c, none, w⟩) (hs : c.state = .connected e)
    (hok : c.buffering e passes = .ok p) :
    ∃ o' finished, Ledger o' refused writes (placed ++ placedIn p) p.2.pendingWrites p.2.results ∧
      o'.done = o.done ++ finished ∧ p.2.results = c.results ++ finished.map answer ∧
      p.2.sendBuf.unread = p.1.unread ++ placedIn p := by
  obtain ⟨hwf, hloop⟩ := buffering_eq_ok (hsound e (established_connected hs)).sendBuf hok
  exact Ledger.fill (r := ⟨p.1, c.pendingWrites, c.results, c.writable⟩) h hwf hloop

theorem Ledger.processWrites (h : Ledger o refused writes placed c.pendingWrites c.results)
    (hsound : Midcall.Sound ⟨c, none, w⟩) (hopen : ¬ c.Closed)
    (hok : c.processWrites now = .ok c') :
    ∃ o', Ledger o' refused writes (placed ++ c.placedBy) c'.pendingWrites c'.results := by
  rcases hs : c.state with - | e | ⟨e, err⟩
  · unfold Connection.processWrites at hok
    rw [hs] at hok
    cases hok
    rw [placedBy, hs, List.append_nil]
    exact ⟨o, h⟩
  · obtain ⟨p, hbuf, hpending, hresults⟩ := processWrites_connected hs hok
    obtain ⟨o', finished, h', -⟩ := h.buffering (w := w) hsound hs hbuf
    refine ⟨o', ?_⟩
    rw [hpending, hresults, placedBy, hs]
    dsimp only
    rw [hbuf]
    exact h'
  · exact absurd ⟨_, _, hs⟩ hopen

/-- The connection with which `processWrites` is called. -/
theorem Ledger.entering {ev : Event} (h : Ledger o refused writes placed c.pendingWrites c.results)
    (hsound : Midcall.Sound ⟨c, none, w⟩) (hopen : ¬ c.Closed) (hev : c.entering ev = some c₁) :
    Midcall.Sound ⟨c₁, none, w⟩ ∧ ¬ c₁.Closed ∧ ∃ o', Ledger o' (refused ++ c.refuses ev)
      (writes ++ ev.write?.toList) placed c₁.pendingWrites c₁.results := by
  cases ev with
  | onWrite data resultCh now =>
      cases hev
      have hstate := c.state_takeWrite data resultCh
      refine ⟨?_, ?_, h.takeWrite hopen⟩
      · intro e he
        rw [established, hstate] at he
        exact hsound e he
      · rintro ⟨e, err, hs⟩
        exact hopen ⟨e, err, hstate.symm.trans hs⟩
  | processWrites now =>
      cases hev
      refine ⟨hsound, hopen, o, ?_⟩
      rw [refuses_none rfl, show Event.write? _ = none from rfl, Option.toList_none,
        List.append_nil, List.append_nil]
      exact h
  | onPacket | processReads | tick | onTimeout | onIdleTimeout | shutdown => cases hev

end Connection

/-- The writes passed to `onWrite` when the loop serves an event. -/
def LoopState.taken : LoopState → LoopEvent → List (Nat × Bytes)
  | .waiting _, .turn t => t.event.write?.toList
  | _, _ => []

/-- The write refused when the loop serves an event. -/
def LoopState.refuses : LoopState → LoopEvent → List (Nat × Bytes)
  | .waiting c, .turn t => c.refuses t.event
  | _, _ => []

/-- The bytes placed in the send buffer when the loop serves an event. -/
def LoopState.places : LoopState → LoopEvent → Bytes
  | .waiting c, .turn t => (c.entering t.event).elim [] Connection.placedBy
  | _, _ => []

/-- The loop, with the writes passed to `onWrite` and the bytes placed in the
send buffer so far. -/
structure Watched where
  state : LoopState
  writes : List (Nat × Bytes)
  placed : Bytes

namespace Connection

variable [Float64]

def watch (w : Watched) (ev : LoopEvent) : GoM Watched := do
  let state ← serve w.state ev
  pure ⟨state, w.writes ++ w.state.taken ev, w.placed ++ w.state.places ev⟩

def watchAll (c : Connection) (events : List LoopEvent) : GoM Watched :=
  events.foldlM watch ⟨.waiting c, [], []⟩

/-- Watching does not disturb. -/
theorem watch_of_serve {events : List LoopEvent} {w : Watched} {s : LoopState}
    (hok : events.foldlM serve w.state = .ok s) :
    ∃ writes placed, events.foldlM watch w = .ok ⟨s, writes, placed⟩ := by
  induction events generalizing w with
  | nil =>
      obtain rfl := pure_eq_ok.mp hok
      exact ⟨w.writes, w.placed, rfl⟩
  | cons ev events ih =>
      rw [List.foldlM_cons] at hok
      obtain ⟨s₁, hserve, hok⟩ := bind_eq_ok.mp hok
      have hwatch : watch w ev
          = .ok ⟨s₁, w.writes ++ w.state.taken ev, w.placed ++ w.state.places ev⟩ := by
        rw [watch, hserve]
        rfl
      rw [List.foldlM_cons, hwatch, ok_bind]
      exact ih hok

variable {c c' : Connection} {o : Outbox Nat Byte} {refused writes : List (Nat × Bytes)}
  {placed : Bytes} {w : Bytes} {now : Time}

/-- Only the events that call `processWrites` have to do with the writes. -/
theorem Ledger.step {ev : Event} (h : Ledger o refused writes placed c.pendingWrites c.results)
    (hsound : Midcall.Sound ⟨c, none, w⟩) (hopen : ¬ c.Closed) (hok : c.step ev = .ok c') :
    ∃ o', Ledger o' (refused ++ c.refuses ev) (writes ++ ev.write?.toList)
      (placed ++ (c.entering ev).elim [] placedBy) c'.pendingWrites c'.results := by
  have hsame : ev.write? = none → c.entering ev = none →
      c'.pendingWrites = c.pendingWrites ∧ c'.results = c.results →
      ∃ o', Ledger o' (refused ++ c.refuses ev) (writes ++ ev.write?.toList)
        (placed ++ (c.entering ev).elim [] placedBy) c'.pendingWrites c'.results := by
    rintro hwrite hev ⟨hpending, hresults⟩
    rw [refuses_none hwrite, hwrite, hev, hpending, hresults]
    refine ⟨o, ?_⟩
    simpa using h
  cases ev with
  | onPacket p now rnd => exact hsame rfl rfl (writes_onPacket hok)
  | processReads =>
      have hwrites := writes_processReads hok
      exact hsame rfl rfl hwrites
  | onWrite data resultCh now =>
      obtain ⟨hsound₁, hopen₁, o₁, h₁⟩ := h.entering (w := w) hsound hopen
        (show c.entering (.onWrite data resultCh now) = _ from rfl)
      obtain ⟨c₂, hwrites, hok⟩ := bind_eq_ok.mp hok
      obtain rfl := pure_eq_ok.mp hok
      obtain ⟨o', h'⟩ := h₁.processWrites (w := w) hsound₁ hopen₁ hwrites
      exact ⟨o', h'⟩
  | processWrites now =>
      obtain ⟨hsound₁, hopen₁, o₁, h₁⟩ := h.entering (w := w) hsound hopen
        (show c.entering (.processWrites now) = _ from rfl)
      obtain ⟨o', h'⟩ := h₁.processWrites (w := w) hsound₁ hopen₁ hok
      exact ⟨o', h'⟩
  | tick | onTimeout | onIdleTimeout | shutdown =>
      have hands := hands_step hok rfl
      exact hsame rfl rfl ⟨hands.pendingWrites, hands.results⟩

theorem Ledger.turn {t : Turn} (h : Ledger o refused writes placed c.pendingWrites c.results)
    (hsound : Midcall.Sound ⟨c, none, w⟩) (hopen : ¬ c.Closed) (hok : c.turn t = .ok c') :
    ∃ o', Ledger o' (refused ++ c.refuses t.event) (writes ++ t.event.write?.toList)
      (placed ++ (c.entering t.event).elim [] placedBy) c'.pendingWrites c'.results := by
  obtain ⟨c₁, hstep, hok⟩ := bind_eq_ok.mp hok
  obtain ⟨o₁, h₁⟩ := h.step (w := w) hsound hopen hstep
  refine ⟨o₁, ?_⟩
  split at hok
  · have hands := hands_shutdown hok
    rw [hands.pendingWrites, hands.results]
    exact h₁
  · obtain rfl := pure_eq_ok.mp hok
    exact h₁

omit [Float64] in
/-- What a closed connection sends to the writes that wait, when the loop
returns. -/
def failed (c : Connection) : List (Nat × ReadOrWriteResult) :=
  match c.state with
  | .closed _ err => c.pendingWrites.map fun w => (w.resultCh, .ofConnErr err)
  | _ => []

omit [Float64] in
theorem failed_of_open (hopen : ¬ c.Closed) : c.failed = [] := by
  rcases hs : c.state with - | e | ⟨e, err⟩
  · rw [failed, hs]
  · rw [failed, hs]
  · exact absurd ⟨e, err, hs⟩ hopen

omit [Float64] in
theorem leave_failed (hclosed : c.Closed) (hok : c.leave now = .ok c') :
    c'.pendingWrites = c.pendingWrites ∧ c'.results = c.results ++ c'.failed := by
  obtain ⟨e, err, hs⟩ := hclosed
  rw [leave_of_closed hs] at hok
  cases hok
  refine ⟨rfl, ?_⟩
  rw [failed, hs]

/-- The account of a loop that is watched, with the writes it has refused. -/
structure Kept (refused : List (Nat × Bytes)) (w : Watched) : Prop where
  ledger : ∃ o results, Ledger o refused w.writes w.placed w.state.conn.pendingWrites
    results ∧ w.state.conn.results = results ++ w.state.conn.failed
  waits : ∀ c, w.state = .waiting c → c.Waits

omit [Float64] in
theorem Kept.waiting (h : Kept refused ⟨.waiting c, writes, placed⟩) :
    c.Waits ∧ ∃ o, Ledger o refused writes placed c.pendingWrites c.results := by
  have hwaits := h.waits c rfl
  obtain ⟨o, results, hledger, hresults⟩ := h.ledger
  have hsent : c.results = results ++ c.failed := hresults
  rw [failed_of_open hwaits.opened, List.append_nil] at hsent
  exact ⟨hwaits, o, hsent ▸ hledger⟩

omit [Float64] in
theorem Kept.returned (h : Kept refused ⟨.waiting c, writes, placed⟩) :
    Kept refused ⟨.returned c, writes, placed⟩ where
  ledger := h.ledger
  waits := by rintro c₁ ⟨⟩

omit [Float64] in
theorem kept_start (cid : ConnectionId) (config : ConnectionConfig) (syn : Option Packet)
    (rnd : Uint16) (now t₀ : Time) :
    Kept [] ⟨.waiting ((newConnection cid config syn rnd now).start t₀), [], []⟩ := by
  refine ⟨⟨.empty, [], ?_, ?_⟩, ?_⟩
  · cases syn <;> exact Ledger.empty
  · cases syn <;> rfl
  · rintro c ⟨⟩
    exact waits_start cid config syn rnd now t₀

theorem Kept.watch {w w' : Watched} {ev : LoopEvent} (h : Kept refused w)
    (hok : watch w ev = .ok w') : Kept (refused ++ w.state.refuses ev) w' := by
  obtain ⟨s, hserve, hok⟩ := bind_eq_ok.mp hok
  obtain rfl := pure_eq_ok.mp hok
  obtain ⟨s₀, writes, placed⟩ := w
  rcases s₀ with c | c
  swap
  · obtain rfl := serve_returned hserve
    simpa [LoopState.taken, LoopState.refuses, LoopState.places] using h
  rcases serve_cases hserve with ⟨rfl, rfl⟩ | ⟨t, c₁, rfl, hturn, hnext⟩
  · simpa [LoopState.taken, LoopState.refuses, LoopState.places] using h.returned
  obtain ⟨⟨⟨w, hsound⟩, hopen⟩, o, hledger⟩ := h.waiting
  obtain ⟨o₁, hledger₁⟩ := hledger.turn (w := w) hsound hopen hturn
  rcases hnext with ⟨hopen₁, rfl⟩ | ⟨hclosed, c₂, hleave, rfl⟩
  · refine ⟨⟨o₁, c₁.results, hledger₁, ?_⟩, ?_⟩
    · rw [show LoopState.conn _ = c₁ from rfl, failed_of_open hopen₁, List.append_nil]
    · rintro c₂ ⟨⟩
      obtain ⟨events, hrun⟩ := turn_run hturn
      obtain ⟨w₁, hsound₁, -⟩ := run_speaks (w := w) hsound hrun
      exact ⟨⟨w₁, hsound₁⟩, hopen₁⟩
  · obtain ⟨hpending, hsent⟩ := leave_failed hclosed hleave
    refine ⟨⟨o₁, c₁.results, ?_, hsent⟩, ?_⟩
    · rw [show LoopState.conn _ = c₂ from rfl, hpending]
      exact hledger₁
    · rintro c₃ ⟨⟩

omit [Float64] in
theorem failed_channels_of_closed (hclosed : c.Closed) :
    c.failed.map (·.1) = c.pendingWrites.map (·.resultCh) := by
  obtain ⟨e, err, hs⟩ := hclosed
  rw [failed, hs, List.map_map]
  rfl

omit [Float64] in
theorem failed_channels_sublist (c : Connection) :
    (c.failed.map (·.1)).Sublist (c.pendingWrites.map (·.resultCh)) := by
  by_cases hclosed : c.Closed
  · rw [failed_channels_of_closed hclosed]
  · rw [failed_of_open hclosed]
    exact List.nil_sublist _

/-- **Every write is answered once.**  Of the writes passed to `onWrite` each
has at most one result, and exactly one when the loop returns with a closed
connection.  Those answered by `processWrites` are answered without an error
and with their length, in order, and exactly when their last byte has been
placed in the send buffer; this holds whenever the loop waits, and after any
pass of the loop that fills the buffer. -/
theorem serveAll_answers (cid : ConnectionId) (config : ConnectionConfig) (syn : Option Packet)
    (rnd : Uint16) (now t₀ : Time) {events : List LoopEvent} {s : LoopState}
    (hrun : ((newConnection cid config syn rnd now).start t₀).serveAll events = .ok s) :
    ∃ writes placed,
      ((newConnection cid config syn rnd now).start t₀).watchAll events
        = .ok ⟨s, writes, placed⟩ ∧
      (s.conn.results.map (·.1)).Subperm (writes.map (·.1)) ∧
      (s.conn.Closed → (s.conn.results.map (·.1)).Perm (writes.map (·.1))) ∧
      (∃ answered waiting refused results,
        Account writes placed s.conn.pendingWrites results answered waiting refused ∧
        s.conn.results = results ++ s.conn.failed) ∧
      ∀ c ev c₁ e passes p, s = .waiting c → c.entering ev = some c₁ →
        c₁.state = .connected e → c₁.buffering e passes = .ok p →
        ∃ answered finished waiting refused,
          p.2.sendBuf.unread = p.1.unread ++ placedIn p ∧
          p.2.results = c₁.results ++ finished.map answer ∧
          Account (writes ++ ev.write?.toList) (placed ++ placedIn p) p.2.pendingWrites p.2.results
            (answered ++ finished) waiting refused := by
  obtain ⟨writes, placed, hwatch⟩ := watch_of_serve
    (w := ⟨.waiting ((newConnection cid config syn rnd now).start t₀), [], []⟩) hrun
  obtain ⟨refused, hkept⟩ : ∃ refused, Kept refused ⟨s, writes, placed⟩ :=
    foldlM_inv (fun w => ∃ refused, Kept refused w) hwatch
      ⟨[], kept_start cid config syn rnd now t₀⟩ fun _ _ _ _ ⟨_, h⟩ hok => ⟨_, h.watch hok⟩
  obtain ⟨o, results, hledger, hresults⟩ := hkept.ledger
  have hchannels := hledger.account.channels
  refine ⟨writes, placed, hwatch, ?_, ?_, ⟨_, _, _, _, hledger.account, hresults⟩, ?_⟩
  · rw [hresults, List.map_append]
    exact ((failed_channels_sublist _).append_left _).subperm.trans hchannels.subperm
  · intro hclosed
    rw [hresults, List.map_append, failed_channels_of_closed hclosed]
    exact hchannels
  · rintro c ev c₁ e passes p rfl hev hs hok
    obtain ⟨⟨⟨w, hsound⟩, hopen⟩, o, hledger⟩ := hkept.waiting
    obtain ⟨hsound₁, -, o₁, h₁⟩ := hledger.entering (w := w) hsound hopen hev
    obtain ⟨o', finished, h', hdone, hsent', hunread⟩ := h₁.buffering (w := w) hsound₁ hs hok
    refine ⟨o₁.done, finished, o'.rest, refused ++ c.refuses ev, hunread, hsent', ?_⟩
    rw [← hdone]
    exact h'.account

omit [Float64] in
/-- Two writes, of which only the first fits into a buffer of 16 bytes, and a
reset. -/
def twoWrites : List LoopEvent :=
  [.turn ⟨.onWrite [1, 2, 3] 7 0, false, 0⟩,
    .turn ⟨.onWrite (List.replicate 20 1) 8 0, false, 0⟩,
    .turn ⟨.onPacket (newPacketBuilder .st_reset 1 0 1000 101).build 0 0, false, 0⟩]

omit [Float64] in
/-- The first write is answered when it is placed, the second when the loop
returns. -/
theorem serveAll_answers_reset : ∃ s, @serveAll exactFloat64 sampleAcceptor twoWrites = .ok s ∧
    s.conn.Closed ∧ (s.conn.results.map (·.1)).Perm [7, 8] := by
  have hrun : ∃ s placed, @serveAll exactFloat64 sampleAcceptor twoWrites = .ok s ∧
      @watchAll exactFloat64 sampleAcceptor twoWrites
        = .ok ⟨s, [(7, [1, 2, 3]), (8, List.replicate 20 1)], placed⟩ ∧
      s.conn.isClosed = true :=
    ⟨_, _, rfl, rfl, rfl⟩
  let := exactFloat64
  obtain ⟨s, placed, hserve, hwatch, hclosed⟩ := hrun
  obtain ⟨writes, placed', hwatch', -, hall, -⟩ := serveAll_answers _ _ _ _ _ _ hserve
  cases hwatch.symm.trans hwatch'
  exact ⟨s, hserve, isClosed_iff.mp hclosed, hall (isClosed_iff.mp hclosed)⟩

end Connection

end UtpGo
