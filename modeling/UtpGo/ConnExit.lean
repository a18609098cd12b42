/-
UtpGo/ConnExit.lean

How the event loop returns.  It returns when the connection is closed, and
then tells the socket, with a shutdown event, to forget it; and it returns
when its context is cancelled, and then tells the socket nothing.

`Serves` says what one event can make of a loop that waits, with what it hands
to the socket: packets, and the shutdown event with which a closed connection
takes its leave.

Main result: `returns_shutdown_iff`, a loop that returns has handed exactly one
shutdown event to the socket if and only if it does not return because of its
context.
-/
import UtpGo.ConnLoop

namespace UtpGo

open Checked

/-! ### The loop with its context -/

/-- What the loop selects: an event with what follows it, or the end of the
context. -/
inductive LoopEvent where
  | turn (t : Connection.Turn)
  | ctxDone

def LoopState.conn : LoopState → Connection
  | .waiting c => c
  | .returned c => c

namespace Connection

variable [Float64]

/-- Upon the end of the context the loop sets the shutdown flag of the stream
and returns. -/
def serve : LoopState → LoopEvent → GoM LoopState
  | s, .turn t => loopStep s t
  | .waiting c, .ctxDone => pure (.returned c)
  | .returned c, .ctxDone => pure (.returned c)

def serveAll (c : Connection) (events : List LoopEvent) : GoM LoopState :=
  events.foldlM serve (.waiting c)

omit [Float64] in
/-- The shutdown events handed to the socket. -/
def shutdowns (c : Connection) : Nat := c.socketEvents.count .shutdown

end Connection

/-! ### What is handed to the socket -/

/-- Since the state `c` only packets were handed to the socket. -/
def Midcall.Speaks (c : Connection) (m : Midcall) : Prop :=
  ∃ packets : List Packet, m.conn.socketEvents = c.socketEvents ++ packets.map .outgoing

namespace Midcall.Speaks

variable {c : Connection} {m m' : Midcall}

theorem start {w : Bytes} : Midcall.Speaks c ⟨c, none, w⟩ := ⟨[], (List.append_nil _).symm⟩

theorem of_eq (h : m.Speaks c) (heq : m'.conn.socketEvents = m.conn.socketEvents) :
    m'.Speaks c := by
  obtain ⟨packets, hpackets⟩ := h
  exact ⟨packets, heq.trans hpackets⟩

theorem of_emit {p : Packet} (h : m.Speaks c)
    (heq : m'.conn.socketEvents = m.conn.socketEvents ++ [.outgoing p]) : m'.Speaks c := by
  obtain ⟨packets, hpackets⟩ := h
  refine ⟨packets ++ [p], ?_⟩
  rw [heq, hpackets, List.map_append, List.append_assoc]
  rfl

end Midcall.Speaks

/-- No action of a handler is a shutdown event. -/
theorem Act.speaks [Float64] {packet? : Option Packet} {guard : Guard} {c : Connection}
    {m m' : Midcall} (h : Act packet? guard m m') (hm : m.Speaks c) : m'.Speaks c := by
  cases h with
  | sends h =>
      cases h with
      | enqueue | flush | pickLost | pickExpired | pickFin => exact hm.of_eq rfl
      | send => exact hm.of_emit rfl
  | book h => exact hm.of_eq h.socketEvents
  | emitState | emitReset | emitSyn => exact hm.of_emit rfl
  | backOff | beginClosing | recvData | recvFin | readOut | endOfStream | closedRead | acked
  | close | establish => exact hm.of_eq rfl

namespace Connection

variable {c c' : Connection} {now : Time}

theorem run_speaks [Float64] {events : List Event} {w : Bytes}
    (hsound : Midcall.Sound ⟨c, none, w⟩) (hrun : c.run events = .ok c') :
    ∃ w' : Bytes, Midcall.Sound ⟨c', none, w'⟩ ∧
      ∃ packets : List Packet, c'.socketEvents = c.socketEvents ++ packets.map .outgoing :=
  run_inv (I := Midcall.Speaks c) (fun _ _ _ hact _ hm => hact.speaks hm)
    (fun _ _ _ _ hm => hm.of_eq rfl) (along_unguarded c events) hsound .start hrun

/-- A closed connection takes its leave with the shutdown event. -/
theorem leave_speaks (hclosed : c.Closed) (hok : c.leave now = .ok c') :
    c'.socketEvents = c.socketEvents ++ [.shutdown] := by
  obtain ⟨e, err, hs⟩ := hclosed
  rw [leave_of_closed hs] at hok
  cases hok
  rfl

/-! ### The loop that waits -/

/-- A loop that waits: its buffers keep their invariants, and the connection
is not closed. -/
structure Waits (c : Connection) : Prop where
  sound : ∃ w : Bytes, Midcall.Sound ⟨c, none, w⟩
  opened : ¬ c.Closed

theorem waits_start (cid : ConnectionId) (config : ConnectionConfig) (syn : Option Packet)
    (rnd : Uint16) (now t₀ : Time) : ((newConnection cid config syn rnd now).start t₀).Waits :=
  ⟨⟨[], sound_start cid config syn rnd now t₀ []⟩, not_closed_start cid config syn rnd now t₀⟩

/-- One event of a loop that waits: the context ends, or there is a turn, after
which the loop waits again or takes its leave. -/
theorem serve_cases [Float64] {ev : LoopEvent} {s : LoopState}
    (hok : serve (.waiting c) ev = .ok s) : (ev = .ctxDone ∧ s = .returned c) ∨
    ∃ t c₁, ev = .turn t ∧ c.turn t = .ok c₁ ∧ (¬ c₁.Closed ∧ s = .waiting c₁ ∨
      c₁.Closed ∧ ∃ c₂, c₁.leave t.now = .ok c₂ ∧ s = .returned c₂) := by
  cases ev with
  | ctxDone => exact .inl ⟨rfl, (pure_eq_ok.mp hok).symm⟩
  | turn t =>
      obtain ⟨c₁, hturn, hok⟩ := bind_eq_ok.mp hok
      refine .inr ⟨t, c₁, rfl, hturn, ?_⟩
      split at hok
      · rename_i hclosed
        obtain ⟨c₂, hleave, hok⟩ := bind_eq_ok.mp hok
        exact .inr ⟨isClosed_iff.mp hclosed, c₂, hleave, (pure_eq_ok.mp hok).symm⟩
      · rename_i hopen
        exact .inl ⟨fun hclosed => hopen (isClosed_iff.mpr hclosed), (pure_eq_ok.mp hok).symm⟩

theorem serve_returned [Float64] {ev : LoopEvent} {s : LoopState}
    (hok : serve (.returned c) ev = .ok s) : s = .returned c := by
  cases ev <;> exact (pure_eq_ok.mp hok).symm

/-- What every event of a connection keeps holds of a loop as long as it
serves, and after it has taken its leave. -/
theorem serve_inv [Float64] {I : Connection → Prop}
    (hstep : ∀ c c' ev, I c → c.step ev = .ok c' → I c')
    (hleave : ∀ c results socketEvents, I c → I { c with results, socketEvents })
    {s s' : LoopState} {ev : LoopEvent} (h : I s.conn) (hok : serve s ev = .ok s') :
    I s'.conn := by
  rcases s with c | c
  swap
  · rw [serve_returned hok]
    exact h
  rcases serve_cases hok with ⟨-, rfl⟩ | ⟨t, c₁, -, hturn, hnext⟩
  · exact h
  obtain ⟨events, hrun⟩ := turn_run hturn
  have h₁ : I c₁ := foldlM_inv I hrun h fun c ev c' _ => hstep c c' ev
  rcases hnext with ⟨-, rfl⟩ | ⟨⟨e, err, hs⟩, c₂, hend, rfl⟩
  · exact h₁
  · rw [leave_of_closed hs] at hend
    cases hend
    exact hleave _ _ _ h₁

/-- What one event makes of a loop that waits. -/
inductive Serves (c : Connection) : LoopEvent → LoopState → Prop where
  | waits {t : Turn} {c' : Connection} {packets : List Packet} (hwaits : c'.Waits)
      (hout : c'.socketEvents = c.socketEvents ++ packets.map .outgoing) :
      Serves c (.turn t) (.waiting c')
  | leaves {t : Turn} {c' : Connection} {packets : List Packet}
      (hout : c'.socketEvents = c.socketEvents ++ packets.map .outgoing ++ [.shutdown]) :
      Serves c (.turn t) (.returned c')
  | cancelled : Serves c .ctxDone (.returned c)

theorem serves_of_serve [Float64] {ev : LoopEvent} {s : LoopState} (hwaits : c.Waits)
    (hok : serve (.waiting c) ev = .ok s) : Serves c ev s := by
  rcases serve_cases hok with ⟨rfl, rfl⟩ | ⟨t, c₁, rfl, hturn, hnext⟩
  · exact .cancelled
  · obtain ⟨events, hrun⟩ := turn_run hturn
    obtain ⟨w, hsound⟩ := hwaits.sound
    obtain ⟨w₁, hsound₁, packets, hpackets⟩ := run_speaks hsound hrun
    rcases hnext with ⟨hopen, rfl⟩ | ⟨hclosed, c₂, hleave, rfl⟩
    · exact .waits ⟨⟨w₁, hsound₁⟩, hopen⟩ hpackets
    · have hshutdown := leave_speaks hclosed hleave
      rw [hpackets] at hshutdown
      exact .leaves hshutdown

theorem count_shutdown_outgoing (packets : List Packet) :
    (packets.map SocketEvent.outgoing).count .shutdown = 0 := by
  refine List.count_eq_zero.mpr fun h => ?_
  obtain ⟨p, -, hp⟩ := List.mem_map.mp h
  cases hp

theorem shutdowns_start (cid : ConnectionId) (config : ConnectionConfig) (syn : Option Packet)
    (rnd : Uint16) (now t₀ : Time) :
    ((newConnection cid config syn rnd now).start t₀).shutdowns = 0 := by
  cases syn <;> rfl

/-- As long as the loop waits there is no shutdown event. -/
theorem serveAll_waits [Float64] {events : List LoopEvent} (hwaits : c.Waits)
    (hnone : c.shutdowns = 0) (hok : c.serveAll events = .ok (.waiting c')) :
    c'.Waits ∧ c'.shutdowns = 0 := by
  have hinv : ∀ c₁, LoopState.waiting c' = .waiting c₁ → c₁.Waits ∧ c₁.shutdowns = 0 := by
    refine foldlM_inv (fun s : LoopState => ∀ c₁, s = .waiting c₁ → c₁.Waits ∧ c₁.shutdowns = 0)
      hok ?_ ?_
    · rintro c₁ ⟨⟩
      exact ⟨hwaits, hnone⟩
    · intro s ev s' _ hs hstep c₁ hs'
      subst hs'
      rcases s with c₀ | c₀
      · obtain ⟨hwaits₀, hnone₀⟩ := hs c₀ rfl
        cases serves_of_serve hwaits₀ hstep with
        | waits hwaits₁ hout =>
            refine ⟨hwaits₁, ?_⟩
            rw [shutdowns, hout, List.count_append, count_shutdown_outgoing]
            exact hnone₀
      · cases serve_returned hstep
  exact hinv c' rfl

/-- **A shutdown event for every loop that is not cancelled**: a loop that
returns has handed exactly one to the socket if and only if it does not return
because of its context. -/
theorem returns_shutdown_iff [Float64] (cid : ConnectionId) (config : ConnectionConfig)
    (syn : Option Packet) (rnd : Uint16) (now t₀ : Time) {events : List LoopEvent}
    {last : LoopEvent}
    (hwait : ((newConnection cid config syn rnd now).start t₀).serveAll events
      = .ok (.waiting c))
    (hlast : serve (.waiting c) last = .ok (.returned c')) :
    c'.shutdowns = 1 ↔ last ≠ .ctxDone := by
  obtain ⟨hwaits, hnone⟩ := serveAll_waits (waits_start cid config syn rnd now t₀)
    (shutdowns_start cid config syn rnd now t₀) hwait
  cases serves_of_serve hwaits hlast with
  | leaves hout =>
      refine ⟨fun _ => by rintro ⟨⟩, fun _ => ?_⟩
      rw [shutdowns, hout, List.count_append, List.count_append, count_shutdown_outgoing]
      rw [shutdowns] at hnone
      rw [hnone]
      rfl
  | cancelled =>
      rw [hnone]
      refine ⟨?_, fun h => absurd rfl h⟩
      rintro ⟨⟩

end Connection

end UtpGo
