/-
UtpGo/WheelLock.lean

The lock of the timers.  The goroutine of the time wheel holds the wheel's
lock while it sends the packets that expire to `unackTimeoutCh`, a channel for
1000 packets.  The event loop is the only receiver of this channel, and its
handlers take the same lock for every call of the wheel.

The two are the producer and the consumer of `Handover`: a turn of the loop is
an event of the connection, and the operations it asks the lock for are the
calls of the wheel by which the handler changes the timers (`turn_of_step`).

Main results: `run_not_deadlocked`, the two do not wait for each other as long
as the channel has room for all that is due on every tick, and
`burst_deadlocks`, a run in which 1001 packets expire on one tick.
-/
import UtpGo.ConnAddress
import UtpGo.Handover

namespace UtpGo

open Checked Relation Handover

/-- The capacity of `unackTimeoutCh`. -/
def unackTimeoutCap : Nat := 1000

namespace Connection

variable [Float64] {c c' : Connection}

/-- A turn of the loop: an event other than a tick, in which the timers are
changed by the given calls of the wheel. -/
def LoopTurn (c : Connection) (wheel : TimeWheel Uint16 Packet) (queue : List Packet)
    (ops : List (WheelOp Uint16 Packet)) (c' : Connection) (queue' : List Packet) : Prop :=
  ∃ ev, (∀ order, ev ≠ .tick order) ∧
    step { c with unacked := wheel, unackTimeoutCh := queue } ev = .ok c' ∧
    (∀ op ∈ ops, op.isTick = false) ∧ c'.unacked = wheel.run ops ∧ queue' = c'.unackTimeoutCh

/-- The wheel and the loop of a connection. -/
def lockSpec : Spec Connection (TimeWheel Uint16 Packet) Packet (WheelOp Uint16 Packet) where
  cap := unackTimeoutCap
  due := fun wheel => wheel.due.map (·.2)
  clear := TimeWheel.tick
  apply := TimeWheel.apply
  turn := LoopTurn

omit [Float64] in
/-- Both at rest. -/
def atRest (c : Connection) :
    Sys Connection (TimeWheel Uint16 Packet) Packet (WheelOp Uint16 Packet) where
  consumer := c
  shared := c.unacked
  queue := c.unackTimeoutCh
  sending := none
  wants := []

/-- **Every event is a turn**: its handler changes the timers by calls of the
wheel, and the channel by receiving from it. -/
theorem turn_of_step {ev : Event} (hw : c.unacked.WF) (hev : ∀ order, ev ≠ .tick order)
    (hok : c.step ev = .ok c') :
    ∃ ops, LoopTurn c c.unacked c.unackTimeoutCh ops c' c'.unackTimeoutCh := by
  obtain ⟨rest, -, hop⟩ := step_operates hev hok
  obtain ⟨ops, htick, hwheel⟩ := hop.wheel hw
  exact ⟨ops, ev, hev, hok, htick, hwheel, rfl⟩

/-- The loop does not send on the channel. -/
theorem LoopTurn.queue_le {wheel : TimeWheel Uint16 Packet} {queue queue' : List Packet}
    {ops : List (WheelOp Uint16 Packet)} (h : LoopTurn c wheel queue ops c' queue') :
    queue'.length ≤ queue.length := by
  obtain ⟨ev, hev, hok, -, -, rfl⟩ := h
  obtain ⟨rest, hrest, hop⟩ := step_operates hev hok
  rw [hop.queue]
  exact hrest.length_le

/-! ### A burst of small packets -/

omit [Float64] in
/-- An acceptor whose peer has a large window. -/
def burstAcceptor : Connection :=
  (newConnection ⟨2, 1⟩ newConnectionConfig
    (some (newPacketBuilder .st_syn 1 0 100000 100).build) 5 0).start 0

omit [Float64] in
/-- `k` packets of one byte each have been sent, and none was acknowledged;
one more byte is in the send buffer. -/
structure Burst (k : Nat) (c : Connection) : Prop where
  config : c.config = newConnectionConfig
  pendingWrites : c.pendingWrites = []
  peerRecvWindow : c.peerRecvWindow = 100000
  unackTimeoutCh : c.unackTimeoutCh = []
  connected : ∃ e, c.state = .connected e ∧ e.closing = none ∧
    e.sendBuf = ⟨[[0]], 0, newConnectionConfig.bufferSize⟩ ∧ e.sentPackets.WF ∧
    e.sentPackets.initSeqNum = 4 ∧ e.sentPackets.packets.length = k ∧
    e.sentPackets.window.toNat = 2048 - k ∧ e.sentPackets.timeout = 4 * second

omit [Float64] in
theorem read_nil (n size : Nat) :
    SendBuffer.read ⟨[], 0, size⟩ n = .ok ([], ⟨[], 0, size⟩) := by
  unfold SendBuffer.read
  split <;> rfl

omit [Float64] in
theorem read_byte {n : Nat} (hn : 0 < n) (size : Nat) :
    SendBuffer.read ⟨[[0]], 0, size⟩ n = .ok ([0], ⟨[], 0, size⟩) := by
  have hmin : min (1 - 0) n = 1 := by omega
  have hne : n ≠ 0 := by omega
  simp only [SendBuffer.read, hne, if_false, List.length_singleton, hmin]
  rfl

omit [Float64] in
theorem readPayloads_nil (maxData : Uint32) (fuel : Nat) (windowSize : Uint32) (size : Nat) :
    readPayloads maxData fuel windowSize ⟨[], 0, size⟩ = .ok ([], ⟨[], 0, size⟩) := by
  cases fuel with
  | zero => rfl
  | succ fuel =>
      unfold readPayloads
      split
      · dsimp only
        rw [read_nil, ok_bind]
        rfl
      · rfl

omit [Float64] in
/-- The byte in the send buffer is one payload. -/
theorem readPayloads_byte {windowSize maxData : Uint32} (hw : 0 < windowSize.toNat)
    (hm : 0 < maxData.toNat) (fuel size : Nat) :
    readPayloads maxData (fuel + 1) windowSize ⟨[[0]], 0, size⟩ = .ok ([[0]], ⟨[], 0, size⟩) := by
  have hpos : 0 < (min windowSize maxData).toNat := by
    rw [Circular.toNat_min]
    omega
  unfold readPayloads
  rw [if_pos (by bv_omega)]
  dsimp only
  rw [read_byte hpos, ok_bind]
  dsimp only
  rw [if_neg (by simp), readPayloads_nil, ok_bind]
  rfl

omit [Float64] in
/-- The packet after the first `k` fits the window. -/
theorem transmit_byte {k : Nat} {sp : SentPackets} (hwf : sp.WF) (hlen : sp.packets.length = k)
    (hwindow : sp.window.toNat = 2048 - k) (hk : k < 2048) :
    sp.onTransmit sp.nextSeqNum .st_data [0] 1 0 = .ok (sp.transmitNew .st_data [0] 1 0) ∧
      (sp.transmitNew .st_data [0] 1 0).WF ∧
      (sp.transmitNew .st_data [0] 1 0).packets.length = k + 1 ∧
      (sp.transmitNew .st_data [0] 1 0).window.toNat = 2048 - (k + 1) := by
  have hfit : (1 : Uint32) ≤ sp.window := by
    rw [BitVec.le_def, hwindow]
    show 1 ≤ 2048 - k
    omega
  have hsub := SentPackets.window_transmitNew .st_data [0] 0 hfit fun h0 => absurd h0 (by decide)
  rw [hwindow] at hsub
  refine ⟨SentPackets.onTransmit_next .st_data [0] 0 hwf (by omega) hfit fun h0 =>
    absurd h0 (by decide), SentPackets.wf_transmitNew _ _ _ hwf (by omega), ?_,
    hsub.trans (Nat.sub_sub _ _ _)⟩
  rw [← hlen]
  exact List.length_append

omit [Float64] in
/-- The byte is sent, with a timer of four seconds, and the send buffer filled
from the writes that wait. -/
theorem Burst.flush {k : Nat} (h : Burst k c) (hk : k < 2048) (writes : List QueuedWrite)
    {r : Refill} (hrefill : refillLoop (writes.length + 1)
      ⟨⟨[], 0, newConnectionConfig.bufferSize⟩, writes, c.results, c.writable⟩ = .ok r)
    (hwrites : r.pendingWrites = []) :
    ∃ c' p, processWrites { c with pendingWrites := writes } 0 = .ok c' ∧
      c'.unacked = c.unacked.put (5 + BitVec.ofNat 16 k) p (4 * second) ∧
      (r.sendBuf = ⟨[[0]], 0, newConnectionConfig.bufferSize⟩ → Burst (k + 1) c') := by
  obtain ⟨e, hs, hclosing, hsendBuf, hwf, hinit, hlen, hwindow, htimeout⟩ := h.connected
  have hwin : 0 < (min e.sentPackets.window c.peerRecvWindow).toNat := by
    rw [Circular.toNat_min, h.peerRecvWindow, hwindow]
    show 0 < min (2048 - k) 100000
    omega
  have hread : readPayloads ((c.config.maxPacketSize - 64).setWidth 32)
      (e.sendBuf.unread.length + 1) (min e.sentPackets.window c.peerRecvWindow) e.sendBuf
      = .ok ([[0]], ⟨[], 0, newConnectionConfig.bufferSize⟩) := by
    rw [hsendBuf, h.config]
    exact readPayloads_byte hwin (by decide) _ _
  have hnext : e.sentPackets.nextSeqNum = 5 + BitVec.ofNat 16 k := by
    rw [SentPackets.nextSeqNum, hinit, hlen]
    bv_omega
  let sp := e.sentPackets.transmitNew .st_data [0] 1 0
  obtain ⟨hsent, hwf', hlen', hwindow'⟩ := transmit_byte hwf hlen hwindow hk
  let e₁ : Established := { e with sendBuf := r.sendBuf }
  let c₁ : Connection := { c with
    state := .connected e₁, pendingWrites := r.pendingWrites, results := r.results,
    writable := r.writable }
  let p := c₁.dataPacket e₁ e.sentPackets.nextSeqNum [0] 0
  let c' := emit { c₁ with
    state := .connected { e₁ with sentPackets := sp }
    unacked := c.unacked.put e.sentPackets.nextSeqNum p sp.timeout } p
  have hwrite : processWrites { c with pendingWrites := writes } 0
      = transmitPayloads e₁ 0 [[0]] e.sentPackets.nextSeqNum c₁ := by
    simp only [processWrites, hs, hread, hrefill, ok_bind]
    rfl
  have htransmit : transmitPayloads e₁ 0 [[0]] e.sentPackets.nextSeqNum c₁ = .ok c' := by
    show (e.sentPackets.onTransmit e.sentPackets.nextSeqNum .st_data [0] 1 0 >>= _) >>= _ = _
    rw [hsent]
    rfl
  refine ⟨c', p, hwrite.trans htransmit, ?_, fun hbuf => ?_⟩
  · show c.unacked.put e.sentPackets.nextSeqNum p e.sentPackets.timeout = _
    rw [hnext, htimeout]
  · exact ⟨h.config, hwrites, h.peerRecvWindow, h.unackTimeoutCh, { e₁ with sentPackets := sp },
      rfl, hclosing, hbuf, hwf', hinit, hlen', hwindow', htimeout⟩

/-- A write of one more byte sends the byte before it. -/
theorem Burst.write {k : Nat} (h : Burst k c) (hk : k < 2048) :
    ∃ c' p, c.step (.onWrite [0] 0 0) = .ok c' ∧
      c'.unacked = c.unacked.put (5 + BitVec.ofNat 16 k) p (4 * second) ∧ Burst (k + 1) c' := by
  have haccepts : c.acceptsWrite = true := by
    obtain ⟨e, hs, hclosing, -⟩ := h.connected
    unfold acceptsWrite
    rw [hs]
    dsimp only
    rw [hclosing]
  obtain ⟨c₁, p, hok, hwheel, hburst⟩ := h.flush hk [⟨[0], 0, 0⟩] rfl rfl
  have hnext := hburst rfl
  refine ⟨{ c₁ with writable := signal c₁.writable }, p, ?_, hwheel, ?_⟩
  · show onWrite c [0] 0 0 = _
    unfold onWrite
    rw [haccepts, h.pendingWrites]
    exact bind_eq_ok.mpr ⟨c₁, hok, rfl⟩
  · exact ⟨hnext.config, hnext.pendingWrites, hnext.peerRecvWindow, hnext.unackTimeoutCh,
      hnext.connected⟩

/-- So does the signal that there is something to write. -/
theorem Burst.send {k : Nat} (h : Burst k c) (hk : k < 2048) :
    ∃ c' p, c.step (.processWrites 0) = .ok c' ∧
      c'.unacked = c.unacked.put (5 + BitVec.ofNat 16 k) p (4 * second) := by
  have hsignal : Burst k { c with writable := c.writable - 1 } :=
    ⟨h.config, h.pendingWrites, h.peerRecvWindow, h.unackTimeoutCh, h.connected⟩
  obtain ⟨c', p, hok, hwheel, -⟩ := hsignal.flush hk [] rfl rfl
  refine ⟨c', p, ?_, hwheel⟩
  rw [← h.pendingWrites] at hok
  exact hok

end Connection

/-! ### Their timers -/

/-- The timers of `k` packets in the slot four ahead of the current one. -/
structure TimeWheel.Bears (k : Nat) (tw : TimeWheel Uint16 Packet) : Prop where
  wf : tw.WF
  slotNum : tw.slotNum = 8
  interval : tw.interval = second
  current : tw.current = 0
  held : ∀ key, (tw.valueAt 4 key).isSome = true ↔ ∃ i < k, key = 5 + BitVec.ofNat 16 i
  empty : ∀ i key, i ≠ 4 → tw.valueAt i key = none

theorem TimeWheel.bears_new : (newTimeWheel second 8 : TimeWheel Uint16 Packet).Bears 0 where
  wf := wf_new (by decide) (by decide)
  slotNum := rfl
  interval := rfl
  current := rfl
  held := by
    intro key
    rw [valueAt_new]
    refine ⟨fun h => ?_, fun ⟨i, hi, _⟩ => absurd hi (Nat.not_lt_zero i)⟩
    cases h
  empty := fun _ _ _ => valueAt_new

theorem TimeWheel.Bears.put {k : Nat} {tw : TimeWheel Uint16 Packet} (h : tw.Bears k) (p : Packet) :
    (tw.put (5 + BitVec.ofNat 16 k) p (4 * second)).Bears (k + 1) := by
  have hslot : tw.slotFor (4 * second) = 4 := by
    rw [slotFor, slotsAhead, h.current, h.slotNum, h.wf.maxDelay, h.slotNum, h.interval]
    rfl
  refine ⟨h.wf.put, h.slotNum, h.interval, h.current, fun key => ?_, fun i key hi => ?_⟩
  · rw [valueAt_put h.wf, hslot]
    split
    · rename_i heq
      exact ⟨fun _ => ⟨k, Nat.lt_succ_self k, heq.2⟩, fun _ => rfl⟩
    · rename_i hne
      rw [h.held]
      constructor
      · rintro ⟨i, hi, hkey⟩
        exact ⟨i, Nat.lt_succ_of_lt hi, hkey⟩
      · rintro ⟨i, hi, hkey⟩
        rcases Nat.lt_succ_iff_lt_or_eq.mp hi with hlt | rfl
        · exact ⟨i, hlt, hkey⟩
        · exact absurd ⟨rfl, hkey⟩ hne
  · rw [valueAt_put h.wf, hslot, if_neg fun heq => hi heq.1]
    exact h.empty i key hi

namespace Connection

variable [Float64]

theorem burst_run {k : Nat} (hk : k ≤ 2048) : ∃ c,
    burstAcceptor.run (List.replicate (k + 1) (.onWrite [0] 0 0)) = .ok c ∧ Burst k c ∧
      c.unacked.Bears k := by
  induction k with
  | zero =>
      exact ⟨_, rfl, ⟨rfl, rfl, rfl, rfl, _, rfl, rfl, rfl, SentPackets.wf_new _ _, rfl, rfl, rfl,
        rfl⟩, TimeWheel.bears_new⟩
  | succ k ih =>
      obtain ⟨c, hrun, hburst, hbears⟩ := ih (by omega)
      obtain ⟨c', p, hstep, hwheel, hburst'⟩ := hburst.write hk
      refine ⟨c', ?_, hburst', ?_⟩
      · rw [run, List.replicate_succ', List.foldlM_append]
        exact bind_eq_ok.mpr ⟨c, hrun, bind_eq_ok.mpr ⟨c', hstep, rfl⟩⟩
      · rw [hwheel]
        exact hbears.put p

end Connection

/-- The slot is the current one four ticks later, and the other slots are
still empty. -/
theorem TimeWheel.Bears.ticked {k : Nat} {tw : TimeWheel Uint16 Packet} (h : tw.Bears k) {n : Nat}
    (hn : n ≤ 4) : (tw.run (List.replicate n .tick)).current = n ∧
      (∀ key, (tw.run (List.replicate n .tick)).valueAt 4 key = tw.valueAt 4 key) ∧
      ∀ i key, i ≠ 4 → (tw.run (List.replicate n .tick)).valueAt i key = none := by
  induction n with
  | zero => exact ⟨h.current, fun _ => rfl, h.empty⟩
  | succ n ih =>
      obtain ⟨hcurrent, hheld, hempty⟩ := ih (by omega)
      have hrun : tw.run (List.replicate (n + 1) .tick)
          = (tw.run (List.replicate n .tick)).tick := by
        rw [run, List.replicate_succ', List.foldl_append]
        rfl
      rw [hrun]
      refine ⟨?_, fun key => ?_, fun i key hi => ?_⟩
      · show ((tw.run (List.replicate n .tick)).current + 1) % (tw.run _).slotNum = n + 1
        rw [hcurrent, slotNum_run, h.slotNum]
        omega
      · rw [valueAt_tick, hcurrent, if_neg (by omega)]
        exact hheld key
      · rw [valueAt_tick]
        split
        · rfl
        · exact hempty i key hi

theorem TimeWheel.due_eq_nil {tw : TimeWheel Uint16 Packet}
    (h : ∀ key, tw.valueAt tw.current key = none) : tw.due = [] := by
  refine List.eq_nil_iff_forall_not_mem.mpr fun item hitem => ?_
  have hsome := mem_due.mp (show (item.1, item.2) ∈ tw.due from hitem)
  rw [h] at hsome
  cases hsome

/-- These packets are due, and no others. -/
theorem TimeWheel.Bears.length_due {k : Nat} {tw tw' : TimeWheel Uint16 Packet} (h : tw.Bears k)
    (hk : k ≤ 65536) (hheld : ∀ key, tw'.valueAt tw'.current key = tw.valueAt 4 key) :
    tw'.due.length = k := by
  let numbers : List Uint16 := (List.range k).map fun i => 5 + BitVec.ofNat 16 i
  have hnodup : numbers.Nodup := by
    refine List.Nodup.map_on ?_ List.nodup_range
    intro i hi j hj heq
    rw [List.mem_range] at hi hj
    bv_omega
  have hmem : ∀ key, key ∈ tw'.due.map (·.1) ↔ key ∈ numbers := by
    intro key
    have hdue : key ∈ tw'.due.map (·.1) ↔ (tw.valueAt 4 key).isSome = true := by
      rw [← hheld, Option.isSome_iff_exists]
      constructor
      · intro hkey
        obtain ⟨⟨key, p⟩, hitem, rfl⟩ := List.mem_map.mp hkey
        exact ⟨p, mem_due.mp hitem⟩
      · rintro ⟨p, hp⟩
        exact List.mem_map.mpr ⟨(key, p), mem_due.mpr hp, rfl⟩
    rw [hdue, h.held, List.mem_map]
    simp only [List.mem_range, eq_comm]
  have hperm : (tw'.due.map (·.1)).Perm numbers :=
    (List.perm_ext_iff_of_nodup (OrdMap.nodup_keys _) hnodup).mpr hmem
  calc tw'.due.length = (tw'.due.map (·.1)).length := (List.length_map _).symm
    _ = numbers.length := hperm.length_eq
    _ = k := by rw [List.length_map, List.length_range]

namespace Connection

variable [Float64] {c c' : Connection}

/-- A run of the connection, with no tick, is one of the two together. -/
theorem reaches_run {events : List Event} (hw : c.unacked.WF)
    (hev : ∀ ev ∈ events, ∀ order, ev ≠ .tick order)
    (hok : c.run events = .ok c') : ReflTransGen (Roomy lockSpec) c.atRest c'.atRest := by
  induction events generalizing c with
  | nil =>
      obtain rfl := pure_eq_ok.mp hok
      exact .refl
  | cons ev events ih =>
      simp only [run, List.foldlM_cons, bind_eq_ok] at hok
      obtain ⟨c₁, hstep, hrun⟩ := hok
      obtain ⟨ops, hturn⟩ := turn_of_step hw (hev ev List.mem_cons_self) hstep
      have hwheel : c₁.unacked = c.unacked.run ops := by
        obtain ⟨-, -, -, -, hwheel, -⟩ := hturn
        exact hwheel
      have hfirst : Step lockSpec c.atRest
          ⟨c₁, c.unacked, c₁.unackTimeoutCh, none, ops⟩ := .turn rfl hturn
      have hops := reaches_operate (S := lockSpec)
        (s := ⟨c₁, c.unacked, c₁.unackTimeoutCh, none, ops⟩) rfl
      refine (ReflTransGen.head (hfirst.roomy id) hops).trans ?_
      have hrest : (⟨c₁, ops.foldl TimeWheel.apply c.unacked, c₁.unackTimeoutCh, none, []⟩ :
          Sys Connection (TimeWheel Uint16 Packet) Packet (WheelOp Uint16 Packet)) = c₁.atRest := by
        rw [atRest, hwheel, TimeWheel.run]
      exact hrest ▸ ih (step_wheel hstep hw)
        (fun ev hev' => hev ev (List.mem_cons_of_mem _ hev')) hrun

/-- The ticks on which nothing is due. -/
theorem reaches_ticks {k : Nat} {n : Nat} (hn : n ≤ 4) (h : c.unacked.Bears k)
    (hqueue : c.unackTimeoutCh = []) : ReflTransGen (Roomy lockSpec) c.atRest
      { c.atRest with shared := c.unacked.run (List.replicate n .tick) } := by
  induction n with
  | zero => exact .refl
  | succ n ih =>
      obtain ⟨hcurrent, -, hempty⟩ := h.ticked (n := n) (by omega)
      refine (ih (by omega)).trans ?_
      have hdue : (c.unacked.run (List.replicate n .tick)).due = [] :=
        TimeWheel.due_eq_nil fun key => hempty _ key (by omega)
      have hround := reaches_clear (S := lockSpec)
        (s := { c.atRest with shared := c.unacked.run (List.replicate n .tick) }) rfl
        (by show List.map _ (TimeWheel.due _) = []; rw [hdue]; rfl)
        (by show c.unackTimeoutCh.length ≤ _; rw [hqueue]; exact Nat.zero_le _)
      have hrun : c.unacked.run (List.replicate (n + 1) .tick)
          = (c.unacked.run (List.replicate n .tick)).tick := by
        rw [TimeWheel.run, List.replicate_succ', List.foldl_append]
        rfl
      rw [hrun]
      exact hround

/-- After `k + 1` writes of one byte each, with nothing acknowledged: `k` packets
were sent before the wheel turned, and the last byte waits in the send buffer.
Before the tick on which the packets expire the loop has begun to send the last
byte, and asks for the lock to set the timer of the packet. -/
theorem burst_waits {k : Nat} (hk : k < 2048) : ∃ s,
    ReflTransGen (Roomy lockSpec) burstAcceptor.atRest s ∧ s.sending = none ∧ s.wants ≠ [] ∧
      s.queue = [] ∧ (lockSpec.due s.shared).length = k := by
  obtain ⟨c, hrun, hburst, hbears⟩ := burst_run hk.le
  have hwf : burstAcceptor.unacked.WF := wheel_start _ _ _ _ _ _ (by decide)
  have hsent := reaches_run hwf (fun ev hev order => by
    rw [(List.mem_replicate.mp hev).2]
    rintro ⟨⟩) hrun
  have hqueue : c.unackTimeoutCh = [] := hburst.unackTimeoutCh
  have hticks := reaches_ticks (le_refl 4) hbears hqueue
  obtain ⟨hcurrent, hheld, -⟩ := hbears.ticked (le_refl 4)
  let wheel := c.unacked.run (List.replicate 4 .tick)
  -- the loop takes the signal to write
  have hwheel : Burst k { c with unacked := wheel, unackTimeoutCh := [] } :=
    ⟨hburst.config, hburst.pendingWrites, hburst.peerRecvWindow, rfl, hburst.connected⟩
  obtain ⟨c', p, hstep, hput⟩ := hwheel.send hk
  let ops : List (WheelOp Uint16 Packet) := [.put (5 + BitVec.ofNat 16 k) p (4 * second)]
  have hturn : Step lockSpec { c.atRest with shared := wheel }
      ⟨c', wheel, c'.unackTimeoutCh, none, ops⟩ := by
    refine .turn rfl ⟨.processWrites 0, ?_, ?_, ?_, hput, rfl⟩
    · rintro order ⟨⟩
    · show step { c with unacked := wheel, unackTimeoutCh := c.unackTimeoutCh } _ = _
      rw [hqueue]
      exact hstep
    · intro op hop
      rw [List.mem_singleton.mp hop]
      rfl
  have hdue : wheel.due.length = k :=
    hbears.length_due (by omega) fun key => by rw [hcurrent]; exact hheld key
  refine ⟨_, (hsent.trans hticks).tail (hturn.roomy id), rfl, List.cons_ne_nil _ _, ?_, ?_⟩
  · exact (step_handled (by rintro order ⟨⟩) (by rintro now ⟨⟩) hstep).queue
  · exact (List.length_map _).trans hdue

/-! ### Deadlocks -/

/-- **No deadlock while the channel has room**: the wheel and the event loop
of a connection do not wait for each other in any state of a run in which, on
every tick, the packets that expire fit into the channel with those that wait
in it. -/
theorem run_not_deadlocked (cid : ConnectionId) (config : ConnectionConfig) (syn : Option Packet)
    (rnd : Uint16) (now t₀ : Time)
    (s : Sys Connection (TimeWheel Uint16 Packet) Packet (WheelOp Uint16 Packet))
    (hrun : ReflTransGen (Roomy lockSpec)
      (atRest ((newConnection cid config syn rnd now).start t₀)) s) :
    ¬ Deadlocked lockSpec s :=
  not_deadlocked (fun _ _ _ _ _ _ h => LoopTurn.queue_le h) rfl hrun

omit [Float64] in
/-- A thousand packets expire on one tick while the loop asks for the lock.  All
but the last are in the channel, which has room for it. -/
theorem run_not_deadlocked_burst : ∃ s p,
    ReflTransGen (Roomy (@lockSpec exactFloat64)) burstAcceptor.atRest s ∧
      s.sending = some [p] ∧ s.queue.length = 999 ∧ s.wants ≠ [] ∧
      ¬ Deadlocked (@lockSpec exactFloat64) s := by
  let := exactFloat64
  obtain ⟨s, hreach, hidle, hwants, hqueue, hdue⟩ := burst_waits (k := 1000) (by decide)
  let items := lockSpec.due s.shared
  have hitems : items.length = 1000 := hdue
  have hbegin : Roomy lockSpec s { s with sending := some items } :=
    ⟨.begin hidle (List.Perm.refl _), fun _ _ => by rw [hqueue, hdue]; exact le_refl 1000⟩
  have hsends := reaches_send (S := lockSpec) (s := { s with sending := some items }) rfl
    (show 999 ≤ items.length by omega)
    (by show s.queue.length + 999 ≤ 1000; rw [hqueue]; decide)
  have hall := (hreach.tail hbegin).trans hsends
  have hlast : (items.drop 999).length = 1 := by
    rw [List.length_drop, hitems]
  obtain ⟨p, hp⟩ := List.length_eq_one_iff.mp hlast
  refine ⟨_, p, hall, congrArg some hp, ?_, hwants,
    run_not_deadlocked _ _ _ _ _ _ _ hall⟩
  show (s.queue ++ items.take 999).length = 999
  rw [hqueue, List.nil_append, List.length_take]
  omega

omit [Float64] in
/-- With one packet more, 1002 writes of one byte each, the two wait for each
other. -/
theorem burst_deadlocks : ∃ s,
    ReflTransGen (Step (@lockSpec exactFloat64)) burstAcceptor.atRest s ∧
      Deadlocked (@lockSpec exactFloat64) s := by
  let := exactFloat64
  obtain ⟨s, hreach, hidle, hwants, hqueue, hdue⟩ := burst_waits (k := 1001) (by decide)
  obtain ⟨s', hreach', hdead⟩ := reaches_deadlock hidle hwants
    (by rw [hqueue]; exact Nat.zero_le _) (by rw [hqueue, hdue]; decide)
  exact ⟨s', (reaches_of_roomy hreach).trans hreach', hdead⟩

end Connection

end UtpGo
