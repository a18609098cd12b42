/-
UtpGo/DelayHeap.lean

The delays of the congestion controller in their heap: `delayAccumulator` and
`delayHeap` of `congestion.go`.  The heap is ordered by the delays and not by
their deadlines, and `BaseDelay` takes a delay out only when it is the root
and has expired, so expired delays stay in the heap below it.

The package `container/heap` is any `HeapOps`: nothing is used of it but that
it keeps the order.  A call of `BaseDelay` is a `Lookup` of `Expiry`, and the
two results are the two rules of that library.

Main results: `run_baseDelay`, the base delay is the least delay of the
window, and `after_agrees`, the sorted list that the controller is modelled
with (`DelayAccumulator`) gives the same answers.
-/
import UtpGo.BinHeap
import UtpGo.CongestionBounds
import UtpGo.Expiry

namespace UtpGo

open Heaps Expiry

/-! ### The accumulator -/

/-- `delay`.  A duration of the source may be negative. -/
structure TimedDelay where
  value : Int
  deadline : Time
  deriving DecidableEq

/-- `delayHeap`, whose `Less` compares the values. -/
abbrev DelayHeap (n : Nat) : Type := Heap TimedDelay.value n

/-- `delayAccumulator`. -/
structure HeapAccumulator where
  size : Nat
  delays : DelayHeap size
  window : Int

def newDelayAccumulator (window : Int) : HeapAccumulator := ⟨0, .empty, window⟩

namespace HeapAccumulator

section Calls

variable (ops : HeapOps TimedDelay.value)

def push (da : HeapAccumulator) (delayTime : Int) (receivedAt : Time) : HeapAccumulator :=
  let d : TimedDelay := { value := delayTime, deadline := receivedAt + da.window }
  ⟨da.size + 1, ops.push da.delays d, da.window⟩

/-- The loop of `BaseDelay`: what is left of the heap, and the result. -/
def popExpired (now : Time) : (n : Nat) → DelayHeap n → (Σ m, DelayHeap m) × Int
  | 0, delays => (⟨0, delays⟩, 0)
  | n + 1, delays =>
      if delays.root.deadline < now then popExpired now n (ops.pop delays)
      else (⟨n + 1, delays⟩, delays.root.value)

def baseDelay (da : HeapAccumulator) (now : Time) : HeapAccumulator × Int :=
  let (delays, base) := popExpired ops now da.size da.delays
  (⟨delays.1, delays.2, da.window⟩, base)

/-- A call of the accumulator.  `BaseDelay` reads the clock. -/
inductive Call where
  | push (delayTime : Int) (receivedAt : Time)
  | baseDelay (now : Time)

def call (da : HeapAccumulator) : Call → HeapAccumulator
  | .push delayTime receivedAt => da.push ops delayTime receivedAt
  | .baseDelay now => (da.baseDelay ops now).1

def run (window : Int) (calls : List Call) : HeapAccumulator :=
  calls.foldl (call ops) (newDelayAccumulator window)

end Calls

/-- The delays pushed, with the times of their receipt. -/
def pushes (calls : List Call) : List (Int × Time) :=
  calls.filterMap fun
    | .push delayTime receivedAt => some (delayTime, receivedAt)
    | .baseDelay _ => none

/-- The readings of the clock. -/
def readings (calls : List Call) : List Time :=
  calls.filterMap fun
    | .push .. => none
    | .baseDelay now => some now

/-- The least of the delays received within the window, and 0 if there is
none. -/
def windowMin (window : Int) (received : List (Int × Time)) (now : Time) : Int :=
  ((received.filter fun p => p.2 + window ≥ now).map (·.1)).min?.getD 0

/-! ### A call is a lookup -/

/-- A delay as a value that expires. -/
def entry (d : TimedDelay) : Int × Time := (d.value, d.deadline)

def contents {n : Nat} (delays : DelayHeap n) : Set (Int × Time) := entry '' delays.toSet

def entries (da : HeapAccumulator) : Set (Int × Time) := contents da.delays

variable {ops : HeapOps TimedDelay.value} {n : Nat}

theorem contents_push (delays : DelayHeap n) (d : TimedDelay) :
    contents (ops.push delays d) = insert (entry d) (contents delays) := by
  rw [contents, ops.toSet_push, Set.image_insert_eq]
  rfl

theorem contents_pop (ops : HeapOps TimedDelay.value) (delays : DelayHeap (n + 1)) :
    contents delays = insert (entry delays.root) (contents (ops.pop delays)) := by
  rw [contents, ops.toSet_pop, Set.image_insert_eq]
  rfl

theorem contents_empty (delays : DelayHeap 0) : contents delays = ∅ := by
  rw [contents, delays.toSet_empty, Set.image_empty]

theorem root_le_contents (delays : DelayHeap (n + 1)) :
    ∀ x ∈ contents delays, (entry delays.root).1 ≤ x.1 := by
  rintro x ⟨d, hd, rfl⟩
  exact delays.root_le hd

theorem popExpired_lookup (now : Time) (delays : DelayHeap n) : ∃ answer,
    (popExpired ops now n delays).2 = answer.getD 0 ∧
      Lookup now (contents delays) (contents (popExpired ops now n delays).1.2) answer := by
  induction n with
  | zero =>
      refine ⟨none, rfl, ?_⟩
      show Lookup now (contents delays) (contents delays) none
      rw [contents_empty]
      exact lookup_empty
  | succ n ih =>
      by_cases hexpired : delays.root.deadline < now
      · have hstep : popExpired ops now (n + 1) delays = popExpired ops now n (ops.pop delays) :=
          if_pos hexpired
        obtain ⟨answer, hresult, hlookup⟩ := ih (ops.pop delays)
        have hleast := root_le_contents delays
        rw [contents_pop ops] at hleast ⊢
        rw [hstep]
        exact ⟨answer, hresult, hlookup.drop hexpired fun y hy => hleast y (.inr hy)⟩
      · have hstep : popExpired ops now (n + 1) delays = (⟨n + 1, delays⟩, delays.root.value) :=
          if_neg hexpired
        have hroot : entry delays.root ∈ contents delays := by
          rw [contents_pop ops]
          exact Set.mem_insert _ _
        rw [hstep]
        exact ⟨some delays.root.value, rfl,
          lookup_hit hroot (not_lt.mp hexpired) (root_le_contents delays)⟩

theorem baseDelay_lookup (ops : HeapOps TimedDelay.value) (da : HeapAccumulator) (now : Time) :
    ∃ answer, (da.baseDelay ops now).2 = answer.getD 0 ∧
      Lookup now da.entries (da.baseDelay ops now).1.entries answer :=
  popExpired_lookup now da.delays

theorem entries_push (da : HeapAccumulator) (delayTime : Int) (receivedAt : Time) :
    (da.push ops delayTime receivedAt).entries
      = insert (delayTime, receivedAt + da.window) da.entries :=
  contents_push da.delays _

theorem entries_new (window : Int) : (newDelayAccumulator window).entries = ∅ :=
  contents_empty _

/-! ### The window -/

/-- What was pushed, with the deadlines. -/
def history (window : Int) (calls : List Call) : Set (Int × Time) :=
  ofList ((pushes calls).map fun p => (p.1, p.2 + window))

theorem mem_values_history {window : Int} {calls : List Call} {now : Time} {v : Int} :
    v ∈ values now (history window calls) ↔
      v ∈ ((pushes calls).filter fun p => p.2 + window ≥ now).map (·.1) := by
  constructor
  · rintro ⟨deadline, hmem, hnow⟩
    obtain ⟨p, hp, heq⟩ := List.mem_map.mp hmem
    cases heq
    exact List.mem_map.mpr ⟨p, List.mem_filter.mpr ⟨hp, decide_eq_true hnow⟩, rfl⟩
  · intro hv
    obtain ⟨p, hp, rfl⟩ := List.mem_map.mp hv
    obtain ⟨hp, hnow⟩ := List.mem_filter.mp hp
    exact ⟨p.2 + window, List.mem_map.mpr ⟨p, hp, rfl⟩, of_decide_eq_true hnow⟩

theorem windowMin_answers (window : Int) (calls : List Call) (now : Time) : ∃ answer,
    windowMin window (pushes calls) now = answer.getD 0 ∧
      Answers (values now (history window calls)) answer := by
  refine ⟨_, rfl, fun v hv => ?_, fun hnone => ?_⟩
  · obtain ⟨hmem, hle⟩ := List.min?_eq_some_iff.mp hv
    exact ⟨mem_values_history.mpr hmem, fun w hw => hle w (mem_values_history.mp hw)⟩
  · refine Set.eq_empty_of_forall_notMem fun v hv => ?_
    have hmem := mem_values_history.mp hv
    rw [List.min?_eq_none_iff.mp hnone] at hmem
    exact absurd hmem List.not_mem_nil

theorem history_push (window : Int) (calls : List Call) (delayTime : Int) (receivedAt : Time) :
    history window (calls ++ [.push delayTime receivedAt])
      = insert (delayTime, receivedAt + window) (history window calls) := by
  have hpushes : pushes (calls ++ [.push delayTime receivedAt])
      = pushes calls ++ [(delayTime, receivedAt)] := by
    simp [pushes]
  rw [history, hpushes, List.map_append, ofList_perm List.perm_append_comm]
  exact ofList_cons _ _

theorem readings_push (calls : List Call) (delayTime : Int) (receivedAt : Time) :
    readings (calls ++ [.push delayTime receivedAt]) = readings calls := by
  simp [readings]

theorem run_append (ops : HeapOps TimedDelay.value) (window : Int) (calls : List Call) (c : Call) :
    run ops window (calls ++ [c]) = call ops (run ops window calls) c := by
  rw [run, List.foldl_append]
  rfl

/-- After any calls the heap tracks what was pushed. -/
theorem run_tracks (ops : HeapOps TimedDelay.value) (window : Int) (calls : List Call) :
    (run ops window calls).window = window ∧
      Tracks {t | t ∈ readings calls} (history window calls) (run ops window calls).entries := by
  induction calls using List.reverseRecOn with
  | nil =>
      refine ⟨rfl, ?_⟩
      have hhistory : history window [] = ∅ := ofList_nil
      rw [hhistory, run, List.foldl_nil, entries_new]
      exact tracks_empty
  | append_singleton calls c ih =>
      obtain ⟨hwindow, htracks⟩ := ih
      rw [run_append]
      cases c with
      | push delayTime receivedAt =>
          refine ⟨hwindow, ?_⟩
          rw [readings_push, history_push, call, entries_push, hwindow]
          exact htracks.add _
      | baseDelay now =>
          refine ⟨hwindow, ?_⟩
          obtain ⟨answer, -, hlookup⟩ := baseDelay_lookup ops (run ops window calls) now
          have hreadings : {t | t ∈ readings (calls ++ [.baseDelay now])}
              = insert now {t | t ∈ readings calls} := by
            ext t
            simp [readings, or_comm]
          have hhistory : history window (calls ++ [.baseDelay now]) = history window calls := by
            simp [history, pushes]
          rw [hreadings, hhistory]
          exact htracks.lookup hlookup

theorem baseDelay_of_le (ops : HeapOps TimedDelay.value) (window : Int) {calls : List Call}
    {now : Time} (hclock : ∀ t ∈ readings calls, t ≤ now) :
    ((run ops window calls).baseDelay ops now).2 = windowMin window (pushes calls) now := by
  obtain ⟨answer, hresult, hlookup⟩ := baseDelay_lookup ops (run ops window calls) now
  obtain ⟨least, hmin, hleast⟩ := windowMin_answers window calls now
  have hvalues := (run_tracks ops window calls).2.values_eq hclock
  rw [hresult, hmin, hlookup.answers.unique (hvalues ▸ hleast)]

/-- **The base delay is the least delay of the window**: in any sequence of
calls during which the clock does not go back, a `BaseDelay` returns the least
of all delays pushed so far that were received within the window, and 0 if
there is none. -/
theorem run_baseDelay (ops : HeapOps TimedDelay.value) (window : Int) (calls : List Call)
    (now : Time) (hclock : (readings (calls ++ [.baseDelay now])).Pairwise (· ≤ ·)) :
    ((run ops window calls).baseDelay ops now).2 = windowMin window (pushes calls) now := by
  rw [readings, List.filterMap_append] at hclock
  refine baseDelay_of_le ops window fun t ht => ?_
  exact (List.pairwise_append.mp hclock).2.2 t ht now (List.mem_singleton_self now)

/-- The delays of 50 and 25 expire in the heap while that of 5 is its root. -/
theorem run_baseDelay_expired :
    ((run containerHeap 100 [.push 50 0, .push 25 10, .push 5 20, .push 1 (-100), .baseDelay 30,
      .push 70 90, .baseDelay 115]).baseDelay containerHeap 121).2 = 70 :=
  (run_baseDelay containerHeap 100 _ 121 (by decide)).trans (by decide)

end HeapAccumulator

/-! ### The sorted list -/

namespace DelayAccumulator

open HeapAccumulator

/-- The entries of the list, as values that expire. -/
def listed (delays : List Delay) : Set (Int × Time) :=
  ofList (delays.map fun d => ((d.value : Int), d.deadline))

theorem listed_nil : listed [] = ∅ := ofList_nil

/-- In increasing order of values. -/
def Sorted (delays : List Delay) : Prop := delays.Pairwise fun a b => a.value ≤ b.value

/-- `push` inserts in order. -/
theorem push_eq (da : DelayAccumulator) (delayTime : Duration) (receivedAt : Time) :
    (da.push delayTime receivedAt).delays
      = da.delays.orderedInsert (fun a b => a.value ≤ b.value)
          ⟨delayTime, receivedAt + da.window⟩ := by
  rw [List.orderedInsert_eq_take_drop]
  simp [push]

theorem sorted_push {da : DelayAccumulator} (h : Sorted da.delays) (delayTime : Duration)
    (receivedAt : Time) : Sorted (da.push delayTime receivedAt).delays := by
  have htotal : Std.Total fun a b : Delay => a.value ≤ b.value := ⟨fun _ _ => le_total _ _⟩
  have htrans : IsTrans Delay fun a b => a.value ≤ b.value := ⟨fun _ _ _ => le_trans⟩
  rw [push_eq]
  exact List.Pairwise.orderedInsert _ _ h

theorem listed_push (da : DelayAccumulator) (delayTime : Duration) (receivedAt : Time) :
    listed (da.push delayTime receivedAt).delays
      = insert ((delayTime : Int), receivedAt + da.window) (listed da.delays) := by
  rw [listed, push_eq, ofList_perm ((List.perm_orderedInsert _ _ _).map _)]
  exact ofList_cons _ _

theorem dropWhile_lookup (now : Time) {delays : List Delay} (h : Sorted delays) :
    Lookup now (listed delays) (listed (delays.dropWhile fun d => d.deadline < now))
      ((delays.dropWhile fun d => d.deadline < now).head?.map fun d => (d.value : Int)) := by
  induction delays with
  | nil =>
      rw [List.dropWhile_nil, listed_nil]
      exact lookup_empty
  | cons d delays ih =>
      obtain ⟨hhead, htail⟩ := List.pairwise_cons.mp h
      have hleast : ∀ y ∈ listed delays, (d.value : Int) ≤ y.1 := by
        intro y hy
        obtain ⟨d', hd', rfl⟩ := List.mem_map.mp hy
        exact Int.ofNat_le.mpr (hhead d' hd')
      have hcons : listed (d :: delays) = insert ((d.value : Int), d.deadline) (listed delays) :=
        ofList_cons _ _
      rw [hcons]
      by_cases hexpired : d.deadline < now
      · rw [List.dropWhile_cons_of_pos (by simpa using hexpired)]
        exact (ih htail).drop hexpired hleast
      · rw [List.dropWhile_cons_of_neg (by simpa using hexpired), hcons]
        refine lookup_hit (Set.mem_insert _ _) (not_lt.mp hexpired) ?_
        rintro y (rfl | hy)
        · exact le_refl _
        · exact hleast y hy

end DelayAccumulator

namespace HeapAccumulator

open DelayAccumulator

/-- The heap and the list agree on the latest deadline of every delay. -/
structure Agrees (da : HeapAccumulator) (list : DelayAccumulator) : Prop where
  window : da.window = list.window
  sorted : Sorted list.delays
  agree : Agree da.entries (listed list.delays)

variable {da : HeapAccumulator} {list : DelayAccumulator}

theorem Agrees.push (h : Agrees da list) (ops : HeapOps TimedDelay.value) (delayTime : Duration)
    (receivedAt : Time) :
    Agrees (da.push ops delayTime receivedAt) (list.push delayTime receivedAt) := by
  refine ⟨h.window, sorted_push h.sorted delayTime receivedAt, ?_⟩
  rw [entries_push, listed_push, h.window]
  exact h.agree.add _

theorem Agrees.baseDelay (h : Agrees da list) (ops : HeapOps TimedDelay.value) (now : Time) :
    (da.baseDelay ops now).2 = (list.baseDelay now).2 ∧
      Agrees (da.baseDelay ops now).1 (list.baseDelay now).1 := by
  obtain ⟨answer, hresult, hlookup⟩ := baseDelay_lookup ops da now
  obtain ⟨hsame, hagree⟩ := h.agree.lookup hlookup (dropWhile_lookup now h.sorted)
  refine ⟨?_, h.window, h.sorted.sublist (List.dropWhile_sublist _), hagree⟩
  rw [hresult, hsame]
  show _ = ((((list.delays.dropWhile fun d => d.deadline < now).head?.map
    (·.value)).getD 0 : Nat) : Int)
  cases (list.delays.dropWhile fun d => d.deadline < now).head? with
  | none => rfl
  | some d => rfl

theorem agrees_new (window : Duration) : Agrees (newDelayAccumulator window) ⟨[], window⟩ := by
  refine ⟨rfl, List.Pairwise.nil, ?_⟩
  rw [entries_new, listed_nil]
  exact ⟨fun x hx => hx.elim, fun x hx => hx.elim⟩

end HeapAccumulator

/-! ### The delays of the controller -/

namespace DefaultController

open HeapAccumulator

/-- What a call of the controller does to the delays: an acknowledgement of a
packet that was not acknowledged before pushes its delay and asks for the
base delay. -/
def delaysOf (c : DefaultController) : Call → List HeapAccumulator.Call
  | .onAck _ seqNum ack =>
      if (c.transmissions.get? seqNum).any (fun packetInst => !packetInst.acked) then
        [.push ack.delay ack.receivedAt, .baseDelay ack.receivedAt]
      else []
  | _ => []

def delayCalls (c : DefaultController) : List Call → List HeapAccumulator.Call
  | [] => []
  | k :: calls => c.delaysOf k ++ delayCalls (c.call k).1 calls

variable {ops : HeapOps TimedDelay.value} {da : HeapAccumulator}

theorem delayAcc_onAck [Float64] (c : DefaultController) (seqNum : Uint16) (ack : Ack) :
    (c.onAck seqNum ack).1.delayAcc =
      if (c.transmissions.get? seqNum).any (fun packetInst => !packetInst.acked) then
        ((c.delayAcc.push ack.delay ack.receivedAt).baseDelay ack.receivedAt).1
      else c.delayAcc := by
  cases hr : c.transmissions.get? seqNum with
  | none =>
      simp only [onAck, hr]
      rfl
  | some packetInst =>
      simp only [onAck, hr, Option.any_some]
      by_cases hacked : packetInst.acked = true
      · rw [if_pos hacked, if_neg (by simp [hacked])]
      · have hfresh : (!packetInst.acked) = true := by simpa using hacked
        rw [if_neg hacked, if_pos hfresh]
        -- the estimate of the round trip leaves the delays alone
        split <;> rfl

theorem agrees_call {c : DefaultController} (h : Agrees da c.delayAcc) (k : Call) :
    Agrees ((c.delaysOf k).foldl (HeapAccumulator.call ops) da) (c.call k).1.delayAcc := by
  cases k with
  | onTransmit seqNum transmission dataLen =>
      obtain ⟨t, w, heq⟩ := onTransmit_frame c seqNum transmission dataLen
      show Agrees da (c.onTransmit seqNum transmission dataLen).1.delayAcc
      rw [heq]
      exact h
  | onAck arith seqNum ack =>
      show Agrees _ (@onAck arith c seqNum ack).1.delayAcc
      rw [delayAcc_onAck, delaysOf]
      split
      · exact ((h.push ops ack.delay ack.receivedAt).baseDelay ops ack.receivedAt).2
      · exact h
  | onLostPacket seqNum retransmitting =>
      show Agrees da (c.onLostPacket seqNum retransmitting).1.delayAcc
      rcases onLostPacket_frame c seqNum retransmitting with heq | ⟨w, heq⟩
      · rw [heq]
        exact h
      · rw [heq]
        exact h
  | onTimeout => exact h

theorem agrees_after {c : DefaultController} (h : Agrees da c.delayAcc) (calls : List Call) :
    Agrees ((c.delayCalls calls).foldl (HeapAccumulator.call ops) da) (c.after calls).delayAcc := by
  induction calls generalizing c da with
  | nil => exact h
  | cons k calls ih =>
      rw [delayCalls, List.foldl_append]
      exact ih (agrees_call h k)

/-- **The controller's list is the heap of the source**: after any calls the
two agree, so they give the same base delays, also by a clock that goes
back. -/
theorem after_agrees (ops : HeapOps TimedDelay.value) (config : CtrlConfig) (calls : List Call) :
    Agrees (HeapAccumulator.run ops config.delayWindow
        ((newDefaultController config).delayCalls calls))
      ((newDefaultController config).after calls).delayAcc :=
  agrees_after (agrees_new config.delayWindow) calls

/-- **The base delay of an acknowledgement** is the least delay of the window:
of the delays acknowledged before it, and its own. -/
theorem after_baseDelay (config : CtrlConfig) (calls : List Call) (ack : Ack)
    (hclock : ∀ t ∈ readings ((newDefaultController config).delayCalls calls),
      t ≤ ack.receivedAt) :
    ((((newDefaultController config).after calls).delayAcc.push ack.delay
        ack.receivedAt).baseDelay ack.receivedAt).2
      = windowMin config.delayWindow (pushes ((newDefaultController config).delayCalls calls ++
          [.push ack.delay ack.receivedAt])) ack.receivedAt := by
  have hagrees := (after_agrees containerHeap config calls).push containerHeap ack.delay
    ack.receivedAt
  rw [← (hagrees.baseDelay containerHeap ack.receivedAt).1]
  have hclock' : ∀ t ∈ readings ((newDefaultController config).delayCalls calls ++
      [.push ack.delay ack.receivedAt]), t ≤ ack.receivedAt := by
    intro t ht
    rw [readings_push] at ht
    exact hclock t ht
  rw [← baseDelay_of_le containerHeap _ hclock', run_append]
  rfl

end DefaultController

end UtpGo
