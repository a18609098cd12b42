/-
UtpGo/SocketTable.lean

The table of connections.  A call or a handler looks whether an id is free,
enters a channel under it and makes the stream, in three steps between which
others may act; the loop of the stream tells the write loop when it returns,
and the write loop clears the entry.

`step_reg` says that every step keeps the rules of the registry, unless a task
looks up an id that another has found free (`Exclusive`) or a loop returns
because of its context (`Uncancelled`).

Main results: `entries_undisturbed`, without the first no entry of a running
connection is overwritten, and there is at most one for an id;
`finished_leave`, without both the table holds the running connections and no
others once the write loop has nothing left to do.
-/
import UtpGo.SocketParties

namespace UtpGo

open Checked Registry

/-! ### Conditions -/

section Conditions

variable {π κ : Type} [LinearOrder κ] [CidHash π κ]

def Node.reg (n : Node π κ) : Reg κ Nat :=
  n.sock.reg ((n.tasks : Multiset (Task π)).bind Task.party)

/-- No task looks up an id that another has found free and will enter. -/
def Exclusive (n : Node π κ) : Action π κ → Prop
  | .advance who rnd _ => ∀ t key, n.task? who = some t → t.wants n.sock rnd = some key →
      ∀ t' ∈ n.others who, t'.claim ≠ some key
  | _ => True

omit [LinearOrder κ] [CidHash π κ] in
/-- No loop returns because of its context. -/
def Action.Uncancelled : Action π κ → Prop
  | .atomic (.serve _ .ctxDone) _ => False
  | _ => True

end Conditions

/-! ### Steps and runs -/

namespace Node

variable {π κ : Type} [LinearOrder κ] [CidHash π κ] [Float64]
  {n n' : Node π κ} {act : Action π κ} {who : Option Nat} {t : Task π} {cancels : Prop}

omit [CidHash π κ] [Float64] in
/-- A task, and the others. -/
theorem coe_tasks (ht : n.task? who = some t) :
    (n.tasks : Multiset (Task π)) = t ::ₘ (n.others who : Multiset (Task π)) := by
  cases who with
  | none =>
      have ht : n.handler = some t := ht
      rw [tasks, ht]
      rfl
  | some i =>
      rw [tasks, others, ← Multiset.coe_add, ← Multiset.coe_add, UtpSocket.coe_eq_cons ht,
        Multiset.add_cons]

omit [CidHash π κ] [Float64] in
theorem coe_tasks_replace (ht : n.task? who = some t) (sock : UtpSocket π κ)
    (next : Option (Task π)) : ((n.replace sock next who).tasks : Multiset (Task π))
      = (next.toList : Multiset (Task π)) + (n.others who : Multiset (Task π)) := by
  cases who with
  | none => rfl
  | some i =>
      cases next with
      | none => exact (zero_add _).symm
      | some t' =>
          rw [replace, tasks, others, ← Multiset.coe_add, ← Multiset.coe_add,
            UtpSocket.coe_set_eq_cons ht, Multiset.add_cons]
          rfl

omit [Float64] in
/-- A task goes on, and no other has found free what it looks up. -/
theorem advance_reg {rnd : Uint16} {now : Time} (ht : n.task? who = some t)
    (hexcl : Exclusive n (.advance who rnd now)) :
    Step cancels n.reg
      (n.replace (n.sock.advance rnd now t).1 (n.sock.advance rnd now t).2 who).reg := by
  have hbefore : n.reg = n.sock.reg
      (t.party + (n.others who : Multiset (Task π)).bind Task.party) := by
    rw [reg, coe_tasks ht, Multiset.cons_bind]
  have hafter : ∀ (sock : UtpSocket π κ) (next : Option (Task π)),
      (n.replace sock next who).reg = sock.reg
        (next.elim 0 Task.party + (n.others who : Multiset (Task π)).bind Task.party) := by
    intro sock next
    have hnext : (next.toList : Multiset (Task π)).bind Task.party
        = (next.elim 0 Task.party : Multiset (Stage κ Nat)) := by
      cases next with
      | none => rfl
      | some t' => exact Multiset.singleton_bind t' Task.party
    rw [reg, coe_tasks_replace ht, Multiset.add_bind, hnext]
    cases who <;> rfl
  rw [hbefore, hafter]
  refine UtpSocket.advance_step t fun key hwants hmem => ?_
  obtain ⟨t', ht', hparty⟩ := Multiset.mem_bind.mp hmem
  rcases Task.mem_party.mp hparty with ⟨key', hclaim, heq⟩ | ⟨key', ch, -, heq⟩
  · cases heq
    exact hexcl t key ht hwants t' ht' hclaim
  · cases heq

omit [Float64] in
/-- The tasks are as before, or one begins that is no party yet. -/
structure Begins (n n' : Node π κ) : Prop where
  sock : n.sock.Untouched n'.sock
  tasks : (n'.tasks : Multiset (Task π)) = n.tasks ∨ ∃ t : Task π,
    t.party = (0 : Multiset (Stage κ Nat)) ∧ (n'.tasks : Multiset (Task π)) = t ::ₘ n.tasks

omit [Float64] in
theorem Begins.reg (h : n.Begins n') : Step cancels n.reg n'.reg := by
  have hbeside : (n'.tasks : Multiset (Task π)).bind Task.party
      = ((n.tasks : Multiset (Task π)).bind Task.party : Multiset (Stage κ Nat)) := by
    rcases h.tasks with htasks | ⟨t, hparty, htasks⟩
    · rw [htasks]
    · rw [htasks, Multiset.cons_bind, hparty, zero_add]
  rw [Node.reg, Node.reg, hbeside]
  exact h.sock.step

omit [Float64] in
theorem Begins.caller {sock : UtpSocket π κ} (hsock : n.sock.Untouched sock)
    (ht : t.party = (0 : Multiset (Stage κ Nat))) :
    n.Begins ⟨sock, n.handler, n.callers ++ [t]⟩ := by
  refine ⟨hsock, .inr ⟨t, ht, ?_⟩⟩
  rw [Node.tasks, Node.tasks, ← List.append_assoc, ← Multiset.coe_add, Multiset.coe_singleton,
    add_comm, Multiset.singleton_add]

omit [Float64] in
theorem Begins.handler {sock : UtpSocket π κ} (hidle : n.handler = none)
    (hsock : n.sock.Untouched sock) (ht : t.party = (0 : Multiset (Stage κ Nat))) :
    n.Begins ⟨sock, some t, n.callers⟩ := by
  refine ⟨hsock, .inr ⟨t, ht, ?_⟩⟩
  rw [Node.tasks, Node.tasks, hidle]
  rfl

/-- What a step does: a task begins or goes on, or the socket does something in
one step. -/
theorem step_cases (hok : n.step act = .ok n') : n.Begins n' ∨
    (∃ who rnd now t, act = .advance who rnd now ∧ n.task? who = some t ∧
      n' = n.replace (n.sock.advance rnd now t).1 (n.sock.advance rnd now t).2 who) ∨
    ∃ op sock, ∃ h : op.atomic, act = .atomic op h ∧ n.sock.step op = .ok sock ∧
      n' = { n with sock } := by
  have hsame : n.Begins n := ⟨⟨rfl, rfl, rfl⟩, .inl rfl⟩
  cases act with
  | connect peer config =>
      obtain rfl := pure_eq_ok.mp hok
      exact .inl (.caller ⟨rfl, rfl, rfl⟩ rfl)
  | connectWithCid cid config =>
      obtain rfl := pure_eq_ok.mp hok
      exact .inl (.caller ⟨rfl, rfl, rfl⟩ rfl)
  | incoming incomingRaw =>
      simp only [step] at hok
      split at hok
      · rename_i hidle _
        obtain rfl := pure_eq_ok.mp hok
        exact .inl (.handler hidle ⟨rfl, rfl, rfl⟩ rfl)
      · exact .inl (pure_eq_ok.mp hok ▸ hsame)
  | takeAcceptWithCid =>
      simp only [step] at hok
      split at hok
      · rename_i req rest hidle hreq
        split at hok
        · cases hok
        rename_i cid hcid
        have hremove := UtpSocket.untouched_removeIncomingConn
          (s := { n.sock with acceptsWithCidCh := rest, taken := n.sock.taken ++ [req] })
          (genHash cid)
        split at hok
        · rename_i incomingConn sock heq
          rw [heq] at hremove
          obtain rfl := pure_eq_ok.mp hok
          exact .inl (.handler hidle ⟨hremove.conns, hremove.streams, hremove.socketEvents⟩ rfl)
        · rename_i sock heq
          rw [heq] at hremove
          obtain rfl := pure_eq_ok.mp hok
          exact .inl ⟨⟨hremove.conns, hremove.streams, hremove.socketEvents⟩, .inl rfl⟩
      · exact .inl (pure_eq_ok.mp hok ▸ hsame)
  | takeAccept first =>
      simp only [step] at hok
      split at hok
      · rename_i req rest hidle hreq
        have hnext := UtpSocket.untouched_nextIncomingConn
          (s := { n.sock with accepts := rest }) first
        split at hok
        · rename_i incomingAccept sock heq
          rw [heq] at hnext
          obtain rfl := pure_eq_ok.mp hok
          exact .inl (.handler hidle ⟨hnext.conns, hnext.streams, hnext.socketEvents⟩ rfl)
        · rename_i sock heq
          rw [heq] at hnext
          obtain rfl := pure_eq_ok.mp hok
          exact .inl ⟨⟨hnext.conns, hnext.streams, hnext.socketEvents⟩, .inl rfl⟩
      · exact .inl (pure_eq_ok.mp hok ▸ hsame)
  | advance who rnd now =>
      simp only [step] at hok
      split at hok
      · exact .inl (pure_eq_ok.mp hok ▸ hsame)
      · rename_i t ht
        exact .inr (.inl ⟨who, rnd, now, t, rfl, ht, (pure_eq_ok.mp hok).symm⟩)
  | atomic op hatomic =>
      obtain ⟨sock, hstep, hok⟩ := bind_eq_ok.mp hok
      exact .inr (.inr ⟨op, sock, hatomic, rfl, hstep, (pure_eq_ok.mp hok).symm⟩)

/-- **Steps keep the rules of the registry**, where no task looks up an id that
another has found free. -/
theorem step_reg (hwaiting : n.sock.Waiting) (hexcl : Exclusive n act)
    (hcancels : cancels ∨ act.Uncancelled) (hok : n.step act = .ok n') :
    Step cancels n.reg n'.reg := by
  rcases step_cases hok with hbegins | ⟨who, rnd, now, t, rfl, ht, rfl⟩ |
    ⟨op, sock, hatomic, rfl, hstep, rfl⟩
  · exact hbegins.reg
  · exact advance_reg ht hexcl
  · refine UtpSocket.atomic_step hatomic hwaiting (hcancels.imp_right fun h i => ?_) hstep
    rintro rfl
    exact h

theorem step_waiting (hwaiting : n.sock.Waiting) (hok : n.step act = .ok n') :
    n'.sock.Waiting := by
  rcases step_cases hok with hbegins | ⟨who, rnd, now, t, rfl, ht, rfl⟩ |
    ⟨op, sock, hatomic, rfl, hstep, rfl⟩
  · exact hwaiting.of_streams hbegins.sock.streams
  · have hadvance := hwaiting.advance rnd now t
    cases who <;> exact hadvance
  · exact hwaiting.atomic hatomic hstep

/-- There is one party for a key, and the loops that wait keep their
invariants. -/
structure Orderly (n : Node π κ) : Prop where
  waiting : n.sock.Waiting
  sole : Sole n.reg

omit [Float64] in
theorem orderly_idle : (idle (withSocket : UtpSocket π κ)).Orderly where
  waiting := by
    rintro st ⟨⟩
  sole := ⟨Multiset.nodup_zero, fun p hp => absurd hp (Multiset.notMem_zero p)⟩

theorem Orderly.step (h : n.Orderly) (hexcl : Exclusive n act) (hok : n.step act = .ok n') :
    n'.Orderly := by
  have hreg : Step True n.reg n'.reg := step_reg h.waiting hexcl (.inl trivial) hok
  exact ⟨step_waiting h.waiting hok, h.sole.step hreg⟩

theorem Orderly.step_covered (h : n.Orderly) (hcovered : Covered n.reg) (hexcl : Exclusive n act)
    (huncancelled : act.Uncancelled) (hok : n.step act = .ok n') : Covered n'.reg := by
  have hreg : Step False n.reg n'.reg := step_reg h.waiting hexcl (.inr huncancelled) hok
  exact hcovered.step not_false hreg

/-! ### Entries that are not disturbed -/

/-- Packets for a running connection go to its channel; there is one for an id;
and no task is about to enter another channel under that id. -/
structure Undisturbed (n : Node π κ) : Prop where
  routed : ∀ st ∈ n.sock.streams, st.running →
    n.sock.conns.get? (genHash st.cid) = some st.streamEvents
  once : ((n.sock.streams.filter UtpStream.running).map fun st => genHash st.cid).Nodup
  puts : ∀ t ∈ n.tasks, ∀ st ∈ n.sock.streams, st.running → t.puts ≠ some (genHash st.cid)

omit [LinearOrder κ] [Float64] in
theorem keys_bind_party (streams : List (UtpStream π)) :
    ((streams : Multiset (UtpStream π)).bind UtpStream.party).map Stage.key
      = (((streams.filter UtpStream.running).map fun st => genHash st.cid : List κ) :
        Multiset κ) := by
  induction streams with
  | nil => rfl
  | cons st streams ih =>
      rw [← Multiset.cons_coe, Multiset.cons_bind, Multiset.map_add, ih, UtpStream.party]
      by_cases hrun : st.running = true
      · rw [if_pos hrun, List.filter_cons_of_pos hrun, List.map_cons, ← Multiset.cons_coe]
        exact Multiset.singleton_add _ _
      · rw [if_neg hrun, List.filter_cons_of_neg hrun]
        exact zero_add _

omit [LinearOrder κ] [Float64] in
/-- A task that is about to enter a channel is a party under that key. -/
theorem key_of_puts {key : κ} (h : t.puts = some key) : ∃ p ∈ t.party, Stage.key p = key := by
  cases t with
  | generated | available | accepting | connect =>
      cases h
      exact ⟨_, Multiset.mem_singleton_self _, rfl⟩
  | generate | connectWithCid | lookup | selectAccept | opening => cases h

omit [Float64] in
theorem live_mem_parties {st : UtpStream π} (hst : st ∈ n.sock.streams) (hrun : st.running) :
    Stage.live (genHash st.cid) st.streamEvents
      ∈ (n.sock.streams : Multiset (UtpStream π)).bind UtpStream.party :=
  Multiset.mem_bind.mpr ⟨st, hst, UtpStream.mem_party.mpr ⟨hrun, rfl⟩⟩

omit [Float64] in
theorem undisturbed_of_sole (h : Sole n.reg) : n.Undisturbed := by
  have hkeys := h.keys
  rw [reg, UtpSocket.reg, UtpSocket.parties, Multiset.map_add, Multiset.map_add,
    Multiset.nodup_add, Multiset.nodup_add, keys_bind_party] at hkeys
  obtain ⟨-, ⟨honce, -, -⟩, hdisjoint⟩ := hkeys
  refine ⟨fun st hst hrun => ?_, honce, fun t ht st hst hrun hputs => ?_⟩
  · exact h.fits (.live (genHash st.cid) st.streamEvents)
      (Multiset.mem_add.mpr (.inr (Multiset.mem_add.mpr (.inl (live_mem_parties hst hrun)))))
  · -- the task and the stream would be two parties with one key
    obtain ⟨p, hp, hkey⟩ := key_of_puts hputs
    have htask : genHash st.cid
        ∈ ((n.tasks : Multiset (Task π)).bind Task.party).map Stage.key :=
      Multiset.mem_map.mpr ⟨p, Multiset.mem_bind.mpr ⟨t, ht, hp⟩, hkey⟩
    have hstream : genHash st.cid
        ∈ (n.sock.streams.filter UtpStream.running).map fun st => genHash st.cid :=
      List.mem_map.mpr ⟨st, List.mem_filter.mpr ⟨hst, hrun⟩, rfl⟩
    exact Multiset.disjoint_left.mp hdisjoint htask (Multiset.mem_add.mpr (.inl hstream))

/-- **No entry of a running connection is overwritten**: in every run in which
no task looks up an id that another task has found free and has not yet entered,
the entry of every running connection is its own channel, no two have an id in
common, and no task is about to enter a channel under the id of one. -/
theorem entries_undisturbed (acts : List (Action π κ)) (n : Node π κ)
    (hrun : (idle withSocket).run acts = .ok n)
    (hexcl : Along Exclusive (idle withSocket) acts) : n.Undisturbed := by
  have horderly : n.Orderly :=
    run_inv (fun _ _ _ hexcl hn hok => Orderly.step hn hexcl hok) hexcl orderly_idle hrun
  exact undisturbed_of_sole horderly.sole

omit [Float64] in
theorem exclusive_of_alone {rnd : Uint16} {now : Time} (h : n.others who = []) :
    Exclusive n (.advance who rnd now) := by
  intro t key _ _ t' ht'
  rw [h] at ht'
  cases ht'

omit [LinearOrder κ] [CidHash π κ] [Float64] in
/-- Two calls for one id, one after the other: the second is refused. -/
theorem entries_undisturbed_twice : ∃ n,
    @run Nat Nat _ plainHash exactFloat64 (idle withSocket)
      [.connectWithCid ⟨⟨101, 100⟩, 1⟩ newConnectionConfig, .advance (some 0) 7 0,
        .advance (some 0) 7 0, .advance (some 0) 7 0,
        .connectWithCid ⟨⟨101, 100⟩, 1⟩ newConnectionConfig, .advance (some 0) 9 0] = .ok n ∧
    n.tasks.length = 0 ∧ n.sock.streams.length = 1 ∧ @Undisturbed Nat Nat _ plainHash n := by
  let := plainHash
  let := exactFloat64
  let acts : List (Action Nat Nat) :=
    [.connectWithCid ⟨⟨101, 100⟩, 1⟩ newConnectionConfig, .advance (some 0) 7 0,
      .advance (some 0) 7 0, .advance (some 0) 7 0,
      .connectWithCid ⟨⟨101, 100⟩, 1⟩ newConnectionConfig, .advance (some 0) 9 0]
  have hrun : ∃ n : Node Nat Nat, (idle withSocket).run acts = .ok n ∧ n.tasks.length = 0 ∧
      n.sock.streams.length = 1 := ⟨_, rfl, rfl, rfl⟩
  obtain ⟨n, hrun, htasks, hstreams⟩ := hrun
  have hexcl : Along Exclusive (idle (withSocket : UtpSocket Nat Nat)) acts := by
    refine along_cons trivial rfl ?_
    refine along_cons (exclusive_of_alone rfl) rfl ?_
    refine along_cons (exclusive_of_alone rfl) rfl ?_
    refine along_cons (exclusive_of_alone rfl) rfl ?_
    refine along_cons trivial rfl ?_
    exact along_cons (exclusive_of_alone rfl) rfl trivial
  exact ⟨n, hrun, htasks, hstreams, entries_undisturbed acts n hrun hexcl⟩

omit [LinearOrder κ] [CidHash π κ] [Float64] in
/-- Two calls for one id, and both find it free: two connections are running,
and packets go to the channel of the second. -/
theorem entry_overwritten : ∃ n,
    @run Nat Nat _ plainHash exactFloat64 (idle withSocket)
      [.connectWithCid ⟨⟨101, 100⟩, 1⟩ newConnectionConfig,
        .connectWithCid ⟨⟨101, 100⟩, 1⟩ newConnectionConfig,
        .advance (some 0) 7 0, .advance (some 1) 9 0,
        .advance (some 0) 7 0, .advance (some 0) 7 0,
        .advance (some 0) 9 0, .advance (some 0) 9 0] = .ok n ∧
    n.sock.streams.map (fun st => (st.running, st.streamEvents)) = [(true, 0), (true, 1)] ∧
    n.sock.conns.values = [1] ∧ ¬ @Undisturbed Nat Nat _ plainHash n := by
  let := plainHash
  let := exactFloat64
  have hrun : ∃ n : Node Nat Nat, (idle withSocket).run
      [.connectWithCid ⟨⟨101, 100⟩, 1⟩ newConnectionConfig,
        .connectWithCid ⟨⟨101, 100⟩, 1⟩ newConnectionConfig,
        .advance (some 0) 7 0, .advance (some 1) 9 0,
        .advance (some 0) 7 0, .advance (some 0) 7 0,
        .advance (some 0) 9 0, .advance (some 0) 9 0] = .ok n ∧
      n.sock.streams.map (fun st => (st.running, st.streamEvents)) = [(true, 0), (true, 1)] ∧
      n.sock.conns.values = [1] ∧
      (n.sock.streams.filter UtpStream.running).map (·.cid)
        = [⟨⟨101, 100⟩, 1⟩, ⟨⟨101, 100⟩, 1⟩] := ⟨_, rfl, rfl, rfl, rfl⟩
  obtain ⟨n, hrun, hstreams, hvalues, hcids⟩ := hrun
  refine ⟨n, hrun, hstreams, hvalues, fun h => ?_⟩
  have honce := h.once
  rw [← Function.comp_def genHash UtpStream.cid, ← List.map_map, hcids] at honce
  exact (List.nodup_cons.mp honce).1 List.mem_cons_self

/-! ### Entries that are cleared -/

omit [Float64] in
theorem mem_parties {p : Stage κ Nat} : p ∈ n.reg.parties ↔ (∃ t ∈ n.tasks, p ∈ t.party) ∨
    (∃ st ∈ n.sock.streams, p ∈ st.party) ∨ ∃ msg ∈ n.sock.socketEvents, p ∈ msg.party := by
  rw [reg, UtpSocket.reg, UtpSocket.parties, Multiset.mem_add, Multiset.mem_add,
    Multiset.mem_bind, Multiset.mem_bind, Multiset.mem_bind]
  rfl

omit [Float64] in
/-- When the write loop has nothing left to do, the table holds the connections
that are running and those that are about to be started. -/
theorem get?_conns_iff (hsole : Sole n.reg) (hcovered : Covered n.reg)
    (hevents : n.sock.socketEvents = []) {key : κ} {ch : Nat} :
    n.sock.conns.get? key = some ch ↔
      (∃ st ∈ n.sock.streams, st.running ∧ genHash st.cid = key ∧ st.streamEvents = ch) ∨
      ∃ t ∈ n.tasks, t.entry = some (key, ch) := by
  have hleft : ∀ key, .leaving key ∉ n.reg.parties := by
    intro key hmem
    simp [mem_parties, Task.mem_party, UtpStream.mem_party, hevents] at hmem
  have hentered : .entered key ch ∈ n.reg.parties ↔ ∃ t ∈ n.tasks, t.entry = some (key, ch) := by
    simp [mem_parties, Task.mem_party, UtpStream.mem_party, hevents]
  have hlive : .live key ch ∈ n.reg.parties ↔
      ∃ st ∈ n.sock.streams, st.running ∧ genHash st.cid = key ∧ st.streamEvents = ch := by
    simp [mem_parties, Task.mem_party, UtpStream.mem_party, hevents, @eq_comm _ key,
      @eq_comm _ ch]
  have hholder := hcovered.holder_iff hsole hleft (k := key) (o := ch)
  rw [hentered, hlive, or_comm] at hholder
  exact hholder

omit [Float64] in
theorem covered_idle : Covered (idle (withSocket : UtpSocket π κ)).reg :=
  fun _ hkey => absurd rfl hkey

/-- **Connections that have returned leave the table**: a loop that returns has
handed in exactly one shutdown event if and only if it does not return because
of its context.  In every run in which no loop does, and in which no task looks
up an id that another has found free and has not yet entered, the entries are
those of the connections that are running or about to be started, once the
write loop has nothing left to do. -/
theorem finished_leave (cid : ConnectionId) (config : ConnectionConfig) (syn : Option Packet)
    (rnd : Uint16) (now t₀ : Time) (events : List LoopEvent) (last : LoopEvent)
    (c c' : Connection)
    (hwait : ((newConnection cid config syn rnd now).start t₀).serveAll events
      = .ok (.waiting c))
    (hlast : Connection.serve (.waiting c) last = .ok (.returned c'))
    (acts : List (Action π κ)) (n : Node π κ) (hrun : (idle withSocket).run acts = .ok n)
    (hproper : Along (fun n act => Exclusive n act ∧ act.Uncancelled) (idle withSocket) acts) :
    (c'.shutdowns = 1 ↔ last ≠ .ctxDone) ∧
    (n.sock.socketEvents = [] → ∀ key ch, n.sock.conns.get? key = some ch ↔
      (∃ st ∈ n.sock.streams, st.running ∧ genHash st.cid = key ∧ st.streamEvents = ch) ∨
      ∃ t ∈ n.tasks, t.entry = some (key, ch)) := by
  refine ⟨Connection.returns_shutdown_iff cid config syn rnd now t₀ hwait hlast, ?_⟩
  have hinv : n.Orderly ∧ Covered n.reg := by
    refine run_inv (I := fun n => n.Orderly ∧ Covered n.reg) (fun n act n' hact hn hok => ?_)
      hproper ⟨orderly_idle, covered_idle⟩ hrun
    exact ⟨hn.1.step hact.1 hok, hn.1.step_covered hn.2 hact.1 hact.2 hok⟩
  exact fun hevents key ch => get?_conns_iff hinv.1.sole hinv.2 hevents

omit [LinearOrder κ] [CidHash π κ] [Float64] in
/-- A connection that times out while it is idle: its entry is cleared. -/
theorem finished_leave_timeout : ∃ c' n,
    @Connection.serve exactFloat64
      (.waiting ((newConnection ⟨101, 100⟩ newConnectionConfig none 7 0).start 0))
      (.turn ⟨.onIdleTimeout, false, 0⟩) = .ok (.returned c') ∧
    c'.shutdowns = 1 ∧
    @run Nat Nat _ plainHash exactFloat64 (idle withSocket)
      [.connectWithCid ⟨⟨101, 100⟩, 1⟩ newConnectionConfig, .advance (some 0) 7 0,
        .advance (some 0) 7 0, .advance (some 0) 7 0,
        .atomic (.serve 0 (.turn ⟨.onIdleTimeout, false, 0⟩)) rfl, .atomic .writeLoop rfl,
        .atomic .writeLoop rfl] = .ok n ∧
    n.sock.streams.length = 1 ∧ ∀ key, n.sock.conns.get? key = none := by
  let := plainHash
  let := exactFloat64
  let acts : List (Action Nat Nat) :=
    [.connectWithCid ⟨⟨101, 100⟩, 1⟩ newConnectionConfig, .advance (some 0) 7 0,
      .advance (some 0) 7 0, .advance (some 0) 7 0,
      .atomic (.serve 0 (.turn ⟨.onIdleTimeout, false, 0⟩)) rfl, .atomic .writeLoop rfl,
      .atomic .writeLoop rfl]
  have hserve : ∃ c', Connection.serve
      (.waiting ((newConnection ⟨101, 100⟩ newConnectionConfig none 7 0).start 0))
      (.turn ⟨.onIdleTimeout, false, 0⟩) = .ok (.returned c') := ⟨_, rfl⟩
  have hrun : ∃ n : Node Nat Nat, (idle withSocket).run acts = .ok n ∧ n.tasks = [] ∧
      n.sock.streams.map UtpStream.running = [false] ∧ n.sock.socketEvents = [] :=
    ⟨_, rfl, rfl, rfl, rfl⟩
  obtain ⟨c', hserve⟩ := hserve
  obtain ⟨n, hrun, htasks, hstreams, hevents⟩ := hrun
  have hproper : Along (fun n act => Exclusive n act ∧ act.Uncancelled)
      (idle (withSocket : UtpSocket Nat Nat)) acts := by
    refine along_cons ⟨trivial, trivial⟩ rfl ?_
    refine along_cons ⟨exclusive_of_alone rfl, trivial⟩ rfl ?_
    refine along_cons ⟨exclusive_of_alone rfl, trivial⟩ rfl ?_
    refine along_cons ⟨exclusive_of_alone rfl, trivial⟩ rfl ?_
    refine along_cons ⟨trivial, trivial⟩ rfl ?_
    refine along_cons ⟨trivial, trivial⟩ rfl ?_
    exact along_cons ⟨trivial, trivial⟩ rfl trivial
  obtain ⟨hshutdowns, htable⟩ := finished_leave ⟨101, 100⟩ newConnectionConfig none 7 0 0 [] _ _
    c' rfl hserve acts n hrun hproper
  refine ⟨c', n, hserve, hshutdowns.mpr (by rintro ⟨⟩), hrun, ?_, fun key => ?_⟩
  · have hlength := congrArg List.length hstreams
    rw [List.length_map] at hlength
    exact hlength
  · cases hget : n.sock.conns.get? key with
    | none => rfl
    | some ch =>
        rcases (htable hevents key ch).mp hget with ⟨st, hst, hrunning, -⟩ | ⟨t, ht, -⟩
        · have hmem := List.mem_map_of_mem (f := UtpStream.running) hst
          rw [hstreams, hrunning] at hmem
          cases List.mem_singleton.mp hmem
        · rw [htasks] at ht
          cases ht

omit [LinearOrder κ] [CidHash π κ] [Float64] in
/-- A connection whose context is cancelled: its loop hands in no shutdown
event, and its entry stays. -/
theorem cancelled_stays : ∃ c' n,
    @Connection.serve exactFloat64
      (.waiting ((newConnection ⟨101, 100⟩ newConnectionConfig none 7 0).start 0))
      .ctxDone = .ok (.returned c') ∧ c'.shutdowns = 0 ∧
    @run Nat Nat _ plainHash exactFloat64 (idle withSocket)
      [.connectWithCid ⟨⟨101, 100⟩, 1⟩ newConnectionConfig, .advance (some 0) 7 0,
        .advance (some 0) 7 0, .advance (some 0) 7 0, .atomic (.serve 0 .ctxDone) rfl,
        .atomic .writeLoop rfl] = .ok n ∧
    n.tasks = [] ∧ n.sock.socketEvents = [] ∧ n.sock.streams.map UtpStream.running = [false] ∧
    n.sock.conns.values = [0] :=
  ⟨_, _, rfl, rfl, rfl, rfl, rfl, rfl, rfl⟩

end Node

end UtpGo
