/-
UtpGo/SocketParties.lean

Who has a part in an entry of the table of connections: a task that has found
an id free and will enter a channel, or that has entered it and will make the
stream; a stream whose loop is running; and a shutdown event on its way to the
write loop.  They are the parties of a registry (`UtpGo/Registry.lean`), and
the table is its holder.

What the steps of the socket do to the parties is said here once: `advance_step`
for the tasks, `serve_step` for the loops of the streams, and `writeLoop_step`
for the write loop.
-/
import Mathlib.Data.List.Perm.Basic
import Mathlib.Data.Multiset.Bind
import UtpGo.Registry
import UtpGo.SocketTasks

namespace UtpGo

open Checked Registry

/-! ### Parties -/

section Parties

variable {π κ : Type} [CidHash π κ]

/-- The id that a task has found free and will enter. -/
def Task.claim : Task π → Option κ
  | .generated cid _ _ => some (genHash cid)
  | .available cid _ => some (genHash cid)
  | .accepting cid _ _ => some (genHash cid)
  | _ => none

/-- The id and the channel that a task has entered, before the stream is
made. -/
def Task.entry : Task π → Option (κ × Nat)
  | .connect cid _ streamEvents => some (genHash cid, streamEvents)
  | .opening cid _ _ streamEvents _ => some (genHash cid, streamEvents)
  | _ => none

/-- The id under which the next step of a task enters a channel.  `Connect`
enters what `GenerateCid` has entered once more. -/
def Task.puts : Task π → Option κ
  | .connect cid _ _ => some (genHash cid)
  | t => t.claim

/-- The loop of the stream has not returned. -/
def UtpStream.running (st : UtpStream π) : Bool :=
  match st.loop with
  | .waiting _ => true
  | .returned _ => false

def Task.party (t : Task π) : Multiset (Stage κ Nat) :=
  match t.claim, t.entry with
  | some key, _ => {.claimed key}
  | none, some (key, ch) => {.entered key ch}
  | none, none => 0

def UtpStream.party (st : UtpStream π) : Multiset (Stage κ Nat) :=
  if st.running then {.live (genHash st.cid) st.streamEvents} else 0

def SocketMsg.party : SocketMsg π → Multiset (Stage κ Nat)
  | .outgoing _ _ => 0
  | .shutdown cid => {.leaving (genHash cid)}

variable [LinearOrder κ]

/-- The parties of the socket. -/
def UtpSocket.parties (s : UtpSocket π κ) : Multiset (Stage κ Nat) :=
  (s.streams : Multiset (UtpStream π)).bind UtpStream.party
    + (s.socketEvents : Multiset (SocketMsg π)).bind SocketMsg.party

/-- The table of the socket, with parties beside its own. -/
def UtpSocket.reg (s : UtpSocket π κ) (beside : Multiset (Stage κ Nat)) : Reg κ Nat where
  holder := s.conns.get?
  parties := beside + s.parties

/-- The id that a task will have found free if its next step finds it so.  A
SYN matters only if there is a request for it. -/
def Task.wants (s : UtpSocket π κ) (rnd : Uint16) : Task π → Option κ
  | .generate peer _ _ => some (genHash (newConnectionId peer rnd (rnd + 1)))
  | .connectWithCid cid _ => some (genHash cid)
  | .selectAccept cid _ _ => some (genHash cid)
  | .lookup packet peer idType [] _ =>
      let key := genHash (cidFromPacket packet peer idType)
      if packet.header.packetType = .st_syn ∧ s.awaiting.contains key then some key else none
  | _ => none

end Parties

/-! ### What the parties are -/

section Members

variable {π κ : Type} [LinearOrder κ] [CidHash π κ] {p : Stage κ Nat}

omit [LinearOrder κ] in
theorem Task.mem_party {t : Task π} : p ∈ t.party ↔ (∃ key, t.claim = some key ∧ p = .claimed key) ∨
    ∃ key ch, t.entry = some (key, ch) ∧ p = .entered key ch := by
  cases t <;> simp [party, claim, entry]

omit [LinearOrder κ] in
theorem UtpStream.mem_party {st : UtpStream π} :
    p ∈ st.party ↔ st.running ∧ p = .live (genHash st.cid) st.streamEvents := by
  by_cases hrun : st.running = true
  · rw [party, if_pos hrun, Multiset.mem_singleton]
    exact ⟨fun h => ⟨hrun, h⟩, fun h => h.2⟩
  · rw [party, if_neg hrun]
    exact ⟨fun h => absurd h (Multiset.notMem_zero p), fun h => absurd h.1 hrun⟩

omit [LinearOrder κ] in
theorem SocketMsg.mem_party {msg : SocketMsg π} :
    p ∈ msg.party ↔ ∃ cid, msg = .shutdown cid ∧ p = .leaving (genHash cid) := by
  cases msg <;> simp [party]

omit [LinearOrder κ] in
/-- What is handed to the socket: a party for every shutdown event. -/
theorem SocketEvent.bind_party_toMsg (cid : Cid π) (events : List SocketEvent) :
    ((events.map (SocketEvent.toMsg cid) : List (SocketMsg π)) : Multiset (SocketMsg π)).bind
        SocketMsg.party
      = Multiset.replicate (events.count .shutdown) (.leaving (genHash cid)) := by
  induction events with
  | nil => rfl
  | cons event events ih =>
      rw [List.map_cons, ← Multiset.cons_coe, Multiset.cons_bind, ih]
      cases event with
      | outgoing p =>
          rw [List.count_cons_of_ne (by rintro ⟨⟩)]
          exact Multiset.zero_add _
      | shutdown =>
          rw [List.count_cons_self, Multiset.replicate_succ]
          exact Multiset.singleton_add _ _

end Members

/-! ### Steps of the socket -/

namespace UtpSocket

variable {π κ : Type} [LinearOrder κ] [CidHash π κ]
  {s s' : UtpSocket π κ} {beside : Multiset (Stage κ Nat)} {rnd : Uint16} {now : Time}

omit [CidHash π κ] in
theorem get?_putConnStream (key : κ) (ch : Nat) :
    (s.putConnStream key ch).conns.get? = Function.update s.conns.get? key (some ch) := by
  funext key'
  by_cases hkey : key' = key
  · subst hkey
    rw [Function.update_self]
    exact OrdMap.get?_insert_self
  · rw [Function.update_of_ne hkey]
    exact OrdMap.get?_insert_of_ne hkey

omit [CidHash π κ] in
theorem get?_removeConnStream (key : κ) :
    (s.removeConnStream key).conns.get? = Function.update s.conns.get? key none := by
  funext key'
  by_cases hkey : key' = key
  · subst hkey
    rw [Function.update_self]
    exact OrdMap.get?_erase_self
  · rw [Function.update_of_ne hkey]
    exact OrdMap.get?_erase_of_ne hkey

theorem reg_putConnStream (key : κ) (ch : Nat) :
    (s.putConnStream key ch).reg beside
      = ⟨Function.update s.conns.get? key (some ch), beside + s.parties⟩ := by
  rw [reg, get?_putConnStream]
  rfl

/-- A stream that starts is a party that is live. -/
theorem parties_openStream (cid : Cid π) (config : ConnectionConfig) (syn : Option Packet)
    (ch : Nat) (accept : Option (Accept π)) :
    (s.openStream cid config syn ch accept rnd now).parties
      = .live (genHash cid) ch ::ₘ s.parties := by
  have hnone := Connection.shutdowns_start cid.toConnectionId config syn rnd now now
  have hparties : (s.newUtpStream cid config syn ch accept rnd now).parties
      = .live (genHash cid) ch ::ₘ s.parties := by
    rw [parties, newUtpStream]
    dsimp only
    rw [← Multiset.coe_add, ← Multiset.coe_add, Multiset.add_bind, Multiset.add_bind,
      SocketEvent.bind_party_toMsg]
    rw [Connection.shutdowns] at hnone
    rw [hnone, Multiset.coe_singleton, Multiset.singleton_bind, Multiset.replicate_zero, add_zero,
      add_right_comm, add_comm, ← Multiset.singleton_add]
    rfl
  cases accept with
  | none => exact hparties
  | some req => exact hparties

theorem claimed_notMem_parties (key : κ) : .claimed key ∉ s.parties := by
  intro hmem
  rcases Multiset.mem_add.mp hmem with hmem | hmem
  · obtain ⟨st, -, hst⟩ := Multiset.mem_bind.mp hmem
    cases (UtpStream.mem_party.mp hst).2
  · obtain ⟨msg, -, hmsg⟩ := Multiset.mem_bind.mp hmem
    obtain ⟨cid, -, hcid⟩ := SocketMsg.mem_party.mp hmsg
    cases hcid

variable {cancels : Prop} {key : κ} {ch : Nat}

theorem reg_singleton_add (p : Stage κ Nat) :
    s.reg ({p} + beside) = ⟨s.conns.get?, p ::ₘ (beside + s.parties)⟩ := by
  rw [reg, add_assoc, Multiset.singleton_add]

/-- An id is looked up and found free. -/
theorem claim_step (hfree : s.conns.get? key = none) (hclaims : .claimed key ∉ beside) :
    Step cancels (s.reg beside) (s.reg ({.claimed key} + beside)) := by
  rw [reg_singleton_add]
  refine .claim hfree fun hmem => ?_
  rcases Multiset.mem_add.mp hmem with hmem | hmem
  · exact hclaims hmem
  · exact claimed_notMem_parties key hmem

/-- A channel is entered under an id that was found free. -/
theorem enter_step : Step cancels (s.reg ({.claimed key} + beside))
    ((s.putConnStream key ch).reg ({.entered key ch} + beside)) := by
  rw [reg_putConnStream, reg_singleton_add, add_assoc, Multiset.singleton_add]
  exact .enter ch rfl

/-- `Connect` enters the channel once more. -/
theorem renew_step : Step cancels (s.reg ({.entered key ch} + beside))
    ((s.putConnStream key ch).reg ({.entered key ch} + beside)) := by
  rw [reg_putConnStream]
  refine .renew ?_
  rw [reg_singleton_add]
  exact Multiset.mem_cons_self _ _

theorem start_step (cid : Cid π) (config : ConnectionConfig) (syn : Option Packet)
    (accept : Option (Accept π)) :
    Step cancels (s.reg ({.entered (genHash cid) ch} + beside))
      ((s.openStream cid config syn ch accept rnd now).reg beside) := by
  have hconns : (s.openStream cid config syn ch accept rnd now).conns = s.conns := by
    cases accept <;> rfl
  have hreg : (s.openStream cid config syn ch accept rnd now).reg beside
      = ⟨s.conns.get?, .live (genHash cid) ch ::ₘ (beside + s.parties)⟩ := by
    rw [reg, hconns, parties_openStream, Multiset.add_cons]
  rw [hreg, reg_singleton_add]
  exact .start rfl

/-- A packet is handed to the write loop. -/
theorem reg_outgoing (packet : Packet) (target : Target π) :
    UtpSocket.reg { s with socketEvents := s.socketEvents ++ [.outgoing packet target] } beside
      = s.reg beside := by
  rw [reg, parties]
  dsimp only
  rw [← Multiset.coe_add, Multiset.add_bind, Multiset.coe_singleton, Multiset.singleton_bind,
    SocketMsg.party, add_zero]
  rfl

/-- A packet for which there is no connection claims its id if there is a
request for it. -/
theorem unrouted_step (packet : Packet) (peer : π)
    (hfree : s.getConnStreamWithCids (cidFromPacket packet peer .recvId) = none)
    (hclaims : packet.header.packetType = .st_syn →
      s.awaiting.contains (genHash (cidFromPacket packet peer .recvId)) →
        .claimed (genHash (cidFromPacket packet peer .recvId)) ∉ beside) :
    Step cancels (s.reg beside) ((s.unrouted packet peer rnd now).1.reg
      ((s.unrouted packet peer rnd now).2.elim 0 Task.party + beside)) := by
  by_cases hsyn : packet.header.packetType = .st_syn
  · rw [unrouted, if_neg (not_not.mpr hsyn)]
    dsimp only
    cases hget : s.getAwaiting (genHash (cidFromPacket packet peer .recvId)) with
    | some accept =>
        have hcontains : s.awaiting.contains (genHash (cidFromPacket packet peer .recvId)) := by
          rw [OrdMap.contains, ← getAwaiting, hget]
          rfl
        exact claim_step hfree (hclaims hsyn hcontains)
    | none =>
        dsimp only
        rw [Option.elim_none, zero_add]
        exact .same
  · rw [unrouted, if_pos hsyn, Option.elim_none, zero_add, handleUnrouted, if_pos hsyn]
    split
    · rw [reg_outgoing]
      exact .same
    · exact .same

omit [LinearOrder κ] [CidHash π κ] in
/-- The last reading of the id is that of a new connection. -/
theorem eq_recvId_of_suffix {idType : IdType} (h : [idType] <:+ cidTypes) : idType = .recvId := by
  obtain ⟨before, hbefore⟩ := h
  have hlast := congrArg List.getLast? hbefore
  rw [List.getLast?_concat] at hlast
  exact Option.some.inj hlast

/-- **A task goes on**: it claims an id, enters it, or starts a stream. -/
theorem advance_step (t : Task π)
    (hclaims : ∀ key, t.wants s rnd = some key → .claimed key ∉ beside) :
    Step cancels (s.reg (t.party + beside))
      ((s.advance rnd now t).1.reg ((s.advance rnd now t).2.elim 0 Task.party + beside)) := by
  have hclaim : ∀ {key : κ}, s.conns.get? key = none → .claimed key ∉ beside →
      Step cancels (s.reg (0 + beside)) (s.reg ({.claimed key} + beside)) := by
    intro key hfree hnone
    rw [zero_add]
    exact claim_step hfree hnone
  cases t with
  | generate peer config ch =>
      cases hget : s.getConnStream (genHash (newConnectionId peer rnd (rnd + 1))) with
      | some _ =>
          simp only [advance, hget]
          exact .same
      | none =>
          simp only [advance, hget]
          exact hclaim hget (hclaims _ rfl)
  | generated cid config ch => exact enter_step
  | connect cid config ch => exact renew_step
  | connectWithCid cid config =>
      cases hget : s.getConnStream (genHash cid) with
      | some _ =>
          simp only [advance, hget]
          exact .same
      | none =>
          simp only [advance, hget]
          exact hclaim hget (hclaims _ rfl)
  | available cid config => exact enter_step (s := s)
  | lookup packet peer idType rest h =>
      show Step cancels (s.reg (0 + beside)) _
      cases hget : s.getConnStreamWithCids (cidFromPacket packet peer idType) with
      | some ch =>
          simp only [advance, hget]
          exact .same
      | none =>
          cases rest with
          | nil =>
              obtain rfl := eq_recvId_of_suffix h
              simp only [advance, hget]
              rw [zero_add]
              refine unrouted_step packet peer hget fun hsyn hcontains => hclaims _ ?_
              exact if_pos ⟨hsyn, hcontains⟩
          | cons idType' rest =>
              simp only [advance, hget]
              exact .same
  | selectAccept cid syn accept =>
      cases hget : s.getConnStream (genHash cid) with
      | some _ =>
          simp only [advance, hget]
          exact .same
      | none =>
          simp only [advance, hget]
          exact hclaim hget (hclaims _ rfl)
  | accepting cid syn accept => exact enter_step (s := s)
  | opening cid config syn ch accept =>
      simp only [advance, Option.elim_none]
      rw [zero_add]
      exact start_step cid config syn accept

/-! ### Steps of the streams and of the write loop -/

omit [LinearOrder κ] [CidHash π κ] in
/-- One of a list, and the others. -/
theorem coe_eq_cons {α : Type} {l : List α} {i : Nat} {a : α} (h : l[i]? = some a) :
    (l : Multiset α) = a ::ₘ (l.eraseIdx i : Multiset α) := by
  obtain ⟨hi, rfl⟩ := List.getElem?_eq_some_iff.mp h
  exact Multiset.coe_eq_coe.mpr (List.getElem_cons_eraseIdx_perm hi).symm

omit [LinearOrder κ] [CidHash π κ] in
theorem coe_set_eq_cons {α : Type} {l : List α} {i : Nat} {a : α} (h : l[i]? = some a) (a' : α) :
    (l.set i a' : Multiset α) = a' ::ₘ (l.eraseIdx i : Multiset α) := by
  obtain ⟨hi, -⟩ := List.getElem?_eq_some_iff.mp h
  exact Multiset.coe_eq_coe.mpr (List.set_perm_cons_eraseIdx hi a')

omit [CidHash π κ] in
/-- The loops that wait keep the invariants of their connections. -/
def Waiting (s : UtpSocket π κ) : Prop :=
  ∀ st ∈ s.streams, ∀ c, st.loop = .waiting c → c.Waits

omit [LinearOrder κ] in
theorem party_of_waiting {st : UtpStream π} {c : Connection} (h : st.loop = .waiting c) :
    st.party = {.live (genHash st.cid) st.streamEvents} := by
  rw [UtpStream.party, UtpStream.running, h, if_pos rfl]

omit [LinearOrder κ] in
theorem party_of_returned {st : UtpStream π} {c : Connection} (h : st.loop = .returned c) :
    st.party = (0 : Multiset (Stage κ Nat)) := by
  rw [UtpStream.party, UtpStream.running, h, if_neg Bool.false_ne_true]

/-- One stream, and what is left when its loop has served an event. -/
theorem reg_serve (beside : Multiset (Stage κ Nat)) {i : Nat} {st : UtpStream π}
    (hst : s.streams[i]? = some st) : ∃ rest,
      s.reg beside = ⟨s.conns.get?, st.party + rest⟩ ∧ ∀ loop : LoopState, UtpSocket.reg { s with
          streams := s.streams.set i { st with loop }
          socketEvents := s.socketEvents ++ news st.cid st.loop loop } beside
        = ⟨s.conns.get?, UtpStream.party { st with loop } + (Multiset.replicate
            ((loop.conn.socketEvents.drop st.loop.conn.socketEvents.length).count .shutdown)
            (.leaving (genHash st.cid)) + rest)⟩ := by
  refine ⟨beside + ((s.streams.eraseIdx i : Multiset (UtpStream π)).bind UtpStream.party
    + (s.socketEvents : Multiset (SocketMsg π)).bind SocketMsg.party), ?_, fun loop => ?_⟩
  · rw [reg, parties, coe_eq_cons hst, Multiset.cons_bind]
    congr 1
    abel
  · rw [reg, parties]
    dsimp only
    rw [coe_set_eq_cons hst, Multiset.cons_bind, ← Multiset.coe_add, Multiset.add_bind, news,
      SocketEvent.bind_party_toMsg]
    congr 1
    abel

variable [Float64]

omit [CidHash π κ] in
/-- What becomes of a socket when a loop serves an event. -/
theorem serve_cases {i : Nat} {ev : LoopEvent} (hwaiting : s.Waiting)
    (hok : s.serve i ev = .ok s') : s' = s ∨ ∃ st loop, s.streams[i]? = some st ∧
      s' = { s with
        streams := s.streams.set i { st with loop }
        socketEvents := s.socketEvents ++ news st.cid st.loop loop } ∧
      ((∃ c, st.loop = .returned c ∧ loop = .returned c) ∨
        ∃ c, st.loop = .waiting c ∧ c.Serves ev loop) := by
  rw [serve] at hok
  cases hst : s.streams[i]? with
  | none =>
      rw [hst] at hok
      exact .inl (pure_eq_ok.mp hok).symm
  | some st =>
      rw [hst] at hok
      obtain ⟨loop, hserve, hok⟩ := bind_eq_ok.mp hok
      refine .inr ⟨st, loop, rfl, (pure_eq_ok.mp hok).symm, ?_⟩
      cases hloop : st.loop with
      | returned c =>
          rw [hloop] at hserve
          cases ev <;> exact .inl ⟨c, rfl, (pure_eq_ok.mp hserve).symm⟩
      | waiting c =>
          rw [hloop] at hserve
          have hwaits := hwaiting st (List.mem_of_getElem? hst) c hloop
          exact .inr ⟨c, rfl, Connection.serves_of_serve hwaits hserve⟩

/-- **A loop serves an event**: it waits again, hands in its shutdown event, or
is cancelled. -/
theorem serve_step {i : Nat} {ev : LoopEvent} (hwaiting : s.Waiting)
    (hcancels : cancels ∨ ev ≠ .ctxDone) (hok : s.serve i ev = .ok s') :
    Step cancels (s.reg beside) (s'.reg beside) := by
  rcases serve_cases hwaiting hok with rfl | ⟨st, loop, hst, rfl, hloop⟩
  · exact .same
  obtain ⟨rest, hbefore, hafter⟩ := reg_serve beside hst
  rw [hbefore, hafter loop]
  rcases hloop with ⟨c, hloop, rfl⟩ | ⟨c, hloop, hserves⟩
  · rw [party_of_returned hloop, party_of_returned rfl, hloop, List.drop_length, List.count_nil,
      Multiset.replicate_zero, zero_add, zero_add]
    exact .same
  · rw [party_of_waiting hloop, hloop]
    cases hserves with
    | waits hwaits hout =>
        rw [party_of_waiting rfl, LoopState.conn, LoopState.conn, hout, List.drop_left,
          Connection.count_shutdown_outgoing, Multiset.replicate_zero, zero_add]
        exact .same
    | leaves hout =>
        rw [party_of_returned rfl, LoopState.conn, LoopState.conn, hout, List.append_assoc,
          List.drop_left, List.count_append, Connection.count_shutdown_outgoing,
          List.count_singleton_self, zero_add, zero_add, Multiset.replicate_one,
          Multiset.singleton_add]
        exact .finish (Multiset.singleton_add _ _)
    | cancelled =>
        rw [party_of_returned rfl, LoopState.conn, LoopState.conn, List.drop_length,
          List.count_nil, Multiset.replicate_zero, zero_add, zero_add]
        rcases hcancels with hcancels | hne
        · exact .abandon hcancels (Multiset.singleton_add _ _)
        · exact absurd rfl hne

theorem receive_step {i : Nat} {shutdown : Bool} (hwaiting : s.Waiting)
    (hok : s.receive i shutdown rnd now = .ok s') :
    Step cancels (s.reg beside) (s'.reg beside) := by
  unfold receive at hok
  split at hok
  · obtain rfl := pure_eq_ok.mp hok
    exact .same
  split at hok
  · obtain rfl := pure_eq_ok.mp hok
    exact .same
  · rename_i st _ _ _ rest _
    exact serve_step (s := { s with chans := s.chans.set st.streamEvents rest }) hwaiting
      (.inr (by rintro ⟨⟩)) hok

omit [Float64] in
/-- **The write loop clears the entry of a connection that has returned.** -/
theorem writeLoop_step : Step cancels (s.reg beside) (s.writeLoop.reg beside) := by
  unfold writeLoop
  split
  · exact .same
  · rename_i packet target rest hevents
    have hparties : s.parties = (s.streams : Multiset (UtpStream π)).bind UtpStream.party
        + (rest : Multiset (SocketMsg π)).bind SocketMsg.party := by
      rw [parties, hevents, ← Multiset.cons_coe, Multiset.cons_bind, SocketMsg.party, zero_add]
    rw [reg, hparties]
    exact .same
  · rename_i cid rest hevents
    have hparties : s.parties = .leaving (genHash cid) ::ₘ
        ((s.streams : Multiset (UtpStream π)).bind UtpStream.party
          + (rest : Multiset (SocketMsg π)).bind SocketMsg.party) := by
      rw [parties, hevents, ← Multiset.cons_coe, Multiset.cons_bind, SocketMsg.party,
        Multiset.singleton_add, Multiset.add_cons]
    rw [reg, hparties, Multiset.add_cons, reg, get?_removeConnStream]
    exact .clear rfl

omit [CidHash π κ] [Float64] in
/-- The table, the streams and what they hand to the socket are as before. -/
structure Untouched (s s' : UtpSocket π κ) : Prop where
  conns : s'.conns = s.conns
  streams : s'.streams = s.streams
  socketEvents : s'.socketEvents = s.socketEvents

omit [Float64] in
theorem Untouched.step (h : s.Untouched s') : Step cancels (s.reg beside) (s'.reg beside) := by
  rw [reg, reg, parties, parties, h.conns, h.streams, h.socketEvents]
  exact .same

omit [CidHash π κ] [Float64] in
theorem untouched_awaitConnected {i : Nat} (hok : s.awaitConnected i = .ok s') :
    s.Untouched s' := by
  unfold awaitConnected at hok
  split at hok
  · exact pure_eq_ok.mp hok ▸ ⟨rfl, rfl, rfl⟩
  split at hok
  · cases hok
  · exact pure_eq_ok.mp hok ▸ ⟨rfl, rfl, rfl⟩
  · exact pure_eq_ok.mp hok ▸ ⟨rfl, rfl, rfl⟩

omit [CidHash π κ] [Float64] in
theorem untouched_sendShutdownEventToConns : s.Untouched s.sendShutdownEventToConns := by
  unfold sendShutdownEventToConns
  split <;> exact ⟨rfl, rfl, rfl⟩

omit [CidHash π κ] [Float64] in
theorem untouched_removeIncomingConn (key : κ) : s.Untouched (s.removeIncomingConn key).2 := by
  unfold removeIncomingConn
  split <;> exact ⟨rfl, rfl, rfl⟩

omit [CidHash π κ] [Float64] in
theorem untouched_nextIncomingConn (first : κ) : s.Untouched (s.nextIncomingConn first).2 := by
  unfold nextIncomingConn
  split
  · exact untouched_removeIncomingConn first
  · split
    · exact ⟨rfl, rfl, rfl⟩
    · exact untouched_removeIncomingConn _

/-- What is done in one step keeps the rules. -/
theorem atomic_step {op : Op π κ} (hatomic : op.atomic) (hwaiting : s.Waiting)
    (hcancels : cancels ∨ ∀ i, op ≠ .serve i .ctxDone) (hok : s.step op = .ok s') :
    Step cancels (s.reg beside) (s'.reg beside) := by
  cases op with
  | incoming | takeAcceptWithCid | takeAccept | connect | connectWithCid => cases hatomic
  | acceptWithCid | accept | expireAwaiting | expireIncoming =>
      obtain rfl := pure_eq_ok.mp hok
      exact .same
  | awaitConnected i => exact (untouched_awaitConnected hok).step
  | close =>
      obtain rfl := pure_eq_ok.mp hok
      exact untouched_sendShutdownEventToConns.step
  | writeLoop =>
      obtain rfl := pure_eq_ok.mp hok
      exact writeLoop_step
  | receive => exact receive_step hwaiting hok
  | serve i ev =>
      refine serve_step hwaiting (hcancels.imp_right fun h => ?_) hok
      rintro rfl
      exact h i rfl

/-! ### The loops that wait -/

omit [CidHash π κ] in
theorem Waiting.serve {i : Nat} {ev : LoopEvent} (h : s.Waiting) (hok : s.serve i ev = .ok s') :
    s'.Waiting := by
  rcases serve_cases h hok with rfl | ⟨st, loop, hst, rfl, hloop⟩
  · exact h
  intro st' hst' c' hc'
  rcases List.mem_or_eq_of_mem_set hst' with hst' | rfl
  · exact h st' hst' c' hc'
  obtain rfl : loop = .waiting c' := hc'
  rcases hloop with ⟨c, -, heq⟩ | ⟨c, -, hserves⟩
  · cases heq
  · cases hserves with
    | waits hwaits => exact hwaits

omit [CidHash π κ] in
theorem Waiting.receive {i : Nat} {shutdown : Bool} (h : s.Waiting)
    (hok : s.receive i shutdown rnd now = .ok s') : s'.Waiting := by
  unfold UtpSocket.receive at hok
  split at hok
  · exact pure_eq_ok.mp hok ▸ h
  split at hok
  · exact pure_eq_ok.mp hok ▸ h
  · rename_i st _ _ _ rest _
    exact Waiting.serve (s := { s with chans := s.chans.set st.streamEvents rest }) h hok

omit [CidHash π κ] [Float64] in
theorem Waiting.of_streams (h : s.Waiting) (hstreams : s'.streams = s.streams) : s'.Waiting := by
  rw [Waiting, hstreams]
  exact h

theorem Waiting.atomic {op : Op π κ} (h : s.Waiting) (hatomic : op.atomic)
    (hok : s.step op = .ok s') : s'.Waiting := by
  cases op with
  | incoming | takeAcceptWithCid | takeAccept | connect | connectWithCid => cases hatomic
  | acceptWithCid | accept | expireAwaiting | expireIncoming =>
      obtain rfl := pure_eq_ok.mp hok
      exact h
  | awaitConnected i => exact h.of_streams (untouched_awaitConnected hok).streams
  | close =>
      obtain rfl := pure_eq_ok.mp hok
      exact h.of_streams untouched_sendShutdownEventToConns.streams
  | writeLoop =>
      obtain rfl := pure_eq_ok.mp hok
      refine h.of_streams ?_
      unfold writeLoop
      split <;> rfl
  | receive => exact h.receive hok
  | serve => exact h.serve hok

omit [CidHash π κ] [Float64] in
theorem Waiting.openStream (h : s.Waiting) (cid : Cid π) (config : ConnectionConfig)
    (syn : Option Packet) (ch : Nat) (accept : Option (Accept π)) :
    (s.openStream cid config syn ch accept rnd now).Waiting := by
  have hnew : (s.newUtpStream cid config syn ch accept rnd now).Waiting := by
    intro st hst c hc
    rcases List.mem_append.mp hst with hst | hst
    · exact h st hst c hc
    · obtain rfl := List.mem_singleton.mp hst
      cases hc
      exact Connection.waits_start cid.toConnectionId config syn rnd now now
  cases accept with
  | none => exact hnew
  | some req => exact hnew

omit [Float64] in
theorem streams_unrouted (packet : Packet) (peer : π) :
    (s.unrouted packet peer rnd now).1.streams = s.streams := by
  unfold unrouted
  split
  · rename_i hsyn
    rw [handleUnrouted, if_pos hsyn]
    split <;> rfl
  · dsimp only
    split <;> rfl

omit [Float64] in
theorem Waiting.advance (h : s.Waiting) (rnd : Uint16) (now : Time) (t : Task π) :
    (s.advance rnd now t).1.Waiting := by
  cases t with
  | opening cid config syn ch accept => exact h.openStream cid config syn ch accept
  | generated | connect | available | accepting => exact h
  | generate | connectWithCid | selectAccept =>
      unfold UtpSocket.advance
      dsimp only
      split <;> exact h
  | lookup packet peer idType rest hsuffix =>
      unfold UtpSocket.advance
      dsimp only
      split
      · exact h
      · exact h.of_streams (streams_unrouted packet peer)
      · exact h

end UtpSocket

end UtpGo
