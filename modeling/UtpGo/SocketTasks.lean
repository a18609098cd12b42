/-
UtpGo/SocketTasks.lean

The socket with its goroutines.  Callers of `Connect` and `ConnectWithCid` run
beside each other and beside the event loop, and each of them reads the table
of connections and writes to it later.  Here every access to the table is a
step of its own; `Task` says where a goroutine stands between two of them, and
`advance` what it does next.

The event loop handles one packet or request at a time (`handler`), and there
is any number of calls (`callers`).  What needs no access to the table, or only
one, is a step of the socket as before.

Main result: `run_of_step`, whatever the socket does when its handlers and
calls are not interrupted it also does here.
-/
import UtpGo.SocketAccept

namespace UtpGo

open Checked

/-! ### Tasks -/

/-- Where a goroutine stands. -/
inductive Task (π : Type) where
  /-- In `GenerateCid`, called by `Connect`: before a number is drawn and looked
  up, and when one was found free. -/
  | generate (peer : π) (config : ConnectionConfig) (streamEvents : Nat)
  | generated (cid : Cid π) (config : ConnectionConfig) (streamEvents : Nat)
  /-- In `Connect`, when `GenerateCid` has returned. -/
  | connect (cid : Cid π) (config : ConnectionConfig) (streamEvents : Nat)
  /-- In `ConnectWithCid`: before the id is looked up, and when it was found
  free. -/
  | connectWithCid (cid : Cid π) (config : ConnectionConfig)
  | available (cid : Cid π) (config : ConnectionConfig)
  /-- In `handleIncomingBuf`, before the next reading of the id is looked up. -/
  | lookup (packet : Packet) (peer : π) (idType : IdType) (rest : List IdType)
      (h : idType :: rest <:+ cidTypes)
  /-- In `selectAcceptHelper`, before the id is looked up. -/
  | selectAccept (cid : Cid π) (syn : Packet) (accept : Accept π)
  /-- A SYN and its request, when the id was found free. -/
  | accepting (cid : Cid π) (syn : Packet) (accept : Accept π)
  /-- The channel is in the table, and the stream is to be made. -/
  | opening (cid : Cid π) (config : ConnectionConfig) (syn : Option Packet) (streamEvents : Nat)
      (accept : Option (Accept π))

namespace UtpSocket

variable {π κ : Type} [LinearOrder κ]

omit [LinearOrder κ] in
theorem suffix_tail {idType idType' : IdType} {rest : List IdType}
    (h : idType :: idType' :: rest <:+ cidTypes) : idType' :: rest <:+ cidTypes :=
  (List.suffix_cons idType (idType' :: rest)).trans h

/-- The stream is made, and the goroutine that waits for its connection to
answer a request is started. -/
def openStream (s : UtpSocket π κ) (cid : Cid π) (config : ConnectionConfig) (syn : Option Packet)
    (streamEvents : Nat) (accept : Option (Accept π)) (rnd : Uint16) (now : Time) :
    UtpSocket π κ :=
  let s := s.newUtpStream cid config syn streamEvents accept rnd now
  match accept with
  | none => s
  | some req => { s with answering := s.answering ++ [(s.streams.length - 1, req)] }

variable [CidHash π κ]

/-- A packet for which there is no connection, as far as the table. -/
def unrouted (s : UtpSocket π κ) (packet : Packet) (peer : π) (rnd : Uint16) (now : Time) :
    UtpSocket π κ × Option (Task π) :=
  if packet.header.packetType ≠ .st_syn then (s.handleUnrouted packet peer rnd now, none)
  else
    let cid := cidFromPacket packet peer .recvId
    match s.getAwaiting (genHash cid) with
    | some accept => (s.removeAwaiting (genHash cid), some (.accepting cid packet accept))
    | none => (s.putIncomingConn (genHash cid) { pkt := packet, cid }, none)

/-- A goroutine goes on as far as its next access to the table. -/
def advance (s : UtpSocket π κ) (rnd : Uint16) (now : Time) :
    Task π → UtpSocket π κ × Option (Task π)
  | .generate peer config streamEvents =>
      let cid := newConnectionId peer rnd (rnd + 1)
      match s.getConnStream (genHash cid) with
      | some _ => (s, some (.generate peer config streamEvents))
      | none => (s, some (.generated cid config streamEvents))
  | .generated cid config streamEvents =>
      (s.putConnStream (genHash cid) streamEvents, some (.connect cid config streamEvents))
  | .connect cid config streamEvents =>
      (s.putConnStream (genHash cid) streamEvents,
        some (.opening cid config none streamEvents none))
  | .connectWithCid cid config =>
      match s.getConnStream (genHash cid) with
      | some _ => (s, none)
      | none => (s, some (.available cid config))
  | .available cid config =>
      let (s, streamEvents) := s.makeChan
      (s.putConnStream (genHash cid) streamEvents,
        some (.opening cid config none streamEvents none))
  | .lookup packet peer idType rest h =>
      match s.getConnStreamWithCids (cidFromPacket packet peer idType), rest, h with
      | some connStream, _, _ => (s.offer connStream (.incoming packet), none)
      | none, [], _ => s.unrouted packet peer rnd now
      | none, idType' :: rest', h =>
          (s, some (.lookup packet peer idType' rest' (suffix_tail h)))
  | .selectAccept cid syn accept =>
      match s.getConnStream (genHash cid) with
      | some _ => (s.answer accept (.error .cidUnavailable), none)
      | none => (s, some (.accepting cid syn accept))
  | .accepting cid syn accept =>
      let (s, streamEvents) := s.makeChan
      (s.putConnStream (genHash cid) streamEvents,
        some (.opening cid accept.config (some syn) streamEvents (some accept)))
  | .opening cid config syn streamEvents accept =>
      (s.openStream cid config syn streamEvents accept rnd now, none)

end UtpSocket

/-! ### The socket with its tasks -/

/-- A socket, what its event loop is at, and the calls that run beside it. -/
structure Node (π κ : Type) [LinearOrder κ] where
  sock : UtpSocket π κ
  handler : Option (Task π)
  callers : List (Task π)

/-- The step does not access the table, or accesses it once. -/
def UtpSocket.Op.atomic {π κ : Type} : UtpSocket.Op π κ → Bool
  | .incoming .. | .takeAcceptWithCid .. | .takeAccept .. | .connect ..
  | .connectWithCid .. => false
  | .acceptWithCid .. | .accept .. | .expireAwaiting | .expireIncoming | .awaitConnected ..
  | .close | .writeLoop | .receive .. | .serve .. => true

/-- A call begins, the event loop receives, the event loop (`none`) or a caller
goes on, or a step is taken that is atomic. -/
inductive Action (π κ : Type) where
  | connect (peer : π) (config : ConnectionConfig)
  | connectWithCid (cid : Cid π) (config : ConnectionConfig)
  | incoming (incomingRaw : IncomingPacketRaw π)
  | takeAcceptWithCid
  | takeAccept (first : κ)
  | advance (who : Option Nat) (rnd : Uint16) (now : Time)
  | atomic (op : UtpSocket.Op π κ) (h : op.atomic)

namespace Node

variable {π κ : Type} [LinearOrder κ]

/-- Nobody is between two accesses. -/
def idle (sock : UtpSocket π κ) : Node π κ := ⟨sock, none, []⟩

def tasks (n : Node π κ) : List (Task π) := n.handler.toList ++ n.callers

def task? (n : Node π κ) : Option Nat → Option (Task π)
  | none => n.handler
  | some i => n.callers[i]?

/-- The tasks but one. -/
def others (n : Node π κ) : Option Nat → List (Task π)
  | none => n.callers
  | some i => n.handler.toList ++ n.callers.eraseIdx i

/-- A goroutine went on, or returned. -/
def replace (n : Node π κ) (sock : UtpSocket π κ) (next : Option (Task π)) :
    Option Nat → Node π κ
  | none => { n with sock, handler := next }
  | some i => { n with
      sock
      callers := match next with
        | some t => n.callers.set i t
        | none => n.callers.eraseIdx i }

variable [CidHash π κ] [Float64]

def step (n : Node π κ) : Action π κ → GoM (Node π κ)
  | .connect peer config =>
      let (sock, streamEvents) := n.sock.makeChan
      pure { n with sock, callers := n.callers ++ [.generate peer config streamEvents] }
  | .connectWithCid cid config =>
      pure { n with callers := n.callers ++ [.connectWithCid cid config] }
  | .incoming incomingRaw =>
      match n.handler, decodePacket incomingRaw.payload with
      | none, .ok packet => pure { n with
          handler := some (.lookup packet incomingRaw.peer _ _ (List.suffix_refl cidTypes)) }
      | _, _ => pure n
  | .takeAcceptWithCid =>
      match n.handler, n.sock.acceptsWithCidCh with
      | none, req :: rest =>
          let sock := { n.sock with acceptsWithCidCh := rest, taken := n.sock.taken ++ [req] }
          match req.cid with
          | none => throw .nilDereference
          | some cid =>
              match sock.removeIncomingConn (genHash cid) with
              | (some incomingConn, sock) =>
                  pure { n with sock, handler := some (.selectAccept cid incomingConn.pkt req) }
              | (none, sock) => pure { n with sock := sock.putAwaiting (genHash cid) req }
      | _, _ => pure n
  | .takeAccept first =>
      match n.handler, n.sock.accepts with
      | none, req :: rest =>
          match { n.sock with accepts := rest }.nextIncomingConn first with
          | (some incomingAccept, sock) => pure { n with
              sock
              handler := some (.selectAccept incomingAccept.cid incomingAccept.pkt req) }
          | (none, sock) => pure { n with sock := sock.answer req (.error .noIncomingConn) }
      | _, _ => pure n
  | .advance who rnd now =>
      match n.task? who with
      | none => pure n
      | some t =>
          let (sock, next) := n.sock.advance rnd now t
          pure (n.replace sock next who)
  | .atomic op _ => do
      let sock ← n.sock.step op
      pure { n with sock }

def run (n : Node π κ) (acts : List (Action π κ)) : GoM (Node π κ) := acts.foldlM step n

/-- Every step of the run satisfies the condition in the state it meets. -/
def Along (P : Node π κ → Action π κ → Prop) : Node π κ → List (Action π κ) → Prop
  | _, [] => True
  | n, act :: acts => P n act ∧ ∀ n', n.step act = .ok n' → Along P n' acts

theorem along_cons {P : Node π κ → Action π κ → Prop} {n n₁ : Node π κ} {act : Action π κ}
    {acts : List (Action π κ)} (hP : P n act) (hstep : n.step act = .ok n₁)
    (h : Along P n₁ acts) : Along P n (act :: acts) := by
  refine ⟨hP, fun n' hn' => ?_⟩
  rw [hstep] at hn'
  cases hn'
  exact h

/-- What holds at the start and is kept by every such step holds after the
run. -/
theorem run_inv {P : Node π κ → Action π κ → Prop} {I : Node π κ → Prop}
    (hstep : ∀ n act n', P n act → I n → n.step act = .ok n' → I n') {n n' : Node π κ}
    {acts : List (Action π κ)} (halong : Along P n acts) (hn : I n) (hrun : n.run acts = .ok n') :
    I n' := by
  induction acts generalizing n with
  | nil => exact pure_eq_ok.mp hrun ▸ hn
  | cons act acts ih =>
      obtain ⟨n₁, hok, hrun⟩ := bind_eq_ok.mp hrun
      exact ih (halong.2 n₁ hok) (hstep n act n₁ halong.1 hn hok) hrun

/-! ### One goroutine at a time -/

section Uninterrupted

variable {n n₁ n' : Node π κ} {s s' : UtpSocket π κ}

theorem reaches_of_step (act : Action π κ) (hstep : n.step act = .ok n₁)
    (h : ∃ acts, n₁.run acts = .ok n') : ∃ acts, n.run acts = .ok n' := by
  obtain ⟨acts, hacts⟩ := h
  exact ⟨act :: acts, bind_eq_ok.mpr ⟨n₁, hstep, hacts⟩⟩

/-- The event loop goes on, and then does the rest. -/
theorem reaches_of_handler {t : Task π} {next : Option (Task π)} (rnd : Uint16) (now : Time)
    (hstep : s.advance rnd now t = (s', next))
    (h : ∃ acts, (⟨s', next, []⟩ : Node π κ).run acts = .ok n') :
    ∃ acts, (⟨s, some t, []⟩ : Node π κ).run acts = .ok n' := by
  refine reaches_of_step (.advance none rnd now) ?_ h
  simp only [step, task?, hstep]
  rfl

/-- A caller goes on, and then does the rest. -/
theorem reaches_of_caller {t : Task π} {next : Option (Task π)} (rnd : Uint16) (now : Time)
    (hstep : s.advance rnd now t = (s', next))
    (h : ∃ acts, (⟨s', none, next.toList⟩ : Node π κ).run acts = .ok n') :
    ∃ acts, (⟨s, none, [t]⟩ : Node π κ).run acts = .ok n' := by
  refine reaches_of_step (.advance (some 0) rnd now) ?_ h
  simp only [step, task?, List.getElem?_cons_zero, hstep]
  cases next <;> rfl

variable (s) (cid : Cid π) (rnd : Uint16) (now : Time)

theorem reaches_startAccepted (syn : Packet) (accept : Accept π) :
    ∃ acts, (⟨s, some (.accepting cid syn accept), []⟩ : Node π κ).run acts
      = .ok (idle (s.startAccepted cid syn accept rnd now)) := by
  refine reaches_of_handler rnd now rfl ?_
  exact reaches_of_handler rnd now rfl ⟨[], rfl⟩

theorem reaches_selectAcceptHelper (syn : Packet) (accept : Accept π) :
    ∃ acts, (⟨s, some (.selectAccept cid syn accept), []⟩ : Node π κ).run acts
      = .ok (idle (s.selectAcceptHelper cid syn accept rnd now)) := by
  cases hget : s.getConnStream (genHash cid) with
  | some ch =>
      have hstep : s.advance rnd now (.selectAccept cid syn accept)
          = (s.answer accept (.error .cidUnavailable), none) := by
        simp only [UtpSocket.advance, hget]
      refine reaches_of_handler rnd now hstep ⟨[], ?_⟩
      rw [UtpSocket.selectAcceptHelper, hget]
      rfl
  | none =>
      have hstep : s.advance rnd now (.selectAccept cid syn accept)
          = (s, some (.accepting cid syn accept)) := by
        simp only [UtpSocket.advance, hget]
      refine reaches_of_handler rnd now hstep ?_
      rw [UtpSocket.selectAcceptHelper, hget]
      exact reaches_startAccepted s cid rnd now syn accept

/-- No connection has the last reading of the id. -/
theorem reaches_handleUnrouted (packet : Packet) (peer : π) :
    ∃ acts, (⟨(s.unrouted packet peer rnd now).1, (s.unrouted packet peer rnd now).2, []⟩ :
      Node π κ).run acts = .ok (idle (s.handleUnrouted packet peer rnd now)) := by
  by_cases hsyn : packet.header.packetType ≠ .st_syn
  · rw [UtpSocket.unrouted, if_pos hsyn]
    exact ⟨[], rfl⟩
  · rw [UtpSocket.unrouted, if_neg hsyn, UtpSocket.handleUnrouted, if_neg hsyn]
    dsimp only
    cases hget : s.getAwaiting (genHash (cidFromPacket packet peer .recvId)) with
    | some accept => exact reaches_startAccepted _ _ rnd now packet accept
    | none => exact ⟨[], rfl⟩

/-- The readings of the id are looked up, one after the other. -/
theorem reaches_lookup (packet : Packet) (peer : π) (idType : IdType) (rest : List IdType)
    (h : idType :: rest <:+ cidTypes) :
    ∃ acts, (⟨s, some (.lookup packet peer idType rest h), []⟩ : Node π κ).run acts
      = .ok (idle (((idType :: rest).findSome? fun idType =>
          s.getConnStreamWithCids (cidFromPacket packet peer idType)).elim
            (s.handleUnrouted packet peer rnd now) (s.offer · (.incoming packet)))) := by
  induction rest generalizing idType with
  | nil =>
      rw [List.findSome?_cons]
      cases hget : s.getConnStreamWithCids (cidFromPacket packet peer idType) with
      | some ch =>
          refine reaches_of_handler rnd now ?_ ⟨[], rfl⟩
          simp only [UtpSocket.advance, hget]
          rfl
      | none =>
          refine reaches_of_handler rnd now ?_ (reaches_handleUnrouted s rnd now packet peer)
          simp only [UtpSocket.advance, hget]
  | cons idType' rest ih =>
      rw [List.findSome?_cons]
      cases hget : s.getConnStreamWithCids (cidFromPacket packet peer idType) with
      | some ch =>
          refine reaches_of_handler rnd now ?_ ⟨[], rfl⟩
          simp only [UtpSocket.advance, hget]
          rfl
      | none =>
          refine reaches_of_handler rnd now ?_ (ih idType' (UtpSocket.suffix_tail h))
          simp only [UtpSocket.advance, hget]

theorem reaches_connectWithCid (config : ConnectionConfig) :
    ∃ acts, (⟨s, none, [.connectWithCid cid config]⟩ : Node π κ).run acts
      = .ok (idle (s.connectWithCid cid config rnd now)) := by
  cases hget : s.getConnStream (genHash cid) with
  | some ch =>
      have hstep : s.advance rnd now (.connectWithCid cid config) = (s, none) := by
        simp only [UtpSocket.advance, hget]
      refine reaches_of_caller rnd now hstep ⟨[], ?_⟩
      rw [UtpSocket.connectWithCid, hget]
      rfl
  | none =>
      have hstep : s.advance rnd now (.connectWithCid cid config)
          = (s, some (.available cid config)) := by
        simp only [UtpSocket.advance, hget]
      refine reaches_of_caller rnd now hstep ?_
      rw [UtpSocket.connectWithCid, hget]
      refine reaches_of_caller rnd now rfl ?_
      exact reaches_of_caller rnd now rfl ⟨[], rfl⟩

/-- Numbers are drawn until one is free. -/
theorem reaches_connect {rnds : List Uint16} {peer : π} {streamEvents : Nat} {cid : Cid π}
    (config : ConnectionConfig)
    (hgenerate : s.generateCid peer true (some streamEvents) rnds = some (cid, s')) :
    ∃ acts, (⟨s, none, [.generate peer config streamEvents]⟩ : Node π κ).run acts
      = .ok (idle (s'.startConnected cid config streamEvents rnd now)) := by
  induction rnds with
  | nil => cases hgenerate
  | cons recv rnds ih =>
      rw [UtpSocket.generateCid] at hgenerate
      simp only [if_true] at hgenerate
      cases hget : s.getConnStream (genHash (newConnectionId peer recv (recv + 1))) with
      | some ch =>
          have hstep : s.advance recv now (.generate peer config streamEvents)
              = (s, some (.generate peer config streamEvents)) := by
            simp only [UtpSocket.advance, hget]
          rw [hget] at hgenerate
          exact reaches_of_caller recv now hstep (ih hgenerate)
      | none =>
          have hstep : s.advance recv now (.generate peer config streamEvents) = (s, some
              (.generated (newConnectionId peer recv (recv + 1)) config streamEvents)) := by
            simp only [UtpSocket.advance, hget]
          rw [hget] at hgenerate
          cases hgenerate
          refine reaches_of_caller recv now hstep ?_
          refine reaches_of_caller rnd now rfl ?_
          refine reaches_of_caller rnd now rfl ?_
          exact reaches_of_caller rnd now rfl ⟨[], rfl⟩

theorem reaches_handleIncomingBuf (incomingRaw : IncomingPacketRaw π) :
    ∃ acts, (idle s).run acts = .ok (idle (s.handleIncomingBuf incomingRaw rnd now)) := by
  rw [UtpSocket.handleIncomingBuf]
  cases hdecode : decodePacket incomingRaw.payload with
  | error err => exact ⟨[], rfl⟩
  | ok packet =>
      have hlookup : ∃ acts, (⟨s, some (.lookup packet incomingRaw.peer _ _
          (List.suffix_refl cidTypes)), []⟩ : Node π κ).run acts
            = .ok (idle ((s.route packet incomingRaw.peer).elim
              (s.handleUnrouted packet incomingRaw.peer rnd now) (s.offer · (.incoming packet)))) :=
        reaches_lookup s rnd now packet incomingRaw.peer _ _ (List.suffix_refl cidTypes)
      have hstep : (idle s).step (.incoming incomingRaw) = .ok ⟨s, some (.lookup packet
          incomingRaw.peer _ _ (List.suffix_refl cidTypes)), []⟩ := by
        simp only [step, idle, hdecode]
        rfl
      refine reaches_of_step _ hstep ?_
      dsimp only
      cases hroute : s.route packet incomingRaw.peer with
      | some ch =>
          rw [hroute] at hlookup
          exact hlookup
      | none =>
          rw [hroute] at hlookup
          exact hlookup

theorem reaches_takeAcceptWithCid {req : Accept π} {rest : List (Accept π)}
    (hreq : s.acceptsWithCidCh = req :: rest)
    (hok : UtpSocket.handleNewAcceptWithCidEvent
      { s with acceptsWithCidCh := rest, taken := s.taken ++ [req] } req rnd now = .ok s') :
    ∃ acts, (idle s).run acts = .ok (idle s') := by
  rw [UtpSocket.handleNewAcceptWithCidEvent] at hok
  cases hcid : req.cid with
  | none =>
      rw [hcid] at hok
      cases hok
  | some cid =>
      rw [hcid] at hok
      dsimp only at hok
      generalize hremove : UtpSocket.removeIncomingConn
        { s with acceptsWithCidCh := rest, taken := s.taken ++ [req] } (genHash cid) = r at hok
      obtain ⟨found, s₁⟩ := r
      cases found with
      | some incomingConn =>
          have hstep : (idle s).step .takeAcceptWithCid
              = .ok ⟨s₁, some (.selectAccept cid incomingConn.pkt req), []⟩ := by
            simp only [step, idle, hreq, hcid, hremove]
            rfl
          obtain rfl := pure_eq_ok.mp hok
          exact reaches_of_step _ hstep
            (reaches_selectAcceptHelper s₁ cid rnd now incomingConn.pkt req)
      | none =>
          have hstep : (idle s).step .takeAcceptWithCid
              = .ok (idle (s₁.putAwaiting (genHash cid) req)) := by
            simp only [step, idle, hreq, hcid, hremove]
            rfl
          obtain rfl := pure_eq_ok.mp hok
          exact reaches_of_step _ hstep ⟨[], rfl⟩

theorem reaches_takeAccept {req : Accept π} {rest : List (Accept π)} (first : κ)
    (hreq : s.accepts = req :: rest) : ∃ acts, (idle s).run acts = .ok (idle
      (UtpSocket.handleNewAcceptEvent { s with accepts := rest } req first rnd now)) := by
  rw [UtpSocket.handleNewAcceptEvent]
  generalize hnext : UtpSocket.nextIncomingConn { s with accepts := rest } first = r
  obtain ⟨found, s₁⟩ := r
  cases found with
  | some incomingAccept =>
      have hstep : (idle s).step (.takeAccept first) = .ok ⟨s₁,
          some (.selectAccept incomingAccept.cid incomingAccept.pkt req), []⟩ := by
        simp only [step, idle, hreq, hnext]
        rfl
      exact reaches_of_step _ hstep (reaches_selectAcceptHelper s₁ _ rnd now _ req)
  | none =>
      have hstep : (idle s).step (.takeAccept first)
          = .ok (idle (s₁.answer req (.error .noIncomingConn))) := by
        simp only [step, idle, hreq, hnext]
        rfl
      exact reaches_of_step _ hstep ⟨[], rfl⟩

variable {s}

/-- **The tasks do what the handlers do**: a step of the socket is a run in
which one goroutine at a time goes on until it returns. -/
theorem run_of_step {op : UtpSocket.Op π κ} (hok : s.step op = .ok s') :
    ∃ acts, (idle s).run acts = .ok (idle s') := by
  have hatomic : op.atomic → ∃ acts, (idle s).run acts = .ok (idle s') := fun h =>
    reaches_of_step (.atomic op h) (bind_eq_ok.mpr ⟨s', hok, rfl⟩) ⟨[], rfl⟩
  cases op with
  | incoming incomingRaw rnd now =>
      obtain rfl := pure_eq_ok.mp hok
      exact reaches_handleIncomingBuf s rnd now incomingRaw
  | takeAcceptWithCid rnd now =>
      simp only [UtpSocket.step] at hok
      split at hok
      · obtain rfl := pure_eq_ok.mp hok
        exact ⟨[], rfl⟩
      · rename_i req rest hreq
        exact reaches_takeAcceptWithCid s rnd now hreq hok
  | takeAccept first rnd now =>
      simp only [UtpSocket.step] at hok
      split at hok
      · obtain rfl := pure_eq_ok.mp hok
        exact ⟨[], rfl⟩
      · rename_i req rest hreq
        obtain rfl := pure_eq_ok.mp hok
        exact reaches_takeAccept s rnd now first hreq
  | connect peer config rnds rnd now =>
      obtain rfl := pure_eq_ok.mp hok
      cases hgenerate : s.makeChan.1.generateCid peer true (some s.makeChan.2) rnds with
      | none =>
          simp only [UtpSocket.connect, hgenerate]
          exact ⟨[], rfl⟩
      | some r =>
          simp only [UtpSocket.connect, hgenerate]
          exact reaches_of_step (.connect peer config) rfl
            (reaches_connect s.makeChan.1 rnd now config hgenerate)
  | connectWithCid cid config rnd now =>
      obtain rfl := pure_eq_ok.mp hok
      exact reaches_of_step (.connectWithCid cid config) rfl
        (reaches_connectWithCid s cid rnd now config)
  | acceptWithCid | accept | expireAwaiting | expireIncoming | awaitConnected | close | writeLoop
  | receive | serve => exact hatomic rfl

end Uninterrupted

end Node

end UtpGo
