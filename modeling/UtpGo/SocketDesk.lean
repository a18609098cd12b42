/-
UtpGo/SocketDesk.lean

Runs of a socket, and what its steps do to requests and streams.  `Desk` is
what a socket keeps of them.  A request to accept a connection waits in its
channel; the event loop takes it, and stores it under its id, pairs it with a
SYN, for which there is a new stream, or refuses it (`Handled`).  A goroutine
sends the result of one that was paired.  The streams are made by these pairs
and by connect calls, and their loops serve events.

Main result: `step_desk`, this is all that happens.
-/
import UtpGo.Socket

namespace UtpGo

open Checked

namespace UtpSocket

/-! ### Runs of a socket -/

/-- What happens at a socket.  The event loop receives packets and requests,
the wheels turn, and callers, goroutines and streams do their part. -/
inductive Op (π κ : Type) where
  | incoming (incomingRaw : IncomingPacketRaw π) (rnd : Uint16) (now : Time)
  | acceptWithCid (cid : Cid π) (config : ConnectionConfig)
  | accept (config : ConnectionConfig)
  | takeAcceptWithCid (rnd : Uint16) (now : Time)
  | takeAccept (first : κ) (rnd : Uint16) (now : Time)
  | expireAwaiting
  | expireIncoming
  | connect (peer : π) (config : ConnectionConfig) (rnds : List Uint16) (rnd : Uint16) (now : Time)
  | connectWithCid (cid : Cid π) (config : ConnectionConfig) (rnd : Uint16) (now : Time)
  | awaitConnected (i : Nat)
  | close
  | writeLoop
  | receive (i : Nat) (shutdown : Bool) (rnd : Uint16) (now : Time)
  | serve (i : Nat) (ev : LoopEvent)

variable {π κ : Type} [LinearOrder κ] [CidHash π κ]

def step [Float64] (s : UtpSocket π κ) : Op π κ → GoM (UtpSocket π κ)
  | .incoming incomingRaw rnd now => pure (s.handleIncomingBuf incomingRaw rnd now)
  | .acceptWithCid cid config => pure (s.acceptWithCid cid config)
  | .accept config => pure (s.accept config)
  | .takeAcceptWithCid rnd now =>
      match s.acceptsWithCidCh with
      | [] => pure s
      | req :: rest =>
          handleNewAcceptWithCidEvent
            { s with acceptsWithCidCh := rest, taken := s.taken ++ [req] } req rnd now
  | .takeAccept first rnd now =>
      match s.accepts with
      | [] => pure s
      | req :: rest => pure ({ s with accepts := rest }.handleNewAcceptEvent req first rnd now)
  | .expireAwaiting => pure s.expireAwaiting
  | .expireIncoming => pure s.expireIncoming
  | .connect peer config rnds rnd now => pure ((s.connect peer config rnds rnd now).getD s)
  | .connectWithCid cid config rnd now => pure (s.connectWithCid cid config rnd now)
  | .awaitConnected i => s.awaitConnected i
  | .close => pure s.sendShutdownEventToConns
  | .writeLoop => pure s.writeLoop
  | .receive i shutdown rnd now => s.receive i shutdown rnd now
  | .serve i ev => s.serve i ev

def run [Float64] (s : UtpSocket π κ) (ops : List (Op π κ)) : GoM (UtpSocket π κ) :=
  ops.foldlM step s

/-- Every step of the run satisfies the condition in the state it meets. -/
def Along [Float64] (P : UtpSocket π κ → Op π κ → Prop) : UtpSocket π κ → List (Op π κ) → Prop
  | _, [] => True
  | s, op :: ops => P s op ∧ ∀ s', s.step op = .ok s' → Along P s' ops

/-! ### What is lost in silence -/

/-- The step loses no request: one that is stored finds its place free, and
none that is stored expires. -/
def Safe (s : UtpSocket π κ) : Op π κ → Prop
  | .takeAcceptWithCid _ _ => ∀ req rest cid, s.acceptsWithCidCh = req :: rest →
      req.cid = some cid → s.incomingConns.get? (genHash cid) = none →
      s.awaiting.get? (genHash cid) = none
  | .expireAwaiting => ∀ item ∈ s.awaitingExpirations.due, s.awaiting.get? item.1 = none
  | _ => True

end UtpSocket

/-! ### The desk -/

/-- What a socket keeps of requests and streams. -/
structure Desk (π κ : Type) [LinearOrder κ] where
  requests : List (Accept π)
  taken : List (Accept π)
  withCid : List (Accept π)
  plain : List (Accept π)
  awaiting : OrdMap κ (Accept π)
  streams : List (UtpStream π)
  answering : List (Nat × Accept π)
  results : List (Nat × Except AcceptError Nat)

variable {π κ : Type} [LinearOrder κ]

def UtpSocket.desk (s : UtpSocket π κ) : Desk π κ where
  requests := s.requests
  taken := s.taken
  withCid := s.acceptsWithCidCh
  plain := s.accepts
  awaiting := s.awaiting
  streams := s.streams
  answering := s.answering
  results := s.results

/-- A stream as it is made. -/
def UtpStream.fresh (cid : Cid π) (config : ConnectionConfig) (syn : Option Packet)
    (streamEvents : Nat) (accept : Option (Accept π)) (rnd : Uint16) (now : Time) : UtpStream π :=
  { cid, syn, streamEvents, accept
    loop := .waiting ((newConnection cid.toConnectionId config syn rnd now).start now) }

/-- A request is paired with a SYN, or refused. -/
inductive Handled (d : Desk π κ) (req : Accept π) : Desk π κ → Prop where
  | pair (cid : Cid π) (syn : Packet) (streamEvents : Nat) (rnd : Uint16) (now : Time) :
      Handled d req { d with
        streams := d.streams ++ [.fresh cid req.config (some syn) streamEvents (some req) rnd now]
        answering := d.answering ++ [(d.streams.length, req)] }
  | refuse {err : AcceptError} (herr : err ≠ .connectionFailed) : Handled d req { d with
        results := d.results ++ [(req.stream, .error err)] }

variable [CidHash π κ]

/-- What a step does to the desk; a `safe` one loses no request. -/
inductive DeskStep [Float64] (safe : Prop) (d : Desk π κ) : Desk π κ → Prop where
  | same : DeskStep safe d d
  | ask (config : ConnectionConfig) (cid : Cid π) : DeskStep safe d { d with
      requests := d.requests ++ [⟨d.requests.length, config, some cid⟩]
      withCid := d.withCid ++ [⟨d.requests.length, config, some cid⟩] }
  | askPlain (config : ConnectionConfig) : DeskStep safe d { d with
      requests := d.requests ++ [⟨d.requests.length, config, none⟩]
      plain := d.plain ++ [⟨d.requests.length, config, none⟩] }
  | store {req : Accept π} {rest : List (Accept π)} {cid : Cid π} (hreq : d.withCid = req :: rest)
      (hcid : req.cid = some cid) (hfree : safe → d.awaiting.get? (genHash cid) = none) :
      DeskStep safe d { d with
        withCid := rest
        taken := d.taken ++ [req]
        awaiting := d.awaiting.insert (genHash cid) req }
  | take {req : Accept π} {rest : List (Accept π)} {d' : Desk π κ} (hreq : d.withCid = req :: rest)
      (h : Handled { d with withCid := rest, taken := d.taken ++ [req] } req d') :
      DeskStep safe d d'
  | takePlain {req : Accept π} {rest : List (Accept π)} {d' : Desk π κ}
      (hreq : d.plain = req :: rest) (h : Handled { d with plain := rest } req d') :
      DeskStep safe d d'
  | pairStored {req : Accept π} {key : κ} (hkey : d.awaiting.get? key = some req) (cid : Cid π)
      (syn : Packet) (streamEvents : Nat) (rnd : Uint16) (now : Time) : DeskStep safe d { d with
        awaiting := d.awaiting.erase key
        streams := d.streams ++ [.fresh cid req.config (some syn) streamEvents (some req) rnd now]
        answering := d.answering ++ [(d.streams.length, req)] }
  | expire (keys : List κ) (hkeys : safe → ∀ key ∈ keys, d.awaiting.get? key = none) :
      DeskStep safe d { d with awaiting := keys.foldl (fun m key => m.erase key) d.awaiting }
  | connect (cid : Cid π) (config : ConnectionConfig) (streamEvents : Nat) (rnd : Uint16)
      (now : Time) : DeskStep safe d { d with
        streams := d.streams ++ [.fresh cid config none streamEvents none rnd now] }
  | answer {i n : Nat} {req : Accept π} {result : Except AcceptError Nat}
      (hi : d.answering[i]? = some (n, req)) (hcid : req.cid ≠ none)
      (hresult : ∀ err, result = .error err → err = .connectionFailed) : DeskStep safe d { d with
        answering := d.answering.eraseIdx i
        results := d.results ++ [(req.stream, result)] }
  | serve {i : Nat} {st : UtpStream π} {ev : LoopEvent} {loop : LoopState}
      (hst : d.streams[i]? = some st) (hok : Connection.serve st.loop ev = .ok loop) :
      DeskStep safe d { d with streams := d.streams.set i { st with loop } }

/-! ### The handlers -/

namespace UtpSocket

variable {s s' : UtpSocket π κ} {cid : Cid π} {rnd : Uint16} {now : Time}

theorem desk_startAccepted (s : UtpSocket π κ) (cid : Cid π) (syn : Packet) (req : Accept π)
    (rnd : Uint16) (now : Time) : (s.startAccepted cid syn req rnd now).desk = { s.desk with
      streams := s.streams ++ [.fresh cid req.config (some syn) s.chans.length (some req) rnd now]
      answering := s.answering ++ [(s.streams.length, req)] } := by
  have hlast : ∀ st : UtpStream π, (s.streams ++ [st]).length - 1 = s.streams.length := by
    intro st
    rw [List.length_append, List.length_singleton, Nat.add_sub_cancel]
  show Desk.mk _ _ _ _ _ _ (s.answering ++ [((s.streams ++ [_]).length - 1, req)]) _ = _
  rw [hlast]
  rfl

/-- A request in hand is handled. -/
theorem handled_selectAcceptHelper (s : UtpSocket π κ) (cid : Cid π) (syn : Packet)
    (req : Accept π) (rnd : Uint16) (now : Time) :
    Handled s.desk req (s.selectAcceptHelper cid syn req rnd now).desk := by
  unfold selectAcceptHelper
  split
  · have herr : AcceptError.cidUnavailable ≠ .connectionFailed := nofun
    exact .refuse herr
  · rw [desk_startAccepted]
    exact .pair cid syn s.chans.length rnd now

omit [CidHash π κ] in
theorem desk_removeIncomingConn (key : κ) : (s.removeIncomingConn key).2.desk = s.desk := by
  unfold removeIncomingConn
  split <;> rfl

omit [CidHash π κ] in
theorem desk_nextIncomingConn (first : κ) : (s.nextIncomingConn first).2.desk = s.desk := by
  unfold nextIncomingConn
  split
  · exact desk_removeIncomingConn first
  · split
    · rfl
    · exact desk_removeIncomingConn _

theorem desk_generateCid {peer : π} {isInitiator : Bool} {eventCh : Option Nat}
    {rnds : List Uint16} (h : s.generateCid peer isInitiator eventCh rnds = some (cid, s')) :
    s'.desk = s.desk := by
  induction rnds with
  | nil => cases h
  | cons recv rnds ih =>
      unfold generateCid at h
      dsimp only at h
      split at h
      · exact ih h
      · cases h
        cases eventCh <;> rfl

variable [Float64] {safe : Prop}

theorem desk_handleIncomingBuf (s : UtpSocket π κ) (incomingRaw : IncomingPacketRaw π)
    (rnd : Uint16) (now : Time) :
    DeskStep safe s.desk (s.handleIncomingBuf incomingRaw rnd now).desk := by
  unfold handleIncomingBuf
  split
  · exact .same
  split
  · exact .same
  rename_i packet _ _ _
  unfold handleUnrouted
  split
  · split <;> exact .same
  · dsimp only
    split
    · rename_i req hreq
      have hkey : s.desk.awaiting.get? _ = some req := hreq
      rw [desk_startAccepted]
      exact .pairStored hkey _ packet s.chans.length rnd now
    · exact .same

theorem desk_takeAcceptWithCid {req : Accept π} {rest : List (Accept π)}
    (hreq : s.acceptsWithCidCh = req :: rest)
    (hsafe : safe → ∀ cid, req.cid = some cid → s.incomingConns.get? (genHash cid) = none →
      s.awaiting.get? (genHash cid) = none)
    (hok : handleNewAcceptWithCidEvent
      { s with acceptsWithCidCh := rest, taken := s.taken ++ [req] } req rnd now = .ok s') :
    DeskStep safe s.desk s'.desk := by
  unfold handleNewAcceptWithCidEvent at hok
  split at hok
  · cases hok
  rename_i cid hcid
  unfold removeIncomingConn at hok
  cases hget : s.incomingConns.get? (genHash cid) with
  | some incomingConn =>
      simp only [hget] at hok
      obtain rfl := pure_eq_ok.mp hok
      have hhandled := handled_selectAcceptHelper { s with
        acceptsWithCidCh := rest
        taken := s.taken ++ [req]
        incomingConns := s.incomingConns.erase (genHash cid)
        incomingConnsExpirations := s.incomingConnsExpirations.remove (genHash cid) }
        cid incomingConn.pkt req rnd now
      exact .take hreq hhandled
  | none =>
      simp only [hget] at hok
      obtain rfl := pure_eq_ok.mp hok
      exact .store hreq hcid fun h => hsafe h cid hcid hget

theorem desk_takeAccept {req : Accept π} {rest : List (Accept π)} (first : κ)
    (hreq : s.accepts = req :: rest) : DeskStep safe s.desk
      (handleNewAcceptEvent { s with accepts := rest } req first rnd now).desk := by
  have hnext : (nextIncomingConn { s with accepts := rest } first).2.desk
      = { s.desk with plain := rest } := desk_nextIncomingConn first
  refine .takePlain hreq ?_
  unfold handleNewAcceptEvent
  split
  · rename_i incomingAccept s₁ hs₁
    rw [hs₁] at hnext
    rw [← hnext]
    exact handled_selectAcceptHelper s₁ incomingAccept.cid incomingAccept.pkt req rnd now
  · rename_i s₁ hs₁
    rw [hs₁] at hnext
    rw [← hnext]
    have herr : AcceptError.noIncomingConn ≠ .connectionFailed := nofun
    exact .refuse herr

theorem desk_connect {peer : π} {config : ConnectionConfig} {rnds : List Uint16} :
    DeskStep safe s.desk ((s.connect peer config rnds rnd now).getD s).desk := by
  unfold connect
  dsimp only
  cases h : generateCid s.makeChan.1 peer true (some s.makeChan.2) rnds with
  | none => exact .same
  | some r =>
      obtain ⟨cid, s₁⟩ := r
      have hdesk : s₁.desk = s.desk := desk_generateCid (s := s.makeChan.1) h
      show DeskStep safe s.desk (s₁.startConnected cid config _ rnd now).desk
      rw [← hdesk]
      exact .connect cid config _ rnd now

theorem desk_connectWithCid {config : ConnectionConfig} :
    DeskStep safe s.desk (s.connectWithCid cid config rnd now).desk := by
  unfold connectWithCid
  split
  · exact .same
  · exact .connect cid config s.chans.length rnd now

theorem desk_awaitConnected {i : Nat} (hok : s.awaitConnected i = .ok s') :
    DeskStep safe s.desk s'.desk := by
  unfold awaitConnected at hok
  split at hok
  · obtain rfl := pure_eq_ok.mp hok
    exact .same
  rename_i n req hi
  split at hok
  · cases hok
  · obtain rfl := pure_eq_ok.mp hok
    exact .same
  · rename_i cid err hcid _
    obtain rfl := pure_eq_ok.mp hok
    refine .answer (n := n) hi ?_ ?_
    · rw [hcid]
      exact Option.some_ne_none cid
    · intro err' heq
      split at heq
      · cases heq
      · cases heq
        rfl

theorem desk_serve {i : Nat} {ev : LoopEvent} (hok : s.serve i ev = .ok s') :
    DeskStep safe s.desk s'.desk := by
  unfold serve at hok
  split at hok
  · obtain rfl := pure_eq_ok.mp hok
    exact .same
  · rename_i st hst
    obtain ⟨loop, hserve, hok⟩ := bind_eq_ok.mp hok
    obtain rfl := pure_eq_ok.mp hok
    exact .serve hst hserve

theorem desk_receive {i : Nat} {shutdown : Bool} (hok : s.receive i shutdown rnd now = .ok s') :
    DeskStep safe s.desk s'.desk := by
  unfold receive at hok
  split at hok
  · obtain rfl := pure_eq_ok.mp hok
    exact .same
  split at hok
  · obtain rfl := pure_eq_ok.mp hok
    exact .same
  · have hserve : DeskStep safe _ _ := desk_serve hok
    exact hserve

/-- **What a step does**: it makes a request, takes one from its channel, pairs
one that is stored, lets some expire, answers one, makes a stream, or lets the
loop of a stream serve an event. -/
theorem step_desk {op : Op π κ} (hok : s.step op = .ok s') :
    DeskStep (s.Safe op) s.desk s'.desk := by
  cases op with
  | incoming incomingRaw rnd now =>
      obtain rfl := pure_eq_ok.mp hok
      exact desk_handleIncomingBuf s incomingRaw rnd now
  | acceptWithCid cid config =>
      obtain rfl := pure_eq_ok.mp hok
      exact .ask config cid
  | accept config =>
      obtain rfl := pure_eq_ok.mp hok
      exact .askPlain config
  | takeAcceptWithCid rnd now =>
      simp only [step] at hok
      split at hok
      · obtain rfl := pure_eq_ok.mp hok
        exact .same
      · rename_i req rest hreq
        exact desk_takeAcceptWithCid hreq (fun hsafe cid => hsafe req rest cid hreq) hok
  | takeAccept first rnd now =>
      simp only [step] at hok
      split at hok
      · obtain rfl := pure_eq_ok.mp hok
        exact .same
      · rename_i req rest hreq
        obtain rfl := pure_eq_ok.mp hok
        exact desk_takeAccept first hreq
  | expireAwaiting =>
      obtain rfl := pure_eq_ok.mp hok
      have hfold : s.expireAwaiting.awaiting = (s.awaitingExpirations.due.map (·.1)).foldl
          (fun m key => m.erase key) s.awaiting := List.foldl_map.symm
      show DeskStep _ s.desk { s.desk with awaiting := s.expireAwaiting.awaiting }
      rw [hfold]
      refine .expire _ fun hsafe key hkey => ?_
      obtain ⟨item, hitem, rfl⟩ := List.mem_map.mp hkey
      exact hsafe item hitem
  | expireIncoming =>
      obtain rfl := pure_eq_ok.mp hok
      exact .same
  | connect peer config rnds rnd now =>
      obtain rfl := pure_eq_ok.mp hok
      exact desk_connect
  | connectWithCid cid config rnd now =>
      obtain rfl := pure_eq_ok.mp hok
      exact desk_connectWithCid
  | awaitConnected i => exact desk_awaitConnected hok
  | close =>
      obtain rfl := pure_eq_ok.mp hok
      unfold sendShutdownEventToConns
      split <;> exact .same
  | writeLoop =>
      obtain rfl := pure_eq_ok.mp hok
      unfold writeLoop
      split <;> exact .same
  | receive i shutdown rnd now => exact desk_receive hok
  | serve i ev => exact desk_serve hok

end UtpSocket

end UtpGo
