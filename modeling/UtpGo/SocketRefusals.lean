/-
UtpGo/SocketRefusals.lean

Requests to accept a connection that are answered with an error.  The event
loop refuses a request without an id when no SYN has come, and any request
whose SYN names an id that is in use (`Refuses`).  The goroutine that answers
for a new connection could send an error too, but it never does: the
connection of an acceptor reports its success before it handles any event
(`Welcomed`).

Main result: `run_refuses_iff`, the errors that a socket has sent are those of
the steps that refused a request.
-/
import UtpGo.ConnAddress
import UtpGo.SocketDesk

namespace UtpGo

open Checked

/-! ### Acceptors report their success -/

namespace Connection

/-- The connection has left the handshake, and has reported a success. -/
structure Welcomed (c : Connection) : Prop where
  left : c.state ≠ .connecting
  connectedCh : c.connectedCh = [none]

theorem welcomed_start (cid : ConnectionId) (config : ConnectionConfig) (syn : Packet)
    (rnd : Uint16) (now t₀ : Time) :
    ((newConnection cid config (some syn) rnd now).start t₀).Welcomed where
  left := by rintro ⟨⟩
  connectedCh := rfl

variable [Float64]

theorem Welcomed.step {c c' : Connection} {ev : Event} (h : c.Welcomed)
    (hok : c.step ev = .ok c') : c'.Welcomed := by
  have hr := (step_steady hok).report h.left
  exact ⟨hr.left, hr.connectedCh.trans h.connectedCh⟩

theorem Welcomed.serve {s s' : LoopState} {ev : LoopEvent} (h : s.conn.Welcomed)
    (hok : Connection.serve s ev = .ok s') : s'.conn.Welcomed :=
  serve_inv (I := Welcomed) (fun _ _ _ h hok => h.step hok)
    (fun _ _ _ h => ⟨h.left, h.connectedCh⟩) h hok

end Connection

section

variable {π : Type} {streams : List (UtpStream π)} {answering : List (Nat × Accept π)}

/-- Every request that is being answered has the stream of an acceptor, and
those have reported their success. -/
structure Welcomes (streams : List (UtpStream π)) (answering : List (Nat × Accept π)) : Prop where
  welcomed : ∀ st ∈ streams, st.syn ≠ none → st.loop.conn.Welcomed
  accepted : ∀ n req, (n, req) ∈ answering → ∃ st, streams[n]? = some st ∧ st.syn ≠ none

theorem Welcomes.fresh (h : Welcomes streams answering) (cid : Cid π) (config : ConnectionConfig)
    (syn : Option Packet) (streamEvents : Nat) (accept : Option (Accept π)) (rnd : Uint16)
    (now : Time) :
    Welcomes (streams ++ [.fresh cid config syn streamEvents accept rnd now]) answering where
  welcomed := by
    intro st hst hsyn
    rcases List.mem_append.mp hst with hst | hst
    · exact h.welcomed st hst hsyn
    · cases List.mem_singleton.mp hst
      obtain ⟨syn, rfl⟩ := Option.ne_none_iff_exists'.mp hsyn
      exact Connection.welcomed_start cid.toConnectionId config syn rnd now now
  accepted := by
    intro n req hmem
    obtain ⟨st, hst, hsyn⟩ := h.accepted n req hmem
    exact ⟨st, (List.getElem?_append_left (List.getElem?_eq_some_iff.mp hst).1).trans hst, hsyn⟩

/-- The last stream is that of an acceptor, and answers the request. -/
theorem Welcomes.pair {req : Accept π} (h : Welcomes streams answering) (cid : Cid π)
    (config : ConnectionConfig) (syn : Packet) (streamEvents : Nat) (rnd : Uint16) (now : Time) :
    Welcomes (streams ++ [.fresh cid config (some syn) streamEvents (some req) rnd now])
      (answering ++ [(streams.length, req)]) where
  welcomed := (h.fresh cid config (some syn) streamEvents (some req) rnd now).welcomed
  accepted := by
    intro n req' hmem
    rcases List.mem_append.mp hmem with hmem | hmem
    · exact (h.fresh cid config (some syn) streamEvents (some req) rnd now).accepted n req' hmem
    · cases List.mem_singleton.mp hmem
      exact ⟨_, List.getElem?_concat_length, Option.some_ne_none syn⟩

theorem Welcomes.serve [Float64] {i : Nat} {st : UtpStream π} {ev : LoopEvent} {loop : LoopState}
    (h : Welcomes streams answering) (hst : streams[i]? = some st)
    (hok : Connection.serve st.loop ev = .ok loop) :
    Welcomes (streams.set i { st with loop }) answering where
  welcomed := by
    intro st' hst' hsyn
    rcases List.mem_or_eq_of_mem_set hst' with hst' | rfl
    · exact h.welcomed st' hst' hsyn
    · exact (h.welcomed st (List.mem_of_getElem? hst) hsyn).serve hok
  accepted := by
    intro n req hmem
    obtain ⟨st', hst', hsyn⟩ := h.accepted n req hmem
    by_cases hn : i = n
    · subst hn
      cases hst.symm.trans hst'
      exact ⟨_, List.getElem?_set_self (List.getElem?_eq_some_iff.mp hst).1, hsyn⟩
    · exact ⟨st', (List.getElem?_set_ne hn).trans hst', hsyn⟩

end

variable {π κ : Type} [LinearOrder κ] [CidHash π κ] [Float64]

theorem DeskStep.welcomes {safe : Prop} {d d' : Desk π κ} (h : DeskStep safe d d')
    (hd : Welcomes d.streams d.answering) : Welcomes d'.streams d'.answering := by
  cases h with
  | same | ask | askPlain | store | expire => exact hd
  | take _ h | takePlain _ h =>
      cases h with
      | pair cid syn streamEvents rnd now => exact hd.pair cid _ syn streamEvents rnd now
      | refuse => exact hd
  | pairStored _ cid syn streamEvents rnd now => exact hd.pair cid _ syn streamEvents rnd now
  | connect cid config streamEvents rnd now =>
      exact hd.fresh cid config none streamEvents none rnd now
  | answer =>
      exact ⟨hd.welcomed, fun n req hmem => hd.accepted n req (List.mem_of_mem_eraseIdx hmem)⟩
  | serve hst hok => exact hd.serve hst hok

/-! ### Refusals -/

namespace UtpSocket

variable {s s' : UtpSocket π κ} {rnd : Uint16} {now : Time}

/-- The step answers the request with this number with an error: there is no
SYN for a request without an id, or the id for which the request would get a
stream is in use. -/
inductive Refuses (s : UtpSocket π κ) : Op π κ → Nat → AcceptError → Prop where
  | noIncomingConn {req : Accept π} {rest : List (Accept π)} (first : κ) (rnd : Uint16)
      (now : Time) (hreq : s.accepts = req :: rest) (hnone : s.incomingConns.keys = []) :
      Refuses s (.takeAccept first rnd now) req.stream .noIncomingConn
  | cidUnavailable {req : Accept π} {rest : List (Accept π)} {incomingConn : IncomingPacket π}
      (first : κ) (rnd : Uint16) (now : Time) (hreq : s.accepts = req :: rest)
      (hnext : (s.nextIncomingConn first).1 = some incomingConn)
      (huse : (s.getConnStream (genHash incomingConn.cid)).isSome = true) :
      Refuses s (.takeAccept first rnd now) req.stream .cidUnavailable
  | withCidUnavailable {req : Accept π} {rest : List (Accept π)} {cid : Cid π} (rnd : Uint16)
      (now : Time) (hreq : s.acceptsWithCidCh = req :: rest) (hcid : req.cid = some cid)
      (hsyn : (s.incomingConns.get? (genHash cid)).isSome = true)
      (huse : (s.getConnStream (genHash cid)).isSome = true) :
      Refuses s (.takeAcceptWithCid rnd now) req.stream .cidUnavailable

/-! ### The handlers -/

omit [CidHash π κ] [Float64] in
theorem nextIncomingConn_accepts (s : UtpSocket π κ) (rest : List (Accept π)) (first : κ) :
    nextIncomingConn { s with accepts := rest } first
      = ((s.nextIncomingConn first).1, { (s.nextIncomingConn first).2 with accepts := rest }) := by
  have hremove : ∀ key, removeIncomingConn { s with accepts := rest } key
      = ((s.removeIncomingConn key).1, { (s.removeIncomingConn key).2 with accepts := rest }) := by
    intro key
    unfold removeIncomingConn
    dsimp only
    cases s.incomingConns.get? key <;> rfl
  unfold nextIncomingConn
  dsimp only
  split
  · exact hremove first
  · cases s.incomingConns.keys with
    | nil => rfl
    | cons key keys => exact hremove key

omit [CidHash π κ] [Float64] in
/-- There is no next SYN, or one is taken out of the maps of SYNs. -/
theorem nextIncomingConn_cases (s : UtpSocket π κ) (first : κ) :
    (s.incomingConns.keys = [] ∧ s.nextIncomingConn first = (none, s)) ∨
    (s.incomingConns.keys ≠ [] ∧ ∃ incomingConn s₁,
      s.nextIncomingConn first = (some incomingConn, s₁) ∧ s₁.conns = s.conns ∧
        s₁.results = s.results) := by
  have hremove : ∀ key ∈ s.incomingConns.keys, ∃ incomingConn s₁,
      s.removeIncomingConn key = (some incomingConn, s₁) ∧ s₁.conns = s.conns ∧
        s₁.results = s.results := by
    intro key hkey
    obtain ⟨incomingConn, hentry⟩ := OrdMap.mem_keys.mp hkey
    unfold removeIncomingConn
    rw [OrdMap.get?_eq_some.mpr hentry]
    exact ⟨incomingConn, _, rfl, rfl, rfl⟩
  unfold nextIncomingConn
  split
  · rename_i hfirst
    have hmem := OrdMap.mem_keys.mpr (OrdMap.contains_iff.mp hfirst)
    exact .inr ⟨List.ne_nil_of_mem hmem, hremove first hmem⟩
  · split
    · rename_i hnil
      exact .inl ⟨hnil, rfl⟩
    · rename_i key keys hkeys
      have hmem : key ∈ s.incomingConns.keys := hkeys ▸ List.mem_cons_self
      exact .inr ⟨List.ne_nil_of_mem hmem, hremove key hmem⟩

variable {n : Nat} {err : AcceptError}

omit [CidHash π κ] [Float64] in
theorem mem_results_answer {req : Accept π} {err' : AcceptError} :
    (n, .error err) ∈ (s.answer req (.error err')).results ↔
      (n, .error err) ∈ s.results ∨ n = req.stream ∧ err = err' := by
  unfold answer
  rw [List.mem_append, List.mem_singleton, Prod.mk.injEq, Except.error.injEq]

omit [Float64] in
theorem mem_results_selectAcceptHelper {cid : Cid π} {syn : Packet} {req : Accept π} :
    (n, .error err) ∈ (s.selectAcceptHelper cid syn req rnd now).results ↔
      (n, .error err) ∈ s.results ∨ (s.getConnStream (genHash cid)).isSome = true ∧
        n = req.stream ∧ err = .cidUnavailable := by
  unfold selectAcceptHelper
  cases s.getConnStream (genHash cid) with
  | some ch =>
      dsimp only
      rw [mem_results_answer, Option.isSome_some, eq_self, true_and]
  | none =>
      rw [Option.isSome_none, or_iff_left (by rintro ⟨⟨⟩, -⟩)]
      exact Iff.rfl

omit [Float64] in
theorem takeAccept_refuses {req : Accept π} {rest : List (Accept π)} (first : κ)
    (hreq : s.accepts = req :: rest) : (n, .error err) ∈
      (handleNewAcceptEvent { s with accepts := rest } req first rnd now).results ↔
        (n, .error err) ∈ s.results ∨ s.Refuses (.takeAccept first rnd now) n err := by
  unfold handleNewAcceptEvent
  rw [nextIncomingConn_accepts]
  rcases nextIncomingConn_cases s first with ⟨hnil, hnext⟩ |
    ⟨hne, incomingConn, s₁, hnext, hconns, hresults⟩
  · rw [hnext]
    dsimp only
    rw [mem_results_answer]
    refine or_congr_right ⟨?_, ?_⟩
    · rintro ⟨rfl, rfl⟩
      exact .noIncomingConn first rnd now hreq hnil
    · intro h
      cases h with
      | noIncomingConn _ _ _ hreq' =>
          cases hreq.symm.trans hreq'
          exact ⟨rfl, rfl⟩
      | cidUnavailable _ _ _ _ hnext' =>
          rw [hnext] at hnext'
          cases hnext'
  · have hfst : (s.nextIncomingConn first).1 = some incomingConn := congrArg Prod.fst hnext
    have hget : getConnStream { s₁ with accepts := rest } (genHash incomingConn.cid)
        = s.getConnStream (genHash incomingConn.cid) :=
      congrArg (OrdMap.get? · (genHash incomingConn.cid)) hconns
    rw [hnext]
    dsimp only
    rw [mem_results_selectAcceptHelper, hget]
    refine or_congr (hresults ▸ Iff.rfl) ⟨?_, ?_⟩
    · rintro ⟨huse, rfl, rfl⟩
      exact .cidUnavailable first rnd now hreq hfst huse
    · intro h
      cases h with
      | noIncomingConn _ _ _ _ hnil => exact absurd hnil hne
      | cidUnavailable _ _ _ hreq' hnext' huse =>
          cases hreq.symm.trans hreq'
          cases hfst.symm.trans hnext'
          exact ⟨huse, rfl, rfl⟩

omit [Float64] in
theorem takeAcceptWithCid_refuses {req : Accept π} {rest : List (Accept π)}
    (hreq : s.acceptsWithCidCh = req :: rest)
    (hok : handleNewAcceptWithCidEvent
      { s with acceptsWithCidCh := rest, taken := s.taken ++ [req] } req rnd now = .ok s') :
    (n, .error err) ∈ s'.results ↔
      (n, .error err) ∈ s.results ∨ s.Refuses (.takeAcceptWithCid rnd now) n err := by
  unfold handleNewAcceptWithCidEvent at hok
  split at hok
  · cases hok
  rename_i cid hcid
  have hrefuses : s.Refuses (.takeAcceptWithCid rnd now) n err ↔
      (s.incomingConns.get? (genHash cid)).isSome = true ∧
        (s.getConnStream (genHash cid)).isSome = true ∧ n = req.stream ∧ err = .cidUnavailable := by
    constructor
    · intro h
      cases h with
      | withCidUnavailable _ _ hreq' hcid' hsyn huse =>
          cases hreq.symm.trans hreq'
          cases hcid.symm.trans hcid'
          exact ⟨hsyn, huse, rfl, rfl⟩
    · rintro ⟨hsyn, huse, rfl, rfl⟩
      exact .withCidUnavailable rnd now hreq hcid hsyn huse
  rw [hrefuses]
  unfold removeIncomingConn at hok
  cases hget : s.incomingConns.get? (genHash cid) with
  | some incomingConn =>
      simp only [hget] at hok
      obtain rfl := pure_eq_ok.mp hok
      rw [mem_results_selectAcceptHelper, Option.isSome_some, eq_self, true_and]
      exact Iff.rfl
  | none =>
      simp only [hget] at hok
      obtain rfl := pure_eq_ok.mp hok
      rw [Option.isSome_none, or_iff_left (by rintro ⟨⟨⟩, -⟩)]
      exact Iff.rfl

omit [CidHash π κ] [Float64] in
/-- The goroutine that answers for a new connection sends no error. -/
theorem awaitConnected_welcomes {i : Nat} (h : Welcomes s.streams s.answering)
    (hok : s.awaitConnected i = .ok s') :
    (n, .error err) ∈ s'.results ↔ (n, .error err) ∈ s.results := by
  unfold awaitConnected at hok
  split at hok
  · obtain rfl := pure_eq_ok.mp hok
    exact Iff.rfl
  rename_i m req hi
  obtain ⟨st, hst, hsyn⟩ := h.accepted m req (List.mem_of_getElem? hi)
  have hch := (h.welcomed st (List.mem_of_getElem? hst) hsyn).connectedCh
  rw [hst, Option.bind_some, hch] at hok
  split at hok
  · cases hok
  · obtain rfl := pure_eq_ok.mp hok
    exact Iff.rfl
  · rename_i hhead
    cases hhead
    obtain rfl := pure_eq_ok.mp hok
    show (n, Except.error err) ∈ s.results ++ [(req.stream, .ok m)] ↔ _
    rw [List.mem_append, List.mem_singleton, Prod.mk.injEq, or_iff_left (by rintro ⟨-, ⟨⟩⟩)]

/-! ### Runs -/

omit [Float64] in
theorem results_handleIncomingBuf (incomingRaw : IncomingPacketRaw π) :
    (s.handleIncomingBuf incomingRaw rnd now).results = s.results := by
  unfold handleIncomingBuf
  split
  · rfl
  split
  · rfl
  unfold handleUnrouted
  split
  · split <;> rfl
  · dsimp only
    split <;> rfl

omit [Float64] in
theorem results_connect {peer : π} {config : ConnectionConfig} {rnds : List Uint16} :
    ((s.connect peer config rnds rnd now).getD s).results = s.results := by
  unfold connect
  dsimp only
  cases h : generateCid s.makeChan.1 peer true (some s.makeChan.2) rnds with
  | none => rfl
  | some r => exact congrArg Desk.results (desk_generateCid (s := s.makeChan.1) h)

omit [CidHash π κ] in
theorem results_serve {i : Nat} {ev : LoopEvent} (hok : s.serve i ev = .ok s') :
    s'.results = s.results := by
  unfold serve at hok
  split at hok
  · obtain rfl := pure_eq_ok.mp hok
    rfl
  · obtain ⟨loop, -, hok⟩ := bind_eq_ok.mp hok
    obtain rfl := pure_eq_ok.mp hok
    rfl

omit [CidHash π κ] in
theorem results_receive {i : Nat} {shutdown : Bool}
    (hok : s.receive i shutdown rnd now = .ok s') : s'.results = s.results := by
  unfold receive at hok
  split at hok
  · obtain rfl := pure_eq_ok.mp hok
    rfl
  split at hok
  · obtain rfl := pure_eq_ok.mp hok
    rfl
  · have hserve := results_serve hok
    exact hserve

/-- **What errors a step sends**: those of the request it refuses. -/
theorem step_refuses {op : Op π κ} (h : Welcomes s.streams s.answering)
    (hok : s.step op = .ok s') : (n, .error err) ∈ s'.results ↔
      (n, .error err) ∈ s.results ∨ s.Refuses op n err := by
  have hsame : s'.results = s.results → ¬ s.Refuses op n err →
      ((n, .error err) ∈ s'.results ↔ (n, .error err) ∈ s.results ∨ s.Refuses op n err) := by
    intro hresults hnot
    rw [hresults, or_iff_left hnot]
  cases op with
  | takeAccept first rnd now =>
      simp only [step] at hok
      split at hok
      · rename_i hnil
        obtain rfl := pure_eq_ok.mp hok
        refine hsame rfl fun h => ?_
        cases h with
        | noIncomingConn _ _ _ hreq | cidUnavailable _ _ _ hreq => cases hnil.symm.trans hreq
      · rename_i req rest hreq
        obtain rfl := pure_eq_ok.mp hok
        exact takeAccept_refuses first hreq
  | takeAcceptWithCid rnd now =>
      simp only [step] at hok
      split at hok
      · rename_i hnil
        obtain rfl := pure_eq_ok.mp hok
        refine hsame rfl fun h => ?_
        cases h with
        | withCidUnavailable _ _ hreq => cases hnil.symm.trans hreq
      · rename_i req rest hreq
        exact takeAcceptWithCid_refuses hreq hok
  | awaitConnected i =>
      rw [or_iff_left (by rintro ⟨⟩)]
      exact awaitConnected_welcomes h hok
  | incoming incomingRaw rnd now =>
      obtain rfl := pure_eq_ok.mp hok
      exact hsame (results_handleIncomingBuf incomingRaw) (by rintro ⟨⟩)
  | acceptWithCid | accept | expireAwaiting | expireIncoming =>
      obtain rfl := pure_eq_ok.mp hok
      exact hsame rfl (by rintro ⟨⟩)
  | connect peer config rnds rnd now =>
      obtain rfl := pure_eq_ok.mp hok
      exact hsame results_connect (by rintro ⟨⟩)
  | connectWithCid cid config rnd now =>
      obtain rfl := pure_eq_ok.mp hok
      refine hsame ?_ (by rintro ⟨⟩)
      unfold connectWithCid
      split <;> rfl
  | close =>
      obtain rfl := pure_eq_ok.mp hok
      refine hsame ?_ (by rintro ⟨⟩)
      unfold sendShutdownEventToConns
      split <;> rfl
  | writeLoop =>
      obtain rfl := pure_eq_ok.mp hok
      refine hsame ?_ (by rintro ⟨⟩)
      unfold writeLoop
      split <;> rfl
  | receive i shutdown rnd now => exact hsame (results_receive hok) (by rintro ⟨⟩)
  | serve i ev => exact hsame (results_serve hok) (by rintro ⟨⟩)

theorem run_welcomes {ops : List (Op π κ)} (hrun : withSocket.run ops = .ok s) :
    Welcomes s.streams s.answering :=
  foldlM_inv (fun s : UtpSocket π κ => Welcomes s.streams s.answering) hrun
    ⟨fun _ h => absurd h List.not_mem_nil, fun _ _ h => absurd h List.not_mem_nil⟩
    fun _ _ _ _ h hok => (step_desk hok).welcomes h

/-- **The errors that a socket has sent** are those of the steps that refused a
request. -/
theorem run_refuses_iff {ops : List (Op π κ)} (hrun : withSocket.run ops = .ok s) :
    (n, .error err) ∈ s.results ↔ ∃ ops₁ op ops₂ s₁, ops = ops₁ ++ op :: ops₂ ∧
      withSocket.run ops₁ = .ok s₁ ∧ s₁.Refuses op n err := by
  have hocc := foldlM_occurs_iff
    (P := fun s : UtpSocket π κ => (n, .error err) ∈ s.results)
    (Q := fun s op => s.Refuses op n err) hrun
    fun _ _ _ _ _ _ hrun₁ hok _ => step_refuses (run_welcomes hrun₁) hok
  exact hocc.trans (or_iff_right List.not_mem_nil)

end UtpSocket

end UtpGo
