/-
UtpGo/SocketCalls.lean

What the calls of a socket return.  `Connect` and `ConnectWithCid` wait for
the channel `connectedCh` of the connection they have made, `Accept` and
`AcceptWithCid` for the result of their request.

The initiator of a connection closes its channel when the handshake succeeds
and sends an error on it when it gives up.  The two connect calls read this
differently (`connectReturns`, `connectWithCidReturns`).  The two accept calls
do the same with their result: they hand on its stream, and not its error
(`acceptReturns`).

Main results: `connect_told_iff`, a connect call tells how the handshake
ended, but for `Connect`, which reports a success as an error; and
`accept_told_iff`, the accept calls return a stream or an error, and no
request is handled without its id being there, exactly if no request without
an id has met a SYN and no result is an error; errors are sent when there is no
SYN for a request without an id, and when an id is in use.
-/
import UtpGo.ConnReport
import UtpGo.SocketRefusals

namespace UtpGo

open Checked

/-! ### What is returned -/

inductive CallError where
  | conn (err : ConnError)
  | accept (err : AcceptError)
  | connectionTimedOut
  | streamCreationFailed
  deriving DecidableEq

/-- A stream, by its number, and an error.  Each of them can be nil. -/
structure Returned where
  stream : Option Nat
  err : Option CallError
  deriving DecidableEq

/-- A receive from `connectedCh`: the value, and whether it was sent.  It waits
(`none`) until there is a signal.  An acceptor sends nil for its success, an
initiator closes the channel. -/
def Connection.recvConnected (c : Connection) : Option (Option ConnError × Bool) :=
  match c.connectedCh with
  | [] => none
  | some err :: _ => some (some err, true)
  | none :: _ => some (none, c.endpoint.type = .acceptor)

/-- The end of `Connect`. -/
def connectReturns (stream : Nat) (received : Option ConnError × Bool) : Returned :=
  let (err, ok) := received
  if ok ∧ err = none then ⟨some stream, none⟩
  else match err with
    | some err => ⟨none, some (.conn err)⟩
    | none => ⟨none, some .connectionTimedOut⟩

/-- The end of `ConnectWithCid`. -/
def connectWithCidReturns (stream : Nat) (received : Option ConnError × Bool) : Returned :=
  match received.1 with
  | none => ⟨some stream, none⟩
  | some _ => ⟨none, some .connectionTimedOut⟩

/-- The end of `Accept`, and of `AcceptWithCid`.  The result is a pointer. -/
def acceptReturns : Option (Except AcceptError Nat) → Returned
  | none => ⟨none, some .streamCreationFailed⟩
  | some streamRes => ⟨streamRes.toOption, none⟩

/-- The caller of a connect is told how the handshake ended: it gets the
stream if the connection was connected, and otherwise an error. -/
def Connection.Told (c : Connection) (stream : Nat) (r : Returned) : Prop :=
  if c.established.isSome then r = ⟨some stream, none⟩ else r.stream = none ∧ r.err ≠ none

/-- The caller of an accept gets the stream or the error that its request was
answered with. -/
def AcceptTold (result : Except AcceptError Nat) (r : Returned) : Prop :=
  match result with
  | .ok stream => r = ⟨some stream, none⟩
  | .error err => r = ⟨none, some (.accept err)⟩

theorem acceptTold_iff {result : Except AcceptError Nat} :
    AcceptTold result (acceptReturns (some result)) ↔ ∃ stream, result = .ok stream := by
  cases result with
  | ok stream => exact iff_of_true rfl ⟨stream, rfl⟩
  | error err =>
      refine iff_of_false (fun h => ?_) nofun
      cases congrArg Returned.err h

/-- The signal of an initiator, as the two connect calls read it. -/
theorem Connection.Signals.told_iff {c : Connection} (h : c.Signals)
    {received : Option ConnError × Bool} (hrecv : c.recvConnected = some received)
    (stream : Nat) : c.Told stream (connectWithCidReturns stream received) ∧
      (c.Told stream (connectReturns stream received) ↔ c.established = none) := by
  unfold recvConnected at hrecv
  rcases h.signal with hch | ⟨hch, he⟩ | ⟨⟨err, hch⟩, he⟩
  · rw [hch] at hrecv
    cases hrecv
  · -- the channel was closed
    rw [hch, h.type] at hrecv
    cases hrecv
    unfold Told
    rw [if_pos he, if_pos he]
    refine ⟨rfl, iff_of_false (fun heq => ?_) (Option.isSome_iff_ne_none.mp he)⟩
    cases congrArg Returned.stream heq
  · rw [hch] at hrecv
    cases hrecv
    unfold Told
    rw [he]
    exact ⟨⟨rfl, Option.some_ne_none _⟩, iff_of_true ⟨rfl, Option.some_ne_none _⟩ rfl⟩

theorem Connection.Signals.serve [Float64] {s s' : LoopState} {ev : LoopEvent}
    (h : s.conn.Signals) (hok : Connection.serve s ev = .ok s') : s'.conn.Signals :=
  serve_inv (I := Signals) (fun _ _ _ h hok => h.step hok)
    (fun _ _ _ h => ⟨h.type, h.connecting, h.signal⟩) h hok

/-! ### Streams that connect -/

section

variable {π κ : Type} [LinearOrder κ] [CidHash π κ] [Float64]

/-- Every stream that connects has a channel with at most one signal, which is
true. -/
def Desk.Signals (d : Desk π κ) : Prop := ∀ st ∈ d.streams, st.syn = none → st.loop.conn.Signals

theorem DeskStep.signals {safe : Prop} {d d' : Desk π κ} (h : DeskStep safe d d')
    (hd : d.Signals) : d'.Signals := by
  -- a new stream that connects is that of an initiator
  have hfresh : ∀ {cid : Cid π} {config : ConnectionConfig} {syn : Option Packet}
      {streamEvents : Nat} {accept : Option (Accept π)} {rnd : Uint16} {now : Time},
      ∀ st ∈ d.streams ++ [.fresh cid config syn streamEvents accept rnd now],
        st.syn = none → st.loop.conn.Signals := by
    intro cid config syn streamEvents accept rnd now st hst hsyn
    rcases List.mem_append.mp hst with hst | hst
    · exact hd st hst hsyn
    · cases List.mem_singleton.mp hst
      cases hsyn
      exact Connection.signals_start cid.toConnectionId config rnd now now
  cases h with
  | same | ask | askPlain | store | expire | answer => exact hd
  | take _ h | takePlain _ h =>
      cases h with
      | pair => exact hfresh
      | refuse => exact hd
  | pairStored | connect => exact hfresh
  | serve hst hok =>
      intro st' hst' hsyn
      rcases List.mem_or_eq_of_mem_set hst' with hst' | rfl
      · exact hd st' hst' hsyn
      · exact (hd _ (List.mem_of_getElem? hst) hsyn).serve hok

namespace UtpSocket

/-- **What a connect call returns.**  When there is a signal on the channel of
a stream that connects, `ConnectWithCid` returns the stream if the connection
was connected and an error otherwise.  So does `Connect` exactly if it was not:
that the channel has been closed it takes for a timeout. -/
theorem connect_told_iff (ops : List (Op π κ)) (s : UtpSocket π κ)
    (hrun : withSocket.run ops = .ok s) {n : Nat} {st : UtpStream π}
    (hst : s.streams[n]? = some st) (hsyn : st.syn = none)
    {received : Option ConnError × Bool} (hrecv : st.loop.conn.recvConnected = some received) :
    st.loop.conn.Told n (connectWithCidReturns n received) ∧
      (st.loop.conn.Told n (connectReturns n received) ↔ st.loop.conn.established = none) := by
  have hstart : (withSocket : UtpSocket π κ).desk.Signals :=
    fun st hst => absurd hst List.not_mem_nil
  have hsignals : s.desk.Signals :=
    foldlM_inv (fun s : UtpSocket π κ => s.desk.Signals) hrun hstart
      fun _ _ _ _ h hok => (step_desk hok).signals h
  exact (hsignals st (List.mem_of_getElem? hst) hsyn).told_iff hrecv n

omit [LinearOrder κ] [CidHash π κ] [Float64] in
/-- The SYN is answered: `ConnectWithCid` returns the stream. -/
theorem connect_told_stream : ∃ s st, @run Nat Nat _ plainHash exactFloat64 withSocket
      [.connectWithCid ⟨⟨101, 100⟩, 1⟩ newConnectionConfig 7 0,
        .serve 0 (.turn ⟨.onPacket
          ((newPacketBuilder .st_state 100 0 1000 5).withAckNum 7).build 0 0, false, 0⟩)] = .ok s ∧
    s.streams[0]? = some st ∧ st.loop.conn.recvConnected = some (none, false) ∧
    st.loop.conn.Told 0 (connectWithCidReturns 0 (none, false)) := by
  let := plainHash
  let := exactFloat64
  have hrun : ∃ s st, (withSocket : UtpSocket Nat Nat).run
        [.connectWithCid ⟨⟨101, 100⟩, 1⟩ newConnectionConfig 7 0,
          .serve 0 (.turn ⟨.onPacket
            ((newPacketBuilder .st_state 100 0 1000 5).withAckNum 7).build 0 0, false, 0⟩)]
          = .ok s ∧
      s.streams[0]? = some st ∧ st.syn = none ∧
      st.loop.conn.recvConnected = some (none, false) := ⟨_, _, rfl, rfl, rfl, rfl⟩
  obtain ⟨s, st, hrun, hst, hsyn, hrecv⟩ := hrun
  exact ⟨s, st, hrun, hst, hrecv, (connect_told_iff _ s hrun hst hsyn hrecv).1⟩

omit [LinearOrder κ] [CidHash π κ] [Float64] in
/-- The same for `Connect`: the connection is connected, and the caller gets an
error. -/
theorem connect_misreports : ∃ s st received,
    @run Nat Nat _ plainHash exactFloat64 withSocket
      [.connect 1 newConnectionConfig [100] 7 0,
        .serve 0 (.turn ⟨.onPacket
          ((newPacketBuilder .st_state 100 0 1000 5).withAckNum 7).build 0 0, false, 0⟩)] = .ok s ∧
    s.streams[0]? = some st ∧ st.syn = none ∧ st.loop.conn.established.isSome = true ∧
    st.loop.conn.recvConnected = some received ∧
    connectReturns 0 received = ⟨none, some .connectionTimedOut⟩ ∧
    connectWithCidReturns 0 received = ⟨some 0, none⟩ :=
  ⟨_, _, _, rfl, rfl, rfl, rfl, rfl, rfl, rfl⟩

end UtpSocket

/-! ### Requests to accept -/

omit [CidHash π κ] [Float64] in
/-- Where a request without an id is: it waits in its channel, or it was paired
with a SYN and is being answered, or it was sent an error. -/
def Desk.Placed (d : Desk π κ) (req : Accept π) : Prop :=
  req ∈ d.plain ∨ (∃ n, (n, req) ∈ d.answering) ∨ ∃ err, (req.stream, .error err) ∈ d.results

omit [CidHash π κ] [Float64] in
structure Desk.Filed (d : Desk π κ) : Prop where
  withCid : ∀ req ∈ d.withCid, req.cid ≠ none
  plain : ∀ req ∈ d.requests, req.cid = none → d.Placed req

omit [CidHash π κ] [Float64] in
theorem Handled.placed {d d' : Desk π κ} {req : Accept π} (h : Handled d req d') :
    d'.requests = d.requests ∧ d'.withCid = d.withCid ∧ d'.Placed req ∧
      ∀ other, d.Placed other → d'.Placed other := by
  cases h with
  | pair =>
      refine ⟨rfl, rfl, .inr (.inl ⟨_, List.mem_append_right _ List.mem_cons_self⟩), ?_⟩
      rintro other (h | ⟨n, h⟩ | h)
      · exact .inl h
      · exact .inr (.inl ⟨n, List.mem_append_left _ h⟩)
      · exact .inr (.inr h)
  | refuse =>
      refine ⟨rfl, rfl, .inr (.inr ⟨_, List.mem_append_right _ List.mem_cons_self⟩), ?_⟩
      rintro other (h | h | ⟨err, h⟩)
      · exact .inl h
      · exact .inr (.inl h)
      · exact .inr (.inr ⟨err, List.mem_append_left _ h⟩)

/-- **A request without an id never gets a stream.** -/
theorem DeskStep.filed {safe : Prop} {d d' : Desk π κ} (h : DeskStep safe d d')
    (hd : d.Filed) : d'.Filed := by
  cases h with
  | same | expire | connect | serve => exact ⟨hd.withCid, hd.plain⟩
  | ask config cid =>
      refine ⟨fun req hreq => ?_, fun req hreq hcid => ?_⟩
      · rcases List.mem_append.mp hreq with hreq | hreq
        · exact hd.withCid req hreq
        · cases List.mem_singleton.mp hreq
          exact Option.some_ne_none cid
      · rcases List.mem_append.mp hreq with hreq | hreq
        · exact hd.plain req hreq hcid
        · cases List.mem_singleton.mp hreq
          cases hcid
  | askPlain config =>
      refine ⟨hd.withCid, fun req hreq hcid => ?_⟩
      rcases List.mem_append.mp hreq with hreq | hreq
      · rcases hd.plain req hreq hcid with h | h
        · exact .inl (List.mem_append_left _ h)
        · exact .inr h
      · exact .inl (List.mem_append_right _ hreq)
  | store hreq => exact ⟨fun req h => hd.withCid req (hreq ▸ List.mem_cons_of_mem _ h), hd.plain⟩
  | take hreq h =>
      obtain ⟨hrequests, hwithCid, -, hkeeps⟩ := h.placed
      refine ⟨fun req h => ?_, fun req h hcid => ?_⟩
      · rw [hwithCid] at h
        exact hd.withCid req (hreq ▸ List.mem_cons_of_mem _ h)
      · rw [hrequests] at h
        exact hkeeps req (hd.plain req h hcid)
  | takePlain hreq h =>
      obtain ⟨hrequests, hwithCid, hplaced, hkeeps⟩ := h.placed
      refine ⟨fun req h => hd.withCid req (hwithCid ▸ h), fun req h hcid => ?_⟩
      rw [hrequests] at h
      rcases hd.plain req h hcid with h | h
      · -- it is the one taken, or it still waits
        rw [hreq, List.mem_cons] at h
        rcases h with rfl | h
        · exact hplaced
        · exact hkeeps req (.inl h)
      · exact hkeeps req (.inr h)
  | pairStored =>
      refine ⟨hd.withCid, fun req h hcid => ?_⟩
      rcases hd.plain req h hcid with h | ⟨n, h⟩ | h
      · exact .inl h
      · exact .inr (.inl ⟨n, List.mem_append_left _ h⟩)
      · exact .inr (.inr h)
  | answer hi hcid =>
      rename_i i n req result
      refine ⟨hd.withCid, fun other h hnone => ?_⟩
      rcases hd.plain other h hnone with h | ⟨m, h⟩ | ⟨err, h⟩
      · exact .inl h
      · -- the entry answered has an id
        obtain ⟨j, hj⟩ := List.mem_iff_getElem?.mp h
        refine .inr (.inl ⟨m, List.mem_eraseIdx_iff_getElem?.mpr ⟨j, ?_, hj⟩⟩)
        rintro rfl
        cases hi.symm.trans hj
        exact hcid hnone
      · exact .inr (.inr ⟨err, List.mem_append_left _ h⟩)

namespace UtpSocket

variable {s : UtpSocket π κ}

omit [LinearOrder κ] [CidHash π κ] [Float64] in
/-- The steps that handle requests to accept. -/
def Op.handlesRequests : Op π κ → Bool
  | .incoming .. | .takeAcceptWithCid .. | .takeAccept .. | .awaitConnected _ => true
  | _ => false

omit [CidHash π κ] [Float64] in
theorem awaitConnected_nil_iff {i : Nat} : s.awaitConnected i = .error .nilDereference ↔
    ∃ entry, s.answering[i]? = some entry ∧ entry.2.cid = none := by
  rcases hi : s.answering[i]? with - | ⟨n, req⟩
  · rw [awaitConnected, hi]
    exact iff_of_false nofun nofun
  rw [awaitConnected, hi]
  dsimp only
  split
  · rename_i hcid
    exact iff_of_true rfl ⟨(n, req), rfl, hcid⟩
  all_goals
    rename_i hcid _
    refine iff_of_false nofun ?_
    rintro ⟨entry, heq, hnone⟩
    cases heq
    cases hcid.symm.trans hnone

/-- An absent id is dereferenced by the goroutine that waits for the connection
of a request, and nowhere else. -/
theorem step_nil_iff (h : s.desk.Filed) {op : Op π κ} (hop : op.handlesRequests = true) :
    s.step op = .error .nilDereference ↔
      ∃ i entry, op = .awaitConnected i ∧ s.answering[i]? = some entry ∧ entry.2.cid = none := by
  have hothers : (∀ i, op ≠ .awaitConnected i) → ¬ ∃ i entry, op = .awaitConnected i ∧
      s.answering[i]? = some entry ∧ entry.2.cid = none := by
    rintro hne ⟨i, entry, heq, -⟩
    exact hne i heq
  cases op with
  | incoming incomingRaw rnd now =>
      refine iff_of_false (fun hnil => ?_) (hothers (by rintro i ⟨⟩))
      cases hnil
  | takeAccept first rnd now =>
      refine iff_of_false (fun hnil => ?_) (hothers (by rintro i ⟨⟩))
      simp only [step] at hnil
      split at hnil <;> cases hnil
  | takeAcceptWithCid rnd now =>
      refine iff_of_false (fun hnil => ?_) (hothers (by rintro i ⟨⟩))
      simp only [step] at hnil
      split at hnil
      · cases hnil
      · -- a request from this channel has an id
        rename_i req rest hreq
        have hmem : req ∈ s.acceptsWithCidCh := hreq ▸ List.mem_cons_self
        obtain ⟨cid, hcid⟩ := Option.ne_none_iff_exists'.mp (h.withCid req hmem)
        simp only [handleNewAcceptWithCidEvent, hcid] at hnil
        split at hnil <;> cases hnil
  | awaitConnected i =>
      rw [step, awaitConnected_nil_iff]
      constructor
      · rintro ⟨entry, hi, hcid⟩
        exact ⟨i, entry, rfl, hi, hcid⟩
      · rintro ⟨j, entry, ⟨⟩, hi, hcid⟩
        exact ⟨entry, hi, hcid⟩
  | _ => cases hop

/-- **What an accept call returns.**  In every state that a socket reaches, no
handler of requests dereferences an absent id, and every caller gets the stream
or the error with which its request was answered, if and only if no request
without an id is being answered and no request was answered with an error.  A
request without an id that has been received is one or the other: it never gets
a stream.  The errors sent are those of the steps that refuse a request. -/
theorem accept_told_iff (ops : List (Op π κ)) (s : UtpSocket π κ)
    (hrun : withSocket.run ops = .ok s) :
    ((∀ op : Op π κ, op.handlesRequests = true → s.step op ≠ .error .nilDereference) ∧
        (∀ result ∈ s.results, AcceptTold result.2 (acceptReturns (some result.2))) ↔
      (∀ entry ∈ s.answering, entry.2.cid ≠ none) ∧
        ∀ result ∈ s.results, ∃ stream, result.2 = .ok stream) ∧
    (∀ req ∈ s.requests, req.cid = none →
      req ∈ s.accepts ∨ (∃ n, (n, req) ∈ s.answering) ∨
        ∃ err, (req.stream, .error err) ∈ s.results) ∧
    ∀ n err, (n, .error err) ∈ s.results ↔ ∃ ops₁ op ops₂ s₁, ops = ops₁ ++ op :: ops₂ ∧
      withSocket.run ops₁ = .ok s₁ ∧ s₁.Refuses op n err := by
  have hstart : (withSocket : UtpSocket π κ).desk.Filed :=
    ⟨fun _ h => absurd h List.not_mem_nil, fun _ h => absurd h List.not_mem_nil⟩
  have hfiled : s.desk.Filed :=
    foldlM_inv (fun s : UtpSocket π κ => s.desk.Filed) hrun hstart
      fun _ _ _ _ h hok => (step_desk hok).filed h
  refine ⟨and_congr ?_ ?_, hfiled.plain, fun n err => run_refuses_iff hrun⟩
  · constructor
    · intro hsafe entry hentry hcid
      obtain ⟨i, hi⟩ := List.mem_iff_getElem?.mp hentry
      exact hsafe (.awaitConnected i) rfl ((step_nil_iff hfiled rfl).mpr ⟨i, entry, rfl, hi, hcid⟩)
    · intro hall op hop hnil
      obtain ⟨i, entry, -, hi, hcid⟩ := (step_nil_iff hfiled hop).mp hnil
      exact hall entry (List.mem_of_getElem? hi) hcid
  · exact forall_congr' fun result => imp_congr_right fun _ => acceptTold_iff

omit [LinearOrder κ] [CidHash π κ] [Float64] in
/-- A request with an id, its SYN, and the answer. -/
theorem accept_told_stream : ∃ s, @run Nat Nat _ plainHash exactFloat64 withSocket
      [.acceptWithCid ⟨⟨100, 101⟩, 1⟩ newConnectionConfig, .takeAcceptWithCid 0 0,
        .incoming ⟨1, (newPacketBuilder .st_syn 100 0 1000 7).build.encode⟩ 5 0,
        .awaitConnected 0] = .ok s ∧
    s.results = [(0, .ok 0)] ∧ AcceptTold (.ok 0) (acceptReturns (some (.ok 0))) := by
  let := plainHash
  let := exactFloat64
  have hrun : ∃ s, (withSocket : UtpSocket Nat Nat).run
        [.acceptWithCid ⟨⟨100, 101⟩, 1⟩ newConnectionConfig, .takeAcceptWithCid 0 0,
          .incoming ⟨1, (newPacketBuilder .st_syn 100 0 1000 7).build.encode⟩ 5 0,
          .awaitConnected 0] = .ok s ∧
      s.answering = [] ∧ s.results = [(0, .ok 0)] := ⟨_, rfl, rfl, rfl⟩
  obtain ⟨s, hrun, hanswering, hresults⟩ := hrun
  have htold := ((accept_told_iff _ s hrun).1.mpr ⟨?_, ?_⟩).2
  · exact ⟨s, hrun, hresults, htold (0, .ok 0) (hresults ▸ List.mem_cons_self)⟩
  · rw [hanswering]
    exact fun entry hentry => absurd hentry List.not_mem_nil
  · rw [hresults]
    rintro result hresult
    cases List.mem_singleton.mp hresult
    exact ⟨0, rfl⟩

omit [LinearOrder κ] [CidHash π κ] [Float64] in
/-- Two requests without an id.  With no SYN there the caller gets neither a
stream nor an error; with a SYN there the process ends. -/
theorem accept_ambiguous :
    (∃ s, @run Nat Nat _ plainHash exactFloat64 withSocket
        [.accept newConnectionConfig, .takeAccept 0 0 0] = .ok s ∧
      s.results = [(0, .error .noIncomingConn)] ∧
      acceptReturns (some (.error .noIncomingConn)) = ⟨none, none⟩) ∧
    ∃ s, @run Nat Nat _ plainHash exactFloat64 withSocket
        [.incoming ⟨1, (newPacketBuilder .st_syn 100 0 1000 7).build.encode⟩ 5 0,
          .accept newConnectionConfig, .takeAccept 0 5 0] = .ok s ∧
      @step Nat Nat _ plainHash exactFloat64 s (.awaitConnected 0) = .error .nilDereference :=
  ⟨⟨_, rfl, rfl, rfl⟩, ⟨_, rfl, rfl⟩⟩

end UtpSocket

end

end UtpGo
