/-
UtpGo/ConnReads.lean

What the reader of a connection gets, whatever packets come in: the bytes the
receive buffer has consumed, chunk by chunk, and the end of the stream after
them.

The receive buffer of a connection is the outcome of the calls made on it
(`Traced`): its writes are those of packets received, and what its reads
returned is what the reader got.  So what it has consumed is told by the
packets it accepted, in the order of their numbers.

Main result: `serveAll_reads`.
-/
import UtpGo.ConnExit
import UtpGo.RecvBufferRuns

namespace UtpGo

open Checked

/-! ### The calls on the receive buffer -/

namespace Connection

def recvBuf? (c : Connection) : Option ReceiveBuffer := c.established.map (·.recvBuf)

theorem recvBuf?_connected {c : Connection} {e : Established} (hs : c.state = .connected e) :
    c.recvBuf? = some e.recvBuf := by
  rw [recvBuf?, established_connected hs]
  rfl

theorem readStream_congr {c c' : Connection} (h : c'.reads = c.reads) :
    c'.readStream = c.readStream := congrArg (List.flatMap _) h

/-- The calls on the receive buffer: the writes are of packets `got`, and the
reads returned what was handed to the reader. -/
structure Traced (got : Packet → Prop) (c : Connection) : Prop where
  before : c.recvBuf? = none → c.readStream = []
  after : ∀ rb, c.recvBuf? = some rb → ∃ calls accepted,
    ReceiveBuffer.run c.config.bufferSize rb.initSeqNum calls
      = .ok ⟨rb, accepted, c.readStream⟩ ∧
    ∀ data seqNum, .write data seqNum ∈ calls →
      ∃ p, got p ∧ p.body = data ∧ p.header.seqNum = seqNum

variable {got : Packet → Prop} {c c' : Connection}

theorem Traced.of_same (h : c.Traced got) (hbuf : c'.recvBuf? = c.recvBuf?)
    (hstream : c'.readStream = c.readStream) (hconfig : c'.config = c.config) :
    c'.Traced got := by
  refine ⟨fun hnone => ?_, fun rb hrb => ?_⟩
  · rw [hstream]
    exact h.before (hbuf ▸ hnone)
  · rw [hstream, hconfig]
    exact h.after rb (hbuf ▸ hrb)

/-- One more call. -/
theorem Traced.call {e e' : Established} (h : c.Traced got) (hs : c.state = .connected e)
    (hs' : c'.state = .connected e') (hconfig : c'.config = c.config)
    (hinit : e'.recvBuf.initSeqNum = e.recvBuf.initSeqNum) (call : ReceiveBuffer.Call)
    (hcall : ∀ accepted, ∃ accepted', ReceiveBuffer.call ⟨e.recvBuf, accepted, c.readStream⟩ call
      = .ok ⟨e'.recvBuf, accepted', c'.readStream⟩)
    (hgot : ∀ data seqNum, call = .write data seqNum →
      ∃ p, got p ∧ p.body = data ∧ p.header.seqNum = seqNum) : c'.Traced got := by
  refine ⟨fun hnone => ?_, fun rb hrb => ?_⟩
  · cases (recvBuf?_connected hs').symm.trans hnone
  · cases (recvBuf?_connected hs').symm.trans hrb
    obtain ⟨calls, accepted, hrun, hwrites⟩ := h.after _ (recvBuf?_connected hs)
    obtain ⟨accepted', hcall⟩ := hcall accepted
    refine ⟨calls ++ [call], accepted', ?_, fun data seqNum hmem => ?_⟩
    · rw [hconfig, hinit, ReceiveBuffer.run, List.foldlM_append]
      rw [ReceiveBuffer.run] at hrun
      rw [hrun, ok_bind, List.foldlM_cons, hcall]
      rfl
    · rcases List.mem_append.mp hmem with hmem | hmem
      · exact hwrites data seqNum hmem
      · exact hgot data seqNum (List.mem_singleton.mp hmem).symm

theorem Traced.write {e e' : Established} {p : Packet} {err : Option RecvError}
    (h : c.Traced got) (hs : c.state = .connected e) (hs' : c'.state = .connected e')
    (hwf : e.recvBuf.WF) (hgot : got p)
    (hw : e.recvBuf.write p.body p.header.seqNum = .ok (e'.recvBuf, err))
    (hreads : c'.reads = c.reads) (hconfig : c'.config = c.config) : c'.Traced got := by
  have hinit := ReceiveBuffer.initSeqNum_write hwf hw
  refine h.call hs hs' hconfig hinit (.write p.body p.header.seqNum) ?_ ?_
  · intro accepted
    refine ⟨if e.recvBuf.accepts p.body p.header.seqNum then
      accepted ++ [(p.header.seqNum, p.body)] else accepted, ?_⟩
    rw [ReceiveBuffer.call, hw, readStream_congr hreads]
    rfl
  · rintro data seqNum ⟨⟩
    exact ⟨p, hgot, rfl, rfl⟩

theorem Traced.read {e e' : Established} {out : Bytes} (h : c.Traced got)
    (hs : c.state = .connected e) (hs' : c'.state = .connected e') (hwf : e.recvBuf.WF)
    (hr : e.recvBuf.read c.config.maxPacketSize.toNat = .ok (out, e'.recvBuf))
    (hreads : c'.reads = c.reads ++ [readResult c.config out]) (hconfig : c'.config = c.config) :
    c'.Traced got := by
  have hdid := ReceiveBuffer.didRead_of_ok hwf hr
  refine h.call hs hs' hconfig hdid.init (.read c.config.maxPacketSize.toNat) ?_ nofun
  intro accepted
  refine ⟨accepted, ?_⟩
  rw [ReceiveBuffer.call, hr, readStream_append hreads, take_readResult]
  rfl

/-- The first call comes with the handshake. -/
theorem Traced.establish {recvInit sentInit : Uint16} (h : c.Traced got)
    (hs : c.state = .connecting)
    (hs' : c'.state = .connected (Connection.establish c.config recvInit sentInit))
    (hreads : c'.reads = c.reads) (hconfig : c'.config = c.config) : c'.Traced got := by
  have hnil : c'.readStream = [] := by
    rw [readStream_congr hreads]
    apply h.before
    rw [recvBuf?, established, hs]
    rfl
  refine ⟨fun _ => hnil, fun rb hrb => ?_⟩
  cases (recvBuf?_connected hs').symm.trans hrb
  rw [hnil, hconfig]
  exact ⟨[], [], rfl, fun _ _ hp => absurd hp List.not_mem_nil⟩

end Connection

theorem Act.traced [Float64] {packet? : Option Packet} {guard : Guard} {m m' : Midcall}
    {got : Packet → Prop} (h : Act packet? guard m m') (hsound : m.Sound)
    (hgot : ∀ p, packet? = some p → got p) (hm : m.conn.Traced got) : m'.conn.Traced got := by
  -- another state with the same buffer
  have hkeep : ∀ {c c' : Connection} {e e' : Established}, c.Traced got → c'.reads = c.reads →
      c'.config = c.config → c.state = .connected e → c'.state = .connected e' →
      e'.recvBuf = e.recvBuf → c'.Traced got := by
    intro c c' e e' ht hreads hconfig hs hs' hrb
    refine ht.of_same ?_ (Connection.readStream_congr hreads) hconfig
    rw [Connection.recvBuf?_connected hs, Connection.recvBuf?_connected hs', hrb]
  have hend : ∀ {c : Connection} {r : ReadOrWriteResult}, c.Traced got → r.len = 0 →
      Connection.Traced got { c with reads := c.reads ++ [r] } := by
    intro c r ht hlen
    refine ht.of_same rfl ?_ rfl
    rw [Connection.readStream_append rfl, hlen, List.take_zero, List.append_nil]
  cases h with
  | sends h =>
      cases h with
      | enqueue | pickLost | pickExpired => exact hm.of_same rfl rfl rfl
      | flush hs | pickFin hs | send hs => exact hkeep hm rfl rfl hs rfl rfl
  | book h =>
      refine hm.of_same ?_ (Connection.readStream_congr h.reads) h.config
      rw [Connection.recvBuf?, Connection.established, h.state]
      rfl
  | emitState | emitReset | emitSyn => exact hm.of_same rfl rfl rfl
  | backOff hs | beginClosing hs | acked _ _ hs => exact hkeep hm rfl rfl hs rfl rfl
  | recvData hp _ hs _ hw | recvFin hp _ hs _ hw =>
      have hwf := (hsound _ (established_connected hs)).recvBuf
      exact hm.write hs rfl hwf (hgot _ hp) hw rfl rfl
  | readOut _ hs hr =>
      exact hm.read hs rfl (hsound _ (established_connected hs)).recvBuf hr rfl rfl
  | endOfStream | closedRead => exact hend hm rfl
  | close _ h =>
      refine hm.of_same ?_ rfl rfl
      exact congrArg (Option.map Established.recvBuf) h.established
  | establish _ _ hs => exact hm.establish hs rfl rfl rfl

/-! ### What a step hands to the reader -/

namespace Connection

/-- The end of the stream, as the reader gets it. -/
def eofResult : ReadOrWriteResult := { err := some .eof }

/-- What is handed to the reader between two states: chunks, none of them
empty, and then ends of the stream.  There are no chunks once the stream has
ended, and no ends before. -/
def Pushes (c c' : Connection) : Prop :=
  ∃ (chunks : List Bytes) (n : Nat), c'.reads = c.reads ++ (chunks.map (readResult c.config) ++
      List.replicate n eofResult) ∧
    (∀ chunk ∈ chunks, chunk ≠ []) ∧
    (∀ e, c.established = some e → e.Ended → chunks = []) ∧
    (0 < n → ∃ e', c'.established = some e' ∧ e'.Ended)

variable {c c' : Connection} {now : Time}

theorem Pushes.of_same (h : c'.reads = c.reads) : c.Pushes c' :=
  ⟨[], 0, by simpa using h, nofun, fun _ _ _ => rfl, nofun⟩

theorem readLoop_chunks {bufLen fuel : Nat} {rb rb' : ReceiveBuffer} {chunks : List Bytes}
    (hwf : rb.WF) (hok : readLoop bufLen fuel rb = .ok (chunks, rb')) :
    (∀ chunk ∈ chunks, chunk ≠ []) ∧ (rb.offset = 0 → chunks = []) := by
  induction fuel generalizing rb chunks with
  | zero =>
      cases hok
      exact ⟨nofun, fun _ => rfl⟩
  | succ fuel ih =>
      unfold readLoop at hok
      split at hok
      · cases hok
        exact ⟨nofun, fun _ => rfl⟩
      obtain ⟨⟨data, rb₁⟩, hread, hok⟩ := bind_eq_ok.mp hok
      have hdid := ReceiveBuffer.didRead_of_ok hwf hread
      dsimp only at hok
      split at hok
      · cases hok
        exact ⟨nofun, fun _ => rfl⟩
      · rename_i hz
        obtain ⟨⟨chunks₁, rb₂⟩, hloop, hok⟩ := bind_eq_ok.mp hok
        cases hok
        refine ⟨fun chunk hchunk => ?_, fun hoff => ?_⟩
        · rcases List.mem_cons.mp hchunk with rfl | hchunk
          · exact fun hnil => hz (congrArg List.length hnil)
          · exact (ih hdid.wf hloop).1 chunk hchunk
        · -- nothing can be read from an empty buffer
          rw [hdid.length, hoff, Nat.min_zero] at hz
          exact absurd rfl hz

theorem processReads_pushes [Float64] {w : Bytes} (hsound : Midcall.Sound ⟨c, none, w⟩)
    (hsize : c.config.maxPacketSize ≠ 0) (hopen : ¬ c.Closed) (hok : c.processReads = .ok c') :
    c.Pushes c' := by
  rcases hs : c.state with - | e | ⟨e, err⟩
  · rw [processReads, hs] at hok
    cases hok
    exact .of_same rfl
  swap
  · exact absurd ⟨e, err, hs⟩ hopen
  · have hwf := (hsound e (established_connected hs)).recvBuf
    obtain ⟨chunks, rb, hloop, -, hdry, rfl⟩ := processReads_connected hs hwf hok
    obtain ⟨hne, hnone⟩ := readLoop_chunks hwf hloop
    have hended : ∀ e₀, c.established = some e₀ → e₀.Ended → chunks = [] := by
      intro e₀ he₀ hend
      cases (established_connected hs).symm.trans he₀
      exact hnone hend.read
    unfold pushEof
    split
    · rename_i heof
      refine ⟨chunks, 1, List.append_assoc _ _ _, hne, hended, fun _ => ⟨_, rfl, ?_⟩⟩
      exact ended_of_eof rfl heof (hdry hsize)
    · refine ⟨chunks, 0, ?_, hne, hended, fun h => absurd h (by decide)⟩
      rw [List.replicate_zero, List.append_nil]

theorem established_closeClean (c : Connection) : c.closeClean.established = c.established := by
  unfold closeClean
  split
  · rename_i e hs
    exact (established_connected hs).symm
  · rfl

theorem established_closeBoth (c : Connection) : c.closeBoth.established = c.established := by
  unfold closeBoth
  split
  · split
    · exact c.established_closeClean
    · rfl
  · rfl

variable [Float64]

/-- The packets handled before the closing cases hand nothing over, and what
the second closing case reads comes last. -/
theorem onPacket_pushes {p : Packet} {rnd : Uint16} {w : Bytes}
    (hsound : Midcall.Sound ⟨c, none, w⟩) (hsize : c.config.maxPacketSize ≠ 0)
    (hok : c.onPacket p now rnd = .ok c') : c.Pushes c' := by
  rw [onPacket_eq] at hok
  obtain ⟨c₁, hbefore, hok⟩ := bind_eq_ok.mp hok
  obtain ⟨c₂, hremote, hok⟩ := bind_eq_ok.mp hok
  obtain rfl := pure_eq_ok.mp hok
  have hreads := (hands_beforeClosing hbefore).reads
  cases hdone : c₁.remoteDone with
  | false =>
      rw [closeRemote_of_not_done hdone] at hremote
      obtain rfl := pure_eq_ok.mp hremote
      exact .of_same (keeps_closeBoth.reads.trans hreads)
  | true =>
      obtain ⟨e₁, hs₁, -, heq⟩ := closeRemote_eq hdone
      rw [heq] at hremote
      obtain ⟨c₃, hprocess, hremote⟩ := bind_eq_ok.mp hremote
      obtain rfl := pure_eq_ok.mp hremote
      obtain ⟨⟨_, hand, w₁⟩, hreach, rfl, -, -⟩ :=
        (@beforeClosing_plays _ unguarded _ _ _ _ rnd hsound).ok c₁ hbefore
      obtain ⟨hsound₁, hconfig, hended⟩ := reach_inv (I := fun m : Midcall => m.Sound ∧
          m.conn.config = c.config ∧
          ((∃ e, c.established = some e ∧ e.Ended) → m.AtEnd)) (fun m m' hact hI =>
        ⟨Act.sound hact hI.1, (Act.config hact).trans hI.2.1,
          fun hend => Act.atEnd hact hI.1 (hI.2.2 hend)⟩) ⟨hsound, rfl, id⟩ hreach
      have hopen₁ : ¬ Connection.Closed _ := fun hclosed => hclosed.not_connected hs₁
      obtain ⟨chunks, n, hpush, hne, hnone, hend⟩ :=
        processReads_pushes (w := w₁) hsound₁ (hconfig ▸ hsize) hopen₁ hprocess
      refine ⟨chunks, n, ?_, hne, fun e he hend₀ => ?_, fun hn => ?_⟩
      · rw [(keeps_closeClean.trans keeps_closeBoth).reads, hpush, hreads]
        rw [show Connection.config _ = c.config from hconfig]
      · obtain ⟨e₂, he₂, hend₂⟩ := hended ⟨e, he, hend₀⟩
        exact hnone e₂ he₂ hend₂
      · obtain ⟨e', he', hend'⟩ := hend hn
        refine ⟨e', ?_, hend'⟩
        rw [established_closeBoth, established_closeClean]
        exact he'

theorem step_pushes {ev : Event} {w : Bytes} (hsound : Midcall.Sound ⟨c, none, w⟩)
    (hsize : c.config.maxPacketSize ≠ 0) (hopen : ¬ c.Closed) (hok : c.step ev = .ok c') :
    c.Pushes c' := by
  cases ev with
  | onPacket p now rnd => exact onPacket_pushes hsound hsize hok
  | processReads =>
      have hpush : Pushes { c with readable := c.readable - 1 } c' :=
        processReads_pushes (w := w) hsound hsize hopen hok
      exact hpush
  | onWrite | processWrites | tick | onTimeout | onIdleTimeout | shutdown =>
      exact .of_same (reads_step hok rfl (by rintro ⟨⟩))

/-! ### The stream of results -/

omit [Float64] in
/-- The results so far: chunks, and ends of the stream once it has ended. -/
structure Shaped (config : ConnectionConfig) (c : Connection) : Prop where
  same : c.config = config
  reads : ∃ (chunks : List Bytes) (n : Nat),
    c.reads = chunks.map (readResult config) ++ List.replicate n eofResult ∧
    (∀ chunk ∈ chunks, chunk ≠ []) ∧ (0 < n → ∃ e, c.established = some e ∧ e.Ended)

theorem Shaped.step {config : ConnectionConfig} {ev : Event} {w : Bytes} (h : c.Shaped config)
    (hsound : Midcall.Sound ⟨c, none, w⟩) (hsize : config.maxPacketSize ≠ 0)
    (hopen : ¬ c.Closed) (hok : c.step ev = .ok c') : c'.Shaped config := by
  obtain ⟨hand, -, -, hconfig, hstays⟩ := step_inv (w := w)
    (I := fun m => m.conn.config = config ∧ ((∃ e, c.established = some e ∧ e.Ended) → m.AtEnd))
    (fun m m' hact hs hI => ⟨hact.config.trans hI.1, fun hend => hact.atEnd hs (hI.2 hend)⟩)
    (guarded_unguarded c ev) hsound ⟨h.same, id⟩ hok
  refine ⟨hconfig, ?_⟩
  obtain ⟨chunks, n, hreads, hne, hend⟩ := h.reads
  obtain ⟨new, k, hpush, hnew, hnone, hend'⟩ :=
    step_pushes (w := w) hsound (h.same ▸ hsize) hopen hok
  rw [h.same, hreads] at hpush
  rcases Nat.eq_zero_or_pos n with rfl | hn
  · refine ⟨chunks ++ new, k, ?_, ?_, hend'⟩
    · rw [hpush, List.replicate_zero, List.append_nil, List.map_append, List.append_assoc]
    · intro chunk hchunk
      rcases List.mem_append.mp hchunk with hchunk | hchunk
      · exact hne chunk hchunk
      · exact hnew chunk hchunk
  · -- the stream has ended, and only its end is reported again
    obtain ⟨e, he, hended⟩ := hend hn
    obtain rfl := hnone e he hended
    refine ⟨chunks, n + k, ?_, hne, fun _ => hstays ⟨e, he, hended⟩⟩
    rw [hpush, List.map_nil, List.nil_append, List.append_assoc, List.replicate_append_replicate]

theorem Shaped.turn {config : ConnectionConfig} {t : Turn} {w : Bytes} (h : c.Shaped config)
    (hsound : Midcall.Sound ⟨c, none, w⟩) (hsize : config.maxPacketSize ≠ 0)
    (hopen : ¬ c.Closed) (hok : c.turn t = .ok c') : c'.Shaped config := by
  obtain ⟨c₁, hstep, hok⟩ := bind_eq_ok.mp hok
  have hshaped₁ := h.step (w := w) hsound hsize hopen hstep
  split at hok
  · rename_i hflag
    obtain ⟨hand, -, hsound₁, -⟩ := step_inv (I := fun _ => True) (fun _ _ _ _ _ => trivial)
      (guarded_unguarded c t.event) hsound trivial hstep
    refine hshaped₁.step (w := w) hsound₁ hsize ?_ (show c₁.step (.shutdown t.now) = _ from hok)
    exact fun hclosed => hflag.2 (isClosed_iff.mpr hclosed)
  · obtain rfl := pure_eq_ok.mp hok
    exact hshaped₁

omit [Float64] in
theorem Shaped.leave {config : ConnectionConfig} (h : c.Shaped config) (hclosed : c.Closed)
    (hok : c.leave now = .ok c') : c'.Shaped config := by
  obtain ⟨e, err, hs⟩ := hclosed
  rw [leave_of_closed hs] at hok
  cases hok
  exact ⟨h.same, h.reads⟩

omit [Float64] in
theorem Traced.leave {got : Packet → Prop} (h : c.Traced got) (hclosed : c.Closed)
    (hok : c.leave now = .ok c') : c'.Traced got := by
  obtain ⟨e, err, hs⟩ := hclosed
  rw [leave_of_closed hs] at hok
  cases hok
  exact h.of_same rfl rfl rfl

/-! ### The loop -/

omit [Float64] in
/-- The packets handed to the loop. -/
def received (events : List LoopEvent) : List Packet :=
  events.filterMap fun ev =>
    match ev with
    | .turn t => t.event.packet?
    | .ctxDone => none

omit [Float64] in
theorem mem_received {events : List LoopEvent} {t : Turn} {p : Packet}
    (ht : LoopEvent.turn t ∈ events) (hp : t.event.packet? = some p) : p ∈ received events :=
  List.mem_filterMap.mpr ⟨_, ht, hp⟩

theorem Traced.turn {got : Packet → Prop} {t : Turn} {w : Bytes} (h : c.Traced got)
    (hsound : Midcall.Sound ⟨c, none, w⟩) (hgot : ∀ p, t.event.packet? = some p → got p)
    (hok : c.turn t = .ok c') : ∃ w' : Bytes, Midcall.Sound ⟨c', none, w'⟩ ∧ c'.Traced got := by
  have hrule : ∀ {events : List Event}, (∀ ev ∈ events, ∀ p, ev.packet? = some p → got p) →
      c.run events = .ok c' → ∃ w' : Bytes, Midcall.Sound ⟨c', none, w'⟩ ∧ c'.Traced got := by
    intro events hgot hrun
    exact run_inv_mem (I := fun m => m.conn.Traced got)
      (fun ev hev _ _ hact hs hm => hact.traced hs (hgot ev hev) hm) (fun _ _ _ _ hm => hm)
      (along_unguarded c events) hsound h hrun
  rcases turn_cases hok with hrun | hrun
  · refine hrule (fun ev hev => ?_) hrun
    obtain rfl := List.mem_singleton.mp hev
    exact hgot
  · refine hrule (fun ev hev p hp => ?_) hrun
    rcases List.mem_cons.mp hev with rfl | hev
    · exact hgot p hp
    · obtain rfl := List.mem_singleton.mp hev
      cases hp

/-- A state of the loop, with what the reader has got. -/
structure Reads (config : ConnectionConfig) (got : Packet → Prop) (s : LoopState) : Prop where
  shaped : s.conn.Shaped config
  traced : s.conn.Traced got
  waits : ∀ c, s = .waiting c → c.Waits

theorem Reads.serve {config : ConnectionConfig} {got : Packet → Prop} {s s' : LoopState}
    {ev : LoopEvent} (h : Reads config got s) (hsize : config.maxPacketSize ≠ 0)
    (hgot : ∀ t p, ev = .turn t → t.event.packet? = some p → got p)
    (hok : serve s ev = .ok s') : Reads config got s' := by
  rcases s with c | c
  swap
  · obtain rfl := serve_returned hok
    exact h
  obtain ⟨⟨w, hsound⟩, hopen⟩ := h.waits c rfl
  rcases serve_cases hok with ⟨-, rfl⟩ | ⟨t, c₁, rfl, hturn, hnext⟩
  · refine ⟨h.shaped, h.traced, ?_⟩
    rintro c₁ ⟨⟩
  have hshaped := h.shaped.turn (w := w) hsound hsize hopen hturn
  obtain ⟨w₁, hsound₁, htraced⟩ := h.traced.turn (w := w) hsound (fun p => hgot t p rfl) hturn
  rcases hnext with ⟨hopen₁, rfl⟩ | ⟨hclosed, c₂, hleave, rfl⟩
  · refine ⟨hshaped, htraced, ?_⟩
    rintro c₂ ⟨⟩
    exact ⟨⟨w₁, hsound₁⟩, hopen₁⟩
  · refine ⟨hshaped.leave hclosed hleave, htraced.leave hclosed hleave, ?_⟩
    rintro c₃ ⟨⟩

omit [Float64] in
theorem reads_start (cid : ConnectionId) (config : ConnectionConfig) (syn : Option Packet)
    (rnd : Uint16) (now t₀ : Time) (got : Packet → Prop) :
    Reads config got (.waiting ((newConnection cid config syn rnd now).start t₀)) := by
  refine ⟨⟨?_, [], 0, ?_, nofun, nofun⟩, ⟨?_, ?_⟩, ?_⟩
  · cases syn <;> rfl
  · cases syn <;> rfl
  · cases syn <;> exact fun _ => rfl
  · intro rb hrb
    cases syn with
    | none => cases hrb
    | some syn =>
        cases hrb
        exact ⟨[], [], rfl, nofun⟩
  · rintro c ⟨⟩
    exact waits_start cid config syn rnd now t₀

omit [Float64] in
theorem readStream_shaped {config : ConnectionConfig} {chunks : List Bytes} {n : Nat}
    (h : c.reads = chunks.map (readResult config) ++ List.replicate n eofResult) :
    c.readStream = chunks.flatten := by
  have hends : (List.replicate n eofResult).flatMap (fun r => r.data.take r.len) = [] := by
    refine List.flatMap_eq_nil_iff.mpr fun r hr => ?_
    obtain rfl := List.eq_of_mem_replicate hr
    rfl
  rw [readStream, h, List.flatMap_append, hends, List.append_nil, List.flatMap_map]
  simp only [take_readResult]
  exact List.flatMap_id

/-- **What the reader gets.**  Whatever packets come in, the results of the
loop are chunks, none of them empty, followed by ends of the stream only.  The
calls on the receive buffer are writes of packets received, and reads; the
chunks are the front of the data it has consumed, in the order of the numbers;
and if an end was reported, the buffer has consumed everything up to the
peer's FIN, and the chunks are all of it. -/
theorem serveAll_reads (cid : ConnectionId) (config : ConnectionConfig) (syn : Option Packet)
    (rnd : Uint16) (now t₀ : Time) {events : List LoopEvent} {s : LoopState}
    (hsize : config.maxPacketSize ≠ 0)
    (hrun : ((newConnection cid config syn rnd now).start t₀).serveAll events = .ok s) :
    ∃ (chunks : List Bytes) (n : Nat),
      s.conn.reads = chunks.map (readResult config) ++ List.replicate n { err := some .eof } ∧
      (∀ chunk ∈ chunks, chunk ≠ []) ∧
      (s.conn.established = none → chunks = [] ∧ n = 0) ∧
      ∀ e, s.conn.established = some e → ∃ calls st,
        ReceiveBuffer.run config.bufferSize e.recvBuf.initSeqNum calls = .ok st ∧
        st.rb = e.recvBuf ∧
        (∀ data seqNum, .write data seqNum ∈ calls →
          ∃ p ∈ received events, p.body = data ∧ p.header.seqNum = seqNum) ∧
        chunks.flatten <+: st.consumedBytes ∧
        (0 < n → e.remoteFin = some e.recvBuf.ackNum ∧ chunks.flatten = st.consumedBytes) := by
  have hreads : Reads config (· ∈ received events) s := by
    refine foldlM_inv (Reads config (· ∈ received events)) hrun
      (reads_start cid config syn rnd now t₀ _) ?_
    intro s₁ ev s₂ hev h hserve
    refine h.serve hsize ?_ hserve
    rintro t p rfl hp
    exact mem_received hev hp
  obtain ⟨chunks, n, hshape, hne, hend⟩ := hreads.shaped.reads
  have hstream := readStream_shaped hshape
  refine ⟨chunks, n, hshape, hne, fun hnone => ⟨?_, ?_⟩, fun e he => ?_⟩
  · -- without a buffer nothing has been read
    have hnil : chunks.flatten = [] := by
      rw [← hstream]
      apply hreads.traced.before
      rw [recvBuf?, hnone]
      rfl
    refine List.eq_nil_iff_forall_not_mem.mpr fun chunk hchunk => hne chunk hchunk ?_
    exact List.flatten_eq_nil_iff.mp hnil chunk hchunk
  · rcases Nat.eq_zero_or_pos n with hn | hn
    · exact hn
    · obtain ⟨e, he, -⟩ := hend hn
      cases hnone.symm.trans he
  · have hbuf : s.conn.recvBuf? = some e.recvBuf := by
      rw [recvBuf?, he]
      rfl
    obtain ⟨calls, accepted, hcalls, hwrites⟩ := hreads.traced.after _ hbuf
    rw [hreads.shaped.same] at hcalls
    have hconsumed := (ReceiveBuffer.RunInv.of_run hcalls).consumedBytes
    rw [hstream] at hcalls hconsumed
    refine ⟨calls, _, hcalls, rfl, hwrites, ?_, fun hn => ?_⟩
    · rw [hconsumed]
      exact List.prefix_append _ _
    · obtain ⟨e', he', hended⟩ := hend hn
      cases he.symm.trans he'
      refine ⟨hended.complete, ?_⟩
      rw [hconsumed]
      show _ = _ ++ e.recvBuf.buf.take e.recvBuf.offset
      rw [hended.read, List.take_zero, List.append_nil]

omit [Float64] in
/-- A byte and the FIN after it: the end is reported when both have been
consumed. -/
theorem serveAll_reads_data : ∃ s e, @serveAll exactFloat64 sampleAcceptor
      [.turn ⟨.onPacket (((newPacketBuilder .st_data 1 0 1000 101).withAckNum 4).withPayload
          [7]).build 0 0, false, 0⟩,
        .turn ⟨.onPacket ((newPacketBuilder .st_fin 1 0 1000 102).withAckNum 4).build
          0 0, false, 0⟩] = .ok s ∧
    s.conn.established = some e ∧ eofResult ∈ s.conn.reads ∧
    e.remoteFin = some e.recvBuf.ackNum := by
  have hrun : ∃ s e, @serveAll exactFloat64 sampleAcceptor
      [.turn ⟨.onPacket (((newPacketBuilder .st_data 1 0 1000 101).withAckNum 4).withPayload
          [7]).build 0 0, false, 0⟩,
        .turn ⟨.onPacket ((newPacketBuilder .st_fin 1 0 1000 102).withAckNum 4).build
          0 0, false, 0⟩] = .ok s ∧
      s.conn.established = some e ∧ s.conn.reads.getLast? = some eofResult :=
    ⟨_, _, rfl, rfl, rfl⟩
  let := exactFloat64
  obtain ⟨s, e, hserve, he, hlast⟩ := hrun
  have hmem : eofResult ∈ s.conn.reads := List.mem_of_getLast? hlast
  obtain ⟨chunks, n, hreads, -, -, hcalls⟩ := serveAll_reads _ _ _ _ _ _ (by decide) hserve
  obtain ⟨calls, st, -, -, -, -, hend⟩ := hcalls e he
  refine ⟨s, e, hserve, he, hmem, (hend ?_).1⟩
  -- the end that was reported is no chunk
  rcases Nat.eq_zero_or_pos n with rfl | hn
  · rw [hreads, List.replicate_zero, List.append_nil] at hmem
    obtain ⟨chunk, -, heq⟩ := List.mem_map.mp hmem
    cases congrArg ReadOrWriteResult.err heq
  · exact hn

end Connection

end UtpGo
