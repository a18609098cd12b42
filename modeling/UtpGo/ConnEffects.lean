/-
UtpGo/ConnEffects.lean

What a handler does to the outer side of a connection: its ids, its role, the
delay it echoes, the packets it has sent and those it has timed.

Every handler is a sequence of `Effect`s.  It changes its own books or its
buffers, leaves the handshake, sends a packet that is not timed, transmits one
that is, or deletes timers.  The relation says of each packet how it was made
(`Made`), so that a property of the packets of a connection is proved by one
case analysis over the effects and not by one over the handlers.

Main results: `onPacket_effects` and `step_happens`.  Noting the peer's delay,
the tick of the wheel and receiving a timed-out packet are no effects: they
are what an event does before.
-/
import UtpGo.ConnKeeps
import UtpGo.DelaySetRuns
import UtpGo.SendBufferRuns

namespace UtpGo

open Checked Relation

/-! ### Records -/

namespace SentPackets

variable {s s' : SentPackets}

/-- The records are of the same packets. -/
def SameRecords (s s' : SentPackets) : Prop := s.WF → s'.WF ∧ s'.chunks = s.chunks

theorem SameRecords.refl (s : SentPackets) : s.SameRecords s := fun h => ⟨h, rfl⟩

theorem mem_chunks_of_transmit {seqNum : Uint16} {packetType : PacketType} {data : Bytes}
    {dataLen : Uint32} {now : Time} {chunk : PacketType × Bytes}
    (hok : s.onTransmit seqNum packetType data dataLen now = .ok s') (h : chunk ∈ s.chunks) :
    chunk ∈ s'.chunks := by
  rcases onTransmit_inv hok with ⟨-, ctrl, -, rfl⟩ | ⟨-, -, ctrl, -, rfl⟩
  · rw [chunks, chunks_modify]
    exact h
  · rw [chunks, List.map_append]
    exact List.mem_append_left _ h

/-- A lost packet is taken from the records. -/
theorem mem_lostPacketsList {losts : List LostPacket} {lost : LostPacket}
    (hok : s.lostPacketsList = .ok losts) (hlost : lost ∈ losts) :
    (lost.packetType, lost.data) ∈ s.chunks := by
  unfold lostPacketsList at hok
  generalize s.lostPackets.keys = keys at hok
  induction keys generalizing losts with
  | nil =>
      obtain rfl := pure_eq_ok.mp hok
      cases hlost
  | cons x keys ih =>
      rw [List.mapM_cons] at hok
      obtain ⟨first, hfirst, hok⟩ := bind_eq_ok.mp hok
      obtain ⟨rest, hrest, hok⟩ := bind_eq_ok.mp hok
      obtain rfl := pure_eq_ok.mp hok
      obtain ⟨p, hp, hmade⟩ := bind_eq_ok.mp hfirst
      rcases List.mem_cons.mp hlost with rfl | hlost
      · obtain rfl := pure_eq_ok.mp hmade
        exact List.mem_map.mpr ⟨p, List.mem_of_getElem? (index_eq_ok.mp hp), rfl⟩
      · exact ih hlost hrest

end SentPackets

namespace Connection

variable {c c' c₁ : Connection} {e e' : Established} {now : Time} {p : Packet}

/-! ### Effects -/

/-- What a handler leaves alone that neither sends nor times a packet. -/
structure SameWire (c c' : Connection) : Prop where
  cid : c'.cid = c.cid
  type : c'.endpoint.type = c.endpoint.type
  socketEvents : c'.socketEvents = c.socketEvents
  unacked : c'.unacked = c.unacked
  unackTimeoutCh : c'.unackTimeoutCh = c.unackTimeoutCh

/-- The outer side of the connection is the same. -/
structure SameSide (c c' : Connection) : Prop extends SameWire c c' where
  config : c'.config = c.config
  peerTsDiff : c'.peerTsDiff = c.peerTsDiff

/-- The most a payload of `processWrites` may have. -/
def maxPayload (config : ConnectionConfig) : Nat :=
  ((config.maxPacketSize - 64).setWidth 32 : Uint32).toNat

/-- How a packet that is transmitted in state `e` was made: of fresh data; of
a record; of the packet `origin?` that timed out; or, where `fin` allows it,
as the FIN. -/
inductive Made (origin? : Option Packet) (fin : Prop) (c : Connection) (e : Established) :
    Packet → Prop where
  | data {e₀ : Established} {seqNum : Uint16} {payload : Bytes} {now : Time}
      (hlen : payload.length ≤ maxPayload c.config) :
      Made origin? fin c e (c.dataPacket e₀ seqNum payload now)
  | lost {e₀ : Established} {lost : LostPacket} {now : Time}
      (hrec : (lost.packetType, lost.data) ∈ e.sentPackets.chunks) :
      Made origin? fin c e (c.lostPacket e₀ lost now)
  | again {e₀ : Established} {origin : Packet} {now : Time} (horigin : origin? = some origin)
      (hsyn : origin.header.packetType ≠ .st_syn) :
      Made origin? fin c e (c.retransmissionPacket e₀ origin now)
  | fin {e₀ : Established} {now : Time} (hfin : fin) : Made origin? fin c e (c.finPacket e₀ now)

/-- One effect of a handler. -/
inductive Effect (origin? : Option Packet) (fin : Prop) : Connection → Connection → Prop where
  | book {c c' : Connection} (h : SameSide c c') (hch : c'.connectedCh = c.connectedCh)
      (hstate : c'.state = c.state) : Effect origin? fin c c'
  | buffers {c c' : Connection} (h : SameSide c c') (hch : c'.connectedCh = c.connectedCh)
      (hleft : c.state ≠ .connecting) (hleft' : c'.state ≠ .connecting)
      (hsome : c'.established.isSome = c.established.isSome)
      (hrecords : ∀ e', c'.established = some e' →
        ∃ e, c.established = some e ∧ e.sentPackets.SameRecords e'.sentPackets) :
      Effect origin? fin c c'
  | leave {c c' : Connection} (h : SameSide c c') (hs : c.state = .connecting)
      (hnew : ∀ e, c'.established = some e → e.sentPackets.WF ∧ e.sentPackets.chunks = []) :
      Effect origin? fin c c'
  | emitState {c : Connection} {p : Packet} {now : Time} (hp : c.statePacket now = some p) :
      Effect origin? fin c (c.emit p)
  | emitReset {c : Connection} (connectionId rnd : Uint16) (now : Time) : Effect origin? fin c
      (c.emit (newPacketBuilder .st_reset connectionId (nowMicro now) 100000 rnd).build)
  | emitSyn {c : Connection} (hrole : c.endpoint.type = .initiator) (now : Time) :
      Effect origin? fin c (c.emit (c.synPacket c.endpoint.synNum now))
  | putAgain {c : Connection} {origin : Packet} {key : Uint16} {delay : Int}
      {unacked : TimeWheel Uint16 Packet} (horigin : origin? = some origin)
      (hput : (c.unacked.putSigned key origin delay : GoM _) = .ok unacked) :
      Effect origin? fin c { c with unacked }
  | transmit {c c' : Connection} {e : Established} {p : Packet} {now : Time}
      (hs : c.state = .connected e) (hp : Made origin? fin c e p)
      (hok : c.transmit p now = .ok c') : Effect origin? fin c c'
  | clear {c : Connection} (shouldRemove : Uint16 → Bool) (keys : List Uint16) :
      Effect origin? fin c
        { c with unacked := keys.foldl TimeWheel.remove (c.unacked.retain shouldRemove) }

/-- The effects of a whole handler. -/
abbrev Effects (origin? : Option Packet) (fin : Prop) : Connection → Connection → Prop :=
  ReflTransGen (Effect origin? fin)

variable {origin? : Option Packet} {fin : Prop}

theorem Effects.book (h : SameSide c c') (hch : c'.connectedCh = c.connectedCh)
    (hstate : c'.state = c.state) : Effects origin? fin c c' :=
  .single (.book h hch hstate)

/-- A connected connection changes its buffers, or is closed with them. -/
theorem Effects.of_connected (hs : c.state = .connected e) (h : SameSide c c')
    (hch : c'.connectedCh = c.connectedCh) (he : c'.established = some e')
    (hrecords : e.sentPackets.SameRecords e'.sentPackets) : Effects origin? fin c c' := by
  have hc := established_connected hs
  refine .single (.buffers h hch ?_ ?_ ?_ ?_)
  · rw [hs]
    rintro ⟨⟩
  · intro hs'
    rw [established, hs'] at he
    cases he
  · rw [he, hc]
    rfl
  · intro e₁ he₁
    cases he.symm.trans he₁
    exact ⟨e, hc, hrecords⟩

theorem Effects.leave (hs : c.state = .connecting) (h : SameSide c c')
    (hnew : ∀ e, c'.established = some e → e.sentPackets.WF ∧ e.sentPackets.chunks = []) :
    Effects origin? fin c c' := .single (.leave h hs hnew)

/-! ### Handlers that transmit nothing -/

theorem reset_effects (err : ConnError) : Effects origin? fin c (c.reset err) := by
  have hest : (c.reset err).established = c.established := established_reset c err
  have hside : SameSide c (c.reset err) := by
    rw [c.reset_eq err]
    exact ⟨⟨rfl, rfl, rfl, rfl, rfl⟩, rfl, rfl⟩
  have hch : (c.reset err).connectedCh = c.connectedCh := by rw [c.reset_eq err]
  by_cases hs : c.state = .connecting
  · refine .leave hs hside fun e he => ?_
    rw [hest, established, hs] at he
    cases he
  · obtain ⟨e, err', hclosed⟩ := c.reset_closed err
    refine .single (.buffers hside hch hs ?_ (by rw [hest]) ?_)
    · rw [hclosed]
      rintro ⟨⟩
    · intro e' he'
      exact ⟨e', hest ▸ he', .refl _⟩

theorem onSyn_effects (seqNum : Uint16) : Effects origin? fin c (c.onSyn seqNum) := by
  unfold onSyn
  dsimp only
  split
  · exact .refl
  · exact .refl
  · exact reset_effects _

/-- The handshake ends with empty records. -/
theorem onState_effects (seqNum ackNum : Uint16) :
    Effects origin? fin c (c.onState seqNum ackNum) := by
  unfold onState
  split
  · rename_i hs
    split
    · refine .leave hs ⟨⟨rfl, rfl, rfl, rfl, rfl⟩, rfl, rfl⟩ ?_
      rintro e ⟨⟩
      exact ⟨SentPackets.wf_new _ _, rfl⟩
    · exact .refl
  · exact .refl

theorem onReset_effects : Effects origin? fin c c.onReset := by
  unfold onReset
  split
  · exact .refl
  · exact reset_effects _

theorem onData_effects {seqNum : Uint16} {data : Bytes} {err : Option HandleError}
    (hok : c.onData seqNum data = .ok (c', err)) : Effects origin? fin c c' := by
  have hfirst : Effects origin? fin c
      (if data.length = 0 then c.reset .errEmptyDataPayload else c) := by
    split
    · exact reset_effects _
    · exact .refl
  unfold onData at hok
  generalize (if data.length = 0 then c.reset .errEmptyDataPayload else c) = c₁ at hfirst hok
  refine hfirst.trans ?_
  dsimp only at hok
  split at hok
  · split at hok <;> cases hok <;> exact .refl
  · rename_i e hs
    split at hok
    · cases hok
      exact Effects.of_connected hs ⟨⟨rfl, rfl, rfl, rfl, rfl⟩, rfl, rfl⟩ rfl rfl (.refl _)
    split at hok
    · obtain ⟨⟨rb, err₁⟩, -, hrest⟩ := bind_eq_ok.mp hok
      cases hrest
      exact Effects.of_connected hs ⟨⟨rfl, rfl, rfl, rfl, rfl⟩, rfl, rfl⟩ rfl rfl (.refl _)
    · cases hok
      exact .refl
  · cases hok
    exact .refl

theorem onFin_effects {seqNum : Uint16} {data : Bytes} {err : Option HandleError}
    (hok : c.onFin seqNum data = .ok (c', err)) : Effects origin? fin c c' := by
  unfold onFin at hok
  split at hok
  swap
  · cases hok
    exact .refl
  rename_i e hs
  split at hok
  · split at hok
    · split at hok
      · cases hok
        exact reset_effects _
      · cases hok
        exact .refl
    · obtain ⟨⟨rb, err₁⟩, -, hrest⟩ := bind_eq_ok.mp hok
      cases hrest
      exact .of_connected hs ⟨⟨rfl, rfl, rfl, rfl, rfl⟩, rfl, rfl⟩ rfl rfl (.refl _)
  · obtain ⟨⟨rb, err₁⟩, -, hrest⟩ := bind_eq_ok.mp hok
    cases err₁ with
    | none | some err₁ =>
        cases hrest
        exact .of_connected hs ⟨⟨rfl, rfl, rfl, rfl, rfl⟩, rfl, rfl⟩ rfl rfl (.refl _)

theorem dispatch_effects {err : Option HandleError} (hok : c.dispatch p = .ok (c', err)) :
    Effects origin? fin c c' := by
  unfold dispatch at hok
  split at hok
  · cases hok
    exact onSyn_effects _
  · cases hok
    exact onState_effects _ _
  · exact onData_effects hok
  · exact onFin_effects hok
  · cases hok
    exact onReset_effects

theorem processReads_effects (hok : c.processReads = .ok c') : Effects origin? fin c c' := by
  rcases processReads_frame hok with ⟨reads, rfl⟩ | ⟨e, rb, reads, hs, rfl⟩
  · exact .book ⟨⟨rfl, rfl, rfl, rfl, rfl⟩, rfl, rfl⟩ rfl rfl
  · exact .of_connected hs ⟨⟨rfl, rfl, rfl, rfl, rfl⟩, rfl, rfl⟩ rfl rfl (.refl _)

theorem noteTimeout_effects (hs : c.state = .connected e) :
    Effects origin? fin c (c.noteTimeout e now) := by
  rcases c.noteTimeout_cases e now with h | h
  · rw [h]
    exact .of_connected hs ⟨⟨rfl, rfl, rfl, rfl, rfl⟩, rfl, rfl⟩ rfl rfl fun hwf =>
      ⟨hwf.onTimeout, rfl⟩
  · rw [h]

theorem onIdleTimeout_effects : Effects origin? fin c c.onIdleTimeout := by
  unfold onIdleTimeout
  split
  · exact .refl
  · rename_i hs
    exact .leave hs ⟨⟨rfl, rfl, rfl, rfl, rfl⟩, rfl, rfl⟩ fun _ he => by cases he
  · rename_i e hs
    exact .of_connected hs ⟨⟨rfl, rfl, rfl, rfl, rfl⟩, rfl, rfl⟩ rfl rfl (.refl _)

theorem emitState_effects (now : Time) :
    Effects origin? fin c ((c.statePacket now).elim c c.emit) := by
  cases h : c.statePacket now with
  | none => exact .refl
  | some q => exact .single (.emitState h)

theorem reply_effects (p : Packet) (rnd : Uint16) :
    Effects origin? fin c (c.reply p now rnd) := by
  unfold reply
  split
  · split
    · exact .refl
    · split
      · rename_i q hq
        exact ReflTransGen.trans (.single (.emitState hq))
          (Effects.book ⟨⟨rfl, rfl, rfl, rfl, rfl⟩, rfl, rfl⟩ rfl rfl)
      · exact .single (.emitReset _ _ _)
  · exact emitState_effects now
  · exact emitState_effects now
  · exact .refl

theorem notify_effects (p : Packet) : Effects origin? fin c (c.notify p) :=
  .book ⟨⟨rfl, rfl, rfl, rfl, rfl⟩, rfl, rfl⟩ rfl rfl

theorem closeLocal_effects : Effects origin? fin c c.closeLocal := by
  unfold closeLocal
  split
  · rename_i e hs
    split
    · split
      · exact .of_connected hs ⟨⟨rfl, rfl, rfl, rfl, rfl⟩, rfl, rfl⟩ rfl rfl (.refl _)
      · exact .refl
    · exact .refl
  · exact .refl

theorem closeClean_effects : Effects origin? fin c c.closeClean := by
  unfold closeClean
  split
  · rename_i e hs
    exact .of_connected hs ⟨⟨rfl, rfl, rfl, rfl, rfl⟩, rfl, rfl⟩ rfl rfl (.refl _)
  · exact .refl

theorem closeRemote_effects (hok : c.closeRemote = .ok c') : Effects origin? fin c c' := by
  rcases closeRemote_cases hok with rfl | ⟨c₁, hreads, rfl⟩
  · exact .refl
  · exact (processReads_effects hreads).trans closeClean_effects

theorem closeBoth_effects : Effects origin? fin c c.closeBoth := by
  unfold closeBoth
  split
  · split
    · exact closeClean_effects
    · exact .refl
  · exact .refl

/-! ### Handlers that transmit -/

/-- Transmitting fresh data.  The payloads are those the send buffer gave, and
the ids and the delay on the packets do not change on the way. -/
theorem transmitPayloads_effects {e₀ : Established} {payloads : List Bytes} {seqNum : Uint16}
    (hlen : ∀ payload ∈ payloads, payload.length ≤ maxPayload c.config)
    (hok : transmitPayloads e₀ now payloads seqNum c = .ok c') : Effects origin? fin c c' := by
  induction payloads generalizing seqNum c with
  | nil =>
      obtain rfl := pure_eq_ok.mp hok
      exact .refl
  | cons payload payloads ih =>
      obtain ⟨c₁, htransmit, hok⟩ := bind_eq_ok.mp hok
      obtain ⟨e, sp, hs, -, hc₁⟩ := transmit_ok htransmit
      have hconfig : c₁.config = c.config := by rw [hc₁]; rfl
      refine .head (.transmit hs (.data (hlen payload List.mem_cons_self)) htransmit) (ih ?_ hok)
      intro q hq
      rw [hconfig]
      exact hlen q (List.mem_cons_of_mem _ hq)

theorem transmitLost_effects {e₀ : Established} {losts : List LostPacket}
    (hs : c.state = .connected e)
    (hrec : ∀ lost ∈ losts, (lost.packetType, lost.data) ∈ e.sentPackets.chunks)
    (hok : transmitLost e₀ now losts c = .ok c') : Effects origin? fin c c' := by
  induction losts generalizing c e with
  | nil =>
      obtain rfl := pure_eq_ok.mp hok
      exact .refl
  | cons lost losts ih =>
      obtain ⟨c₁, htransmit, hok⟩ := bind_eq_ok.mp hok
      obtain ⟨e₁, sp, hs₁, hsp, hc₁⟩ := transmit_ok htransmit
      cases hs.symm.trans hs₁
      refine .head (.transmit hs (.lost (hrec lost List.mem_cons_self)) htransmit)
        (ih (e := { e with sentPackets := sp }) (by rw [hc₁]; rfl) ?_ hok)
      intro l hl
      exact SentPackets.mem_chunks_of_transmit hsp (hrec l (List.mem_cons_of_mem _ hl))

theorem retransmitLostPackets_effects (hok : c.retransmitLostPackets now = .ok c') :
    Effects origin? fin c c' := by
  unfold retransmitLostPackets at hok
  split at hok
  swap
  · cases hok
    exact .refl
  rename_i e hs
  split at hok
  swap
  · cases hok
    exact .refl
  obtain ⟨losts, hlosts, hok⟩ := bind_eq_ok.mp hok
  exact transmitLost_effects hs (fun lost hl => SentPackets.mem_lostPacketsList hlosts hl) hok

/-- A payload has at most the size asked for. -/
theorem length_of_readPayloads {maxData windowSize : Uint32} {fuel : Nat} {sb sb' : SendBuffer}
    {payloads : List Bytes} (hok : readPayloads maxData fuel windowSize sb = .ok (payloads, sb'))
    {payload : Bytes} (hp : payload ∈ payloads) : payload.length ≤ maxData.toNat := by
  induction fuel generalizing windowSize sb payloads with
  | zero =>
      cases hok
      cases hp
  | succ fuel ih =>
      unfold readPayloads at hok
      split at hok
      swap
      · cases hok
        cases hp
      obtain ⟨⟨data, sb₁⟩, hread, hok⟩ := bind_eq_ok.mp hok
      dsimp only at hok
      split at hok
      · cases hok
        cases hp
      obtain ⟨⟨rest, sb₂⟩, hrest, hok⟩ := bind_eq_ok.mp hok
      cases hok
      rcases List.mem_cons.mp hp with rfl | hp
      · have hmin : min windowSize maxData ≤ maxData := min_le_right _ _
        exact (SendBuffer.length_read_le hread).trans hmin
      · exact ih hrest hp

theorem processWrites_effects (hok : c.processWrites now = .ok c') : Effects origin? fin c c' := by
  unfold processWrites at hok
  split at hok
  · cases hok
    exact .refl
  · cases hok
    exact .book ⟨⟨rfl, rfl, rfl, rfl, rfl⟩, rfl, rfl⟩ rfl rfl
  · rename_i e hs
    obtain ⟨⟨payloads, sb⟩, hread, hok⟩ := bind_eq_ok.mp hok
    obtain ⟨r, -, hok⟩ := bind_eq_ok.mp hok
    let c₁ : Connection := { c with
      state := .connected { e with sendBuf := r.sendBuf }
      pendingWrites := r.pendingWrites
      results := r.results
      writable := r.writable }
    have hfill : Effects origin? fin c c₁ :=
      .of_connected hs ⟨⟨rfl, rfl, rfl, rfl, rfl⟩, rfl, rfl⟩ rfl rfl (.refl _)
    have hlen : ∀ payload ∈ payloads, payload.length ≤ maxPayload c₁.config :=
      fun _ hp => length_of_readPayloads hread hp
    exact hfill.trans (transmitPayloads_effects hlen hok)

theorem onWrite_effects {data : Bytes} {resultCh : Nat}
    (hok : c.onWrite data resultCh now = .ok c') : Effects origin? fin c c' := by
  obtain ⟨c₁, hwrites, hok⟩ := bind_eq_ok.mp hok
  obtain rfl := pure_eq_ok.mp hok
  refine ReflTransGen.trans ?_ ((processWrites_effects hwrites).trans
    (Effects.book ⟨⟨rfl, rfl, rfl, rfl, rfl⟩, rfl, rfl⟩ rfl rfl))
  split <;> exact Effects.book ⟨⟨rfl, rfl, rfl, rfl, rfl⟩, rfl, rfl⟩ rfl rfl

theorem shutdown_effects (hok : c.shutdown now = .ok c') : Effects origin? True c c' := by
  rcases shutdown_inv hok with rfl | ⟨hs, rfl⟩ | ⟨e, hs, -, rfl⟩ | ⟨e, hs, -, -, -, htransmit⟩
  · exact .refl
  · exact .leave hs ⟨⟨rfl, rfl, rfl, rfl, rfl⟩, rfl, rfl⟩ fun _ he => by cases he
  · exact .of_connected hs ⟨⟨rfl, rfl, rfl, rfl, rfl⟩, rfl, rfl⟩ rfl rfl (.refl _)
  · have hclosing : Effects origin? True c { c with state := .connected { e with
        closing := some ⟨some e.sentPackets.nextSeqNum, e.remoteFin⟩ } } :=
      .of_connected hs ⟨⟨rfl, rfl, rfl, rfl, rfl⟩, rfl, rfl⟩ rfl rfl (.refl _)
    -- the record of the FIN does not show on the packet
    exact hclosing.tail (.transmit rfl (.fin trivial) htransmit)

theorem onTimeout_effects (hok : c.onTimeout p now = .ok c') : Effects (some p) fin c c' := by
  unfold onTimeout at hok
  split at hok
  · rename_i hs
    split at hok
    · cases hok
      exact .refl
    rename_i hrole
    split at hok
    · cases hok
      exact .leave hs ⟨⟨rfl, rfl, rfl, rfl, rfl⟩, rfl, rfl⟩ fun _ he => by cases he
    · -- the SYN is timed and sent again
      obtain ⟨unacked, hput, hok⟩ := bind_eq_ok.mp hok
      cases hok
      let c₁ : Connection := { c with
        endpoint := { c.endpoint with attempts := c.endpoint.attempts + 1 } }
      let c₂ : Connection := { c₁ with unacked }
      have hattempt : Effects (some p) fin c c₁ :=
        .book ⟨⟨rfl, rfl, rfl, rfl, rfl⟩, rfl, rfl⟩ rfl rfl
      have hput : Effect (some p) fin c₁ c₂ := .putAgain rfl hput
      have hinit : c₂.endpoint.type = .initiator := hrole
      exact (hattempt.tail hput).tail (.emitSyn hinit now)
  · rename_i e hs
    split at hok
    · cases hok
      exact .refl
    rename_i hsyn
    obtain ⟨e₁, sp, hs₁, -⟩ := transmit_ok hok
    refine (noteTimeout_effects hs).tail (.transmit hs₁ ?_ hok)
    have hagain : (c.noteTimeout e now).retransmissionPacket e p now
        = c.retransmissionPacket e p now := by
      rcases c.noteTimeout_cases e now with h | h
      · rw [h]
        rfl
      · rw [h]
    rw [← hagain]
    exact .again rfl hsyn
  · cases hok
    exact .refl

/-! ### Events -/

variable [Float64]

theorem acknowledge_effects {err : Option SentError} (hok : c.acknowledge p now = .ok (c', err)) :
    Effects origin? fin c c' := by
  rcases acknowledge_cases hok with ⟨-, delay, hok⟩ | rfl
  swap
  · exact .refl
  unfold processAck at hok
  split at hok
  swap
  · cases hok
    exact .refl
  rename_i e hs
  obtain ⟨⟨sp, r⟩, hack, hok⟩ := bind_eq_ok.mp hok
  have hacked : Effects origin? fin c
      { c with state := .connected { e with sentPackets := sp } } := by
    refine .of_connected hs ⟨⟨rfl, rfl, rfl, rfl, rfl⟩, rfl, rfl⟩ rfl rfl fun hwf => ?_
    have hacks := (SentPackets.acks_of_ok hwf hack).1
    exact ⟨hacks.wf, hacks.chunks⟩
  dsimp only at hok
  split at hok
  · cases hok
    exact hacked.trans (reset_effects _)
  · cases hok
    exact hacked
  · cases hok
    exact hacked.tail (.clear _ _)

/-- What `onPacket` does after the handler of the packet type. -/
theorem afterDispatch_effects {err : Option SentError} {c₂ c₃ c₄ : Connection} {rnd : Uint16}
    (hack : c₁.acknowledge p now = .ok (c₂, err)) (hlost : c₂.retransmitLostPackets now = .ok c₃)
    (hremote : (((c₃.reply p now rnd).notify p).closeLocal).closeRemote = .ok c₄) :
    Effects origin? fin c₁ c₄.closeBoth := by
  have hreply : Effects origin? fin c₃ (((c₃.reply p now rnd).notify p).closeLocal) :=
    ((reply_effects p rnd).trans (notify_effects p)).trans closeLocal_effects
  exact ((acknowledge_effects hack).trans (retransmitLostPackets_effects hlost)).trans
    ((hreply.trans (closeRemote_effects hremote)).trans closeBoth_effects)

/-- **A packet**: once the peer's delay and window are noted, everything is an
effect. -/
theorem onPacket_effects {rnd : Uint16} (hok : c.onPacket p now rnd = .ok c') :
    Effects origin? fin (c.observePeer p now) c' := by
  obtain ⟨⟨c₁, _⟩, hdispatch, hok⟩ := bind_eq_ok.mp hok
  obtain ⟨⟨c₂, _⟩, hack, hok⟩ := bind_eq_ok.mp hok
  obtain ⟨c₃, hlost, hok⟩ := bind_eq_ok.mp hok
  obtain ⟨c₄, hremote, hok⟩ := bind_eq_ok.mp hok
  obtain rfl := pure_eq_ok.mp hok
  exact (dispatch_effects hdispatch).trans (afterDispatch_effects hack hlost hremote)

/-- The tick, and what it moves. -/
theorem step_tick {order : List (Uint16 × Packet)} (hok : c.step (.tick order) = .ok c') :
    c' = c ∨ order.Perm c.unacked.due ∧ c' = { c with
      unacked := c.unacked.tick, unackTimeoutCh := c.unackTimeoutCh ++ order.map (·.2) } := by
  simp only [step] at hok
  split at hok
  · rename_i horder
    exact .inr ⟨List.isPerm_iff.mp horder, (pure_eq_ok.mp hok).symm⟩
  · exact .inl (pure_eq_ok.mp hok).symm

/-- A timeout, and the packet it is about. -/
theorem step_onTimeout (hok : c.step (.onTimeout now) = .ok c') :
    c' = c ∨ ∃ originPacket rest, c.unackTimeoutCh = originPacket :: rest ∧
      Connection.onTimeout { c with unackTimeoutCh := rest } originPacket now = .ok c' := by
  simp only [step] at hok
  split at hok
  · exact .inl (pure_eq_ok.mp hok).symm
  · rename_i originPacket rest hch
    exact .inr ⟨originPacket, rest, hch, hok⟩

/-- What an event can do.  Effects follow the note of the peer's delay and
window, the receipt of a timed-out packet, or nothing, and only a `shutdown`
makes a FIN; a tick moves the packets that are due. -/
inductive Happens (ev : Event) (c : Connection) : Connection → Prop where
  | nothing : Happens ev c c
  | packet {c' : Connection} {p : Packet} {now : Time} {rnd : Uint16}
      (hev : ev = .onPacket p now rnd)
      (h : Effects none (∃ t, ev = .shutdown t) (c.observePeer p now) c') : Happens ev c c'
  | expire {order : List (Uint16 × Packet)} (hev : ev = .tick order)
      (horder : order.Perm c.unacked.due) : Happens ev c { c with
        unacked := c.unacked.tick, unackTimeoutCh := c.unackTimeoutCh ++ order.map (·.2) }
  | timeout {c' : Connection} {originPacket : Packet} {rest : List Packet} {now : Time}
      (hev : ev = .onTimeout now) (hch : c.unackTimeoutCh = originPacket :: rest)
      (h : Effects (some originPacket) (∃ t, ev = .shutdown t)
        { c with unackTimeoutCh := rest } c') : Happens ev c c'
  | other {c' : Connection} (h : Effects none (∃ t, ev = .shutdown t) c c') : Happens ev c c'

/-- **Every event** does one of these. -/
theorem step_happens {ev : Event} (hok : c.step ev = .ok c') : Happens ev c c' := by
  cases ev with
  | onPacket p now rnd => exact .packet rfl (onPacket_effects hok)
  | onWrite data resultCh now => exact .other (onWrite_effects hok)
  | processWrites now =>
      have hsignal : Effects none (∃ t, Event.processWrites now = .shutdown t) c
          { c with writable := c.writable - 1 } :=
        .book ⟨⟨rfl, rfl, rfl, rfl, rfl⟩, rfl, rfl⟩ rfl rfl
      exact .other (hsignal.trans (processWrites_effects hok))
  | processReads =>
      have hsignal : Effects none (∃ t, Event.processReads = .shutdown t) c
          { c with readable := c.readable - 1 } :=
        .book ⟨⟨rfl, rfl, rfl, rfl, rfl⟩, rfl, rfl⟩ rfl rfl
      exact .other (hsignal.trans (processReads_effects hok))
  | tick order =>
      rcases step_tick hok with rfl | ⟨horder, rfl⟩
      · exact .nothing
      · exact .expire rfl horder
  | onTimeout now =>
      rcases step_onTimeout hok with rfl | ⟨originPacket, rest, hch, hok⟩
      · exact .nothing
      · exact .timeout rfl hch (onTimeout_effects hok)
  | onIdleTimeout =>
      cases hok
      exact .other onIdleTimeout_effects
  | shutdown now =>
      have hshut : (∃ t, Event.shutdown now = .shutdown t) = True :=
        eq_true ⟨now, rfl⟩
      refine .other ?_
      rw [hshut]
      exact shutdown_effects hok

/-! ### The wheel -/

omit [Float64] in
theorem Effect.wheel (h : Effect origin? fin c c') (hw : c.unacked.WF) : c'.unacked.WF := by
  cases h with
  | book h | buffers h | leave h => exact h.unacked ▸ hw
  | emitState | emitReset | emitSyn => exact hw
  | putAgain _ hput =>
      obtain ⟨delay, rfl⟩ := hw.exists_put hput
      exact hw.put
  | clear => exact hw.clear _ _
  | transmit _ _ hok =>
      obtain ⟨e, sp, -, -, rfl⟩ := transmit_ok hok
      exact hw.put

omit [Float64] in
theorem Effects.wheel (h : Effects origin? fin c c') (hw : c.unacked.WF) : c'.unacked.WF := by
  induction h with
  | refl => exact hw
  | tail _ h ih => exact h.wheel ih

/-- The wheel of a connection stays well formed. -/
theorem step_wheel {ev : Event} (hok : c.step ev = .ok c') (hw : c.unacked.WF) :
    c'.unacked.WF := by
  cases step_happens hok with
  | nothing => exact hw
  | packet _ h => exact h.wheel hw
  | expire =>
      have htick : (c.unacked.apply .tick).WF := hw.apply
      exact htick
  | timeout _ _ h => exact h.wheel hw
  | other h => exact h.wheel hw

omit [Float64] in
theorem wheel_start (cid : ConnectionId) (config : ConnectionConfig) (syn : Option Packet)
    (rnd : Uint16) (now t₀ : Time) (hconfig : 4 ≤ config.initialTimeout) :
    ((newConnection cid config syn rnd now).start t₀).unacked.WF := by
  have hnew : (newTimeWheel (config.initialTimeout / 4) 8 : TimeWheel Uint16 Packet).WF :=
    TimeWheel.wf_new (Nat.div_pos hconfig (by decide)) (by decide)
  cases syn with
  | none => exact hnew.put
  | some syn => exact hnew

end Connection

end UtpGo
