/-
UtpGo/SocketStreams.lean

The streams of a socket do not disturb each other.  Each has a channel of its
own, into which the socket puts the packets that arrive for its id, and a
packet that it hands to the socket is written to its own peer.

`Lines` is what a socket keeps for its streams, and `LineStep` says what a step
does to it.  The loop of a stream receives packets from its channel only
(`Op.Own`).

A packet that arrives gets a ticket with the channel it is put into, if there
is one (`Tickets`).

Main results: `run_delivers`, the loop of a stream has been handed, in the
order of their arrival, the packets with the ticket of its channel but for
those which wait there, and all of these name its id; and `run_writes`, what a
socket writes is what its streams hand over, each packet once, to the peer of
its stream and in the order of the stream, and the RESETs with which it
answers packets.
-/
import UtpGo.ConnReads
import UtpGo.SocketDesk
import UtpGo.SocketRoute

namespace UtpGo

open Checked

/-! ### Channels and the wire -/

/-- The packets that wait in a channel. -/
def packets (queue : List StreamEvent) : List Packet :=
  queue.filterMap fun
    | .incoming packet => some packet
    | .shutdown => none

theorem packets_append (queue queue' : List StreamEvent) :
    packets (queue ++ queue') = packets queue ++ packets queue' := List.filterMap_append

section Lines

variable {π κ : Type}

/-- What is written for an event, and to whom. -/
def SocketMsg.wire : SocketMsg π → Option (Bytes × π)
  | .outgoing packet target => some (packet.encode, UtpSocket.targetPeer target)
  | .shutdown _ => none

/-- What a connection has written to its peer. -/
def datagrams (peer : π) (events : List SocketEvent) : List (Bytes × π) :=
  events.filterMap fun
    | .outgoing packet => some (packet.encode, peer)
    | .shutdown => none

theorem wire_toMsg (cid : Cid π) (events : List SocketEvent) :
    (events.map (SocketEvent.toMsg cid)).filterMap SocketMsg.wire = datagrams cid.peer events := by
  rw [List.filterMap_map]
  refine List.filterMap_congr fun event _ => ?_
  cases event with
  | outgoing packet => rfl
  | shutdown => rfl

/-- A packet with its sender can be read as one for the id. -/
def Names (cid : Cid π) (arrival : Packet × π) : Prop :=
  ∃ idType ∈ cidTypes, cidFromPacket arrival.1 arrival.2 idType = cid

/-- A RESET to the sender of a packet that arrived, with the id of the packet. -/
def Resets (arrived : List (Packet × π)) (item : Bytes × π) : Prop :=
  ∃ packet reset : Packet, (packet, item.2) ∈ arrived ∧ packet.header.packetType ≠ .st_syn ∧
    packet.header.packetType ≠ .st_reset ∧ reset.header.packetType = .st_reset ∧
    reset.header.connectionId = packet.header.connectionId ∧ item.1 = reset.encode

/-- What a socket keeps for its streams: its table, the number of channels made
and what waits in them, the streams, and what is written or will be. -/
structure Lines (π κ : Type) where
  conns : κ → Option Nat
  chans : Nat
  waiting : Nat → List Packet
  streams : List (UtpStream π)
  wire : List (Bytes × π)

variable [LinearOrder κ]

def UtpSocket.lines (s : UtpSocket π κ) : Lines π κ where
  conns := s.conns.get?
  chans := s.chans.length
  waiting := fun ch => packets (s.chans.getD ch [])
  streams := s.streams
  wire := s.written ++ s.socketEvents.filterMap SocketMsg.wire

/-- The packet that an operation brings to the socket, with its sender. -/
def UtpSocket.Op.arrival? : UtpSocket.Op π κ → Option (Packet × π)
  | .incoming incomingRaw _ _ =>
      (decodePacket incomingRaw.payload).toOption.map fun packet => (packet, incomingRaw.peer)
  | _ => none

/-- The loops get packets from their channels only. -/
def UtpSocket.Op.Own : UtpSocket.Op π κ → Prop
  | .serve _ (.turn t) => t.event.packet? = none
  | _ => True

variable [CidHash π κ] [Float64]

/-- What a step does to the lines, with the packet that arrives. -/
inductive LineStep (l : Lines π κ) (arrival? : Option (Packet × π)) : Lines π κ → Prop where
  | rest {conns : κ → Option Nat} {wire : List (Bytes × π)}
      (hconns : ∀ key ch, conns key = some ch → l.conns key = some ch)
      (hwire : ∀ item ∈ wire, Resets arrival?.toList item) :
      LineStep l arrival? { l with conns, wire := l.wire ++ wire }
  | offer {packet : Packet} {peer : π} {idType : IdType} {ch : Nat}
      (harrival : arrival? = some (packet, peer)) (hid : idType ∈ cidTypes)
      (hch : l.conns (genHash (cidFromPacket packet peer idType)) = some ch) :
      LineStep l arrival? { l with
        waiting := Function.update l.waiting ch (l.waiting ch ++ [packet]) }
  | make {conns : κ → Option Nat} (cid : Cid π) (config : ConnectionConfig) (syn : Option Packet)
      (accept : Option (Accept π)) (rnd : Uint16) (now : Time)
      (hconns : ∀ key ch, conns key = some ch →
        l.conns key = some ch ∨ key = genHash cid ∧ ch = l.chans) :
      LineStep l arrival? { l with
        conns
        chans := l.chans + 1
        streams := l.streams ++ [.fresh cid config syn l.chans accept rnd now]
        wire := l.wire ++ datagrams cid.peer
          ((newConnection cid.toConnectionId config syn rnd now).start now).socketEvents }
  | serve {i : Nat} {st : UtpStream π} {ev : LoopEvent} {loop : LoopState}
      {waiting : Nat → List Packet} (hst : l.streams[i]? = some st)
      (hok : Connection.serve st.loop ev = .ok loop)
      (hown : Connection.received [ev] ++ waiting st.streamEvents = l.waiting st.streamEvents)
      (hothers : ∀ ch, ch ≠ st.streamEvents → waiting ch = l.waiting ch) :
      LineStep l arrival? { l with
        waiting
        streams := l.streams.set i { st with loop }
        wire := l.wire ++ datagrams st.cid.peer
          (loop.conn.socketEvents.drop st.loop.conn.socketEvents.length) }

end Lines

/-! ### The steps of a socket -/

namespace UtpSocket

variable {π κ : Type} [LinearOrder κ] [CidHash π κ] [Float64] {s s' : UtpSocket π κ}
  {arrival? : Option (Packet × π)} {cid : Cid π} {rnd : Uint16} {now : Time}

/-- Nothing happens to the lines. -/
theorem lines_same (h : s'.lines = s.lines) : LineStep s.lines arrival? s'.lines := by
  rw [h]
  have hrest : LineStep s.lines arrival? { s.lines with
      conns := s.lines.conns, wire := s.lines.wire ++ [] } := .rest (fun _ _ h => h) nofun
  rwa [List.append_nil] at hrest

theorem lines_offer {packet : Packet} {peer : π} {idType : IdType} {ch : Nat}
    (hid : idType ∈ cidTypes)
    (hch : s.conns.get? (genHash (cidFromPacket packet peer idType)) = some ch) :
    LineStep s.lines (some (packet, peer)) (s.offer ch (.incoming packet)).lines := by
  have hget : ∀ ch', (s.offer ch (.incoming packet)).chans.getD ch' [] =
      if ch' = ch ∧ ch < s.chans.length ∧ (s.chans.getD ch []).length < streamEventsCap then
        s.chans.getD ch [] ++ [.incoming packet] else s.chans.getD ch' [] := by
    intro ch'
    rw [offer, List.getD_eq_getElem?_getD, List.getElem?_modify, List.getD_eq_getElem?_getD,
      List.getD_eq_getElem?_getD]
    by_cases hch : ch = ch'
    · subst hch
      rcases hq : s.chans[ch]? with - | queue
      · have := List.getElem?_eq_none_iff.mp hq
        simp [Nat.not_lt.mpr this]
      · have hlt := (List.getElem?_eq_some_iff.mp hq).1
        by_cases hroom : queue.length < streamEventsCap <;> simp [hlt, hroom]
    · simp [hch, Ne.symm hch]
  by_cases hroom : ch < s.chans.length ∧ (s.chans.getD ch []).length < streamEventsCap
  · have hlines : (s.offer ch (.incoming packet)).lines = { s.lines with
        waiting := Function.update s.lines.waiting ch (s.lines.waiting ch ++ [packet]) } := by
      show Lines.mk _ (s.chans.modify ch _).length _ _ _ = _
      rw [List.length_modify]
      congr 1
      funext ch'
      show packets _ = _
      rw [hget, Function.update_apply]
      by_cases heq : ch' = ch
      · rw [if_pos ⟨heq, hroom⟩, if_pos heq, packets_append]
        rfl
      · rw [if_neg fun h => heq h.1, if_neg heq]
        rfl
    rw [hlines]
    exact .offer rfl hid hch
  · refine lines_same ?_
    show Lines.mk _ (s.chans.modify ch _).length _ _ _ = _
    rw [List.length_modify]
    congr 1
    funext ch'
    show packets _ = _
    rw [hget, if_neg fun h => hroom h.2]

omit [LinearOrder κ] [CidHash π κ] [Float64] in
/-- A new channel is empty, as if it had been there. -/
theorem getD_append_nil {α : Type} (chans : List (List α)) (ch : Nat) :
    (chans ++ [[]]).getD ch [] = chans.getD ch [] := by
  rw [List.getD_eq_getElem?_getD, List.getD_eq_getElem?_getD]
  rcases Nat.lt_trichotomy ch chans.length with hlt | rfl | hgt
  · rw [List.getElem?_append_left hlt]
  · rw [List.getElem?_concat_length, List.getElem?_eq_none le_rfl]
    rfl
  · rw [List.getElem?_eq_none hgt.le, List.getElem?_eq_none (by simpa using hgt)]

/-- A stream is made, with a channel of its own. -/
theorem lines_make {syn : Option Packet} {config : ConnectionConfig}
    (accept : Option (Accept π)) (hchans : s'.chans = s.chans ++ [[]])
    (hstreams : s'.streams = s.streams ++ [.fresh cid config syn s.chans.length accept rnd now])
    (hwritten : s'.written = s.written)
    (hevents : s'.socketEvents = s.socketEvents ++ ((newConnection cid.toConnectionId config syn rnd
      now).start now).socketEvents.map (SocketEvent.toMsg cid))
    (hconns : ∀ key ch, s'.conns.get? key = some ch →
      s.conns.get? key = some ch ∨ key = genHash cid ∧ ch = s.chans.length) :
    LineStep s.lines arrival? s'.lines := by
  have hlines : s'.lines = { s.lines with
      conns := s'.conns.get?
      chans := s.lines.chans + 1
      streams := s.streams ++ [.fresh cid config syn s.chans.length accept rnd now]
      wire := s.lines.wire ++ datagrams cid.peer
        ((newConnection cid.toConnectionId config syn rnd now).start now).socketEvents } := by
    rw [lines, hchans, hstreams, hwritten, hevents, List.filterMap_append, wire_toMsg,
      ← List.append_assoc, List.length_append]
    congr 1
    funext ch
    show packets _ = packets _
    rw [getD_append_nil]
  rw [hlines]
  exact .make cid config syn accept rnd now hconns

theorem lines_startAccepted (syn : Packet) (accept : Accept π) :
    LineStep s.lines arrival? (s.startAccepted cid syn accept rnd now).lines :=
  lines_make (some accept) rfl rfl rfl rfl fun _ _ h =>
    (OrdMap.of_get?_insert h).symm

theorem lines_selectAcceptHelper (syn : Packet) (accept : Accept π) :
    LineStep s.lines arrival? (s.selectAcceptHelper cid syn accept rnd now).lines := by
  unfold selectAcceptHelper
  split
  · exact lines_same rfl
  · exact lines_startAccepted syn accept

omit [CidHash π κ] [Float64] in
theorem lines_removeIncomingConn (key : κ) : (s.removeIncomingConn key).2.lines = s.lines := by
  unfold removeIncomingConn
  split <;> rfl

omit [CidHash π κ] [Float64] in
theorem lines_nextIncomingConn (first : κ) : (s.nextIncomingConn first).2.lines = s.lines := by
  unfold nextIncomingConn
  split
  · exact lines_removeIncomingConn first
  · split
    · rfl
    · exact lines_removeIncomingConn _

theorem lines_handleIncomingBuf (incomingRaw : IncomingPacketRaw π) : LineStep s.lines
    (Op.arrival? (κ := κ) (.incoming incomingRaw rnd now))
    (s.handleIncomingBuf incomingRaw rnd now).lines := by
  unfold handleIncomingBuf
  split
  · exact lines_same rfl
  rename_i packet hpacket
  split
  · rename_i ch hroute
    obtain ⟨idType, hid, hch⟩ := List.exists_of_findSome?_eq_some hroute
    rw [Op.arrival?, hpacket]
    exact lines_offer hid hch
  unfold handleUnrouted
  split
  · split
    · rename_i hsyn hreset
      let reset := (newPacketBuilder .st_reset packet.header.connectionId (nowMicro now) 100000
        rnd).build
      have hwire : LineStep s.lines (some (packet, incomingRaw.peer)) { s.lines with
          conns := s.lines.conns
          wire := s.lines.wire ++ [(reset.encode, incomingRaw.peer)] } := by
        refine .rest (fun _ _ h => h) fun item hitem => ?_
        obtain rfl := List.mem_singleton.mp hitem
        exact ⟨packet, reset, List.mem_singleton_self _, hsyn, hreset, rfl, rfl, rfl⟩
      rw [Op.arrival?, hpacket]
      show LineStep _ (some (packet, incomingRaw.peer)) (Lines.mk _ _ _ _ (s.written ++
        (s.socketEvents ++ [_]).filterMap _))
      rw [List.filterMap_append, ← List.append_assoc]
      exact hwire
    · exact lines_same rfl
  · dsimp only
    split
    · exact lines_startAccepted (s := s.removeAwaiting _) packet _
    · exact lines_same rfl

theorem lines_takeAcceptWithCid {req : Accept π} {rest : List (Accept π)}
    (hok : handleNewAcceptWithCidEvent
      { s with acceptsWithCidCh := rest, taken := s.taken ++ [req] } req rnd now = .ok s') :
    LineStep s.lines arrival? s'.lines := by
  unfold handleNewAcceptWithCidEvent at hok
  split at hok
  · cases hok
  rename_i cid hcid
  unfold removeIncomingConn at hok
  cases hget : s.incomingConns.get? (genHash cid) with
  | some incomingConn =>
      simp only [hget] at hok
      obtain rfl := pure_eq_ok.mp hok
      exact lines_selectAcceptHelper (s := { s with
        acceptsWithCidCh := rest
        taken := s.taken ++ [req]
        incomingConns := s.incomingConns.erase (genHash cid)
        incomingConnsExpirations := s.incomingConnsExpirations.remove (genHash cid) })
        incomingConn.pkt req
  | none =>
      simp only [hget] at hok
      obtain rfl := pure_eq_ok.mp hok
      exact lines_same rfl

theorem lines_takeAccept {req : Accept π} {rest : List (Accept π)} (first : κ) :
    LineStep s.lines arrival?
      (handleNewAcceptEvent { s with accepts := rest } req first rnd now).lines := by
  have hnext : (nextIncomingConn { s with accepts := rest } first).2.lines = s.lines :=
    lines_nextIncomingConn first
  unfold handleNewAcceptEvent
  split
  · rename_i incomingAccept s₁ hs₁
    rw [hs₁] at hnext
    rw [← hnext]
    exact lines_selectAcceptHelper incomingAccept.pkt req
  · rename_i s₁ hs₁
    rw [hs₁] at hnext
    exact lines_same hnext

omit [Float64] in
/-- `GenerateCid` enters the channel under the id it returns. -/
theorem generateCid_spec {peer : π} {ch : Nat} {rnds : List Uint16}
    (h : s.generateCid peer true (some ch) rnds = some (cid, s')) :
    s' = s.putConnStream (genHash cid) ch := by
  induction rnds with
  | nil => cases h
  | cons recv rnds ih =>
      unfold generateCid at h
      dsimp only at h
      split at h
      · exact ih h
      · cases h
        rfl

theorem lines_connect {peer : π} {config : ConnectionConfig} {rnds : List Uint16} :
    LineStep s.lines arrival? ((s.connect peer config rnds rnd now).getD s).lines := by
  unfold connect
  dsimp only
  cases h : generateCid s.makeChan.1 peer true (some s.makeChan.2) rnds with
  | none => exact lines_same rfl
  | some r =>
      obtain ⟨cid, s₁⟩ := r
      obtain rfl := generateCid_spec h
      refine lines_make none rfl rfl rfl rfl fun key ch hget => ?_
      rcases OrdMap.of_get?_insert hget with hnew | hget
      · exact .inr hnew
      · exact (OrdMap.of_get?_insert hget).symm

theorem lines_connectWithCid {config : ConnectionConfig} :
    LineStep s.lines arrival? (s.connectWithCid cid config rnd now).lines := by
  unfold connectWithCid
  split
  · exact lines_same rfl
  · exact lines_make none rfl rfl rfl rfl fun _ _ h =>
    (OrdMap.of_get?_insert h).symm

omit [CidHash π κ] [Float64] in
/-- A shutdown event is no packet. -/
theorem lines_sendShutdownEventToConns : s.sendShutdownEventToConns.lines = s.lines := by
  unfold sendShutdownEventToConns
  split
  swap
  · rfl
  have hone : ∀ (chans : List (List StreamEvent)) (ch ch' : Nat),
      packets ((chans.modify ch (· ++ [.shutdown])).getD ch' []) = packets (chans.getD ch' []) := by
    intro chans ch ch'
    rw [List.getD_eq_getElem?_getD, List.getElem?_modify, List.getD_eq_getElem?_getD]
    rcases chans[ch']? with - | queue
    · rfl
    · by_cases hch : ch = ch'
      · simp [hch, packets]
      · simp [hch]
  have hall : ∀ (chs : List Nat) (chans : List (List StreamEvent)),
      (chs.foldl (fun chans ch => chans.modify ch (· ++ [.shutdown])) chans).length
        = chans.length ∧ ∀ ch', packets ((chs.foldl (fun chans ch =>
          chans.modify ch (· ++ [.shutdown])) chans).getD ch' [])
            = packets (chans.getD ch' []) := by
    intro chs
    induction chs with
    | nil => exact fun chans => ⟨rfl, fun _ => rfl⟩
    | cons ch chs ih =>
        intro chans
        obtain ⟨hlen, hget⟩ := ih (chans.modify ch (· ++ [.shutdown]))
        exact ⟨hlen.trans (List.length_modify ..), fun ch' => (hget ch').trans (hone chans ch ch')⟩
  obtain ⟨hlen, hget⟩ := hall s.conns.values s.chans
  rw [lines]
  dsimp only
  rw [hlen]
  congr 1
  funext ch
  exact hget ch

theorem lines_writeLoop : LineStep s.lines arrival? s.writeLoop.lines := by
  unfold writeLoop
  split
  · exact lines_same rfl
  · rename_i packet target rest hevents
    refine lines_same ?_
    rw [lines, lines, hevents, List.append_assoc]
    rfl
  · rename_i cid rest hevents
    have hwire : s.lines.wire = s.written ++ rest.filterMap SocketMsg.wire := by
      rw [lines, hevents]
      rfl
    have hrest : LineStep s.lines arrival? { s.lines with
        conns := (s.removeConnStream (genHash cid)).conns.get?
        wire := s.lines.wire ++ [] } := by
      refine .rest (fun key ch h => ?_) nofun
      exact OrdMap.of_get?_erase h
    rw [List.append_nil, hwire] at hrest
    exact hrest

/-- The loop of a stream serves an event, which is the next one of its channel
if it is a packet. -/
theorem lines_serve {i : Nat} {ev : LoopEvent} {chans : List (List StreamEvent)}
    (hlen : chans.length = s.chans.length)
    (hown : ∀ st, s.streams[i]? = some st → Connection.received [ev]
      ++ packets (chans.getD st.streamEvents []) = packets (s.chans.getD st.streamEvents []))
    (hothers : ∀ st, s.streams[i]? = some st → ∀ ch, ch ≠ st.streamEvents →
      chans.getD ch [] = s.chans.getD ch [])
    (hst : (s.streams[i]?).isSome) (hok : serve { s with chans } i ev = .ok s') :
    LineStep s.lines arrival? s'.lines := by
  obtain ⟨st, hst⟩ := Option.isSome_iff_exists.mp hst
  simp only [serve, hst] at hok
  obtain ⟨loop, hserve, hok⟩ := bind_eq_ok.mp hok
  obtain rfl := pure_eq_ok.mp hok
  have hstep : LineStep s.lines arrival? { s.lines with
      waiting := fun ch => packets (chans.getD ch [])
      streams := s.lines.streams.set i { st with loop }
      wire := s.lines.wire ++ datagrams st.cid.peer
        (loop.conn.socketEvents.drop st.loop.conn.socketEvents.length) } :=
    .serve hst hserve (hown st hst) fun ch hch => congrArg packets (hothers st hst ch hch)
  convert hstep using 1
  rw [lines, List.filterMap_append, news, wire_toMsg, ← List.append_assoc]
  dsimp only
  rw [hlen]
  rfl

theorem lines_receive {i : Nat} {shutdown : Bool} (hok : s.receive i shutdown rnd now = .ok s') :
    LineStep s.lines arrival? s'.lines := by
  unfold receive at hok
  split at hok
  · obtain rfl := pure_eq_ok.mp hok
    exact lines_same rfl
  rename_i st hst
  split at hok
  · obtain rfl := pure_eq_ok.mp hok
    exact lines_same rfl
  rename_i event rest hqueue
  have hlt : st.streamEvents < s.chans.length := by
    by_contra hge
    rw [List.getD_eq_getElem?_getD, List.getElem?_eq_none (not_lt.mp hge)] at hqueue
    cases hqueue
  refine lines_serve (List.length_set ..) ?_ ?_ (by rw [hst]; rfl) hok
  · intro st' hst'
    cases hst.symm.trans hst'
    rw [hqueue, List.getD_eq_getElem?_getD, List.getElem?_set_self hlt]
    cases event with
    | incoming packet => rfl
    | shutdown => rfl
  · intro st' hst' ch hch
    cases hst.symm.trans hst'
    rw [List.getD_eq_getElem?_getD, List.getElem?_set_ne (Ne.symm hch),
      List.getD_eq_getElem?_getD]

/-- **What a step does to the lines**: a packet is put into the channel of the
stream it names, a stream is made, or the loop of a stream serves an event and
hands over what it sends. -/
theorem step_lines {op : Op π κ} (hown : op.Own) (hok : s.step op = .ok s') :
    LineStep s.lines op.arrival? s'.lines := by
  cases op with
  | incoming incomingRaw rnd now =>
      obtain rfl := pure_eq_ok.mp hok
      exact lines_handleIncomingBuf incomingRaw
  | acceptWithCid | accept | expireAwaiting | expireIncoming =>
      obtain rfl := pure_eq_ok.mp hok
      exact lines_same rfl
  | takeAcceptWithCid rnd now =>
      simp only [step] at hok
      split at hok
      · obtain rfl := pure_eq_ok.mp hok
        exact lines_same rfl
      · exact lines_takeAcceptWithCid hok
  | takeAccept first rnd now =>
      simp only [step] at hok
      split at hok
      · obtain rfl := pure_eq_ok.mp hok
        exact lines_same rfl
      · obtain rfl := pure_eq_ok.mp hok
        exact lines_takeAccept first
  | connect peer config rnds rnd now =>
      obtain rfl := pure_eq_ok.mp hok
      exact lines_connect
  | connectWithCid cid config rnd now =>
      obtain rfl := pure_eq_ok.mp hok
      exact lines_connectWithCid
  | awaitConnected i =>
      refine lines_same ?_
      simp only [step, awaitConnected] at hok
      split at hok
      · obtain rfl := pure_eq_ok.mp hok
        rfl
      split at hok
      · cases hok
      · obtain rfl := pure_eq_ok.mp hok
        rfl
      · obtain rfl := pure_eq_ok.mp hok
        rfl
  | close =>
      obtain rfl := pure_eq_ok.mp hok
      exact lines_same lines_sendShutdownEventToConns
  | writeLoop =>
      obtain rfl := pure_eq_ok.mp hok
      exact lines_writeLoop
  | receive i shutdown rnd now => exact lines_receive hok
  | serve i ev =>
      rcases hst : s.streams[i]? with - | st
      · simp only [step, serve, hst] at hok
        obtain rfl := pure_eq_ok.mp hok
        exact lines_same rfl
      · have hnone : Connection.received [ev] = [] := by
          cases ev with
          | ctxDone => rfl
          | turn t =>
              rw [Connection.received, List.filterMap_cons_none]
              · rfl
              · exact hown
        refine lines_serve rfl ?_ (fun _ _ _ _ => rfl) (by rw [hst]; rfl) hok
        intro st' _
        rw [hnone]
        rfl

end UtpSocket

/-! ### Tickets -/

section Ticketed

variable {π κ : Type}

/-- The packets that have arrived, each with the channel it was put into. -/
abbrev Tickets (π : Type) := List ((Packet × π) × Option Nat)

/-- The packets that were put into a channel. -/
def Tickets.given (tickets : Tickets π) (ch : Nat) : List Packet :=
  tickets.filterMap fun entry => if entry.2 = some ch then some entry.1.1 else none

theorem Tickets.given_append (tickets tickets' : Tickets π) (ch : Nat) :
    Tickets.given (tickets ++ tickets') ch = tickets.given ch ++ tickets'.given ch :=
  List.filterMap_append

theorem Tickets.given_none (arrival? : Option (Packet × π)) (ch : Nat) :
    Tickets.given (arrival?.toList.map (·, none)) ch = [] := by
  cases arrival? <;> rfl

theorem Tickets.given_some (arrival : Packet × π) (ch ch' : Nat) :
    Tickets.given [(arrival, some ch)] ch' = if ch = ch' then [arrival.1] else [] := by
  by_cases h : ch = ch' <;> simp [given, h]

theorem Tickets.mem_given {tickets : Tickets π} {arrival : Packet × π} {ch : Nat}
    (h : (arrival, some ch) ∈ tickets) : arrival.1 ∈ tickets.given ch :=
  List.mem_filterMap.mpr ⟨_, h, if_pos rfl⟩

variable [Float64]

/-- The loop of the stream has served the events since it was started. -/
def UtpStream.Served (st : UtpStream π) (events : List LoopEvent) : Prop :=
  ∃ config rnd now,
    ((newConnection st.cid.toConnectionId config st.syn rnd now).start now).serveAll events
      = .ok st.loop

variable [CidHash π κ]

/-- The channels are the streams' own, an entry of the table leads to the
stream with its key, and what the loops were handed and what still waits is
what the tickets say. -/
structure Threaded (tickets : Tickets π) (l : Lines π κ) : Prop where
  apart : (l.streams.map (·.streamEvents)).Nodup
  made : ∀ st ∈ l.streams, st.streamEvents < l.chans
  unmade : ∀ ch, l.chans ≤ ch → l.waiting ch = [] ∧ tickets.given ch = []
  entry : ∀ key ch, l.conns key = some ch →
    ch < l.chans ∧ ∀ st ∈ l.streams, st.streamEvents = ch → genHash st.cid = key
  handed : ∀ st ∈ l.streams, ∃ events, st.Served events ∧
    Connection.received events ++ l.waiting st.streamEvents = tickets.given st.streamEvents
  named : ∀ st ∈ l.streams, ∀ arrival, (arrival, some st.streamEvents) ∈ tickets →
    Names st.cid arrival

namespace Threaded

variable {tickets : Tickets π} {l l' : Lines π κ} {arrival? : Option (Packet × π)}

omit [Float64] in
/-- A packet without a channel changes nothing that was given. -/
theorem given_untold (tickets : Tickets π) (arrival? : Option (Packet × π)) (ch : Nat) :
    Tickets.given (tickets ++ arrival?.toList.map (·, none)) ch = tickets.given ch := by
  rw [Tickets.given_append, Tickets.given_none, List.append_nil]

omit [Float64] in
theorem mem_untold {arrival : Packet × π} {ch : Nat}
    (h : (arrival, some ch) ∈ tickets ++ arrival?.toList.map (·, none)) :
    (arrival, some ch) ∈ tickets := by
  rcases List.mem_append.mp h with h | h
  · exact h
  · obtain ⟨_, -, heq⟩ := List.mem_map.mp h
    cases heq

theorem rest {conns : κ → Option Nat} {wire : List (Bytes × π)} (h : Threaded tickets l)
    (hconns : ∀ key ch, conns key = some ch → l.conns key = some ch) :
    Threaded (tickets ++ arrival?.toList.map (·, none)) { l with conns, wire } where
  apart := h.apart
  made := h.made
  unmade := fun ch hch => by
    rw [given_untold]
    exact h.unmade ch hch
  entry := fun key ch hget => h.entry key ch (hconns key ch hget)
  handed := fun st hst => by
    rw [given_untold]
    exact h.handed st hst
  named := fun st hst arrival hmem => h.named st hst arrival (mem_untold hmem)

theorem offer {packet : Packet} {peer : π} {idType : IdType} {ch : Nat}
    (hinj : Function.Injective (genHash : Cid π → κ)) (h : Threaded tickets l)
    (hid : idType ∈ cidTypes)
    (hch : l.conns (genHash (cidFromPacket packet peer idType)) = some ch) :
    Threaded (tickets ++ [((packet, peer), some ch)]) { l with
      waiting := Function.update l.waiting ch (l.waiting ch ++ [packet]) } where
  apart := h.apart
  made := h.made
  unmade := fun ch' hch' => by
    -- the channel has been made, so it is none of these
    have hne : ch ≠ ch' := ne_of_lt ((h.entry _ _ hch).1.trans_le hch')
    rw [Tickets.given_append, Tickets.given_some, if_neg hne, List.append_nil]
    exact ⟨(Function.update_of_ne hne.symm ..).trans (h.unmade ch' hch').1, (h.unmade ch' hch').2⟩
  entry := h.entry
  handed := fun st hst => by
    obtain ⟨events, hserved, hgiven⟩ := h.handed st hst
    refine ⟨events, hserved, ?_⟩
    rw [Tickets.given_append, Tickets.given_some, ← hgiven]
    by_cases hne : ch = st.streamEvents
    · rw [if_pos hne, ← hne]
      dsimp only
      rw [Function.update_self, List.append_assoc]
    · rw [if_neg hne, List.append_nil]
      dsimp only
      rw [Function.update_of_ne (Ne.symm hne)]
  named := fun st hst arrival hmem => by
    rcases List.mem_append.mp hmem with hmem | hmem
    · exact h.named st hst arrival hmem
    · obtain ⟨rfl, hstream⟩ := Prod.mk.inj (List.mem_singleton.mp hmem)
      have hkey := (h.entry _ _ hch).2 st hst (Option.some.inj hstream)
      exact ⟨idType, hid, hinj hkey.symm⟩

theorem make {conns : κ → Option Nat} {wire : List (Bytes × π)} (h : Threaded tickets l)
    (cid : Cid π) (config : ConnectionConfig) (syn : Option Packet) (accept : Option (Accept π))
    (rnd : Uint16) (now : Time)
    (hconns : ∀ key ch, conns key = some ch →
      l.conns key = some ch ∨ key = genHash cid ∧ ch = l.chans) :
    Threaded (tickets ++ arrival?.toList.map (·, none)) { l with
      conns
      chans := l.chans + 1
      streams := l.streams ++ [.fresh cid config syn l.chans accept rnd now]
      wire } where
  apart := by
    rw [List.map_append, List.map_singleton]
    refine List.Nodup.append h.apart (List.nodup_singleton _) ?_
    rw [List.disjoint_singleton]
    intro hmem
    obtain ⟨st, hst, hch⟩ := List.mem_map.mp hmem
    exact absurd hch (ne_of_lt (h.made st hst))
  made := fun st hst => by
    rcases List.mem_append.mp hst with hst | hst
    · exact (h.made st hst).trans (Nat.lt_succ_self _)
    · rw [List.mem_singleton.mp hst]
      exact Nat.lt_succ_self _
  unmade := fun ch hch => by
    rw [given_untold]
    exact h.unmade ch (Nat.le_of_succ_le hch)
  entry := fun key ch hget => by
    rcases hconns key ch hget with hget | ⟨rfl, rfl⟩
    · obtain ⟨hlt, hkey⟩ := h.entry key ch hget
      refine ⟨hlt.trans (Nat.lt_succ_self _), fun st hst hch => ?_⟩
      rcases List.mem_append.mp hst with hst | hst
      · exact hkey st hst hch
      · rw [List.mem_singleton.mp hst] at hch
        exact absurd hch (ne_of_gt hlt)
    · refine ⟨Nat.lt_succ_self _, fun st hst hch => ?_⟩
      rcases List.mem_append.mp hst with hst | hst
      · exact absurd hch (ne_of_lt (h.made st hst))
      · rw [List.mem_singleton.mp hst]
        rfl
  handed := fun st hst => by
    rw [given_untold]
    rcases List.mem_append.mp hst with hst | hst
    · exact h.handed st hst
    · rw [List.mem_singleton.mp hst]
      obtain ⟨hwaiting, hgiven⟩ := h.unmade l.chans le_rfl
      exact ⟨[], ⟨config, rnd, now, rfl⟩, hwaiting.trans hgiven.symm⟩
  named := fun st hst arrival hmem => by
    rcases List.mem_append.mp hst with hst | hst
    · exact h.named st hst arrival (mem_untold hmem)
    · rw [List.mem_singleton.mp hst] at hmem
      have hgiven : arrival.1 ∈ tickets.given l.chans := Tickets.mem_given (mem_untold hmem)
      rw [(h.unmade l.chans le_rfl).2] at hgiven
      cases hgiven

theorem serve {i : Nat} {st : UtpStream π} {ev : LoopEvent} {loop : LoopState}
    {waiting : Nat → List Packet} {wire : List (Bytes × π)} (h : Threaded tickets l)
    (hst : l.streams[i]? = some st) (hok : Connection.serve st.loop ev = .ok loop)
    (hown : Connection.received [ev] ++ waiting st.streamEvents = l.waiting st.streamEvents)
    (hothers : ∀ ch, ch ≠ st.streamEvents → waiting ch = l.waiting ch) :
    Threaded (tickets ++ arrival?.toList.map (·, none)) { l with
      waiting
      streams := l.streams.set i { st with loop }
      wire } := by
  have hmem : st ∈ l.streams := List.mem_of_getElem? hst
  -- the stream keeps its id and its channel
  have hold : ∀ st' ∈ l.streams.set i { st with loop }, ∃ old ∈ l.streams,
      old.cid = st'.cid ∧ old.streamEvents = st'.streamEvents := by
    intro st' hst'
    rcases List.mem_or_eq_of_mem_set hst' with hst' | rfl
    · exact ⟨st', hst', rfl, rfl⟩
    · exact ⟨st, hmem, rfl, rfl⟩
  have hmap : (l.streams.set i { st with loop }).map (·.streamEvents)
      = l.streams.map (·.streamEvents) := by
    rw [List.map_set]
    refine List.ext_getElem? fun j => ?_
    rw [List.getElem?_set]
    split
    · rename_i hij
      subst hij
      split
      · rw [List.getElem?_map, hst]
        rfl
      · rename_i hlen
        exact (List.getElem?_eq_none (not_lt.mp hlen)).symm
    · rfl
  constructor
  case apart => exact hmap ▸ h.apart
  case made =>
    intro st' hst'
    obtain ⟨old, hmem', -, hch⟩ := hold st' hst'
    exact hch ▸ h.made old hmem'
  case unmade =>
    intro ch hch
    rw [given_untold]
    refine ⟨(hothers ch ?_).trans (h.unmade ch hch).1, (h.unmade ch hch).2⟩
    exact ne_of_gt ((h.made st hmem).trans_le hch)
  case entry =>
    intro key ch hget
    refine ⟨(h.entry key ch hget).1, fun st' hst' hch => ?_⟩
    obtain ⟨old, hmem', hcid, hch'⟩ := hold st' hst'
    exact hcid ▸ (h.entry key ch hget).2 old hmem' (hch'.trans hch)
  case handed =>
    intro st' hst'
    rw [given_untold]
    obtain ⟨j, hj⟩ := List.mem_iff_getElem?.mp hst'
    by_cases hij : i = j
    · subst hij
      have hlen : i < l.streams.length := (List.getElem?_eq_some_iff.mp hst).1
      rw [List.getElem?_set_self hlen] at hj
      obtain rfl := Option.some.inj hj
      obtain ⟨events, ⟨config, rnd, now, hall⟩, hgiven⟩ := h.handed st hmem
      refine ⟨events ++ [ev], ⟨config, rnd, now, ?_⟩, ?_⟩
      · rw [Connection.serveAll, List.foldlM_append]
        refine bind_eq_ok.mpr ⟨st.loop, hall, ?_⟩
        exact bind_eq_ok.mpr ⟨loop, hok, rfl⟩
      · rw [Connection.received, List.filterMap_append, List.append_assoc]
        show Connection.received events ++ (Connection.received [ev] ++ waiting st.streamEvents) = _
        rw [hown, hgiven]
    · rw [List.getElem?_set_ne hij] at hj
      have hmem' : st' ∈ l.streams := List.mem_of_getElem? hj
      have hch : st'.streamEvents ≠ st.streamEvents := by
        intro heq
        have hmaps : (l.streams.map (·.streamEvents))[i]?
            = (l.streams.map (·.streamEvents))[j]? := by
          rw [List.getElem?_map, List.getElem?_map, hst, hj, Option.map_some, Option.map_some, heq]
        refine hij ((List.getElem?_inj ?_ h.apart).mp hmaps)
        rw [List.length_map]
        exact (List.getElem?_eq_some_iff.mp hst).1
      obtain ⟨events, hserved, hgiven⟩ := h.handed st' hmem'
      refine ⟨events, hserved, ?_⟩
      dsimp only
      rw [hothers _ hch, hgiven]
  case named =>
    intro st' hst' arrival hentry
    obtain ⟨old, hmem', hcid, hch⟩ := hold st' hst'
    exact hcid ▸ h.named old hmem' arrival (hch ▸ mem_untold hentry)

/-- A step writes the ticket of the packet that arrives. -/
theorem step (hinj : Function.Injective (genHash : Cid π → κ)) (h : Threaded tickets l)
    (hstep : LineStep l arrival? l') :
    ∃ ticket, Threaded (tickets ++ arrival?.toList.map (·, ticket)) l' := by
  cases hstep with
  | rest hconns hwire => exact ⟨none, h.rest hconns⟩
  | offer harrival hid hch =>
      rename_i packet peer idType ch
      subst harrival
      exact ⟨some ch, h.offer hinj hid hch⟩
  | make cid config syn accept rnd now hconns =>
      exact ⟨none, h.make cid config syn accept rnd now hconns⟩
  | serve hst hok hown hothers => exact ⟨none, h.serve hst hok hown hothers⟩

end Threaded

end Ticketed

/-! ### What is written -/

section Wire

variable {π κ : Type}

/-- What a stream has handed over to be written to its peer. -/
def UtpStream.datagrams (st : UtpStream π) : List (Bytes × π) :=
  UtpGo.datagrams st.cid.peer st.loop.conn.socketEvents

theorem Resets.mono {arrived arrived' : List (Packet × π)} {item : Bytes × π}
    (h : Resets arrived item) (hsub : arrived ⊆ arrived') : Resets arrived' item := by
  obtain ⟨packet, reset, hmem, h⟩ := h
  exact ⟨packet, reset, hsub hmem, h⟩

/-- One list of many grows at its end. -/
theorem flatMap_set_perm {α β : Type} {f : α → List β} {values : List α} {i : Nat} {a a' : α}
    {new : List β} (ha : values[i]? = some a) (hnew : f a' = f a ++ new) :
    ((values.set i a').flatMap f).Perm (values.flatMap f ++ new) := by
  induction values generalizing i with
  | nil => cases ha
  | cons value values ih =>
      cases i with
      | zero =>
          cases ha
          rw [List.set_cons_zero, List.flatMap_cons, List.flatMap_cons, hnew, List.append_assoc,
            List.append_assoc]
          exact List.perm_append_comm.append_left _
      | succ i =>
          rw [List.set_cons_succ, List.flatMap_cons, List.flatMap_cons, List.append_assoc]
          exact (ih ha).append_left _

/-- What a loop hands to the socket comes after what it has handed. -/
theorem Connection.serve_extends [Float64] {s s' : LoopState} {ev : LoopEvent}
    (hwaits : ∀ c, s = .waiting c → c.Waits) (hok : Connection.serve s ev = .ok s') :
    s.conn.socketEvents <+: s'.conn.socketEvents ∧ ∀ c, s' = .waiting c → c.Waits := by
  cases s with
  | returned c =>
      obtain rfl := Connection.serve_returned hok
      refine ⟨List.prefix_rfl, ?_⟩
      rintro c' ⟨⟩
  | waiting c =>
      cases Connection.serves_of_serve (hwaits c rfl) hok with
      | waits hwaits' hout =>
          refine ⟨⟨_, hout.symm⟩, ?_⟩
          rintro c' ⟨⟩
          exact hwaits'
      | leaves hout =>
          refine ⟨⟨_, (hout.trans (List.append_assoc ..)).symm⟩, ?_⟩
          rintro c' ⟨⟩
      | cancelled =>
          refine ⟨List.prefix_rfl, ?_⟩
          rintro c' ⟨⟩

/-- What is written, or will be, is what the streams have handed over and
RESETs; the packets of a stream are in order. -/
structure Carried (arrived : List (Packet × π)) (l : Lines π κ) : Prop where
  waits : ∀ st ∈ l.streams, ∀ c, st.loop = .waiting c → c.Waits
  whole : ∃ resets, (∀ item ∈ resets, Resets arrived item) ∧
    l.wire.Perm (l.streams.flatMap UtpStream.datagrams ++ resets)
  order : ∀ st ∈ l.streams, st.datagrams.Sublist l.wire

theorem Carried.step [Float64] [CidHash π κ] {arrived : List (Packet × π)} {l l' : Lines π κ}
    {arrival? : Option (Packet × π)} (h : Carried arrived l) (hstep : LineStep l arrival? l') :
    Carried (arrived ++ arrival?.toList) l' := by
  obtain ⟨resets, hresets, hwhole⟩ := h.whole
  have hmore : ∀ item ∈ resets, Resets (arrived ++ arrival?.toList) item :=
    fun item hitem => (hresets item hitem).mono (List.subset_append_left ..)
  -- what a stream hands over goes between the streams' packets and the RESETs
  have hperm : ∀ (wire : List (Bytes × π)) {all : List (Bytes × π)},
      all.Perm (l.streams.flatMap UtpStream.datagrams ++ wire) →
      (l.wire ++ wire).Perm (all ++ resets) := by
    intro wire all hall
    calc (l.wire ++ wire).Perm (l.streams.flatMap UtpStream.datagrams ++ resets ++ wire) :=
          hwhole.append_right _
      _ = l.streams.flatMap UtpStream.datagrams ++ (resets ++ wire) := List.append_assoc ..
      List.Perm _ (l.streams.flatMap UtpStream.datagrams ++ (wire ++ resets)) :=
          List.perm_append_comm.append_left _
      _ = l.streams.flatMap UtpStream.datagrams ++ wire ++ resets := (List.append_assoc ..).symm
      List.Perm _ (all ++ resets) := hall.symm.append_right _
  have hgrown : ∀ (wire : List (Bytes × π)) st, st ∈ l.streams →
      st.datagrams.Sublist (l.wire ++ wire) :=
    fun wire st hst => (h.order st hst).trans (List.sublist_append_left ..)
  cases hstep with
  | rest hconns hwire =>
      rename_i conns wire
      refine ⟨h.waits, ⟨resets ++ wire, fun item hitem => ?_, ?_⟩, hgrown wire⟩
      · rcases List.mem_append.mp hitem with hitem | hitem
        · exact hmore item hitem
        · exact (hwire item hitem).mono (List.subset_append_right ..)
      · rw [← List.append_assoc]
        exact hwhole.append_right _
  | offer => exact ⟨h.waits, ⟨resets, hmore, hwhole⟩, h.order⟩
  | make cid config syn accept rnd now hconns =>
      refine ⟨?_, ⟨resets, hmore, hperm _ ?_⟩, ?_⟩
      · intro st hst c hc
        rcases List.mem_append.mp hst with hst | hst
        · exact h.waits st hst c hc
        · rw [List.mem_singleton.mp hst] at hc
          cases hc
          exact Connection.waits_start ..
      · rw [List.flatMap_append, List.flatMap_singleton]
        exact List.Perm.refl _
      · intro st hst
        rcases List.mem_append.mp hst with hst | hst
        · exact hgrown _ st hst
        · rw [List.mem_singleton.mp hst]
          exact List.sublist_append_right ..
  | serve hst hok hown hothers =>
      rename_i i st ev loop waiting
      obtain ⟨⟨events, hevents⟩, hwaits⟩ :=
        Connection.serve_extends (h.waits st (List.mem_of_getElem? hst)) hok
      have hnew : UtpStream.datagrams { st with loop } = st.datagrams ++ datagrams st.cid.peer
          (loop.conn.socketEvents.drop st.loop.conn.socketEvents.length) := by
        rw [← hevents, List.drop_left, UtpStream.datagrams, ← hevents]
        exact List.filterMap_append
      refine ⟨?_, ⟨resets, hmore, hperm _ (flatMap_set_perm hst hnew)⟩, ?_⟩
      · intro st' hst' c hc
        rcases List.mem_or_eq_of_mem_set hst' with hst' | rfl
        · exact h.waits st' hst' c hc
        · exact hwaits c hc
      · intro st' hst'
        rcases List.mem_or_eq_of_mem_set hst' with hst' | rfl
        · exact hgrown _ st' hst'
        · rw [hnew]
          exact (h.order st (List.mem_of_getElem? hst)).append (List.Sublist.refl _)

end Wire

/-! ### Runs -/

namespace UtpSocket

variable {π κ : Type} [LinearOrder κ] [CidHash π κ] [Float64] {s s' : UtpSocket π κ}

theorem run_threaded (hinj : Function.Injective (genHash : Cid π → κ)) {ops : List (Op π κ)}
    {tickets : Tickets π} (hs : Threaded tickets s.lines) (hown : ∀ op ∈ ops, op.Own)
    (hok : s.run ops = .ok s') : ∃ tickets' : Tickets π,
      tickets'.map (·.1) = tickets.map (·.1) ++ ops.filterMap Op.arrival? ∧
      Threaded tickets' s'.lines := by
  induction ops generalizing s tickets with
  | nil =>
      obtain rfl := pure_eq_ok.mp hok
      exact ⟨tickets, (List.append_nil _).symm, hs⟩
  | cons op ops ih =>
      obtain ⟨s₁, hstep, hok⟩ := bind_eq_ok.mp hok
      obtain ⟨ticket, hs₁⟩ := hs.step hinj (step_lines (hown op List.mem_cons_self) hstep)
      obtain ⟨tickets', hmap, hs'⟩ :=
        ih hs₁ (fun op' hop' => hown op' (List.mem_cons_of_mem _ hop')) hok
      refine ⟨tickets', ?_, hs'⟩
      rw [hmap, List.map_append, List.append_assoc]
      congr 1
      rw [List.filterMap_cons]
      cases op.arrival? <;> rfl

theorem run_carried {ops : List (Op π κ)} {arrived : List (Packet × π)}
    (hs : Carried arrived s.lines) (hown : ∀ op ∈ ops, op.Own) (hok : s.run ops = .ok s') :
    Carried (arrived ++ ops.filterMap Op.arrival?) s'.lines := by
  induction ops generalizing s arrived with
  | nil =>
      obtain rfl := pure_eq_ok.mp hok
      rw [List.filterMap_nil, List.append_nil]
      exact hs
  | cons op ops ih =>
      obtain ⟨s₁, hstep, hok⟩ := bind_eq_ok.mp hok
      have hs' := ih (hs.step (step_lines (hown op List.mem_cons_self) hstep))
        (fun op' hop' => hown op' (List.mem_cons_of_mem _ hop')) hok
      rw [List.append_assoc] at hs'
      rw [List.filterMap_cons]
      cases hop : op.arrival? with
      | none =>
          rw [hop] at hs'
          exact hs'
      | some arrival =>
          rw [hop] at hs'
          exact hs'

theorem threaded_withSocket : Threaded [] (withSocket : UtpSocket π κ).lines where
  apart := List.nodup_nil
  made := by
    rintro st ⟨⟩
  unmade := fun ch _ => ⟨rfl, rfl⟩
  entry := by
    rintro key ch ⟨⟩
  handed := by
    rintro st ⟨⟩
  named := by
    rintro st ⟨⟩

omit [CidHash π κ] [Float64] in
theorem carried_withSocket : Carried [] (withSocket : UtpSocket π κ).lines where
  waits := by
    rintro st ⟨⟩
  whole := by
    refine ⟨[], ?_, List.Perm.refl _⟩
    rintro item ⟨⟩
  order := by
    rintro st ⟨⟩

/-- **Packets reach the stream they are for.**  In every run of a socket whose
hash has no collisions each packet that arrives is put into one channel at
most, no two streams have the same channel, and every packet put into the
channel of a stream names the id of the stream.  The loop of a stream is where
it is after the events that it has served; the packets among them, followed by
those that wait in its channel, are the packets put into it, in the order of
their arrival. -/
theorem run_delivers (hinj : Function.Injective (genHash : Cid π → κ)) (ops : List (Op π κ))
    (s : UtpSocket π κ) (hown : ∀ op ∈ ops, op.Own) (hrun : withSocket.run ops = .ok s) :
    ∃ tickets : Tickets π, tickets.map (·.1) = ops.filterMap Op.arrival? ∧
      (s.streams.map (·.streamEvents)).Nodup ∧ ∀ st ∈ s.streams,
        (∃ events, st.Served events ∧ Connection.received events ++
          packets (s.chans.getD st.streamEvents []) = tickets.given st.streamEvents) ∧
        ∀ arrival, (arrival, some st.streamEvents) ∈ tickets → Names st.cid arrival := by
  obtain ⟨tickets, hmap, h⟩ := run_threaded hinj threaded_withSocket hown hrun
  exact ⟨tickets, hmap, h.apart, fun st hst => ⟨h.handed st hst, h.named st hst⟩⟩

omit [LinearOrder κ] [CidHash π κ] [Float64] in
/-- Of two packets, one of another peer, a stream that connects has received the
STATE packet which answers its SYN. -/
theorem run_delivers_state : ∃ s st, ∃ tickets : Tickets Nat,
    @run Nat Nat _ plainHash exactFloat64 withSocket
      [.connectWithCid ⟨⟨101, 100⟩, 1⟩ newConnectionConfig 7 0,
        .incoming ⟨2, (newPacketBuilder .st_state 100 0 1000 5).build.encode⟩ 0 0,
        .incoming ⟨1, ((newPacketBuilder .st_state 100 0 1000 5).withAckNum 7).build.encode⟩ 0 0,
        .receive 0 false 0 0] = .ok s ∧
    s.streams = [st] ∧ st.loop.conn.established.isSome = true ∧ tickets.length = 2 ∧
    ∃ events, @UtpStream.Served Nat exactFloat64 st events ∧
      Connection.received events ++ packets (s.chans.getD st.streamEvents [])
        = tickets.given st.streamEvents := by
  let := plainHash
  let := exactFloat64
  let ops : List (Op Nat Nat) := [.connectWithCid ⟨⟨101, 100⟩, 1⟩ newConnectionConfig 7 0,
    .incoming ⟨2, (newPacketBuilder .st_state 100 0 1000 5).build.encode⟩ 0 0,
    .incoming ⟨1, ((newPacketBuilder .st_state 100 0 1000 5).withAckNum 7).build.encode⟩ 0 0,
    .receive 0 false 0 0]
  have hrun : ∃ s st, (withSocket : UtpSocket Nat Nat).run ops = .ok s ∧ s.streams = [st] ∧
      st.loop.conn.established.isSome = true := ⟨_, _, rfl, rfl, rfl⟩
  obtain ⟨s, st, hrun, hstreams, hconnected⟩ := hrun
  have hown : ∀ op ∈ ops, op.Own := by
    simp [ops, Op.Own]
  obtain ⟨tickets, hmap, -, hhanded⟩ := run_delivers plainHash_injective ops s hown hrun
  have hst : st ∈ s.streams := hstreams ▸ List.mem_cons_self
  refine ⟨s, st, tickets, hrun, hstreams, hconnected, ?_, (hhanded st hst).1⟩
  rw [← List.length_map (·.1), hmap]
  rfl

/-- **Nothing is lost between the streams and the wire.**  In every run of a
socket what it has passed to `WriteTo`, followed by what waits to be written, is
what its streams have handed over, each packet as often as it was handed over
and to the peer of its stream, and RESETs, each to the sender of a packet that
arrived and with the id of that packet; the packets of a stream are in the order
in which it handed them over. -/
theorem run_writes (ops : List (Op π κ)) (s : UtpSocket π κ) (hown : ∀ op ∈ ops, op.Own)
    (hrun : withSocket.run ops = .ok s) :
    (∃ resets, (∀ item ∈ resets, Resets (ops.filterMap Op.arrival?) item) ∧
      (s.written ++ s.socketEvents.filterMap SocketMsg.wire).Perm
        (s.streams.flatMap UtpStream.datagrams ++ resets)) ∧
    ∀ st ∈ s.streams, st.datagrams.Sublist
      (s.written ++ s.socketEvents.filterMap SocketMsg.wire) := by
  have h := run_carried carried_withSocket hown hrun
  exact ⟨h.whole, h.order⟩

omit [LinearOrder κ] [CidHash π κ] [Float64] in
/-- A SYN, and the RESET that a packet of another peer gets. -/
theorem run_writes_reset : ∃ s,
    @run Nat Nat _ plainHash exactFloat64 withSocket
      [.connectWithCid ⟨⟨101, 100⟩, 1⟩ newConnectionConfig 7 0,
        .incoming ⟨2, (newPacketBuilder .st_state 100 0 1000 5).build.encode⟩ 0 0,
        .writeLoop] = .ok s ∧
    s.written.length = 1 ∧ s.socketEvents.length = 1 ∧
    ∃ resets, (s.written ++ s.socketEvents.filterMap SocketMsg.wire).Perm
      (s.streams.flatMap UtpStream.datagrams ++ resets) := by
  let := plainHash
  let := exactFloat64
  let ops : List (Op Nat Nat) := [.connectWithCid ⟨⟨101, 100⟩, 1⟩ newConnectionConfig 7 0,
    .incoming ⟨2, (newPacketBuilder .st_state 100 0 1000 5).build.encode⟩ 0 0, .writeLoop]
  have hrun : ∃ s, (withSocket : UtpSocket Nat Nat).run ops = .ok s ∧ s.written.length = 1 ∧
      s.socketEvents.length = 1 := ⟨_, rfl, rfl, rfl⟩
  obtain ⟨s, hrun, hwritten, hevents⟩ := hrun
  have hown : ∀ op ∈ ops, op.Own := by
    simp [ops, Op.Own]
  obtain ⟨⟨resets, -, hwhole⟩, -⟩ := run_writes ops s hown hrun
  exact ⟨s, hrun, hwritten, hevents, resets, hwhole⟩

end UtpSocket

end UtpGo
