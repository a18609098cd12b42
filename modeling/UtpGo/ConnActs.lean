/-
UtpGo/ConnActs.lean

The small actions a connection is made of.  A handler that transmits first
settles what it has to send (`Item`s: fresh data, lost packets, a timed-out
packet or the FIN) and then sends one after the other; in between the
connection is in the middle of a call (`Midcall`).

`Act` lists everything that can happen to a connection in one small step,
with the conditions under which the code does it.  `packet?` is the packet
being handled, if there is one, and `guard` restricts the timeouts and the
FINs considered, so that a result may assume something of them.

Main result: `Act.sound`, the buffers keep their invariants through every
action.
-/
import UtpGo.Conn
import UtpGo.RecvBufferSpec
import UtpGo.SentPacketsAck
import UtpGo.SentPacketsTransmit

namespace UtpGo

open Checked

/-! ### Parts of a connection -/

/-- The buffers of a connection that has or had some. -/
def ConnState.established : ConnState → Option Established
  | .connecting => none
  | .connected e => some e
  | .closed e _ => e

namespace Connection

def established (c : Connection) : Option Established := c.state.established

/-- The packet waits for its timeout, or its timeout for being handled. -/
def Timed (c : Connection) (p : Packet) : Prop :=
  p ∈ c.unackTimeoutCh ∨ ∃ k, c.unacked.Holds (k, p)

/-- The packets that a tick moves to the channel were timed before. -/
theorem timed_of_tick {c : Connection} {order : List (Uint16 × Packet)} {q : Packet}
    (horder : order.Perm c.unacked.due) (h : Timed { c with
      unacked := c.unacked.tick, unackTimeoutCh := c.unackTimeoutCh ++ order.map (·.2) } q) :
    c.Timed q := by
  rcases h with hq | ⟨k, hq⟩
  · rcases List.mem_append.mp hq with hq | hq
    · exact .inl hq
    · obtain ⟨item, hitem, rfl⟩ := List.mem_map.mp hq
      exact .inr ⟨item.1, .of_due (horder.mem_iff.mp hitem)⟩
  · exact .inr ⟨k, hq.of_tick⟩

theorem timed_of_receive {c : Connection} {p q : Packet} {rest : List Packet}
    (hch : c.unackTimeoutCh = p :: rest) (h : Timed { c with unackTimeoutCh := rest } q) :
    c.Timed q :=
  h.imp_left fun hq => hch ▸ List.mem_cons_of_mem p hq

theorem timed_put {c : Connection} {key : Uint16} {p q : Packet} {delay : Duration}
    (h : Timed { c with unacked := c.unacked.put key p delay } q) : q = p ∨ c.Timed q := by
  rcases h with hq | ⟨k, hq⟩
  · exact .inr (.inl hq)
  · rcases TimeWheel.Holds.of_put hq with heq | hq
    · cases heq
      exact .inl rfl
    · exact .inr (.inr ⟨k, hq⟩)

theorem timed_putSigned {c : Connection} {key : Uint16} {p q : Packet} {delay : Int}
    {unacked : TimeWheel Uint16 Packet}
    (hput : (c.unacked.putSigned key p delay : GoM _) = .ok unacked)
    (h : Timed { c with unacked } q) : q = p ∨ c.Timed q := by
  rcases h with hq | ⟨k, hq⟩
  · exact .inr (.inl hq)
  · rcases TimeWheel.Holds.of_putSigned hput hq with heq | hq
    · cases heq
      exact .inl rfl
    · exact .inr (.inr ⟨k, hq⟩)

theorem holds_of_removeAll {keys : List Uint16} {tw : TimeWheel Uint16 Packet}
    {item : Uint16 × Packet} (h : (keys.foldl TimeWheel.remove tw).Holds item) : tw.Holds item := by
  induction keys generalizing tw with
  | nil => exact h
  | cons k keys ih => exact (ih h).of_remove

/-- The packets that an acknowledgement leaves in the wheel were timed before. -/
theorem timed_of_clear {c : Connection} {shouldRemove : Uint16 → Bool} {keys : List Uint16}
    {q : Packet} (h : Timed { c with
      unacked := keys.foldl TimeWheel.remove (c.unacked.retain shouldRemove) } q) :
    c.Timed q :=
  h.imp_right fun ⟨k, hq⟩ => ⟨k, (holds_of_removeAll hq).of_retain.1⟩

/-- The packet was handed to the socket. -/
def Sent (c : Connection) (p : Packet) : Prop := .outgoing p ∈ c.socketEvents

theorem sent_emit {c : Connection} {p q : Packet} : (c.emit p).Sent q ↔ q = p ∨ c.Sent q := by
  simp [Sent, emit, or_comm]

/-- The packet is handed to the socket between the two states. -/
def Emits (c c' : Connection) (p : Packet) : Prop :=
  ∃ new, c'.socketEvents = c.socketEvents ++ new ∧ .outgoing p ∈ new

/-- The STATE packet of a connection: an acceptor's answer to the SYN, or that
of an established connection. -/
theorem statePacket_inv {c : Connection} {p : Packet} {now : Time}
    (h : c.statePacket now = some p) :
    (c.state = .connecting ∧ c.endpoint.type = .acceptor ∧
      p = ((newPacketBuilder .st_state c.cid.send (nowMicro now) c.config.windowSize
        c.endpoint.synAck).withTsDiffMicros c.tsDiffMicros
          |>.withAckNum c.endpoint.synNum |>.build)) ∨
    ∃ e, c.state = .connected e ∧
      p = ((newPacketBuilder .st_state c.cid.send (nowMicro now) (recvWindow e)
        e.sentPackets.nextSeqNum).withTsDiffMicros c.tsDiffMicros
          |>.withAckNum e.recvBuf.ackNum |>.withSelectiveAck e.recvBuf.selectiveAck |>.build) := by
  unfold statePacket at h
  split at h
  · rename_i hs
    split at h
    · cases h
    · rename_i hend
      exact .inl ⟨hs, hend, (Option.some.inj h).symm⟩
  · rename_i e hs
    exact .inr ⟨e, hs, (Option.some.inj h).symm⟩
  · cases h

/-- The bytes of the writes not yet moved to the send buffer. -/
def queued (c : Connection) : Bytes := c.pendingWrites.flatMap (·.data)

/-- The bytes handed to the reader. -/
def readStream (c : Connection) : Bytes := c.reads.flatMap fun r => r.data.take r.len

theorem readStream_append {c c' : Connection} {r : ReadOrWriteResult}
    (hreads : c'.reads = c.reads ++ [r]) : c'.readStream = c.readStream ++ r.data.take r.len := by
  simp [readStream, hreads]

/-- The bytes read are the front of the buffer handed over. -/
@[simp] theorem take_readResult (config : ConnectionConfig) (out : Bytes) :
    (readResult config out).data.take (readResult config out).len = out := by
  simp [readResult]

end Connection

/-- Our FIN, if it was sent. -/
def Established.localFin (e : Established) : Option Uint16 := e.closing.bind (·.localFin)

/-- The peer's FIN, if it was received. -/
def Established.remoteFin (e : Established) : Option Uint16 := e.closing.bind (·.remoteFin)

/-- The buffers satisfy their invariants. -/
structure Established.Sound (e : Established) : Prop where
  recvBuf : e.recvBuf.WF
  sendBuf : e.sendBuf.WF
  sentPackets : e.sentPackets.WF

/-- The types whose number is one of the stream. -/
def PacketType.numbered : PacketType → Bool
  | .st_data | .st_fin => true
  | .st_syn | .st_state | .st_reset => false

/-- The types that acknowledge. -/
def PacketType.carriesAck : PacketType → Bool
  | .st_state | .st_data | .st_fin => true
  | .st_syn | .st_reset => false

/-! ### In the middle of a call -/

/-- A packet still to be transmitted.  The extension byte is that of the
packet that timed out; without one the builder chooses it. -/
structure Item where
  seqNum : Uint16
  packetType : PacketType
  body : Bytes
  extension : Option Byte
  version : Byte

/-- Fresh data under consecutive numbers. -/
def dataItems : Uint16 → List Bytes → List Item
  | _, [] => []
  | seqNum, payload :: payloads =>
      ⟨seqNum, .st_data, payload, none, 1⟩ :: dataItems (seqNum + 1) payloads

def finItem (seqNum : Uint16) : Item := ⟨seqNum, .st_fin, [], none, 1⟩

def lostItem (lost : LostPacket) : Item := ⟨lost.seqNum, lost.packetType, lost.data, none, 1⟩

def expiredItem (p : Packet) : Item :=
  ⟨p.header.seqNum, p.header.packetType, p.body, some p.header.extension, p.header.version⟩

/-- The packet an item is sent as, in a state with receive buffer `rb`. -/
structure Carries (rb : ReceiveBuffer) (item : Item) (p : Packet) : Prop where
  seqNum : p.header.seqNum = item.seqNum
  packetType : p.header.packetType = item.packetType
  body : p.body = item.body
  version : p.header.version = item.version
  extension : p.header.extension =
    item.extension.getD (if rb.selectiveAck.isSome then 1 else 0)
  ackNum : p.header.ackNum = rb.ackNum
  eack : p.eack = rb.selectiveAck

/-- A connection in the middle of a call: what the call still has to
transmit, once it has settled that, and the bytes of all writes accepted. -/
structure Midcall where
  conn : Connection
  hand : Option (List Item)
  accepted : Bytes

def Midcall.items (m : Midcall) : List Item := m.hand.getD []

/-- The part of a connection that no bookkeeping touches. -/
structure SameCore (c c' : Connection) : Prop where
  state : c'.state = c.state
  config : c'.config = c.config
  endpointType : c'.endpoint.type = c.endpoint.type
  synNum : c'.endpoint.synNum = c.endpoint.synNum
  synAck : c'.endpoint.synAck = c.endpoint.synAck
  socketEvents : c'.socketEvents = c.socketEvents
  timed : ∀ p, c'.Timed p → c.Timed p
  reads : c'.reads = c.reads
  pendingWrites : c'.pendingWrites = c.pendingWrites
  synState : c.synState.isSome → c'.synState.isSome

/-- What taking payloads from the send buffer and refilling it does. -/
structure Flushes (c : Connection) (e : Established) (payloads : List Bytes) (sb : SendBuffer)
    (pendingWrites : List QueuedWrite) : Prop where
  nonempty : ∀ payload ∈ payloads, payload ≠ []
  stream : e.sendBuf.unread ++ c.queued
    = payloads.flatten ++ (sb.unread ++ pendingWrites.flatMap (·.data))
  taken : payloads.flatten.length ≤ e.sendBuf.unread.length
  window : payloads.flatten.length ≤ e.sentPackets.window.toNat
  wf : sb.WF
  drained : c.pendingWrites = [] → e.sendBuf.isEmpty = true →
    payloads = [] ∧ sb.isEmpty = true ∧ pendingWrites = []

/-- The ways a connection is closed, or its error replaced. -/
inductive Closes (packet? : Option Packet) (c : Connection) : ConnState → Prop where
  | invalidAck {p : Packet} {e : Established} (hp : packet? = some p)
      (ht : p.header.packetType.carriesAck = true) (hs : c.state = .connected e)
      (hack : e.sentPackets.packets.length
        < Circular.ahead e.sentPackets.initSeqNum p.header.ackNum) :
      Closes packet? c (c.reset .errInvalidAckNum).state
  | invalidSyn {p : Packet} (hp : packet? = some p) (ht : p.header.packetType = .st_syn)
      (hend : c.endpoint.type = .acceptor) (hnum : p.header.seqNum ≠ c.endpoint.synNum) :
      Closes packet? c (c.reset .errInvalidSyn).state
  | synFromAcceptor {p : Packet} (hp : packet? = some p) (ht : p.header.packetType = .st_syn)
      (hend : c.endpoint.type = .initiator) :
      Closes packet? c (c.reset .errSynFromAcceptor).state
  | emptyData {p : Packet} (hp : packet? = some p) (ht : p.header.packetType = .st_data)
      (hbody : p.body = []) : Closes packet? c (c.reset .errEmptyDataPayload).state
  | invalidFin {p : Packet} {e : Established} {fin : Uint16} (hp : packet? = some p)
      (ht : p.header.packetType = .st_fin) (hs : c.state = .connected e)
      (hfin : e.remoteFin = some fin) (hne : p.header.seqNum ≠ fin) :
      Closes packet? c (c.reset .errInvalidFin).state
  | reset {p : Packet} (hp : packet? = some p) (ht : p.header.packetType = .st_reset) :
      Closes packet? c (c.reset .errReset).state
  | invalidSeqNum {p : Packet} {e : Established} (hp : packet? = some p)
      (ht : p.header.packetType = .st_data) (hs : c.state = .connected e)
      (hfin : Connection.beyondFin e p.header.seqNum = true) :
      Closes packet? c (.closed (some e) (some .errInvalidSeqNum))
  | timedOut : Closes packet? c (.closed c.established (some .errTimedOut))
  | shutdown (hs : c.state = .connecting) : Closes packet? c (.closed none none)
  | localFin {e : Established} {fin : Uint16} (hs : c.state = .connected e)
      (hfin : e.localFin = some fin) (hack : e.sentPackets.lastAckNum = some fin) :
      Closes packet? c (.closed (some e) none)
  | remoteFin {e : Established} {fin : Uint16} (hs : c.state = .connected e)
      (hfin : e.remoteFin = some fin) (hun : e.sentPackets.hasUnackedPackets = false)
      (hack : e.recvBuf.ackNum = fin) : Closes packet? c (.closed (some e) none)
  | bothFins {e : Established} {fin fin' : Uint16} (hs : c.state = .connected e)
      (hfin : e.remoteFin = some fin) (hfin' : e.localFin = some fin') :
      Closes packet? c (.closed (some e) none)

theorem established_connected {c : Connection} {e : Established} (hs : c.state = .connected e) :
    c.established = some e := by
  rw [Connection.established, hs]
  rfl

theorem established_reset (c : Connection) (err : ConnError) :
    (c.reset err).state.established = c.established := by
  unfold Connection.reset Connection.established
  rcases hs : c.state with - | e | ⟨e, err'⟩
  · rfl
  · dsimp only
    split <;> rfl
  · rfl

theorem Closes.established {packet? : Option Packet} {c : Connection} {st : ConnState}
    (h : Closes packet? c st) : st.established = c.established := by
  cases h with
  | invalidAck | invalidSyn | synFromAcceptor | emptyData | invalidFin | reset =>
      exact established_reset c _
  | invalidSeqNum _ _ hs | localFin hs | remoteFin hs | bothFins hs =>
      exact (established_connected hs).symm
  | timedOut => rfl
  | shutdown hs =>
      rw [Connection.established, hs]
      rfl

/-! ### Actions -/

/-- What a result assumes of the packets that time out, and of the state in
which the FIN is settled. -/
structure Guard where
  timeout : Established → Packet → Prop
  fin : Established → Prop

/-- The actions of the sending side: taking in a write, settling what to
send, and sending the next item. -/
inductive SendAct (guard : Guard) : Midcall → Midcall → Prop where
  | enqueue {c : Connection} {w : Bytes} (data : Bytes) (resultCh : Nat)
      (hacc : c.acceptsWrite = true) : SendAct guard ⟨c, none, w⟩
        ⟨{ c with pendingWrites := c.pendingWrites ++ [⟨data, 0, resultCh⟩] }, none, w ++ data⟩
  | flush {c : Connection} {e : Established} {w : Bytes} {payloads : List Bytes}
      {sb : SendBuffer} {pendingWrites : List QueuedWrite} (hs : c.state = .connected e)
      (hf : Flushes c e payloads sb pendingWrites) : SendAct guard ⟨c, none, w⟩
        ⟨{ c with state := .connected { e with sendBuf := sb }, pendingWrites },
          some (dataItems e.sentPackets.nextSeqNum payloads), w⟩
  | pickLost {c : Connection} {e : Established} {w : Bytes} {losts : List LostPacket}
      (hs : c.state = .connected e) (hl : e.sentPackets.lostPacketsList = .ok losts) :
      SendAct guard ⟨c, none, w⟩ ⟨c, some (losts.map lostItem), w⟩
  | pickExpired {c : Connection} {e : Established} {w : Bytes} {p : Packet}
      (hs : c.state = .connected e) (ht : c.Timed p) (hsyn : p.header.packetType ≠ .st_syn)
      (hg : guard.timeout e p) : SendAct guard ⟨c, none, w⟩ ⟨c, some [expiredItem p], w⟩
  | pickFin {c : Connection} {e : Established} {w : Bytes} (hs : c.state = .connected e)
      (hl : e.localFin = none) (hp : c.pendingWrites = []) (hb : e.sendBuf.isEmpty = true)
      (hg : guard.fin e) : SendAct guard ⟨c, none, w⟩
        ⟨{ c with state := .connected { e with
            closing := some ⟨some e.sentPackets.nextSeqNum, e.remoteFin⟩ } },
          some [finItem e.sentPackets.nextSeqNum], w⟩
  | send {c : Connection} {e : Established} {w : Bytes} {item : Item} {rest : List Item}
      {p : Packet} {sp : SentPackets} {now : Time} {delay : Duration}
      (hs : c.state = .connected e)
      (hok : e.sentPackets.onTransmit item.seqNum item.packetType item.body
        (BitVec.ofNat 32 item.body.length) now = .ok sp)
      (hp : Carries e.recvBuf item p) : SendAct guard ⟨c, some (item :: rest), w⟩
        ⟨({ c with
            state := .connected { e with sentPackets := sp }
            unacked := c.unacked.put item.seqNum p delay } : Connection).emit p, some rest, w⟩

/-- One small action of a connection. -/
inductive Act [Float64] (packet? : Option Packet) (guard : Guard) :
    Midcall → Midcall → Prop where
  | sends {m m' : Midcall} (h : SendAct guard m m') : Act packet? guard m m'
  | book {c c' : Connection} {hand : Option (List Item)} {w : Bytes} (h : SameCore c c') :
      Act packet? guard ⟨c, hand, w⟩ ⟨c', hand, w⟩
  | backOff {c : Connection} {e : Established} {p : Packet} {w : Bytes}
      (hs : c.state = .connected e) : Act packet? guard ⟨c, some [expiredItem p], w⟩
        ⟨{ c with state := .connected { e with sentPackets := e.sentPackets.onTimeout } },
          some [expiredItem p], w⟩
  | beginClosing {c : Connection} {e : Established} {hand : Option (List Item)} {w : Bytes}
      (hs : c.state = .connected e) (hc : e.closing = none) : Act packet? guard ⟨c, hand, w⟩
        ⟨{ c with state := .connected { e with closing := some ⟨none, none⟩ } }, hand, w⟩
  | emitState {c : Connection} {hand : Option (List Item)} {w : Bytes} {p q : Packet} {now : Time}
      (hq : packet? = some q) (hwhy : q.header.packetType.numbered = true ∨
        q.header.packetType = .st_syn ∧ c.synState = none)
      (hp : c.statePacket now = some p) : Act packet? guard ⟨c, hand, w⟩ ⟨c.emit p, hand, w⟩
  | emitReset {c : Connection} {hand : Option (List Item)} {w : Bytes} {p : Packet} {now : Time}
      (rnd : Uint16) (hp : packet? = some p) (ht : p.header.packetType = .st_syn)
      (hsyn : c.synState = none) : Act packet? guard ⟨c, hand, w⟩
        ⟨c.emit (newPacketBuilder .st_reset p.header.connectionId (nowMicro now) 100000 rnd).build,
          hand, w⟩
  | emitSyn {c : Connection} {hand : Option (List Item)} {w : Bytes} {now : Time}
      (hs : c.state = .connecting) (hend : c.endpoint.type = .initiator) :
      Act packet? guard ⟨c, hand, w⟩ ⟨c.emit (c.synPacket c.endpoint.synNum now), hand, w⟩
  | recvData {c : Connection} {e : Established} {w : Bytes} {p : Packet} {rb : ReceiveBuffer}
      {err : Option RecvError} (hp : packet? = some p) (ht : p.header.packetType = .st_data)
      (hs : c.state = .connected e) (hfin : Connection.beyondFin e p.header.seqNum = false)
      (hw : e.recvBuf.write p.body p.header.seqNum = .ok (rb, err)) :
      Act packet? guard ⟨c, none, w⟩
        ⟨{ c with state := .connected { e with recvBuf := rb } }, none, w⟩
  | recvFin {c : Connection} {e : Established} {w : Bytes} {p : Packet} {rb : ReceiveBuffer}
      {err : Option RecvError} (hp : packet? = some p) (ht : p.header.packetType = .st_fin)
      (hs : c.state = .connected e) (hfin : e.remoteFin = none)
      (hw : e.recvBuf.write p.body p.header.seqNum = .ok (rb, err)) :
      Act packet? guard ⟨c, none, w⟩
        ⟨{ c with state := .connected { e with
            recvBuf := rb
            closing := some ⟨e.localFin, some p.header.seqNum⟩ } }, none, w⟩
  | readOut {c : Connection} {e : Established} {hand : Option (List Item)} {w : Bytes}
      {out : Bytes} {rb : ReceiveBuffer} (hhand : hand.getD [] = [])
      (hs : c.state = .connected e)
      (hr : e.recvBuf.read c.config.maxPacketSize.toNat = .ok (out, rb)) :
      Act packet? guard ⟨c, hand, w⟩
        ⟨{ c with
            state := .connected { e with recvBuf := rb }
            reads := c.reads ++ [Connection.readResult c.config out] }, hand, w⟩
  | endOfStream {c : Connection} {e : Established} {hand : Option (List Item)} {w : Bytes}
      (hs : c.state = .connected e) (heof : c.eof = true)
      (hdry : c.config.maxPacketSize ≠ 0 → e.recvBuf.offset = 0) :
      Act packet? guard ⟨c, hand, w⟩
        ⟨{ c with reads := c.reads ++ [{ err := some .eof }] }, hand, w⟩
  | closedRead {c : Connection} {e : Option Established} {err : Option ConnError}
      {hand : Option (List Item)} {w : Bytes} (hs : c.state = .closed e err) :
      Act packet? guard ⟨c, hand, w⟩ ⟨{ c with reads := c.reads ++ [.ofConnErr err] }, hand, w⟩
  | acked {c : Connection} {e : Established} {w : Bytes} {p : Packet} {sp : SentPackets}
      {r : Except SentError (CircularRangeInclusive × List Uint16)} {delay : Duration}
      {now : Time} (hp : packet? = some p) (ht : p.header.packetType.carriesAck = true)
      (hs : c.state = .connected e)
      (hok : e.sentPackets.onAck p.header.ackNum p.eack delay now = .ok (sp, r))
      (hr : r ≠ .error .errInvalidAckNum) : Act packet? guard ⟨c, none, w⟩
        ⟨{ c with state := .connected { e with sentPackets := sp } }, none, w⟩
  | close {c : Connection} {hand : Option (List Item)} {w : Bytes} {st : ConnState}
      (hhand : hand.getD [] = []) (h : Closes packet? c st) :
      Act packet? guard ⟨c, hand, w⟩ ⟨{ c with state := st }, hand, w⟩
  | establish {c : Connection} {w : Bytes} {p : Packet} (hp : packet? = some p)
      (ht : p.header.packetType = .st_state) (hs : c.state = .connecting)
      (hend : c.endpoint.type = .initiator) (hack : p.header.ackNum = c.endpoint.synNum) :
      Act packet? guard ⟨c, none, w⟩
        ⟨{ c with
            state := .connected (Connection.establish c.config (p.header.seqNum - 1)
              c.endpoint.synNum) }, none, w⟩

/-! ### The buffers keep their invariants -/

/-- The buffers of a connection satisfy their invariants. -/
def Midcall.Sound (m : Midcall) : Prop := ∀ e, m.conn.established = some e → e.Sound

theorem SendAct.sound {guard : Guard} {m m' : Midcall}
    (h : SendAct guard m m') (hm : m.Sound) : m'.Sound := by
  intro e' he'
  cases h with
  | enqueue | pickLost | pickExpired => exact hm e' he'
  | flush hs hf =>
      cases he'
      have h := hm _ (established_connected hs)
      exact ⟨h.recvBuf, hf.wf, h.sentPackets⟩
  | pickFin hs =>
      cases he'
      have h := hm _ (established_connected hs)
      exact ⟨h.recvBuf, h.sendBuf, h.sentPackets⟩
  | send hs hok =>
      cases he'
      have h := hm _ (established_connected hs)
      exact ⟨h.recvBuf, h.sendBuf, h.sentPackets.of_transmit hok⟩

variable [Float64]

theorem Act.sound {packet? : Option Packet} {guard : Guard}
    {m m' : Midcall} (h : Act packet? guard m m') (hm : m.Sound) : m'.Sound := by
  have hold : ∀ {c : Connection} {e : Established} {hand w}, m = ⟨c, hand, w⟩ →
      c.state = .connected e → e.Sound := by
    rintro c e hand w rfl hs
    exact hm e (established_connected hs)
  intro e' he'
  cases h with
  | sends h => exact h.sound hm e' he'
  | book h =>
      refine hm e' ?_
      rw [← he']
      show ConnState.established _ = ConnState.established _
      rw [h.state]
  | emitState | emitReset | emitSyn | endOfStream | closedRead => exact hm e' he'
  | backOff hs =>
      cases he'
      have h := hold rfl hs
      exact ⟨h.recvBuf, h.sendBuf, h.sentPackets.onTimeout⟩
  | beginClosing hs =>
      cases he'
      have h := hold rfl hs
      exact ⟨h.recvBuf, h.sendBuf, h.sentPackets⟩
  | recvData _ _ hs _ hw =>
      cases he'
      have h := hold rfl hs
      exact ⟨h.recvBuf.write hw, h.sendBuf, h.sentPackets⟩
  | recvFin _ _ hs _ hw =>
      cases he'
      have h := hold rfl hs
      exact ⟨h.recvBuf.write hw, h.sendBuf, h.sentPackets⟩
  | readOut _ hs hr =>
      cases he'
      have h := hold rfl hs
      exact ⟨h.recvBuf.read hr, h.sendBuf, h.sentPackets⟩
  | acked _ _ hs hok =>
      cases he'
      have h := hold rfl hs
      exact ⟨h.recvBuf, h.sendBuf, h.sentPackets.onAck hok⟩
  | close _ h =>
      refine hm e' ?_
      rw [← he']
      exact h.established.symm
  | establish =>
      cases he'
      exact ⟨ReceiveBuffer.wf_new _ _, SendBuffer.wf_new _, SentPackets.wf_new _ _⟩

theorem Act.config {packet? : Option Packet} {guard : Guard} {m m' : Midcall}
    (h : Act packet? guard m m') : m'.conn.config = m.conn.config := by
  cases h with
  | sends h => cases h <;> rfl
  | book h => exact h.config
  | _ => rfl

end UtpGo
