/-
UtpGo/Conn.lean

The connection: `conn.go`.  A connection is connecting, connected with its
buffers, or closed; every event of its loop (a packet, a write, a timeout, a
shutdown) runs one of the handlers below to its end.

Channels are histories of what was sent on them, except the three that carry
only signals (`readable`, `writable`, with their capacity) and the queue of
timed-out packets, which the loop itself receives from.  Each handler reads
the clock once, at its start.
-/
import UtpGo.DelaySet
import UtpGo.RecvBuffer
import UtpGo.SendBuffer
import UtpGo.SentPackets

namespace UtpGo

open Checked

/-! ### Configuration -/

structure ConnectionConfig where
  maxPacketSize : Uint16
  maxConnAttempts : Int
  maxIdleTimeout : Duration
  initialTimeout : Duration
  minTimeout : Duration
  maxTimeout : Duration
  targetDelay : Duration
  windowSize : Uint32
  bufferSize : Nat

/-- `NewConnectionConfig`. -/
def newConnectionConfig : ConnectionConfig where
  maxConnAttempts := 6
  maxIdleTimeout := 60 * second
  maxPacketSize := BitVec.ofNat 16 defaultMaxPacketSizeBytes
  initialTimeout := defaultCtrlConfig.initialTimeout
  minTimeout := defaultCtrlConfig.minTimeout
  maxTimeout := defaultCtrlConfig.maxTimeout
  targetDelay := 100 * millisecond
  windowSize := 1024 * 1024
  bufferSize := 1024 * 1024

def fromConnConfig (config : ConnectionConfig) : CtrlConfig :=
  { defaultCtrlConfig with
    maxPacketSizeBytes := config.maxPacketSize.setWidth 32
    initialTimeout := config.initialTimeout
    minTimeout := config.minTimeout
    maxTimeout := config.maxTimeout
    targetDelayMicros := BitVec.ofInt 32 (microseconds config.targetDelay)
    windowSize := config.windowSize }

/-! ### State -/

inductive ConnError where
  | errEmptyDataPayload
  | errInvalidAckNum
  | errInvalidFin
  | errInvalidSeqNum
  | errInvalidSyn
  | errReset
  | errSynFromAcceptor
  | errTimedOut
  deriving DecidableEq, Repr

inductive EndpointType where
  | initiator
  | acceptor
  deriving DecidableEq, Repr

structure Endpoint where
  type : EndpointType
  synNum : Uint16
  synAck : Uint16
  attempts : Int

structure ClosingRecord where
  localFin : Option Uint16
  remoteFin : Option Uint16

/-- What a connection has from the handshake on. -/
structure Established where
  recvBuf : ReceiveBuffer
  sendBuf : SendBuffer
  sentPackets : SentPackets
  closing : Option ClosingRecord

/-- A closed connection keeps the buffers it had. -/
inductive ConnState where
  | connecting
  | connected (e : Established)
  | closed (e : Option Established) (err : Option ConnError)

structure ConnectionId where
  send : Uint16
  recv : Uint16

structure QueuedWrite where
  data : Bytes
  written : Nat
  resultCh : Nat

inductive ResultError where
  | eof
  | conn (err : ConnError)
  deriving DecidableEq, Repr

structure ReadOrWriteResult where
  err : Option ResultError := none
  len : Nat := 0
  data : Bytes := []
  deriving DecidableEq, Repr

inductive SocketEvent where
  | outgoing (packet : Packet)
  | shutdown
  deriving DecidableEq

structure Connection where
  state : ConnState
  /-- What was signalled on `connectedCh`; `none` stands for success, for which
  an acceptor sends nil and an initiator closes the channel. -/
  connectedCh : List (Option ConnError)
  cid : ConnectionId
  config : ConnectionConfig
  endpoint : Endpoint
  peerTsDiff : Int
  peerRecvWindow : Uint32
  socketEvents : List SocketEvent
  unacked : TimeWheel Uint16 Packet
  unackTimeoutCh : List Packet
  reads : List ReadOrWriteResult
  readable : Nat
  pendingWrites : List QueuedWrite
  /-- What was sent on the writes' `resultCh`. -/
  results : List (Nat × ReadOrWriteResult)
  writable : Nat
  latestTimeout : Option Time
  synState : Option Packet

/-- `time.UnixMicro`. -/
def unixMicro (now : Time) : Int := now / 1000

/-- `NowMicro`. -/
def nowMicro (now : Time) : Uint32 := BitVec.ofInt 32 (unixMicro now)

/-- A send on a channel of capacity three that is skipped when it is full. -/
def signal (pendingSignals : Nat) : Nat := min (pendingSignals + 1) 3

def ReadOrWriteResult.ofConnErr (err : Option ConnError) : ReadOrWriteResult :=
  { err := err.map .conn }

/-- `newConnection`; `rnd` is the random number drawn for the handshake. -/
def newConnection (cid : ConnectionId) (config : ConnectionConfig) (syn : Option Packet)
    (rnd : Uint16) (now : Time) : Connection where
  state := .connecting
  connectedCh := []
  cid := cid
  config := config
  endpoint := match syn with
    | some syn => ⟨.acceptor, syn.header.seqNum, rnd, 0⟩
    | none => ⟨.initiator, rnd, 0, 0⟩
  peerTsDiff := match syn with
    | some syn => (unixMicro now - syn.header.timestamp) * 1000
    | none => 0
  peerRecvWindow := match syn with
    | some syn => syn.header.wndSize
    | none => BitVec.allOnes 32
  socketEvents := []
  unacked := newTimeWheel (config.initialTimeout / 4) 8
  unackTimeoutCh := []
  reads := []
  readable := 0
  pendingWrites := []
  results := []
  writable := 0
  latestTimeout := none
  synState := none

namespace Connection

def tsDiffMicros (c : Connection) : Uint32 := BitVec.ofInt 32 (microseconds c.peerTsDiff)

/-- Send a packet to the socket. -/
def emit (c : Connection) (packet : Packet) : Connection :=
  { c with socketEvents := c.socketEvents ++ [.outgoing packet] }

/-! ### Packets -/

def synPacket (c : Connection) (seqNum : Uint16) (now : Time) : Packet :=
  (newPacketBuilder .st_syn c.cid.recv (nowMicro now) c.config.windowSize seqNum).build

/-- `uint32(RecvBuf.Available())`. -/
def recvWindow (e : Established) : Uint32 := BitVec.ofInt 32 e.recvBuf.available

def statePacket (c : Connection) (now : Time) : Option Packet :=
  match c.state with
  | .connecting =>
      match c.endpoint.type with
      | .initiator => none
      | .acceptor =>
          some ((newPacketBuilder .st_state c.cid.send (nowMicro now) c.config.windowSize
            c.endpoint.synAck).withTsDiffMicros c.tsDiffMicros
              |>.withAckNum c.endpoint.synNum |>.build)
  | .connected e =>
      some ((newPacketBuilder .st_state c.cid.send (nowMicro now) (recvWindow e)
        e.sentPackets.nextSeqNum).withTsDiffMicros c.tsDiffMicros
          |>.withAckNum e.recvBuf.ackNum |>.withSelectiveAck e.recvBuf.selectiveAck |>.build)
  | .closed _ _ => none

def finPacket (c : Connection) (e : Established) (now : Time) : Packet :=
  (newPacketBuilder .st_fin c.cid.send (nowMicro now) (recvWindow e) e.sentPackets.nextSeqNum)
    |>.withAckNum e.recvBuf.ackNum |>.withSelectiveAck e.recvBuf.selectiveAck |>.build

/-! ### Start of the event loop -/

/-- The state once the handshake is done. -/
def establish (config : ConnectionConfig) (recvInit sentInit : Uint16) : Established where
  recvBuf := newReceiveBuffer config.bufferSize recvInit
  sendBuf := newSendBuffer config.bufferSize
  sentPackets := newSentPackets sentInit (newDefaultController (fromConnConfig config))
  closing := none

/-- The start of `eventLoop`: the initiator sends its SYN, the acceptor its
STATE, with which it is connected. -/
def start (c : Connection) (now : Time) : Connection :=
  match c.endpoint.type with
  | .initiator =>
      let synPkt := c.synPacket c.endpoint.synNum now
      { c.emit synPkt with
        unacked := c.unacked.put c.endpoint.synNum synPkt c.config.initialTimeout
        endpoint := { c.endpoint with attempts := 1 } }
  | .acceptor =>
      let synState := c.statePacket now
      { synState.elim c c.emit with
        synState
        connectedCh := c.connectedCh ++ [none]
        state := .connected (establish c.config c.endpoint.synNum (c.endpoint.synAck - 1)) }

/-! ### Transmitting -/

/-- `transmit`, which is called on connected connections only. -/
def transmit (c : Connection) (packet : Packet) (now : Time) : GoM Connection :=
  match c.state with
  | .connected e => do
      let sentPackets ← e.sentPackets.onTransmit packet.header.seqNum packet.header.packetType
        packet.body (BitVec.ofNat 32 packet.body.length) now
      pure ({ c with
        state := .connected { e with sentPackets }
        unacked := c.unacked.put packet.header.seqNum packet sentPackets.timeout }.emit packet)
  | _ => throw .nilDereference

/-- Set the closing record of a connected connection. -/
def setClosing (c : Connection) (closing : ClosingRecord) : Connection :=
  match c.state with
  | .connected e => { c with state := .connected { e with closing := some closing } }
  | _ => c

def shutdown (c : Connection) (now : Time) : GoM Connection :=
  match c.state with
  | .connecting => pure { c with state := .closed none none }
  | .closed _ _ => pure c
  | .connected e =>
      match e.closing with
      | some closing =>
          if closing.localFin = none ∧ c.pendingWrites.length = 0 ∧ e.sendBuf.isEmpty then
            let seqNum := e.sentPackets.nextSeqNum
            (c.setClosing { closing with localFin := some seqNum }).transmit (c.finPacket e now) now
          else pure c
      | none =>
          if c.pendingWrites.length = 0 ∧ e.sendBuf.isEmpty then do
            let seqNum := e.sentPackets.nextSeqNum
            let c ← c.transmit (c.finPacket e now) now
            pure (c.setClosing { localFin := some seqNum, remoteFin := none })
          else pure (c.setClosing { localFin := none, remoteFin := none })

/-! ### Writes -/

/-- The loop of `processWrites` that takes payloads from the send buffer.
Every pass but the last takes a byte, so one pass more than there are bytes
is enough. -/
def readPayloads (maxData : Uint32) :
    Nat → Uint32 → SendBuffer → GoM (List Bytes × SendBuffer)
  | 0, _, sb => pure ([], sb)
  | fuel + 1, windowSize, sb =>
      if windowSize > 0 then do
        let maxDataSize := min windowSize maxData
        let (data, sb) ← sb.read maxDataSize.toNat
        if data.length = 0 then pure ([], sb)
        else do
          let (payloads, sb) ← readPayloads maxData fuel
            (windowSize - BitVec.ofNat 32 data.length) sb
          pure (data :: payloads, sb)
      else pure ([], sb)

/-- What moving pending writes to the send buffer changes. -/
structure Refill where
  sendBuf : SendBuffer
  pendingWrites : List QueuedWrite
  results : List (Nat × ReadOrWriteResult)
  writable : Nat

/-- The loop of `processWrites` that fills the send buffer.  Every pass
removes a write or uses up the space. -/
def refillLoop : Nat → Refill → GoM Refill
  | 0, r => pure r
  | fuel + 1, r =>
      match r.pendingWrites with
      | [] => pure r
      | writeReq :: rest =>
          let bufSpace := r.sendBuf.available
          if bufSpace ≤ 0 then pure r
          else if (writeReq.data.length : Int) ≤ bufSpace then do
            let (sendBuf, _) ← r.sendBuf.write writeReq.data
            refillLoop fuel {
              sendBuf
              pendingWrites := rest
              results := r.results ++
                [(writeReq.resultCh, { len := writeReq.data.length + writeReq.written })]
              writable := signal r.writable }
          else do
            let nextWrite ← slice writeReq.data 0 bufSpace.toNat
            let remainingData ← slice writeReq.data bufSpace.toNat writeReq.data.length
            let (sendBuf, _) ← r.sendBuf.write nextWrite
            refillLoop fuel { r with
              sendBuf
              pendingWrites := { writeReq with
                data := remainingData, written := writeReq.written + bufSpace.toNat } :: rest
              writable := signal r.writable }

/-- The packet of a payload in `processWrites`. -/
def dataPacket (c : Connection) (e : Established) (seqNum : Uint16) (payload : Bytes)
    (now : Time) : Packet :=
  (newPacketBuilder .st_data c.cid.send (nowMicro now) (recvWindow e) seqNum)
    |>.withPayload payload |>.withTsDiffMicros c.tsDiffMicros |>.withAckNum e.recvBuf.ackNum
    |>.withSelectiveAck e.recvBuf.selectiveAck |>.build

/-- The loop of `processWrites` that transmits; `e` is the state before it,
from which the header fields are taken. -/
def transmitPayloads (e : Established) (now : Time) :
    List Bytes → Uint16 → Connection → GoM Connection
  | [], _, c => pure c
  | payload :: payloads, seqNum, c => do
      let c ← c.transmit (c.dataPacket e seqNum payload now) now
      transmitPayloads e now payloads (seqNum + 1) c

def processWrites (c : Connection) (now : Time) : GoM Connection :=
  match c.state with
  | .connecting => pure c
  | .closed _ err =>
      pure { c with results := c.results ++
        c.pendingWrites.map fun w => (w.resultCh, .ofConnErr err) }
  | .connected e => do
      let windowSize := min e.sentPackets.window c.peerRecvWindow
      let maxData := (c.config.maxPacketSize - 64).setWidth 32
      let (payloads, sendBuf) ← readPayloads maxData (e.sendBuf.unread.length + 1) windowSize
        e.sendBuf
      let r ← refillLoop (c.pendingWrites.length + 1)
        { sendBuf, pendingWrites := c.pendingWrites, results := c.results, writable := c.writable }
      let e := { e with sendBuf := r.sendBuf }
      transmitPayloads e now payloads e.sentPackets.nextSeqNum { c with
        state := .connected e
        pendingWrites := r.pendingWrites
        results := r.results
        writable := r.writable }

/-- The write is queued, not answered at once. -/
def acceptsWrite (c : Connection) : Bool :=
  match c.state with
  | .connecting => true
  | .connected e =>
      match e.closing with
      | some closing => closing.localFin = none ∧ closing.remoteFin ≠ none
      | none => true
  | .closed _ _ => false

/-- The answer to a write that is not queued. -/
def rejectResult (c : Connection) : ReadOrWriteResult :=
  match c.state with
  | .closed _ err => .ofConnErr err
  | _ => {}

def onWrite (c : Connection) (data : Bytes) (resultCh : Nat) (now : Time) : GoM Connection := do
  let c := if c.acceptsWrite then
      { c with pendingWrites := c.pendingWrites ++ [{ data, written := 0, resultCh }] }
    else { c with results := c.results ++ [(resultCh, c.rejectResult)] }
  let c ← c.processWrites now
  pure { c with writable := signal c.writable }

/-! ### Reads -/

/-- The loop of `processReads`: the chunks read.  Every pass but the last
takes a byte. -/
def readLoop (bufLen : Nat) : Nat → ReceiveBuffer → GoM (List Bytes × ReceiveBuffer)
  | 0, rb => pure ([], rb)
  | fuel + 1, rb =>
      if rb.isEmpty then pure ([], rb)
      else do
        let (data, rb) ← rb.read bufLen
        if data.length = 0 then pure ([], rb)
        else do
          let (chunks, rb) ← readLoop bufLen fuel rb
          pure (data :: chunks, rb)

/-- The buffer handed to the reader has the full packet size, the data in
front. -/
def readResult (config : ConnectionConfig) (data : Bytes) : ReadOrWriteResult :=
  { len := data.length
    data := data ++ List.replicate (config.maxPacketSize.toNat - data.length) 0 }

def eof (c : Connection) : Bool :=
  match c.state with
  | .connecting => false
  | .connected e =>
      match e.closing.bind (·.remoteFin) with
      | some remoteFin => e.recvBuf.ackNum = remoteFin
      | none => false
  | .closed _ _ => true

/-- The end of the stream, reported after the data. -/
def pushEof (c : Connection) : Connection :=
  if c.eof then { c with reads := c.reads ++ [{ err := some .eof }] } else c

def processReads (c : Connection) : GoM Connection :=
  match c.state with
  | .connecting => pure c
  | .closed _ err => pure { c with reads := c.reads ++ [.ofConnErr err] }
  | .connected e => do
      let (chunks, recvBuf) ← readLoop c.config.maxPacketSize.toNat (e.recvBuf.offset + 1)
        e.recvBuf
      pure (pushEof { c with
        state := .connected { e with recvBuf }
        reads := c.reads ++ chunks.map (readResult c.config) })

/-! ### Timeouts -/

/-- The packet `onTimeout` sends: the old header with the fields of now.  The
extension byte is the old one, the selective acknowledgement is new. -/
def retransmissionPacket (c : Connection) (e : Established) (originPacket : Packet)
    (now : Time) : Packet where
  header := {
    packetType := originPacket.header.packetType
    version := originPacket.header.version
    extension := originPacket.header.extension
    connectionId := originPacket.header.connectionId
    timestamp := unixMicro now
    timestampDiff := c.tsDiffMicros
    wndSize := recvWindow e
    seqNum := originPacket.header.seqNum
    ackNum := e.recvBuf.ackNum }
  eack := e.recvBuf.selectiveAck
  body := originPacket.body

/-- Timeouts that follow closely upon each other count once. -/
def noteTimeout (c : Connection) (e : Established) (now : Time) : Connection :=
  let isTimeout : Bool := match c.latestTimeout with
    | some latestTimeout => now - latestTimeout > e.sentPackets.timeout
    | none => true
  if isTimeout then
    { c with
      state := .connected { e with sentPackets := e.sentPackets.onTimeout }
      latestTimeout := some now }
  else c

/-- The delay of the SYN that is sent for the `attempts`-th time: `InitialTimeout`
times the whole part of `1.5 ^ attempts`, in the 64 bits of a `time.Duration`. -/
def synBackoff (c : Connection) (attempts : Int) : Int :=
  int64 (c.config.initialTimeout * (3 ^ attempts.toNat / 2 ^ attempts.toNat) : Nat)

def onTimeout (c : Connection) (originPacket : Packet) (now : Time) : GoM Connection :=
  match c.state with
  | .connecting =>
      match c.endpoint.type with
      | .acceptor => pure c
      | .initiator =>
          if c.endpoint.attempts ≥ c.config.maxConnAttempts then
            pure { c with
              connectedCh := c.connectedCh ++ [some .errTimedOut]
              state := .closed none (some .errTimedOut) }
          else do
            let seq := c.endpoint.synNum
            let attempts := c.endpoint.attempts + 1
            let timeout := c.synBackoff attempts
            let unacked ← c.unacked.putSigned seq originPacket timeout
            pure ({ c with
              endpoint := { c.endpoint with attempts }
              unacked }.emit (c.synPacket seq now))
  | .connected e =>
      if originPacket.header.packetType = .st_syn then pure c
      else (c.noteTimeout e now).transmit (c.retransmissionPacket e originPacket now) now
  | .closed _ _ => pure c

/-- The idle timer of the event loop. -/
def onIdleTimeout (c : Connection) : Connection :=
  match c.state with
  | .closed _ _ => c
  | .connecting => { c with state := .closed none (some .errTimedOut) }
  | .connected e => { c with state := .closed (some e) (some .errTimedOut) }

/-! ### Incoming packets -/

/-- `reset`.  A connection that has sent its FIN takes a reset for a
successful close. -/
def reset (c : Connection) (err : ConnError) : Connection :=
  match c.state with
  | .connecting => { c with state := .closed none (some err) }
  | .connected e =>
      match e.closing.bind (·.localFin) with
      | some _ => { c with state := .closed (some e) none }
      | none => { c with state := .closed (some e) (some err) }
  | .closed e _ => { c with state := .closed e (some err) }

/-- The bookkeeping at the start of `onPacket`. -/
def observePeer (c : Connection) (packet : Packet) (now : Time) : Connection :=
  let peerTsDiff := 1000 * (unixMicro now - packet.header.timestampDiff.toNat)
  { c with
    peerRecvWindow := packet.header.wndSize
    peerTsDiff := if peerTsDiff > c.config.maxIdleTimeout then second else peerTsDiff }

def onSyn (c : Connection) (seqNum : Uint16) : Connection :=
  let err : Option ConnError := match c.endpoint.type with
    | .acceptor => if seqNum ≠ c.endpoint.synNum then some .errInvalidSyn else none
    | .initiator => some .errSynFromAcceptor
  match err, c.state with
  | none, _ => c
  | some _, .closed _ _ => c
  | some err, _ => c.reset err

def onState (c : Connection) (seqNum ackNum : Uint16) : Connection :=
  match c.state with
  | .connecting =>
      if c.endpoint.type = .initiator ∧ ackNum = c.endpoint.synNum then
        { c with
          connectedCh := c.connectedCh ++ [none]
          state := .connected (establish c.config (seqNum - 1) c.endpoint.synNum) }
      else c
  | _ => c

/-- The errors `onPacket` only logs. -/
inductive HandleError where
  | unreachable
  | recvBuffer (err : RecvError)

/-- A data packet beyond the FIN received. -/
def beyondFin (e : Established) (seqNum : Uint16) : Bool :=
  match e.closing.bind (·.remoteFin) with
  | some remoteFin =>
      !(newCircularRangeInclusive e.recvBuf.initSeqNum remoteFin).contains seqNum
  | none => false

def onData (c : Connection) (seqNum : Uint16) (data : Bytes) :
    GoM (Connection × Option HandleError) :=
  let c := if data.length = 0 then c.reset .errEmptyDataPayload else c
  match c.state with
  | .connecting =>
      match c.endpoint.type with
      | .acceptor => pure (c, some .unreachable)
      | .initiator => pure (c, none)
  | .connected e =>
      if beyondFin e seqNum then
        pure ({ c with state := .closed (some e) (some .errInvalidSeqNum) }, none)
      else if (data.length : Int) ≤ e.recvBuf.available then do
        let (recvBuf, err) ← e.recvBuf.write data seqNum
        pure ({ c with state := .connected { e with recvBuf } }, err.map .recvBuffer)
      else pure (c, none)
  | .closed _ _ => pure (c, none)

def onFin (c : Connection) (seqNum : Uint16) (data : Bytes) :
    GoM (Connection × Option HandleError) :=
  match c.state with
  | .connected e =>
      match e.closing with
      | some closing =>
          match closing.remoteFin with
          | some remoteFin =>
              if seqNum ≠ remoteFin then pure (c.reset .errInvalidFin, none) else pure (c, none)
          | none => do
              let (recvBuf, err) ← e.recvBuf.write data seqNum
              let closing := { closing with remoteFin := some seqNum }
              pure ({ c with state := .connected { e with recvBuf, closing := some closing } },
                err.map .recvBuffer)
      | none => do
          match ← e.recvBuf.write data seqNum with
          | (recvBuf, some err) =>
              pure ({ c with state := .connected { e with recvBuf } }, some (.recvBuffer err))
          | (recvBuf, none) =>
              let closing : ClosingRecord := { localFin := none, remoteFin := some seqNum }
              pure ({ c with state := .connected { e with recvBuf, closing := some closing } },
                none)
  | _ => pure (c, none)

def onReset (c : Connection) : Connection :=
  match c.state with
  | .closed _ _ => c
  | _ => c.reset .errReset

/-- The handler of each packet type. -/
def dispatch (c : Connection) (packet : Packet) : GoM (Connection × Option HandleError) :=
  match packet.header.packetType with
  | .st_syn => pure (c.onSyn packet.header.seqNum, none)
  | .st_state => pure (c.onState packet.header.seqNum packet.header.ackNum, none)
  | .st_data => c.onData packet.header.seqNum packet.body
  | .st_fin => c.onFin packet.header.seqNum packet.body
  | .st_reset => pure (c.onReset, none)

/-- The packet of a lost packet in `retransmitLostPackets`. -/
def lostPacket (c : Connection) (e : Established) (lost : LostPacket) (now : Time) : Packet :=
  (newPacketBuilder lost.packetType c.cid.send (nowMicro now) (recvWindow e) lost.seqNum)
    |>.withPayload lost.data |>.withTsDiffMicros c.tsDiffMicros |>.withAckNum e.recvBuf.ackNum
    |>.withSelectiveAck e.recvBuf.selectiveAck |>.build

/-- The loop of `retransmitLostPackets`; the receive buffer does not change
in it. -/
def transmitLost (e : Established) (now : Time) : List LostPacket → Connection → GoM Connection
  | [], c => pure c
  | lost :: losts, c => do
      let c ← c.transmit (c.lostPacket e lost now) now
      transmitLost e now losts c

def retransmitLostPackets (c : Connection) (now : Time) : GoM Connection :=
  match c.state with
  | .connected e =>
      if e.sentPackets.hasLostPackets then do
        let losts ← e.sentPackets.lostPacketsList
        transmitLost e now losts c
      else pure c
  | _ => pure c

/-- The STATE packet, or RESET, that answers a packet; `rnd` is the number
of the RESET. -/
def reply (c : Connection) (packet : Packet) (now : Time) (rnd : Uint16) : Connection :=
  match packet.header.packetType with
  | .st_syn =>
      match c.synState with
      | some _ => c
      | none =>
          match c.statePacket now with
          | some statePacket => { c.emit statePacket with synState := some statePacket }
          | none =>
              c.emit (newPacketBuilder .st_reset packet.header.connectionId (nowMicro now) 100000
                rnd).build
  | .st_data | .st_fin => (c.statePacket now).elim c c.emit
  | _ => c

def notify (c : Connection) (packet : Packet) : Connection :=
  { c with
    writable := if packet.header.packetType = .st_state then signal c.writable else c.writable
    readable := if packet.body.length > 0 ∨ packet.header.packetType = .st_fin
      then signal c.readable else c.readable }

/-- The first closing case of `onPacket`: the peer has acknowledged our FIN. -/
def closeLocal (c : Connection) : Connection :=
  match c.state with
  | .connected e =>
      match e.closing.bind (·.localFin) with
      | some localFin =>
          if e.sentPackets.lastAckNum = some localFin then { c with state := .closed (some e) none }
          else c
      | none => c
  | _ => c

/-- Close a connected connection without an error. -/
def closeClean (c : Connection) : Connection :=
  match c.state with
  | .connected e => { c with state := .closed (some e) none }
  | _ => c

/-- The second closing case: the peer's stream is complete and nothing is in
flight. -/
def closeRemote (c : Connection) : GoM Connection :=
  match c.state with
  | .connected e =>
      match e.closing.bind (·.remoteFin) with
      | some remoteFin =>
          if ¬ e.sentPackets.hasUnackedPackets ∧ e.recvBuf.ackNum = remoteFin then do
            let c ← c.processReads
            pure c.closeClean
          else pure c
      | none => pure c
  | _ => pure c

/-- The third closing case: both ends have sent their FIN. -/
def closeBoth (c : Connection) : Connection :=
  match c.state with
  | .connected e =>
      match e.closing.bind (·.remoteFin), e.closing.bind (·.localFin) with
      | some _, some _ => c.closeClean
      | _, _ => c
  | _ => c

variable [Float64]

def processAck (c : Connection) (ackNum : Uint16) (selectiveAck : Option SelectiveAck)
    (delay : Duration) (now : Time) : GoM (Connection × Option SentError) :=
  match c.state with
  | .connected e => do
      let (sentPackets, r) ← e.sentPackets.onAck ackNum selectiveAck delay now
      let c := { c with state := .connected { e with sentPackets } }
      match r with
      | .error .errInvalidAckNum => pure (c.reset .errInvalidAckNum, some .errInvalidAckNum)
      | .error err => pure (c, some err)
      | .ok (fullAcked, selectedAcks) =>
          let unacked := selectedAcks.foldl TimeWheel.remove (c.unacked.retain fullAcked.contains)
          pure ({ c with unacked }, none)
  | _ => pure (c, none)

/-- Acknowledgements are processed for the packets that carry one. -/
def acknowledge (c : Connection) (packet : Packet) (now : Time) :
    GoM (Connection × Option SentError) :=
  match packet.header.packetType with
  | .st_state | .st_data | .st_fin =>
      c.processAck packet.header.ackNum packet.eack (packet.header.timestampDiff.toNat * 1000) now
  | _ => pure (c, none)

/-- `onPacket`; `rnd` is the random number of a RESET. -/
def onPacket (c : Connection) (packet : Packet) (now : Time) (rnd : Uint16) :
    GoM Connection := do
  let (c, _) ← (c.observePeer packet now).dispatch packet
  let (c, _) ← c.acknowledge packet now
  let c ← c.retransmitLostPackets now
  let c ← (((c.reply packet now rnd).notify packet).closeLocal).closeRemote
  pure c.closeBoth

/-! ### Events -/

/-- The events of a connection.  `order` is the order in which a tick of the
time wheel walks over its slot. -/
inductive Event where
  | onPacket (packet : Packet) (now : Time) (rnd : Uint16)
  | onWrite (data : Bytes) (resultCh : Nat) (now : Time)
  | processWrites (now : Time)
  | processReads
  | tick (order : List (Uint16 × Packet))
  | onTimeout (now : Time)
  | onIdleTimeout
  | shutdown (now : Time)

/-- One event.  The loop receives a signal before it processes reads or
writes, and a timed-out packet before it handles the timeout. -/
def step (c : Connection) : Event → GoM Connection
  | .onPacket packet now rnd => c.onPacket packet now rnd
  | .onWrite data resultCh now => c.onWrite data resultCh now
  | .processWrites now => { c with writable := c.writable - 1 }.processWrites now
  | .processReads => { c with readable := c.readable - 1 }.processReads
  | .tick order =>
      if order.isPerm c.unacked.due then
        pure { c with
          unacked := c.unacked.tick
          unackTimeoutCh := c.unackTimeoutCh ++ order.map (·.2) }
      else pure c
  | .onTimeout now =>
      match c.unackTimeoutCh with
      | [] => pure c
      | originPacket :: rest => { c with unackTimeoutCh := rest }.onTimeout originPacket now
  | .onIdleTimeout => pure c.onIdleTimeout
  | .shutdown now => c.shutdown now

def run (c : Connection) (events : List Event) : GoM Connection := events.foldlM step c

end Connection

end UtpGo
