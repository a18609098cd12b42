/-
UtpGo/Socket.lean

The socket: `utp_socket.go`, with the ids of `cid.go` and the events of
`event.go`.  A socket keeps a table of its connections, by the hash of their
ids, and two maps through which requests to accept a connection and SYNs that
arrive meet in either order, each with a time wheel that lets its entries
expire.

A packet that arrives carries one id.  `cidFromPacket` reads it in three ways,
and `handleIncomingBuf` hands the packet to the first connection that one of
these readings names.

The channels of streams, the streams and the requests are numbered in the
order in which they are made.  A stream starts its event loop when it is made.
The hash of an id is a parameter (`CidHash`), and so is the type of peers.
-/
import UtpGo.ConnExit

namespace UtpGo

open Checked

/-! ### Ids -/

deriving instance DecidableEq for ConnectionId

/-- `ConnectionId`, with its peer. -/
structure Cid (π : Type) extends ConnectionId where
  peer : π
  deriving DecidableEq

/-- The hash function of the source, a parameter of the model. -/
class CidHash (π : Type) (κ : outParam Type) where
  hash : Cid π → κ

/-- The hash by which the tables of a socket know an id. -/
def genHash {π κ : Type} [CidHash π κ] (cid : Cid π) : κ := CidHash.hash cid

def newConnectionId {π : Type} (peer : π) (recvId sendId : Uint16) : Cid π :=
  { send := sendId, recv := recvId, peer }

inductive IdType where
  | recvId
  | sendIdWeInitiated
  | sendIdPeerInitiated

/-- The order in which the readings of an id are tried. -/
def cidTypes : List IdType := [.sendIdPeerInitiated, .sendIdWeInitiated, .recvId]

def cidFromPacket {π : Type} (packet : Packet) (src : π) (idType : IdType) : Cid π :=
  let id := packet.header.connectionId
  match idType with
  | .recvId =>
      match packet.header.packetType with
      | .st_syn => newConnectionId src (id + 1) id
      | .st_state | .st_data | .st_fin | .st_reset => newConnectionId src id (id - 1)
  | .sendIdWeInitiated => newConnectionId src id (id + 1)
  | .sendIdPeerInitiated => newConnectionId src (id - 1) id

/-! ### State -/

/-- `AWAITING_CONNECTION_TIMEOUT`. -/
def awaitingConnectionTimeout : Duration := 20 * second

/-- The capacity of the channels of streams. -/
def streamEventsCap : Nat := 1000

inductive StreamEvent where
  | incoming (packet : Packet)
  | shutdown
  deriving DecidableEq

/-- Where a packet goes: to the peer of a connection, or to a peer. -/
inductive Target (π : Type) where
  | cid (cid : Cid π)
  | peer (peer : π)
  deriving DecidableEq

/-- `socketEvent`. -/
inductive SocketMsg (π : Type) where
  | outgoing (packet : Packet) (target : Target π)
  | shutdown (cid : Cid π)
  deriving DecidableEq

/-- The event that a connection hands to its socket. -/
def SocketEvent.toMsg {π : Type} (cid : Cid π) : SocketEvent → SocketMsg π
  | .outgoing packet => .outgoing packet (.cid cid)
  | .shutdown => .shutdown cid

/-- A request to accept a connection; `stream` is the number of the request,
and stands for the channel on which its result is sent. -/
structure Accept (π : Type) where
  stream : Nat
  config : ConnectionConfig
  cid : Option (Cid π)

inductive AcceptError where
  | noIncomingConn
  | cidUnavailable
  | connectionFailed
  deriving DecidableEq

structure IncomingPacket (π : Type) where
  pkt : Packet
  cid : Cid π

structure IncomingPacketRaw (π : Type) where
  peer : π
  payload : Bytes

/-- A stream with its connection, and the request that it answers. -/
structure UtpStream (π : Type) where
  cid : Cid π
  syn : Option Packet
  streamEvents : Nat
  accept : Option (Accept π)
  loop : LoopState

structure UtpSocket (π κ : Type) [LinearOrder κ] where
  conns : OrdMap κ Nat
  accepts : List (Accept π)
  acceptsWithCidCh : List (Accept π)
  socketEvents : List (SocketMsg π)
  awaiting : OrdMap κ (Accept π)
  awaitingExpirations : TimeWheel κ (Accept π)
  incomingConns : OrdMap κ (IncomingPacket π)
  incomingConnsExpirations : TimeWheel κ (IncomingPacket π)
  /-- What waits in the channels of streams. -/
  chans : List (List StreamEvent)
  streams : List (UtpStream π)
  /-- The requests made so far, and those the event loop has received. -/
  requests : List (Accept π)
  taken : List (Accept π)
  /-- The goroutines that wait for a connection to answer a request. -/
  answering : List (Nat × Accept π)
  /-- What was sent on the channels of requests: a stream or an error. -/
  results : List (Nat × Except AcceptError Nat)
  /-- What was passed to `WriteTo` of the underlying socket. -/
  written : List (Bytes × π)

variable {π κ : Type} [LinearOrder κ]

/-- `WithSocket`. -/
def withSocket : UtpSocket π κ where
  conns := .empty
  accepts := []
  acceptsWithCidCh := []
  socketEvents := []
  awaiting := .empty
  awaitingExpirations := newTimeWheel (2 * second) 20
  incomingConns := .empty
  incomingConnsExpirations := newTimeWheel (2 * second) 20
  chans := []
  streams := []
  requests := []
  taken := []
  answering := []
  results := []
  written := []

namespace UtpSocket

/-! ### Tables -/

def getConnStream (s : UtpSocket π κ) (key : κ) : Option Nat := s.conns.get? key

def putConnStream (s : UtpSocket π κ) (key : κ) (streamCh : Nat) : UtpSocket π κ :=
  { s with conns := s.conns.insert key streamCh }

def removeConnStream (s : UtpSocket π κ) (key : κ) : UtpSocket π κ :=
  { s with conns := s.conns.erase key }

def getAwaiting (s : UtpSocket π κ) (key : κ) : Option (Accept π) := s.awaiting.get? key

def putAwaiting (s : UtpSocket π κ) (key : κ) (accept : Accept π) : UtpSocket π κ :=
  { s with
    awaiting := s.awaiting.insert key accept
    awaitingExpirations := s.awaitingExpirations.put key accept awaitingConnectionTimeout }

def removeAwaiting (s : UtpSocket π κ) (key : κ) : UtpSocket π κ :=
  { s with
    awaiting := s.awaiting.erase key
    awaitingExpirations := s.awaitingExpirations.remove key }

def putIncomingConn (s : UtpSocket π κ) (key : κ) (incomingConn : IncomingPacket π) :
    UtpSocket π κ :=
  { s with
    incomingConns := s.incomingConns.insert key incomingConn
    incomingConnsExpirations :=
      s.incomingConnsExpirations.put key incomingConn awaitingConnectionTimeout }

def removeIncomingConn (s : UtpSocket π κ) (key : κ) :
    Option (IncomingPacket π) × UtpSocket π κ :=
  match s.incomingConns.get? key with
  | some incomingConn =>
      (some incomingConn, { s with
        incomingConns := s.incomingConns.erase key
        incomingConnsExpirations := s.incomingConnsExpirations.remove key })
  | none => (none, s)

/-- One tick of the wheel of requests.  The order in which the keys are
removed does not matter. -/
def expireAwaiting (s : UtpSocket π κ) : UtpSocket π κ :=
  { s with
    awaiting := s.awaitingExpirations.due.foldl (fun m item => m.erase item.1) s.awaiting
    awaitingExpirations := s.awaitingExpirations.tick }

/-- One tick of the wheel of SYNs. -/
def expireIncoming (s : UtpSocket π κ) : UtpSocket π κ :=
  { s with
    incomingConns :=
      s.incomingConnsExpirations.due.foldl (fun m item => m.erase item.1) s.incomingConns
    incomingConnsExpirations := s.incomingConnsExpirations.tick }

/-! ### Streams -/

/-- `make(chan *streamEvent, 1000)`, and the number of the channel. -/
def makeChan (s : UtpSocket π κ) : UtpSocket π κ × Nat :=
  ({ s with chans := s.chans ++ [[]] }, s.chans.length)

/-- A send on the channel of a stream that is skipped when it is full. -/
def offer (s : UtpSocket π κ) (ch : Nat) (event : StreamEvent) : UtpSocket π κ :=
  { s with chans := s.chans.modify ch fun queue =>
      if queue.length < streamEventsCap then queue ++ [event] else queue }

/-- `NewUtpStream`. -/
def newUtpStream (s : UtpSocket π κ) (cid : Cid π) (config : ConnectionConfig)
    (syn : Option Packet) (streamEvents : Nat) (accept : Option (Accept π)) (rnd : Uint16)
    (now : Time) : UtpSocket π κ :=
  let conn := (newConnection cid.toConnectionId config syn rnd now).start now
  { s with
    streams := s.streams ++ [{ cid, syn, streamEvents, accept, loop := .waiting conn }]
    socketEvents := s.socketEvents ++ conn.socketEvents.map (SocketEvent.toMsg cid) }

/-- Send a result on the channel of a request. -/
def answer (s : UtpSocket π κ) (accept : Accept π) (result : Except AcceptError Nat) :
    UtpSocket π κ :=
  { s with results := s.results ++ [(accept.stream, result)] }

variable [CidHash π κ]

def getConnStreamWithCids (s : UtpSocket π κ) (cid : Cid π) : Option Nat :=
  s.conns.get? (genHash cid)

/-- A stream that connects, once its id was found to be free. -/
def startConnected (s : UtpSocket π κ) (cid : Cid π) (config : ConnectionConfig)
    (streamEvents : Nat) (rnd : Uint16) (now : Time) : UtpSocket π κ :=
  (s.putConnStream (genHash cid) streamEvents).newUtpStream cid config none streamEvents none
    rnd now

/-- `ConnectWithCid`, as far as the stream. -/
def connectWithCid (s : UtpSocket π κ) (cid : Cid π) (config : ConnectionConfig) (rnd : Uint16)
    (now : Time) : UtpSocket π κ :=
  match s.getConnStream (genHash cid) with
  | some _ => s
  | none =>
      let (s, streamEvents) := s.makeChan
      s.startConnected cid config streamEvents rnd now

/-- `GenerateCid`, with the numbers that are drawn until one is free. -/
def generateCid (s : UtpSocket π κ) (peer : π) (isInitiator : Bool) (eventCh : Option Nat) :
    List Uint16 → Option (Cid π × UtpSocket π κ)
  | [] => none
  | recv :: rnds =>
      let send := if isInitiator then recv + 1 else recv - 1
      let cid := newConnectionId peer recv send
      match s.getConnStream (genHash cid) with
      | some _ => generateCid s peer isInitiator eventCh rnds
      | none => some (cid, eventCh.elim s (s.putConnStream (genHash cid)))

/-- `Connect`, as far as the stream. -/
def connect (s : UtpSocket π κ) (peer : π) (config : ConnectionConfig) (rnds : List Uint16)
    (rnd : Uint16) (now : Time) : Option (UtpSocket π κ) := do
  let (s, streamEvents) := s.makeChan
  let (cid, s) ← s.generateCid peer true (some streamEvents) rnds
  pure (s.startConnected cid config streamEvents rnd now)

/-- A stream for a SYN and the request that accepts it. -/
def startAccepted (s : UtpSocket π κ) (cid : Cid π) (syn : Packet) (accept : Accept π)
    (rnd : Uint16) (now : Time) : UtpSocket π κ :=
  let (s, streamEvents) := s.makeChan
  let s := s.putConnStream (genHash cid) streamEvents
  let s := s.newUtpStream cid accept.config (some syn) streamEvents (some accept) rnd now
  { s with answering := s.answering ++ [(s.streams.length - 1, accept)] }

def selectAcceptHelper (s : UtpSocket π κ) (cid : Cid π) (syn : Packet) (accept : Accept π)
    (rnd : Uint16) (now : Time) : UtpSocket π κ :=
  match s.getConnStream (genHash cid) with
  | some _ => s.answer accept (.error .cidUnavailable)
  | none => s.startAccepted cid syn accept rnd now

/-- `awaitConnected`.  The connection of an acceptor sends its result and does
not close the channel. -/
def awaitConnected (s : UtpSocket π κ) (i : Nat) : GoM (UtpSocket π κ) :=
  match s.answering[i]? with
  | none => pure s
  | some (n, accept) =>
      match accept.cid, s.streams[n]?.bind (·.loop.conn.connectedCh.head?) with
      | none, _ => throw .nilDereference
      | some _, none => pure s
      | some _, some err =>
          let result := if err.isNone then .ok n else .error .connectionFailed
          pure { s.answer accept result with answering := s.answering.eraseIdx i }

/-! ### Packets that arrive -/

/-- The channel of the first connection that a reading of the id names. -/
def route (s : UtpSocket π κ) (packet : Packet) (peer : π) : Option Nat :=
  cidTypes.findSome? fun idType => s.getConnStreamWithCids (cidFromPacket packet peer idType)

/-- What becomes of a packet for which there is no connection. -/
def handleUnrouted (s : UtpSocket π κ) (packet : Packet) (peer : π) (rnd : Uint16) (now : Time) :
    UtpSocket π κ :=
  if packet.header.packetType ≠ .st_syn then
    if packet.header.packetType ≠ .st_reset then
      let resetPacket := (newPacketBuilder .st_reset packet.header.connectionId (nowMicro now)
        100000 rnd).build
      { s with socketEvents := s.socketEvents ++ [.outgoing resetPacket (.peer peer)] }
    else s
  else
    let cid := cidFromPacket packet peer .recvId
    let cidHash := genHash cid
    match s.getAwaiting cidHash with
    | some accept => (s.removeAwaiting cidHash).startAccepted cid packet accept rnd now
    | none => s.putIncomingConn cidHash { pkt := packet, cid }

def handleIncomingBuf (s : UtpSocket π κ) (incomingRaw : IncomingPacketRaw π) (rnd : Uint16)
    (now : Time) : UtpSocket π κ :=
  match decodePacket incomingRaw.payload with
  | .error _ => s
  | .ok packet =>
      match s.route packet incomingRaw.peer with
      | some connStream => s.offer connStream (.incoming packet)
      | none => s.handleUnrouted packet incomingRaw.peer rnd now

/-! ### Requests -/

omit [CidHash π κ] in
/-- `AcceptWithCid`, as far as the request. -/
def acceptWithCid (s : UtpSocket π κ) (cid : Cid π) (config : ConnectionConfig) :
    UtpSocket π κ :=
  let accept : Accept π := { stream := s.requests.length, config, cid := some cid }
  { s with
    requests := s.requests ++ [accept]
    acceptsWithCidCh := s.acceptsWithCidCh ++ [accept] }

omit [CidHash π κ] in
/-- `Accept`, as far as the request. -/
def accept (s : UtpSocket π κ) (config : ConnectionConfig) : UtpSocket π κ :=
  let accept : Accept π := { stream := s.requests.length, config, cid := none }
  { s with
    requests := s.requests ++ [accept]
    accepts := s.accepts ++ [accept] }

def handleNewAcceptWithCidEvent (s : UtpSocket π κ) (acceptWithCid : Accept π) (rnd : Uint16)
    (now : Time) : GoM (UtpSocket π κ) :=
  match acceptWithCid.cid with
  | none => throw .nilDereference
  | some cid =>
      let incomingConnsKey := genHash cid
      match s.removeIncomingConn incomingConnsKey with
      | (some incomingConn, s) =>
          pure (s.selectAcceptHelper cid incomingConn.pkt acceptWithCid rnd now)
      | (none, s) => pure (s.putAwaiting incomingConnsKey acceptWithCid)

omit [CidHash π κ] in
/-- The entry that the range over the map yields first.  The order of a Go map
is not defined: it is the entry of `first`, if there is one. -/
def nextIncomingConn (s : UtpSocket π κ) (first : κ) :
    Option (IncomingPacket π) × UtpSocket π κ :=
  if s.incomingConns.contains first then s.removeIncomingConn first
  else match s.incomingConns.keys with
    | [] => (none, s)
    | key :: _ => s.removeIncomingConn key

def handleNewAcceptEvent (s : UtpSocket π κ) (accept : Accept π) (first : κ) (rnd : Uint16)
    (now : Time) : UtpSocket π κ :=
  match s.nextIncomingConn first with
  | (some incomingAccept, s) =>
      s.selectAcceptHelper incomingAccept.cid incomingAccept.pkt accept rnd now
  | (none, s) => s.answer accept (.error .noIncomingConn)

/-! ### Close and the write loop -/

omit [CidHash π κ] in
/-- `sendShutdownEventToConns`.  A send waits while its channel is full: this
is the step in which there is room in each. -/
def sendShutdownEventToConns (s : UtpSocket π κ) : UtpSocket π κ :=
  if s.conns.values.all fun ch => (s.chans.getD ch []).length < streamEventsCap then
    { s with chans :=
        s.conns.values.foldl (fun chans ch => chans.modify ch (· ++ [.shutdown])) s.chans }
  else s

omit [LinearOrder κ] [CidHash π κ] in
/-- The peer to which a packet is written. -/
def targetPeer : Target π → π
  | .cid cid => cid.peer
  | .peer peer => peer

/-- One pass of `writeLoop`. -/
def writeLoop (s : UtpSocket π κ) : UtpSocket π κ :=
  match s.socketEvents with
  | [] => s
  | .outgoing packet target :: rest =>
      { s with
        socketEvents := rest
        written := s.written ++ [(packet.encode, targetPeer target)] }
  | .shutdown cid :: rest => { s with socketEvents := rest }.removeConnStream (genHash cid)

/-! ### Turns of the streams -/

omit [CidHash π κ] in
/-- What a stream hands to the socket in a turn of its loop. -/
def news (cid : Cid π) (before after : LoopState) : List (SocketMsg π) :=
  (after.conn.socketEvents.drop before.conn.socketEvents.length).map (SocketEvent.toMsg cid)

omit [CidHash π κ] in
/-- The loop of a stream serves an event. -/
def serve [Float64] (s : UtpSocket π κ) (i : Nat) (ev : LoopEvent) : GoM (UtpSocket π κ) :=
  match s.streams[i]? with
  | none => pure s
  | some st => do
      let loop ← Connection.serve st.loop ev
      pure { s with
        streams := s.streams.set i { st with loop }
        socketEvents := s.socketEvents ++ news st.cid st.loop loop }

omit [CidHash π κ] in
/-- The loop of a stream receives from its channel.  A shutdown event sets the
flag of the stream, and the shutdown follows in the same turn. -/
def receive [Float64] (s : UtpSocket π κ) (i : Nat) (shutdown : Bool) (rnd : Uint16)
    (now : Time) : GoM (UtpSocket π κ) :=
  match s.streams[i]? with
  | none => pure s
  | some st =>
      match s.chans.getD st.streamEvents [] with
      | [] => pure s
      | event :: rest =>
          let turn : Connection.Turn := match event with
            | .incoming packet => ⟨.onPacket packet now rnd, shutdown, now⟩
            | .shutdown => ⟨.shutdown now, true, now⟩
          { s with chans := s.chans.set st.streamEvents rest }.serve i (.turn turn)

end UtpSocket

/-- A hash for examples: the ids and the peer as one number. -/
@[reducible] def plainHash : CidHash Nat Nat where
  hash cid := cid.send.toNat + 65536 * (cid.recv.toNat + 65536 * cid.peer)

end UtpGo
