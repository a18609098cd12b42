/-
UtpGo/SentPackets.lean

The packets sent: `sent_packet.go`.  Every first transmission appends a
record to `packets`, which is never pruned, so the record of a number is
found at its distance from `initSeqNum + 1`.  Numbers are 16 bits wide and
the list is not: `NextSeqNum` and `SeqNumIndex` agree for the first `2 ^ 16`
packets only.

Where the source returns an error after it has changed the state, the model
returns the changed state beside the error.
-/
import UtpGo.Congestion
import UtpGo.Packet

namespace UtpGo

open Checked

def lossThreshold : Nat := 3

inductive SentError where
  | errInvalidAckNum
  | errNoneAckNum
  | errCannotFindLostPacket
  | errSentPacketMarkLost
  | controller (err : CtrlError)
  deriving DecidableEq, Repr

structure LostPacket where
  seqNum : Uint16
  packetType : PacketType
  data : Bytes

structure SentPacket where
  seqNum : Uint16
  packetType : PacketType
  data : Bytes
  transmission : Time
  retransmission : Time
  acks : List Time
  deriving DecidableEq, Repr

def SentPacket.rtt (s : SentPacket) (now : Time) : Int :=
  let lastTransmission :=
    if s.retransmission = s.transmission then s.transmission else s.retransmission
  now - lastTransmission

/-- `lostPackets` is a set, kept as a map to `Unit`. -/
structure SentPackets where
  packets : List SentPacket
  initSeqNum : Uint16
  lostPackets : OrdMap Uint16 Unit
  congestionCtrl : DefaultController

def newSentPackets (initSeqNum : Uint16) (congestionCtrl : DefaultController) : SentPackets where
  packets := []
  initSeqNum := initSeqNum
  lostPackets := .empty
  congestionCtrl := congestionCtrl

namespace SentPackets

def onTimeout (s : SentPackets) : SentPackets :=
  { s with congestionCtrl := s.congestionCtrl.onTimeout }

def nextSeqNum (s : SentPackets) : Uint16 :=
  s.initSeqNum + BitVec.ofNat 16 s.packets.length + 1

def seqNumRange (s : SentPackets) : CircularRangeInclusive :=
  newCircularRangeInclusive s.initSeqNum (s.nextSeqNum - 1)

def timeout (s : SentPackets) : Duration := s.congestionCtrl.timeout

def window (s : SentPackets) : Uint32 := s.congestionCtrl.bytesAvailableInWindow

/-- The first sequence number is `initSeqNum + 1`; the initial number itself
gets the last index. -/
def seqNumIndex (s : SentPackets) (seqNum : Uint16) : Nat :=
  if seqNum > s.initSeqNum then (seqNum - s.initSeqNum - 1).toNat
  else (65535 - s.initSeqNum + seqNum).toNat

/-- The number of the last packet before the first one not acknowledged. -/
def lastAckNum (s : SentPackets) : Option Uint16 :=
  (s.packets.takeWhile fun packetInst => packetInst.acks.length ≠ 0).getLast?.map (·.seqNum)

def firstUnackedSeqNum (s : SentPackets) : Option Uint16 :=
  match s.packets.getLast? with
  | none => none
  | some last =>
      match s.lastAckNum with
      | none => some (s.initSeqNum + 1)
      | some lastAckNum => if last.seqNum = lastAckNum then none else some (lastAckNum + 1)

def hasUnackedPackets (s : SentPackets) : Bool := s.firstUnackedSeqNum.isSome

def hasLostPackets (s : SentPackets) : Bool := s.lostPackets.size ≠ 0

/-- `LostPackets`, in increasing order of the numbers. -/
def lostPacketsList (s : SentPackets) : GoM (List LostPacket) :=
  s.lostPackets.keys.mapM fun seqNum => do
    let packetInst ← index s.packets (s.seqNumIndex seqNum)
    pure { seqNum := packetInst.seqNum, packetType := packetInst.packetType,
           data := packetInst.data }

def onTransmit (s : SentPackets) (seqNum : Uint16) (packetType : PacketType) (data : Bytes)
    (dataLen : Uint32) (now : Time) : GoM SentPackets :=
  let index := s.seqNumIndex seqNum
  let isRetransmission := index < s.packets.length
  if index > s.packets.length then throw (.raised .outOfOrder)
  else if ¬ isRetransmission ∧ dataLen > s.window then throw (.raised .exceedsSendWindow)
  else
    let packets :=
      if isRetransmission then
        s.packets.modify index fun packetInst => { packetInst with retransmission := now }
      else
        s.packets ++ [{ seqNum, packetType, data, transmission := now, retransmission := now,
                        acks := [] }]
    let transmit : Transmit := if isRetransmission then .retransmission else .initial
    match s.congestionCtrl.onTransmit seqNum transmit dataLen with
    | (_, some err) => throw (.raised (.controller err))
    | (congestionCtrl, none) => pure { s with packets, congestionCtrl }

/-- The loop of `DetectLostPackets`, from the last packet down, with the
number of acknowledged packets seen. -/
def detectLoop : List SentPacket → Nat → List Uint16
  | [], _ => []
  | packetInst :: rest, acked =>
      let lost := if packetInst.acks.length = 0 ∧ acked ≥ lossThreshold then [packetInst.seqNum]
        else []
      lost ++ detectLoop rest (if packetInst.acks.length > 0 then acked + 1 else acked)

def detectLostPackets (s : SentPackets) (firstUnacked : Uint16) : GoM (List Uint16) := do
  let packets ← slice s.packets (s.seqNumIndex firstUnacked) s.packets.length
  pure (detectLoop packets.reverse 0)

def onLost (s : SentPackets) (seqNum : Uint16) (retransmitting : Bool) :
    SentPackets × Option SentError :=
  if ¬ s.seqNumRange.contains seqNum then (s, some .errCannotFindLostPacket)
  else match s.congestionCtrl.onLostPacket seqNum retransmitting with
    | (congestionCtrl, some _) => ({ s with congestionCtrl }, some .errSentPacketMarkLost)
    | (congestionCtrl, none) => ({ s with congestionCtrl }, none)

/-- One pass of the loop over the lost packets, whose error is ignored. -/
def markLost (s : SentPackets) (seqNum : Uint16) : SentPackets :=
  ({ s with lostPackets := s.lostPackets.insert seqNum () }.onLost seqNum true).1

/-- The range `onAck` accepts numbers from: once it has come round to a
single number, all of them. -/
def ackRange (s : SentPackets) (ackNum : Uint16) : Option CircularRangeInclusive :=
  let seqRange := s.seqNumRange
  if seqRange.contains ackNum then some seqRange
  else if s.packets.length ≠ 0 ∧ seqRange.stop = seqRange.start then
    let seqRange := newCircularRangeInclusive seqRange.start (seqRange.stop - 1)
    if seqRange.contains ackNum then some seqRange else none
  else none

/-- The numbers whose flags are set in a selective acknowledgement. -/
def selectedAcks (ackNum : Uint16) (selectiveAck : SelectiveAck) : List Uint16 :=
  selectiveAck.acked.zipIdx.filterMap fun (isAcked, i) =>
    if isAcked then some (ackNum + 2 + BitVec.ofNat 16 i) else none

variable [Float64]

/-- `Ack`. -/
def ack (s : SentPackets) (seqNum : Uint16) (delay : Duration) (now : Time) :
    GoM (SentPackets × Option SentError) := do
  let i := s.seqNumIndex seqNum
  let packetInst ← index s.packets i
  match s.congestionCtrl.onAck packetInst.seqNum
      { delay, rtt := packetInst.rtt now, receivedAt := now } with
  | (congestionCtrl, some err) => pure ({ s with congestionCtrl }, some (.controller err))
  | (congestionCtrl, none) =>
      if packetInst.acks.length = 0 then
        pure ({ s with
          packets := s.packets.set i { packetInst with acks := packetInst.acks ++ [now] }
          lostPackets := s.lostPackets.erase packetInst.seqNum
          congestionCtrl }, none)
      else pure ({ s with congestionCtrl }, none)

/-- The loop over the flags of `OnSelectiveAck`. -/
def selectiveAckLoop (seqRange : CircularRangeInclusive) (delay : Duration) (now : Time) :
    List Bool → Uint16 → SentPackets → GoM (SentPackets × Option SentError)
  | [], _, s => pure (s, none)
  | flag :: acked, sackNum, s =>
      if seqRange.contains sackNum then
        if flag then do
          match ← s.ack sackNum delay now with
          | (s, some err) => pure (s, some err)
          | (s, none) => selectiveAckLoop seqRange delay now acked (sackNum + 1) s
        else selectiveAckLoop seqRange delay now acked (sackNum + 1) s
      else pure (s, none)

def onSelectiveAck (s : SentPackets) (ackNum : Uint16) (selectiveAck : SelectiveAck)
    (delay : Duration) (now : Time) : GoM (SentPackets × Option SentError) := do
  match ← s.ack ackNum delay now with
  | (s, some err) => pure (s, some err)
  | (s, none) => selectiveAckLoop s.seqNumRange delay now selectiveAck.acked (ackNum + 2) s

/-- The loop of `AckPriorUnacked`. -/
def ackEach (delay : Duration) (now : Time) :
    List Uint16 → SentPackets → GoM (SentPackets × Option SentError)
  | [], s => pure (s, none)
  | seqNum :: rest, s => do
      match ← s.ack seqNum delay now with
      | (s, some err) => pure (s, some err)
      | (s, none) => ackEach delay now rest s

def ackPriorUnacked (s : SentPackets) (seqNum firstUnacked : Uint16) (delay : Duration)
    (now : Time) : GoM (SentPackets × Option SentError) :=
  let start := s.seqNumIndex firstUnacked
  let stop := s.seqNumIndex seqNum
  if start ≥ stop then pure (s, none)
  else do
    let prior ← slice s.packets start stop
    ackEach delay now (prior.map (·.seqNum)) s

/-- The start of `OnAckNum`: the number itself, and the flags if there are
any. -/
def ackWithFlags (s : SentPackets) (ackNum : Uint16) (selectiveAck : Option SelectiveAck)
    (delay : Duration) (now : Time) : GoM (SentPackets × Option SentError) :=
  match selectiveAck with
  | some selectiveAck => s.onSelectiveAck ackNum selectiveAck delay now
  | none => s.ack ackNum delay now

def onAckNum (s : SentPackets) (ackNum : Uint16) (selectiveAck : Option SelectiveAck)
    (delay : Duration) (now : Time) : GoM (SentPackets × Option SentError) := do
  match ← s.ackWithFlags ackNum selectiveAck delay now with
  | (s, some err) => pure (s, some err)
  | (s, none) =>
      match s.firstUnackedSeqNum with
      | none => pure (s, some .errNoneAckNum)
      | some firstUnacked => do
          match ← s.ackPriorUnacked ackNum firstUnacked delay now with
          | (s, some err) => pure (s, some err)
          | (s, none) => do
              let losts ← s.detectLostPackets firstUnacked
              pure (losts.foldl markLost s, none)

/-- `onAck`: the range of numbers acknowledged in full and those
acknowledged selectively. -/
def onAck (s : SentPackets) (ackNum : Uint16) (selectiveAck : Option SelectiveAck)
    (delay : Duration) (now : Time) :
    GoM (SentPackets × Except SentError (CircularRangeInclusive × List Uint16)) :=
  match s.ackRange ackNum with
  | none => pure (s, .error .errInvalidAckNum)
  | some seqRange => do
      match ← (if ackNum ≠ seqRange.start then s.onAckNum ackNum selectiveAck delay now
          else pure (s, none) : GoM (SentPackets × Option SentError)) with
      | (s, some err) => pure (s, .error err)
      | (s, none) =>
          let fullAcked := newCircularRangeInclusive seqRange.start ackNum
          pure (s, .ok (fullAcked, (selectiveAck.map (selectedAcks ackNum)).getD []))

end SentPackets

end UtpGo
