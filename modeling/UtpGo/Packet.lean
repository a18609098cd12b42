/-
UtpGo/Packet.lean

The wire format: `packet.go`.  A packet is a header of twenty bytes, an
optional selective acknowledgement and a body.  On the wire the selective
acknowledgement travels as an extension block, and only the header's
`extension` byte says that it is there: `encode` writes the block whenever
the packet has one, `decodePacket` reads it whenever the header announces
one, and neither looks at the other's condition.

The builder (`PacketBuilder.build`) sets the byte from the presence of the
acknowledgement; a packet put together by hand may not.
-/
import Mathlib.Data.Vector.Basic
import UtpGo.Seq

namespace UtpGo

/-! ### Header -/

inductive PacketType where
  | st_data
  | st_fin
  | st_state
  | st_reset
  | st_syn
  deriving DecidableEq, Repr

/-- The numbering of the constants: `st_data` is 0, `st_syn` is 4. -/
def PacketType.toByte : PacketType → Byte
  | .st_data => 0
  | .st_fin => 1
  | .st_state => 2
  | .st_reset => 3
  | .st_syn => 4

/-- `PacketType.Check`: only the values up to 4 are types. -/
def PacketType.ofByte (b : Byte) : Option PacketType :=
  if b = 0 then some .st_data
  else if b = 1 then some .st_fin
  else if b = 2 then some .st_state
  else if b = 3 then some .st_reset
  else if b = 4 then some .st_syn
  else none

inductive PacketError where
  | errInvalidHeaderSize
  | errInvalidPacketType
  | errInsufficientLen
  | errInsufficientSelectiveAckLen
  | errInvalidSelectiveAckLen
  | errEmptyDataPayload
  deriving DecidableEq, Repr

/-- The timestamp is an `int64` in memory and 32 bits wide on the wire. -/
structure PacketHeaderV1 where
  packetType : PacketType
  version : Byte
  extension : Byte
  connectionId : Uint16
  timestamp : Int
  timestampDiff : Uint32
  wndSize : Uint32
  seqNum : Uint16
  ackNum : Uint16
  deriving DecidableEq, Repr

/-- `binary.BigEndian.AppendUint16`. -/
def bigEndian16 (x : Uint16) : Bytes :=
  [x.extractLsb' 8 8, x.extractLsb' 0 8]

/-- `binary.BigEndian.AppendUint32`. -/
def bigEndian32 (x : Uint32) : Bytes :=
  [x.extractLsb' 24 8, x.extractLsb' 16 8, x.extractLsb' 8 8, x.extractLsb' 0 8]

/-- `binary.BigEndian.Uint16`. -/
def ofBigEndian16 (a b : Byte) : Uint16 := a.setWidth 16 <<< 8 ||| b.setWidth 16

/-- `binary.BigEndian.Uint32`. -/
def ofBigEndian32 (a b c d : Byte) : Uint32 :=
  a.setWidth 32 <<< 24 ||| b.setWidth 32 <<< 16 ||| c.setWidth 32 <<< 8 ||| d.setWidth 32

namespace PacketHeaderV1

def encodeTypeVer (h : PacketHeaderV1) : Byte := h.packetType.toByte <<< 4 ||| h.version

def encodeToBytes (h : PacketHeaderV1) : Bytes :=
  [h.encodeTypeVer, h.extension] ++ bigEndian16 h.connectionId ++
    bigEndian32 (BitVec.ofInt 32 h.timestamp) ++ bigEndian32 h.timestampDiff ++
    bigEndian32 h.wndSize ++ bigEndian16 h.seqNum ++ bigEndian16 h.ackNum

end PacketHeaderV1

/-- `DecodePacketHeader`: twenty bytes, the type in the high nibble of the
first and the version in its low nibble. -/
def decodePacketHeader : Bytes → Except PacketError PacketHeaderV1
  | b0 :: b1 :: b2 :: b3 :: b4 :: b5 :: b6 :: b7 :: b8 :: b9 ::
    b10 :: b11 :: b12 :: b13 :: b14 :: b15 :: b16 :: b17 :: b18 :: b19 :: _ =>
      match PacketType.ofByte (b0 >>> 4) with
      | none => .error .errInvalidPacketType
      | some packetType => .ok {
          packetType
          version := b0 &&& 0x0F
          extension := b1
          connectionId := ofBigEndian16 b2 b3
          timestamp := (ofBigEndian32 b4 b5 b6 b7).toNat
          timestampDiff := ofBigEndian32 b8 b9 b10 b11
          wndSize := ofBigEndian32 b12 b13 b14 b15
          seqNum := ofBigEndian16 b16 b17
          ackNum := ofBigEndian16 b18 b19 }
  | _ => .error .errInvalidHeaderSize

/-! ### Selective acknowledgement -/

/-- One word of a selective acknowledgement: thirty-two flags. -/
abbrev AckWord := List.Vector Bool 32

structure SelectiveAck where
  words : List AckWord
  deriving DecidableEq

/-- Copy a fragment of at most thirty-two flags into a zeroed word. -/
def AckWord.ofFragment (fragment : List Bool) : AckWord :=
  ⟨(fragment ++ List.replicate 32 false).take 32, by simp⟩

/-- `NewSelectiveAck`: the full chunks of thirty-two flags, and a last word
for the remainder if there is one. -/
def newSelectiveAck (acked : List Bool) : SelectiveAck :=
  let chunks := acked.length / 32
  let remainder := acked.length % 32
  let full := (List.range chunks).map fun i => AckWord.ofFragment ((acked.drop (i * 32)).take 32)
  if remainder > 0 then
    ⟨full ++ [AckWord.ofFragment (acked.drop (chunks * 32))]⟩
  else
    ⟨full⟩

/-- Eight flags as a byte, the first in the highest bit. -/
def packBits (flag : Nat → Bool) : Byte :=
  (List.range 8).foldl (fun byteVal j => if flag j then byteVal ||| 1#8 <<< (7 - j) else byteVal) 0

/-- The `k`-th flag of a byte. -/
def unpackBit (byteVal : Byte) (k : Nat) : Bool := byteVal &&& 1#8 <<< (7 - k) ≠ 0

namespace SelectiveAck

/-- `SelectiveAck.Acked`: the words one after the other. -/
def acked (s : SelectiveAck) : List Bool := s.words.flatMap (·.toList)

def encodedLen (s : SelectiveAck) : Nat := s.words.length * 32 / 8

def encode (s : SelectiveAck) : Bytes :=
  s.words.flatMap fun word =>
    [0, 8, 16, 24].map fun i => packBits fun j => word.toList.getD (i + j) false

end SelectiveAck

def AckWord.ofBytes (b₀ b₁ b₂ b₃ : Byte) : AckWord :=
  ⟨[b₀, b₁, b₂, b₃].flatMap fun byteVal => (List.range 8).map (unpackBit byteVal), by simp⟩

/-- The words of a payload, four bytes each. -/
def decodeAckWords : Bytes → List AckWord
  | b₀ :: b₁ :: b₂ :: b₃ :: rest => AckWord.ofBytes b₀ b₁ b₂ b₃ :: decodeAckWords rest
  | _ => []

def decodeSelectiveAck (data : Bytes) : Except PacketError SelectiveAck :=
  if data.length < 4 then .error .errInsufficientSelectiveAckLen
  else if data.length % 4 ≠ 0 then .error .errInvalidSelectiveAckLen
  else .ok ⟨decodeAckWords data⟩

/-! ### Packets -/

structure Packet where
  header : PacketHeaderV1
  eack : Option SelectiveAck
  body : Bytes
  deriving DecidableEq

/-- `EncodedLen`: the block of the selective acknowledgement starts with a
type and a length of one byte each. -/
def Packet.encodedLen (p : Packet) : Nat :=
  match p.eack with
  | none => 20 + p.body.length
  | some eack => 20 + (eack.encodedLen + 1 + 1) + p.body.length

def Packet.encode (p : Packet) : Bytes :=
  match p.eack with
  | none => p.header.encodeToBytes ++ p.body
  | some eack =>
      let ack := eack.encode
      p.header.encodeToBytes ++ [0, BitVec.ofNat 8 ack.length] ++ ack ++ p.body

structure ExtensionData where
  extension : Byte
  payload : Bytes
  deriving DecidableEq, Repr

/-- The loop of `DecodeRawExtensions`.  Every pass moves `index` on by at
least two, so `data.length` passes are enough. -/
def decodeRawExtensionsLoop (data : Bytes) :
    Nat → Byte → Nat → List ExtensionData → Except PacketError (List ExtensionData × Nat)
  | 0, ext, index, extensions =>
      if ext = 0 then .ok (extensions, index) else .error .errInsufficientLen
  | fuel + 1, ext, index, extensions =>
      if ext = 0 then .ok (extensions, index)
      else match data.drop index with
        | nextExt :: extLen :: rest =>
            if rest.length < extLen.toNat then .error .errInsufficientLen
            else
              decodeRawExtensionsLoop data fuel nextExt (index + 2 + extLen.toNat)
                (extensions ++ [{ extension := ext, payload := rest.take extLen.toNat }])
        | _ => .error .errInsufficientLen

def decodeRawExtensions (firstExt : Byte) (data : Bytes) :
    Except PacketError (List ExtensionData × Nat) :=
  decodeRawExtensionsLoop data data.length firstExt 0 []

/-- The payload of the last block of type 1, empty if there is none. -/
def selectiveAckPayload (extensions : List ExtensionData) : Bytes :=
  extensions.foldl (fun payload ext => if ext.extension = 1 then ext.payload else payload) []

def decodeEack (payload : Bytes) : Except PacketError (Option SelectiveAck) :=
  if payload.length ≠ 0 then (decodeSelectiveAck payload).map some else .ok none

def decodePacket (b : Bytes) : Except PacketError Packet :=
  if b.length < 20 then .error .errInvalidHeaderSize
  else do
    let header ← decodePacketHeader (b.take 20)
    let (extensions, extensionsLen) ← decodeRawExtensions header.extension (b.drop 20)
    let eack ← decodeEack (selectiveAckPayload extensions)
    let body := b.drop (20 + extensionsLen)
    if header.packetType = .st_data ∧ body.length = 0 then .error .errEmptyDataPayload
    else .ok { header, eack, body }

/-! ### Builder -/

structure PacketBuilder where
  packetType : PacketType
  connID : Uint16
  tsMicros : Uint32
  tsDiffMicros : Uint32
  windowSize : Uint32
  seqNum : Uint16
  ackNum : Uint16
  selectiveAck : Option SelectiveAck
  payload : Bytes

def newPacketBuilder (packetType : PacketType) (connID : Uint16) (tsMicros windowSize : Uint32)
    (seqNum : Uint16) : PacketBuilder :=
  { packetType, connID, tsMicros, windowSize, seqNum
    tsDiffMicros := 0, ackNum := 0, selectiveAck := none, payload := [] }

namespace PacketBuilder

def withTsDiffMicros (b : PacketBuilder) (tsDiffMicros : Uint32) : PacketBuilder :=
  { b with tsDiffMicros }

def withAckNum (b : PacketBuilder) (ackNum : Uint16) : PacketBuilder := { b with ackNum }

def withSelectiveAck (b : PacketBuilder) (selectiveAck : Option SelectiveAck) : PacketBuilder :=
  { b with selectiveAck }

def withPayload (b : PacketBuilder) (payload : Bytes) : PacketBuilder := { b with payload }

def build (b : PacketBuilder) : Packet where
  header := {
    packetType := b.packetType
    version := 1
    extension := if b.selectiveAck.isSome then 1 else 0
    connectionId := b.connID
    timestamp := b.tsMicros.toNat
    timestampDiff := b.tsDiffMicros
    wndSize := b.windowSize
    seqNum := b.seqNum
    ackNum := b.ackNum }
  eack := b.selectiveAck
  body := b.payload

end PacketBuilder

end UtpGo
