/-
UtpGo/PacketCodec.lean

What is encoded is decoded.  `Packet.WireReady` collects what a packet needs
to survive the wire: a version of four bits, an extension byte that agrees
with the presence of the selective acknowledgement, between one and
sixty-three words in it, and a body where the type is `st_data`.

Main result: `decodePacket_encode`, the decoder gives back every such packet,
with the timestamp reduced to its 32 bits on the wire (`Packet.onWire`).
-/
import UtpGo.Packet

namespace UtpGo

/-! ### Numbers -/

theorem ofBigEndian16_extract (x : Uint16) :
    ofBigEndian16 (x.extractLsb' 8 8) (x.extractLsb' 0 8) = x := by
  apply BitVec.eq_of_getLsbD_eq
  intro i hi
  simp only [ofBigEndian16, BitVec.getLsbD_or, BitVec.getLsbD_shiftLeft, BitVec.getLsbD_setWidth,
    BitVec.getLsbD_extractLsb']
  rcases Nat.lt_or_ge i 8 with h | h
  · simp [h, hi]
  · have hs : 8 + (i - 8) = i := by omega
    simp [hi, hs, show ¬ i < 8 by omega, show i - 8 < 8 by omega, show i - 8 < 16 by omega]

theorem ofBigEndian32_extract (x : Uint32) :
    ofBigEndian32 (x.extractLsb' 24 8) (x.extractLsb' 16 8) (x.extractLsb' 8 8)
      (x.extractLsb' 0 8) = x := by
  apply BitVec.eq_of_getLsbD_eq
  intro i hi
  simp only [ofBigEndian32, BitVec.getLsbD_or, BitVec.getLsbD_shiftLeft, BitVec.getLsbD_setWidth,
    BitVec.getLsbD_extractLsb']
  -- the byte that holds bit `i` supplies it, the others are shifted past it
  rcases Nat.lt_or_ge i 8 with h | h
  · simp [h, hi, show i < 16 by omega, show i < 24 by omega]
  rcases Nat.lt_or_ge i 16 with h' | h'
  · have hs : 8 + (i - 8) = i := by omega
    simp [hi, hs, h', show ¬ i < 8 by omega, show i < 24 by omega, show i - 8 < 8 by omega,
      show i - 8 < 32 by omega]
  rcases Nat.lt_or_ge i 24 with h'' | h''
  · have hs : 16 + (i - 16) = i := by omega
    simp [hi, hs, h'', show ¬ i < 8 by omega, show ¬ i < 16 by omega, show ¬ i - 8 < 8 by omega,
      show i - 16 < 8 by omega, show i - 16 < 32 by omega]
  · have hs : 24 + (i - 24) = i := by omega
    simp [hi, hs, show ¬ i < 8 by omega, show ¬ i < 16 by omega, show ¬ i < 24 by omega,
      show ¬ i - 8 < 8 by omega, show ¬ i - 16 < 8 by omega, show i - 24 < 8 by omega,
      show i - 24 < 32 by omega]

/-! ### Header -/

theorem ofByte_toByte (t : PacketType) : PacketType.ofByte t.toByte = some t := by
  cases t <;> rfl

theorem encodeTypeVer_type {h : PacketHeaderV1} (hv : h.version < 16) :
    h.encodeTypeVer >>> 4 = h.packetType.toByte := by
  unfold PacketHeaderV1.encodeTypeVer
  generalize h.version = v at hv
  cases h.packetType <;> revert v <;> decide

theorem encodeTypeVer_version {h : PacketHeaderV1} (hv : h.version < 16) :
    h.encodeTypeVer &&& 0x0F = h.version := by
  unfold PacketHeaderV1.encodeTypeVer
  generalize h.version = v at hv
  cases h.packetType <;> revert v <;> decide

/-- The header as the wire carries it. -/
def PacketHeaderV1.onWire (h : PacketHeaderV1) : PacketHeaderV1 :=
  { h with timestamp := h.timestamp % 2 ^ 32 }

@[simp] theorem length_encodeToBytes (h : PacketHeaderV1) : h.encodeToBytes.length = 20 := rfl

theorem decodePacketHeader_encodeToBytes {h : PacketHeaderV1} (hv : h.version < 16) :
    decodePacketHeader h.encodeToBytes = .ok h.onWire := by
  have hts : ((BitVec.ofInt 32 h.timestamp).toNat : Int) = h.timestamp % 2 ^ 32 := by
    rw [BitVec.toNat_ofInt]
    omega
  simp only [PacketHeaderV1.encodeToBytes, bigEndian16, bigEndian32, List.cons_append,
    List.nil_append, decodePacketHeader, encodeTypeVer_type hv, encodeTypeVer_version hv,
    ofByte_toByte, ofBigEndian16_extract, ofBigEndian32_extract, hts, PacketHeaderV1.onWire]

/-! ### Selective acknowledgement -/

theorem unpackBit_eq_getLsbD (b : Byte) {k : Nat} (hk : k < 8) :
    unpackBit b k = b.getLsbD (7 - k) := by
  have hpow : (1#8 <<< (7 - k) : Byte) = BitVec.twoPow 8 (7 - k) := rfl
  have hne : BitVec.twoPow 8 (7 - k) ≠ 0#8 := by
    intro h0
    have hbit := congrArg (fun x : Byte => x.getLsbD (7 - k)) h0
    simp [BitVec.getLsbD_twoPow] at hbit
    omega
  unfold unpackBit
  rw [hpow, BitVec.and_twoPow]
  split
  · next h => simp [h, hne]
  · next h => simp [h]

/-- A bit of the byte under construction: it was set before, or one of the
remaining flags sets it. -/
theorem getLsbD_foldl_packBits (flag : Nat → Bool) (i : Nat) (js : List Nat)
    (acc : Byte) :
    (js.foldl (fun byteVal j =>
        if flag j then byteVal ||| 1#8 <<< (7 - j) else byteVal) acc).getLsbD i
      = (acc.getLsbD i || js.any fun j => flag j && (7 - j == i)) := by
  induction js generalizing acc with
  | nil => simp
  | cons j js ih =>
      rw [List.foldl_cons, ih, List.any_cons]
      have hpow : (1#8 <<< (7 - j) : Byte) = BitVec.twoPow 8 (7 - j) := rfl
      cases flag j with
      | false => simp
      | true =>
          rw [if_pos rfl, hpow, BitVec.getLsbD_or, BitVec.getLsbD_twoPow]
          have h7 : 7 - j < 8 := by omega
          simp [h7, Bool.or_assoc, beq_eq_decide]

theorem unpackBit_packBits (flag : Nat → Bool) {k : Nat} (hk : k < 8) :
    unpackBit (packBits flag) k = flag k := by
  rw [unpackBit_eq_getLsbD _ hk, packBits, getLsbD_foldl_packBits]
  have hzero : (0 : Byte).getLsbD (7 - k) = false := by simp
  rw [hzero, Bool.false_or, Bool.eq_iff_iff, List.any_eq_true]
  constructor
  · rintro ⟨j, hj, h⟩
    have hj8 : j < 8 := List.mem_range.mp hj
    simp only [Bool.and_eq_true, beq_iff_eq] at h
    have hjk : j = k := by omega
    exact hjk ▸ h.1
  · intro h
    exact ⟨k, List.mem_range.mpr hk, by simp [h]⟩

theorem map_getD_range {l : List Bool} {i n : Nat} (h : i + n ≤ l.length) :
    ((List.range n).map fun k => l.getD (i + k) false) = (l.drop i).take n := by
  apply List.ext_getElem
  · simp only [List.length_map, List.length_range, List.length_take, List.length_drop]
    omega
  · intro k hk _
    have hkn : k < n := by simpa using hk
    have hik : i + k < l.length := by omega
    simp [List.getD, hik]

/-- Four bytes packed from the flags of a word unpack to that word. -/
theorem ofBytes_packBits (word : AckWord) :
    AckWord.ofBytes (packBits fun j => word.toList.getD (0 + j) false)
      (packBits fun j => word.toList.getD (8 + j) false)
      (packBits fun j => word.toList.getD (16 + j) false)
      (packBits fun j => word.toList.getD (24 + j) false) = word := by
  have hlen : word.toList.length = 32 := word.toList_length
  have hmap : ∀ i, i + 8 ≤ 32 →
      (List.range 8).map (unpackBit (packBits fun j => word.toList.getD (i + j) false))
        = (word.toList.drop i).take 8 := by
    intro i hi
    rw [← map_getD_range (by omega)]
    refine List.map_congr_left fun k hk => ?_
    exact unpackBit_packBits _ (List.mem_range.mp hk)
  have hsplit : ∀ i, (word.toList.drop i).take 8 ++ word.toList.drop (i + 8)
      = word.toList.drop i := by
    intro i
    rw [← List.drop_drop, List.take_append_drop]
  have hlast : (word.toList.drop 24).take 8 = word.toList.drop 24 :=
    List.take_of_length_le (by simp [hlen])
  apply List.Vector.toList_injective
  rw [AckWord.ofBytes, List.Vector.toList_mk]
  simp only [List.flatMap_cons, List.flatMap_nil, List.append_nil]
  rw [hmap 0 (by omega), hmap 8 (by omega), hmap 16 (by omega), hmap 24 (by omega), hlast,
    hsplit 16, hsplit 8, hsplit 0, List.drop_zero]

@[simp] theorem length_encode (s : SelectiveAck) : s.encode.length = 4 * s.words.length := by
  simp [SelectiveAck.encode, List.length_flatMap, Nat.mul_comm]

theorem SelectiveAck.length_acked (s : SelectiveAck) : s.acked.length = 32 * s.words.length := by
  simp [SelectiveAck.acked, List.length_flatMap, Nat.mul_comm]

theorem decodeAckWords_encode (s : SelectiveAck) : decodeAckWords s.encode = s.words := by
  obtain ⟨words⟩ := s
  induction words with
  | nil => rfl
  | cons word words ih =>
      show AckWord.ofBytes _ _ _ _ :: decodeAckWords (SelectiveAck.encode ⟨words⟩) = word :: words
      rw [ih, ofBytes_packBits]

theorem decodeSelectiveAck_encode {s : SelectiveAck} (h : s.words ≠ []) :
    decodeSelectiveAck s.encode = .ok s := by
  have hpos : 0 < s.words.length := List.length_pos_iff.mpr h
  unfold decodeSelectiveAck
  rw [if_neg (by rw [length_encode]; omega), if_neg (by rw [length_encode]; omega),
    decodeAckWords_encode]

/-! ### Packets -/

/-- What a packet needs to survive the wire. -/
structure Packet.WireReady (p : Packet) : Prop where
  version : p.header.version < 16
  extension : p.header.extension = if p.eack.isSome then 1 else 0
  words : ∀ s, p.eack = some s → s.words ≠ [] ∧ s.words.length ≤ 63
  body : p.header.packetType = .st_data → p.body ≠ []

/-- The packet as the wire carries it: its timestamp taken mod `2 ^ 32`. -/
def Packet.onWire (p : Packet) : Packet := { p with header := p.header.onWire }

theorem decodeRawExtensions_none (data : Bytes) : decodeRawExtensions 0 data = .ok ([], 0) := by
  unfold decodeRawExtensions
  cases data.length <;> rfl

theorem decodeRawExtensions_single {ack body : Bytes} (h : ack.length < 256) :
    decodeRawExtensions 1 (0 :: BitVec.ofNat 8 ack.length :: (ack ++ body))
      = .ok ([{ extension := 1, payload := ack }], 2 + ack.length) := by
  have hlen : (BitVec.ofNat 8 ack.length).toNat = ack.length := by
    rw [BitVec.toNat_ofNat]
    omega
  show decodeRawExtensionsLoop _ ((ack ++ body).length + 1 + 1) 1 0 [] = _
  rw [decodeRawExtensionsLoop, if_neg (by decide)]
  show (if (ack ++ body).length < (BitVec.ofNat 8 ack.length).toNat then _
    else decodeRawExtensionsLoop _ _ 0 _ _) = _
  rw [hlen, if_neg (by simp), decodeRawExtensionsLoop, if_pos rfl, List.take_left]
  simp

/-- The body check at the end of `decodePacket` passes for a packet that is
ready for the wire. -/
theorem Packet.WireReady.not_empty_data {p : Packet} (h : p.WireReady) :
    ¬ (p.header.packetType = .st_data ∧ p.body.length = 0) := by
  rintro ⟨ht, hb⟩
  exact h.body ht (List.length_eq_zero_iff.mp hb)

/-- `decodePacket`, once the header `hdr` and the extensions at the start of
the rest are known. -/
theorem decodePacket_of_parts {hdr rest : Bytes} {header : PacketHeaderV1}
    {extensions : List ExtensionData} {len : Nat} {eack : Option SelectiveAck}
    (hlen : hdr.length = 20) (hh : decodePacketHeader hdr = .ok header)
    (hx : decodeRawExtensions header.extension rest = .ok (extensions, len))
    (he : decodeEack (selectiveAckPayload extensions) = .ok eack)
    (hb : ¬ (header.packetType = .st_data ∧ (rest.drop len).length = 0)) :
    decodePacket (hdr ++ rest) = .ok { header, eack, body := rest.drop len } := by
  have htake : (hdr ++ rest).take 20 = hdr := List.take_left' hlen
  have hdrop : (hdr ++ rest).drop 20 = rest := List.drop_left' hlen
  have hdrop' : (hdr ++ rest).drop (20 + len) = rest.drop len := by
    rw [← List.drop_drop, hdrop]
  unfold decodePacket
  rw [if_neg (by simp [hlen]), htake, hh]
  simp only [bind, Except.bind, hdrop, hdrop', hx, he]
  rw [if_neg hb]

/-- **Round trip**: a packet that is ready for the wire is decoded to itself,
its timestamp taken mod `2 ^ 32`. -/
theorem decodePacket_encode {p : Packet} (h : p.WireReady) :
    decodePacket p.encode = .ok p.onWire := by
  obtain ⟨header, eack, body⟩ := p
  have hh := decodePacketHeader_encodeToBytes h.version
  have hext : header.onWire.extension = if eack.isSome then 1 else 0 := h.extension
  have hbody := h.not_empty_data
  have hlen := length_encodeToBytes header
  cases eack with
  | none =>
      have hx : decodeRawExtensions header.onWire.extension body = .ok ([], 0) := by
        rw [hext]
        exact decodeRawExtensions_none body
      exact decodePacket_of_parts hlen hh hx rfl hbody
  | some s =>
      obtain ⟨hne, hle⟩ := h.words s rfl
      have hpos : 0 < s.words.length := List.length_pos_iff.mpr hne
      have hack : s.encode.length < 256 := by rw [length_encode]; omega
      have hx : decodeRawExtensions header.onWire.extension
          (0 :: BitVec.ofNat 8 s.encode.length :: (s.encode ++ body))
            = .ok ([{ extension := 1, payload := s.encode }], 2 + s.encode.length) := by
        rw [hext]
        exact decodeRawExtensions_single hack
      have he : decodeEack s.encode = .ok (some s) := by
        rw [decodeEack, if_pos (by rw [length_encode]; omega), decodeSelectiveAck_encode hne]
        rfl
      have hdrop : (0 :: BitVec.ofNat 8 s.encode.length :: (s.encode ++ body)).drop
          (2 + s.encode.length) = body := by
        rw [Nat.add_comm]
        exact List.drop_left' rfl
      have hp := decodePacket_of_parts hlen hh hx he (by rw [hdrop]; exact hbody)
      rw [hdrop] at hp
      show decodePacket (header.encodeToBytes ++ [0, BitVec.ofNat 8 s.encode.length] ++ s.encode
        ++ body) = _
      simpa [Packet.onWire] using hp

end UtpGo
