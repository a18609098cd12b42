/-
UtpGo/PacketGrammar.lean

The language `DecodePacket` accepts.  After a header of twenty bytes stands a
chain of extension blocks, `Chain ext chain blocks`:

    next type, length, payload

with the type of the first block in the header and the type 0 for the end,
and after the chain the body.

The decoder of `Packet.lean` matches on lists.  Here it is compared with the
source line by line: `decodePacketAt` makes every access to the bytes through
an index or a slice that is checked, and runs the loop over the blocks for a
number of passes.

Main results: `decodePacket_grammar`, the decoder accepts exactly its grammar,
stays within the bounds and ends; and `packet_codec`, decoding and encoding
are inverse to each other.
-/
import UtpGo.PacketCodec

namespace UtpGo

open Checked

/-! ### Extension chains -/

/-- The bytes `chain` are a chain of extension blocks, the first of type
`ext`. -/
inductive Chain : Byte → Bytes → List ExtensionData → Prop
  | done : Chain 0 [] []
  | block {ext next len : Byte} {payload rest : Bytes} {blocks : List ExtensionData} :
      ext ≠ 0 → payload.length = len.toNat → Chain next rest blocks →
      Chain ext (next :: len :: (payload ++ rest)) (⟨ext, payload⟩ :: blocks)

/-- Every chain is read to its end, whatever follows it. -/
theorem Chain.read {ext : Byte} {chain : Bytes} {blocks : List ExtensionData}
    (h : Chain ext chain blocks) {data body : Bytes} {fuel index : Nat}
    {extensions : List ExtensionData} (hdata : data.drop index = chain ++ body)
    (hfuel : data.length - index ≤ fuel) :
    decodeRawExtensionsLoop data fuel ext index extensions
      = .ok (extensions ++ blocks, index + chain.length) := by
  induction h generalizing fuel index extensions with
  | done => cases fuel <;> simp [decodeRawExtensionsLoop]
  | @block ext next len payload rest blocks hext hlen _ ih =>
      have hroom : 2 + payload.length + rest.length + body.length = data.length - index := by
        rw [← List.length_drop, hdata]
        simp
        omega
      obtain ⟨fuel, rfl⟩ : ∃ n, fuel = n + 1 := ⟨fuel - 1, by omega⟩
      have hdata' : data.drop index = next :: len :: (payload ++ (rest ++ body)) := by
        rw [hdata]
        simp
      have hnext : data.drop (index + 2 + len.toNat) = rest ++ body := by
        rw [Nat.add_assoc, ← List.drop_drop, hdata', Nat.add_comm, ← hlen]
        exact List.drop_left
      rw [decodeRawExtensionsLoop, if_neg hext, hdata']
      simp only [List.length_append, hlen]
      rw [if_neg (by omega), ih hnext (by omega), ← hlen, List.take_left]
      simp
      omega

/-- From `index` on the data has a chain of type `ext` that ends at `n` and
has these blocks. -/
def ReadsChain (data : Bytes) (ext : Byte) (index n : Nat) (blocks : List ExtensionData) : Prop :=
  ∃ chain body, data.drop index = chain ++ body ∧ Chain ext chain blocks ∧
    n = index + chain.length

theorem readsChain_zero (data : Bytes) (index : Nat) : ReadsChain data 0 index index [] :=
  ⟨[], data.drop index, rfl, .done, rfl⟩

theorem ReadsChain.block {data rest : Bytes} {ext next len : Byte} {index n : Nat}
    {blocks : List ExtensionData} (hext : ext ≠ 0)
    (hdata : data.drop index = next :: len :: rest) (hlen : len.toNat ≤ rest.length)
    (h : ReadsChain data next (index + 2 + len.toNat) n blocks) :
    ReadsChain data ext index n (⟨ext, rest.take len.toNat⟩ :: blocks) := by
  obtain ⟨chain, body, hbody, hchain, rfl⟩ := h
  have htake : (rest.take len.toNat).length = len.toNat := by
    rw [List.length_take]
    omega
  refine ⟨next :: len :: (rest.take len.toNat ++ chain), body, ?_, .block hext htake hchain, ?_⟩
  · rw [Nat.add_assoc, ← List.drop_drop, hdata, Nat.add_comm] at hbody
    have hrest : rest.drop len.toNat = chain ++ body := hbody
    rw [hdata, List.cons_append, List.cons_append, List.append_assoc, ← hrest,
      List.take_append_drop]
  · simp [htake]
    omega

/-- What the loop reads is a chain. -/
theorem chain_of_read {data : Bytes} {fuel index n : Nat} {ext : Byte}
    {extensions extensions' : List ExtensionData}
    (h : decodeRawExtensionsLoop data fuel ext index extensions = .ok (extensions', n)) :
    ∃ blocks, ReadsChain data ext index n blocks ∧ extensions' = extensions ++ blocks := by
  induction fuel generalizing ext index extensions with
  | zero =>
      rw [decodeRawExtensionsLoop] at h
      split at h
      · rename_i hext
        cases h
        exact ⟨[], hext ▸ readsChain_zero data _, (List.append_nil _).symm⟩
      · cases h
  | succ fuel ih =>
      rw [decodeRawExtensionsLoop] at h
      split at h
      · rename_i hext
        cases h
        exact ⟨[], hext ▸ readsChain_zero data _, (List.append_nil _).symm⟩
      rename_i hext
      split at h
      swap
      · cases h
      rename_i next len rest hdata
      split at h
      · cases h
      rename_i hlen
      -- one block, and the chain that follows it
      obtain ⟨blocks, hread, rfl⟩ := ih h
      exact ⟨_, hread.block hext hdata (not_lt.mp hlen), List.append_assoc _ _ _⟩

/-! ### The decoder with its accesses -/

/-- `binary.BigEndian.Uint16` on a slice. -/
def uint16Of (b : Bytes) : GoM Uint16 := do
  let b₁ ← index b 1
  let b₀ ← index b 0
  pure (ofBigEndian16 b₀ b₁)

/-- `binary.BigEndian.Uint32` on a slice. -/
def uint32Of (b : Bytes) : GoM Uint32 := do
  let b₃ ← index b 3
  let b₀ ← index b 0
  let b₁ ← index b 1
  let b₂ ← index b 2
  pure (ofBigEndian32 b₀ b₁ b₂ b₃)

def decodePacketHeaderAt (value : Bytes) : GoM (Except PacketError PacketHeaderV1) :=
  if value.length < 20 then pure (.error .errInvalidHeaderSize)
  else do
    let typeVer ← index value 0
    match PacketType.ofByte (typeVer >>> 4) with
    | none => pure (.error .errInvalidPacketType)
    | some packetType => do
        let extension ← index value 1
        let connectionId ← slice value 2 4 >>= uint16Of
        let tsMicros ← slice value 4 8 >>= uint32Of
        let timestampDiff ← slice value 8 12 >>= uint32Of
        let wndSize ← slice value 12 16 >>= uint32Of
        let seqNum ← slice value 16 18 >>= uint16Of
        let ackNum ← slice value 18 20 >>= uint16Of
        pure (.ok {
          packetType
          version := typeVer &&& 0x0F
          extension, connectionId
          timestamp := tsMicros.toNat
          timestampDiff, wndSize, seqNum, ackNum })

/-- Where the loop of `DecodeRawExtensions` ended, and with what. -/
structure LoopEnd where
  result : Except PacketError (List ExtensionData)
  index : Nat

def LoopEnd.returned (l : LoopEnd) : Except PacketError (List ExtensionData × Nat) :=
  l.result.map fun extensions => (extensions, l.index)

/-- The loop of `DecodeRawExtensions`; there is no result if it does not end
within the passes it is given. -/
def decodeRawExtensionsAt (data : Bytes) :
    Nat → Byte → Nat → List ExtensionData → GoM (Option LoopEnd)
  | 0, _, _, _ => pure none
  | passes + 1, ext, idx, extensions =>
      if ext = 0 then pure (some ⟨.ok extensions, idx⟩)
      else do
        let block ← slice data idx data.length
        if block.length < 2 then pure (some ⟨.error .errInsufficientLen, idx⟩)
        else do
          let nextExt ← index data idx
          let extLen ← index data (idx + 1)
          let extStart := idx + 2
          let content ← slice data extStart data.length
          if content.length < extLen.toNat then pure (some ⟨.error .errInsufficientLen, idx⟩)
          else do
            let extData ← slice data extStart (extStart + extLen.toNat)
            decodeRawExtensionsAt data passes nextExt (extStart + extLen.toNat)
              (extensions ++ [⟨ext, extData⟩])

/-- The loop of `DecodeSelectiveAck` over the words. -/
def ackWordsAt (data : Bytes) : Nat → Nat → GoM (List AckWord)
  | 0, _ => pure []
  | words + 1, i => do
      let b₀ ← index data i
      let b₁ ← index data (i + 1)
      let b₂ ← index data (i + 2)
      let b₃ ← index data (i + 3)
      let rest ← ackWordsAt data words (i + 4)
      pure (AckWord.ofBytes b₀ b₁ b₂ b₃ :: rest)

def decodeSelectiveAckAt (data : Bytes) : GoM (Except PacketError SelectiveAck) :=
  if data.length < 4 then pure (.error .errInsufficientSelectiveAckLen)
  else if data.length % 4 ≠ 0 then pure (.error .errInvalidSelectiveAckLen)
  else do
    let words ← ackWordsAt data (data.length / 4) 0
    pure (.ok ⟨words⟩)

def decodeEackAt (payload : Bytes) : GoM (Except PacketError (Option SelectiveAck)) :=
  if payload.length ≠ 0 then do
    let ack ← decodeSelectiveAckAt payload
    pure (ack.map some)
  else pure (.ok none)

/-- The body of a packet: the bytes from `start` on. -/
def bodyAt (b : Bytes) (start : Nat) : GoM Bytes :=
  if b.length = start then pure [] else slice b start b.length

/-- `DecodePacket` with every access to the bytes checked.  The loop over the
extensions is given one pass more than there are bytes. -/
def decodePacketAt (b : Bytes) : GoM (Option (Except PacketError Packet)) :=
  if b.length < 20 then pure (some (.error .errInvalidHeaderSize))
  else do
    match ← slice b 0 20 >>= decodePacketHeaderAt with
    | .error err => pure (some (.error err))
    | .ok header => do
        let data ← slice b 20 b.length
        match ← decodeRawExtensionsAt data (data.length + 1) header.extension 0 [] with
        | none => pure none
        | some loop =>
            match loop.returned with
            | .error err => pure (some (.error err))
            | .ok (extensions, extensionsLen) => do
                match ← decodeEackAt (selectiveAckPayload extensions) with
                | .error err => pure (some (.error err))
                | .ok eack => do
                    let body ← bodyAt b (20 + extensionsLen)
                    if header.packetType = .st_data ∧ body.length = 0 then
                      pure (some (.error .errEmptyDataPayload))
                    else pure (some (.ok { header, eack, body }))

/-! ### No access fails -/

theorem slice_tail {l : Bytes} {i : Nat} (h : i ≤ l.length) :
    (slice l i l.length : GoM Bytes) = .ok (l.drop i) := by
  rw [slice_of_le h le_rfl, List.take_length]

theorem bodyAt_eq {b : Bytes} {start : Nat} (h : start ≤ b.length) :
    bodyAt b start = .ok (b.drop start) := by
  unfold bodyAt
  split
  · rename_i heq
    rw [List.drop_of_length_le heq.le]
    rfl
  · exact slice_tail h

theorem index_of_drop {l rest : Bytes} {i : Nat} {a : Byte} (h : l.drop i = a :: rest) :
    (index l i : GoM Byte) = .ok a := by
  rw [index_eq_ok, ← Nat.add_zero i, ← List.getElem?_drop, h]
  rfl

theorem drop_succ {l rest : Bytes} {i : Nat} {a : Byte} (h : l.drop i = a :: rest) :
    l.drop (i + 1) = rest := by
  rw [← List.drop_drop, h]
  rfl

theorem decodePacketHeaderAt_eq {value : Bytes} (h : value.length = 20) :
    decodePacketHeaderAt value = .ok (decodePacketHeader value) := by
  match value, h with
  | [b0, b1, b2, b3, b4, b5, b6, b7, b8, b9, b10, b11, b12, b13, b14, b15, b16, b17, b18, b19],
      _ =>
      show (match PacketType.ofByte (b0 >>> 4) with
        | none => _
        | some packetType => _) = _
      unfold decodePacketHeader
      dsimp only
      cases PacketType.ofByte (b0 >>> 4) with
      | none => rfl
      | some t => rfl

theorem ackWordsAt_eq {data : Bytes} {words i : Nat} (h : i + 4 * words = data.length) :
    ackWordsAt data words i = .ok (decodeAckWords (data.drop i)) := by
  induction words generalizing i with
  | zero =>
      rw [List.drop_of_length_le (by omega)]
      rfl
  | succ words ih =>
      match h₀ : data.drop i, (by rw [List.length_drop]; omega : 4 ≤ (data.drop i).length) with
      | b₀ :: b₁ :: b₂ :: b₃ :: rest, _ =>
          have h₁ := drop_succ h₀
          have h₂ := drop_succ h₁
          have h₃ := drop_succ h₂
          rw [ackWordsAt, index_of_drop h₀, index_of_drop h₁, index_of_drop h₂, index_of_drop h₃,
            ih (by omega), drop_succ h₃]
          rfl

theorem decodeEackAt_eq (payload : Bytes) : decodeEackAt payload = .ok (decodeEack payload) := by
  unfold decodeEackAt decodeEack decodeSelectiveAckAt decodeSelectiveAck
  split
  · split
    · rfl
    · split
      · rfl
      · rename_i hmod
        rw [ackWordsAt_eq (by omega)]
        rfl
  · rfl

/-- One pass of the loop, where the first two bytes of a block are there. -/
theorem decodeRawExtensionsAt_block {data rest : Bytes} {ext next len : Byte} {idx : Nat}
    (passes : Nat) (extensions : List ExtensionData) (hext : ext ≠ 0)
    (hdata : data.drop idx = next :: len :: rest) :
    decodeRawExtensionsAt data (passes + 1) ext idx extensions =
      if rest.length < len.toNat then .ok (some ⟨.error .errInsufficientLen, idx⟩)
      else decodeRawExtensionsAt data passes next (idx + 2 + len.toNat)
        (extensions ++ [⟨ext, rest.take len.toNat⟩]) := by
  have hroom : data.length - idx = rest.length + 2 := by
    rw [← List.length_drop, hdata]
    rfl
  have hlen := drop_succ hdata
  have hrest := drop_succ hlen
  rw [decodeRawExtensionsAt, if_neg hext, slice_tail (by omega), hdata, ok_bind,
    if_neg (by simp), index_of_drop hdata, ok_bind, index_of_drop hlen, ok_bind]
  dsimp only
  rw [slice_tail (by omega), hrest, ok_bind]
  split
  · rfl
  · have htake : (data.take (idx + 2 + len.toNat)).drop (idx + 2) = rest.take len.toNat := by
      rw [← hrest, List.drop_take, Nat.add_sub_cancel_left]
    rw [slice_of_le (by omega) (by omega), htake]
    rfl

/-- The loop over the extensions ends, within the data, and returns what the
model says. -/
theorem decodeRawExtensionsAt_eq (data : Bytes) {passes idx : Nat} (ext : Byte)
    (extensions : List ExtensionData) (hidx : idx ≤ data.length)
    (hpasses : data.length - idx ≤ passes) :
    ∃ loop, decodeRawExtensionsAt data (passes + 1) ext idx extensions = .ok (some loop) ∧
      loop.index ≤ data.length ∧
      loop.returned = decodeRawExtensionsLoop data passes ext idx extensions := by
  induction passes generalizing idx ext extensions with
  | zero =>
      rw [decodeRawExtensionsAt, decodeRawExtensionsLoop]
      split
      · exact ⟨_, rfl, hidx, rfl⟩
      · refine ⟨⟨.error .errInsufficientLen, idx⟩, ?_, hidx, rfl⟩
        rw [slice_tail hidx, ok_bind, if_pos (by rw [List.length_drop]; omega)]
        rfl
  | succ passes ih =>
      by_cases hext : ext = 0
      · rw [decodeRawExtensionsAt, decodeRawExtensionsLoop, if_pos hext, if_pos hext]
        exact ⟨_, rfl, hidx, rfl⟩
      rw [decodeRawExtensionsLoop, if_neg hext]
      have hshort : (data.drop idx).length < 2 → ∃ loop,
          decodeRawExtensionsAt data (passes + 1 + 1) ext idx extensions = .ok (some loop) ∧
          loop.index ≤ data.length ∧ loop.returned = .error .errInsufficientLen := by
        intro hlen
        refine ⟨⟨.error .errInsufficientLen, idx⟩, ?_, hidx, rfl⟩
        rw [decodeRawExtensionsAt, if_neg hext, slice_tail hidx, ok_bind, if_pos hlen]
        rfl
      rcases hdata : data.drop idx with - | ⟨next, - | ⟨len, rest⟩⟩
      · exact hshort (by simp [hdata])
      · exact hshort (by simp [hdata])
      · rw [decodeRawExtensionsAt_block (passes + 1) extensions hext hdata]
        dsimp only
        have hroom : (data.drop idx).length = data.length - idx := List.length_drop
        rw [hdata, List.length_cons, List.length_cons] at hroom
        split
        · exact ⟨_, rfl, hidx, rfl⟩
        · exact ih _ _ (by omega) (by omega)

theorem decodeRawExtensionsAt_ends (data : Bytes) (firstExt : Byte) :
    ∃ loop, decodeRawExtensionsAt data (data.length + 1) firstExt 0 [] = .ok (some loop) ∧
      loop.index ≤ data.length ∧ loop.returned = decodeRawExtensions firstExt data :=
  decodeRawExtensionsAt_eq data firstExt [] (Nat.zero_le _) (Nat.sub_le _ _)

/-- **No access fails**, and the loop ends. -/
theorem decodePacketAt_eq (b : Bytes) : decodePacketAt b = .ok (some (decodePacket b)) := by
  unfold decodePacketAt decodePacket
  split
  · rfl
  rename_i hlen
  have htake : (slice b 0 20 : GoM Bytes) = .ok (b.take 20) := slice_of_le (by omega) (by omega)
  rw [htake, ok_bind, decodePacketHeaderAt_eq (by rw [List.length_take]; omega), ok_bind,
    slice_tail (by omega)]
  cases decodePacketHeader (b.take 20) with
  | error err => rfl
  | ok header =>
      obtain ⟨loop, hloop, hindex, hreturned⟩ :=
        decodeRawExtensionsAt_ends (b.drop 20) header.extension
      dsimp only
      rw [ok_bind, hloop, ok_bind]
      dsimp only
      rw [hreturned]
      show _ = Except.ok (some (decodeRawExtensions header.extension (b.drop 20) >>= _))
      cases hx : decodeRawExtensions header.extension (b.drop 20) with
      | error err => rfl
      | ok r =>
          obtain ⟨extensions, extensionsLen⟩ := r
          have hbound : extensionsLen ≤ (b.drop 20).length := by
            rw [hx] at hreturned
            obtain ⟨result, index⟩ := loop
            cases result with
            | error err => cases hreturned
            | ok extensions' =>
                cases hreturned
                exact hindex
          rw [List.length_drop] at hbound
          dsimp only
          rw [decodeEackAt_eq, ok_bind]
          show _ = Except.ok (some (decodeEack (selectiveAckPayload extensions) >>= _))
          cases decodeEack (selectiveAckPayload extensions) with
          | error err => rfl
          | ok eack =>
              dsimp only
              rw [bodyAt_eq (by omega), ok_bind]
              show _ = Except.ok (some (if _ then _ else _))
              split <;> rfl

/-! ### What is decoded is encoded -/

theorem bigEndian16_ofBigEndian16 (a b : Byte) : bigEndian16 (ofBigEndian16 a b) = [a, b] := by
  have ha : (ofBigEndian16 a b).extractLsb' 8 8 = a := by
    apply BitVec.eq_of_getLsbD_eq
    intro i hi
    simp [ofBigEndian16, hi, BitVec.getLsbD_of_ge, show 8 + i < 16 by omega]
  have hb : (ofBigEndian16 a b).extractLsb' 0 8 = b := by
    apply BitVec.eq_of_getLsbD_eq
    intro i hi
    simp [ofBigEndian16, hi, show i < 16 by omega]
  rw [bigEndian16, ha, hb]

theorem bigEndian32_ofBigEndian32 (a b c d : Byte) :
    bigEndian32 (ofBigEndian32 a b c d) = [a, b, c, d] := by
  -- a byte has no bits from the eighth on
  have hge : ∀ (x : Byte) {k : Nat}, 8 ≤ k → x.getLsbD k = false :=
    fun x k hk => BitVec.getLsbD_of_ge x k hk
  have ha : (ofBigEndian32 a b c d).extractLsb' 24 8 = a := by
    apply BitVec.eq_of_getLsbD_eq
    intro i hi
    simp [ofBigEndian32, hi, hge b (show 8 ≤ 24 + i - 16 by omega),
      hge c (show 8 ≤ 24 + i - 8 by omega), hge d (show 8 ≤ 24 + i by omega),
      show 24 + i < 32 by omega]
  have hb : (ofBigEndian32 a b c d).extractLsb' 16 8 = b := by
    apply BitVec.eq_of_getLsbD_eq
    intro i hi
    simp [ofBigEndian32, hi, hge c (show 8 ≤ 16 + i - 8 by omega),
      hge d (show 8 ≤ 16 + i by omega), show 16 + i < 32 by omega, show 16 + i < 24 by omega]
  have hc : (ofBigEndian32 a b c d).extractLsb' 8 8 = c := by
    apply BitVec.eq_of_getLsbD_eq
    intro i hi
    simp [ofBigEndian32, hi, show 8 + i < 32 by omega, show 8 + i < 24 by omega,
      show 8 + i < 16 by omega]
  have hd : (ofBigEndian32 a b c d).extractLsb' 0 8 = d := by
    apply BitVec.eq_of_getLsbD_eq
    intro i hi
    simp [ofBigEndian32, hi, show i < 32 by omega, show i < 24 by omega, show i < 16 by omega]
  rw [bigEndian32, ha, hb, hc, hd]

theorem ofByte_isSome_iff : ∀ x : Byte, (PacketType.ofByte x).isSome = true ↔ x ≤ 4 := by decide

theorem toByte_of_ofByte {x : Byte} {t : PacketType} (h : PacketType.ofByte x = some t) :
    t.toByte = x := by
  unfold PacketType.ofByte at h
  split_ifs at h <;> cases h <;> simp [PacketType.toByte, *]

theorem typeVer_split : ∀ x : Byte, x >>> 4 <<< 4 ||| x &&& 0x0F = x := by decide

/-- What is decoded from the header, and what it is encoded to again. -/
theorem decodePacketHeader_ok {b : Bytes} {h : PacketHeaderV1} (hlen : 20 ≤ b.length)
    (hok : decodePacketHeader (b.take 20) = .ok h) :
    h.encodeToBytes = b.take 20 ∧ h.extension = b.getD 1 0 ∧
      PacketType.ofByte (b.headD 0 >>> 4) = some h.packetType := by
  match b, hlen with
  | b0 :: b1 :: b2 :: b3 :: b4 :: b5 :: b6 :: b7 :: b8 :: b9 ::
    b10 :: b11 :: b12 :: b13 :: b14 :: b15 :: b16 :: b17 :: b18 :: b19 :: rest, _ =>
      change (match PacketType.ofByte (b0 >>> 4) with
        | none => _
        | some packetType => _) = _ at hok
      cases htype : PacketType.ofByte (b0 >>> 4) with
      | none =>
          rw [htype] at hok
          cases hok
      | some t =>
          rw [htype] at hok
          cases hok
          refine ⟨?_, rfl, htype⟩
          show [t.toByte <<< 4 ||| b0 &&& 0x0F, b1] ++ bigEndian16 (ofBigEndian16 b2 b3) ++
            bigEndian32 (BitVec.ofInt 32 (ofBigEndian32 b4 b5 b6 b7).toNat) ++
            bigEndian32 (ofBigEndian32 b8 b9 b10 b11) ++
            bigEndian32 (ofBigEndian32 b12 b13 b14 b15) ++
            bigEndian16 (ofBigEndian16 b16 b17) ++ bigEndian16 (ofBigEndian16 b18 b19) = _
          rw [toByte_of_ofByte htype, typeVer_split, BitVec.ofInt_natCast, BitVec.ofNat_toNat,
            BitVec.setWidth_eq]
          simp only [bigEndian16_ofBigEndian16, bigEndian32_ofBigEndian32]
          rfl

/-- A header is decoded whenever the type is one of the five. -/
theorem decodePacketHeader_of_type {b : Bytes} (hlen : 20 ≤ b.length)
    (htype : b.headD 0 >>> 4 ≤ 4) : ∃ h, decodePacketHeader (b.take 20) = .ok h := by
  have hv : (b.take 20).length = 20 := by
    rw [List.length_take]
    omega
  have hhead : b.headD 0 = (b.take 20).headD 0 := by cases b <;> rfl
  rw [hhead] at htype
  generalize b.take 20 = v at hv htype
  match v, hv with
  | [b0, b1, b2, b3, b4, b5, b6, b7, b8, b9, b10, b11, b12, b13, b14, b15, b16, b17, b18, b19],
      _ =>
      obtain ⟨t, ht⟩ := Option.isSome_iff_exists.mp ((ofByte_isSome_iff (b0 >>> 4)).mpr htype)
      simp only [decodePacketHeader, ht]
      exact ⟨_, rfl⟩

theorem packBits_unpackBit : ∀ x : Byte, packBits (unpackBit x) = x := by decide +kernel

/-- Whole words are encoded to the bytes they were decoded from. -/
theorem encode_decodeAckWords {data : Bytes} (h : 4 ∣ data.length) :
    SelectiveAck.encode ⟨decodeAckWords data⟩ = data := by
  induction data using decodeAckWords.induct with
  | case1 b₀ b₁ b₂ b₃ rest ih =>
      have hrest : 4 ∣ rest.length := by
        simp only [List.length_cons] at h
        omega
      show [packBits (unpackBit b₀), packBits (unpackBit b₁), packBits (unpackBit b₂),
        packBits (unpackBit b₃)] ++ SelectiveAck.encode ⟨decodeAckWords rest⟩ = _
      simp only [packBits_unpackBit, ih hrest]
      rfl
  | case2 data hshort =>
      match data, h with
      | [], _ => rfl
      | [_], h | [_, _], h | [_, _, _], h =>
          simp only [List.length_cons, List.length_nil] at h
          omega
      | b₀ :: b₁ :: b₂ :: b₃ :: rest, _ => exact absurd rfl (hshort b₀ b₁ b₂ b₃ rest)

/-! ### The grammar -/

/-- The payload of the last block of type 1, empty if there is none. -/
def lastAckPayload (blocks : List ExtensionData) : Bytes :=
  ((blocks.filter (·.extension = 1)).getLast?.map (·.payload)).getD []

theorem selectiveAckPayload_eq (blocks : List ExtensionData) :
    selectiveAckPayload blocks = lastAckPayload blocks := by
  induction blocks using List.reverseRecOn with
  | nil => rfl
  | append_singleton blocks block ih =>
      unfold selectiveAckPayload lastAckPayload at *
      rw [List.foldl_append, List.filter_append]
      by_cases h : block.extension = 1#8
      · simp [h]
      · simpa [h] using ih

/-- The bytes are a packet: a header, a chain of blocks, and a body. -/
structure Grammar (b : Bytes) (blocks : List ExtensionData) (chain body : Bytes) : Prop where
  header : 20 ≤ b.length
  type : b.headD 0 >>> 4 ≤ 4
  split : b.drop 20 = chain ++ body
  chain : Chain (b.getD 1 0) chain blocks
  ack : lastAckPayload blocks = [] ∨ 4 ∣ (lastAckPayload blocks).length
  data : b.headD 0 >>> 4 = 0 → body ≠ []

/-- The acknowledgement that a payload stands for. -/
def Acknowledges (payload : Bytes) : Option SelectiveAck → Prop
  | none => payload = []
  | some s => decodeSelectiveAck payload = .ok s

theorem decodeSelectiveAck_ok {payload : Bytes} {s : SelectiveAck} :
    decodeSelectiveAck payload = .ok s ↔
      payload ≠ [] ∧ 4 ∣ payload.length ∧ s = ⟨decodeAckWords payload⟩ := by
  rw [← List.length_pos_iff]
  unfold decodeSelectiveAck
  split
  · simp only [reduceCtorEq, false_iff]
    omega
  · split
    · simp only [reduceCtorEq, false_iff]
      omega
    · rename_i hlen hmod
      constructor
      · rintro ⟨⟩
        exact ⟨by omega, by omega, rfl⟩
      · rintro ⟨-, -, rfl⟩
        rfl

theorem decodeEack_ok {payload : Bytes} {eack : Option SelectiveAck} :
    decodeEack payload = .ok eack ↔ Acknowledges payload eack := by
  unfold decodeEack
  split
  · rename_i hne
    cases eack with
    | none =>
        refine ⟨fun h => ?_, fun h => absurd (congrArg List.length h) hne⟩
        cases hs : decodeSelectiveAck payload with
        | error err => simp [hs, Except.map] at h
        | ok s => simp [hs, Except.map] at h
    | some s =>
        show _ ↔ decodeSelectiveAck payload = .ok s
        cases hs : decodeSelectiveAck payload with
        | error err => simp [Except.map]
        | ok s' => simp [Except.map]
  · rename_i hnil
    have hnil : payload = [] := List.length_eq_zero_iff.mp (not_not.mp hnil)
    subst hnil
    cases eack with
    | none => exact ⟨fun _ => rfl, fun _ => rfl⟩
    | some s => exact ⟨nofun, nofun⟩

theorem acknowledges_iff {payload : Bytes} : (∃ eack, Acknowledges payload eack) ↔
    payload = [] ∨ 4 ∣ payload.length := by
  constructor
  · rintro ⟨- | s, h⟩
    · exact .inl h
    · exact .inr (decodeSelectiveAck_ok.mp h).2.1
  · intro h
    by_cases hnil : payload = []
    · exact ⟨none, hnil⟩
    · exact ⟨some _, decodeSelectiveAck_ok.mpr ⟨hnil, h.resolve_left hnil, rfl⟩⟩

theorem isData_iff {b : Bytes} {t : PacketType}
    (h : PacketType.ofByte (b.headD 0 >>> 4) = some t) :
    t = .st_data ↔ b.headD 0 >>> 4 = 0 := by
  rw [← toByte_of_ofByte h]
  cases t <;> decide

/-- A packet that is accepted: its parts, and the bytes they stand for. -/
theorem decodePacket_ok {b : Bytes} {p : Packet} (hok : decodePacket b = .ok p) :
    ∃ blocks chain, Grammar b blocks chain p.body ∧ p.header.encodeToBytes = b.take 20 ∧
      Acknowledges (lastAckPayload blocks) p.eack := by
  unfold decodePacket at hok
  split at hok
  · cases hok
  rename_i hlen
  cases hh : decodePacketHeader (b.take 20) with
  | error err => simp [hh, bind, Except.bind] at hok
  | ok header =>
  obtain ⟨henc, hext, htype⟩ := decodePacketHeader_ok (not_lt.mp hlen) hh
  cases hx : decodeRawExtensions header.extension (b.drop 20) with
  | error err => simp [hh, hx, bind, Except.bind] at hok
  | ok r =>
  obtain ⟨blocks, n⟩ := r
  cases he : decodeEack (selectiveAckPayload blocks) with
  | error err => simp [hh, hx, he, bind, Except.bind] at hok
  | ok eack =>
  simp only [hh, hx, he, bind, Except.bind] at hok
  split at hok
  · cases hok
  rename_i hbody
  cases hok
  obtain ⟨_, ⟨chain, body, hsplit, hchain, rfl⟩, rfl⟩ := chain_of_read hx
  rw [List.drop_zero] at hsplit
  rw [Nat.zero_add] at hbody ⊢
  have hdrop : b.drop (20 + chain.length) = body := by
    rw [← List.drop_drop, hsplit]
    exact List.drop_left
  rw [selectiveAckPayload_eq] at he
  have hack := decodeEack_ok.mp he
  refine ⟨blocks, chain, ⟨not_lt.mp hlen, ?_, ?_, hext ▸ hchain, ?_, ?_⟩, henc, hack⟩
  · rw [← ofByte_isSome_iff, htype]
    rfl
  · rw [hdrop, hsplit]
  · exact acknowledges_iff.mp ⟨_, hack⟩
  · intro hz hnil
    exact hbody ⟨(isData_iff htype).mpr hz, congrArg List.length hnil⟩

/-- The length of a block is one byte on the wire. -/
theorem Chain.payload_lt {ext : Byte} {chain : Bytes} {blocks : List ExtensionData}
    (h : Chain ext chain blocks) {block : ExtensionData} (hb : block ∈ blocks) :
    block.payload.length < 256 := by
  induction h with
  | done => cases hb
  | @block _ _ len payload _ _ _ hlen _ ih =>
      rcases List.mem_cons.mp hb with rfl | hb
      · show payload.length < 256
        rw [hlen]
        exact len.isLt
      · exact ih hb

/-- A packet carries at most 2040 flags. -/
theorem length_acked_decoded {b : Bytes} {p : Packet} {s : SelectiveAck}
    (hok : decodePacket b = .ok p) (hs : p.eack = some s) : s.acked.length ≤ 2040 := by
  obtain ⟨blocks, chain, hg, -, hack⟩ := decodePacket_ok hok
  rw [hs] at hack
  obtain ⟨-, hdvd, rfl⟩ := decodeSelectiveAck_ok.mp hack
  have hlen : (lastAckPayload blocks).length < 256 := by
    unfold lastAckPayload
    rcases hlast : (blocks.filter (·.extension = 1)).getLast? with - | block
    · rw [hlast]
      exact Nat.zero_lt_succ 255
    · rw [hlast]
      exact hg.chain.payload_lt (List.mem_of_mem_filter (List.mem_of_getLast? hlast))
  have hwords := congrArg List.length (encode_decodeAckWords hdvd)
  rw [length_encode] at hwords
  rw [SelectiveAck.length_acked]
  omega

theorem Grammar.extensions {b : Bytes} {blocks : List ExtensionData} {chain body : Bytes}
    (h : Grammar b blocks chain body) :
    decodeRawExtensions (b.getD 1 0) (b.drop 20) = .ok (blocks, chain.length) := by
  have hread : decodeRawExtensionsLoop (b.drop 20) (b.drop 20).length (b.getD 1 0) 0 [] = _ :=
    h.chain.read h.split (Nat.sub_le _ _)
  rw [decodeRawExtensions, hread, Nat.zero_add]
  rfl

/-- Every packet of the grammar is accepted. -/
theorem Grammar.decodes {b : Bytes} {blocks : List ExtensionData} {chain body : Bytes}
    (h : Grammar b blocks chain body) : ∃ p, decodePacket b = .ok p := by
  obtain ⟨header, hh⟩ := decodePacketHeader_of_type h.header h.type
  obtain ⟨-, hext, htype⟩ := decodePacketHeader_ok h.header hh
  obtain ⟨eack, hack⟩ := acknowledges_iff.mpr h.ack
  have hx : decodeRawExtensions header.extension (b.drop 20) = .ok (blocks, chain.length) := by
    rw [hext]
    exact h.extensions
  have hbody : ¬ (header.packetType = .st_data ∧ ((b.drop 20).drop chain.length).length = 0) := by
    rintro ⟨ht, hz⟩
    rw [h.split, List.drop_left] at hz
    exact h.data ((isData_iff htype).mp ht) (List.length_eq_zero_iff.mp hz)
  rw [← selectiveAckPayload_eq, ← decodeEack_ok] at hack
  have hlen : (b.take 20).length = 20 := by
    rw [List.length_take]
    exact min_eq_left h.header
  have hp := decodePacket_of_parts hlen hh hx hack hbody
  rw [List.take_append_drop] at hp
  exact ⟨_, hp⟩

/-- **The decoder accepts exactly its grammar**, makes no access outside the
bytes, and its loop ends within them.  The body of a packet is what follows
the chain, its acknowledgement that of the last block of type 1. -/
theorem decodePacket_grammar (b : Bytes) :
    decodePacketAt b = .ok (some (decodePacket b)) ∧
    ((∃ p, decodePacket b = .ok p) ↔ ∃ blocks chain body, Grammar b blocks chain body) ∧
    (∀ p, decodePacket b = .ok p → ∃ blocks chain, Grammar b blocks chain p.body ∧
      Acknowledges (lastAckPayload blocks) p.eack) ∧
    (∀ ext, ∃ loop,
      decodeRawExtensionsAt (b.drop 20) ((b.drop 20).length + 1) ext 0 [] = .ok (some loop) ∧
      loop.index ≤ (b.drop 20).length) := by
  refine ⟨decodePacketAt_eq b, ⟨?_, ?_⟩, ?_, ?_⟩
  · rintro ⟨p, hok⟩
    obtain ⟨blocks, chain, hg, -⟩ := decodePacket_ok hok
    exact ⟨blocks, chain, p.body, hg⟩
  · rintro ⟨blocks, chain, body, hg⟩
    exact hg.decodes
  · intro p hok
    obtain ⟨blocks, chain, hg, -, hack⟩ := decodePacket_ok hok
    exact ⟨blocks, chain, hg, hack⟩
  · intro ext
    obtain ⟨loop, hloop, hindex, -⟩ := decodeRawExtensionsAt_ends (b.drop 20) ext
    exact ⟨loop, hloop, hindex⟩

/-! ### The codec -/

theorem length_encode_packet (p : Packet) : p.encode.length = p.encodedLen := by
  obtain ⟨header, - | s, body⟩ := p
  · simp [Packet.encode, Packet.encodedLen]
  · simp [Packet.encode, Packet.encodedLen, SelectiveAck.encodedLen]
    omega

/-- Bytes have one chain at most: the one that is read. -/
theorem Grammar.unique {b chain chain' body body' : Bytes} {blocks blocks' : List ExtensionData}
    (h : Grammar b blocks chain body) (h' : Grammar b blocks' chain' body') :
    blocks' = blocks ∧ chain' = chain ∧ body' = body := by
  have heq := h'.extensions.symm.trans h.extensions
  simp only [Except.ok.injEq, Prod.mk.injEq] at heq
  have happ := List.append_inj (h'.split.symm.trans h.split) heq.2
  exact ⟨heq.1, happ⟩

theorem Chain.eq_nil {ext : Byte} {chain : Bytes} (h : Chain ext chain []) :
    ext = 0 ∧ chain = [] := by
  cases h
  exact ⟨rfl, rfl⟩

theorem Chain.eq_single {ext : Byte} {chain payload : Bytes}
    (h : Chain ext chain [⟨1, payload⟩]) :
    payload.length < 256 ∧ chain = 0 :: BitVec.ofNat 8 payload.length :: payload := by
  cases h with
  | block _ hlen hrest =>
      obtain ⟨rfl, rfl⟩ := hrest.eq_nil
      rw [hlen, List.append_nil, BitVec.ofNat_toNat, BitVec.setWidth_eq]
      exact ⟨BitVec.isLt _, rfl⟩

/-- What is accepted is encoded to itself, if it has no extension or an
acknowledgement only. -/
theorem encode_of_decodePacket {b : Bytes} {p : Packet} (hok : decodePacket b = .ok p)
    {blocks : List ExtensionData} {chain body : Bytes} (hg : Grammar b blocks chain body)
    (hblocks : blocks = [] ∨ ∃ payload, payload ≠ [] ∧ blocks = [⟨1, payload⟩]) :
    p.encode = b := by
  obtain ⟨blocks', chain', hg', henc, hack⟩ := decodePacket_ok hok
  obtain ⟨rfl, rfl, hbody⟩ := hg.unique hg'
  obtain ⟨header, eack, body'⟩ := p
  have hb : header.encodeToBytes ++ (chain' ++ body') = b := by
    rw [henc, ← hg'.split, List.take_append_drop]
  rcases hblocks with rfl | ⟨payload, hne, rfl⟩
  · obtain ⟨-, rfl⟩ := hg'.chain.eq_nil
    cases eack with
    | none => exact hb
    | some s => exact absurd rfl (decodeSelectiveAck_ok.mp hack).1
  · obtain ⟨hlen, rfl⟩ := hg'.chain.eq_single
    cases eack with
    | none => exact absurd hack hne
    | some s =>
        obtain ⟨-, hdvd, rfl⟩ := decodeSelectiveAck_ok.mp hack
        have hpayload := encode_decodeAckWords hdvd
        rw [← hb]
        show header.encodeToBytes ++ [0, BitVec.ofNat 8 (SelectiveAck.encode _).length] ++
          SelectiveAck.encode _ ++ body' = _
        rw [hpayload, List.append_assoc, List.append_assoc]
        rfl

/-- **The codec is a bijection**: a packet that is ready for the wire is
decoded to itself, its length is as computed, and bytes that are accepted,
with no extension or a selective acknowledgement only, are encoded to
themselves. -/
theorem packet_codec :
    (∀ p : Packet, p.WireReady → 0 ≤ p.header.timestamp → p.header.timestamp < 2 ^ 32 →
      decodePacket p.encode = .ok p ∧ p.encode.length = p.encodedLen) ∧
    (∀ b p blocks chain body, decodePacket b = .ok p → Grammar b blocks chain body →
      (blocks = [] ∨ ∃ payload, payload ≠ [] ∧ blocks = [⟨1, payload⟩]) → p.encode = b) := by
  refine ⟨fun p hp hlo hhi => ⟨?_, length_encode_packet p⟩, ?_⟩
  · rw [decodePacket_encode hp]
    have hts : p.header.onWire = p.header := by
      rw [PacketHeaderV1.onWire, Int.emod_eq_of_lt hlo hhi]
    rw [Packet.onWire, hts]
  · intro b p blocks chain body hok hg hblocks
    exact encode_of_decodePacket hok hg hblocks

/-- A STATE packet with one word of acknowledgements. -/
theorem packet_codec_state : decodePacket
    (((newPacketBuilder .st_state 1 7 1000 100).withSelectiveAck
      (some (newSelectiveAck [true]))).build).encode
    = .ok ((newPacketBuilder .st_state 1 7 1000 100).withSelectiveAck
      (some (newSelectiveAck [true]))).build :=
  (packet_codec.1 _ ⟨by decide, rfl, by rintro s ⟨⟩; decide, by rintro ⟨⟩⟩
    (by decide) (by decide)).1

end UtpGo
