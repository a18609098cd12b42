/-
UtpGo/SentPacketsSpec.lean

The state of the sent packets.  The invariant `WF` says that the record at
index `i` carries the number `initSeqNum + 1 + i`, that there are at most
`2 ^ 16` of them, and that the congestion controller has a record for exactly
these numbers.  Numbers and indices determine each other
(`seqNumIndex_number`, `number_seqNumIndex`), the range of the numbers in
flight is a bound on the distance from the initial one
(`seqNumRange_contains`), and `LastAckNum` and `FirstUnackedSeqNum` are read
off the number of packets acknowledged in front (`front`).
-/
import Mathlib.Data.List.TakeWhile
import UtpGo.SentPackets

namespace UtpGo

open Circular Checked

namespace SentPackets

/-! ### Numbers and indices -/

theorem seqNumIndex_eq (s : SentPackets) (seqNum : Uint16) :
    s.seqNumIndex seqNum = (seqNum - s.initSeqNum - 1).toNat := by
  unfold seqNumIndex
  split <;> bv_omega

theorem seqNumIndex_lt (s : SentPackets) (seqNum : Uint16) : s.seqNumIndex seqNum < 65536 := by
  rw [seqNumIndex_eq]
  exact BitVec.isLt _

theorem seqNumIndex_number (s : SentPackets) {i : Nat} (hi : i < 65536) :
    s.seqNumIndex (s.initSeqNum + 1 + BitVec.ofNat 16 i) = i := by
  rw [seqNumIndex_eq]
  bv_omega

theorem number_seqNumIndex (s : SentPackets) (seqNum : Uint16) :
    s.initSeqNum + 1 + BitVec.ofNat 16 (s.seqNumIndex seqNum) = seqNum := by
  rw [seqNumIndex_eq]
  bv_omega

theorem seqNumIndex_inj {s : SentPackets} {x y : Uint16} :
    s.seqNumIndex x = s.seqNumIndex y ↔ x = y := by
  refine ⟨fun h => ?_, fun h => h ▸ rfl⟩
  rw [← s.number_seqNumIndex x, h, number_seqNumIndex]

theorem ahead_eq_index (s : SentPackets) {seqNum : Uint16} (h : seqNum ≠ s.initSeqNum) :
    ahead s.initSeqNum seqNum = s.seqNumIndex seqNum + 1 := by
  rw [seqNumIndex_eq]
  unfold ahead
  bv_omega

theorem seqNumIndex_congr {s s' : SentPackets} (h : s'.initSeqNum = s.initSeqNum)
    (seqNum : Uint16) : s'.seqNumIndex seqNum = s.seqNumIndex seqNum := by
  rw [seqNumIndex_eq, seqNumIndex_eq, h]

theorem nextSeqNum_eq (s : SentPackets) :
    s.nextSeqNum = s.initSeqNum + 1 + BitVec.ofNat 16 s.packets.length := by
  unfold nextSeqNum
  ring

theorem seqNumIndex_next (s : SentPackets) (h : s.packets.length < 65536) :
    s.seqNumIndex s.nextSeqNum = s.packets.length := by
  rw [nextSeqNum_eq, seqNumIndex_number s h]

theorem seqNumRange_contains (s : SentPackets) (h : s.packets.length < 65536) (x : Uint16) :
    s.seqNumRange.contains x = true ↔ ahead s.initSeqNum x ≤ s.packets.length := by
  have hstop : ahead s.initSeqNum (s.nextSeqNum - 1) = s.packets.length := by
    rw [nextSeqNum_eq]
    unfold ahead
    bv_omega
  rw [CircularRangeInclusive.contains_iff, seqNumRange, newCircularRangeInclusive, hstop]

/-- A list of `2 ^ 16` packets has come round to the range of one number. -/
theorem seqNumRange_full (s : SentPackets) (h : s.packets.length = 65536) :
    s.seqNumRange = newCircularRangeInclusive s.initSeqNum s.initSeqNum := by
  have hstop : s.nextSeqNum - 1 = s.initSeqNum := by
    rw [nextSeqNum_eq, h]
    bv_omega
  rw [seqNumRange, hstop]

theorem seqNumRange_congr {s s' : SentPackets} (hinit : s'.initSeqNum = s.initSeqNum)
    (hlen : s'.packets.length = s.packets.length) : s'.seqNumRange = s.seqNumRange := by
  rw [seqNumRange, seqNumRange, nextSeqNum, nextSeqNum, hinit, hlen]

/-! ### Invariant -/

/-- What a record says about the packet: its type and its data. -/
def chunks (s : SentPackets) : List (PacketType × Bytes) :=
  s.packets.map fun p => (p.packetType, p.data)

/-- The packet with index `i` has been acknowledged. -/
def Acked (s : SentPackets) (i : Nat) : Prop := ∃ p, s.packets[i]? = some p ∧ p.acks ≠ []

structure WF (s : SentPackets) : Prop where
  length_le : s.packets.length ≤ 65536
  number : ∀ i p, s.packets[i]? = some p → p.seqNum = s.initSeqNum + 1 + BitVec.ofNat 16 i
  recorded : ∀ x, s.congestionCtrl.transmissions.contains x = true ↔
    s.seqNumIndex x < s.packets.length
  lost : ∀ x, s.lostPackets.contains x = true → s.seqNumIndex x < s.packets.length

theorem wf_new (initSeqNum : Uint16) (config : CtrlConfig) :
    (newSentPackets initSeqNum (newDefaultController config)).WF where
  length_le := by simp [newSentPackets]
  number := by simp [newSentPackets]
  recorded := by simp [newSentPackets, newDefaultController, OrdMap.contains]
  lost := by simp [newSentPackets, OrdMap.contains]

@[simp] theorem length_chunks (s : SentPackets) : s.chunks.length = s.packets.length := by
  simp [chunks]

theorem chunks_getElem? {s : SentPackets} {i : Nat} {p : SentPacket}
    (h : s.packets[i]? = some p) : s.chunks[i]? = some (p.packetType, p.data) := by
  simp [chunks, h]

theorem WF.index_number {s : SentPackets} (h : s.WF) {i : Nat} {p : SentPacket}
    (hp : s.packets[i]? = some p) : s.seqNumIndex p.seqNum = i := by
  have hi : i < s.packets.length := (List.getElem?_eq_some_iff.mp hp).1
  have hle := h.length_le
  rw [h.number i p hp, seqNumIndex_number s (by omega)]

/-- The packet with a number is the one at its index. -/
theorem WF.exists_number {s : SentPackets} (h : s.WF) {x : Uint16} {P : SentPacket → Prop} :
    (∃ p ∈ s.packets, p.seqNum = x ∧ P p) ↔ ∃ p, s.packets[s.seqNumIndex x]? = some p ∧ P p := by
  constructor
  · rintro ⟨p, hp, rfl, hP⟩
    obtain ⟨i, hi⟩ := List.getElem?_of_mem hp
    rw [h.index_number hi]
    exact ⟨p, hi, hP⟩
  · rintro ⟨p, hp, hP⟩
    exact ⟨p, List.mem_of_getElem? hp, seqNumIndex_inj.mp (h.index_number hp), hP⟩

theorem WF.onTimeout {s : SentPackets} (h : s.WF) : s.onTimeout.WF :=
  ⟨h.length_le, h.number, h.recorded, h.lost⟩

/-! ### The first packet not acknowledged -/

/-- The number of packets acknowledged before the first one that is not. -/
def front (s : SentPackets) : Nat :=
  (s.packets.takeWhile fun packetInst => packetInst.acks.length ≠ 0).length

theorem front_le (s : SentPackets) : s.front ≤ s.packets.length :=
  (List.takeWhile_prefix _).length_le

theorem getElem?_of_lt_front {s : SentPackets} {i : Nat} (h : i < s.front) :
    ∃ p, (s.packets.takeWhile fun p => p.acks.length ≠ 0)[i]? = some p ∧
      s.packets[i]? = some p ∧ p.acks ≠ [] := by
  obtain ⟨rest, hrest⟩ := List.takeWhile_prefix (l := s.packets) fun p => p.acks.length ≠ 0
  have hget := List.getElem?_eq_getElem (l := s.packets.takeWhile fun p => p.acks.length ≠ 0) h
  refine ⟨_, hget, ?_, ?_⟩
  · conv_lhs => rw [← hrest]
    rw [List.getElem?_append_left h, hget]
  · intro hnil
    have hp := List.mem_takeWhile_imp (List.mem_of_getElem? hget)
    rw [hnil] at hp
    simp at hp

theorem acked_of_lt_front {s : SentPackets} {i : Nat} (h : i < s.front) : s.Acked i := by
  obtain ⟨p, -, hp, hacks⟩ := getElem?_of_lt_front h
  exact ⟨p, hp, hacks⟩

theorem lastAckNum_eq {s : SentPackets} (h : s.WF) :
    s.lastAckNum = if s.front = 0 then none else some (s.initSeqNum + BitVec.ofNat 16 s.front) := by
  unfold lastAckNum
  rw [List.getLast?_eq_getElem?]
  show Option.map _ (List.takeWhile _ s.packets)[s.front - 1]? = _
  split
  · rename_i h0
    have hnil := List.length_eq_zero_iff.mp h0
    rw [hnil]
    rfl
  · rename_i hne
    obtain ⟨p, htake, hp, -⟩ := getElem?_of_lt_front (s := s) (i := s.front - 1) (by omega)
    rw [htake, Option.map_some, h.number _ _ hp]
    congr 1
    have := s.front_le
    have := h.length_le
    bv_omega

theorem firstUnackedSeqNum_eq {s : SentPackets} (h : s.WF) :
    s.firstUnackedSeqNum = if s.front < s.packets.length
      then some (s.initSeqNum + 1 + BitVec.ofNat 16 s.front) else none := by
  have hle := s.front_le
  have hlen := h.length_le
  unfold firstUnackedSeqNum
  rcases hlast : s.packets.getLast? with - | last
  · rw [List.getLast?_eq_none_iff] at hlast
    simp [hlast]
  · rw [List.getLast?_eq_getElem?] at hlast
    have hpos : 0 < s.packets.length := by
      rcases hl : s.packets with - | ⟨p, ps⟩
      · rw [hl] at hlast
        cases hlast
      · simp
    rw [lastAckNum_eq h]
    dsimp only
    by_cases h0 : s.front = 0
    · rw [if_pos h0, if_pos (by omega), h0]
      simp
    · rw [if_neg h0]
      dsimp only
      rw [h.number _ _ hlast]
      by_cases hfull : s.front = s.packets.length
      · rw [if_pos (by bv_omega), if_neg (by omega)]
      · rw [if_neg (by bv_omega), if_pos (by omega)]
        congr 1
        ring

theorem index_firstUnacked {s : SentPackets} (h : s.WF) {firstUnacked : Uint16}
    (hu : s.firstUnackedSeqNum = some firstUnacked) :
    s.seqNumIndex firstUnacked = s.front ∧ s.front < s.packets.length := by
  rw [firstUnackedSeqNum_eq h] at hu
  split at hu
  · rename_i hlt
    have hlen := h.length_le
    cases hu
    exact ⟨seqNumIndex_number s (by omega), hlt⟩
  · cases hu

end SentPackets

end UtpGo
