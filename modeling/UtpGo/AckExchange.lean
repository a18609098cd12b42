/-
UtpGo/AckExchange.lean

Receiver and sender agree on what a selective acknowledgement says.  The
receiver turns the set of pending numbers into flags, counted from two after
its last in-order number, packs the flags into words and the words into
bytes; the sender unpacks the bytes and turns the flags into numbers again.

Main result: `selectiveAck_agrees`, the numbers the sender arrives at are the
pending ones among the 2016 that the flags reach, each of them once.
-/
import UtpGo.PacketCodec
import UtpGo.RecvBufferAck
import UtpGo.SentPackets

namespace UtpGo

namespace ReceiveBuffer

/-! ### The receiver -/

/-- The flags are exact: within the room there is, a flag is set if and only
if its number is pending. -/
theorem selectiveAckLoop_flag_iff {room : Nat} (hroom : room ≤ 65536) {pendingSeqs : List Uint16}
    {lastAck : Uint16} {i : Nat} : (selectiveAckLoop room pendingSeqs lastAck)[i]? = some true ↔
      i < room ∧ lastAck + BitVec.ofNat 16 i ∈ pendingSeqs := by
  constructor
  · intro h
    have hlt := (List.getElem?_eq_some_iff.mp h).1
    have hle := length_selectiveAckLoop_le room pendingSeqs lastAck
    exact ⟨by omega, selectiveAckLoop_flag h⟩
  rintro ⟨hi, hmem⟩
  induction room generalizing pendingSeqs lastAck i with
  | zero => omega
  | succ room ih =>
      unfold selectiveAckLoop
      rw [if_neg (by simpa using List.ne_nil_of_mem hmem)]
      cases i with
      | zero =>
          have hlast : lastAck ∈ pendingSeqs := by simpa using hmem
          rw [if_pos hlast]
          rfl
      | succ j =>
          have hnext : lastAck + BitVec.ofNat 16 (j + 1) = lastAck + 1 + BitVec.ofNat 16 j := by
            bv_omega
          -- the number comes later, so it is not the one that is taken out here
          have hne : lastAck + BitVec.ofNat 16 (j + 1) ≠ lastAck := by bv_omega
          split
          · refine ih (by omega) (by omega) ?_
            rw [← hnext]
            exact (List.mem_erase_of_ne hne).mpr hmem
          · refine ih (by omega) (by omega) ?_
            rw [← hnext]
            exact hmem

/-- A selective acknowledgement that is sent: a flag is set if and only if
its number is pending and within reach. -/
theorem selectiveAck_flag_iff {rb : ReceiveBuffer} {s : SelectiveAck}
    (h : rb.selectiveAck = some s) {i : Nat} : s.acked[i]? = some true ↔
      i < maxSelectiveAckCount ∧
        rb.pending.contains (rb.ackNum + 2 + BitVec.ofNat 16 i) = true := by
  have hroom : maxSelectiveAckCount ≤ 65536 := by decide
  unfold selectiveAck at h
  split at h
  · cases h
  cases h
  obtain ⟨n, hpad⟩ := acked_newSelectiveAck
    (selectiveAckLoop maxSelectiveAckCount rb.pending.keys (rb.ackNum + 2))
  have hkey : ∀ x, x ∈ rb.pending.keys ↔ rb.pending.contains x = true := fun x => by
    rw [OrdMap.mem_keys, OrdMap.contains_iff]
  rw [hpad, ← hkey, ← selectiveAckLoop_flag_iff hroom]
  rcases Nat.lt_or_ge i
    (selectiveAckLoop maxSelectiveAckCount rb.pending.keys (rb.ackNum + 2)).length with hlt | hge
  · rw [List.getElem?_append_left hlt]
  · -- the padding is not set, and there is no flag beyond the flags
    rw [List.getElem?_append_right hge, List.getElem?_eq_none hge]
    refine ⟨fun hi => ?_, nofun⟩
    exact absurd (List.eq_of_mem_replicate (List.mem_of_getElem? hi)) (by simp)

end ReceiveBuffer

/-! ### The sender -/

namespace SentPackets

theorem mem_selectedAcks {ackNum x : Uint16} {s : SelectiveAck} : x ∈ selectedAcks ackNum s ↔
    ∃ i, s.acked[i]? = some true ∧ ackNum + 2 + BitVec.ofNat 16 i = x := by
  unfold selectedAcks
  rw [List.mem_filterMap]
  constructor
  · rintro ⟨⟨isAcked, i⟩, hmem, hx⟩
    rw [List.mem_zipIdx_iff_getElem?] at hmem
    cases isAcked with
    | false => cases hx
    | true => exact ⟨i, hmem, Option.some.inj hx⟩
  · rintro ⟨i, hi, rfl⟩
    exact ⟨(true, i), List.mem_zipIdx_iff_getElem?.mpr hi, rfl⟩

/-- Different flags stand for different numbers, as long as they do not come
round. -/
theorem nodup_selectedAcks {ackNum : Uint16} {s : SelectiveAck} (h : s.acked.length ≤ 65536) :
    (selectedAcks ackNum s).Nodup := by
  have hidx : s.acked.zipIdx.Pairwise fun a b => a.2 < b.2 := by
    rw [← List.pairwise_map, List.zipIdx_map_snd]
    exact List.pairwise_lt_range'
  have hbound : ∀ a ∈ s.acked.zipIdx, a.2 < 65536 := by
    intro a ha
    have hlt := (List.mem_zipIdx ha).2.1
    omega
  unfold selectedAcks
  rw [List.nodup_iff_pairwise_ne, List.pairwise_filterMap]
  refine hidx.imp_of_mem ?_
  rintro ⟨p, i⟩ ⟨q, j⟩ hi hj hlt x hx y hy
  have hi' := hbound _ hi
  have hj' := hbound _ hj
  dsimp only at hx hy hlt hi' hj'
  split at hx <;> cases hx
  split at hy <;> cases hy
  bv_omega

end SentPackets

/-! ### Agreement -/

/-- **Both ends agree**: the selective acknowledgement of a receive buffer
with pending packets fits on the wire and survives it, and with the
receiver's `ackNum` the sender derives from it, without repetition, exactly
the pending numbers that lie less than 2016 after `ackNum + 2`. -/
theorem selectiveAck_agrees (rb : ReceiveBuffer) (h : rb.pending.size ≠ 0) :
    ∃ s, rb.selectiveAck = some s ∧ 1 ≤ s.words.length ∧ s.words.length ≤ 63 ∧
      decodeSelectiveAck s.encode = .ok s ∧ (SentPackets.selectedAcks rb.ackNum s).Nodup ∧
      ∀ x, x ∈ SentPackets.selectedAcks rb.ackNum s ↔
        rb.pending.contains x = true ∧ (x - rb.ackNum - 2).toNat < 2016 := by
  obtain ⟨s, hs⟩ : ∃ s, rb.selectiveAck = some s := by
    rw [ReceiveBuffer.selectiveAck, if_neg h]
    exact ⟨_, rfl⟩
  obtain ⟨⟨hne, hle⟩, -⟩ := ReceiveBuffer.selectiveAck_spec hs
  have hlen := s.length_acked
  refine ⟨s, hs, List.length_pos_iff.mpr hne, hle, decodeSelectiveAck_encode hne,
    SentPackets.nodup_selectedAcks (by omega), fun x => ?_⟩
  rw [SentPackets.mem_selectedAcks]
  constructor
  · rintro ⟨i, hi, rfl⟩
    obtain ⟨hlt, hpending⟩ := (ReceiveBuffer.selectiveAck_flag_iff hs).mp hi
    refine ⟨hpending, ?_⟩
    unfold maxSelectiveAckCount at hlt
    bv_omega
  · rintro ⟨hpending, hlt⟩
    have hx : rb.ackNum + 2 + BitVec.ofNat 16 (x - rb.ackNum - 2).toNat = x := by
      bv_omega
    refine ⟨(x - rb.ackNum - 2).toNat, ?_, hx⟩
    rw [ReceiveBuffer.selectiveAck_flag_iff hs, hx]
    exact ⟨hlt, hpending⟩

/-- A buffer that waits for the numbers 101 and 102. -/
theorem selectiveAck_agrees_gap : ∃ rb s, (newReceiveBuffer 16 100).write [7] 103 = .ok (rb, none) ∧
    rb.selectiveAck = some s ∧ 103 ∈ SentPackets.selectedAcks rb.ackNum s := by
  have hwrite : ∃ rb, (newReceiveBuffer 16 100).write [7] 103 = .ok (rb, none) ∧
      rb.pending.size ≠ 0 ∧ rb.pending.contains 103 = true ∧ rb.ackNum = 100 :=
    ⟨_, rfl, by decide, by decide, rfl⟩
  obtain ⟨rb, hok, hsize, hpending, hack⟩ := hwrite
  obtain ⟨s, hs, -, -, -, -, hx⟩ := selectiveAck_agrees rb hsize
  refine ⟨rb, s, hok, hs, (hx 103).mpr ⟨hpending, ?_⟩⟩
  rw [hack]
  decide

end UtpGo
