/-
UtpGo/SentPacketsTransmit.lean

What a transmission does to the sent packets: it appends the record of the
next number or marks a recorded one as sent again (`onTransmit_ok`).  The
next number is new as long as the list holds fewer than `2 ^ 16` records
(`onTransmit_next`); an empty packet may still not fit, because the limit can
fall below the bytes in flight (`onTransmit_next_panics`).
-/
import UtpGo.SentPacketsSpec

namespace UtpGo

open Circular Checked

namespace SentPackets

/-! ### Transmitting -/

/-- The state after a first transmission. -/
def transmitNew (s : SentPackets) (packetType : PacketType) (data : Bytes) (dataLen : Uint32)
    (now : Time) : SentPackets :=
  { s with
    packets := s.packets ++ [{ seqNum := s.nextSeqNum, packetType, data, transmission := now,
                               retransmission := now, acks := [] }]
    congestionCtrl := { s.congestionCtrl with
      transmissions := s.congestionCtrl.transmissions.insert s.nextSeqNum
        { sizeBytes := dataLen, numTransmissions := 1, acked := false }
      windowSizeBytes := s.congestionCtrl.windowSizeBytes + dataLen } }

section Transmit

variable {s s' : SentPackets} {seqNum : Uint16} (packetType : PacketType) (data : Bytes)
  {dataLen : Uint32} (now : Time)

theorem WF.next_unrecorded (h : s.WF) (hlen : s.packets.length < 65536) :
    s.congestionCtrl.transmissions.get? s.nextSeqNum = none := by
  have hnot : ¬ s.congestionCtrl.transmissions.contains s.nextSeqNum = true := by
    rw [h.recorded, seqNumIndex_next s hlen]
    exact lt_irrefl _
  rcases hget : s.congestionCtrl.transmissions.get? s.nextSeqNum with - | r
  · rfl
  · exact absurd (by simp [OrdMap.contains, hget]) hnot

/-- The next number is new: its record is appended and charged. -/
theorem onTransmit_next (h : s.WF) (hlen : s.packets.length < 65536) (hfit : dataLen ≤ s.window)
    (hempty : dataLen = 0 →
      s.congestionCtrl.windowSizeBytes ≤ s.congestionCtrl.maxWindowSizeBytes) :
    s.onTransmit s.nextSeqNum packetType data dataLen now
      = .ok (s.transmitNew packetType data dataLen now) := by
  obtain ⟨hle, -⟩ := DefaultController.fits_of_le_available hfit hempty
  unfold onTransmit
  dsimp only
  rw [seqNumIndex_next s hlen, if_neg (lt_irrefl _),
    if_neg (fun hc => absurd hc.2 (not_lt.mpr hfit))]
  simp only [lt_irrefl, if_false,
    DefaultController.onTransmit_initial (h.next_unrecorded hlen) hle]
  rfl

/-- An empty packet does not fit once the limit is below what is in
flight. -/
theorem onTransmit_next_panics (h : s.WF) (hlen : s.packets.length < 65536)
    (hover : s.congestionCtrl.maxWindowSizeBytes < s.congestionCtrl.windowSizeBytes) :
    s.onTransmit s.nextSeqNum packetType data 0 now
      = .error (.raised (.controller .errInsufficientWindowSize)) := by
  have herr : (s.congestionCtrl.onTransmit s.nextSeqNum .initial 0).2
      = some .errInsufficientWindowSize :=
    DefaultController.onTransmit_initial_error (h.next_unrecorded hlen) (by simpa using hover)
  unfold onTransmit
  dsimp only
  rw [seqNumIndex_next s hlen, if_neg (lt_irrefl _),
    if_neg (fun hc => absurd hc.2 (by simp))]
  simp only [lt_irrefl, if_false]
  rcases hc : s.congestionCtrl.onTransmit s.nextSeqNum .initial 0 with ⟨ctrl, err⟩
  rw [hc] at herr
  cases herr
  rfl

/-- A number with a record is sent again. -/
theorem onTransmit_again {r : PacketRecord} (hidx : s.seqNumIndex seqNum < s.packets.length)
    (hold : s.congestionCtrl.transmissions.get? seqNum = some r)
    (hn : r.numTransmissions + 1 ≠ 1) :
    s.onTransmit seqNum packetType data dataLen now = .ok { s with
      packets := s.packets.modify (s.seqNumIndex seqNum) fun packetInst =>
        { packetInst with retransmission := now }
      congestionCtrl := { s.congestionCtrl with
        transmissions := s.congestionCtrl.transmissions.insert seqNum
          { r with numTransmissions := r.numTransmissions + 1 } } } := by
  unfold onTransmit
  dsimp only
  rw [if_neg (by omega), if_neg (fun hc => hc.1 hidx)]
  simp only [hidx, if_true, DefaultController.onTransmit_retransmission hold hn]
  rfl

theorem wf_transmitNew (h : s.WF) (hlen : s.packets.length < 65536) :
    (s.transmitNew packetType data dataLen now).WF := by
  have hidx : ∀ x, (s.transmitNew packetType data dataLen now).seqNumIndex x = s.seqNumIndex x :=
    fun x => seqNumIndex_congr rfl x
  have hlen' : (s.transmitNew packetType data dataLen now).packets.length
      = s.packets.length + 1 := by
    simp [transmitNew]
  refine ⟨by omega, ?_, ?_, ?_⟩
  · intro i p hp
    change (s.packets ++ [_])[i]? = some p at hp
    rcases Nat.lt_or_ge i s.packets.length with hi | hi
    · rw [List.getElem?_append_left hi] at hp
      exact h.number i p hp
    · rw [List.getElem?_append_right hi, List.getElem?_singleton] at hp
      split at hp
      · obtain rfl : i = s.packets.length := by omega
        cases hp
        exact nextSeqNum_eq s
      · cases hp
  · intro x
    show (s.congestionCtrl.transmissions.insert _ _).contains x = true ↔ _
    rw [OrdMap.contains_insert, h.recorded, hidx, hlen']
    constructor
    · rintro (rfl | hx)
      · rw [seqNumIndex_next s hlen]
        omega
      · omega
    · intro hx
      by_cases heq : s.seqNumIndex x = s.packets.length
      · left
        rw [← number_seqNumIndex s x, heq, nextSeqNum_eq]
      · right
        omega
  · intro x hx
    have := h.lost x hx
    rw [hidx, hlen']
    omega

@[simp] theorem chunks_transmitNew :
    (s.transmitNew packetType data dataLen now).chunks = s.chunks ++ [(packetType, data)] := by
  simp [chunks, transmitNew]

theorem acked_transmitNew {i : Nat} :
    (s.transmitNew packetType data dataLen now).Acked i ↔ s.Acked i := by
  unfold Acked
  show (∃ p, (s.packets ++ [_])[i]? = some p ∧ _) ↔ _
  refine exists_congr fun p => and_congr_left fun hacks => ?_
  rcases Nat.lt_or_ge i s.packets.length with hi | hi
  · rw [List.getElem?_append_left hi]
  · rw [List.getElem?_append_right hi, List.getElem?_eq_none hi, List.getElem?_singleton]
    split
    · simp only [Option.some.injEq, reduceCtorEq, iff_false]
      rintro rfl
      exact hacks rfl
    · rfl

/-- What sending a recorded number again does. -/
structure Resent (s : SentPackets) (seqNum : Uint16) (s' : SentPackets) : Prop where
  index : s.seqNumIndex seqNum < s.packets.length
  wf : s'.WF
  init : s'.initSeqNum = s.initSeqNum
  chunks : s'.chunks = s.chunks
  acked : ∀ i, s'.Acked i ↔ s.Acked i
  record : ∃ r, s.congestionCtrl.transmissions.get? seqNum = some r ∧
    s'.congestionCtrl.transmissions = s.congestionCtrl.transmissions.insert seqNum
      { r with numTransmissions := r.numTransmissions + 1 }

theorem chunks_modify (packets : List SentPacket) (i : Nat) (now : Time) :
    (packets.modify i fun p => { p with retransmission := now }).map
      (fun p => (p.packetType, p.data)) = packets.map fun p => (p.packetType, p.data) := by
  apply List.ext_getElem?
  intro j
  rw [List.getElem?_map, List.getElem?_map, List.getElem?_modify]
  rcases packets[j]? with - | p
  · rfl
  · show some _ = some _
    split <;> rfl

theorem charge_transmissions (c : DefaultController) (r : PacketRecord) :
    (c.charge r).1.transmissions = c.transmissions := by
  unfold DefaultController.charge
  split
  · split <;> rfl
  · rfl

theorem resent_modify (h : s.WF) (hidx : s.seqNumIndex seqNum < s.packets.length)
    {r : PacketRecord} (hold : s.congestionCtrl.transmissions.get? seqNum = some r)
    {ctrl : DefaultController}
    (hctrl : ctrl.transmissions = s.congestionCtrl.transmissions.insert seqNum
      { r with numTransmissions := r.numTransmissions + 1 }) :
    Resent s seqNum { s with
      packets := s.packets.modify (s.seqNumIndex seqNum) fun packetInst =>
        { packetInst with retransmission := now }
      congestionCtrl := ctrl } := by
  have hget : ∀ i, (s.packets.modify (s.seqNumIndex seqNum) fun packetInst =>
      { packetInst with retransmission := now })[i]? = s.packets[i]?.map fun packetInst =>
        if s.seqNumIndex seqNum = i then { packetInst with retransmission := now }
        else packetInst := by
    intro i
    rw [List.getElem?_modify]
    rfl
  refine ⟨hidx, ⟨?_, ?_, ?_, ?_⟩, rfl, ?_, ?_, r, hold, hctrl⟩
  · simpa using h.length_le
  · intro i p hp
    change (s.packets.modify _ _)[i]? = some p at hp
    rw [hget] at hp
    obtain ⟨q, hq, rfl⟩ := Option.map_eq_some_iff.mp hp
    have := h.number i q hq
    split <;> exact this
  · intro x
    show ctrl.transmissions.contains x = true ↔ s.seqNumIndex x < (s.packets.modify _ _).length
    rw [hctrl, OrdMap.contains_insert, h.recorded, List.length_modify]
    constructor
    · rintro (rfl | hx)
      · exact hidx
      · exact hx
    · exact .inr
  · intro x hx
    show s.seqNumIndex x < (s.packets.modify _ _).length
    rw [List.length_modify]
    exact h.lost x hx
  · exact chunks_modify s.packets _ now
  · intro i
    unfold Acked
    show (∃ p, (s.packets.modify _ _)[i]? = some p ∧ _) ↔ _
    rw [hget]
    constructor
    · rintro ⟨p, hp, hacks⟩
      obtain ⟨q, hq, rfl⟩ := Option.map_eq_some_iff.mp hp
      refine ⟨q, hq, ?_⟩
      split at hacks <;> exact hacks
    · rintro ⟨p, hp, hacks⟩
      rw [hp]
      refine ⟨_, rfl, ?_⟩
      split <;> exact hacks

variable {packetType data now}

/-- A transmission that returns, by the position of the number: within the
records it changes one of them, at their end it adds one that fits into the
window. -/
theorem onTransmit_inv (hok : s.onTransmit seqNum packetType data dataLen now = .ok s') :
    (s.seqNumIndex seqNum < s.packets.length ∧ ∃ ctrl,
      s.congestionCtrl.onTransmit seqNum .retransmission dataLen = (ctrl, none) ∧
      s' = { s with
        packets := s.packets.modify (s.seqNumIndex seqNum) fun packetInst =>
          { packetInst with retransmission := now }
        congestionCtrl := ctrl }) ∨
    (s.seqNumIndex seqNum = s.packets.length ∧ dataLen ≤ s.window ∧ ∃ ctrl,
      s.congestionCtrl.onTransmit seqNum .initial dataLen = (ctrl, none) ∧
      s' = { s with
        packets := s.packets ++ [⟨seqNum, packetType, data, now, now, []⟩]
        congestionCtrl := ctrl }) := by
  unfold onTransmit at hok
  dsimp only at hok
  split at hok
  · cases hok
  rename_i hle
  split at hok
  · cases hok
  rename_i hfits
  by_cases hidx : s.seqNumIndex seqNum < s.packets.length
  · rw [if_pos hidx, if_pos hidx] at hok
    split at hok
    · cases hok
    · rename_i ctrl hctrl
      exact .inl ⟨hidx, ctrl, hctrl, (pure_eq_ok.mp hok).symm⟩
  · rw [if_neg hidx, if_neg hidx] at hok
    split at hok
    · cases hok
    · rename_i ctrl hctrl
      have hwindow : dataLen ≤ s.window := not_lt.mp fun hgt => hfits ⟨hidx, hgt⟩
      exact .inr ⟨by omega, hwindow, ctrl, hctrl, (pure_eq_ok.mp hok).symm⟩

/-- **A transmission that returns** appended the record of the next number or
sent a recorded number again. -/
theorem onTransmit_ok (h : s.WF)
    (hok : s.onTransmit seqNum packetType data dataLen now = .ok s') :
    (seqNum = s.nextSeqNum ∧ s.packets.length < 65536 ∧
      s' = s.transmitNew packetType data dataLen now) ∨ Resent s seqNum s' := by
  rcases onTransmit_inv hok with ⟨hidx, ctrl, hc, rfl⟩ | ⟨hidx, -, ctrl, hc, rfl⟩
  · right
    obtain ⟨r, hr⟩ := Option.isSome_iff_exists.mp ((h.recorded seqNum).mpr hidx)
    refine resent_modify now h hidx hr ?_
    have hctrl := congrArg (·.1.transmissions) hc
    simp only [DefaultController.onTransmit, hr] at hctrl
    exact hctrl.symm.trans (charge_transmissions _ _)
  · left
    have hlen : s.packets.length < 65536 := hidx ▸ s.seqNumIndex_lt seqNum
    have hnum : seqNum = s.nextSeqNum := by
      rw [← seqNumIndex_inj (s := s), seqNumIndex_next s hlen, hidx]
    subst hnum
    refine ⟨rfl, hlen, ?_⟩
    have hnew : s.congestionCtrl.transmissions.contains s.nextSeqNum = false := by
      simp [OrdMap.contains, h.next_unrecorded hlen]
    simp only [DefaultController.onTransmit, hnew, Bool.false_eq_true, if_false,
      DefaultController.charge, if_true] at hc
    split at hc
    · cases hc
    · cases hc
      rfl

/-- The next number is recorded when it is sent. -/
theorem onTransmit_fresh (h : s.WF) (hlen : s.packets.length < 65536)
    (hok : s.onTransmit s.nextSeqNum packetType data dataLen now = .ok s') :
    s' = s.transmitNew packetType data dataLen now := by
  rcases onTransmit_ok h hok with ⟨-, -, hnew⟩ | hres
  · exact hnew
  · have hidx := hres.index
    rw [seqNumIndex_next s hlen] at hidx
    exact absurd hidx (lt_irrefl _)

theorem nextSeqNum_transmitNew :
    (s.transmitNew packetType data dataLen now).nextSeqNum = s.nextSeqNum + 1 := by
  have hlen : (s.transmitNew packetType data dataLen now).packets.length
      = s.packets.length + 1 := by
    rw [← length_chunks, chunks_transmitNew, List.length_append, length_chunks,
      List.length_singleton]
  have hinit : (s.transmitNew packetType data dataLen now).initSeqNum = s.initSeqNum := rfl
  rw [nextSeqNum_eq, nextSeqNum_eq, hlen, hinit]
  bv_omega

/-- What any transmission keeps: the numbers, the packets recorded and what
was acknowledged. -/
structure Transmitted (s s' : SentPackets) : Prop where
  init : s'.initSeqNum = s.initSeqNum
  chunks : s.chunks <+: s'.chunks
  nonempty : s'.chunks ≠ []
  acked : ∀ i, s'.Acked i ↔ s.Acked i

theorem transmitted_of_ok (h : s.WF)
    (hok : s.onTransmit seqNum packetType data dataLen now = .ok s') : Transmitted s s' := by
  rcases onTransmit_ok h hok with ⟨-, -, rfl⟩ | hres
  · refine ⟨rfl, ?_, ?_, fun i => acked_transmitNew _ _ _⟩
    · rw [chunks_transmitNew]
      exact List.prefix_append _ _
    · rw [chunks_transmitNew]
      exact List.append_ne_nil_of_right_ne_nil _ (List.cons_ne_nil _ _)
  · refine ⟨hres.init, by rw [hres.chunks], ?_, hres.acked⟩
    have hidx := hres.index
    rw [hres.chunks, ← List.length_pos_iff, length_chunks]
    omega

theorem Transmitted.length_le (h : Transmitted s s') : s.packets.length ≤ s'.packets.length := by
  rw [← length_chunks, ← length_chunks]
  exact h.chunks.length_le

theorem WF.of_transmit (h : s.WF)
    (hok : s.onTransmit seqNum packetType data dataLen now = .ok s') : s'.WF := by
  rcases onTransmit_ok h hok with ⟨-, hlen, rfl⟩ | hres
  · exact wf_transmitNew _ _ _ h hlen
  · exact hres.wf

/-- What holds of the packets recorded and of the one sent holds of the
packets recorded then. -/
theorem forall_chunks_of_transmit {P : PacketType × Bytes → Prop} (h : s.WF)
    (hold : ∀ chunk ∈ s.chunks, P chunk) (hnew : P (packetType, data))
    (hok : s.onTransmit seqNum packetType data dataLen now = .ok s') :
    ∀ chunk ∈ s'.chunks, P chunk := by
  rcases onTransmit_ok h hok with ⟨-, -, rfl⟩ | hres
  · rw [chunks_transmitNew]
    intro chunk hchunk
    rcases List.mem_append.mp hchunk with hchunk | hchunk
    · exact hold chunk hchunk
    · obtain rfl := List.mem_singleton.mp hchunk
      exact hnew
  · rw [hres.chunks]
    exact hold

end Transmit

end SentPackets

end UtpGo
