/-
UtpGo/SentPacketsExact.lean

Exactly which packets an acknowledgement marks, and what is told of it to the
timers.  `SentPacketsAck` says that no packet is marked that is not covered;
here is the other half, that all of them are.

Flag `i` of a selective acknowledgement names the packet with the number
`ackNum + 2 + i` (`Names`).  The flags are processed up to the first number
that was not sent, so one at a position of 65535 or more, where the numbers
have come round, is never processed.  No packet has room for so many flags.

Main results:

* `onAck_marks_exactly`: the packets acknowledged after `onAck`;
* `onAck_reports_iff`: when what `onAck` reports is what it has recorded.
-/
import UtpGo.AckExchange
import UtpGo.PacketGrammar
import UtpGo.SentPacketsLoss

namespace UtpGo

open Circular Checked

namespace SentPackets

/-! ### Everything covered is marked -/

section Marks

variable [Float64] {delay : Duration} {now : Time} {s s' : SentPackets}

theorem ack_marks {x : Uint16} (hok : s.ack x delay now = .ok (s', none)) :
    s'.Acked (s.seqNumIndex x) := by
  obtain ⟨p, hp, hrest⟩ := bind_eq_ok.mp hok
  rw [index_eq_ok] at hp
  have hi := (List.getElem?_eq_some_iff.mp hp).1
  split at hrest
  · cases hrest
  · split at hrest
    · cases hrest
      exact (acked_set hi rfl (by simp) _).mpr (.inl rfl)
    · rename_i hacks
      cases hrest
      exact ⟨p, hp, fun hnil => hacks (congrArg List.length hnil)⟩

theorem selectiveAckLoop_marks {r : CircularRangeInclusive} {acked : List Bool} {first : Uint16}
    (h : s.WF) (hok : selectiveAckLoop r delay now acked first s = .ok (s', none)) {i : Nat}
    (hi : Flagged r acked first i) : s'.Acked (s.seqNumIndex (first + BitVec.ofNat 16 i)) := by
  induction acked generalizing first s i with
  | nil => cases hi.1
  | cons flag acked ih =>
      have hc : r.contains first = true := by simpa using hi.2 0 (Nat.zero_le i)
      cases flag with
      | true =>
          simp only [selectiveAckLoop, hc, if_true] at hok
          obtain ⟨⟨s₁, err⟩, hack, hrest⟩ := bind_eq_ok.mp hok
          cases err with
          | some err => cases hrest
          | none =>
              obtain ⟨x, -, h₁⟩ := h.ackStep ⟨first, delay, now, hack⟩
              cases i with
              | zero =>
                  -- marked now, and the rest of the loop keeps the mark
                  have hsteps := selectiveAckLoop_steps hrest
                  refine (hsteps.acks h₁.wf).mono _ ?_
                  simpa using ack_marks hack
              | succ i =>
                  rw [add_ofNat_succ, ← h₁.index]
                  exact ih h₁.wf hrest (flagged_succ.mp hi).2
      | false =>
          simp only [selectiveAckLoop, hc, if_true, Bool.false_eq_true, if_false] at hok
          cases i with
          | zero => cases (flagged_zero.mp hi).1
          | succ i =>
              rw [add_ofNat_succ]
              exact ih h hok (flagged_succ.mp hi).2

theorem ackEach_marks {l : List Uint16} (h : s.WF) (hok : ackEach delay now l s = .ok (s', none))
    {x : Uint16} (hx : x ∈ l) : s'.Acked (s.seqNumIndex x) := by
  induction l generalizing s with
  | nil => cases hx
  | cons y l ih =>
      obtain ⟨⟨s₁, err⟩, hack, hrest⟩ := bind_eq_ok.mp hok
      cases err with
      | some err => cases hrest
      | none =>
          obtain ⟨z, -, h₁⟩ := h.ackStep ⟨y, delay, now, hack⟩
          rcases List.mem_cons.mp hx with rfl | hx
          · exact ((ackEach_steps hrest).acks h₁.wf).mono _ (ack_marks hack)
          · rw [← h₁.index]
            exact ih h₁.wf hrest hx

theorem ackPriorUnacked_marks {x firstUnacked : Uint16} (h : s.WF)
    (hfirst : s.firstUnackedSeqNum = some firstUnacked)
    (hok : s.ackPriorUnacked x firstUnacked delay now = .ok (s', none)) {j : Nat}
    (hj : j < s.seqNumIndex x) : s'.Acked j := by
  have hmono := ((ackPriorUnacked_steps hok).acks h).mono
  have hidx := (index_firstUnacked h hfirst).1
  by_cases hfront : j < s.front
  · exact hmono j (acked_of_lt_front hfront)
  unfold ackPriorUnacked at hok
  dsimp only at hok
  rw [hidx, if_neg (by omega)] at hok
  obtain ⟨prior, hslice, hrest⟩ := bind_eq_ok.mp hok
  obtain ⟨-, hle, rfl⟩ := slice_eq_ok.mp hslice
  obtain ⟨p, hp⟩ : ∃ p, s.packets[j]? = some p := ⟨_, List.getElem?_eq_getElem (by omega)⟩
  have hmem : p ∈ (s.packets.take (s.seqNumIndex x)).drop s.front := by
    refine List.mem_of_getElem? (i := j - s.front) ?_
    rw [List.getElem?_drop, show s.front + (j - s.front) = j by omega, List.getElem?_take,
      if_pos hj]
    exact hp
  rw [← h.index_number hp]
  exact ackEach_marks h hrest (List.mem_map_of_mem hmem)

theorem ackWithFlags_marks {ackNum : Uint16} {selectiveAck : Option SelectiveAck} (h : s.WF)
    (hok : s.ackWithFlags ackNum selectiveAck delay now = .ok (s', none)) {j : Nat}
    (hj : j = s.seqNumIndex ackNum ∨ s.Selected ackNum selectiveAck j) : s'.Acked j := by
  cases selectiveAck with
  | none =>
      rcases hj with rfl | ⟨sack, i, hsack, -⟩
      · exact ack_marks hok
      · cases hsack
  | some sack =>
      obtain ⟨⟨s₁, err⟩, hack, hrest⟩ := bind_eq_ok.mp hok
      cases err with
      | some err => cases hrest
      | none =>
          obtain ⟨z, -, h₁⟩ := h.ackStep ⟨ackNum, delay, now, hack⟩
          rcases hj with rfl | ⟨sack', i, hsack, hi, rfl⟩
          · exact ((selectiveAckLoop_steps hrest).acks h₁.wf).mono _ (ack_marks hack)
          · cases hsack
            rw [← h₁.index]
            rw [← h₁.range] at hi
            exact selectiveAckLoop_marks h₁.wf hrest hi

/-- Every packet an acknowledgement covers is acknowledged once `onAck` has
returned. -/
theorem onAck_marks {ackNum : Uint16} {selectiveAck : Option SelectiveAck}
    {r : Except SentError (CircularRangeInclusive × List Uint16)} (h : s.WF)
    (hok : s.onAck ackNum selectiveAck delay now = .ok (s', r)) {j : Nat}
    (hj : s.Covered ackNum selectiveAck j) : s'.Acked j := by
  obtain ⟨hacc, hj⟩ := hj
  have hlt : j < s.packets.length := by
    rcases onAck_spec delay now h ackNum selectiveAck with ⟨-, hpanic⟩ | ⟨hover, -⟩
    · cases hok.symm.trans hpanic
    · rcases hj with hj | hj
      · exact hj.trans_lt hacc.index_lt
      · exact not_le.mp fun hle => hover ⟨hacc, j, hj, hle⟩
  obtain ⟨err, hnum, -⟩ := onAck_acceptable h hacc hok
  obtain ⟨s₁, hflags, h₁, hrest⟩ := onAckNum_cases h hacc.index_lt hnum
  have hsteps := (ackWithFlags_steps hflags).acks h
  rcases hrest with ⟨hall, rfl, -⟩ | ⟨s₂, firstUnacked, losts, hu, hprior, -, rfl, -⟩
  · -- nothing is left to acknowledge
    apply acked_of_lt_front
    rw [hall, hsteps.length]
    exact hlt
  · have hkeep : s₂.Acked j → (losts.foldl markLost s₂).Acked j := by
      unfold Acked
      rw [(foldl_markLost losts s₂).1]
      exact id
    apply hkeep
    rcases Nat.lt_or_ge j (s.seqNumIndex ackNum) with hbefore | hafter
    · rw [← hsteps.index] at hbefore
      exact ackPriorUnacked_marks h₁ hu hprior hbefore
    · refine ((ackPriorUnacked_steps hprior).acks h₁).mono j (ackWithFlags_marks h hflags ?_)
      exact hj.imp_left fun hle => le_antisymm hle hafter

end Marks

/-! ### What the flags name -/

/-- Flag `i` is set, and the number it is for is that of packet `j`. -/
def Names (s : SentPackets) (ackNum : Uint16) (selectiveAck : Option SelectiveAck) (i j : Nat) :
    Prop :=
  ∃ sack, selectiveAck = some sack ∧ sack.acked[i]? = some true ∧
    s.seqNumIndex (ackNum + 2 + BitVec.ofNat 16 i) = j ∧ j < s.packets.length

/-- The flags of a packet lie below the limit. -/
theorem Names.lt_of_decoded {s : SentPackets} {ackNum : Uint16} {b : Bytes} {p : Packet}
    (hok : decodePacket b = .ok p) {i j : Nat} (h : s.Names ackNum p.eack i j) : i < 65535 := by
  obtain ⟨sack, hsack, hset, -⟩ := h
  have hlen := length_acked_decoded hok hsack
  have hlt := (List.getElem?_eq_some_iff.mp hset).1
  omega

/-- The flags that are processed are those that name a packet after the
number acknowledged. -/
theorem covered_iff {s : SentPackets} (hlen : s.packets.length < 65534) {ackNum : Uint16}
    (hacc : s.Acceptable ackNum) (selectiveAck : Option SelectiveAck) (j : Nat) :
    s.Covered ackNum selectiveAck j ↔
      j ≤ s.seqNumIndex ackNum ∨ ∃ i < 65535, s.Names ackNum selectiveAck i j := by
  obtain ⟨hne, hle⟩ := hacc
  have hahead := s.ahead_eq_index hne
  -- how far flag `i` is from the initial number
  have hflag : ∀ i, ahead s.initSeqNum (ackNum + 2 + BitVec.ofNat 16 i)
      = (ahead s.initSeqNum ackNum + 2 + i) % 65536 := by
    intro i
    unfold ahead
    bv_omega
  have hindex : ∀ i, s.seqNumIndex (ackNum + 2 + BitVec.ofNat 16 i)
      = (s.seqNumIndex ackNum + 2 + i) % 65536 := by
    intro i
    rw [seqNumIndex_eq, seqNumIndex_eq]
    bv_omega
  constructor
  · rintro ⟨-, hj | ⟨sack, i, hsack, ⟨hset, hin⟩, rfl⟩⟩
    · exact .inl hj
    -- the first number past the last one sent would have stopped the loop
    have hreach : s.seqNumIndex ackNum + 2 + i < s.packets.length := by
      by_contra hnot
      have hstop := hin (s.packets.length - (s.seqNumIndex ackNum + 2)) (by omega)
      rw [seqNumRange_contains s (by omega), hflag, hahead] at hstop
      omega
    rw [hindex, Nat.mod_eq_of_lt (by omega)]
    refine .inr ⟨i, by omega, sack, hsack, hset, ?_, hreach⟩
    rw [hindex, Nat.mod_eq_of_lt (by omega)]
  · rintro (hj | ⟨i, hi, sack, hsack, hset, rfl, hlt⟩)
    · exact ⟨⟨hne, hle⟩, .inl hj⟩
    refine ⟨⟨hne, hle⟩, ?_⟩
    rw [hindex] at hlt ⊢
    by_cases hround : s.seqNumIndex ackNum + 2 + i < 65536
    · refine .inr ⟨sack, i, hsack, ⟨hset, fun k hk => ?_⟩, (hindex i).symm⟩
      rw [seqNumRange_contains s (by omega), hflag, hahead]
      omega
    · -- the numbers have come round to those before the one acknowledged
      left
      omega

theorem acceptable_iff {s : SentPackets} (hlen : s.packets.length < 65534) (ackNum : Uint16) :
    s.Acceptable ackNum ↔ s.seqNumRange.contains ackNum = true ∧ ackNum ≠ s.initSeqNum := by
  rw [seqNumRange_contains s (by omega)]
  exact and_comm

/-! ### One acknowledgement a packet -/

def AckedOnce (s : SentPackets) : Prop := ∀ p ∈ s.packets, p.acks.length ≤ 1

/-- Transmitting a packet leaves the acknowledgements alone. -/
theorem AckedOnce.onTransmit {s s' : SentPackets} (h : s.AckedOnce) {seqNum : Uint16}
    {packetType : PacketType} {data : Bytes} {dataLen : Uint32} {now : Time}
    (hok : s.onTransmit seqNum packetType data dataLen now = .ok s') : s'.AckedOnce := by
  rcases onTransmit_inv hok with ⟨-, ctrl, -, rfl⟩ | ⟨-, -, ctrl, -, rfl⟩
  · intro p hp
    obtain ⟨i, hi⟩ := List.getElem?_of_mem hp
    rw [List.getElem?_modify] at hi
    obtain ⟨q, hq, rfl⟩ := Option.map_eq_some_iff.mp hi
    have hq' := h q (List.mem_of_getElem? hq)
    split
    · exact hq'
    · exact hq'
  · intro p hp
    rcases List.mem_append.mp hp with hp | hp
    · exact h p hp
    · rw [List.mem_singleton.mp hp]
      exact Nat.zero_le 1

section Once

variable [Float64]

theorem AckedOnce.step {s s' : SentPackets} (h : s.AckedOnce) (hstep : s.AckStep s') :
    s'.AckedOnce := by
  obtain ⟨i, p, ack, ctrl, t, -, -, ⟨-, rfl⟩ | ⟨-, rfl⟩⟩ := hstep.inv
  · intro q hq
    rcases List.mem_or_eq_of_mem_set hq with hq | rfl
    · exact h q hq
    · exact le_refl 1
  · exact h

theorem AckedOnce.onAck {s s' : SentPackets} (hwf : s.WF) (h : s.AckedOnce) {ackNum : Uint16}
    {selectiveAck : Option SelectiveAck} {delay : Duration} {now : Time}
    {r : Except SentError (CircularRangeInclusive × List Uint16)}
    (hok : s.onAck ackNum selectiveAck delay now = .ok (s', r)) : s'.AckedOnce := by
  rcases onAck_steps hwf hok with rfl | ⟨hsteps, -⟩ | ⟨hsteps₁, -, hsteps₂, -⟩
  · exact h
  · exact (hsteps.inv hwf h fun _ _ _ h hstep => h.step hstep).2
  · obtain ⟨hwf₁, h₁⟩ := hsteps₁.inv hwf h fun _ _ _ h hstep => h.step hstep
    have h₂ := (hsteps₂.inv hwf₁ h₁ fun _ _ _ h hstep => h.step hstep).2
    unfold AckedOnce
    rw [(foldl_markLost _ _).1]
    exact h₂

theorem AckedOnce.of_run {initSeqNum : Uint16} {config : CtrlConfig} {calls : List Call}
    {s : SentPackets} (hrun : run initSeqNum config calls = .ok s) : s.AckedOnce := by
  refine (foldlM_inv (fun s => s.WF ∧ s.AckedOnce) hrun ⟨wf_new initSeqNum config, ?_⟩ ?_).2
  · rintro p ⟨⟩
  · rintro s c s' - ⟨hwf, h⟩ hok
    refine ⟨hwf.call hok, ?_⟩
    cases c with
    | onTransmit seqNum packetType data dataLen now => exact h.onTransmit hok
    | onAck ackNum selectiveAck delay now =>
        obtain ⟨⟨s₁, r⟩, hack, hs'⟩ := bind_eq_ok.mp hok
        obtain rfl := pure_eq_ok.mp hs'
        exact h.onAck hwf hack
    | onTimeout =>
        obtain rfl := pure_eq_ok.mp hok
        exact h

end Once

/-! ### The packets acknowledged -/

section Exact

variable [Float64] {initSeqNum : Uint16} {config : CtrlConfig} {calls : List Call}
  {s : SentPackets}

theorem onAck_acked_iff {s' : SentPackets} (h : s.WF) {ackNum : Uint16}
    {selectiveAck : Option SelectiveAck} {delay : Duration} {now : Time}
    {r : Except SentError (CircularRangeInclusive × List Uint16)}
    (hok : s.onAck ackNum selectiveAck delay now = .ok (s', r)) (j : Nat) :
    s'.Acked j ↔ s.Acked j ∨ s.Covered ackNum selectiveAck j := by
  have hacks := (acks_of_ok h hok).1
  exact ⟨hacks.acked j, fun hj => hj.elim (hacks.mono j) (onAck_marks h hok)⟩

/-- Short of 65534 packets an acknowledgement never overruns the records. -/
theorem onAck_returns (h : s.WF) (hlen : s.packets.length < 65534) (ackNum : Uint16)
    (selectiveAck : Option SelectiveAck) (delay : Duration) (now : Time) :
    ∃ s' r, s.onAck ackNum selectiveAck delay now = .ok (s', r) := by
  rcases onAck_spec delay now h ackNum selectiveAck with ⟨hover, -⟩ | ⟨-, s', r, hok, -⟩
  · obtain ⟨-, sack, i, -, -, -, hfull⟩ := (overruns_iff h ackNum selectiveAck).mp hover
    omega
  · exact ⟨s', r, hok⟩

/-- **What an acknowledgement marks.**  In every state of a run with fewer
than 65534 packets, a number outside the range is refused and changes nothing.
For a number in the range other than the initial one `onAck` returns, with no
error unless nothing is left to acknowledge; the packets acknowledged are then
those acknowledged before, those up to the number, and those the flags name,
and each has one acknowledgement at most.  Every flag a packet can carry
counts. -/
theorem onAck_marks_exactly (hrun : run initSeqNum config calls = .ok s)
    (hlen : s.packets.length < 65534) (ackNum : Uint16) (selectiveAck : Option SelectiveAck)
    (delay : Duration) (now : Time) :
    (s.seqNumRange.contains ackNum = false →
      s.onAck ackNum selectiveAck delay now = .ok (s, .error .errInvalidAckNum)) ∧
    (s.seqNumRange.contains ackNum = true → ackNum ≠ s.initSeqNum →
      ∃ s' r, s.onAck ackNum selectiveAck delay now = .ok (s', r) ∧
        (∀ err, r = .error err → err = .errNoneAckNum) ∧ s'.chunks = s.chunks ∧
        (∀ j, s'.Acked j ↔ s.Acked j ∨ j ≤ s.seqNumIndex ackNum ∨
          ∃ i < 65535, s.Names ackNum selectiveAck i j) ∧
        ∀ p ∈ s'.packets, p.acks.length ≤ 1) ∧
    ∀ b p, decodePacket b = .ok p → p.eack = selectiveAck →
      ∀ i j, s.Names ackNum selectiveAck i j → i < 65535 := by
  have h := WF.of_run hrun
  obtain ⟨s', r, hok⟩ := onAck_returns h hlen ackNum selectiveAck delay now
  refine ⟨fun hout => ?_, fun hin hne => ?_, ?_⟩
  · have hout' : s.packets.length < ahead s.initSeqNum ackNum := by
      by_contra hle
      rw [(seqNumRange_contains s (by omega) ackNum).mpr (not_lt.mp hle)] at hout
      cases hout
    obtain ⟨-, hinvalid, hsame⟩ := acks_of_ok h hok
    have hr := hinvalid.mpr hout'
    rw [hok, hr, hsame hr]
  · have hacc := (acceptable_iff hlen ackNum).mpr ⟨hin, hne⟩
    refine ⟨s', r, hok, ?_, (acks_of_ok h hok).1.chunks, fun j => ?_,
      (AckedOnce.of_run hrun).onAck h hok⟩
    · rintro err rfl
      obtain ⟨err', hnum, hr⟩ := onAck_acceptable h hacc hok
      obtain ⟨s₁, -, -, ⟨-, -, rfl⟩ | ⟨-, -, -, -, -, -, -, rfl⟩⟩ :=
        onAckNum_cases h hacc.index_lt hnum
      · cases hr
        rfl
      · cases hr
    · rw [onAck_acked_iff h hok, covered_iff hlen hacc]
  · rintro b p hdec rfl i j
    exact Names.lt_of_decoded hdec

omit [Float64] in
/-- Four packets, of which the first is acknowledged by number and the third
by a flag. -/
theorem onAck_marks_flagged : ∃ s s' r,
    @run exactFloat64 0 defaultCtrlConfig
      [.onTransmit 1 .st_data [1] 1 0, .onTransmit 2 .st_data [2] 1 0,
        .onTransmit 3 .st_data [3] 1 0, .onTransmit 4 .st_data [4] 1 0] = .ok s ∧
    @onAck exactFloat64 s 1 (some (newSelectiveAck [true])) 0 0 = .ok (s', r) ∧
    s'.Acked 0 ∧ s'.Acked 2 := by
  have hrun : ∃ s, @run exactFloat64 0 defaultCtrlConfig
      [.onTransmit 1 .st_data [1] 1 0, .onTransmit 2 .st_data [2] 1 0,
        .onTransmit 3 .st_data [3] 1 0, .onTransmit 4 .st_data [4] 1 0] = .ok s ∧
      s.packets.length = 4 ∧ s.initSeqNum = 0 ∧ s.seqNumRange.contains 1 = true :=
    ⟨_, rfl, rfl, rfl, rfl⟩
  obtain ⟨s, hs, hlen, hinit, hin⟩ := hrun
  obtain ⟨s', r, hok, -, -, hacked, -⟩ := (@onAck_marks_exactly exactFloat64 _ _ _ _ hs (by omega) 1
    (some (newSelectiveAck [true])) 0 0).2.1 hin (by rw [hinit]; decide)
  refine ⟨s, s', r, hs, hok, (hacked 0).mpr (.inr (.inl (Nat.zero_le _))), (hacked 2).mpr ?_⟩
  refine .inr (.inr ⟨0, by decide, _, rfl, by decide, ?_, by omega⟩)
  rw [seqNumIndex_eq, hinit]
  decide

/-! ### What is reported -/

omit [Float64] in
/-- The packets reported: those up to the number, unless it is the initial
one, and those named by flags. -/
theorem reported_iff (hlen : s.packets.length < 65534) {ackNum : Uint16}
    {selectiveAck : Option SelectiveAck} {j : Nat} (hj : j < s.packets.length) {x : Uint16}
    (hx : s.seqNumIndex x = j) :
    ((s.reported ackNum selectiveAck).1.contains x = true ∨
        x ∈ (s.reported ackNum selectiveAck).2) ↔
      ackNum ≠ s.initSeqNum ∧ j ≤ s.seqNumIndex ackNum ∨
        ∃ i, s.Names ackNum selectiveAck i j := by
  have hne : x ≠ s.initSeqNum := by
    rintro rfl
    rw [seqNumIndex_eq] at hx
    bv_omega
  refine or_congr ?_ ?_
  · rw [reported, CircularRangeInclusive.contains_iff, newCircularRangeInclusive]
    show ahead s.initSeqNum x ≤ ahead s.initSeqNum ackNum ↔ _
    rw [s.ahead_eq_index hne, hx]
    by_cases hinit : ackNum = s.initSeqNum
    · rw [hinit, ahead_self]
      simp
    · rw [s.ahead_eq_index hinit, Nat.add_le_add_iff_right]
      exact (and_iff_right hinit).symm
  · cases selectiveAck with
    | none =>
        refine iff_of_false List.not_mem_nil ?_
        rintro ⟨i, sack, hsack, -⟩
        cases hsack
    | some sack =>
        show x ∈ selectedAcks ackNum sack ↔ _
        rw [mem_selectedAcks]
        constructor
        · rintro ⟨i, hset, rfl⟩
          exact ⟨i, sack, rfl, hset, hx, hj⟩
        · rintro ⟨i, sack', hsack, hset, hidx, -⟩
          cases hsack
          exact ⟨i, hset, seqNumIndex_inj.mp (hidx.trans hx.symm)⟩

/-- **What an acknowledgement reports is recorded, if its flags count.**  In
every state of a run with fewer than 65534 packets and for every number in the
range, if `onAck` returns without an error, then every packet it reports is
acknowledged afterwards, if and only if every packet that a flag names was
acknowledged before, or the number is not the initial one, upon which no flag
is looked at, and the packet comes before it or is named below the limit. -/
theorem onAck_reports_iff (hrun : run initSeqNum config calls = .ok s)
    (hlen : s.packets.length < 65534) {ackNum : Uint16}
    (hin : s.seqNumRange.contains ackNum = true) {selectiveAck : Option SelectiveAck}
    {delay : Duration} {now : Time} {s' : SentPackets} {fullAcked : CircularRangeInclusive}
    {selected : List Uint16}
    (hok : s.onAck ackNum selectiveAck delay now = .ok (s', .ok (fullAcked, selected))) :
    (∀ p ∈ s'.packets, fullAcked.contains p.seqNum = true ∨ p.seqNum ∈ selected → p.acks ≠ []) ↔
      ∀ i j, s.Names ackNum selectiveAck i j → s.Acked j ∨ ackNum ≠ s.initSeqNum ∧
        (j ≤ s.seqNumIndex ackNum ∨ ∃ i < 65535, s.Names ackNum selectiveAck i j) := by
  have h := WF.of_run hrun
  have hacks := (acks_of_ok h hok).1
  have hreport : (fullAcked, selected) = s.reported ackNum selectiveAck := by
    obtain ⟨hfull, hsel⟩ := onAck_result h hok
    rw [hfull, hsel, reported]
  have hcov : ∀ j, s.Covered ackNum selectiveAck j ↔ ackNum ≠ s.initSeqNum ∧
      (j ≤ s.seqNumIndex ackNum ∨ ∃ i < 65535, s.Names ackNum selectiveAck i j) := by
    intro j
    by_cases hne : ackNum = s.initSeqNum
    · exact iff_of_false (fun hc => hc.1.1 hne) fun hc => hc.1 hne
    · rw [covered_iff hlen ((acceptable_iff hlen ackNum).mpr ⟨hin, hne⟩)]
      exact (and_iff_right hne).symm
  constructor
  · intro hall i j hnames
    have hj : j < s.packets.length := hnames.choose_spec.2.2.2
    obtain ⟨p, hp⟩ : ∃ p, s'.packets[j]? = some p :=
      ⟨_, List.getElem?_eq_getElem (hacks.length ▸ hj)⟩
    have hidx : s.seqNumIndex p.seqNum = j := by
      rw [← hacks.index, hacks.wf.index_number hp]
    have hrep := (reported_iff hlen hj hidx).mpr (.inr ⟨i, hnames⟩)
    rw [← hreport] at hrep
    rw [← hcov, ← onAck_acked_iff h hok]
    exact ⟨p, hp, hall p (List.mem_of_getElem? hp) hrep⟩
  · intro hcond p hp hrep
    obtain ⟨j, hj⟩ := List.getElem?_of_mem hp
    have hidx : s.seqNumIndex p.seqNum = j := by
      rw [← hacks.index, hacks.wf.index_number hj]
    have hlt : j < s.packets.length := hacks.length ▸ (List.getElem?_eq_some_iff.mp hj).1
    have hacked : s'.Acked j := by
      rw [onAck_acked_iff h hok, hcov]
      change (fullAcked, selected).1.contains _ = true ∨ _ ∈ (fullAcked, selected).2 at hrep
      rw [hreport, reported_iff hlen hlt hidx] at hrep
      rcases hrep with ⟨hne, hle⟩ | ⟨i, hnames⟩
      · exact .inr ⟨hne, .inl hle⟩
      · exact hcond i j hnames
    obtain ⟨q, hq, hne⟩ := hacked
    cases hj.symm.trans hq
    exact hne

omit [Float64] in
/-- The number acknowledged is not the initial one, and its flag counts. -/
theorem onAck_reports_second : ∃ s s' fullAcked selected,
    @run exactFloat64 0 defaultCtrlConfig
      [.onTransmit 1 .st_data [1] 1 0, .onTransmit 2 .st_data [2] 1 0,
        .onTransmit 3 .st_data [3] 1 0] = .ok s ∧
    @onAck exactFloat64 s 1 (some (newSelectiveAck [true])) 0 0
      = .ok (s', .ok (fullAcked, selected)) ∧
    ∀ p ∈ s'.packets, fullAcked.contains p.seqNum = true ∨ p.seqNum ∈ selected → p.acks ≠ [] := by
  have hrun : ∃ s s' fullAcked selected, @run exactFloat64 0 defaultCtrlConfig
      [.onTransmit 1 .st_data [1] 1 0, .onTransmit 2 .st_data [2] 1 0,
        .onTransmit 3 .st_data [3] 1 0] = .ok s ∧
      @onAck exactFloat64 s 1 (some (newSelectiveAck [true])) 0 0
        = .ok (s', .ok (fullAcked, selected)) ∧
      s.packets.length = 3 ∧ s.initSeqNum = 0 ∧ s.seqNumRange.contains 1 = true :=
    ⟨_, _, _, _, rfl, rfl, rfl, rfl, rfl⟩
  obtain ⟨s, s', fullAcked, selected, hs, hok, hlen, hinit, hin⟩ := hrun
  refine ⟨s, s', fullAcked, selected, hs, hok, ?_⟩
  refine (@onAck_reports_iff exactFloat64 _ _ _ _ hs (by omega) _ hin _ _ _ _ _ _ hok).mpr ?_
  intro i j hnames
  refine .inr ⟨by rw [hinit]; decide, .inr ⟨i, ?_, hnames⟩⟩
  obtain ⟨sack, hsack, hset, -⟩ := hnames
  cases hsack
  have hlt : i < 32 := (List.getElem?_eq_some_iff.mp hset).1
  omega

omit [Float64] in
/-- The first of two packets is lost and the second arrives: the receiver
acknowledges the initial number, with a flag for the second packet.  It is
reported, so that its timer is stopped, and it is not recorded. -/
theorem onAck_reports_unrecorded : ∃ s fullAcked,
    @run exactFloat64 0 defaultCtrlConfig
      [.onTransmit 1 .st_data [1] 1 0, .onTransmit 2 .st_data [2] 1 0] = .ok s ∧
    s.seqNumRange.contains 0 = true ∧
    @onAck exactFloat64 s 0 (some (newSelectiveAck [true])) 0 0 = .ok (s, .ok (fullAcked, [2])) ∧
    s.packets.map (fun p => (p.seqNum, p.acks)) = [(1, []), (2, [])] :=
  ⟨_, _, rfl, rfl, rfl, rfl⟩

end Exact

end SentPackets

end UtpGo
