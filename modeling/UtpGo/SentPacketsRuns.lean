/-
UtpGo/SentPacketsRuns.lean

Runs of the sent packets: any sequence of `OnTransmit`, `onAck` and
`OnTimeout` calls.  Every run keeps the invariant (`WF.of_run`), and both
results below are about the end of the numbers.

Main results: the next number gets a fresh record exactly as long as there
are fewer than `2 ^ 16` records (`onTransmit_next_fresh_iff`), and an
acknowledgement is processed without indexing past the records unless a flag
is set for the initial number while the range of the numbers in flight is
full or one short of it (`onAck_returns_iff`).
-/
import UtpGo.SentPacketsAck
import UtpGo.SentPacketsTransmit

namespace UtpGo

open Circular Checked

namespace SentPackets

/-! ### Runs -/

inductive Call where
  | onTransmit (seqNum : Uint16) (packetType : PacketType) (data : Bytes) (dataLen : Uint32)
      (now : Time)
  | onAck (ackNum : Uint16) (selectiveAck : Option SelectiveAck) (delay : Duration) (now : Time)
  | onTimeout

variable [Float64]

def call (s : SentPackets) : Call → GoM SentPackets
  | .onTransmit seqNum packetType data dataLen now =>
      s.onTransmit seqNum packetType data dataLen now
  | .onAck ackNum selectiveAck delay now => do
      let (s, _) ← s.onAck ackNum selectiveAck delay now
      pure s
  | .onTimeout => pure s.onTimeout

def run (initSeqNum : Uint16) (config : CtrlConfig) (calls : List Call) : GoM SentPackets :=
  calls.foldlM call (newSentPackets initSeqNum (newDefaultController config))

theorem WF.call {s s' : SentPackets} (h : s.WF) {c : Call} (hok : s.call c = .ok s') : s'.WF := by
  cases c with
  | onTransmit seqNum packetType data dataLen now =>
      exact h.of_transmit hok
  | onAck ackNum selectiveAck delay now =>
      obtain ⟨⟨s₁, r⟩, hack, hs'⟩ := bind_eq_ok.mp hok
      obtain rfl := pure_eq_ok.mp hs'
      exact h.onAck hack
  | onTimeout =>
      obtain rfl := pure_eq_ok.mp hok
      exact h.onTimeout

theorem WF.of_run {initSeqNum : Uint16} {config : CtrlConfig} {calls : List Call}
    {s : SentPackets} (hrun : run initSeqNum config calls = .ok s) : s.WF :=
  foldlM_inv WF hrun (wf_new initSeqNum config) fun _ _ _ _ h hok => h.call hok

/-! ### Long runs -/

/-- A controller whose window holds more than `2 ^ 16` packets of one byte. -/
def wideConfig : CtrlConfig := { defaultCtrlConfig with maxPacketSizeBytes := 65535 }

omit [Float64] in
theorem byte_fits {s : SentPackets} (hwin : s.congestionCtrl.windowSizeBytes.toNat ≤ 65536)
    (hmax : s.congestionCtrl.maxWindowSizeBytes = 131070) : (1 : Uint32) ≤ s.window := by
  unfold window DefaultController.bytesAvailableInWindow
  rw [hmax]
  split <;> bv_omega

/-- `n` packets of one byte each, in order. -/
def inOrderTransmits (b : Byte) (n : Nat) : List Call :=
  (List.range n).map fun k => .onTransmit (BitVec.ofNat 16 (k + 1)) .st_data [b] 1 0

theorem run_inOrderTransmits (b : Byte) {n : Nat} (hn : n ≤ 65536) :
    ∃ s, run 0 wideConfig (inOrderTransmits b n) = .ok s ∧ s.initSeqNum = 0 ∧
      s.packets.length = n ∧ s.congestionCtrl.windowSizeBytes.toNat = n ∧
      s.congestionCtrl.maxWindowSizeBytes = 131070 ∧
      ∀ x r, s.congestionCtrl.transmissions.get? x = some r → r.numTransmissions = 1 := by
  induction n with
  | zero =>
      refine ⟨_, rfl, rfl, rfl, rfl, by decide, ?_⟩
      intro x r hr
      cases hr
  | succ n ih =>
      obtain ⟨s, hs, hinit, hlen, hwin, hmax, hcount⟩ := ih (by omega)
      have hnum : (BitVec.ofNat 16 (n + 1) : Uint16) = s.nextSeqNum := by
        rw [nextSeqNum_eq, hinit, hlen]
        bv_omega
      have hfit : (1 : Uint32) ≤ s.window := byte_fits (by omega) hmax
      have hstep := onTransmit_next .st_data [b] 0 (WF.of_run hs) (by omega) hfit (by simp)
      refine ⟨s.transmitNew .st_data [b] 1 0, ?_, hinit, ?_, ?_, hmax, ?_⟩
      · rw [run] at hs
        rw [run, inOrderTransmits, List.range_succ, List.map_append, List.foldlM_append]
        show (List.foldlM call _ (inOrderTransmits b n) >>= _) = _
        rw [hs, ok_bind]
        show (s.onTransmit (BitVec.ofNat 16 (n + 1)) .st_data [b] 1 0 >>= pure) = _
        rw [hnum, hstep]
        rfl
      · simp [transmitNew, hlen]
      · show (s.congestionCtrl.windowSizeBytes + 1).toNat = n + 1
        bv_omega
      · intro x r hr
        change (s.congestionCtrl.transmissions.insert _ _).get? x = some r at hr
        by_cases hx : x = s.nextSeqNum
        · rw [hx, OrdMap.get?_insert_self] at hr
          cases hr
          rfl
        · rw [OrdMap.get?_insert_of_ne hx] at hr
          exact hcount x r hr

/-! ### Fresh records -/

/-- **New data gets a fresh record, up to `2 ^ 16` packets.**  In every state
a run leads to, transmitting data of at most `Window` bytes under the next
number appends its record, charges its size as a first transmission and
leaves the records before it alone, if and only if there are fewer than
`2 ^ 16` records. -/
theorem onTransmit_next_fresh_iff {initSeqNum : Uint16} {config : CtrlConfig}
    {calls : List Call} {s : SentPackets} (hrun : run initSeqNum config calls = .ok s)
    (payload : Bytes) {dataLen : Uint32} (now : Time) (hpos : 0 < dataLen)
    (hfit : dataLen ≤ s.window) :
    (∃ s', s.onTransmit s.nextSeqNum .st_data payload dataLen now = .ok s' ∧
      s'.packets = s.packets ++ [⟨s.nextSeqNum, .st_data, payload, now, now, []⟩] ∧
      s'.congestionCtrl.transmissions
        = s.congestionCtrl.transmissions.insert s.nextSeqNum ⟨dataLen, 1, false⟩ ∧
      s'.congestionCtrl.windowSizeBytes.toNat
        = s.congestionCtrl.windowSizeBytes.toNat + dataLen.toNat) ↔
      s.packets.length < 65536 := by
  have h := WF.of_run hrun
  constructor
  · rintro ⟨s', hok, hpackets, -, -⟩
    rcases onTransmit_ok h hok with ⟨-, hlen, -⟩ | hres
    · exact hlen
    · -- a number sent again leaves the length as it was
      have hlen := congrArg List.length hres.chunks
      rw [length_chunks, length_chunks, hpackets, List.length_append] at hlen
      simp at hlen
  · intro hlen
    have hne : dataLen = 0 →
        s.congestionCtrl.windowSizeBytes ≤ s.congestionCtrl.maxWindowSizeBytes := by
      rintro rfl
      exact absurd hpos (lt_irrefl _)
    refine ⟨_, onTransmit_next .st_data payload now h hlen hfit hne, rfl, rfl, ?_⟩
    exact (DefaultController.fits_of_le_available hfit hne).2

omit [Float64] in
/-- The 65536th packet is the last one. -/
theorem onTransmit_next_fresh_last : ∃ s s',
    @run exactFloat64 0 wideConfig (inOrderTransmits 0xEF 65535) = .ok s ∧
    s.packets.length = 65535 ∧ s.onTransmit s.nextSeqNum .st_data [0xAB] 1 0 = .ok s' ∧
    s'.packets = s.packets ++ [⟨s.nextSeqNum, .st_data, [0xAB], 0, 0, []⟩] ∧
    s'.congestionCtrl.transmissions
      = s.congestionCtrl.transmissions.insert s.nextSeqNum ⟨1, 1, false⟩ ∧
    s'.congestionCtrl.windowSizeBytes.toNat = s.congestionCtrl.windowSizeBytes.toNat + 1 := by
  let := exactFloat64
  obtain ⟨s, hs, -, hlen, hwin, hmax, -⟩ := run_inOrderTransmits 0xEF (show 65535 ≤ 65536 by omega)
  have hfit : (1 : Uint32) ≤ s.window := byte_fits (by omega) hmax
  obtain ⟨s', hok, hfresh⟩ :=
    (onTransmit_next_fresh_iff hs [0xAB] 0 (by decide) hfit).mpr (by omega)
  exact ⟨s, s', hs, hlen, hok, hfresh⟩

omit [Float64] in
/-- After `2 ^ 16` packets new data is taken for a packet sent before: the
call returns, and no record holds the data. -/
theorem onTransmit_next_lost : ∃ s s',
    @run exactFloat64 0 wideConfig (inOrderTransmits 0xEF 65536) = .ok s ∧ 1 ≤ s.window ∧
    s.onTransmit s.nextSeqNum .st_data [0xAB] 1 0 = .ok s' ∧
    s'.packets.length = s.packets.length ∧ s'.chunks = s.chunks := by
  obtain ⟨s, hs, hinit, hlen, hwin, hmax, hcount⟩ :=
    @run_inOrderTransmits exactFloat64 0xEF 65536 (le_refl _)
  have h := @WF.of_run exactFloat64 _ _ _ _ hs
  have hfit : (1 : Uint32) ≤ s.window := byte_fits hwin.le hmax
  have hidx : s.seqNumIndex s.nextSeqNum < s.packets.length := by
    rw [hlen]
    exact s.seqNumIndex_lt _
  obtain ⟨r, hr⟩ := Option.isSome_iff_exists.mp ((h.recorded _).mpr hidx)
  have hagain : s.onTransmit s.nextSeqNum .st_data [0xAB] 1 0 = _ :=
    onTransmit_again .st_data [0xAB] 0 hidx hr (by rw [hcount _ _ hr]; decide)
  refine ⟨s, _, hs, hfit, hagain, ?_, ?_⟩
  · simp
  · exact (resent_modify 0 h hidx hr rfl).chunks

/-! ### Acknowledgements from the network -/

omit [Float64] in
theorem overruns_iff {s : SentPackets} (h : s.WF) (ackNum : Uint16)
    (selectiveAck : Option SelectiveAck) :
    s.Overruns ackNum selectiveAck ↔ ackNum ≠ s.initSeqNum ∧
      ∃ sack i, selectiveAck = some sack ∧ sack.acked[i]? = some true ∧
        ackNum + 2 + BitVec.ofNat 16 i = s.initSeqNum ∧
        (s.packets.length = 65535 ∨ s.packets.length = 65534 ∧ i = 0) := by
  have hle := h.length_le
  constructor
  · rintro ⟨⟨hne, hacc⟩, j, ⟨sack, i, hsack, ⟨hflag, hin⟩, rfl⟩, hover⟩
    have hlt := s.seqNumIndex_lt (ackNum + 2 + BitVec.ofNat 16 i)
    have hlen : s.packets.length < 65536 := by omega
    -- a number in range has a record unless it is the initial one
    have hinit : ackNum + 2 + BitVec.ofNat 16 i = s.initSeqNum := by
      by_contra hni
      have hin' := (seqNumRange_contains s hlen _).mp (hin i (le_refl i))
      rw [ahead_eq_index s hni] at hin'
      omega
    refine ⟨hne, sack, i, hsack, hflag, hinit, ?_⟩
    rcases Nat.eq_zero_or_pos i with rfl | hpos
    · have ha : ahead s.initSeqNum ackNum = 65534 := by
        unfold ahead
        bv_omega
      omega
    · -- the number before the initial one is the last of all
      have hprev := (seqNumRange_contains s hlen _).mp (hin (i - 1) (by omega))
      have ha : ahead s.initSeqNum (ackNum + 2 + BitVec.ofNat 16 (i - 1)) = 65535 := by
        unfold ahead
        bv_omega
      omega
  · rintro ⟨hne, sack, i, hsack, hflag, hinit, hlen⟩
    have hlen' : s.packets.length < 65536 := by omega
    have hidx : s.seqNumIndex s.initSeqNum = 65535 := by
      rw [seqNumIndex_eq]
      bv_omega
    have hlt := ahead_lt s.initSeqNum ackNum
    refine ⟨⟨hne, ?_⟩, _, ⟨sack, i, hsack, ⟨hflag, ?_⟩, rfl⟩, ?_⟩
    · rcases hlen with hlen | ⟨hlen, rfl⟩
      · omega
      · have ha : ahead s.initSeqNum ackNum = 65534 := by
          unfold ahead
          bv_omega
        omega
    · intro j hj
      rw [seqNumRange_contains s hlen']
      rcases hlen with hlen | ⟨hlen, rfl⟩
      · have := ahead_lt s.initSeqNum (ackNum + 2 + BitVec.ofNat 16 j)
        omega
      · obtain rfl : j = 0 := by omega
        rw [hinit, ahead_self]
        exact Nat.zero_le _
    · rw [hinit, hidx]
      omega

/-- **When an acknowledgement is processed without a panic.**  In every state
a run leads to and for every number and selective acknowledgement, `onAck`
returns, unless a flag is set for the initial number (which has no packet)
and the numbers in flight are 65535, or 65534 with the flag the first one. -/
theorem onAck_returns_iff {initSeqNum : Uint16} {config : CtrlConfig} {calls : List Call}
    {s : SentPackets} (hrun : run initSeqNum config calls = .ok s) (ackNum : Uint16)
    (selectiveAck : Option SelectiveAck) (delay : Duration) (now : Time) :
    (∃ r, s.onAck ackNum selectiveAck delay now = .ok r) ↔
      ¬ (ackNum ≠ s.initSeqNum ∧ ∃ sack i, selectiveAck = some sack ∧
        sack.acked[i]? = some true ∧ ackNum + 2 + BitVec.ofNat 16 i = s.initSeqNum ∧
        (s.packets.length = 65535 ∨ s.packets.length = 65534 ∧ i = 0)) := by
  have h := WF.of_run hrun
  rw [← overruns_iff h]
  rcases onAck_spec delay now h ackNum selectiveAck with ⟨hover, herr⟩ | ⟨hnot, s', r, hok, -⟩
  · simp [herr, hover]
  · simp [hok, hnot]

omit [Float64] in
/-- With 65534 packets in flight, the last one is acknowledged, and the first
one by the second flag. -/
theorem onAck_returns_in_flight : ∃ s r,
    @run exactFloat64 0 wideConfig (inOrderTransmits 0xEF 65534) = .ok s ∧
    s.packets.length = 65534 ∧
    @onAck exactFloat64 s 65534 (some (newSelectiveAck [false, true])) 0 0 = .ok r := by
  let := exactFloat64
  obtain ⟨s, hs, hinit, hlen, -⟩ := run_inOrderTransmits 0xEF (show 65534 ≤ 65536 by omega)
  have hreturns := onAck_returns_iff hs 65534 (some (newSelectiveAck [false, true])) 0 0
  obtain ⟨r, hr⟩ := hreturns.mpr (by
    rintro ⟨-, sack, i, hsack, hflag, -, hfull⟩
    obtain rfl : i = 0 := by omega
    cases hsack
    exact absurd hflag (by decide))
  exact ⟨s, r, hs, hlen, hr⟩

omit [Float64] in
/-- With 65534 packets in flight, an acknowledgement of the last one whose
first flag is set crashes the sender. -/
theorem onAck_panics : ∃ s,
    @run exactFloat64 0 wideConfig (inOrderTransmits 0xEF 65534) = .ok s ∧
    @onAck exactFloat64 s 65534 (some (newSelectiveAck [true])) 0 0
      = .error .indexOutOfRange := by
  obtain ⟨s, hs, hinit, hlen, -⟩ := @run_inOrderTransmits exactFloat64 0xEF 65534 (by omega)
  have h := @WF.of_run exactFloat64 _ _ _ _ hs
  refine ⟨s, hs, ?_⟩
  rcases @onAck_spec exactFloat64 0 0 s h 65534 (some (newSelectiveAck [true])) with
    ⟨-, herr⟩ | ⟨hnot, -⟩
  · exact herr
  · refine absurd ((overruns_iff h _ _).mpr ⟨?_, _, 0, rfl, by decide, ?_, .inr ⟨hlen, rfl⟩⟩) hnot
    · rw [hinit]
      decide
    · rw [hinit]
      decide

end SentPackets

end UtpGo
