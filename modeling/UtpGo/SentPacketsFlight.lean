/-
UtpGo/SentPacketsFlight.lean

The bytes in flight.  The controller keeps a record for every packet sent,
with a flag of its own for "acknowledged", and the sum `windowSizeBytes` of
the records not acknowledged.  The sum is a `uint32` that first
transmissions raise and acknowledgements lower; it is right as long as no
packet is sent `2 ^ 32` times, when the counter of its transmissions comes
round and the packet is charged again.

Main results:
  * `flight_exact`: in every such run the records are those of the packets
    sent, the flags agree, and the sum is the sum, so that it never underflows;
  * `divisor_pos_iff`: an acknowledgement divides by a window that holds the
    packet, but is empty when no packet in flight has bytes.
-/
import UtpGo.SentPacketsRuns
import UtpGo.SentPacketsSteps

namespace UtpGo

open Checked

/-- What a record counts for in the window. -/
def PacketRecord.inFlight (r : PacketRecord) : Nat := if r.acked then 0 else r.sizeBytes.toNat

namespace DefaultController

/-! ### What the controller does to its window -/

theorem onAck_acked [Float64] {c ctrl : DefaultController} {x : Uint16} {ack : Ack}
    {r : PacketRecord} (hr : c.transmissions.get? x = some r) (hacked : r.acked = true)
    (hok : c.onAck x ack = (ctrl, none)) : ctrl = c := by
  simp only [onAck, hr, hacked, if_true] at hok
  exact (congrArg Prod.fst hok).symm

/-- The first acknowledgement of a packet sets its flag and takes its size
out of the window. -/
theorem onAck_first [Float64] {c ctrl : DefaultController} {x : Uint16} {ack : Ack}
    {r : PacketRecord} (hr : c.transmissions.get? x = some r) (hacked : r.acked = false)
    (hok : c.onAck x ack = (ctrl, none)) :
    ctrl.transmissions = c.transmissions.insert x { r with acked := true } ∧
      ctrl.windowSizeBytes = c.windowSizeBytes - r.sizeBytes := by
  simp only [onAck, hr, hacked, Bool.false_eq_true, if_false] at hok
  split at hok
  · obtain rfl := congrArg Prod.fst hok
    exact ⟨rfl, rfl⟩
  · obtain rfl := congrArg Prod.fst hok
    exact ⟨rfl, rfl⟩

/-- A loss that is sent again leaves the window as it is. -/
theorem onLostPacket_window (c : DefaultController) (x : Uint16) :
    (c.onLostPacket x true).1.transmissions = c.transmissions ∧
      (c.onLostPacket x true).1.windowSizeBytes = c.windowSizeBytes := by
  unfold onLostPacket
  split <;> exact ⟨rfl, rfl⟩

end DefaultController

namespace SentPackets

/-! ### The invariant -/

structure Flight (s : SentPackets) : Prop where
  /-- The two modules agree on what is acknowledged. -/
  acked : ∀ x r, s.congestionCtrl.transmissions.get? x = some r →
    (r.acked = true ↔ s.Acked (s.seqNumIndex x))
  window : s.congestionCtrl.windowSizeBytes.toNat
    = s.congestionCtrl.transmissions.total PacketRecord.inFlight

theorem flight_new (initSeqNum : Uint16) (config : CtrlConfig) :
    (newSentPackets initSeqNum (newDefaultController config)).Flight :=
  ⟨nofun, rfl⟩

/-- The size of a packet in flight is part of the window. -/
theorem Flight.size_le {s : SentPackets} (h : s.Flight) {x : Uint16} {r : PacketRecord}
    (hr : s.congestionCtrl.transmissions.get? x = some r) (hacked : r.acked = false) :
    r.sizeBytes.toNat ≤ s.congestionCtrl.windowSizeBytes.toNat := by
  have hle := OrdMap.le_total (f := PacketRecord.inFlight) hr
  rw [← h.window] at hle
  simpa [PacketRecord.inFlight, hacked] using hle

/-- The window is empty if and only if no byte is in flight. -/
theorem Flight.empty_iff {s : SentPackets} (h : s.Flight) :
    s.congestionCtrl.windowSizeBytes = 0 ↔
      ∀ x r, s.congestionCtrl.transmissions.get? x = some r → r.acked = false →
        r.sizeBytes = 0 := by
  have hzero : s.congestionCtrl.windowSizeBytes = 0 ↔
      s.congestionCtrl.windowSizeBytes.toNat = 0 := by
    rw [BitVec.toNat_eq]
    rfl
  rw [hzero, h.window, OrdMap.total_eq_zero]
  refine forall_congr' fun x => forall_congr' fun r => imp_congr_right fun _ => ?_
  rw [BitVec.toNat_eq]
  cases hacked : r.acked <;> simp [PacketRecord.inFlight, hacked]

/-- The parts of the state the invariant is about. -/
theorem Flight.congr {s s' : SentPackets} (h : s.Flight) (hinit : s'.initSeqNum = s.initSeqNum)
    (hacked : ∀ i, s'.Acked i ↔ s.Acked i)
    (hrec : s'.congestionCtrl.transmissions = s.congestionCtrl.transmissions)
    (hwin : s'.congestionCtrl.windowSizeBytes = s.congestionCtrl.windowSizeBytes) :
    s'.Flight where
  acked := by
    intro x r hr
    rw [hrec] at hr
    rw [hacked, seqNumIndex_congr hinit]
    exact h.acked x r hr
  window := by
    rw [hwin, hrec]
    exact h.window

/-! ### Acknowledgements -/

theorem WF.nodup_numbers {s : SentPackets} (h : s.WF) : (s.packets.map (·.seqNum)).Nodup := by
  rw [List.Nodup, List.pairwise_map, List.pairwise_iff_getElem]
  intro i j hi hj hlt heq
  have hij := congrArg s.seqNumIndex heq
  rw [h.index_number (List.getElem?_eq_getElem hi),
    h.index_number (List.getElem?_eq_getElem hj)] at hij
  exact absurd hij (ne_of_lt hlt)

/-- The records are those of the packets sent. -/
theorem WF.contains_iff {s : SentPackets} (h : s.WF) (x : Uint16) :
    s.congestionCtrl.transmissions.contains x = true ↔ ∃ p ∈ s.packets, p.seqNum = x := by
  have hnum := h.exists_number (x := x) (P := fun _ => True)
  simp only [and_true] at hnum
  rw [h.recorded, hnum]
  exact ⟨fun hlt => ⟨_, List.getElem?_eq_getElem hlt⟩,
    fun ⟨p, hp⟩ => (List.getElem?_eq_some_iff.mp hp).1⟩

/-- There are as many records as packets. -/
theorem WF.size_transmissions {s : SentPackets} (h : s.WF) :
    s.congestionCtrl.transmissions.size = s.packets.length := by
  have hperm : s.congestionCtrl.transmissions.keys.Perm (s.packets.map (·.seqNum)) := by
    rw [List.perm_ext_iff_of_nodup (OrdMap.nodup_keys _) h.nodup_numbers]
    intro x
    rw [OrdMap.mem_keys, ← OrdMap.contains_iff, h.contains_iff, List.mem_map]
  have hlen := hperm.length_eq
  rwa [OrdMap.keys, List.length_map, List.length_map] at hlen

/-- Every packet sent has a record. -/
theorem WF.record {s : SentPackets} (h : s.WF) {i : Nat} {p : SentPacket}
    (hp : s.packets[i]? = some p) :
    ∃ r, s.congestionCtrl.transmissions.get? p.seqNum = some r := by
  refine Option.isSome_iff_exists.mp ((h.recorded p.seqNum).mpr ?_)
  rw [h.index_number hp]
  exact (List.getElem?_eq_some_iff.mp hp).1

/-- A record set, with the window changed by the difference. -/
theorem Flight.insert {s s' : SentPackets} (h : s.Flight) {x : Uint16} {r : PacketRecord}
    (hinit : s'.initSeqNum = s.initSeqNum)
    (hrec : s'.congestionCtrl.transmissions = s.congestionCtrl.transmissions.insert x r)
    (hself : r.acked = true ↔ s'.Acked (s.seqNumIndex x))
    (hother : ∀ y, y ≠ x → (s'.Acked (s.seqNumIndex y) ↔ s.Acked (s.seqNumIndex y)))
    (hwin : s'.congestionCtrl.windowSizeBytes.toNat
        + (s.congestionCtrl.transmissions.get? x).elim 0 PacketRecord.inFlight
      = s.congestionCtrl.windowSizeBytes.toNat + r.inFlight) : s'.Flight where
  acked := by
    intro y q hq
    rw [hrec] at hq
    rw [seqNumIndex_congr hinit]
    by_cases hy : y = x
    · subst hy
      rw [OrdMap.get?_insert_self] at hq
      cases hq
      exact hself
    · rw [OrdMap.get?_insert_of_ne hy] at hq
      rw [hother y hy]
      exact h.acked y q hq
  window := by
    have htotal := OrdMap.total_insert PacketRecord.inFlight s.congestionCtrl.transmissions x r
    rw [← hrec, ← h.window] at htotal
    omega

theorem Flight.markLost {s : SentPackets} (h : s.Flight) (x : Uint16) : (s.markLost x).Flight := by
  obtain ⟨hrec, hwin⟩ := s.congestionCtrl.onLostPacket_window x
  unfold SentPackets.markLost onLost
  split
  · exact h.congr rfl (fun _ => Iff.rfl) rfl rfl
  · split
    · rename_i heq
      change s.congestionCtrl.onLostPacket x true = _ at heq
      rw [heq] at hrec hwin
      exact h.congr rfl (fun _ => Iff.rfl) hrec hwin
    · rename_i heq
      change s.congestionCtrl.onLostPacket x true = _ at heq
      rw [heq] at hrec hwin
      exact h.congr rfl (fun _ => Iff.rfl) hrec hwin

theorem Flight.foldl_markLost {s : SentPackets} (h : s.Flight) (losts : List Uint16) :
    (losts.foldl SentPackets.markLost s).Flight := by
  induction losts generalizing s with
  | nil => exact h
  | cons x losts ih => exact ih (h.markLost x)

variable [Float64]

theorem Flight.step {s s' : SentPackets} (hwf : s.WF) (h : s.Flight) (hstep : s.AckStep s') :
    s'.Flight := by
  obtain ⟨i, p, ack, ctrl, t, hp, hctrl, hcases⟩ := hstep.inv
  obtain ⟨r, hr⟩ := hwf.record hp
  have hagree := h.acked p.seqNum r hr
  rw [hwf.index_number hp] at hagree
  rcases hcases with ⟨hnil, hs'⟩ | ⟨hne, rfl⟩
  · -- the packet is acknowledged for the first time, in both modules
    have hfalse : r.acked = false := by
      rw [← Bool.not_eq_true, hagree]
      rintro ⟨q, hq, hacks⟩
      rw [hp] at hq
      cases hq
      exact hacks hnil
    have hi := (List.getElem?_eq_some_iff.mp hp).1
    have hset := acked_set hi (congrArg packets hs') (List.cons_ne_nil t [])
    obtain ⟨hrec, hwin⟩ := DefaultController.onAck_first hr hfalse hctrl
    have hle := h.size_le hr hfalse
    have hctrl' : s'.congestionCtrl = ctrl := congrArg congestionCtrl hs'
    have hinit : s'.initSeqNum = s.initSeqNum := by rw [hs']
    refine h.insert hinit (hctrl' ▸ hrec) ?_ ?_ ?_
    · rw [hwf.index_number hp, hset]
      simp
    · intro y hy
      rw [hset, or_iff_right]
      intro heq
      exact hy (seqNumIndex_inj.mp (heq.trans (hwf.index_number hp).symm))
    · rw [hctrl', hwin, hr, Option.elim_some]
      simp only [PacketRecord.inFlight, hfalse, Bool.false_eq_true, if_false, if_true]
      bv_omega
  · have htrue : r.acked = true := hagree.mpr ⟨p, hp, hne⟩
    obtain rfl := DefaultController.onAck_acked hr htrue hctrl
    exact h

theorem Flight.processed {s s' : SentPackets} (hwf : s.WF) (h : s.Flight) (hp : Processed s s') :
    s'.Flight := by
  cases hp with
  | all hsteps => exact (hsteps.inv hwf h fun _ _ hwf h hstep => h.step hwf hstep).2
  | detect hsteps₁ _ hsteps₂ =>
      obtain ⟨hwf₁, h₁⟩ := hsteps₁.inv hwf h fun _ _ hwf h hstep => h.step hwf hstep
      obtain ⟨-, h₂⟩ := hsteps₂.inv hwf₁ h₁ fun _ _ hwf h hstep => h.step hwf hstep
      exact h₂.foldl_markLost _

/-! ### Transmissions -/

/-- How often the calls transmit the packet. -/
def transmissionsOf (x : Uint16) (calls : List Call) : Nat :=
  calls.countP fun
    | .onTransmit seqNum .. => seqNum = x
    | .onAck .. | .onTimeout => false

/-- No counter comes round in the calls to come. -/
def Counted (calls : List Call) (s : SentPackets) : Prop :=
  ∀ x r, s.congestionCtrl.transmissions.get? x = some r →
    1 ≤ r.numTransmissions.toNat ∧ r.numTransmissions.toNat + transmissionsOf x calls < 2 ^ 32

omit [Float64] in
/-- A new packet that is accepted fits into the window. -/
theorem onTransmit_fits {s s' : SentPackets} {seqNum : Uint16} {packetType : PacketType}
    {data : Bytes} {dataLen : Uint32} {now : Time} (hnew : s.packets.length ≤ s.seqNumIndex seqNum)
    (hok : s.onTransmit seqNum packetType data dataLen now = .ok s') :
    (s.congestionCtrl.windowSizeBytes + dataLen).toNat
      = s.congestionCtrl.windowSizeBytes.toNat + dataLen.toNat := by
  have hfit : dataLen ≤ s.window := by
    rcases onTransmit_inv hok with ⟨hidx, -⟩ | ⟨-, hfit, -⟩
    · exact absurd hidx (not_lt.mpr hnew)
    · exact hfit
  unfold window DefaultController.bytesAvailableInWindow at hfit
  split at hfit <;> bv_omega

omit [Float64] in
theorem Flight.transmitNew {s : SentPackets} (hwf : s.WF) (h : s.Flight)
    (hlen : s.packets.length < 65536) (packetType : PacketType) (data : Bytes) {dataLen : Uint32}
    (now : Time)
    (hfits : (s.congestionCtrl.windowSizeBytes + dataLen).toNat
      = s.congestionCtrl.windowSizeBytes.toNat + dataLen.toNat) :
    (s.transmitNew packetType data dataLen now).Flight := by
  refine h.insert rfl rfl ?_ (fun y _ => acked_transmitNew _ _ _) ?_
  · rw [acked_transmitNew, seqNumIndex_next s hlen]
    simp [Acked]
  · rw [hwf.next_unrecorded hlen]
    exact hfits

omit [Float64] in
/-- Another transmission only counts. -/
theorem Flight.resend {s s' : SentPackets} (h : s.Flight) {seqNum : Uint16}
    {packetType : PacketType} {data : Bytes} {dataLen : Uint32} {now : Time}
    (hres : Resent s seqNum s') {r : PacketRecord}
    (hr : s.congestionCtrl.transmissions.get? seqNum = some r) (hn : r.numTransmissions + 1 ≠ 1)
    (hok : s.onTransmit seqNum packetType data dataLen now = .ok s') : s'.Flight := by
  have heq : s.onTransmit seqNum packetType data dataLen now = _ :=
    onTransmit_again packetType data now hres.index hr hn
  have hacked := hres.acked
  cases hok.symm.trans heq
  refine h.insert rfl rfl ?_ (fun y _ => hacked _) ?_
  · rw [hacked]
    exact h.acked seqNum r hr
  · rw [hr]
    rfl

omit [Float64] in
theorem transmissionsOf_le (x : Uint16) (c : Call) (calls : List Call) :
    transmissionsOf x calls ≤ transmissionsOf x (c :: calls) := by
  unfold transmissionsOf
  rw [List.countP_cons]
  exact Nat.le_add_right _ _

omit [Float64] in
theorem transmissionsOf_transmit (x : Uint16) (packetType : PacketType) (data : Bytes)
    (dataLen : Uint32) (now : Time) (calls : List Call) :
    transmissionsOf x (.onTransmit x packetType data dataLen now :: calls)
      = transmissionsOf x calls + 1 := by
  simp [transmissionsOf]

omit [Float64] in
theorem Counted.tail {s : SentPackets} {c : Call} {calls : List Call}
    (h : Counted (c :: calls) s) : Counted calls s := by
  intro x r hr
  have hle := transmissionsOf_le x c calls
  obtain ⟨hpos, hlt⟩ := h x r hr
  exact ⟨hpos, by omega⟩

omit [Float64] in
/-- The record of a packet that is transmitted, counted once more. -/
theorem Counted.insert {s s' : SentPackets} {c : Call} {calls : List Call} {x : Uint16}
    {r : PacketRecord} (h : Counted (c :: calls) s)
    (hrec : s'.congestionCtrl.transmissions = s.congestionCtrl.transmissions.insert x r)
    (hpos : 1 ≤ r.numTransmissions.toNat)
    (hlt : r.numTransmissions.toNat + transmissionsOf x calls < 2 ^ 32) : Counted calls s' := by
  intro y q hq
  rw [hrec] at hq
  by_cases hy : y = x
  · subst hy
    rw [OrdMap.get?_insert_self] at hq
    cases hq
    exact ⟨hpos, hlt⟩
  · rw [OrdMap.get?_insert_of_ne hy] at hq
    exact h.tail y q hq

omit [Float64] in
theorem Counted.sameCounts {s s' : SentPackets} {calls : List Call} (h : Counted calls s)
    (hc : s.congestionCtrl.SameCounts s'.congestionCtrl) : Counted calls s' := by
  intro x r hr
  have hx := hc x
  rw [hr] at hx
  obtain ⟨q, hq, hnum⟩ := Option.map_eq_some_iff.mp hx.symm
  change q.numTransmissions = r.numTransmissions at hnum
  rw [← hnum]
  exact h x q hq

/-! ### Runs -/

theorem Flight.call {s s' : SentPackets} (hwf : s.WF) (h : s.Flight) {c : Call}
    {calls : List Call} (hc : Counted (c :: calls) s)
    (hcalls : ∀ x, transmissionsOf x (c :: calls) < 2 ^ 32) (hok : s.call c = .ok s') :
    s'.Flight ∧ Counted calls s' := by
  cases c with
  | onTransmit seqNum packetType data dataLen now =>
      have hcount := transmissionsOf_transmit seqNum packetType data dataLen now calls
      rcases onTransmit_ok hwf hok with ⟨rfl, hlen, rfl⟩ | hres
      · have hfits := onTransmit_fits (seqNumIndex_next s hlen).ge hok
        refine ⟨h.transmitNew hwf hlen packetType data now hfits, hc.insert rfl le_rfl ?_⟩
        have hlt := hcalls s.nextSeqNum
        rw [hcount] at hlt
        rw [Nat.add_comm]
        exact hlt
      · obtain ⟨r, hr, hrec⟩ := hres.record
        obtain ⟨hpos, hlt⟩ := hc seqNum r hr
        rw [hcount] at hlt
        -- the counter does not come round
        have hnum : (r.numTransmissions + 1).toNat = r.numTransmissions.toNat + 1 := by bv_omega
        refine ⟨h.resend hres hr (by bv_omega) hok, hc.insert hrec ?_ ?_⟩
        · show 1 ≤ (r.numTransmissions + 1).toNat
          omega
        · show (r.numTransmissions + 1).toNat + _ < _
          omega
  | onAck ackNum selectiveAck delay now =>
      obtain ⟨⟨s₁, r⟩, hack, hs'⟩ := bind_eq_ok.mp hok
      obtain rfl := pure_eq_ok.mp hs'
      refine ⟨?_, hc.tail.sameCounts (acks_of_ok hwf hack).1.counts⟩
      rcases onAck_steps hwf hack with rfl | hproc
      · exact h
      · exact h.processed hwf hproc
  | onTimeout =>
      obtain rfl := pure_eq_ok.mp hok
      exact ⟨h.congr rfl (fun _ => Iff.rfl) rfl rfl, hc.tail⟩

theorem Flight.calls {s s' : SentPackets} {calls : List Call} (hwf : s.WF) (h : s.Flight)
    (hc : Counted calls s) (hcalls : ∀ x, transmissionsOf x calls < 2 ^ 32)
    (hok : calls.foldlM SentPackets.call s = .ok s') : s'.WF ∧ s'.Flight := by
  induction calls generalizing s with
  | nil =>
      obtain rfl := pure_eq_ok.mp hok
      exact ⟨hwf, h⟩
  | cons c calls ih =>
      rw [List.foldlM_cons] at hok
      obtain ⟨s₁, hcall, hrest⟩ := bind_eq_ok.mp hok
      obtain ⟨h₁, hc₁⟩ := h.call hwf hc hcalls hcall
      exact ih (hwf.call hcall) h₁ hc₁
        (fun x => (transmissionsOf_le x c calls).trans_lt (hcalls x)) hrest

/-- **The accounting of the bytes in flight is exact**: in a run that
transmits no packet `2 ^ 32` times the controller has one record for each
packet sent, a record is flagged as acknowledged if and only if the packet
is, and the window holds the sizes of the records not flagged.  So the size
that an acknowledgement takes out of the window is always in it, also in the
middle of `onAck`, and the window is empty if and only if no byte is in
flight. -/
theorem flight_exact {initSeqNum : Uint16} {config : CtrlConfig} {calls : List Call}
    {s : SentPackets} (hrun : run initSeqNum config calls = .ok s)
    (hcalls : ∀ x, transmissionsOf x calls < 2 ^ 32) :
    (∀ x, s.congestionCtrl.transmissions.contains x = true ↔ ∃ p ∈ s.packets, p.seqNum = x) ∧
    s.congestionCtrl.transmissions.size = s.packets.length ∧
    (∀ x r, s.congestionCtrl.transmissions.get? x = some r →
      (r.acked = true ↔ ∃ p ∈ s.packets, p.seqNum = x ∧ p.acks ≠ [])) ∧
    s.congestionCtrl.windowSizeBytes.toNat
      = s.congestionCtrl.transmissions.total PacketRecord.inFlight ∧
    (∀ s₁, AckSteps s s₁ → ∀ x r, s₁.congestionCtrl.transmissions.get? x = some r →
      r.acked = false → r.sizeBytes.toNat ≤ s₁.congestionCtrl.windowSizeBytes.toNat) ∧
    (s.congestionCtrl.windowSizeBytes = 0 ↔
      ∀ x r, s.congestionCtrl.transmissions.get? x = some r → r.acked = false →
        r.sizeBytes = 0) := by
  obtain ⟨hwf, h⟩ := Flight.calls (wf_new initSeqNum config) (flight_new initSeqNum config)
    nofun hcalls hrun
  refine ⟨hwf.contains_iff, hwf.size_transmissions, ?_, h.window, ?_, h.empty_iff⟩
  · intro x r hr
    rw [h.acked x r hr, hwf.exists_number]
    rfl
  · intro s₁ hsteps x r hr hacked
    have h₁ := (hsteps.inv hwf h fun _ _ hwf h hstep => h.step hwf hstep).2
    exact h₁.size_le hr hacked

omit [Float64] in
/-- Two packets of one and two bytes: with the first acknowledged, the second
is in flight. -/
theorem flight_exact_second : ∃ s, @run exactFloat64 0 defaultCtrlConfig
      [.onTransmit 1 .st_data [1] 1 0, .onTransmit 2 .st_data [2, 3] 2 0,
        .onAck 1 none 0 0] = .ok s ∧
    s.congestionCtrl.windowSizeBytes.toNat =
      s.congestionCtrl.transmissions.total PacketRecord.inFlight := by
  have hrun : ∃ s, @run exactFloat64 0 defaultCtrlConfig
      [.onTransmit 1 .st_data [1] 1 0, .onTransmit 2 .st_data [2, 3] 2 0, .onAck 1 none 0 0] =
        .ok s := ⟨_, rfl⟩
  obtain ⟨s, hs⟩ := hrun
  have hcalls : ∀ x, transmissionsOf x [.onTransmit 1 .st_data [1] 1 0,
      .onTransmit 2 .st_data [2, 3] 2 0, .onAck 1 none 0 0] < 2 ^ 32 := by
    intro x
    exact Nat.lt_of_le_of_lt List.countP_le_length (by decide)
  exact ⟨s, hs, (@flight_exact exactFloat64 _ _ _ _ hs hcalls).2.2.2.1⟩

/-! ### The divisor of the adjustment -/

/-- **What the window adjustment divides by**: when `OnAck` comes to a packet
not acknowledged before, at any point of an `onAck`, `windowSizeBytes` is at
least the size of the packet, and it is positive if and only if some packet
in flight has bytes.  The packet itself need not have any, a FIN has none;
with nothing else in flight the adjustment is `0 / 0`. -/
theorem divisor_pos_iff {initSeqNum : Uint16} {config : CtrlConfig} {calls : List Call}
    {s s₁ : SentPackets} (hrun : run initSeqNum config calls = .ok s)
    (hcalls : ∀ x, transmissionsOf x calls < 2 ^ 32) (hsteps : AckSteps s s₁)
    {x : Uint16} {packetInst : PacketRecord}
    (hr : s₁.congestionCtrl.transmissions.get? x = some packetInst)
    (hacked : packetInst.acked = false) :
    packetInst.sizeBytes ≤ s₁.congestionCtrl.windowSizeBytes ∧
    (0 < s₁.congestionCtrl.windowSizeBytes ↔
      ∃ y r, s₁.congestionCtrl.transmissions.get? y = some r ∧ r.acked = false ∧
        0 < r.sizeBytes) := by
  obtain ⟨hwf, h⟩ := Flight.calls (wf_new initSeqNum config) (flight_new initSeqNum config)
    nofun hcalls hrun
  have h₁ := (hsteps.inv hwf h fun _ _ hwf h hstep => h.step hwf hstep).2
  refine ⟨h₁.size_le hr hacked, ?_⟩
  -- both sides negated are the two sides of `empty_iff`
  have hpos : ∀ n : Uint32, 0 < n ↔ n ≠ 0 := fun n => by bv_omega
  rw [hpos, ne_eq, h₁.empty_iff]
  simp only [hpos]
  push Not
  rfl

omit [Float64] in
/-- A packet of one byte and a FIN: acknowledged in turn, the first divides
by one. -/
theorem divisor_pos_iff_data : ∃ s, @run exactFloat64 0 defaultCtrlConfig
      [.onTransmit 1 .st_data [1] 1 0, .onTransmit 2 .st_fin [] 0 0] = .ok s ∧
    0 < s.congestionCtrl.windowSizeBytes := by
  let := exactFloat64
  have hrun : ∃ s r, run 0 defaultCtrlConfig
        [.onTransmit 1 .st_data [1] 1 0, .onTransmit 2 .st_fin [] 0 0] = .ok s ∧
      s.congestionCtrl.transmissions.get? 1 = some r ∧ r.acked = false ∧ 0 < r.sizeBytes :=
    ⟨_, _, rfl, rfl, rfl, by decide⟩
  obtain ⟨s, r, hs, hr, hacked, hsize⟩ := hrun
  have hcalls : ∀ x, transmissionsOf x
      [.onTransmit 1 .st_data [1] 1 0, .onTransmit 2 .st_fin [] 0 0] < 2 ^ 32 :=
    fun x => Nat.lt_of_le_of_lt List.countP_le_length (by decide)
  exact ⟨s, hs, (divisor_pos_iff hs hcalls .refl hr hacked).2.mpr ⟨1, r, hr, hacked, hsize⟩⟩

omit [Float64] in
/-- A FIN alone in flight: its acknowledgement divides by zero. -/
theorem divisor_zero : ∃ s s' r, @run exactFloat64 0 defaultCtrlConfig
      [.onTransmit 1 .st_fin [] 0 0] = .ok s ∧
    0 < s.congestionCtrl.targetDelayMicros ∧
    s.congestionCtrl.transmissions.get? 1 = some r ∧ r.acked = false ∧
    s.congestionCtrl.windowSizeBytes = 0 ∧ @ack exactFloat64 s 1 0 0 = .ok (s', none) :=
  ⟨_, _, _, rfl, by decide, rfl, rfl, rfl, rfl⟩

end SentPackets

end UtpGo
