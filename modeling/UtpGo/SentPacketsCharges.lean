/-
UtpGo/SentPacketsCharges.lean

How often a loss lowers the limit of the window.  `OnAckNum` looks for losses
among all packets again upon every acknowledgement, and hands every one it
finds to the controller, which halves the limit each time, whether the packet
was taken for lost before or not.

`onAckCharges` is the list of the packets handed over by one `onAck`; by
`onAck_charges` the controller afterwards is the one these calls lead to.

Main result: `charged_once_iff`, no packet already lost is charged again if
and only if the acknowledgement is not processed or covers every lost packet;
and in a run of such acknowledgements a packet is charged at most once before
it is acknowledged.
-/
import UtpGo.SentPacketsExact
import UtpGo.SentPacketsFlight

namespace UtpGo

open Circular Checked

namespace SentPackets

/-! ### The packets charged -/

section Charges

variable [Float64]

/-- The packets for which `OnAckNum` calls `OnLostPacket`, in order: those
detected, as far as `OnLost` finds them in the range. -/
def onAckNumCharges (s : SentPackets) (ackNum : Uint16) (selectiveAck : Option SelectiveAck)
    (delay : Duration) (now : Time) : GoM (List Uint16) := do
  match ← s.ackWithFlags ackNum selectiveAck delay now with
  | (_, some _) => pure []
  | (s, none) =>
      match s.firstUnackedSeqNum with
      | none => pure []
      | some firstUnacked => do
          match ← s.ackPriorUnacked ackNum firstUnacked delay now with
          | (_, some _) => pure []
          | (s, none) => do
              let losts ← s.detectLostPackets firstUnacked
              pure (losts.filter fun x => s.seqNumRange.contains x)

def onAckCharges (s : SentPackets) (ackNum : Uint16) (selectiveAck : Option SelectiveAck)
    (delay : Duration) (now : Time) : GoM (List Uint16) :=
  match s.ackRange ackNum with
  | none => pure []
  | some seqRange =>
      if ackNum ≠ seqRange.start then s.onAckNumCharges ackNum selectiveAck delay now else pure []

variable {s s' : SentPackets} {ackNum : Uint16} {selectiveAck : Option SelectiveAck}
  {delay : Duration} {now : Time}

theorem onAckCharges_acceptable (h : s.WF) (hacc : s.Acceptable ackNum) :
    s.onAckCharges ackNum selectiveAck delay now
      = s.onAckNumCharges ackNum selectiveAck delay now := by
  rcases ackRange_eq h ackNum with ⟨-, range, hr, hstart⟩ | ⟨hout, -⟩
  · rw [onAckCharges, hr]
    dsimp only
    rw [hstart, if_pos hacc.1]
  · exact absurd hacc.2 (not_le.mpr hout)

theorem onAckCharges_refused (h : s.WF) (hacc : ¬ s.Acceptable ackNum) :
    s.onAckCharges ackNum selectiveAck delay now = .ok [] := by
  rcases ackRange_eq h ackNum with ⟨hin, range, hr, hstart⟩ | ⟨-, hr⟩
  · have hinit : ackNum = s.initSeqNum := by
      by_contra hne
      exact hacc ⟨hne, hin⟩
    rw [onAckCharges, hr]
    dsimp only
    rw [hstart, if_neg (not_not.mpr hinit)]
    rfl
  · rw [onAckCharges, hr]
    rfl

theorem onAckNumCharges_none_left {s₁ : SentPackets}
    (hflags : s.ackWithFlags ackNum selectiveAck delay now = .ok (s₁, none))
    (hu : s₁.firstUnackedSeqNum = none) :
    s.onAckNumCharges ackNum selectiveAck delay now = .ok [] := by
  simp only [onAckNumCharges, hflags, ok_bind, hu]
  rfl

theorem onAckNumCharges_detect {s₁ s₂ : SentPackets} {firstUnacked : Uint16} {losts : List Uint16}
    (hflags : s.ackWithFlags ackNum selectiveAck delay now = .ok (s₁, none))
    (hu : s₁.firstUnackedSeqNum = some firstUnacked)
    (hprior : s₁.ackPriorUnacked ackNum firstUnacked delay now = .ok (s₂, none))
    (hlosts : s₂.detectLostPackets firstUnacked = .ok losts) :
    s.onAckNumCharges ackNum selectiveAck delay now
      = .ok (losts.filter fun x => s₂.seqNumRange.contains x) := by
  simp only [onAckNumCharges, hflags, ok_bind, hu, hprior, hlosts]
  rfl

/-- An acknowledgement that is processed leaves nothing unacknowledged and
charges nothing, or it charges what it detects in the range. -/
theorem onAckCharges_cases {r : Except SentError (CircularRangeInclusive × List Uint16)}
    (h : s.WF) (hacc : s.Acceptable ackNum)
    (hok : s.onAck ackNum selectiveAck delay now = .ok (s', r)) :
    ∃ s₁, AckSteps s s₁ ∧ s₁.WF ∧
      ((s₁.front = s₁.packets.length ∧ s' = s₁ ∧
        s.onAckCharges ackNum selectiveAck delay now = .ok []) ∨
      ∃ s₂ firstUnacked losts, s₁.firstUnackedSeqNum = some firstUnacked ∧ AckSteps s₁ s₂ ∧
        s₂.detectLostPackets firstUnacked = .ok losts ∧ s' = losts.foldl markLost s₂ ∧
        s.onAckCharges ackNum selectiveAck delay now
          = .ok (losts.filter fun x => s₂.seqNumRange.contains x)) := by
  rw [onAckCharges_acceptable h hacc]
  obtain ⟨err, hnum, -⟩ := onAck_acceptable h hacc hok
  obtain ⟨s₁, hflags, h₁, ⟨hall, rfl, -⟩ | ⟨s₂, firstUnacked, losts, hu, hprior, hlosts, rfl, -⟩⟩ :=
    onAckNum_cases h hacc.index_lt hnum
  · refine ⟨s', ackWithFlags_steps hflags, h₁, .inl ⟨hall, rfl, ?_⟩⟩
    apply onAckNumCharges_none_left hflags
    rw [firstUnackedSeqNum_eq h₁, if_neg (by omega)]
  · exact ⟨s₁, ackWithFlags_steps hflags, h₁, .inr ⟨s₂, firstUnacked, losts, hu,
      ackPriorUnacked_steps hprior, hlosts, rfl, onAckNumCharges_detect hflags hu hprior hlosts⟩⟩

omit [Float64] in
theorem markLost_ctrl (s : SentPackets) (x : Uint16) :
    (s.markLost x).congestionCtrl = if s.seqNumRange.contains x
      then (s.congestionCtrl.onLostPacket x true).1 else s.congestionCtrl := by
  have hrange : SentPackets.seqNumRange { s with lostPackets := s.lostPackets.insert x () }
      = s.seqNumRange := rfl
  unfold markLost onLost
  rw [hrange]
  by_cases hc : s.seqNumRange.contains x = true
  · rw [if_neg (not_not.mpr hc), if_pos hc]
    rcases s.congestionCtrl.onLostPacket x true with ⟨ctrl, - | err⟩
    · rfl
    · rfl
  · rw [if_pos hc, if_neg hc]

omit [Float64] in
theorem foldl_markLost_ctrl (losts : List Uint16) (s : SentPackets) :
    (losts.foldl markLost s).congestionCtrl
      = (losts.filter fun x => s.seqNumRange.contains x).foldl
        (fun c x => (c.onLostPacket x true).1) s.congestionCtrl := by
  induction losts generalizing s with
  | nil => rfl
  | cons x losts ih =>
      obtain ⟨hpackets, hinit, -⟩ := foldl_markLost [x] s
      have hrange : (s.markLost x).seqNumRange = s.seqNumRange :=
        seqNumRange_congr hinit (congrArg List.length hpackets)
      rw [List.foldl_cons, ih, hrange, markLost_ctrl]
      by_cases hc : s.seqNumRange.contains x = true
      · rw [if_pos hc, List.filter_cons_of_pos hc, List.foldl_cons]
      · rw [if_neg hc, List.filter_cons_of_neg hc]

/-- **The list is that of the calls**: the packets are marked, and then the
controller is handed the packets of the list, one after the other. -/
theorem onAck_charges (h : s.WF)
    {r : Except SentError (CircularRangeInclusive × List Uint16)}
    (hok : s.onAck ackNum selectiveAck delay now = .ok (s', r)) :
    ∃ s₂ charged, AckSteps s s₂ ∧ s.onAckCharges ackNum selectiveAck delay now = .ok charged ∧
      s'.congestionCtrl
        = charged.foldl (fun c x => (c.onLostPacket x true).1) s₂.congestionCtrl := by
  by_cases hacc : s.Acceptable ackNum
  swap
  · refine ⟨s, [], .refl, onAckCharges_refused h hacc, ?_⟩
    rcases onAck_cases h hok with ⟨-, rfl, -⟩ | ⟨-, rfl, -⟩ | ⟨hacc', -⟩
    · rfl
    · rfl
    · exact absurd hacc' hacc
  obtain ⟨s₁, hsteps₁, h₁, ⟨-, rfl, hnone⟩ | ⟨s₂, firstUnacked, losts, -, hsteps₂, -, rfl,
    hcharges⟩⟩ := onAckCharges_cases h hacc hok
  · exact ⟨s', [], hsteps₁, hnone, rfl⟩
  · exact ⟨s₂, _, hsteps₁.trans hsteps₂, hcharges, foldl_markLost_ctrl losts s₂⟩

/-! ### Charged again -/

/-- How a packet comes to be charged: the acknowledgement is processed, and
the packet is lost afterwards and in the range. -/
theorem charged_inv (h : s.WF) {charged : List Uint16}
    (hok : s.onAckCharges ackNum selectiveAck delay now = .ok charged) {x : Uint16}
    (hx : x ∈ charged) :
    ∃ s' r, s.onAck ackNum selectiveAck delay now = .ok (s', r) ∧ s.Acceptable ackNum ∧
      s.seqNumRange.contains x = true ∧ s'.Lost x ∧ s'.lostPackets.contains x = true := by
  have hacc : s.Acceptable ackNum := by
    by_contra hnot
    rw [onAckCharges_refused h hnot] at hok
    cases hok
    cases hx
  rcases onAck_spec delay now h ackNum selectiveAck with ⟨hover, -⟩ | ⟨-, s', r, hack, -⟩
  · -- a call that panics does so before it looks for losses
    rw [onAckCharges_acceptable h hacc] at hok
    obtain ⟨⟨s₁, err⟩, hflags, -⟩ := bind_eq_ok.mp hok
    rcases ackWithFlags_spec delay now h hacc.index_lt selectiveAck with ⟨-, herr⟩ | ⟨hin, -⟩
    · cases hflags.symm.trans herr
    · obtain ⟨-, j, hj, hle⟩ := hover
      exact absurd (hin j hj) (not_lt.mpr hle)
  refine ⟨s', r, hack, hacc, ?_⟩
  obtain ⟨s₁, hsteps₁, h₁, ⟨-, -, hnone⟩ | ⟨s₂, firstUnacked, losts, hu, hsteps₂, hlosts, rfl,
    hcharges⟩⟩ := onAckCharges_cases h hacc hack
  · cases hok.symm.trans hnone
    cases hx
  · cases hok.symm.trans hcharges
    obtain ⟨hmem, hrange⟩ := List.mem_filter.mp hx
    have hacks := (hsteps₁.acks h).trans (hsteps₂.acks h₁)
    obtain ⟨hpackets, -, hcontains⟩ := foldl_markLost losts s₂
    refine ⟨by rwa [hacks.range] at hrange, ?_, (hcontains x).mpr (.inl hmem)⟩
    have hlost := (mem_detected_iff h₁ hu hsteps₂ hlosts x).mp hmem
    unfold Lost at hlost ⊢
    rwa [hpackets]

/-- A packet that is lost and stays so is charged, if it is in the range. -/
theorem charged_of_lost (h : s.WF) (hacc : s.Acceptable ackNum)
    (hover : ¬ s.Overruns ackNum selectiveAck) {x : Uint16} (hlost : s.Lost x)
    (hrange : s.seqNumRange.contains x = true)
    (hun : ¬ s.Covered ackNum selectiveAck (s.seqNumIndex x)) :
    ∃ charged, s.onAckCharges ackNum selectiveAck delay now = .ok charged ∧ x ∈ charged := by
  rcases onAck_spec delay now h ackNum selectiveAck with ⟨hover', -⟩ | ⟨-, s', r, hok, hacks', -⟩
  · exact absurd hover' hover
  obtain ⟨hlt, hnot⟩ := hlost.index h
  have hleft : ¬ s'.Acked (s.seqNumIndex x) := by
    intro hacked
    rcases hacks'.acked _ hacked with hbefore | hcov
    · exact hnot hbefore
    · exact hun hcov
  obtain ⟨s₁, hsteps₁, h₁, ⟨hall, rfl, -⟩ | ⟨s₂, firstUnacked, losts, hu, hsteps₂, hlosts, rfl,
    hcharges⟩⟩ := onAckCharges_cases h hacc hok
  · refine absurd (acked_of_lt_front ?_) hleft
    rw [hall, hacks'.length]
    exact hlt
  · have hacks := (hsteps₁.acks h).trans (hsteps₂.acks h₁)
    refine ⟨_, hcharges, List.mem_filter.mpr ⟨?_, ?_⟩⟩
    · rw [mem_detected_iff h₁ hu hsteps₂ hlosts]
      refine hlost.mono hacks.wf (grows h hacks.wf hacks.init hacks.length hacks.mono) ?_
      rw [hacks.index]
      unfold Acked at hleft ⊢
      rwa [(foldl_markLost losts s₂).1] at hleft
    · rwa [hacks.range]

/-- The acknowledgement leaves no lost packet behind: it is not processed, or
it covers every packet that is lost.  A packet outside the range, which has
come round, is not charged, and a call that panics charges nothing. -/
def ClearsLosses (s : SentPackets) (ackNum : Uint16) (selectiveAck : Option SelectiveAck) : Prop :=
  s.Acceptable ackNum → ¬ s.Overruns ackNum selectiveAck →
    ∀ x, s.lostPackets.contains x = true → s.seqNumRange.contains x = true →
      s.Covered ackNum selectiveAck (s.seqNumIndex x)

theorem charges_new_iff (h : s.WF) (he : s.LossExact) :
    (∀ charged, s.onAckCharges ackNum selectiveAck delay now = .ok charged →
      ∀ x ∈ charged, s.lostPackets.contains x = false) ↔
    s.ClearsLosses ackNum selectiveAck := by
  constructor
  · intro hnew hacc hover x hx hrange
    by_contra hun
    obtain ⟨charged, hok, hmem⟩ :=
      @charged_of_lost _ s ackNum selectiveAck delay now h hacc hover x ((he x).mp hx) hrange hun
    rw [hnew charged hok x hmem] at hx
    cases hx
  · intro hclears charged hok x hx
    obtain ⟨s', r, hack, hacc, hrange, hlost, -⟩ := charged_inv h hok hx
    have hover : ¬ s.Overruns ackNum selectiveAck := by
      rcases onAck_spec delay now h ackNum selectiveAck with ⟨-, hpanic⟩ | ⟨hover, -⟩
      · cases hack.symm.trans hpanic
      · exact hover
    rw [Bool.eq_false_iff]
    intro hbefore
    -- what the acknowledgement covers is acknowledged afterwards, so not lost
    have hacks := (acks_of_ok h hack).1
    have hacked := onAck_marks h hack (hclears hacc hover x hbefore hrange)
    rw [← hacks.index] at hacked
    exact (hlost.index hacks.wf).2 hacked

/-! ### Runs -/

omit [Float64] in
theorem detectLoop_sublist (l : List SentPacket) (acked : Nat) :
    (detectLoop l acked).Sublist (l.map (·.seqNum)) := by
  induction l generalizing acked with
  | nil => exact .slnil
  | cons p l ih =>
      rw [detectLoop, List.map_cons]
      split
      · exact (ih _).cons_cons _
      · exact (ih _).cons _

/-- No packet is charged twice by one acknowledgement. -/
theorem nodup_onAckCharges (h : s.WF) {charged : List Uint16}
    (hok : s.onAckCharges ackNum selectiveAck delay now = .ok charged) : charged.Nodup := by
  rcases charged with - | ⟨x, charged⟩
  · exact List.nodup_nil
  obtain ⟨s', r, hack, hacc, -⟩ := charged_inv h hok List.mem_cons_self
  obtain ⟨s₁, -, h₁, ⟨-, -, hnone⟩ |
      ⟨s₂, firstUnacked, losts, -, hsteps, hlosts, -, hcharges⟩⟩ := onAckCharges_cases h hacc hack
  · cases hok.symm.trans hnone
  · rw [Except.ok.inj (hok.symm.trans hcharges)]
    apply List.Nodup.filter
    have h₂ := (hsteps.acks h₁).wf
    obtain ⟨packets, hslice, hpure⟩ := bind_eq_ok.mp hlosts
    obtain ⟨-, -, rfl⟩ := slice_eq_ok.mp hslice
    obtain rfl := pure_eq_ok.mp hpure
    refine (detectLoop_sublist _ 0).nodup ?_
    rw [List.map_reverse, List.nodup_reverse, List.take_length, List.map_drop]
    exact h₂.nodup_numbers.sublist (List.drop_sublist _ _)

/-- The packets charged by a call. -/
def callCharges (s : SentPackets) : Call → GoM (List Uint16)
  | .onAck ackNum selectiveAck delay now => s.onAckCharges ackNum selectiveAck delay now
  | .onTransmit .. | .onTimeout => pure []

/-- The packets charged by the calls, one after the other. -/
def charges : SentPackets → List Call → GoM (List Uint16)
  | _, [] => pure []
  | s, c :: calls => do
      let charged ← s.callCharges c
      let s ← s.call c
      let rest ← charges s calls
      pure (charged ++ rest)

/-- Every acknowledgement among the calls leaves no lost packet behind. -/
def ClearsAlong : SentPackets → List Call → Prop
  | _, [] => True
  | s, c :: calls =>
      (∀ ackNum selectiveAck delay now, c = .onAck ackNum selectiveAck delay now →
        s.ClearsLosses ackNum selectiveAck) ∧ ∀ s', s.call c = .ok s' → ClearsAlong s' calls

theorem call_mono (h : s.WF) {c : Call} (hok : s.call c = .ok s') (x : Uint16) :
    s'.seqNumIndex x = s.seqNumIndex x ∧ ∀ i, s.Acked i → s'.Acked i := by
  cases c with
  | onTransmit seqNum packetType data dataLen now =>
      rcases onTransmit_ok h hok with ⟨-, -, rfl⟩ | hres
      · exact ⟨seqNumIndex_congr rfl x, fun i hi => (acked_transmitNew _ _ _).mpr hi⟩
      · exact ⟨seqNumIndex_congr hres.init x, fun i hi => (hres.acked i).mpr hi⟩
  | onAck ackNum selectiveAck delay now =>
      obtain ⟨⟨s₁, r⟩, hack, hs'⟩ := bind_eq_ok.mp hok
      obtain rfl := pure_eq_ok.mp hs'
      have hacks := (acks_of_ok h hack).1
      exact ⟨hacks.index x, hacks.mono⟩
  | onTimeout =>
      obtain rfl := pure_eq_ok.mp hok
      exact ⟨rfl, fun _ => id⟩

theorem calls_mono {calls : List Call} (h : s.WF) (hrun : calls.foldlM call s = .ok s')
    (x : Uint16) : s'.seqNumIndex x = s.seqNumIndex x ∧ ∀ i, s.Acked i → s'.Acked i := by
  induction calls generalizing s with
  | nil =>
      obtain rfl := pure_eq_ok.mp hrun
      exact ⟨rfl, fun _ => id⟩
  | cons c calls ih =>
      obtain ⟨s₁, hcall, hrest⟩ := bind_eq_ok.mp hrun
      obtain ⟨hidx, hmono⟩ := call_mono h hcall x
      obtain ⟨hidx', hmono'⟩ := ih (h.call hcall) hrest
      exact ⟨hidx'.trans hidx, fun i hi => hmono' i (hmono i hi)⟩

/-- A packet lost stays lost until it is acknowledged. -/
theorem call_keeps_lost (h : s.WF) (he : s.LossExact) {c : Call} (hok : s.call c = .ok s')
    {x : Uint16} (hlost : s.lostPackets.contains x = true)
    (hun : ¬ s'.Acked (s'.seqNumIndex x)) : s'.lostPackets.contains x = true := by
  cases c with
  | onTransmit seqNum packetType data dataLen now =>
      rw [onTransmit_lostPackets hok]
      exact hlost
  | onAck ackNum selectiveAck delay now =>
      have he' := he.call h hok
      obtain ⟨⟨s₁, r⟩, hack, hs'⟩ := bind_eq_ok.mp hok
      obtain rfl := pure_eq_ok.mp hs'
      have hacks := (acks_of_ok h hack).1
      rw [he' x]
      exact ((he x).mp hlost).mono hacks.wf
        (grows h hacks.wf hacks.init hacks.length hacks.mono) hun
  | onTimeout =>
      obtain rfl := pure_eq_ok.mp hok
      exact hlost

/-- A packet not acknowledged in the end is charged at most once, and not at
all if it is lost from the start. -/
theorem charges_count {calls : List Call} {charged : List Uint16} (h : s.WF) (he : s.LossExact)
    (hclears : s.ClearsAlong calls) (hrun : calls.foldlM call s = .ok s')
    (hok : s.charges calls = .ok charged) {x : Uint16} (hun : ¬ s'.Acked (s'.seqNumIndex x)) :
    charged.count x ≤ if s.lostPackets.contains x then 0 else 1 := by
  induction calls generalizing s charged with
  | nil =>
      obtain rfl := pure_eq_ok.mp hok
      exact Nat.zero_le _
  | cons c calls ih =>
      obtain ⟨s₁, hcall, hrest⟩ := bind_eq_ok.mp hrun
      obtain ⟨first, hfirst, hok⟩ := bind_eq_ok.mp hok
      obtain ⟨s₁', hcall', hok⟩ := bind_eq_ok.mp hok
      cases hcall.symm.trans hcall'
      obtain ⟨rest, hcharges, hok⟩ := bind_eq_ok.mp hok
      obtain rfl := pure_eq_ok.mp hok
      have h₁ := h.call hcall
      have hlater := ih h₁ (he.call h hcall) (hclears.2 s₁ hcall) hrest hcharges
      have hun₁ : ¬ s₁.Acked (s₁.seqNumIndex x) := by
        obtain ⟨hidx, hmono⟩ := calls_mono h₁ hrest x
        rw [← hidx]
        exact fun hacked => hun (hmono _ hacked)
      rw [List.count_append]
      by_cases hmem : x ∈ first
      · -- charged now: not lost before, lost afterwards
        cases c with
        | onTransmit seqNum packetType data dataLen now =>
            cases hfirst
            cases hmem
        | onTimeout =>
            cases hfirst
            cases hmem
        | onAck ackNum selectiveAck delay now =>
            have hclear := hclears.1 ackNum selectiveAck delay now rfl
            have hnew := (charges_new_iff h he).mpr hclear first hfirst x hmem
            obtain ⟨s₂, r, hack, -, -, -, hlost⟩ := charged_inv h hfirst hmem
            have hs₁ : s₁ = s₂ := by
              obtain ⟨⟨s₂', r'⟩, hack', hs₁⟩ := bind_eq_ok.mp hcall
              cases hack.symm.trans hack'
              exact (pure_eq_ok.mp hs₁).symm
            rw [hs₁, hlost] at hlater
            rw [hnew]
            have hone := List.nodup_iff_count_le_one.mp (nodup_onAckCharges h hfirst) x
            simp only [if_true] at hlater
            simp only [Bool.false_eq_true, if_false]
            omega
      · rw [List.count_eq_zero_of_not_mem hmem, Nat.zero_add]
        cases hbefore : s.lostPackets.contains x with
        | false =>
            refine hlater.trans ?_
            split
            · exact Nat.zero_le _
            · exact le_refl _
        | true =>
            rwa [call_keeps_lost h he hcall hbefore hun₁] at hlater

/-- **A loss is charged once only if the next acknowledgement clears it.**  In
every state of a run, an acknowledgement charges no packet that is already
lost if and only if it leaves no lost packet behind; and if all
acknowledgements of a run do so, a packet not acknowledged in the end has been
charged once at most. -/
theorem charged_once_iff {initSeqNum : Uint16} {config : CtrlConfig} {calls : List Call}
    {s : SentPackets} (hrun : run initSeqNum config calls = .ok s) :
    (∀ ackNum selectiveAck delay now,
      (∀ charged, s.onAckCharges ackNum selectiveAck delay now = .ok charged →
        ∀ x ∈ charged, s.lostPackets.contains x = false) ↔
      s.ClearsLosses ackNum selectiveAck) ∧
    ((newSentPackets initSeqNum (newDefaultController config)).ClearsAlong calls →
      ∀ charged, (newSentPackets initSeqNum (newDefaultController config)).charges calls
        = .ok charged → ∀ x, ¬ s.Acked (s.seqNumIndex x) → charged.count x ≤ 1) := by
  obtain ⟨hwf, he⟩ := foldlM_inv (fun s => s.WF ∧ s.LossExact) hrun
    ⟨wf_new initSeqNum config, lossExact_new initSeqNum _⟩
    fun _ _ _ _ h hok => ⟨h.1.call hok, h.2.call h.1 hok⟩
  refine ⟨fun ackNum selectiveAck delay now => charges_new_iff hwf he, ?_⟩
  intro hclears charged hok x hun
  exact charges_count (wf_new initSeqNum config) (lossExact_new initSeqNum _) hclears hrun hok hun

omit [Float64] in
/-- The second of five packets is lost, and the next acknowledgement is its
own. -/
theorem charged_once_cleared : ∃ s, @run exactFloat64 0 defaultCtrlConfig
      [.onTransmit 1 .st_data [1] 1 0, .onTransmit 2 .st_data [2] 1 0,
        .onTransmit 3 .st_data [3] 1 0, .onTransmit 4 .st_data [4] 1 0,
        .onTransmit 5 .st_data [5] 1 0,
        .onAck 1 (some (newSelectiveAck [true, true, true])) 0 0] = .ok s ∧
    ∀ charged, @onAckCharges exactFloat64 s 2 none 0 0 = .ok charged →
      ∀ x ∈ charged, s.lostPackets.contains x = false := by
  have hrun : ∃ s, @run exactFloat64 0 defaultCtrlConfig
      [.onTransmit 1 .st_data [1] 1 0, .onTransmit 2 .st_data [2] 1 0,
        .onTransmit 3 .st_data [3] 1 0, .onTransmit 4 .st_data [4] 1 0,
        .onTransmit 5 .st_data [5] 1 0,
        .onAck 1 (some (newSelectiveAck [true, true, true])) 0 0] = .ok s ∧
      s.lostPackets.keys = [2] := ⟨_, rfl, rfl⟩
  obtain ⟨s, hs, hlost⟩ := hrun
  refine ⟨s, hs, ((@charged_once_iff exactFloat64 _ _ _ _ hs).1 2 none 0 0).mpr ?_⟩
  intro hacc _ x hx _
  rw [OrdMap.contains_iff, ← OrdMap.mem_keys, hlost] at hx
  exact ⟨hacc, .inl (List.mem_singleton.mp hx ▸ le_refl _)⟩

omit [Float64] in
/-- The same acknowledgement comes twice, and the packet it shows to be lost
is charged both times. -/
theorem charged_twice : ∃ s, @run exactFloat64 0 defaultCtrlConfig
      [.onTransmit 1 .st_data [1] 1 0, .onTransmit 2 .st_data [2] 1 0,
        .onTransmit 3 .st_data [3] 1 0, .onTransmit 4 .st_data [4] 1 0,
        .onTransmit 5 .st_data [5] 1 0,
        .onAck 1 (some (newSelectiveAck [true, true, true])) 0 0] = .ok s ∧
    s.lostPackets.contains 2 = true ∧
    @onAckCharges exactFloat64 s 1 (some (newSelectiveAck [true, true, true])) 0 0 = .ok [2] :=
  ⟨_, rfl, rfl, rfl⟩

end Charges

end SentPackets

end UtpGo
