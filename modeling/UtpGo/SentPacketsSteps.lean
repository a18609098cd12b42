/-
UtpGo/SentPacketsSteps.lean

Processing an acknowledgement in small steps.  Whatever `onAck` marks, it
marks by calls of `ack`, one packet at a time (`AckStep`); afterwards it may
look for lost packets.

Main result: `onAck_steps`, the ways in which `onAck` returns.  A property
that every step keeps is kept by the loops over the flags and over the
packets before the number acknowledged.
-/
import UtpGo.SentPacketsAck
import UtpGo.Traces

namespace UtpGo

open Checked

namespace SentPackets

theorem acked_set {s s' : SentPackets} {i : Nat} {p : SentPacket} (hi : i < s.packets.length)
    (hs' : s'.packets = s.packets.set i p) (hp : p.acks ≠ []) (j : Nat) :
    s'.Acked j ↔ j = i ∨ s.Acked j := by
  unfold Acked
  rw [hs', List.getElem?_set]
  simp only [hi, if_true]
  split
  · rename_i hij
    exact ⟨fun _ => .inl hij.symm, fun _ => ⟨p, rfl, hp⟩⟩
  · rename_i hij
    exact ⟨.inr, fun hj => hj.resolve_left fun heq => hij heq.symm⟩

variable [Float64]

/-- One packet is acknowledged. -/
def AckStep (s s' : SentPackets) : Prop := ∃ x delay now, s.ack x delay now = .ok (s', none)

/-- Packets are acknowledged one after the other. -/
def AckSteps : SentPackets → SentPackets → Prop := Relation.ReflTransGen AckStep

theorem WF.ackStep {s s' : SentPackets} (h : s.WF) (hstep : s.AckStep s') :
    ∃ x, s.seqNumIndex x < s.packets.length ∧ Acks (· = s.seqNumIndex x) s s' := by
  obtain ⟨x, delay, now, hok⟩ := hstep
  rcases Nat.lt_or_ge (s.seqNumIndex x) s.packets.length with hx | hx
  · obtain ⟨s₁, hok₁, hacks⟩ := ack_spec delay now h hx
    rw [hok₁] at hok
    cases hok
    exact ⟨x, hx, hacks⟩
  · rw [ack_panics delay now hx] at hok
    cases hok

/-- What a step does: the controller takes the acknowledgement, and a packet
not acknowledged before is marked and no longer lost. -/
theorem AckStep.inv {s s' : SentPackets} (hstep : s.AckStep s') :
    ∃ i p ack ctrl t, s.packets[i]? = some p ∧
      s.congestionCtrl.onAck p.seqNum ack = (ctrl, none) ∧
      (p.acks = [] ∧ s' = { s with
          packets := s.packets.set i { p with acks := [t] }
          lostPackets := s.lostPackets.erase p.seqNum
          congestionCtrl := ctrl } ∨
        p.acks ≠ [] ∧ s' = { s with congestionCtrl := ctrl }) := by
  obtain ⟨x, delay, now, hok⟩ := hstep
  obtain ⟨p, hp, hrest⟩ := bind_eq_ok.mp hok
  refine ⟨s.seqNumIndex x, p, { delay, rtt := p.rtt now, receivedAt := now }, ?_⟩
  rcases hc : s.congestionCtrl.onAck p.seqNum { delay, rtt := p.rtt now, receivedAt := now } with
    ⟨ctrl, - | err⟩
  · rw [hc] at hrest
    refine ⟨ctrl, now, index_eq_ok.mp hp, rfl, ?_⟩
    dsimp only at hrest
    split at hrest
    · rename_i hacks
      rw [List.length_eq_zero_iff] at hacks
      cases hrest
      rw [hacks]
      exact .inl ⟨rfl, rfl⟩
    · rename_i hacks
      cases hrest
      exact .inr ⟨fun hnil => hacks (congrArg List.length hnil), rfl⟩
  · rw [hc] at hrest
    cases hrest

/-- The invariant rule of the steps. -/
theorem AckSteps.inv {I : SentPackets → Prop} {s s' : SentPackets} (hsteps : AckSteps s s')
    (h : s.WF) (h₀ : I s) (hstep : ∀ s s', s.WF → I s → s.AckStep s' → I s') : s'.WF ∧ I s' := by
  refine reach_inv (I := fun s => s.WF ∧ I s) ?_ ⟨h, h₀⟩ hsteps
  intro s s' hs hI
  obtain ⟨x, -, hacks⟩ := hI.1.ackStep hs
  exact ⟨hacks.wf, hstep s s' hI.1 hI.2 hs⟩

theorem AckSteps.acks {s s' : SentPackets} (hsteps : AckSteps s s') (h : s.WF) :
    Acks (fun _ => True) s s' := by
  refine (hsteps.inv (I := Acks (fun _ => True) s) h (.refl h) ?_).2
  intro s₁ s₂ hwf hacks hstep
  obtain ⟨x, -, hstep⟩ := hwf.ackStep hstep
  exact hacks.trans (hstep.weaken fun _ _ => trivial)

/-! ### The loops -/

variable {delay : Duration} {now : Time}

theorem selectiveAckLoop_steps {r : CircularRangeInclusive} {acked : List Bool} {first : Uint16}
    {s s' : SentPackets} (hok : selectiveAckLoop r delay now acked first s = .ok (s', none)) :
    AckSteps s s' := by
  induction acked generalizing first s with
  | nil =>
      cases hok
      exact .refl
  | cons flag acked ih =>
      unfold selectiveAckLoop at hok
      split at hok
      swap
      · cases hok
        exact .refl
      split at hok
      · obtain ⟨⟨s₁, err⟩, hack, hrest⟩ := bind_eq_ok.mp hok
        cases err with
        | some err => cases hrest
        | none => exact .head ⟨first, delay, now, hack⟩ (ih hrest)
      · exact ih hok

theorem ackEach_steps {l : List Uint16} {s s' : SentPackets}
    (hok : ackEach delay now l s = .ok (s', none)) : AckSteps s s' := by
  induction l generalizing s with
  | nil =>
      cases hok
      exact .refl
  | cons x l ih =>
      obtain ⟨⟨s₁, err⟩, hack, hrest⟩ := bind_eq_ok.mp hok
      cases err with
      | some err => cases hrest
      | none => exact .head ⟨x, delay, now, hack⟩ (ih hrest)

theorem ackWithFlags_steps {ackNum : Uint16} {selectiveAck : Option SelectiveAck}
    {s s' : SentPackets} (hok : s.ackWithFlags ackNum selectiveAck delay now = .ok (s', none)) :
    AckSteps s s' := by
  cases selectiveAck with
  | none => exact .single ⟨ackNum, delay, now, hok⟩
  | some sack =>
      obtain ⟨⟨s₁, err⟩, hack, hrest⟩ := bind_eq_ok.mp hok
      cases err with
      | some err => cases hrest
      | none => exact .head ⟨ackNum, delay, now, hack⟩ (selectiveAckLoop_steps hrest)

theorem ackPriorUnacked_steps {x firstUnacked : Uint16} {s s' : SentPackets}
    (hok : s.ackPriorUnacked x firstUnacked delay now = .ok (s', none)) : AckSteps s s' := by
  unfold ackPriorUnacked at hok
  dsimp only at hok
  split at hok
  · cases hok
    exact .refl
  · obtain ⟨prior, -, hrest⟩ := bind_eq_ok.mp hok
    exact ackEach_steps hrest

/-! ### The ways to return -/

/-- What `onAck` does once it has accepted the number. -/
inductive Processed (s : SentPackets) : SentPackets → Prop
  /-- Every packet is acknowledged now. -/
  | all {s' : SentPackets} : AckSteps s s' → s'.front = s'.packets.length → Processed s s'
  /-- The lost packets are looked for, from a packet on before which all are
  acknowledged. -/
  | detect {s₁ s₂ : SentPackets} {firstUnacked : Uint16} {losts : List Uint16} :
      AckSteps s s₁ → s₁.firstUnackedSeqNum = some firstUnacked → AckSteps s₁ s₂ →
      s₂.detectLostPackets firstUnacked = .ok losts → Processed s (losts.foldl markLost s₂)

theorem onAckNum_steps {s s' : SentPackets} (h : s.WF) {ackNum : Uint16}
    (hx : s.seqNumIndex ackNum < s.packets.length) {selectiveAck : Option SelectiveAck}
    {err : Option SentError} (hok : s.onAckNum ackNum selectiveAck delay now = .ok (s', err)) :
    Processed s s' := by
  obtain ⟨s₁, hflags, -, ⟨hall, rfl, -⟩ | ⟨s₂, firstUnacked, losts, hu, hprior, hlosts, rfl, -⟩⟩ :=
    onAckNum_cases h hx hok
  · exact .all (ackWithFlags_steps hflags) hall
  · exact .detect (ackWithFlags_steps hflags) hu (ackPriorUnacked_steps hprior) hlosts

/-- **The ways `onAck` returns**: it leaves everything as it was, or it has
processed the number. -/
theorem onAck_steps {s s' : SentPackets} (h : s.WF) {ackNum : Uint16}
    {selectiveAck : Option SelectiveAck}
    {r : Except SentError (CircularRangeInclusive × List Uint16)}
    (hok : s.onAck ackNum selectiveAck delay now = .ok (s', r)) : s' = s ∨ Processed s s' := by
  rcases onAck_cases h hok with ⟨-, hs', -⟩ | ⟨-, hs', -⟩ | ⟨hacc, err, hnum, -⟩
  · exact .inl hs'
  · exact .inl hs'
  · exact .inr (onAckNum_steps h hacc.index_lt hnum)

end SentPackets

end UtpGo
