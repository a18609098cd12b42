/-
UtpGo/SentPacketsAck.lean

What acknowledgements do to the sent packets.  They change no record except
to mark it (`Acks`).  The loop over the flags of a selective acknowledgement
stops at the first number that was not sent; the range test lets the initial
number through, which has no record, and there the code indexes past the end
of the list (`Overruns`).

Main result: `onAck_spec`, which says when processing an acknowledgement
panics, which packets it marks and when it reports an invalid number.
-/
import UtpGo.SentPacketsSpec

namespace UtpGo

open Circular Checked

namespace SentPackets

/-! ### Marking packets -/

/-- What processing an acknowledgement does: it marks packets with an index
in `A`. -/
structure Acks (A : ℕ → Prop) (s s' : SentPackets) : Prop where
  wf : s'.WF
  init : s'.initSeqNum = s.initSeqNum
  chunks : s'.chunks = s.chunks
  acked : ∀ i, s'.Acked i → s.Acked i ∨ A i
  mono : ∀ i, s.Acked i → s'.Acked i
  counts : s.congestionCtrl.SameCounts s'.congestionCtrl

namespace Acks

variable {A B : ℕ → Prop} {s s₁ s₂ s' : SentPackets}

protected theorem refl (h : s.WF) : Acks A s s :=
  ⟨h, rfl, rfl, fun _ => .inl, fun _ => id, .refl _⟩

protected theorem trans (h₁ : Acks A s s₁) (h₂ : Acks A s₁ s₂) : Acks A s s₂ where
  wf := h₂.wf
  init := h₂.init.trans h₁.init
  chunks := h₂.chunks.trans h₁.chunks
  acked := by
    intro i hi
    rcases h₂.acked i hi with hi | hi
    · exact h₁.acked i hi
    · exact .inr hi
  mono := fun i hi => h₂.mono i (h₁.mono i hi)
  counts := h₁.counts.trans h₂.counts

theorem weaken (h : Acks A s s') (hAB : ∀ i, A i → B i) : Acks B s s' :=
  { h with acked := fun i hi => (h.acked i hi).imp_right (hAB i) }

theorem length (h : Acks A s s') : s'.packets.length = s.packets.length := by
  rw [← length_chunks, h.chunks, length_chunks]

theorem index (h : Acks A s s') (x : Uint16) : s'.seqNumIndex x = s.seqNumIndex x :=
  seqNumIndex_congr h.init x

theorem range (h : Acks A s s') : s'.seqNumRange = s.seqNumRange :=
  seqNumRange_congr h.init h.length

end Acks

/-- The controller may change, as long as it keeps its records. -/
theorem WF.withCtrl {s : SentPackets} (h : s.WF) {ctrl : DefaultController}
    (hc : s.congestionCtrl.SameCounts ctrl) :
    SentPackets.WF { s with congestionCtrl := ctrl } where
  length_le := h.length_le
  number := h.number
  recorded := by
    intro x
    show ctrl.transmissions.contains x = true ↔ s.seqNumIndex x < s.packets.length
    rw [hc.contains x, h.recorded x]
  lost := h.lost

theorem acks_withCtrl {A : ℕ → Prop} {s : SentPackets} (h : s.WF) {ctrl : DefaultController}
    (hc : s.congestionCtrl.SameCounts ctrl) : Acks A s { s with congestionCtrl := ctrl } :=
  ⟨h.withCtrl hc, rfl, rfl, fun _ => .inl, fun _ => id, hc⟩

theorem acks_set {s : SentPackets} (h : s.WF) {i : Nat} {p : SentPacket}
    (hp : s.packets[i]? = some p) (times : List Time) {ctrl : DefaultController}
    (hc : s.congestionCtrl.SameCounts ctrl) (htimes : p.acks ≠ [] → times ≠ []) :
    Acks (· = i) s { s with
      packets := s.packets.set i { p with acks := times }
      lostPackets := s.lostPackets.erase p.seqNum
      congestionCtrl := ctrl } := by
  have hi : i < s.packets.length := (List.getElem?_eq_some_iff.mp hp).1
  have hget : ∀ j, (s.packets.set i { p with acks := times })[j]? =
      if i = j then some { p with acks := times } else s.packets[j]? := by
    intro j
    rw [List.getElem?_set]
    simp only [hi, if_true]
  refine ⟨⟨?_, ?_, ?_, ?_⟩, rfl, ?_, ?_, ?_, hc⟩
  · simpa using h.length_le
  · intro j q hq
    change (s.packets.set i _)[j]? = some q at hq
    rw [hget j] at hq
    split at hq
    · rename_i hij
      cases hq
      exact h.number j p (hij ▸ hp)
    · exact h.number j q hq
  · intro x
    show ctrl.transmissions.contains x = true ↔ s.seqNumIndex x < (s.packets.set i _).length
    rw [hc.contains x, h.recorded x, List.length_set]
  · intro x hx
    show s.seqNumIndex x < (s.packets.set i _).length
    rw [List.length_set]
    apply h.lost
    obtain ⟨v, hv⟩ := OrdMap.contains_iff.mp hx
    exact OrdMap.contains_iff.mpr ⟨v, (OrdMap.mem_erase.mp hv).1⟩
  · show (s.packets.set i _).map _ = s.packets.map _
    apply List.ext_getElem?
    intro j
    rw [List.getElem?_map, List.getElem?_map, hget j]
    split
    · rename_i hij
      rw [← hij, hp]
      rfl
    · rfl
  · rintro j ⟨q, hq, hacks⟩
    change (s.packets.set i _)[j]? = some q at hq
    rw [hget j] at hq
    split at hq
    · rename_i hij
      exact .inr hij.symm
    · exact .inl ⟨q, hq, hacks⟩
  · rintro j ⟨q, hq, hacks⟩
    by_cases hij : i = j
    · subst hij
      rw [hp] at hq
      cases hq
      exact ⟨_, (hget i).trans (if_pos rfl), htimes hacks⟩
    · exact ⟨q, (hget j).trans ((if_neg hij).trans hq), hacks⟩

/-! ### Acknowledging one packet -/

section Ack

variable [Float64] {s : SentPackets} {x : Uint16} (delay : Duration) (now : Time)

theorem ack_spec (h : s.WF) (hx : s.seqNumIndex x < s.packets.length) :
    ∃ s', s.ack x delay now = .ok (s', none) ∧ Acks (· = s.seqNumIndex x) s s' := by
  obtain ⟨p, hp⟩ : ∃ p, s.packets[s.seqNumIndex x]? = some p :=
    ⟨_, List.getElem?_eq_getElem hx⟩
  have hrec : s.congestionCtrl.transmissions.contains p.seqNum = true := by
    rw [h.recorded, h.index_number hp]
    exact hx
  obtain ⟨ctrl, hctrl, hcounts⟩ := s.congestionCtrl.onAck_spec
    { delay, rtt := p.rtt now, receivedAt := now } hrec
  unfold ack
  dsimp only
  rw [index_eq_ok.mpr hp, ok_bind, hctrl]
  dsimp only
  split
  · refine ⟨_, rfl, acks_set h hp _ hcounts ?_⟩
    simp
  · exact ⟨_, rfl, acks_withCtrl h hcounts⟩

theorem ack_panics (hx : s.packets.length ≤ s.seqNumIndex x) :
    s.ack x delay now = .error .indexOutOfRange := by
  unfold ack
  dsimp only
  rw [index_eq_error.mpr ⟨hx, rfl⟩]
  rfl

end Ack

/-! ### Selective acknowledgements -/

/-- Flag `i` is set and reached: its number and all numbers before it lie in
the range. -/
def Flagged (r : CircularRangeInclusive) (acked : List Bool) (first : Uint16) (i : Nat) : Prop :=
  acked[i]? = some true ∧ ∀ j ≤ i, r.contains (first + BitVec.ofNat 16 j) = true

theorem add_ofNat_succ (first : Uint16) (k : Nat) :
    first + BitVec.ofNat 16 (k + 1) = first + 1 + BitVec.ofNat 16 k := by
  bv_omega

theorem flagged_zero {r : CircularRangeInclusive} {flag : Bool} {acked : List Bool}
    {first : Uint16} :
    Flagged r (flag :: acked) first 0 ↔ flag = true ∧ r.contains first = true := by
  simp [Flagged]

theorem flagged_succ {r : CircularRangeInclusive} {flag : Bool} {acked : List Bool}
    {first : Uint16} {k : Nat} :
    Flagged r (flag :: acked) first (k + 1) ↔
      r.contains first = true ∧ Flagged r acked (first + 1) k := by
  unfold Flagged
  rw [List.getElem?_cons_succ]
  constructor
  · rintro ⟨hk, hall⟩
    refine ⟨by simpa using hall 0 (by omega), hk, ?_⟩
    intro j hj
    rw [← add_ofNat_succ]
    exact hall (j + 1) (by omega)
  · rintro ⟨hfirst, hk, hall⟩
    refine ⟨hk, ?_⟩
    intro j hj
    cases j with
    | zero => simpa using hfirst
    | succ j =>
        rw [add_ofNat_succ]
        exact hall j (by omega)

section Loops

variable [Float64] (delay : Duration) (now : Time)

/-- The loop over the flags panics at the first flag set for a number with no
record, and otherwise marks the packets whose flags it reaches. -/
theorem selectiveAckLoop_spec {s : SentPackets} (h : s.WF) (r : CircularRangeInclusive)
    (acked : List Bool) (first : Uint16) :
    ((∃ i, Flagged r acked first i ∧
        s.packets.length ≤ s.seqNumIndex (first + BitVec.ofNat 16 i)) ∧
      selectiveAckLoop r delay now acked first s = .error .indexOutOfRange) ∨
    ((∀ i, Flagged r acked first i →
        s.seqNumIndex (first + BitVec.ofNat 16 i) < s.packets.length) ∧
      ∃ s', selectiveAckLoop r delay now acked first s = .ok (s', none) ∧
        Acks (fun j => ∃ i, Flagged r acked first i ∧
          j = s.seqNumIndex (first + BitVec.ofNat 16 i)) s s') := by
  induction acked generalizing first s with
  | nil => exact .inr ⟨by simp [Flagged], s, rfl, .refl h⟩
  | cons flag acked ih =>
      by_cases hc : r.contains first = true
      swap
      · refine .inr ⟨?_, s, ?_, .refl h⟩
        · intro i hi
          exact absurd (by simpa using hi.2 0 (Nat.zero_le i)) hc
        · simp only [selectiveAckLoop, hc, Bool.false_eq_true, if_false]
          rfl
      cases flag with
      | true =>
          by_cases hx : s.seqNumIndex first < s.packets.length
          swap
          · refine .inl ⟨⟨0, flagged_zero.mpr ⟨rfl, hc⟩, by simpa using not_lt.mp hx⟩, ?_⟩
            simp only [selectiveAckLoop, hc, if_true, ack_panics delay now (not_lt.mp hx)]
            rfl
          obtain ⟨s₁, hack, h₁⟩ := ack_spec delay now h hx
          have hloop : selectiveAckLoop r delay now (true :: acked) first s
              = selectiveAckLoop r delay now acked (first + 1) s₁ := by
            simp only [selectiveAckLoop, hc, if_true, hack, ok_bind]
          rw [hloop]
          rcases ih h₁.wf (first + 1) with ⟨⟨i, hi, hle⟩, herr⟩ | ⟨hin, s', hok, h'⟩
          · refine .inl ⟨⟨i + 1, flagged_succ.mpr ⟨hc, hi⟩, ?_⟩, herr⟩
            rwa [add_ofNat_succ, ← h₁.index, ← h₁.length]
          · refine .inr ⟨?_, s', hok, ?_⟩
            · intro i hi
              cases i with
              | zero => simpa using hx
              | succ i =>
                  rw [add_ofNat_succ, ← h₁.index, ← h₁.length]
                  exact hin i (flagged_succ.mp hi).2
            · refine (h₁.weaken ?_).trans (h'.weaken ?_)
              · rintro j rfl
                exact ⟨0, flagged_zero.mpr ⟨rfl, hc⟩, by simp⟩
              · rintro j ⟨i, hi, rfl⟩
                refine ⟨i + 1, flagged_succ.mpr ⟨hc, hi⟩, ?_⟩
                rw [add_ofNat_succ, h₁.index]
      | false =>
          have hloop : selectiveAckLoop r delay now (false :: acked) first s
              = selectiveAckLoop r delay now acked (first + 1) s := by
            simp only [selectiveAckLoop, hc, if_true, Bool.false_eq_true, if_false]
          rw [hloop]
          rcases ih h (first + 1) with ⟨⟨i, hi, hle⟩, herr⟩ | ⟨hin, s', hok, h'⟩
          · refine .inl ⟨⟨i + 1, flagged_succ.mpr ⟨hc, hi⟩, ?_⟩, herr⟩
            rwa [add_ofNat_succ]
          · refine .inr ⟨?_, s', hok, ?_⟩
            · intro i hi
              cases i with
              | zero => cases (flagged_zero.mp hi).1
              | succ i =>
                  rw [add_ofNat_succ]
                  exact hin i (flagged_succ.mp hi).2
            · refine h'.weaken ?_
              rintro j ⟨i, hi, rfl⟩
              refine ⟨i + 1, flagged_succ.mpr ⟨hc, hi⟩, ?_⟩
              rw [add_ofNat_succ]

theorem ackEach_spec {s : SentPackets} (h : s.WF) {l : List Uint16}
    (hl : ∀ x ∈ l, s.seqNumIndex x < s.packets.length) :
    ∃ s', ackEach delay now l s = .ok (s', none) ∧
      Acks (fun j => ∃ x ∈ l, j = s.seqNumIndex x) s s' := by
  induction l generalizing s with
  | nil => exact ⟨s, rfl, .refl h⟩
  | cons x l ih =>
      obtain ⟨s₁, hack, h₁⟩ := ack_spec delay now h (hl x (by simp))
      obtain ⟨s', hok, h'⟩ := ih h₁.wf (by
        intro y hy
        rw [h₁.index, h₁.length]
        exact hl y (by simp [hy]))
      refine ⟨s', ?_, (h₁.weaken ?_).trans (h'.weaken ?_)⟩
      · simp only [ackEach, hack, ok_bind]
        exact hok
      · rintro j rfl
        exact ⟨x, by simp, rfl⟩
      · rintro j ⟨y, hy, rfl⟩
        exact ⟨y, by simp [hy], h₁.index y⟩

theorem ackPriorUnacked_spec {s : SentPackets} (h : s.WF) {x : Uint16}
    (hx : s.seqNumIndex x < s.packets.length) (firstUnacked : Uint16) :
    ∃ s', s.ackPriorUnacked x firstUnacked delay now = .ok (s', none) ∧
      Acks (· < s.seqNumIndex x) s s' := by
  unfold ackPriorUnacked
  dsimp only
  split
  · exact ⟨s, rfl, .refl h⟩
  · rename_i hlt
    rw [slice_of_le (by omega) (by omega), ok_bind]
    -- every number in the slice is that of a record before `x`
    have hprior : ∀ y ∈ (((s.packets.take (s.seqNumIndex x)).drop
        (s.seqNumIndex firstUnacked)).map (·.seqNum)), s.seqNumIndex y < s.seqNumIndex x := by
      intro y hy
      obtain ⟨p, hp, rfl⟩ := List.mem_map.mp hy
      obtain ⟨i, hi⟩ := List.getElem?_of_mem (List.mem_of_mem_drop hp)
      rw [List.getElem?_take] at hi
      split at hi
      · rw [h.index_number hi]
        assumption
      · cases hi
    obtain ⟨s', hok, h'⟩ := ackEach_spec delay now h fun y hy => (hprior y hy).trans hx
    refine ⟨s', hok, h'.weaken ?_⟩
    rintro j ⟨y, hy, rfl⟩
    exact hprior y hy

end Loops

/-! ### Lost packets -/

theorem mem_detectLoop {x : Uint16} {l : List SentPacket} {acked : Nat}
    (h : x ∈ detectLoop l acked) : ∃ p ∈ l, p.seqNum = x := by
  induction l generalizing acked with
  | nil => cases h
  | cons p l ih =>
      rw [detectLoop, List.mem_append] at h
      rcases h with h | h
      · split at h
        · exact ⟨p, by simp, (List.mem_singleton.mp h).symm⟩
        · cases h
      · obtain ⟨q, hq, rfl⟩ := ih h
        exact ⟨q, by simp [hq], rfl⟩

theorem detectLostPackets_spec {s : SentPackets} (h : s.WF) {firstUnacked : Uint16}
    (hx : s.seqNumIndex firstUnacked ≤ s.packets.length) :
    ∃ losts, s.detectLostPackets firstUnacked = .ok losts ∧
      ∀ x ∈ losts, s.seqNumIndex x < s.packets.length := by
  unfold detectLostPackets
  rw [slice_of_le hx (le_refl _), ok_bind]
  refine ⟨_, rfl, ?_⟩
  intro x hmem
  obtain ⟨p, hp, rfl⟩ := mem_detectLoop hmem
  rw [List.mem_reverse, List.take_length] at hp
  obtain ⟨i, hi⟩ := List.getElem?_of_mem (List.mem_of_mem_drop hp)
  rw [h.index_number hi]
  exact (List.getElem?_eq_some_iff.mp hi).1

theorem onLost_eq (s : SentPackets) (x : Uint16) (retransmitting : Bool) :
    ∃ ctrl, (s.onLost x retransmitting).1 = { s with congestionCtrl := ctrl } ∧
      s.congestionCtrl.SameCounts ctrl := by
  have hsame := s.congestionCtrl.onLostPacket_sameCounts x retransmitting
  unfold onLost
  split
  · exact ⟨s.congestionCtrl, rfl, .refl _⟩
  · rcases hl : s.congestionCtrl.onLostPacket x retransmitting with ⟨ctrl, - | err⟩
    · rw [hl] at hsame
      exact ⟨ctrl, rfl, hsame⟩
    · rw [hl] at hsame
      exact ⟨ctrl, rfl, hsame⟩

theorem markLost_acks {A : ℕ → Prop} {s : SentPackets} (h : s.WF) {x : Uint16}
    (hx : s.seqNumIndex x < s.packets.length) : Acks A s (s.markLost x) := by
  have hwf : SentPackets.WF { s with lostPackets := s.lostPackets.insert x () } := by
    refine ⟨h.length_le, h.number, h.recorded, ?_⟩
    intro y hy
    rcases OrdMap.contains_insert.mp hy with rfl | hy
    · exact hx
    · exact h.lost y hy
  obtain ⟨ctrl, heq, hc⟩ := onLost_eq { s with lostPackets := s.lostPackets.insert x () } x true
  rw [markLost, heq]
  exact ⟨hwf.withCtrl hc, rfl, rfl, fun _ => .inl, fun _ => id, hc⟩

theorem foldl_markLost_acks {A : ℕ → Prop} {s : SentPackets} (h : s.WF) {l : List Uint16}
    (hl : ∀ x ∈ l, s.seqNumIndex x < s.packets.length) : Acks A s (l.foldl markLost s) := by
  induction l generalizing s with
  | nil => exact .refl h
  | cons x l ih =>
      have h₁ : Acks A s (s.markLost x) := markLost_acks h (hl x (by simp))
      refine h₁.trans (ih h₁.wf ?_)
      intro y hy
      rw [h₁.index, h₁.length]
      exact hl y (by simp [hy])

/-- The lost packets are found: every lost number has a record. -/
theorem lostPacketsList_spec {s : SentPackets} (h : s.WF) :
    ∃ losts, s.lostPacketsList = .ok losts ∧ losts.length = s.lostPackets.size ∧
      ∀ lost ∈ losts, ∃ p, s.packets[s.seqNumIndex lost.seqNum]? = some p ∧
        p.packetType = lost.packetType ∧ p.data = lost.data := by
  have hkeys : ∀ x ∈ s.lostPackets.keys, s.seqNumIndex x < s.packets.length := by
    intro x hx
    exact h.lost x (OrdMap.contains_iff.mpr (OrdMap.mem_keys.mp hx))
  have hsize : s.lostPackets.size = s.lostPackets.keys.length := by
    simp [OrdMap.size, OrdMap.keys]
  unfold lostPacketsList
  rw [hsize]
  generalize s.lostPackets.keys = keys at hkeys
  induction keys with
  | nil => exact ⟨[], rfl, rfl, by simp⟩
  | cons x keys ih =>
      obtain ⟨losts, hlosts, hlen, hall⟩ := ih fun y hy => hkeys y (by simp [hy])
      obtain ⟨p, hp⟩ : ∃ p, s.packets[s.seqNumIndex x]? = some p :=
        ⟨_, List.getElem?_eq_getElem (hkeys x (by simp))⟩
      refine ⟨⟨p.seqNum, p.packetType, p.data⟩ :: losts, ?_, by simp [hlen], ?_⟩
      · rw [List.mapM_cons, index_eq_ok.mpr hp, ok_bind, hlosts]
        rfl
      · intro lost hlost
        rcases List.mem_cons.mp hlost with rfl | hlost
        · refine ⟨p, ?_, rfl, rfl⟩
          show s.packets[s.seqNumIndex p.seqNum]? = some p
          rw [h.index_number hp]
          exact hp
        · exact hall lost hlost

/-! ### Processing an acknowledgement -/

/-- The indices of the flags that are reached. -/
def Selected (s : SentPackets) (ackNum : Uint16) (selectiveAck : Option SelectiveAck) (j : Nat) :
    Prop :=
  ∃ sack i, selectiveAck = some sack ∧ Flagged s.seqNumRange sack.acked (ackNum + 2) i ∧
    j = s.seqNumIndex (ackNum + 2 + BitVec.ofNat 16 i)

/-- The number can be acknowledged: it lies in the range of the numbers
sent, and it is not the initial one. -/
def Acceptable (s : SentPackets) (ackNum : Uint16) : Prop :=
  ackNum ≠ s.initSeqNum ∧ ahead s.initSeqNum ackNum ≤ s.packets.length

/-- A flag is set, and reached, for a number with no record. -/
def Overruns (s : SentPackets) (ackNum : Uint16) (selectiveAck : Option SelectiveAck) : Prop :=
  s.Acceptable ackNum ∧ ∃ j, s.Selected ackNum selectiveAck j ∧ s.packets.length ≤ j

/-- The packets an acknowledgement covers. -/
def Covered (s : SentPackets) (ackNum : Uint16) (selectiveAck : Option SelectiveAck) (j : Nat) :
    Prop :=
  s.Acceptable ackNum ∧ (j ≤ s.seqNumIndex ackNum ∨ s.Selected ackNum selectiveAck j)

theorem Acceptable.index_lt {s : SentPackets} {ackNum : Uint16} (h : s.Acceptable ackNum) :
    s.seqNumIndex ackNum < s.packets.length := by
  have := s.ahead_eq_index h.1
  have := h.2
  omega

theorem ackRange_eq {s : SentPackets} (h : s.WF) (ackNum : Uint16) :
    (ahead s.initSeqNum ackNum ≤ s.packets.length ∧
      ∃ r, s.ackRange ackNum = some r ∧ r.start = s.initSeqNum) ∨
    (s.packets.length < ahead s.initSeqNum ackNum ∧ s.ackRange ackNum = none) := by
  have hlt := ahead_lt s.initSeqNum ackNum
  unfold ackRange
  dsimp only
  rcases h.length_le.lt_or_eq with hlen | hlen
  · by_cases hc : ahead s.initSeqNum ackNum ≤ s.packets.length
    · rw [if_pos ((seqNumRange_contains s hlen ackNum).mpr hc)]
      exact .inl ⟨hc, _, rfl, rfl⟩
    · rw [if_neg (fun hr => hc ((seqNumRange_contains s hlen ackNum).mp hr)), if_neg]
      · exact .inr ⟨not_le.mp hc, rfl⟩
      · rintro ⟨hne, heq⟩
        have hstop : s.nextSeqNum - 1 = s.initSeqNum := heq
        rw [nextSeqNum_eq] at hstop
        bv_omega
  · refine .inl ⟨by omega, ?_⟩
    rw [seqNumRange_full s hlen]
    split
    · exact ⟨_, rfl, rfl⟩
    · rw [if_pos ⟨by omega, rfl⟩, if_pos]
      · exact ⟨_, rfl, rfl⟩
      · rw [CircularRangeInclusive.contains_iff]
        show _ ≤ ahead s.initSeqNum (s.initSeqNum - 1)
        unfold ahead
        bv_omega

section Processing

variable [Float64] (delay : Duration) (now : Time)

theorem onSelectiveAck_spec {s : SentPackets} (h : s.WF) {ackNum : Uint16}
    (hx : s.seqNumIndex ackNum < s.packets.length) (sack : SelectiveAck) :
    ((∃ j, s.Selected ackNum (some sack) j ∧ s.packets.length ≤ j) ∧
      s.onSelectiveAck ackNum sack delay now = .error .indexOutOfRange) ∨
    ((∀ j, s.Selected ackNum (some sack) j → j < s.packets.length) ∧
      ∃ s', s.onSelectiveAck ackNum sack delay now = .ok (s', none) ∧
        Acks (fun j => j = s.seqNumIndex ackNum ∨ s.Selected ackNum (some sack) j) s s') := by
  obtain ⟨s₁, hack, h₁⟩ := ack_spec delay now h hx
  have hloop : s.onSelectiveAck ackNum sack delay now
      = selectiveAckLoop s.seqNumRange delay now sack.acked (ackNum + 2) s₁ := by
    unfold onSelectiveAck
    rw [hack, ok_bind]
    dsimp only
    rw [h₁.range]
  rw [hloop]
  rcases selectiveAckLoop_spec delay now h₁.wf s.seqNumRange sack.acked (ackNum + 2) with
    ⟨⟨i, hi, hle⟩, herr⟩ | ⟨hin, s', hok, h'⟩
  · refine .inl ⟨⟨_, ⟨sack, i, rfl, hi, rfl⟩, ?_⟩, herr⟩
    rwa [← h₁.index, ← h₁.length]
  · refine .inr ⟨?_, s', hok, (h₁.weaken ?_).trans (h'.weaken ?_)⟩
    · rintro j ⟨sack', i, hsack, hi, rfl⟩
      cases hsack
      rw [← h₁.index, ← h₁.length]
      exact hin i hi
    · exact fun j => .inl
    · rintro j ⟨i, hi, rfl⟩
      exact .inr ⟨sack, i, rfl, hi, h₁.index _⟩

/-- Once the number itself is marked, the packets before it follow and the
lost ones are found; none of this panics. -/
theorem afterAck_spec {s : SentPackets} (h : s.WF) {ackNum : Uint16}
    (hx : s.seqNumIndex ackNum < s.packets.length) {firstUnacked : Uint16}
    (hfirst : s.firstUnackedSeqNum = some firstUnacked) :
    ∃ s₂ losts, s.ackPriorUnacked ackNum firstUnacked delay now = .ok (s₂, none) ∧
      s₂.detectLostPackets firstUnacked = .ok losts ∧
      Acks (· ≤ s.seqNumIndex ackNum) s (losts.foldl markLost s₂) := by
  obtain ⟨s₂, hprior, h₂⟩ := ackPriorUnacked_spec delay now h hx firstUnacked
  have hidx : s₂.seqNumIndex firstUnacked ≤ s₂.packets.length := by
    rw [h₂.index, h₂.length, (index_firstUnacked h hfirst).1]
    exact front_le s
  obtain ⟨losts, hlosts, hin⟩ := detectLostPackets_spec h₂.wf hidx
  refine ⟨s₂, losts, hprior, hlosts, (h₂.weaken ?_).trans (foldl_markLost_acks h₂.wf hin)⟩
  intro j hj
  exact hj.le

theorem ackWithFlags_spec {s : SentPackets} (h : s.WF) {ackNum : Uint16}
    (hx : s.seqNumIndex ackNum < s.packets.length) (selectiveAck : Option SelectiveAck) :
    ((∃ j, s.Selected ackNum selectiveAck j ∧ s.packets.length ≤ j) ∧
      s.ackWithFlags ackNum selectiveAck delay now = .error .indexOutOfRange) ∨
    ((∀ j, s.Selected ackNum selectiveAck j → j < s.packets.length) ∧
      ∃ s', s.ackWithFlags ackNum selectiveAck delay now = .ok (s', none) ∧
        Acks (fun j => j = s.seqNumIndex ackNum ∨ s.Selected ackNum selectiveAck j) s s') := by
  cases selectiveAck with
  | some sack => exact onSelectiveAck_spec delay now h hx sack
  | none =>
      obtain ⟨s', hack, h'⟩ := ack_spec delay now h hx
      refine .inr ⟨?_, s', hack, h'.weaken ?_⟩
      · rintro j ⟨sack, i, hsack, -⟩
        cases hsack
      · exact fun j => .inl

theorem onAckNum_spec {s : SentPackets} (h : s.WF) {ackNum : Uint16}
    (hx : s.seqNumIndex ackNum < s.packets.length) (selectiveAck : Option SelectiveAck) :
    ((∃ j, s.Selected ackNum selectiveAck j ∧ s.packets.length ≤ j) ∧
      s.onAckNum ackNum selectiveAck delay now = .error .indexOutOfRange) ∨
    ((∀ j, s.Selected ackNum selectiveAck j → j < s.packets.length) ∧
      ∃ s' err, s.onAckNum ackNum selectiveAck delay now = .ok (s', err) ∧
        err ≠ some .errInvalidAckNum ∧
        Acks (fun j => j ≤ s.seqNumIndex ackNum ∨ s.Selected ackNum selectiveAck j) s s') := by
  unfold onAckNum
  rcases ackWithFlags_spec delay now h hx selectiveAck with ⟨hover, herr⟩ | ⟨hin, s₁, hok, h₁⟩
  · rw [herr]
    exact .inl ⟨hover, rfl⟩
  replace h₁ := h₁.weaken fun j hj => hj.imp_left le_of_eq
  refine .inr ⟨hin, ?_⟩
  rw [hok, ok_bind]
  dsimp only
  rcases hu : s₁.firstUnackedSeqNum with - | firstUnacked
  · exact ⟨s₁, some .errNoneAckNum, rfl, by simp, h₁⟩
  · obtain ⟨s₂, losts, hprior, hlosts, h₂⟩ := afterAck_spec delay now h₁.wf
      (by rwa [h₁.index, h₁.length]) hu
    refine ⟨losts.foldl markLost s₂, none, ?_, by simp, h₁.trans (h₂.weaken ?_)⟩
    · simp only [hprior, ok_bind, hlosts]
      rfl
    · intro j hj
      rw [h₁.index] at hj
      exact .inl hj

/-- How `OnAckNum` returns: with nothing left to acknowledge once the number
and the flags are marked, or after it has looked for losses. -/
theorem onAckNum_cases {s s' : SentPackets} (h : s.WF) {ackNum : Uint16}
    (hx : s.seqNumIndex ackNum < s.packets.length) {selectiveAck : Option SelectiveAck}
    {delay : Duration} {now : Time} {err : Option SentError}
    (hok : s.onAckNum ackNum selectiveAck delay now = .ok (s', err)) :
    ∃ s₁, s.ackWithFlags ackNum selectiveAck delay now = .ok (s₁, none) ∧ s₁.WF ∧
      ((s₁.front = s₁.packets.length ∧ s' = s₁ ∧ err = some .errNoneAckNum) ∨
        ∃ s₂ firstUnacked losts, s₁.firstUnackedSeqNum = some firstUnacked ∧
          s₁.ackPriorUnacked ackNum firstUnacked delay now = .ok (s₂, none) ∧
          s₂.detectLostPackets firstUnacked = .ok losts ∧ s' = losts.foldl markLost s₂ ∧
          err = none) := by
  obtain ⟨⟨s₁, err₁⟩, hflags, hrest⟩ := bind_eq_ok.mp hok
  rcases ackWithFlags_spec delay now h hx selectiveAck with ⟨-, herr⟩ | ⟨-, s₁', hok₁, h₁⟩
  · cases hflags.symm.trans herr
  cases hflags.symm.trans hok₁
  refine ⟨s₁, hflags, h₁.wf, ?_⟩
  dsimp only at hrest
  cases hu : s₁.firstUnackedSeqNum with
  | none =>
      rw [hu] at hrest
      cases hrest
      refine .inl ⟨le_antisymm (front_le _) ?_, rfl, rfl⟩
      rw [firstUnackedSeqNum_eq h₁.wf] at hu
      split at hu
      · cases hu
      · exact not_lt.mp ‹_›
  | some firstUnacked =>
      rw [hu] at hrest
      obtain ⟨s₂, losts, hprior, hlosts, -⟩ := afterAck_spec delay now h₁.wf
        (by rwa [h₁.index, h₁.length]) hu
      dsimp only at hrest
      rw [hprior] at hrest
      simp only [ok_bind, hlosts] at hrest
      cases hrest
      exact .inr ⟨s₂, firstUnacked, losts, rfl, hprior, hlosts, rfl, rfl⟩

/-- What `onAck` reports: the numbers up to `ackNum`, and those of the flags. -/
def reported (s : SentPackets) (ackNum : Uint16) (selectiveAck : Option SelectiveAck) :
    CircularRangeInclusive × List Uint16 :=
  (newCircularRangeInclusive s.initSeqNum ackNum, (selectiveAck.map (selectedAcks ackNum)).getD [])

/-- How `onAck` returns: the number was not sent, or it is the initial one, or
it is processed. -/
theorem onAck_cases {s s' : SentPackets} (h : s.WF) {ackNum : Uint16}
    {selectiveAck : Option SelectiveAck} {delay : Duration} {now : Time}
    {r : Except SentError (CircularRangeInclusive × List Uint16)}
    (hok : s.onAck ackNum selectiveAck delay now = .ok (s', r)) :
    (s.packets.length < ahead s.initSeqNum ackNum ∧ s' = s ∧ r = .error .errInvalidAckNum) ∨
    (ackNum = s.initSeqNum ∧ s' = s ∧ r = .ok (s.reported ackNum selectiveAck)) ∨
    (s.Acceptable ackNum ∧ ∃ err, s.onAckNum ackNum selectiveAck delay now = .ok (s', err) ∧
      r = err.elim (.ok (s.reported ackNum selectiveAck)) .error) := by
  rcases ackRange_eq h ackNum with ⟨hin, range, hr, hstart⟩ | ⟨hout, hr⟩
  swap
  · rw [onAck, hr] at hok
    cases hok
    exact .inl ⟨hout, rfl, rfl⟩
  rw [onAck, hr] at hok
  dsimp only at hok
  rw [hstart] at hok
  obtain ⟨⟨s₁, err⟩, hnum, hrest⟩ := bind_eq_ok.mp hok
  split at hnum
  · rename_i hne
    refine .inr (.inr ⟨⟨hne, hin⟩, err, ?_⟩)
    cases err with
    | none =>
        cases hrest
        exact ⟨hnum, rfl⟩
    | some err =>
        cases hrest
        exact ⟨hnum, rfl⟩
  · rename_i heq
    cases hnum
    cases hrest
    exact .inr (.inl ⟨not_not.mp heq, rfl, rfl⟩)

theorem onAck_acceptable {s s' : SentPackets} (h : s.WF) {ackNum : Uint16}
    {selectiveAck : Option SelectiveAck} {delay : Duration} {now : Time}
    {r : Except SentError (CircularRangeInclusive × List Uint16)} (hacc : s.Acceptable ackNum)
    (hok : s.onAck ackNum selectiveAck delay now = .ok (s', r)) :
    ∃ err, s.onAckNum ackNum selectiveAck delay now = .ok (s', err) ∧
      r = err.elim (.ok (s.reported ackNum selectiveAck)) .error := by
  rcases onAck_cases h hok with ⟨hout, -⟩ | ⟨heq, -⟩ | ⟨-, herr⟩
  · exact absurd hacc.2 (not_le.mpr hout)
  · exact absurd heq hacc.1
  · exact herr

/-- **Processing an acknowledgement.**  It panics exactly if a flag overruns
the records; otherwise it returns, marks only packets that are covered, and
reports an invalid number exactly if the number was never sent. -/
theorem onAck_spec {s : SentPackets} (h : s.WF) (ackNum : Uint16)
    (selectiveAck : Option SelectiveAck) :
    (s.Overruns ackNum selectiveAck ∧
      s.onAck ackNum selectiveAck delay now = .error .indexOutOfRange) ∨
    (¬ s.Overruns ackNum selectiveAck ∧
      ∃ s' r, s.onAck ackNum selectiveAck delay now = .ok (s', r) ∧
        Acks (s.Covered ackNum selectiveAck) s s' ∧
        (r = .error .errInvalidAckNum ↔ s.packets.length < ahead s.initSeqNum ackNum) ∧
        (r = .error .errInvalidAckNum → s' = s)) := by
  rcases ackRange_eq h ackNum with ⟨hin, r, hr, hstart⟩ | ⟨hout, hr⟩
  swap
  · refine .inr ⟨fun hover => ?_, s, .error .errInvalidAckNum, ?_, .refl h, by simp [hout],
      fun _ => rfl⟩
    · exact absurd hover.1.2 (not_le.mpr hout)
    · rw [onAck, hr]
      rfl
  by_cases hne : ackNum = s.initSeqNum
  · refine .inr ⟨fun hover => hover.1.1 hne, s,
      .ok (newCircularRangeInclusive s.initSeqNum ackNum,
        (selectiveAck.map (selectedAcks ackNum)).getD []), ?_, .refl h, ?_, fun _ => rfl⟩
    · rw [onAck, hr]
      dsimp only
      rw [hstart, if_neg (not_not.mpr hne)]
      rfl
    · simp [not_lt.mpr hin]
  have hacc : s.Acceptable ackNum := ⟨hne, hin⟩
  rcases onAckNum_spec delay now h hacc.index_lt selectiveAck with
    ⟨hover, herr⟩ | ⟨hsel, s', err, hok, herr, h'⟩
  · refine .inl ⟨⟨hacc, hover⟩, ?_⟩
    rw [onAck, hr]
    simp only [hstart, ne_eq, hne, not_false_eq_true, if_true, herr]
    rfl
  · refine .inr ⟨?_, ?_⟩
    · rintro ⟨-, j, hj, hle⟩
      have := hsel j hj
      omega
    · rw [onAck, hr]
      simp only [hstart, ne_eq, hne, not_false_eq_true, if_true, hok, ok_bind]
      have hcov := h'.weaken (B := s.Covered ackNum selectiveAck) fun j hj => ⟨hacc, hj⟩
      cases err with
      | none => exact ⟨s', _, rfl, hcov, by simp [not_lt.mpr hin], fun hr => by cases hr⟩
      | some err =>
          have hne : (.error err : Except SentError (CircularRangeInclusive × List Uint16))
              ≠ .error .errInvalidAckNum := by
            simpa using herr
          refine ⟨s', _, rfl, hcov, ⟨fun hr => absurd hr hne, fun hlt => ?_⟩,
            fun hr => absurd hr hne⟩
          exact absurd hlt (not_lt.mpr hin)

theorem acks_of_ok {s s' : SentPackets} (h : s.WF) {ackNum : Uint16}
    {selectiveAck : Option SelectiveAck} {delay : Duration} {now : Time}
    {r : Except SentError (CircularRangeInclusive × List Uint16)}
    (hok : s.onAck ackNum selectiveAck delay now = .ok (s', r)) :
    Acks (s.Covered ackNum selectiveAck) s s' ∧
      (r = .error .errInvalidAckNum ↔ s.packets.length < ahead s.initSeqNum ackNum) ∧
      (r = .error .errInvalidAckNum → s' = s) := by
  rcases onAck_spec delay now h ackNum selectiveAck with ⟨-, herr⟩ | ⟨-, s₁, r₁, hok₁, hacks⟩
  · rw [herr] at hok
    cases hok
  · rw [hok₁] at hok
    cases hok
    exact hacks

/-- When processing stops with another error than an invalid number, the
number itself and the flags have left no packet unacknowledged. -/
theorem onAck_none_left {s s' : SentPackets} (h : s.WF) {ackNum : Uint16}
    {selectiveAck : Option SelectiveAck} {delay : Duration} {now : Time} {err : SentError}
    (hok : s.onAck ackNum selectiveAck delay now = .ok (s', .error err))
    (herr : err ≠ .errInvalidAckNum) : s.Acceptable ackNum ∧ ∀ j < s.packets.length,
      s.Acked j ∨ j = s.seqNumIndex ackNum ∨ s.Selected ackNum selectiveAck j := by
  rcases onAck_cases h hok with ⟨-, -, hr⟩ | ⟨-, -, hr⟩ | ⟨hacc, err', hnum, hr⟩
  · cases hr
    exact absurd rfl herr
  · cases hr
  refine ⟨hacc, fun j hj => ?_⟩
  obtain ⟨s₁, hflags, -, ⟨hall, -, -⟩ | ⟨-, -, -, -, -, -, -, hnone⟩⟩ :=
    onAckNum_cases h hacc.index_lt hnum
  · rcases ackWithFlags_spec delay now h hacc.index_lt selectiveAck with
      ⟨-, hpanic⟩ | ⟨-, s₁', hok₁, h₁⟩
    · cases hflags.symm.trans hpanic
    cases hflags.symm.trans hok₁
    refine h₁.acked j (acked_of_lt_front ?_)
    rw [hall, h₁.length]
    exact hj
  · rw [hnone] at hr
    cases hr

/-- What is handed to the timers. -/
theorem onAck_result {s s' : SentPackets} (h : s.WF) {ackNum : Uint16}
    {selectiveAck : Option SelectiveAck} {delay : Duration} {now : Time}
    {fullAcked : CircularRangeInclusive} {selected : List Uint16}
    (hok : s.onAck ackNum selectiveAck delay now = .ok (s', .ok (fullAcked, selected))) :
    fullAcked = newCircularRangeInclusive s.initSeqNum ackNum ∧
      selected = (selectiveAck.map (selectedAcks ackNum)).getD [] := by
  rcases onAck_cases h hok with ⟨-, -, hr⟩ | ⟨-, -, hr⟩ | ⟨-, err, -, hr⟩
  · cases hr
  · cases hr
    exact ⟨rfl, rfl⟩
  · cases err with
    | none =>
        cases hr
        exact ⟨rfl, rfl⟩
    | some err => cases hr

theorem WF.onAck {s s' : SentPackets} (h : s.WF) {ackNum : Uint16}
    {selectiveAck : Option SelectiveAck} {delay : Duration} {now : Time}
    {r : Except SentError (CircularRangeInclusive × List Uint16)}
    (hok : s.onAck ackNum selectiveAck delay now = .ok (s', r)) : s'.WF :=
  (acks_of_ok h hok).1.wf

end Processing

end SentPackets

end UtpGo
