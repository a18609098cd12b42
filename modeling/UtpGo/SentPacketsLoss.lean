/-
UtpGo/SentPacketsLoss.lean

The packets taken for lost.  `lostPackets` is kept up to date by several
functions: `Ack` takes a number out of it, `DetectLostPackets` puts numbers
in, and an acknowledgement that leaves nothing unacknowledged returns before
it looks for losses at all.

Main result: `lostPackets_exact`, in every state of a run it is the set of
packets that are not acknowledged and have three acknowledged packets sent
after them (`Lost`).
-/
import UtpGo.SentPacketsRuns
import UtpGo.SentPacketsSteps

namespace UtpGo

open Checked

namespace SentPackets

/-! ### Which packets are lost -/

/-- The number of packets in the list that are acknowledged. -/
def ackedCount (l : List SentPacket) : Nat := l.countP fun p => p.acks.length > 0

theorem add_ackedCount_cons (acked : Nat) (p : SentPacket) (l : List SentPacket) :
    acked + ackedCount (p :: l)
      = (if p.acks.length > 0 then acked + 1 else acked) + ackedCount l := by
  unfold ackedCount
  rw [List.countP_cons]
  by_cases h : p.acks.length > 0
  · simp only [h, decide_true, if_true]
    omega
  · simp only [h, decide_false, Bool.false_eq_true, if_false, Nat.add_zero]

/-- The packet was sent, it is not acknowledged, and at least three packets
sent after it are. -/
def Lost (s : SentPackets) (x : Uint16) : Prop :=
  ∃ before p after, s.packets = before ++ p :: after ∧ p.seqNum = x ∧ p.acks = [] ∧
    lossThreshold ≤ ackedCount after

/-- The invariant: `lostPackets` is the set of the lost packets. -/
def LossExact (s : SentPackets) : Prop := ∀ x, s.lostPackets.contains x = true ↔ s.Lost x

/-! ### Detecting -/

/-- The loop, which runs from the last packet down, finds the packets with
enough acknowledged ones in front of them or seen before. -/
theorem mem_detectLoop_iff {x : Uint16} {l : List SentPacket} {acked : Nat} :
    x ∈ detectLoop l acked ↔ ∃ seen p rest, l = seen ++ p :: rest ∧ p.seqNum = x ∧ p.acks = [] ∧
      lossThreshold ≤ acked + ackedCount seen := by
  induction l generalizing acked with
  | nil => simp [detectLoop]
  | cons q l ih =>
      rw [detectLoop, List.mem_append, ih]
      constructor
      · rintro (hq | ⟨seen, p, rest, rfl, hx, hacks, hle⟩)
        · split at hq
          · rename_i hlost
            refine ⟨[], q, l, rfl, (List.mem_singleton.mp hq).symm,
              List.length_eq_zero_iff.mp hlost.1, hlost.2⟩
          · cases hq
        · refine ⟨q :: seen, p, rest, rfl, hx, hacks, ?_⟩
          rwa [add_ackedCount_cons]
      · rintro ⟨seen, p, rest, hl, hx, hacks, hle⟩
        cases seen with
        | nil =>
            cases hl
            left
            rw [if_pos ⟨congrArg List.length hacks, hle⟩]
            exact List.mem_singleton.mpr hx.symm
        | cons q' seen =>
            cases hl
            rw [add_ackedCount_cons] at hle
            exact .inr ⟨seen, p, rest, rfl, hx, hacks, hle⟩

theorem mem_detectLostPackets {s : SentPackets} {firstUnacked x : Uint16} {losts : List Uint16}
    (hok : s.detectLostPackets firstUnacked = .ok losts) :
    x ∈ losts ↔ ∃ before p after,
      s.packets.drop (s.seqNumIndex firstUnacked) = before ++ p :: after ∧ p.seqNum = x ∧
      p.acks = [] ∧ lossThreshold ≤ ackedCount after := by
  obtain ⟨packets, hslice, hlosts⟩ := bind_eq_ok.mp hok
  obtain ⟨-, -, rfl⟩ := slice_eq_ok.mp hslice
  obtain rfl := pure_eq_ok.mp hlosts
  rw [List.take_length, mem_detectLoop_iff]
  generalize s.packets.drop (s.seqNumIndex firstUnacked) = l
  -- read the list from the other end
  have hcount : ∀ l, ackedCount l.reverse = ackedCount l := fun l => List.countP_reverse
  constructor
  · rintro ⟨seen, p, rest, hl, hx, hacks, hle⟩
    refine ⟨rest.reverse, p, seen.reverse, ?_, hx, hacks, ?_⟩
    · rw [← List.reverse_reverse l, hl]
      simp
    · rwa [hcount, ← Nat.zero_add (ackedCount seen)]
  · rintro ⟨before, p, after, rfl, hx, hacks, hle⟩
    refine ⟨after.reverse, p, before.reverse, by simp, hx, hacks, ?_⟩
    rwa [hcount, Nat.zero_add]

/-- Where everything before `f` is acknowledged, the lost packets are found
from `f` on. -/
theorem lost_iff_drop {s : SentPackets} {f : Nat} {x : Uint16}
    (hf : ∀ p ∈ s.packets.take f, p.acks ≠ []) :
    s.Lost x ↔ ∃ before p after, s.packets.drop f = before ++ p :: after ∧ p.seqNum = x ∧
      p.acks = [] ∧ lossThreshold ≤ ackedCount after := by
  constructor
  · rintro ⟨before, p, after, hs, hx, hacks, hle⟩
    have hlen : f ≤ before.length := by
      by_contra hlt
      refine hf p ?_ hacks
      rw [hs, List.take_append, List.take_of_length_le (by omega)]
      obtain ⟨n, hn⟩ : ∃ n, f - before.length = n + 1 := ⟨f - before.length - 1, by omega⟩
      rw [hn, List.take_succ_cons]
      simp
    refine ⟨before.drop f, p, after, ?_, hx, hacks, hle⟩
    rw [hs, List.drop_append_of_le_length hlen]
  · rintro ⟨before, p, after, hs, hx, hacks, hle⟩
    refine ⟨s.packets.take f ++ before, p, after, ?_, hx, hacks, hle⟩
    rw [List.append_assoc, ← hs, List.take_append_drop]

theorem getElem?_split {s : SentPackets} {before after : List SentPacket} {p : SentPacket}
    (h : s.packets = before ++ p :: after) : s.packets[before.length]? = some p := by
  rw [h, List.getElem?_append_right le_rfl, Nat.sub_self]
  rfl

/-! ### Marking keeps the lost packets lost -/

/-- The same packet later on: once acknowledged it stays so. -/
structure Grows (p p' : SentPacket) : Prop where
  seqNum : p'.seqNum = p.seqNum
  acks : p.acks ≠ [] → p'.acks ≠ []

theorem grows {s s' : SentPackets} (h : s.WF) (h' : s'.WF) (hinit : s'.initSeqNum = s.initSeqNum)
    (hlen : s'.packets.length = s.packets.length) (hmono : ∀ i, s.Acked i → s'.Acked i) :
    List.Forall₂ Grows s.packets s'.packets := by
  rw [List.forall₂_iff_get]
  refine ⟨hlen.symm, fun i hi hi' => ?_⟩
  have hp : s.packets[i]? = some (s.packets.get ⟨i, hi⟩) := List.getElem?_eq_getElem hi
  have hp' : s'.packets[i]? = some (s'.packets.get ⟨i, hi'⟩) := List.getElem?_eq_getElem hi'
  refine ⟨?_, fun hne => ?_⟩
  · rw [h.number i _ hp, h'.number i _ hp', hinit]
  · obtain ⟨q, hq, hqacks⟩ := hmono i ⟨_, hp, hne⟩
    rw [hp'] at hq
    cases hq
    exact hqacks

theorem ackedCount_mono {l l' : List SentPacket} (h : List.Forall₂ Grows l l') :
    ackedCount l ≤ ackedCount l' := by
  induction h with
  | nil => exact le_rfl
  | @cons p p' l l' hp _ ih =>
      have hcons := add_ackedCount_cons 0 p l
      have hcons' := add_ackedCount_cons 0 p' l'
      have hacks := hp.acks
      rw [← List.length_pos_iff, ← List.length_pos_iff] at hacks
      split at hcons <;> split at hcons' <;> omega

theorem Lost.mono {s s' : SentPackets} {x : Uint16} (h' : s'.WF)
    (hgrows : List.Forall₂ Grows s.packets s'.packets) (hlost : s.Lost x)
    (hun : ¬ s'.Acked (s'.seqNumIndex x)) : s'.Lost x := by
  obtain ⟨before, p, after, hs, rfl, -, hle⟩ := hlost
  have hrest := List.forall₂_drop before.length hgrows
  have hdrop : s.packets.drop before.length = p :: after := by
    rw [hs, List.drop_left]
  rw [hdrop] at hrest
  rcases hdrop' : s'.packets.drop before.length with - | ⟨p', after'⟩
  · rw [hdrop'] at hrest
    cases hrest
  rw [hdrop'] at hrest
  cases hrest with
  | cons hp hafter =>
      have hs' : s'.packets = s'.packets.take before.length ++ p' :: after' := by
        rw [← hdrop', List.take_append_drop]
      refine ⟨_, p', after', hs', hp.seqNum, ?_, hle.trans (ackedCount_mono hafter)⟩
      by_contra hne
      have hp' := getElem?_split hs'
      refine hun ⟨p', ?_, hne⟩
      rw [← hp.seqNum, h'.index_number hp']
      exact hp'

theorem Lost.index {s : SentPackets} {x : Uint16} (h : s.WF) (hlost : s.Lost x) :
    s.seqNumIndex x < s.packets.length ∧ ¬ s.Acked (s.seqNumIndex x) := by
  obtain ⟨before, p, after, hs, rfl, hacks, -⟩ := hlost
  have hp := getElem?_split hs
  rw [h.index_number hp]
  refine ⟨(List.getElem?_eq_some_iff.mp hp).1, ?_⟩
  rintro ⟨q, hq, hne⟩
  rw [hp] at hq
  cases hq
  exact hne hacks

/-! ### The steps -/

/-- The lost packets are those of a set, as far as they are not acknowledged
yet. -/
def LostUnacked (L : Uint16 → Prop) (s : SentPackets) : Prop :=
  ∀ x, s.lostPackets.contains x = true ↔ L x ∧ ¬ s.Acked (s.seqNumIndex x)

theorem LossExact.unacked {s : SentPackets} (h : s.WF) (he : s.LossExact) :
    LostUnacked s.Lost s := by
  intro x
  rw [he x]
  exact ⟨fun hlost => ⟨hlost, (hlost.index h).2⟩, And.left⟩

variable [Float64]

theorem LostUnacked.step {L : Uint16 → Prop} {s s' : SentPackets} (h : s.WF)
    (hL : LostUnacked L s) (hstep : s.AckStep s') : LostUnacked L s' := by
  obtain ⟨i, p, ack, ctrl, t, hp, -, ⟨-, hs'⟩ | ⟨-, rfl⟩⟩ := hstep.inv
  · intro x
    have hi := (List.getElem?_eq_some_iff.mp hp).1
    have hacked := acked_set hi (congrArg packets hs') (List.cons_ne_nil t []) (s.seqNumIndex x)
    have hidx : s'.seqNumIndex x = s.seqNumIndex x := seqNumIndex_congr (congrArg initSeqNum hs') x
    rw [hidx, congrArg lostPackets hs', OrdMap.contains_erase, hL x, hacked, not_or, and_assoc,
      ← h.index_number hp, seqNumIndex_inj]
    exact and_congr_right fun _ => and_comm
  · exact hL

omit [Float64] in
theorem foldl_markLost (losts : List Uint16) (s : SentPackets) :
    (losts.foldl markLost s).packets = s.packets ∧
      (losts.foldl markLost s).initSeqNum = s.initSeqNum ∧
      ∀ x, (losts.foldl markLost s).lostPackets.contains x = true ↔
        x ∈ losts ∨ s.lostPackets.contains x = true := by
  induction losts generalizing s with
  | nil => simp
  | cons y losts ih =>
      obtain ⟨ctrl, heq, -⟩ := onLost_eq { s with lostPackets := s.lostPackets.insert y () } y true
      have hmark : s.markLost y = { s with
          lostPackets := s.lostPackets.insert y ()
          congestionCtrl := ctrl } := heq
      obtain ⟨hpackets, hinit, hlost⟩ := ih (s.markLost y)
      rw [List.foldl_cons]
      refine ⟨hpackets.trans (by rw [hmark]), hinit.trans (by rw [hmark]), fun x => ?_⟩
      rw [hlost x, hmark, List.mem_cons]
      show _ ∨ (s.lostPackets.insert y ()).contains x = true ↔ _
      rw [OrdMap.contains_insert]
      tauto

/-- The packets detected are the lost ones of the state in which they are
looked for. -/
theorem mem_detected_iff {s₁ s₂ : SentPackets} {firstUnacked : Uint16} {losts : List Uint16}
    (h₁ : s₁.WF) (hu : s₁.firstUnackedSeqNum = some firstUnacked) (hsteps : AckSteps s₁ s₂)
    (hlosts : s₂.detectLostPackets firstUnacked = .ok losts) (x : Uint16) :
    x ∈ losts ↔ s₂.Lost x := by
  have hacks := hsteps.acks h₁
  -- what was in front before the packets before the number were marked
  have hidx : s₂.seqNumIndex firstUnacked = s₁.front := by
    rw [hacks.index, (index_firstUnacked h₁ hu).1]
  rw [mem_detectLostPackets hlosts, ← lost_iff_drop]
  intro p hp
  obtain ⟨i, hi⟩ := List.getElem?_of_mem hp
  rw [hidx, List.getElem?_take] at hi
  split at hi
  · rename_i hlt
    obtain ⟨q, hq, hne⟩ := hacks.mono i (acked_of_lt_front hlt)
    rw [hi] at hq
    cases hq
    exact hne
  · cases hi

/-- An acknowledgement keeps the set exact. -/
theorem LossExact.processed {s s' : SentPackets} (h : s.WF) (he : s.LossExact)
    (hp : Processed s s') : s'.LossExact := by
  have hL := he.unacked h
  cases hp with
  | all hsteps hall =>
      -- nothing is unacknowledged, so nothing is lost
      obtain ⟨hwf, hL'⟩ := hsteps.inv h hL fun _ _ hwf hL hstep => hL.step hwf hstep
      have hacks := hsteps.acks h
      intro x
      rw [hL' x]
      constructor
      · rintro ⟨hlost, hun⟩
        refine absurd (acked_of_lt_front ?_) hun
        rw [hall, hacks.length, hacks.index]
        exact (hlost.index h).1
      · intro hlost
        obtain ⟨hlt, hun⟩ := hlost.index hwf
        exact absurd (acked_of_lt_front (hall ▸ hlt)) hun
  | @detect s₁ s₂ firstUnacked losts hsteps₁ hfirst hsteps₂ hlosts =>
      obtain ⟨hwf₁, hL₁⟩ := hsteps₁.inv h hL fun _ _ hwf hL hstep => hL.step hwf hstep
      obtain ⟨hwf₂, hL₂⟩ := hsteps₂.inv hwf₁ hL₁ fun _ _ hwf hL hstep => hL.step hwf hstep
      have hacks₂ := hsteps₂.acks hwf₁
      have hacks := (hsteps₁.acks h).trans hacks₂
      obtain ⟨hpackets, -, hcontains⟩ := foldl_markLost losts s₂
      have hsame : ∀ x, (losts.foldl markLost s₂).Lost x ↔ s₂.Lost x := by
        intro x
        unfold Lost
        rw [hpackets]
      intro x
      rw [hcontains x, mem_detected_iff hwf₁ hfirst hsteps₂ hlosts, hL₂ x, hsame]
      constructor
      · rintro (hlost | ⟨hlost, hun⟩)
        · exact hlost
        · exact hlost.mono hwf₂ (grows h hwf₂ hacks.init hacks.length hacks.mono) hun
      · exact .inl

omit [Float64] in
theorem onTransmit_lostPackets {s s' : SentPackets} {seqNum : Uint16} {packetType : PacketType}
    {data : Bytes} {dataLen : Uint32} {now : Time}
    (hok : s.onTransmit seqNum packetType data dataLen now = .ok s') :
    s'.lostPackets = s.lostPackets := by
  rcases onTransmit_inv hok with ⟨-, ctrl, -, rfl⟩ | ⟨-, -, ctrl, -, rfl⟩
  · rfl
  · rfl

omit [Float64] in
/-- A packet sent last is not lost, and makes no other one lost. -/
theorem lost_append {s s' : SentPackets} {p : SentPacket} (hs' : s'.packets = s.packets ++ [p])
    (hp : p.acks = []) (x : Uint16) : s'.Lost x ↔ s.Lost x := by
  have hcount : ∀ l, ackedCount (l ++ [p]) = ackedCount l := by
    intro l
    simp [ackedCount, hp]
  unfold Lost
  rw [hs']
  constructor
  · rintro ⟨before, q, after, hsplit, hx, hacks, hle⟩
    rcases List.eq_nil_or_concat after with rfl | ⟨after, q', rfl⟩
    · exact absurd hle (by decide)
    · rw [List.concat_eq_append, ← List.cons_append, ← List.append_assoc] at hsplit
      obtain ⟨hinit, hlast⟩ := List.append_inj' hsplit rfl
      cases hlast
      rw [List.concat_eq_append, hcount] at hle
      exact ⟨before, q, after, hinit, hx, hacks, hle⟩
  · rintro ⟨before, q, after, hsplit, hx, hacks, hle⟩
    refine ⟨before, q, after ++ [p], ?_, hx, hacks, (hcount after).symm ▸ hle⟩
    rw [hsplit, List.append_assoc]
    rfl

omit [Float64] in
theorem Resent.lost_iff {s s' : SentPackets} {seqNum : Uint16} (h : s.WF)
    (hres : Resent s seqNum s') (x : Uint16) : s'.Lost x ↔ s.Lost x := by
  have hlen : s'.packets.length = s.packets.length := by
    rw [← length_chunks, hres.chunks, length_chunks]
  have hidx := seqNumIndex_congr hres.init x
  constructor
  · intro hlost
    refine hlost.mono h (grows hres.wf h hres.init.symm hlen.symm fun i => (hres.acked i).mp) ?_
    rw [← hres.acked, ← hidx]
    exact (hlost.index hres.wf).2
  · intro hlost
    refine hlost.mono hres.wf (grows h hres.wf hres.init hlen fun i => (hres.acked i).mpr) ?_
    rw [hres.acked, hidx]
    exact (hlost.index h).2

omit [Float64] in
/-- The packets handed out have the numbers of the set. -/
theorem seqNum_lostPacketsList {s : SentPackets} (h : s.WF) {losts : List LostPacket}
    (hok : s.lostPacketsList = .ok losts) {lost : LostPacket} (hlost : lost ∈ losts) :
    s.lostPackets.contains lost.seqNum = true := by
  rw [OrdMap.contains_iff, ← OrdMap.mem_keys]
  unfold lostPacketsList at hok
  generalize s.lostPackets.keys = keys at hok ⊢
  induction keys generalizing losts with
  | nil =>
      cases hok
      cases hlost
  | cons x keys ih =>
      rw [List.mapM_cons] at hok
      obtain ⟨first, hfirst, hrest⟩ := bind_eq_ok.mp hok
      obtain ⟨rest, hok', hlosts⟩ := bind_eq_ok.mp hrest
      obtain ⟨p, hp, hpure⟩ := bind_eq_ok.mp hfirst
      cases hpure
      cases hlosts
      rcases List.mem_cons.mp hlost with rfl | hlost
      · -- the record at the index of a number has that number
        have hidx := h.index_number (index_eq_ok.mp hp)
        exact List.mem_cons.mpr (.inl (seqNumIndex_inj.mp hidx))
      · exact List.mem_cons_of_mem _ (ih hlost hok')

/-! ### Runs -/

omit [Float64] in
theorem LossExact.onTransmit {s s' : SentPackets} (h : s.WF) (he : s.LossExact) {seqNum : Uint16}
    {packetType : PacketType} {data : Bytes} {dataLen : Uint32} {now : Time}
    (hok : s.onTransmit seqNum packetType data dataLen now = .ok s') : s'.LossExact := by
  intro x
  rw [onTransmit_lostPackets hok, he x]
  rcases onTransmit_ok h hok with ⟨-, -, rfl⟩ | hres
  · exact (lost_append rfl rfl x).symm
  · exact (hres.lost_iff h x).symm

theorem LossExact.onAck {s s' : SentPackets} (h : s.WF) (he : s.LossExact) {ackNum : Uint16}
    {selectiveAck : Option SelectiveAck} {delay : Duration} {now : Time}
    {r : Except SentError (CircularRangeInclusive × List Uint16)}
    (hok : s.onAck ackNum selectiveAck delay now = .ok (s', r)) : s'.LossExact := by
  rcases onAck_steps h hok with rfl | hproc
  · exact he
  · exact he.processed h hproc

theorem LossExact.call {s s' : SentPackets} (h : s.WF) (he : s.LossExact) {c : Call}
    (hok : s.call c = .ok s') : s'.LossExact := by
  cases c with
  | onTransmit seqNum packetType data dataLen now => exact he.onTransmit h hok
  | onAck ackNum selectiveAck delay now =>
      obtain ⟨⟨s₁, r⟩, hack, hs'⟩ := bind_eq_ok.mp hok
      obtain rfl := pure_eq_ok.mp hs'
      exact he.onAck h hack
  | onTimeout =>
      obtain rfl := pure_eq_ok.mp hok
      exact he

omit [Float64] in
theorem lossExact_new (initSeqNum : Uint16) (ctrl : DefaultController) :
    (newSentPackets initSeqNum ctrl).LossExact := by
  intro x
  refine ⟨nofun, ?_⟩
  rintro ⟨before, p, after, hs, -⟩
  simp [newSentPackets] at hs

/-- **Losses are exact**: in every state of a run the set of lost packets
holds the numbers of the packets that are not acknowledged and have at least
three acknowledged packets sent after them.  So a packet handed out as lost
is a packet sent and not acknowledged, with its own type and data. -/
theorem lostPackets_exact {initSeqNum : Uint16} {config : CtrlConfig} {calls : List Call}
    {s : SentPackets} (hrun : run initSeqNum config calls = .ok s) :
    (∀ x, s.lostPackets.contains x = true ↔ s.Lost x) ∧
    ∃ losts, s.lostPacketsList = .ok losts ∧ ∀ lost ∈ losts, ∃ p ∈ s.packets,
      p.seqNum = lost.seqNum ∧ p.packetType = lost.packetType ∧ p.data = lost.data ∧
      p.acks = [] := by
  obtain ⟨hwf, he⟩ := foldlM_inv (fun s => s.WF ∧ s.LossExact) hrun
    ⟨wf_new initSeqNum config, lossExact_new initSeqNum _⟩
    fun _ _ _ _ h hok => ⟨h.1.call hok, h.2.call h.1 hok⟩
  obtain ⟨losts, hlosts, -, hall⟩ := lostPacketsList_spec hwf
  refine ⟨he, losts, hlosts, ?_⟩
  intro lost hlost
  obtain ⟨p, hp, htype, hdata⟩ := hall lost hlost
  have hnum : p.seqNum = lost.seqNum := seqNumIndex_inj.mp (hwf.index_number hp)
  refine ⟨p, List.mem_of_getElem? hp, hnum, htype, hdata, ?_⟩
  by_contra hne
  have hlost' := (he _).mp (seqNum_lostPacketsList hwf hlosts hlost)
  exact (hlost'.index hwf).2 ⟨p, hp, hne⟩

omit [Float64] in
/-- Five packets, of which all but the second are acknowledged. -/
theorem lostPackets_exact_second : ∃ s, @run exactFloat64 0 defaultCtrlConfig
      [.onTransmit 1 .st_data [1] 1 0, .onTransmit 2 .st_data [2] 1 0,
        .onTransmit 3 .st_data [3] 1 0, .onTransmit 4 .st_data [4] 1 0,
        .onTransmit 5 .st_data [5] 1 0,
        .onAck 1 (some (newSelectiveAck [true, true, true])) 0 0] = .ok s ∧ s.Lost 2 := by
  have hrun : ∃ s, @run exactFloat64 0 defaultCtrlConfig
      [.onTransmit 1 .st_data [1] 1 0, .onTransmit 2 .st_data [2] 1 0,
        .onTransmit 3 .st_data [3] 1 0, .onTransmit 4 .st_data [4] 1 0,
        .onTransmit 5 .st_data [5] 1 0,
        .onAck 1 (some (newSelectiveAck [true, true, true])) 0 0] = .ok s ∧
      s.lostPackets.contains 2 = true := ⟨_, rfl, rfl⟩
  obtain ⟨s, hs, hlost⟩ := hrun
  exact ⟨s, hs, ((@lostPackets_exact exactFloat64 _ _ _ _ hs).1 2).mp hlost⟩

end SentPackets

end UtpGo
