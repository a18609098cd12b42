/-
UtpGo/PairWire.lean

The pair of connections over the bytes of the wire.  An end encodes what it
sends, and what arrives is decoded before it is handled, or dropped when it
cannot be decoded (`Peer.wireParty`).

The one packet that the wire does not carry as it was meant is a
retransmission whose extension byte does not fit its selective acknowledgement
(`Packet.Tagged`).  As long as none has been sent, the bytes do not matter: the
pair over bytes refines the pair over packets (`wire_refines`).

Main result: `pair_on_wire`, the states that a pair reaches over bytes without
such a packet are reached over packets, and the streams are delivered.
-/
import UtpGo.ConnExit
import UtpGo.ConnWire
import UtpGo.Pair

namespace UtpGo

open Checked Relation

/-- The extension byte says whether a selective acknowledgement follows. -/
def Packet.Tagged (p : Packet) : Prop := p.header.extension = if p.eack.isSome then 1 else 0

instance (p : Packet) : Decidable p.Tagged := decEq _ _

/-! ### The system -/

/-- An end that sends and takes in bytes. -/
def Peer.wireParty [Float64] : LossyPair.Party Peer Bytes where
  sent a data := ∃ q, a.conn.Sent q ∧ data = q.encode
  step a data? a' :=
    match data? with
    | none => Peer.party.step a none a'
    | some data =>
        match decodePacket data with
        | .ok p => Peer.party.step a (some p) a'
        | .error _ => a' = a

/-- A state of the pair that can be reached over bytes, the initiator first. -/
def Setup.ReachesOnWire [Float64] (p : Setup) (s : Peer × Peer) : Prop :=
  ReflTransGen (LossyPair.Step Peer.wireParty) p.start s

/-! ### What is sent stays sent -/

namespace Connection

variable [Float64] {c c' : Connection} {now : Time}

/-- A packet that was sent has been sent, and the records only grow. -/
theorem step_grows {ev : Event} {w : Bytes} (hsound : Midcall.Sound ⟨c, none, w⟩)
    (hok : c.step ev = .ok c') :
    (∀ q, c.Sent q → c'.Sent q) ∧ (c'.Small → c.Small) := by
  obtain ⟨hand, -, -, ⟨packets, hpackets⟩, hsmall⟩ := step_inv (w := w)
    (I := fun m => m.Speaks c ∧ (m.conn.Small → c.Small))
    (fun m m' hact hs hI => ⟨hact.speaks hI.1, fun hsmall => hI.2 (hact.small hs hsmall)⟩)
    (guarded_unguarded c ev) hsound ⟨.start, id⟩ hok
  refine ⟨fun q hq => ?_, hsmall⟩
  show SocketEvent.outgoing q ∈ c'.socketEvents
  rw [show c'.socketEvents = _ from hpackets]
  exact List.mem_append_left _ hq

omit [Float64] in
theorem sent_transmit {p : Packet} (hok : c.transmit p now = .ok c') : c'.Sent p := by
  obtain ⟨e, sp, -, -, rfl⟩ := transmit_ok hok
  exact List.mem_append_right _ (List.mem_singleton.mpr rfl)

/-- A timeout after which every packet is tagged was one for which the
extension byte fits. -/
theorem guarded_of_tagged {ev : Event} (hok : c.step ev = .ok c')
    (htagged : ∀ q, c'.Sent q → q.Tagged) : ev.Guarded extensionKept c where
  timeout := by
    rintro now e p rest rfl hs hch hsyn
    simp only [step, hch] at hok
    rw [onTimeout] at hok
    dsimp only at hok
    rw [hs] at hok
    dsimp only at hok
    rw [if_neg hsyn] at hok
    exact htagged _ (sent_transmit hok)
  fin := fun _ _ _ _ _ _ _ => trivial

end Connection

/-! ### Refinement -/

/-- Every packet sent is tagged, and few are recorded. -/
structure Peer.Clean (a : Peer) : Prop where
  tagged : ∀ q, a.conn.Sent q → q.Tagged
  small : a.conn.Small

/-- Everything that was sent is ready for the wire. -/
structure Peer.Wired (a : Peer) : Prop where
  recorded : Midcall.Recorded ⟨a.conn, none, a.written⟩
  wired : Midcall.Wired ⟨a.conn, none, a.written⟩

section Refinement

variable [Float64] {a a' b : Peer}

theorem Peer.sound_step {packet? : Option Packet}
    (hsound : Midcall.Sound ⟨a.conn, none, a.written⟩) (hstep : Peer.party.step a packet? a') :
    Midcall.Sound ⟨a'.conn, none, a'.written⟩ ∧ (a'.Clean → a.Clean) := by
  obtain ⟨ev, -, hok, -⟩ := hstep
  obtain ⟨hand, -, hsound', -⟩ := Connection.step_inv (I := fun _ => True)
    (fun _ _ _ _ _ => trivial) (Connection.guarded_unguarded _ ev) hsound trivial hok
  obtain ⟨hsent, hsmall⟩ := Connection.step_grows hsound hok
  exact ⟨hsound', fun h => ⟨fun q hq => h.tagged q (hsent q hq), hsmall h.small⟩⟩

/-- An event after which the end is clean sends nothing that the wire
garbles. -/
theorem Peer.Wired.step {packet? : Option Packet} (h : a.Wired)
    (hsound : Midcall.Sound ⟨a.conn, none, a.written⟩) (hstep : Peer.party.step a packet? a')
    (hclean : a'.Clean) : a'.Wired := by
  obtain ⟨ev, -, hok, hwritten⟩ := hstep
  obtain ⟨hand, hhand, -, hinv⟩ := Connection.step_inv
    (I := fun m => m.conn.Small → m.Recorded ∧ m.Wired)
    (fun m m' hact hs hm hsmall => hact.wired hs hm hsmall)
    (Connection.guarded_of_tagged hok hclean.tagged) hsound (fun _ => ⟨h.recorded, h.wired⟩) hok
  obtain ⟨hrec, hwired⟩ := hinv hclean.small
  rw [← hwritten] at hrec hwired
  refine ⟨hrec.rest hhand, hwired.timed, hwired.sent, ?_⟩
  intro e he item hitem
  cases hitem

/-- What arrives from a wired end is decoded to the value that was sent. -/
theorem Peer.Wired.decodes {data : Bytes} (h : b.Wired) (hsent : Peer.wireParty.sent b data) :
    ∃ p, decodePacket data = .ok p ∧ Peer.party.sent b p := by
  obtain ⟨q, hq, rfl⟩ := hsent
  exact ⟨q.onWire, decodePacket_encode (h.wired.sent q hq), q, hq, rfl, rfl, rfl, rfl, rfl⟩

/-- **Refinement**: over bytes a clean end does what it does over packets. -/
theorem wire_refines : LossyPair.Refines Peer.wireParty Peer.party
    (fun a => Midcall.Sound ⟨a.conn, none, a.written⟩) Peer.Clean Peer.Wired where
  back := by
    intro a a' data? hsound hstep
    rcases data? with - | data
    · exact Peer.sound_step hsound hstep
    · simp only [Peer.wireParty] at hstep
      split at hstep
      · exact Peer.sound_step hsound hstep
      · obtain rfl := hstep
        exact ⟨hsound, id⟩
  step := by
    intro a b a' data? hsound ha hb hclean hm hstep
    rcases data? with - | data
    · exact ⟨ha.step hsound hstep hclean, .inr ⟨none, by rintro p ⟨⟩, hstep⟩⟩
    · obtain ⟨p, hdecode, hsent⟩ := hb.decodes (hm data rfl)
      simp only [Peer.wireParty, hdecode] at hstep
      refine ⟨ha.step hsound hstep hclean, .inr ⟨some p, ?_, hstep⟩⟩
      rintro q ⟨⟩
      exact hsent

end Refinement

/-! ### Main result -/

theorem Connection.small_of_transmitted {c : Connection} (h : c.transmitted < 65534) :
    c.Small := by
  intro e he
  rw [transmitted, he] at h
  exact h.trans (by decide)

theorem Setup.wired_start (p : Setup) : p.initiator.Wired ∧ p.acceptor.Wired :=
  ⟨⟨recorded_start p.cid p.config none p.synNum p.now p.t₀ [],
      UtpGo.wired_start p.cid p.config none p.synNum p.now p.t₀ []⟩,
    recorded_start p.cid' p.config' (some p.syn) p.synAck p.now' p.t₀' [],
    UtpGo.wired_start p.cid' p.config' (some p.syn) p.synAck p.now' p.t₀' []⟩

section Results

variable [Float64] {p : Setup} {s : Peer × Peer}

/-- **On the wire**: a state that a pair reaches over bytes, without having
sent a packet whose extension byte does not fit, is one that it reaches over
packets, and both streams have been delivered. -/
theorem pair_on_wire (hsize : 64 < p.config.maxPacketSize) (hsize' : 64 < p.config'.maxPacketSize)
    (hs : p.ReachesOnWire s) (htagged : ∀ q, s.1.conn.Sent q → q.Tagged)
    (htagged' : ∀ q, s.2.conn.Sent q → q.Tagged) (hi : s.1.conn.transmitted < 65534)
    (ha : s.2.conn.transmitted < 65534) :
    p.Reaches s ∧ Delivered s.1 s.2 ∧ Delivered s.2 s.1 := by
  have hsound : Midcall.Sound ⟨p.initiator.conn, none, p.initiator.written⟩ ∧
      Midcall.Sound ⟨p.acceptor.conn, none, p.acceptor.written⟩ :=
    ⟨(lawful_initiator p p.acceptor.conn.view).sound,
      (lawful_acceptor p p.initiator.conn.view).sound⟩
  have hclean : s.1.Clean ∧ s.2.Clean :=
    ⟨⟨htagged, Connection.small_of_transmitted hi⟩, htagged',
      Connection.small_of_transmitted ha⟩
  have hreach : p.Reaches s := (wire_refines.reach hsound p.wired_start hs hclean).1
  obtain ⟨hinit, hacc⟩ := hreach.lawful
  rw [← Connection.length_view] at hi ha
  refine ⟨hreach, hacc.delivered hinit ha hi ?_, hinit.delivered hacc hi ha ?_⟩
  · bv_omega
  · bv_omega

/-- An end takes in the bytes of a packet that the other has sent. -/
theorem Peer.takes {a b : Peer} {q p : Packet} {c : Connection} {now : Time} {rnd : Uint16}
    (hq : b.conn.Sent q) (hdecode : decodePacket q.encode = .ok p)
    (hok : a.conn.step (.onPacket p now rnd) = .ok c) :
    (∀ data, some q.encode = some data → Peer.wireParty.sent b data) ∧
      Peer.wireParty.step a (some q.encode) ⟨c, a.written ++ []⟩ := by
  refine ⟨?_, ?_⟩
  · rintro data ⟨⟩
    exact ⟨q, hq, rfl⟩
  · simp only [Peer.wireParty, hdecode]
    exact ⟨_, rfl, hok, rfl⟩

/-- The STATE packet of the acceptor of `sampleSetup`. -/
def sampleState : Packet := ((newPacketBuilder .st_state 2 0 1048576 5).withAckNum 100).build

/-- The packet of the initiator for a write of three bytes. -/
def sampleData : Packet :=
  (((newPacketBuilder .st_data 1 0 16 101).withPayload [1, 2, 3]).withAckNum 4).build

omit [Float64] in
/-- Three bytes cross the wire. -/
theorem pair_on_wire_sample : ∃ s, @Setup.ReachesOnWire exactFloat64 sampleSetup s ∧
    s.1.written = [1, 2, 3] ∧ s.2.conn.readStream = [1, 2, 3] ∧
    @Setup.Reaches exactFloat64 sampleSetup s := by
  let := exactFloat64
  have hrun : ∃ c₁ c₂ c₃ b₁ b₂,
      sampleSetup.initiator.conn.step (.onPacket sampleState 0 0) = .ok c₁ ∧
      c₁.step (.onWrite [1, 2, 3] 0 0) = .ok c₂ ∧ c₂.step (.processWrites 0) = .ok c₃ ∧
      sampleSetup.acceptor.conn.step (.onPacket sampleData 0 0) = .ok b₁ ∧
      b₁.step .processReads = .ok b₂ ∧ c₃.transmitted = 1 ∧ b₂.transmitted = 0 ∧
      c₁.acceptsWrite = true ∧ b₂.readStream = [1, 2, 3] ∧
      c₃.socketEvents = sampleSetup.initiator.conn.socketEvents ++ [.outgoing sampleData] ∧
      c₃.outgoing.all (fun q => q.Tagged) = true ∧ b₂.outgoing.all (fun q => q.Tagged) = true :=
    ⟨_, _, _, _, _, rfl, rfl, rfl, rfl, rfl, rfl, rfl, rfl, rfl, rfl, rfl, rfl⟩
  obtain ⟨c₁, c₂, c₃, b₁, b₂, hstate, hwrite, hwrites, hdata, hread, hi, ha, hacc, hstream, hevents,
    htagged, htagged'⟩ := hrun
  have hall : ∀ {c : Connection}, c.outgoing.all (fun q => q.Tagged) = true →
      ∀ q, c.Sent q → q.Tagged := by
    intro c hc q hq
    have hmem : q ∈ c.outgoing := List.mem_filterMap.mpr ⟨_, hq, rfl⟩
    exact of_decide_eq_true (List.all_eq_true.mp hc q hmem)
  -- the initiator connects and sends, and the acceptor takes and reads
  let a₀ := sampleSetup.initiator
  let b₀ := sampleSetup.acceptor
  have hsent : b₀.conn.Sent sampleState := List.mem_singleton.mpr rfl
  have hsent' : c₃.Sent sampleData := by
    show _ ∈ c₃.socketEvents
    rw [hevents]
    exact List.mem_append_right _ (List.mem_singleton.mpr rfl)
  obtain ⟨hm₁, hstep₁⟩ := Peer.takes (a := a₀) (p := sampleState) hsent rfl hstate
  have hstep₂ : Peer.wireParty.step ⟨c₁, []⟩ none ⟨c₂, [1, 2, 3]⟩ := by
    refine ⟨_, rfl, hwrite, ?_⟩
    rw [Connection.Event.accepts, hacc]
    rfl
  have hstep₃ : Peer.wireParty.step ⟨c₂, [1, 2, 3]⟩ none ⟨c₃, [1, 2, 3]⟩ :=
    ⟨_, rfl, hwrites, rfl⟩
  obtain ⟨hm₄, hstep₄⟩ :=
    Peer.takes (a := b₀) (b := ⟨c₃, [1, 2, 3]⟩) (p := sampleData) hsent' rfl hdata
  have hstep₅ : Peer.wireParty.step ⟨b₁, []⟩ none ⟨b₂, []⟩ := ⟨_, rfl, hread, rfl⟩
  have hs : sampleSetup.ReachesOnWire (⟨c₃, [1, 2, 3]⟩, ⟨b₂, []⟩) := by
    have hnone : ∀ (b : Peer) (data : Bytes), none = some data → Peer.wireParty.sent b data := by
      rintro b data ⟨⟩
    exact ((((ReflTransGen.single (.left hm₁ hstep₁)).tail (.left (hnone b₀) hstep₂)).tail
      (.left (hnone b₀) hstep₃)).tail (.right hm₄ hstep₄)).tail
        (.right (hnone ⟨c₃, [1, 2, 3]⟩) hstep₅)
  exact ⟨_, hs, rfl, hstream, (pair_on_wire (by decide) (by decide) hs (hall htagged)
    (hall htagged') (by rw [hi]; decide) (by rw [ha]; decide)).1⟩

end Results

end UtpGo
