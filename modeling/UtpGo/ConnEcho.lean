/-
UtpGo/ConnEcho.lean

The delay a connection echoes.  Every STATE, DATA and retransmitted packet
carries `peerTsDiff`, which `onPacket` has set from the last packet received;
only a fresh FIN carries none.  The delay of that packet would be the time now
less the packet's `Timestamp`.  The code subtracts its `TimestampDiff`, the
delay the peer echoes, and takes what is longer than the idle timeout for one
second.

Main results: `onPacket_echoes_iff`, the delay echoed is right exactly when
these two errors cancel, and `echo_one_second`, a packet a millisecond old
that is answered with a second.
-/
import UtpGo.ConnEffects

namespace UtpGo

open Checked Relation

namespace Connection

variable {c c' c₁ : Connection} {e : Established} {p q : Packet} {now : Time}
  {origin? : Option Packet} {fin : Prop}

/-! ### What effects put on packets -/

/-- The delay stays as it is, and every packet sent that acknowledges carries
it, unless it may be a fresh FIN. -/
structure Echoes (fin : Prop) (c c' : Connection) : Prop where
  peerTsDiff : c'.peerTsDiff = c.peerTsDiff
  sent : ∃ new, c'.socketEvents = c.socketEvents ++ new ∧ (¬ fin → ∀ q, .outgoing q ∈ new →
    q.header.packetType.carriesAck = true → q.header.timestampDiff = c.tsDiffMicros)

theorem Echoes.silent (hdiff : c'.peerTsDiff = c.peerTsDiff)
    (hsent : c'.socketEvents = c.socketEvents) : Echoes fin c c' := by
  refine ⟨hdiff, [], ?_, fun _ q hq => absurd hq List.not_mem_nil⟩
  rw [hsent, List.append_nil]

theorem Echoes.trans (h : Echoes fin c c₁) (h₁ : Echoes fin c₁ c') : Echoes fin c c' := by
  obtain ⟨new, hnew, hecho⟩ := h.sent
  obtain ⟨new₁, hnew₁, hecho₁⟩ := h₁.sent
  refine ⟨h₁.peerTsDiff.trans h.peerTsDiff, new ++ new₁, ?_, fun hfin q hq hack => ?_⟩
  · rw [hnew₁, hnew, List.append_assoc]
  · rcases List.mem_append.mp hq with hq | hq
    · exact hecho hfin q hq hack
    · rw [hecho₁ hfin q hq hack, tsDiffMicros, tsDiffMicros, h.peerTsDiff]

theorem Echoes.emit (hp : ¬ fin → p.header.packetType.carriesAck = true →
    p.header.timestampDiff = c.tsDiffMicros) : Echoes fin c (c.emit p) := by
  refine ⟨rfl, [.outgoing p], rfl, fun hfin q hq hack => ?_⟩
  cases List.mem_singleton.mp hq
  exact hp hfin hack

/-- **Packets that are emitted** between the two states echo the delay. -/
theorem Echoes.of_emits (h : Echoes fin c c') (hfin : ¬ fin) (hq : c.Emits c' q)
    (hack : q.header.packetType.carriesAck = true) :
    q.header.timestampDiff = c.tsDiffMicros := by
  obtain ⟨new, hnew, hecho⟩ := h.sent
  obtain ⟨new', hnew', hmem⟩ := hq
  obtain rfl := List.append_cancel_left (hnew.symm.trans hnew')
  exact hecho hfin q hmem hack

theorem statePacket_echoes (h : c.statePacket now = some p) :
    p.header.timestampDiff = c.tsDiffMicros := by
  rcases statePacket_inv h with ⟨-, -, rfl⟩ | ⟨e, -, rfl⟩
  · rfl
  · rfl

theorem Made.echoes (h : Made origin? fin c e p) (hfin : ¬ fin) :
    p.header.timestampDiff = c.tsDiffMicros := by
  cases h with
  | data | lost | again => rfl
  | fin h => exact absurd h hfin

theorem Effect.echoes (h : Effect origin? fin c c') : Echoes fin c c' := by
  cases h with
  | book h | buffers h | leave h => exact .silent h.peerTsDiff h.socketEvents
  | emitState hp => exact .emit fun _ _ => statePacket_echoes hp
  | emitReset => exact .emit fun _ => by rintro ⟨⟩
  | emitSyn => exact .emit fun _ => by rintro ⟨⟩
  | putAgain | clear => exact .silent rfl rfl
  | transmit hs hp hok =>
      obtain ⟨e, sp, -, -, rfl⟩ := transmit_ok hok
      refine ⟨rfl, [.outgoing _], rfl, fun hfin q hq _ => ?_⟩
      cases List.mem_singleton.mp hq
      exact hp.echoes hfin

theorem Effects.echoes (h : Effects origin? fin c c') : Echoes fin c c' := by
  induction h with
  | refl => exact .silent rfl rfl
  | tail _ heffect ih => exact ih.trans heffect.echoes

/-! ### Events -/

variable [Float64]

/-- **Every event but a packet** keeps the delay and echoes it. -/
theorem step_echoes {ev : Event} (hpacket : ev.packet? = none) (hok : c.step ev = .ok c') :
    Echoes (∃ t, ev = .shutdown t) c c' := by
  cases step_happens hok with
  | nothing | expire => exact .silent rfl rfl
  | packet hev =>
      subst hev
      cases hpacket
  | timeout hev hch h =>
      rename_i rest _
      have hreceive : Echoes (∃ t, ev = .shutdown t) c { c with unackTimeoutCh := rest } :=
        .silent rfl rfl
      exact hreceive.trans h.echoes
  | other h => exact h.echoes

theorem run_echoes {events : List Event} (hpacket : ∀ ev ∈ events, ev.packet? = none)
    (hok : c.run events = .ok c') : c'.peerTsDiff = c.peerTsDiff := by
  refine foldlM_inv (fun c₁ => c₁.peerTsDiff = c.peerTsDiff) hok rfl ?_
  intro c₁ ev c₂ hev hdiff hstep
  exact (step_echoes (hpacket ev hev) hstep).peerTsDiff.trans hdiff

/-- The packet `q` acknowledges, and it is sent after the packet whose
handling leads from `c` to `c₁` and before the next: by the handler itself, or
by a later event.  It is not the fresh FIN of a `shutdown`. -/
def SendsNext (c c₁ : Connection) (q : Packet) : Prop :=
  q.header.packetType.carriesAck = true ∧
    (c.Emits c₁ q ∨ ∃ events ev c₂ c₃, (∀ ev' ∈ events, ev'.packet? = none) ∧
      ev.packet? = none ∧ (∀ t, ev ≠ .shutdown t) ∧
      c₁.run events = .ok c₂ ∧ c₂.step ev = .ok c₃ ∧ c₂.Emits c₃ q)

/-- What is sent next carries the delay noted for the packet. -/
theorem SendsNext.timestampDiff {rnd : Uint16} (hok : c.onPacket p now rnd = .ok c₁)
    (hq : c.SendsNext c₁ q) : q.header.timestampDiff = (c.observePeer p now).tsDiffMicros := by
  have heffects : Effects none False (c.observePeer p now) c₁ := onPacket_effects hok
  have hecho := heffects.echoes
  obtain ⟨hack, hq | ⟨events, ev, c₂, c₃, hpackets, hpacket, hshut, hrun, hstep, hq⟩⟩ := hq
  · exact hecho.of_emits id hq hack
  · have hsend := (step_echoes hpacket hstep).of_emits (fun ⟨t, h⟩ => hshut t h) hq hack
    rw [hsend, tsDiffMicros, tsDiffMicros, run_echoes hpackets hrun, hecho.peerTsDiff]

/-! ### The delay of a packet -/

omit [Float64] in
theorem tsDiffMicros_observePeer (c : Connection) (p : Packet) (now : Time) :
    (c.observePeer p now).tsDiffMicros =
      if (c.config.maxIdleTimeout : Int) < 1000 * (unixMicro now - p.header.timestampDiff.toNat)
      then 1000000 else BitVec.ofInt 32 (unixMicro now - p.header.timestampDiff.toNat) := by
  show BitVec.ofInt 32 (microseconds (if 1000 * (unixMicro now - p.header.timestampDiff.toNat)
    > (c.config.maxIdleTimeout : Int) then (second : Int) else _)) = _
  split
  · rfl
  · rw [microseconds, Int.mul_tdiv_cancel_left _ (by decide)]

omit [Float64] in
/-- Two differences from one time are the same modulo `2 ^ 32` when what is
subtracted is. -/
theorem ofInt_sub_eq_iff (a t : Int) (d : Uint32) :
    BitVec.ofInt 32 (a - d.toNat) = BitVec.ofInt 32 (a - t) ↔ d = BitVec.ofInt 32 (t % 2 ^ 32) := by
  rw [← BitVec.toNat_inj, ← BitVec.toNat_inj, BitVec.toNat_ofInt, BitVec.toNat_ofInt,
    BitVec.toNat_ofInt]
  have hd := d.isLt
  omega

/-- **The delay echoed.**  A packet stamped with the low 32 bits of the time
`t` is handled at the time `now`.  The next packet that acknowledges echoes
`now - t` exactly when the packet's `TimestampDiff` happens to be its
timestamp or, where the difference taken is longer than the idle timeout, when
the packet is a second old. -/
theorem onPacket_echoes_iff {rnd : Uint16} {t : Int}
    (hstamp : p.header.timestamp = t % 2 ^ 32) (hok : c.onPacket p now rnd = .ok c₁)
    (hq : c.SendsNext c₁ q) :
    q.header.timestampDiff = BitVec.ofInt 32 (unixMicro now - t) ↔
      if (c.config.maxIdleTimeout : Int) < 1000 * (unixMicro now - p.header.timestampDiff.toNat)
      then BitVec.ofInt 32 (unixMicro now - t) = (1000000 : Uint32)
      else p.header.timestampDiff = BitVec.ofInt 32 p.header.timestamp := by
  rw [hq.timestampDiff hok, tsDiffMicros_observePeer, hstamp]
  split
  · exact eq_comm
  · exact ofInt_sub_eq_iff _ _ _

/-- The peer's first packet, a byte, stamped at the time `t` by a peer that
has noted no delay yet. -/
def stampedData (t : Int) : Packet :=
  ((newPacketBuilder .st_data 1 (BitVec.ofInt 32 t) 1000 101).withPayload [7]
    |>.withAckNum 4).build

omit [Float64] in
/-- Just after the epoch the difference taken is short, and as the packet was
stamped at the epoch it is the right one. -/
theorem onPacket_echoes_iff_epoch : ∃ c₁ q,
    @onPacket exactFloat64 sampleAcceptor (stampedData 0) 5000 0 = .ok c₁ ∧
    sampleAcceptor.Emits c₁ q ∧ q.header.timestampDiff = BitVec.ofInt 32 (unixMicro 5000 - 0) := by
  have hrun : ∃ c₁ q, @onPacket exactFloat64 sampleAcceptor (stampedData 0) 5000 0 = .ok c₁ ∧
      q.header.packetType = .st_state ∧
      c₁.socketEvents = sampleAcceptor.socketEvents ++ [.outgoing q] :=
    ⟨_, _, rfl, rfl, rfl⟩
  let := exactFloat64
  obtain ⟨c₁, q, hok, hstate, hsent⟩ := hrun
  have hemits : sampleAcceptor.Emits c₁ q := ⟨_, hsent, List.mem_singleton.mpr rfl⟩
  have hnext : sampleAcceptor.SendsNext c₁ q := ⟨by rw [hstate]; rfl, .inl hemits⟩
  exact ⟨c₁, q, hok, hemits, (onPacket_echoes_iff rfl hok hnext).mpr (by decide)⟩

omit [Float64] in
/-- A packet is stamped in November 2023 and arrives a millisecond later.  The
answer says that it took a second. -/
theorem echo_one_second : ∃ c₁ q,
    @onPacket exactFloat64 sampleAcceptor (stampedData 1700000000000000) 1700000000001000000 0
      = .ok c₁ ∧
    sampleAcceptor.Emits c₁ q ∧ q.header.packetType = .st_state ∧
    (stampedData 1700000000000000).header.timestamp = 1700000000000000 % 2 ^ 32 ∧
    unixMicro 1700000000001000000 - 1700000000000000 = 1000 ∧
    q.header.timestampDiff = 1000000 :=
  ⟨_, _, rfl, ⟨_, rfl, List.mem_singleton.mpr rfl⟩, rfl, by decide, by decide, by decide⟩

end Connection

end UtpGo
