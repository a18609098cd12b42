/-
UtpGo/ConnTransmit.lean

When transmitting panics.  Everything a handler settles to send passes the
guards of `onTransmit`: fresh data was cut to fit the window, and what is
sent again has a record.  The controller then accepts it, with two
exceptions: a FIN is refused when the limit has fallen below the bytes in
flight, and a retransmission counts as a first transmission once its 32-bit
counter has come round.

Main results: `run_transmits`, no transmission panics in a run that stays
clear of both, and `fin_panics`, a run that ends with a FIN in a window that
a timeout has shrunk.
-/
import UtpGo.ConnQuiet

namespace UtpGo

open Checked

/-! ### What is in hand can be sent -/

/-- Packets with a record; fresh data that fits the window; or the FIN. -/
def Sendable (s : SentPackets) (items : List Item) : Prop :=
  (∀ item ∈ items, s.seqNumIndex item.seqNum < s.packets.length) ∨
  (∃ seqNum payloads, items = dataItems seqNum payloads ∧
    (s.packets.length < 65536 → seqNum = s.nextSeqNum) ∧
    (∀ payload ∈ payloads, payload ≠ []) ∧ payloads.flatten.length ≤ s.window.toNat) ∨
  (∃ seqNum, items = [finItem seqNum] ∧ (s.packets.length < 65536 → seqNum = s.nextSeqNum ∧
    s.congestionCtrl.windowSizeBytes ≤ s.congestionCtrl.maxWindowSizeBytes))

/-- Every packet was sent, and its counter can count `n` more. -/
def Countable (s : SentPackets) (n : Nat) : Prop :=
  ∀ x r, s.congestionCtrl.transmissions.get? x = some r →
    0 < r.numTransmissions.toNat ∧ r.numTransmissions.toNat + n < 2 ^ 32

theorem Countable.mono {s : SentPackets} {n k : Nat} (h : Countable s n) (hk : k ≤ n) :
    Countable s k := by
  intro x r hr
  have := h x r hr
  omega

theorem Countable.congr {s s' : SentPackets} {n : Nat} (h : Countable s n)
    (hcounts : s.congestionCtrl.SameCounts s'.congestionCtrl) : Countable s' n := by
  intro x r' hr'
  have hx := hcounts x
  rw [hr', Option.map_some] at hx
  obtain ⟨r, hr, hn⟩ := Option.map_eq_some_iff.mp hx.symm
  rw [← hn]
  exact h x r hr

namespace SentPackets

variable {s : SentPackets}

/-- A recorded number is sent again. -/
theorem onTransmit_indexed (h : s.WF) (hcount : Countable s 1) {seqNum : Uint16}
    (hidx : s.seqNumIndex seqNum < s.packets.length) (packetType : PacketType) (data : Bytes)
    (dataLen : Uint32) (now : Time) :
    ∃ s', s.onTransmit seqNum packetType data dataLen now = .ok s' ∧
      s'.initSeqNum = s.initSeqNum ∧ s'.packets.length = s.packets.length ∧
      s'.window = s.window := by
  obtain ⟨r, hr⟩ := Option.isSome_iff_exists.mp ((h.recorded seqNum).mpr hidx)
  obtain ⟨hpos, hlt⟩ := hcount seqNum r hr
  have hn : r.numTransmissions + 1 ≠ 1 := by bv_omega
  refine ⟨_, onTransmit_again packetType data now hidx hr hn, rfl, ?_, rfl⟩
  exact List.length_modify _ _ _

/-- What a first transmission takes from the window. -/
theorem window_transmitNew (packetType : PacketType) (data : Bytes) {dataLen : Uint32}
    (now : Time) (hfit : dataLen ≤ s.window)
    (hempty : dataLen = 0 →
      s.congestionCtrl.windowSizeBytes ≤ s.congestionCtrl.maxWindowSizeBytes) :
    (s.transmitNew packetType data dataLen now).window.toNat
      = s.window.toNat - dataLen.toNat := by
  obtain ⟨hle, hsum⟩ := DefaultController.fits_of_le_available hfit hempty
  show (DefaultController.bytesAvailableInWindow { s.congestionCtrl with
    transmissions := _
    windowSizeBytes := s.congestionCtrl.windowSizeBytes + dataLen }).toNat
      = s.congestionCtrl.bytesAvailableInWindow.toNat - _
  unfold DefaultController.bytesAvailableInWindow
  dsimp only
  split <;> split <;> bv_omega

end SentPackets

variable {s : SentPackets} {item : Item} {rest : List Item}

/-- The payload of a fresh packet fits the window. -/
theorem le_window_of_flatten {payload : Bytes} {payloads : List Bytes}
    (h : (payload :: payloads).flatten.length ≤ s.window.toNat) :
    (BitVec.ofNat 32 payload.length : Uint32) ≤ s.window ∧
      (BitVec.ofNat 32 payload.length : Uint32).toNat = payload.length ∧
      payloads.flatten.length ≤ s.window.toNat - payload.length := by
  rw [List.flatten_cons, List.length_append] at h
  have hlt := s.window.isLt
  have hnat : (BitVec.ofNat 32 payload.length : Uint32).toNat = payload.length := by
    rw [BitVec.toNat_ofNat, Nat.mod_eq_of_lt (by omega)]
  refine ⟨?_, hnat, by omega⟩
  rw [BitVec.le_def, hnat]
  omega

/-- **Transmitting**: the next item in hand is sent, and the others can be
sent after it. -/
theorem Sendable.transmit (h : Sendable s (item :: rest)) (hwf : s.WF) (hcount : Countable s 1)
    (now : Time) : ∃ s', s.onTransmit item.seqNum item.packetType item.body
      (BitVec.ofNat 32 item.body.length) now = .ok s' ∧ Sendable s' rest := by
  have hle := hwf.length_le
  rcases h with hidx | ⟨seqNum, payloads, hitems, hnext, hne, hfit⟩ | ⟨seqNum, hitems, hfin⟩
  · obtain ⟨s', hok, hinit, hlen, -⟩ := s.onTransmit_indexed hwf hcount
      (hidx item (by simp)) item.packetType item.body (BitVec.ofNat 32 item.body.length) now
    refine ⟨s', hok, .inl fun i hi => ?_⟩
    rw [SentPackets.seqNumIndex_congr hinit, hlen]
    exact hidx i (List.mem_cons_of_mem _ hi)
  · rcases payloads with - | ⟨payload, payloads⟩
    · cases hitems
    cases hitems
    obtain ⟨hwin, hnat, hrest⟩ := le_window_of_flatten hfit
    have hempty : (BitVec.ofNat 32 payload.length : Uint32) = 0 →
        s.congestionCtrl.windowSizeBytes ≤ s.congestionCtrl.maxWindowSizeBytes := by
      intro h0
      have hz : payload.length = 0 := by
        rw [h0] at hnat
        exact hnat.symm
      exact absurd (List.length_eq_zero_iff.mp hz) (hne payload (by simp))
    have hne' : ∀ p ∈ payloads, p ≠ [] := fun p hp => hne p (List.mem_cons_of_mem _ hp)
    rcases hle.lt_or_eq with hlen | hlen
    · -- the next number gets a record
      obtain rfl := hnext hlen
      refine ⟨_, SentPackets.onTransmit_next .st_data payload now hwf hlen hwin hempty, ?_⟩
      refine .inr (.inl ⟨s.nextSeqNum + 1, payloads, rfl, fun _ => ?_, hne', ?_⟩)
      · exact (SentPackets.nextSeqNum_transmitNew).symm
      · rw [SentPackets.window_transmitNew _ _ _ hwin hempty, hnat]
        exact hrest
    · -- all numbers have a record
      obtain ⟨s', hok, hinit, hlen', hwindow⟩ := s.onTransmit_indexed hwf hcount
        (hlen ▸ s.seqNumIndex_lt seqNum) .st_data payload (BitVec.ofNat 32 payload.length) now
      refine ⟨s', hok, .inr (.inl ⟨seqNum + 1, payloads, rfl, fun hlt => ?_, hne', ?_⟩)⟩
      · omega
      · rw [hwindow]
        omega
  · cases hitems
    have hnil : ∀ s' : SentPackets, Sendable s' [] := fun s' => .inl fun i hi => by cases hi
    rcases hle.lt_or_eq with hlen | hlen
    · obtain ⟨rfl, hwin⟩ := hfin hlen
      exact ⟨_, SentPackets.onTransmit_next .st_fin [] now hwf hlen (Nat.zero_le _)
        (fun _ => hwin), hnil _⟩
    · obtain ⟨s', hok, -⟩ := s.onTransmit_indexed hwf hcount
        (hlen ▸ s.seqNumIndex_lt seqNum) .st_fin [] 0 now
      exact ⟨s', hok, hnil s'⟩

/-- A transmission counts once. -/
theorem Countable.transmit {s' : SentPackets} {n : Nat} {seqNum : Uint16}
    {packetType : PacketType} {data : Bytes} {dataLen : Uint32} {now : Time} (hwf : s.WF)
    (hcount : Countable s (n + 1)) (hn : n + 1 < 2 ^ 32)
    (hok : s.onTransmit seqNum packetType data dataLen now = .ok s') : Countable s' n := by
  intro x r' hr'
  rcases SentPackets.onTransmit_ok hwf hok with ⟨-, -, rfl⟩ | hres
  · change (s.congestionCtrl.transmissions.insert s.nextSeqNum _).get? x = some r' at hr'
    by_cases hx : x = s.nextSeqNum
    · subst hx
      rw [OrdMap.get?_insert_self] at hr'
      cases hr'
      exact ⟨Nat.one_pos, show 1 + n < _ by omega⟩
    · rw [OrdMap.get?_insert_of_ne hx] at hr'
      have := hcount x r' hr'
      omega
  · obtain ⟨r, hr, hins⟩ := hres.record
    rw [hins] at hr'
    have hold := hcount seqNum r hr
    by_cases hx : x = seqNum
    · subst hx
      rw [OrdMap.get?_insert_self] at hr'
      cases hr'
      show 0 < (r.numTransmissions + 1).toNat ∧ (r.numTransmissions + 1).toNat + n < _
      bv_omega
    · rw [OrdMap.get?_insert_of_ne hx] at hr'
      have := hcount x r' hr'
      omega

/-! ### The invariant -/

/-- How often the call may still send a packet. -/
def Midcall.reserve (m : Midcall) (e : Established) : Nat :=
  match m.hand with
  | none => e.sendBuf.unread.length + 65536
  | some items => items.length

/-- The packets that wait for their timeout have a record. -/
def Connection.Indexed (c : Connection) (p : Packet) : Prop :=
  p.header.packetType = .st_syn ∨ ∃ e, c.established = some e ∧
    e.sentPackets.seqNumIndex p.header.seqNum < e.sentPackets.packets.length

structure Midcall.Ready (m : Midcall) : Prop where
  timed : ∀ p, m.conn.Timed p → m.conn.Indexed p
  counted : ∀ e, m.conn.established = some e → Countable e.sentPackets (m.reserve e)
  hand : ∀ items, m.hand = some items → items.length < 2 ^ 32 ∧
    ∀ e, m.conn.established = some e → Sendable e.sentPackets items

/-- Enough room for an empty FIN. -/
def finFits : Guard :=
  ⟨fun _ _ => True, fun e => e.sentPackets.packets.length < 65536 →
    e.sentPackets.congestionCtrl.windowSizeBytes ≤ e.sentPackets.congestionCtrl.maxWindowSizeBytes⟩

/-- What was timed out has a record, whatever the controller does. -/
theorem SameSender.sendable {hand : Option (List Item)} {e e' : Established} {items : List Item}
    (h : SameSender hand e e') (hhand : hand = some items) (hs : Sendable e.sentPackets items) :
    Sendable e'.sentPackets items := by
  rcases h.sentPackets with heq | hnone | ⟨p, hp⟩
  · rwa [heq]
  · rw [hnone] at hhand
    cases hhand
  · obtain rfl := Option.some.inj (hp.symm.trans hhand)
    rcases hs with hidx | ⟨seqNum, payloads, hitems, -⟩ | ⟨seqNum, hitems, -⟩
    · refine .inl fun item hi => ?_
      rw [SentPackets.seqNumIndex_congr h.init, h.length]
      exact hidx item hi
    · have hext := congrArg (List.map Item.extension) hitems
      cases payloads with
      | nil => cases hext
      | cons => cases hext
    · have hext := congrArg (List.map Item.extension) hitems
      cases hext

theorem Quiet.indexed {m m' : Midcall} (h : Quiet m m') {p : Packet} (hp : m.conn.Indexed p) :
    m'.conn.Indexed p := by
  refine hp.imp_right ?_
  rintro ⟨e, he, hidx⟩
  obtain ⟨e', he', hsame⟩ := h.after he
  refine ⟨e', he', ?_⟩
  rwa [SentPackets.seqNumIndex_congr hsame.init, hsame.length]

theorem Quiet.ready {m m' : Midcall} (h : Quiet m m') (hm : m.Ready) : m'.Ready where
  timed := fun p hp => h.indexed (hm.timed p (h.timed p hp))
  counted := by
    intro e' he'
    obtain ⟨e, he, hsame⟩ := h.before he'
    have hres : m'.reserve e' = m.reserve e := by
      unfold Midcall.reserve
      rw [h.hand, hsame.sendBuf]
    rw [hres]
    exact (hm.counted e he).congr hsame.counts
  hand := by
    intro items hitems
    rw [h.hand] at hitems
    obtain ⟨hlen, hsend⟩ := hm.hand items hitems
    refine ⟨hlen, fun e' he' => ?_⟩
    obtain ⟨e, he, hsame⟩ := h.before he'
    exact hsame.sendable hitems (hsend e he)

/-! ### Settling and sending -/

theorem length_dataItems (seqNum : Uint16) (payloads : List Bytes) :
    (dataItems seqNum payloads).length = payloads.length := by
  induction payloads generalizing seqNum with
  | nil => rfl
  | cons payload payloads ih => exact congrArg Nat.succ (ih (seqNum + 1))

theorem length_le_flatten {payloads : List Bytes} (h : ∀ payload ∈ payloads, payload ≠ []) :
    payloads.length ≤ payloads.flatten.length := by
  induction payloads with
  | nil => exact le_refl 0
  | cons payload payloads ih =>
      have hpos := List.length_pos_iff.mpr (h payload (by simp))
      have hrest := ih fun p hp => h p (List.mem_cons_of_mem _ hp)
      rw [List.flatten_cons, List.length_append, List.length_cons]
      omega

/-- There are no more lost packets than numbers. -/
theorem SentPackets.size_lostPackets_le (s : SentPackets) : s.lostPackets.size ≤ 65536 := by
  have hnodup : (s.lostPackets.keys.map BitVec.toNat).Nodup :=
    s.lostPackets.nodup_keys.map fun _ _ h => BitVec.eq_of_toNat_eq h
  have hsub : s.lostPackets.keys.map BitVec.toNat ⊆ List.range 65536 := by
    intro n hn
    obtain ⟨x, -, rfl⟩ := List.mem_map.mp hn
    exact List.mem_range.mpr x.isLt
  have hle := (hnodup.subperm hsub).length_le
  rwa [List.length_map, List.length_range, OrdMap.keys, List.length_map] at hle

/-- A number with a record keeps it, and the number sent has one. -/
theorem SentPackets.index_lt_of_transmit {s' : SentPackets} (hwf : s.WF) {seqNum x : Uint16}
    {packetType : PacketType} {data : Bytes} {dataLen : Uint32} {now : Time}
    (hok : s.onTransmit seqNum packetType data dataLen now = .ok s')
    (hx : s.seqNumIndex x < s.packets.length ∨ x = seqNum) :
    s'.seqNumIndex x < s'.packets.length := by
  rcases onTransmit_ok hwf hok with ⟨hnext, hlt, rfl⟩ | hres
  · have hlen : (s.transmitNew packetType data dataLen now).packets.length
        = s.packets.length + 1 := List.length_append
    have hidx : (s.transmitNew packetType data dataLen now).seqNumIndex x = s.seqNumIndex x :=
      seqNumIndex_congr rfl x
    rw [hlen, hidx]
    rcases hx with hx | rfl
    · omega
    · rw [hnext, seqNumIndex_next _ hlt]
      omega
  · rw [seqNumIndex_congr hres.init, ← length_chunks, hres.chunks, length_chunks]
    rcases hx with hx | rfl
    · exact hx
    · exact hres.index

/-- What has an index keeps one while the records keep theirs. -/
theorem Connection.Indexed.of_connected {c c' : Connection} {e e' : Established} {p : Packet}
    (h : c.Indexed p) (hs : c.state = .connected e) (hs' : c'.state = .connected e')
    (hidx : ∀ x, e.sentPackets.seqNumIndex x < e.sentPackets.packets.length →
      e'.sentPackets.seqNumIndex x < e'.sentPackets.packets.length) : c'.Indexed p := by
  refine h.imp_right ?_
  rintro ⟨e₁, he₁, hx⟩
  obtain rfl := Option.some.inj ((established_connected hs).symm.trans he₁)
  exact ⟨e', established_connected hs', hidx _ hx⟩

theorem Connection.Indexed.of_sentPackets {c c' : Connection} {e e' : Established} {p : Packet}
    (h : c.Indexed p) (hs : c.state = .connected e) (hs' : c'.state = .connected e')
    (hsp : e'.sentPackets = e.sentPackets) : c'.Indexed p :=
  h.of_connected hs hs' fun _ hx => hsp ▸ hx

/-- Settling what to send, within the reserve. -/
theorem Midcall.Ready.settle {c c' : Connection} {e e' : Established} {items : List Item}
    {w w' : Bytes} (hm : Midcall.Ready ⟨c, none, w⟩) (hs : c.state = .connected e)
    (hs' : c'.state = .connected e') (htimed : ∀ p, c'.Timed p → c.Timed p)
    (hsp : e'.sentPackets = e.sentPackets)
    (hlen : items.length ≤ e.sendBuf.unread.length + 65536) (hlt : items.length < 2 ^ 32)
    (hsend : Sendable e.sentPackets items) : Midcall.Ready ⟨c', some items, w'⟩ where
  timed := fun p hp => (hm.timed p (htimed p hp)).of_sentPackets hs hs' hsp
  counted := by
    intro e₁ he₁
    obtain rfl := Option.some.inj ((established_connected hs').symm.trans he₁)
    rw [hsp]
    exact (hm.counted e (established_connected hs)).mono hlen
  hand := by
    rintro items₁ ⟨⟩
    refine ⟨hlt, fun e₁ he₁ => ?_⟩
    obtain rfl := Option.some.inj ((established_connected hs').symm.trans he₁)
    rw [hsp]
    exact hsend

/-- Sending the next item. -/
theorem Midcall.Ready.send {c : Connection} {e : Established} {w : Bytes} {p : Packet}
    {sp : SentPackets} {now : Time} {delay : Duration}
    (hm : Midcall.Ready ⟨c, some (item :: rest), w⟩) (hs : c.state = .connected e)
    (hwf : e.sentPackets.WF)
    (hok : e.sentPackets.onTransmit item.seqNum item.packetType item.body
      (BitVec.ofNat 32 item.body.length) now = .ok sp) (hp : Carries e.recvBuf item p) :
    Midcall.Ready ⟨({ c with
      state := .connected { e with sentPackets := sp }
      unacked := c.unacked.put item.seqNum p delay } : Connection).emit p, some rest, w⟩ := by
  have he := established_connected hs
  have hcount : Countable e.sentPackets (rest.length + 1) := hm.counted e he
  obtain ⟨hlen, hsend⟩ := hm.hand _ rfl
  obtain ⟨sp', hok', hrest⟩ := (hsend e he).transmit hwf (hcount.mono (by omega)) now
  obtain rfl : sp = sp' := Except.ok.inj (hok.symm.trans hok')
  have hidx : ∀ x, e.sentPackets.seqNumIndex x < e.sentPackets.packets.length ∨
      x = item.seqNum → sp.seqNumIndex x < sp.packets.length :=
    fun x => SentPackets.index_lt_of_transmit hwf hok
  refine ⟨?_, ?_, ?_⟩
  · intro q hq
    rcases Connection.timed_put (c := c) hq with rfl | hq
    · exact .inr ⟨_, rfl, hidx _ (.inr hp.seqNum)⟩
    · exact (hm.timed q hq).of_connected hs rfl fun x hx => hidx x (.inl hx)
  · rintro e' ⟨⟩
    exact hcount.transmit hwf hlen hok
  · rintro items ⟨⟩
    refine ⟨Nat.lt_of_succ_lt hlen, ?_⟩
    rintro e' ⟨⟩
    exact hrest

theorem SendAct.ready {m m' : Midcall} (h : SendAct finFits m m') (hsound : m.Sound)
    (hm : m.Ready) : m'.Ready := by
  cases h with
  | enqueue => exact ⟨hm.timed, hm.counted, nofun⟩
  | flush hs hf =>
      have hlen := length_le_flatten hf.nonempty
      have htaken := hf.taken
      have hwin := hf.window
      refine hm.settle hs rfl (fun _ h => h) rfl ?_ ?_
        (.inr (.inl ⟨_, _, rfl, fun _ => rfl, hf.nonempty, hwin⟩))
      · rw [length_dataItems]
        omega
      · rw [length_dataItems]
        exact (hlen.trans hwin).trans_lt (BitVec.isLt _)
  | pickLost hs hl =>
      have hwf := (hsound _ (established_connected hs)).sentPackets
      rename_i losts
      obtain ⟨losts', hlist, hlen, hrec⟩ := SentPackets.lostPacketsList_spec hwf
      obtain rfl : losts = losts' := Except.ok.inj (hl.symm.trans hlist)
      have hle : (losts.map lostItem).length ≤ 65536 := by
        rw [List.length_map, hlen]
        exact SentPackets.size_lostPackets_le _
      refine hm.settle hs hs (fun _ h => h) rfl ?_ ?_ (.inl ?_)
      · exact hle.trans (Nat.le_add_left _ _)
      · exact hle.trans_lt (by decide)
      · intro item hi
        obtain ⟨lost, hlost, rfl⟩ := List.mem_map.mp hi
        obtain ⟨p, hp, -⟩ := hrec lost hlost
        exact (List.getElem?_eq_some_iff.mp hp).1
  | pickExpired hs ht hsyn =>
      refine hm.settle hs hs (fun _ h => h) rfl ?_ ?_ (.inl ?_)
      · exact Nat.le_add_left_of_le (Nat.le_of_ble_eq_true rfl)
      · exact Nat.one_lt_two_pow (by decide)
      · intro item hi
        obtain rfl := List.mem_singleton.mp hi
        obtain ⟨e₁, he₁, hidx⟩ := (hm.timed _ ht).resolve_left hsyn
        obtain rfl := Option.some.inj ((established_connected hs).symm.trans he₁)
        exact hidx
  | pickFin hs _ _ _ hg =>
      refine hm.settle hs rfl (fun _ h => h) rfl ?_ ?_
        (.inr (.inr ⟨_, rfl, fun hlt => ⟨rfl, hg hlt⟩⟩))
      · exact Nat.le_add_left_of_le (Nat.le_of_ble_eq_true rfl)
      · exact Nat.one_lt_two_pow (by decide)
  | send hs hok hp =>
      exact hm.send hs (hsound _ (established_connected hs)).sentPackets hok hp

theorem Opens.ready {m m' : Midcall} (h : Opens m m') (hm : m.Ready) : m'.Ready := by
  obtain ⟨recvInit, hc⟩ := h.after
  refine ⟨?_, ?_, ?_⟩
  · intro p hp
    rw [hc] at hp
    refine .inl ((hm.timed p hp).resolve_right ?_)
    rintro ⟨e, he, -⟩
    rw [Connection.established, h.before] at he
    cases he
  · intro e he x r hr
    rw [hc] at he
    cases he
    cases hr
  · intro items hitems
    rw [h.hand'] at hitems
    cases hitems

theorem Act.ready [Float64] {packet? : Option Packet} {m m' : Midcall}
    (h : Act packet? finFits m m') (hsound : m.Sound) (hm : m.Ready) : m'.Ready := by
  rcases h.quiet hsound with hq | hsend | hopen
  · exact hq.ready hm
  · exact hsend.ready hsound hm
  · exact hopen.ready hm

/-! ### Closed connections send nothing -/

theorem Closes.closed {packet? : Option Packet} {c : Connection} {st : ConnState}
    (h : Closes packet? c st) : ∃ e err, st = .closed e err := by
  cases h with
  | invalidAck | invalidSyn | synFromAcceptor | emptyData | invalidFin | reset =>
      exact c.reset_closed _
  | invalidSeqNum | timedOut | shutdown | localFin | remoteFin | bothFins => exact ⟨_, _, rfl⟩

/-- The connection is closed. -/
def Connection.Closed (c : Connection) : Prop := ∃ e err, c.state = .closed e err

theorem Connection.Closed.not_connected {c : Connection} (h : c.Closed) {e : Established}
    (hs : c.state = .connected e) : False := by
  obtain ⟨e', err, hc⟩ := h
  cases hc.symm.trans hs

theorem Act.stays_closed [Float64] {packet? : Option Packet} {guard : Guard} {m m' : Midcall}
    (h : Act packet? guard m m') (hm : m.conn.Closed) : m'.conn.Closed := by
  cases h with
  | sends h =>
      cases h with
      | enqueue | pickLost | pickExpired => exact hm
      | flush hs | pickFin hs | send hs => exact (hm.not_connected hs).elim
  | book h =>
      obtain ⟨e, err, hc⟩ := hm
      exact ⟨e, err, h.state.trans hc⟩
  | emitState | emitReset | emitSyn | endOfStream | closedRead => exact hm
  | backOff hs | beginClosing hs | recvData _ _ hs | recvFin _ _ hs | readOut _ hs
  | acked _ _ hs => exact (hm.not_connected hs).elim
  | close _ h => exact h.closed
  | establish _ _ hs =>
      obtain ⟨e, err, hc⟩ := hm
      cases hc.symm.trans hs

/-! ### Runs -/

namespace Connection

/-- The condition on a step: there is room for the FIN, if it sends one, and
no packet was sent so often that the step could bring its counter round. -/
structure Clear (c : Connection) (ev : Event) : Prop where
  fin : ev.Guarded finFits c
  counts : ∀ e, c.state = .connected e → ∀ x r,
    e.sentPackets.congestionCtrl.transmissions.get? x = some r →
      r.numTransmissions.toNat + (e.sendBuf.unread.length + 65536) < 2 ^ 32

/-- Between two steps: closed, or timed packets have records, each sent at
least once. -/
def Idle (c : Connection) : Prop :=
  c.Closed ∨ (∀ p, c.Timed p → c.Indexed p) ∧
    ∀ e, c.established = some e → Countable e.sentPackets 0

theorem Idle.ready {c : Connection} {ev : Event} (h : c.Idle) (hclear : Clear c ev)
    (hopen : ¬ c.Closed) (w : Bytes) : Midcall.Ready ⟨c, none, w⟩ := by
  obtain ⟨htimed, hpos⟩ := h.resolve_left hopen
  refine ⟨htimed, ?_, nofun⟩
  intro e he x r hr
  have hs : c.state = .connected e := by
    unfold established at he
    rcases hc : c.state with - | e₁ | ⟨e₁, err⟩
    · rw [hc] at he
      cases he
    · rw [hc] at he
      cases he
      rfl
    · exact absurd ⟨e₁, err, hc⟩ hopen
  exact ⟨(hpos e he x r hr).1, hclear.counts e hs x r hr⟩

theorem idle_start (cid : ConnectionId) (config : ConnectionConfig) (syn : Option Packet)
    (rnd : Uint16) (now t₀ : Time) : ((newConnection cid config syn rnd now).start t₀).Idle := by
  refine .inr ⟨fun p hp => .inl (timed_start hp).1, ?_⟩
  · intro e he x r hr
    cases syn with
    | none => cases he
    | some syn =>
        cases he
        cases hr

variable [Float64]

omit [Float64] in
/-- An item in hand is never refused. -/
theorem not_fails_of_ready {m : Midcall} (hsound : m.Sound) (hm : m.Ready)
    {v : TransmitPanic} : ¬ Fails m (.raised v) := by
  rintro (hne | ⟨e, item, rest, now, hs, hhand, herr⟩)
  · exact hne v rfl
  · have he := established_connected hs
    obtain ⟨-, hsend⟩ := hm.hand _ hhand
    have hcount := hm.counted e he
    rw [Midcall.reserve, hhand] at hcount
    obtain ⟨sp, hok, -⟩ := (hsend e he).transmit (hsound e he).sentPackets
      (hcount.mono (Nat.succ_le_of_lt (Nat.succ_pos _))) now
    cases hok.symm.trans herr

/-- One step: it does not panic in a transmission, and what it leaves is idle
again. -/
theorem step_transmits {c : Connection} {ev : Event} {w : Bytes}
    (hsound : Midcall.Sound ⟨c, none, w⟩) (hidle : c.Idle) (hclear : Clear c ev) :
    (∀ v, c.step ev ≠ .error (.raised v)) ∧ ∀ c', c.step ev = .ok c' →
      c'.Idle ∧ Midcall.Sound ⟨c', none, w⟩ := by
  have hplays := step_plays ev hsound hclear.fin
  by_cases hopen : c.Closed
  · have hinv : ∀ m', Relation.ReflTransGen (Act ev.packet? finFits) ⟨c, none, w⟩ m' →
        m'.Sound ∧ m'.conn.Closed := fun m' => reach_inv
      (I := fun m : Midcall => m.Sound ∧ m.conn.Closed)
      (fun _ _ hact hI => ⟨hact.sound hI.1, hact.stays_closed hI.2⟩) ⟨hsound, hopen⟩
    refine ⟨fun v herr => ?_, fun c' hok => ?_⟩
    · obtain ⟨m', hreach, hne | ⟨e, item, rest, now, hs, -⟩⟩ := hplays.error _ herr
      · exact hne v rfl
      · exact (hinv m' hreach).2.not_connected hs
    · obtain ⟨m', hreach, rfl, -⟩ := hplays.ok c' hok
      exact ⟨.inl (hinv m' hreach).2, (hinv m' hreach).1⟩
  · have hinv : ∀ m', Relation.ReflTransGen (Act ev.packet? finFits) ⟨c, none, w⟩ m' →
        m'.Sound ∧ m'.Ready := fun m' => reach_inv (I := fun m : Midcall => m.Sound ∧ m.Ready)
      (fun _ _ hact hI => ⟨hact.sound hI.1, hact.ready hI.1 hI.2⟩)
      ⟨hsound, hidle.ready hclear hopen w⟩
    refine ⟨fun v herr => ?_, fun c' hok => ?_⟩
    · obtain ⟨m', hreach, hfail⟩ := hplays.error _ herr
      exact not_fails_of_ready (hinv m' hreach).1 (hinv m' hreach).2 hfail
    · obtain ⟨m', hreach, rfl, -⟩ := hplays.ok c' hok
      obtain ⟨hsound', hready⟩ := hinv m' hreach
      exact ⟨.inr ⟨hready.timed, fun e he => (hready.counted e he).mono (Nat.zero_le _)⟩, hsound'⟩

theorem run_idle {c : Connection} {events : List Event} {w : Bytes}
    (hsound : Midcall.Sound ⟨c, none, w⟩) (hidle : c.Idle) (hclear : Along Clear c events) :
    (∀ v, c.run events ≠ .error (.raised v)) ∧ ∀ c', c.run events = .ok c' →
      Midcall.Sound ⟨c', none, w⟩ := by
  induction events generalizing c with
  | nil =>
      refine ⟨fun v herr => absurd herr pure_ne_error, fun c' hok => ?_⟩
      exact pure_eq_ok.mp hok ▸ hsound
  | cons ev events ih =>
      obtain ⟨hno, hnext⟩ := step_transmits hsound hidle hclear.1
      simp only [run, List.foldlM_cons]
      refine ⟨fun v herr => ?_, fun c' hok => ?_⟩
      · rcases bind_eq_error.mp herr with herr | ⟨c₁, hstep, herr⟩
        · exact hno v herr
        · obtain ⟨hidle₁, hsound₁⟩ := hnext c₁ hstep
          exact (ih hsound₁ hidle₁ (hclear.2 c₁ hstep)).1 v herr
      · obtain ⟨c₁, hstep, hrun⟩ := bind_eq_ok.mp hok
        obtain ⟨hidle₁, hsound₁⟩ := hnext c₁ hstep
        exact (ih hsound₁ hidle₁ (hclear.2 c₁ hstep)).2 c' hrun

/-- **Transmitting never panics**, unless a FIN meets a window that has
shrunk below the bytes in flight, or a counter comes round: a run that stays
clear of both does not end in the panic of a transmission.  And in its states
the controller accepts a packet of the next number that fits the window
exactly when it is not empty or the window has not shrunk. -/
theorem run_transmits (cid : ConnectionId) (config : ConnectionConfig) (syn : Option Packet)
    (rnd : Uint16) (now t₀ : Time) (events : List Event)
    (hclear : Along Clear ((newConnection cid config syn rnd now).start t₀) events) :
    (∀ v, ((newConnection cid config syn rnd now).start t₀).run events ≠ .error (.raised v)) ∧
    ∀ c e, ((newConnection cid config syn rnd now).start t₀).run events = .ok c →
      c.state = .connected e → e.sentPackets.packets.length < 65536 →
      ∀ dataLen ≤ e.sentPackets.window,
        (e.sentPackets.congestionCtrl.onTransmit e.sentPackets.nextSeqNum .initial dataLen).2 = none
          ↔ (dataLen = 0 → e.sentPackets.congestionCtrl.windowSizeBytes
              ≤ e.sentPackets.congestionCtrl.maxWindowSizeBytes) := by
  obtain ⟨hno, hsound⟩ := run_idle (sound_start cid config syn rnd now t₀ [])
    (idle_start cid config syn rnd now t₀) hclear
  refine ⟨hno, fun c e hrun hs hlen dataLen hfit => ?_⟩
  have hwf := (hsound c hrun e (established_connected hs)).sentPackets
  have hnew := hwf.next_unrecorded hlen
  constructor
  · rintro hnone rfl
    by_contra hover
    rw [DefaultController.onTransmit_initial_error hnew (by simpa using hover)] at hnone
    cases hnone
  · intro hempty
    rw [DefaultController.onTransmit_initial hnew
      (DefaultController.fits_of_le_available hfit hempty).1]

/-! ### A FIN after a timeout -/

omit [Float64] in
/-- The FIN is the first packet, and an empty packet could follow it. -/
theorem run_transmits_fin : ∃ c e, @run exactFloat64 sampleAcceptor [.shutdown 0] = .ok c ∧
    c.state = .connected e ∧
    (∀ v, @run exactFloat64 sampleAcceptor [.shutdown 0] ≠ .error (.raised v)) ∧
    (e.sentPackets.congestionCtrl.onTransmit e.sentPackets.nextSeqNum .initial 0).2 = none := by
  have hrun : ∃ c e, @run exactFloat64 sampleAcceptor [.shutdown 0] = .ok c ∧
      c.state = .connected e ∧ e.sentPackets.packets.length = 1 ∧
      e.sentPackets.congestionCtrl.windowSizeBytes
        ≤ e.sentPackets.congestionCtrl.maxWindowSizeBytes :=
    ⟨_, _, rfl, rfl, rfl, by decide⟩
  let := exactFloat64
  have hclear : Along Clear sampleAcceptor [.shutdown 0] := by
    refine ⟨⟨⟨fun _ _ _ _ _ _ _ _ => trivial, ?_⟩, ?_⟩, fun _ _ => trivial⟩
    · rintro now e - ⟨⟩ - - - -
      decide
    · rintro e ⟨⟩ x r hr
      cases hr
  obtain ⟨c, e, hrun, hs, hlen, hwindow⟩ := hrun
  obtain ⟨hno, haccepts⟩ := run_transmits _ _ _ _ _ _ [.shutdown 0] hclear
  refine ⟨c, e, hrun, hs, hno, ?_⟩
  exact (haccepts c e hrun hs (by omega) 0 (by bv_omega)).mpr fun _ => hwindow

/-- An acceptor that sends packets of up to 136 bytes, with a window of 400
bytes at first. -/
def windowAcceptor : Connection :=
  (newConnection ⟨2, 1⟩ { newConnectionConfig with maxPacketSize := 200, bufferSize := 512 }
    (some (newPacketBuilder .st_syn 1 0 1000 100).build) 5 0).start 0

/-- One of the three packets of a write of 408 bytes. -/
def windowData (seqNum : Uint16) : Packet :=
  ((newPacketBuilder .st_data 2 0 512 seqNum).withPayload (List.replicate 136 0)
    |>.withAckNum 100).build

omit [Float64] in
/-- The acknowledgement of a first packet without delay widens the window, a
write of 408 bytes uses it, and a timeout cuts it back to 400: the FIN is
refused, and the connection panics. -/
theorem fin_panics : @run exactFloat64 windowAcceptor
      [.onWrite [0] 0 0, .processWrites 0,
        .onPacket ((newPacketBuilder .st_state 1 0 1000 101).withAckNum 5).build 0 0,
        .onWrite (List.replicate 408 0) 0 0, .processWrites 0,
        .tick [(6, windowData 6), (7, windowData 7), (8, windowData 8)], .onTimeout 2000000000,
        .shutdown 2000000000]
    = .error (.raised (.controller .errInsufficientWindowSize)) :=
  panic?_eq_some.mp (by decide +kernel)

end Connection

end UtpGo
