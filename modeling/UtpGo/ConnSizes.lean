/-
UtpGo/ConnSizes.lean

The DATA packets of a connection: how much of the window `processWrites` uses,
and how large the packets become.

`processWrites` cuts the bytes of the send buffer into payloads until the
window is used up or a read returns nothing.  A read returns nothing also when
the next slice is empty, which an empty write leaves in the buffer: what comes
after it waits, whatever the window (`run_flushes`, `empty_write_stops`).

A payload leaves 64 bytes of the packet size free.  They have to hold the
header of 20 bytes and the selective acknowledgement, which takes 2 bytes and
4 for every 32 numbers that the pending packets reach ahead.  So a full packet
fits as long as they reach no further than 320 numbers (`run_data_fits`,
`data_oversized`).  A packet that is sent again has a new selective
acknowledgement and the body it had.
-/
import UtpGo.ConnEffects

namespace UtpGo

open Checked Relation

namespace Connection

variable {c c' c₀ c₁ : Connection} {e e₀ : Established} {p : Packet} {now : Time}

/-! ### What is emitted -/

/-- The packets of payloads under consecutive numbers. -/
def dataPackets (c : Connection) (e : Established) (now : Time) :
    List Bytes → Uint16 → List Packet
  | [], _ => []
  | payload :: payloads, seqNum =>
      c.dataPacket e seqNum payload now :: dataPackets c e now payloads (seqNum + 1)

theorem bodies_dataPackets (payloads : List Bytes) (seqNum : Uint16) :
    (c.dataPackets e now payloads seqNum).map (·.body) = payloads := by
  induction payloads generalizing seqNum with
  | nil => rfl
  | cons payload payloads ih => exact congrArg (payload :: ·) (ih (seqNum + 1))

theorem mem_dataPackets {payloads : List Bytes} {seqNum : Uint16}
    (hp : p ∈ c.dataPackets e now payloads seqNum) :
    p.header.packetType = .st_data ∧ p.eack = e.recvBuf.selectiveAck ∧ p.body ∈ payloads := by
  induction payloads generalizing seqNum with
  | nil => cases hp
  | cons payload payloads ih =>
      rcases List.mem_cons.mp hp with rfl | hp
      · exact ⟨rfl, rfl, List.mem_cons_self⟩
      · obtain ⟨ht, heack, hbody⟩ := ih hp
        exact ⟨ht, heack, List.mem_cons_of_mem _ hbody⟩

theorem seqNums_dataPackets (payloads : List Bytes) (seqNum : Uint16) :
    (c.dataPackets e now payloads seqNum).map (·.header.seqNum)
      = (List.range payloads.length).map fun k => seqNum + BitVec.ofNat 16 k := by
  induction payloads generalizing seqNum with
  | nil => rfl
  | cons payload payloads ih =>
      rw [List.length_cons, List.range_succ_eq_map, List.map_cons, List.map_map]
      show seqNum :: _ = _
      rw [ih]
      congr 1
      · simp
      · apply List.map_congr_left
        intro k _
        show _ = seqNum + BitVec.ofNat 16 (k + 1)
        bv_omega

/-- Only the ids and the delay of the connection are put on them. -/
theorem dataPackets_congr (hcid : c₁.cid = c.cid) (hdiff : c₁.peerTsDiff = c.peerTsDiff)
    (payloads : List Bytes) (seqNum : Uint16) :
    c₁.dataPackets e now payloads seqNum = c.dataPackets e now payloads seqNum := by
  have hsame : ∀ s payload, c₁.dataPacket e s payload now = c.dataPacket e s payload now := by
    intro s payload
    rw [dataPacket, dataPacket, tsDiffMicros, tsDiffMicros, hcid, hdiff]
  induction payloads generalizing seqNum with
  | nil => rfl
  | cons payload payloads ih => rw [dataPackets, dataPackets, hsame, ih]

theorem socketEvents_transmitPayloads {payloads : List Bytes} {seqNum : Uint16}
    (hok : transmitPayloads e now payloads seqNum c = .ok c') :
    c'.socketEvents = c.socketEvents ++ (c.dataPackets e now payloads seqNum).map .outgoing := by
  induction payloads generalizing seqNum c with
  | nil =>
      obtain rfl := pure_eq_ok.mp hok
      exact (List.append_nil _).symm
  | cons payload payloads ih =>
      obtain ⟨c₁, htransmit, hok⟩ := bind_eq_ok.mp hok
      obtain ⟨e₁, sp, -, -, hc₁⟩ := transmit_ok htransmit
      have hcid : c₁.cid = c.cid := by rw [hc₁]; rfl
      have hdiff : c₁.peerTsDiff = c.peerTsDiff := by rw [hc₁]; rfl
      rw [ih hok, transmit_emits htransmit, dataPackets_congr hcid hdiff, List.append_assoc]
      rfl

theorem socketEvents_transmitLost {losts : List LostPacket}
    (hok : transmitLost e now losts c = .ok c') : c'.socketEvents
      = c.socketEvents ++ (losts.map fun lost => c.lostPacket e lost now).map .outgoing := by
  induction losts generalizing c with
  | nil =>
      obtain rfl := pure_eq_ok.mp hok
      exact (List.append_nil _).symm
  | cons lost losts ih =>
      obtain ⟨c₁, htransmit, hok⟩ := bind_eq_ok.mp hok
      have hsame : ∀ l, c₁.lostPacket e l now = c.lostPacket e l now := by
        obtain ⟨e₁, sp, -, -, rfl⟩ := transmit_ok htransmit
        exact fun _ => rfl
      rw [ih hok, transmit_emits htransmit, List.append_assoc]
      simp only [hsame]
      rfl

theorem mem_of_emits {packets : List Packet}
    (hsent : c'.socketEvents = c.socketEvents ++ packets.map .outgoing) (hp : c.Emits c' p) :
    p ∈ packets := by
  obtain ⟨new, hnew, hmem⟩ := hp
  obtain rfl := List.append_cancel_left (hnew.symm.trans hsent)
  obtain ⟨q, hq, heq⟩ := List.mem_map.mp hmem
  cases heq
  exact hq

theorem not_emits (hsame : c'.socketEvents = c.socketEvents) : ¬ c.Emits c' p := by
  rintro ⟨new, hnew, hmem⟩
  have hnil : new = [] := by
    rw [hsame] at hnew
    exact List.self_eq_append_right.mp hnew
  rw [hnil] at hmem
  cases hmem

/-- A timeout sends the packet again, unless it is that of a SYN. -/
theorem onTimeout_emits {origin : Packet} (hs : c.state = .connected e)
    (hok : c.onTimeout origin now = .ok c') : c'.socketEvents = c.socketEvents ∨
      c'.socketEvents
        = c.socketEvents ++ [.outgoing (c.retransmissionPacket e origin now)] := by
  rw [onTimeout, hs] at hok
  dsimp only at hok
  split at hok
  · obtain rfl := pure_eq_ok.mp hok
    exact .inl rfl
  · have hevents : (c.noteTimeout e now).socketEvents = c.socketEvents := by
      rcases c.noteTimeout_cases e now with h | h <;> rw [h]
    right
    rw [transmit_emits hok, hevents]

/-! ### The window -/

/-- With fuel for all its bytes the loop takes what is held before the first
empty slice, as far as the window reaches. -/
theorem flatten_readPayloads {maxData windowSize : Uint32} {fuel : Nat} {sb sb' : SendBuffer}
    {payloads : List Bytes} (hmax : maxData ≠ 0) (hwf : sb.WF) (hfuel : sb.front.length < fuel)
    (hok : readPayloads maxData fuel windowSize sb = .ok (payloads, sb')) :
    payloads.flatten = sb.front.take windowSize.toNat := by
  induction fuel generalizing windowSize sb payloads with
  | zero => exact absurd hfuel (Nat.not_lt_zero _)
  | succ fuel ih =>
      unfold readPayloads at hok
      split at hok
      swap
      · rename_i hzero
        cases hok
        have hw : windowSize.toNat = 0 := by bv_omega
        rw [hw]
        rfl
      rename_i hpos
      have hask : (min windowSize maxData).toNat ≠ 0 := by
        rcases min_choice windowSize maxData with h | h <;> rw [h] <;> bv_omega
      obtain ⟨data, sb₁, hread, hdid⟩ := SendBuffer.read_spec hwf (min windowSize maxData).toNat
      dsimp only at hok
      rw [hread, ok_bind] at hok
      dsimp only at hok
      have hle : data.length ≤ windowSize.toNat := by
        have hmin : min windowSize maxData ≤ windowSize := min_le_left _ _
        exact hdid.length.trans hmin
      split at hok
      · rename_i hz
        cases hok
        rcases SendBuffer.read_front hwf hask hread with ⟨-, hfront⟩ | ⟨hne, -⟩
        · rw [hfront, List.take_nil]
          rfl
        · exact absurd (List.length_eq_zero_iff.mp hz) hne
      · rename_i hz
        obtain ⟨⟨rest, sb₂⟩, hrest, hok⟩ := bind_eq_ok.mp hok
        cases hok
        obtain ⟨-, hfront⟩ := (SendBuffer.read_front hwf hask hread).resolve_left
          fun h => hz (by rw [h.1]; rfl)
        have hless : sb₁.front.length < fuel := by
          rw [hfront, List.length_append] at hfuel
          omega
        have hsub : (windowSize - BitVec.ofNat 32 data.length).toNat
            = windowSize.toNat - data.length := by
          have := windowSize.isLt
          bv_omega
        rw [List.flatten_cons, ih hdid.wf hless hrest, hsub, hfront, List.take_append,
          List.take_of_length_le hle]

/-- A front of the stream is the one asked for when it is long enough. -/
theorem take_front_eq_iff {sb : SendBuffer} (hwf : sb.WF) (w : Nat) :
    sb.front.take w = sb.unread.take (min w sb.unread.length) ↔
      min w sb.unread.length ≤ sb.front.length := by
  obtain ⟨rest, hrest⟩ := SendBuffer.front_prefix hwf
  have hlen : sb.unread.length = sb.front.length + rest.length := by
    rw [← hrest, List.length_append]
  constructor
  · intro h
    have := congrArg List.length h
    rw [List.length_take, List.length_take] at this
    omega
  · intro h
    have hmin : min w sb.unread.length = min w sb.front.length := by omega
    rw [hmin, ← hrest, List.take_append_of_le_length (min_le_right _ _), List.take_eq_take_min]

theorem maxPayload_eq {config : ConnectionConfig} (h : 64 < config.maxPacketSize.toNat) :
    maxPayload config = config.maxPacketSize.toNat - 64 := by
  unfold maxPayload
  bv_omega

/-- What `processWrites` emits. -/
theorem processWrites_emits (hs : c.state = .connected e) (hwf : e.sendBuf.WF)
    (hmax : 64 < c.config.maxPacketSize.toNat) (hok : c.processWrites now = .ok c') :
    ∃ payloads sb, c'.socketEvents = c.socketEvents ++ (c.dataPackets { e with sendBuf := sb } now
        payloads e.sentPackets.nextSeqNum).map .outgoing ∧
      (∀ payload ∈ payloads, payload ≠ [] ∧ payload.length ≤ maxPayload c.config) ∧
      payloads.flatten = e.sendBuf.front.take
        (min e.sentPackets.window c.peerRecvWindow).toNat := by
  rw [processWrites, hs] at hok
  dsimp only at hok
  obtain ⟨⟨payloads, sb⟩, hread, hok⟩ := bind_eq_ok.mp hok
  obtain ⟨r, -, hok⟩ := bind_eq_ok.mp hok
  obtain ⟨payloads₁, sb₁, hread₁, hne, -⟩ := readPayloads_spec
    ((c.config.maxPacketSize - 64).setWidth 32) (e.sendBuf.unread.length + 1)
    (min e.sentPackets.window c.peerRecvWindow) hwf
  cases hread.symm.trans hread₁
  refine ⟨payloads, r.sendBuf, ?_, fun payload hp => ⟨hne payload hp, ?_⟩, ?_⟩
  · let c₁ : Connection := { c with
      state := .connected { e with sendBuf := r.sendBuf }
      pendingWrites := r.pendingWrites
      results := r.results
      writable := r.writable }
    have hsame : c₁.dataPackets { e with sendBuf := r.sendBuf } now payloads
        e.sentPackets.nextSeqNum = c.dataPackets { e with sendBuf := r.sendBuf } now payloads
          e.sentPackets.nextSeqNum := by
      apply dataPackets_congr
      · rfl
      · rfl
    rw [← hsame]
    exact socketEvents_transmitPayloads (c := c₁) hok
  · exact length_of_readPayloads hread hp
  · refine flatten_readPayloads ?_ hwf ?_ hread
    · bv_omega
    · have := (SendBuffer.front_prefix hwf).length_le
      omega

variable [Float64]

/-- **`processWrites` and the window.**  In every connected state a run leads
to, the packets that `processWrites` emits are DATA packets under consecutive
numbers, none of them empty or longer than the packet size allows.  Their
bodies are all the unread bytes that the window has room for exactly when so
many bytes are held before the first empty slice. -/
theorem run_flushes (cid : ConnectionId) (config : ConnectionConfig) (syn : Option Packet)
    (rnd : Uint16) (now t₀ t : Time) {events : List Event}
    (hrun : ((newConnection cid config syn rnd now).start t₀).run events = .ok c)
    (hs : c.state = .connected e) (hmax : 64 < c.config.maxPacketSize.toNat)
    (hok : c.processWrites t = .ok c') :
    ∃ packets : List Packet, c'.socketEvents = c.socketEvents ++ packets.map .outgoing ∧
      (∀ p ∈ packets, p.header.packetType = .st_data ∧ p.body ≠ [] ∧
        p.body.length ≤ c.config.maxPacketSize.toNat - 64) ∧
      packets.map (·.header.seqNum) = (List.range packets.length).map
        (fun k => e.sentPackets.nextSeqNum + BitVec.ofNat 16 k) ∧
      ((packets.map (·.body)).flatten = e.sendBuf.unread.take
          (min (min e.sentPackets.window c.peerRecvWindow).toNat e.sendBuf.unread.length) ↔
        min (min e.sentPackets.window c.peerRecvWindow).toNat e.sendBuf.unread.length
          ≤ e.sendBuf.front.length) := by
  obtain ⟨w, hsound, -⟩ := run_inv (I := fun _ => True) (fun _ _ _ _ _ _ => trivial)
    (fun _ _ _ _ _ => trivial) (along_unguarded _ events) (sound_start cid config syn rnd now t₀ [])
    trivial hrun
  have hwf : e.sendBuf.WF := (hsound e (established_connected hs)).sendBuf
  obtain ⟨payloads, sb, hsent, hpayloads, hflatten⟩ := processWrites_emits hs hwf hmax hok
  refine ⟨_, hsent, fun p hp => ?_, ?_, ?_⟩
  · obtain ⟨ht, -, hbody⟩ := mem_dataPackets hp
    obtain ⟨hne, hlen⟩ := hpayloads p.body hbody
    exact ⟨ht, hne, maxPayload_eq hmax ▸ hlen⟩
  · have hlength : (c.dataPackets { e with sendBuf := sb } t payloads
        e.sentPackets.nextSeqNum).length = payloads.length := by
      rw [← List.length_map (f := (·.body)), bodies_dataPackets]
    rw [seqNums_dataPackets, hlength]
  · rw [bodies_dataPackets, hflatten]
    exact take_front_eq_iff hwf _

omit [Float64] in
/-- A byte is written and then sent. -/
theorem run_flushes_byte : ∃ (c : Connection) (e : Established) (c' : Connection)
      (packets : List Packet),
    @run exactFloat64 sampleAcceptor [.onWrite [7] 0 0] = .ok c ∧ c.state = .connected e ∧
    c.processWrites 0 = .ok c' ∧
    c'.socketEvents = c.socketEvents ++ packets.map .outgoing ∧
    (packets.map (·.body)).flatten = e.sendBuf.unread.take
      (min (min e.sentPackets.window c.peerRecvWindow).toNat e.sendBuf.unread.length) := by
  have hrun : ∃ c e c', @run exactFloat64 sampleAcceptor [.onWrite [7] 0 0] = .ok c ∧
      c.state = .connected e ∧ c.processWrites 0 = .ok c' ∧ 64 < c.config.maxPacketSize.toNat ∧
      min (min e.sentPackets.window c.peerRecvWindow).toNat e.sendBuf.unread.length
        ≤ e.sendBuf.front.length :=
    ⟨_, _, _, rfl, rfl, rfl, by decide, by decide⟩
  let := exactFloat64
  obtain ⟨c, e, c', hrun, hs, hok, hmax, hfront⟩ := hrun
  obtain ⟨packets, hsent, -, -, hiff⟩ := run_flushes _ _ _ _ _ _ 0 hrun hs hmax hok
  exact ⟨c, e, c', packets, hrun, hs, hok, hsent, hiff.mpr hfront⟩

/-- An acceptor whose peer has no room at first. -/
def fullPeerAcceptor : Connection :=
  (newConnection ⟨2, 1⟩ { newConnectionConfig with bufferSize := 16 }
    (some (newPacketBuilder .st_syn 1 0 0 100).build) 5 0).start 0

omit [Float64] in
/-- A byte, nothing and another byte are written while the peer has no room,
and then it has.  Only the first byte is sent. -/
theorem empty_write_stops : ∃ c e c' p, @run exactFloat64 fullPeerAcceptor
      [.onWrite [1] 0 0, .onWrite [] 1 0, .onWrite [2] 2 0,
        .onPacket ((newPacketBuilder .st_state 1 0 1000 101).withAckNum 4).build 0 0] = .ok c ∧
    c.state = .connected e ∧ 64 < c.config.maxPacketSize.toNat ∧ e.sendBuf.unread = [1, 2] ∧
    min e.sentPackets.window c.peerRecvWindow = 1000 ∧ c.processWrites 0 = .ok c' ∧
    c'.socketEvents = c.socketEvents ++ [.outgoing p] ∧ p.body = [1] :=
  ⟨_, _, _, _, rfl, rfl, by decide, rfl, by decide, rfl, rfl, rfl⟩

/-! ### What is timed or recorded -/

/-- No packet that waits for its timeout, and none that is recorded, has more
than a payload. -/
structure Bounded (c : Connection) : Prop where
  timed : ∀ p, c.Timed p → p.body.length ≤ maxPayload c.config
  records : ∀ e, c.established = some e → e.sentPackets.WF ∧
    ∀ chunk ∈ e.sentPackets.chunks, chunk.2.length ≤ maxPayload c.config

omit [Float64] in
theorem Bounded.of_side (hb : c.Bounded) (h : SameSide c c')
    (hrecords : ∀ e, c'.established = some e → e.sentPackets.WF ∧
      ∀ chunk ∈ e.sentPackets.chunks, chunk.2.length ≤ maxPayload c.config) : c'.Bounded := by
  refine ⟨fun p hp => ?_, fun e he => ?_⟩
  · rw [Timed, h.unackTimeoutCh, h.unacked] at hp
    rw [h.config]
    exact hb.timed p hp
  · rw [h.config]
    exact hrecords e he

omit [Float64] in
theorem Made.bounded {origin? : Option Packet} {fin : Prop} (h : Made origin? fin c e p)
    (hs : c.state = .connected e) (hb : c.Bounded)
    (horigin : ∀ q, origin? = some q → q.body.length ≤ maxPayload c.config) :
    p.body.length ≤ maxPayload c.config := by
  cases h with
  | data hlen => exact hlen
  | lost hrec => exact (hb.records e (established_connected hs)).2 _ hrec
  | again hq =>
      rename_i origin _ _
      exact horigin origin hq
  | fin => exact Nat.zero_le _

omit [Float64] in
/-- **One effect** keeps the bound. -/
theorem Effect.bounded {origin? : Option Packet} {fin : Prop} (h : Effect origin? fin c c')
    (hb : c.Bounded) (horigin : ∀ q, origin? = some q → q.body.length ≤ maxPayload c.config) :
    c'.Bounded ∧ c'.config = c.config := by
  cases h with
  | book h hch hstate =>
      refine ⟨hb.of_side h fun e he => hb.records e ?_, h.config⟩
      rwa [established, hstate] at he
  | buffers h _ _ _ _ hrecords =>
      refine ⟨hb.of_side h fun e' he' => ?_, h.config⟩
      obtain ⟨e, he, hsame⟩ := hrecords e' he'
      obtain ⟨hwf, hlen⟩ := hb.records e he
      obtain ⟨hwf', hchunks⟩ := hsame hwf
      exact ⟨hwf', by rw [hchunks]; exact hlen⟩
  | leave h _ hnew =>
      refine ⟨hb.of_side h fun e he => ?_, h.config⟩
      obtain ⟨hwf, hchunks⟩ := hnew e he
      exact ⟨hwf, by rw [hchunks]; exact fun _ hchunk => absurd hchunk List.not_mem_nil⟩
  | emitState | emitReset | emitSyn => exact ⟨⟨hb.timed, hb.records⟩, rfl⟩
  | putAgain hq hput =>
      refine ⟨⟨fun q ht => ?_, hb.records⟩, rfl⟩
      rcases timed_putSigned hput ht with rfl | ht
      · exact horigin _ hq
      · exact hb.timed q ht
  | transmit hs hp hok =>
      have hlen := hp.bounded hs hb horigin
      obtain ⟨e₁, sp, hs₁, hsp, rfl⟩ := transmit_ok hok
      refine ⟨⟨fun q ht => ?_, ?_⟩, rfl⟩
      · rcases timed_put (c := c) ht with rfl | ht
        · exact hlen
        · exact hb.timed q ht
      · -- a new record is that of the packet
        rintro e' ⟨⟩
        obtain ⟨hwf, hold⟩ := hb.records e₁ (established_connected hs₁)
        exact ⟨hwf.of_transmit hsp, SentPackets.forall_chunks_of_transmit hwf hold hlen hsp⟩
  | clear shouldRemove keys =>
      exact ⟨⟨fun q hq => hb.timed q (timed_of_clear hq), hb.records⟩, rfl⟩

omit [Float64] in
theorem Effects.bounded {origin? : Option Packet} {fin : Prop} (h : Effects origin? fin c c')
    (hb : c.Bounded) (horigin : ∀ q, origin? = some q → q.body.length ≤ maxPayload c.config) :
    c'.Bounded := by
  have hinv : c'.Bounded ∧ c'.config = c.config := by
    induction h with
    | refl => exact ⟨hb, rfl⟩
    | tail _ heffect ih =>
        obtain ⟨hb₁, hconfig⟩ := ih
        obtain ⟨hb₂, hconfig₂⟩ := heffect.bounded hb₁ (by rw [hconfig]; exact horigin)
        exact ⟨hb₂, hconfig₂.trans hconfig⟩
  exact hinv.1

theorem step_bounded {ev : Event} (hb : c.Bounded) (hok : c.step ev = .ok c') : c'.Bounded := by
  cases step_happens hok with
  | nothing => exact hb
  | packet _ h => exact h.bounded ⟨hb.timed, hb.records⟩ nofun
  | expire _ horder => exact ⟨fun q hq => hb.timed q (timed_of_tick horder hq), hb.records⟩
  | timeout _ hch h =>
      refine h.bounded ⟨fun q hq => hb.timed q (timed_of_receive hch hq), hb.records⟩ ?_
      intro q hq
      obtain rfl := Option.some.inj hq
      exact hb.timed _ (.inl (hch ▸ List.mem_cons_self))
  | other h => exact h.bounded hb nofun

omit [Float64] in
/-- A connection starts with nothing recorded, and only a SYN is timed. -/
theorem bounded_start (cid : ConnectionId) (config : ConnectionConfig) (syn : Option Packet)
    (rnd : Uint16) (now t₀ : Time) :
    ((newConnection cid config syn rnd now).start t₀).Bounded := by
  refine ⟨fun p hp => ?_, fun e he => ?_⟩
  · rw [(timed_start hp).2.2]
    exact Nat.zero_le _
  · cases syn with
    | none => cases he
    | some syn =>
        cases he
        exact ⟨SentPackets.wf_new _ _, fun _ hchunk => absurd hchunk List.not_mem_nil⟩

/-! ### The size of packets -/

/-- The words of a selective acknowledgement for which there is room besides
the body, in a packet of `size` bytes. -/
def wordsRoom (size : Nat) (p : Packet) : Nat := (size - 22 - p.body.length) / 4

omit [Float64] in
/-- A packet with the selective acknowledgement of the receive buffer fits if
that has not more words. -/
theorem encodedLen_le_iff {size : Nat} (heack : p.eack = e.recvBuf.selectiveAck)
    (hbody : p.body.length + 64 ≤ size) :
    p.encodedLen ≤ size ↔ 63 ≤ wordsRoom size p ∨ ∀ x, e.recvBuf.pending.contains x = true →
      Circular.ahead (e.recvBuf.ackNum + 2) x < 32 * wordsRoom size p := by
  unfold Packet.encodedLen
  rcases hack : p.eack with - | ack
  · -- nothing is pending
    dsimp only
    refine ⟨fun _ => .inr fun x hx => ?_, fun _ => by omega⟩
    have hsome := heack.symm.trans hack
    unfold ReceiveBuffer.selectiveAck at hsome
    split at hsome
    · rename_i hsize
      obtain ⟨v, hv⟩ := OrdMap.contains_iff.mp hx
      rw [List.length_eq_zero_iff.mp hsize] at hv
      cases hv
    · cases hsome
  · dsimp only
    rw [← ReceiveBuffer.length_words_le_iff (heack.symm.trans hack), wordsRoom,
      SelectiveAck.encodedLen, Nat.le_div_iff_mul_le (by decide)]
    omega

/-- The functions that send DATA packets. -/
inductive Resends (c : Connection) (t : Time) (c' : Connection) : Prop where
  | processWrites (hok : c.processWrites t = .ok c')
  | retransmitLostPackets (hok : c.retransmitLostPackets t = .ok c')
  | onTimeout (hok : c.step (.onTimeout t) = .ok c')

/-- They put the selective acknowledgement of the receive buffer on a packet,
and its body is a fresh payload, recorded or timed. -/
theorem Resends.shape {t : Time} (h : Resends c t c') (hs : c.state = .connected e)
    (hwf : e.sendBuf.WF) (hb : c.Bounded) (hmax : 64 < c.config.maxPacketSize.toNat)
    (hp : c.Emits c' p) :
    p.eack = e.recvBuf.selectiveAck ∧ p.body.length ≤ maxPayload c.config := by
  cases h with
  | processWrites hok =>
      obtain ⟨payloads, sb, hsent, hpayloads, -⟩ := processWrites_emits hs hwf hmax hok
      obtain ⟨-, heack, hbody⟩ := mem_dataPackets (mem_of_emits hsent hp)
      exact ⟨heack, (hpayloads p.body hbody).2⟩
  | retransmitLostPackets hok =>
      rw [Connection.retransmitLostPackets, hs] at hok
      dsimp only at hok
      split at hok
      · obtain ⟨losts, hlosts, hok⟩ := bind_eq_ok.mp hok
        obtain ⟨lost, hlost, rfl⟩ :=
          List.mem_map.mp (mem_of_emits (socketEvents_transmitLost hok) hp)
        exact ⟨rfl, (hb.records e (established_connected hs)).2 _
          (SentPackets.mem_lostPacketsList hlosts hlost)⟩
      · cases hok
        exact absurd hp (not_emits rfl)
  | onTimeout hok =>
      rcases step_onTimeout hok with rfl | ⟨originPacket, rest, hch, hok⟩
      · exact absurd hp (not_emits rfl)
      rcases onTimeout_emits (c := { c with unackTimeoutCh := rest }) hs hok with hsame | hsent
      · exact absurd hp (not_emits hsame)
      · obtain ⟨new, hnew, hmem⟩ := hp
        obtain rfl := List.append_cancel_left (hnew.symm.trans hsent)
        cases List.mem_singleton.mp hmem
        exact ⟨rfl, hb.timed originPacket (.inl (hch ▸ List.mem_cons_self))⟩

/-- The connection between two events, or in the middle of `onPacket`, where
lost packets are sent again. -/
inductive AtSend (c : Connection) : Connection → Prop where
  | between : AtSend c c
  | within {packet : Packet} {t : Time} {c₁ c₂ : Connection} {err : Option HandleError}
      {err' : Option SentError}
      (hdispatch : (c.observePeer packet t).dispatch packet = .ok (c₁, err))
      (hack : c₁.acknowledge packet t = .ok (c₂, err')) : AtSend c c₂

theorem AtSend.sound {w : Bytes} (h : AtSend c₀ c) (hm : Midcall.Sound ⟨c₀, none, w⟩) :
    Midcall.Sound ⟨c, none, w⟩ := by
  cases h with
  | between => exact hm
  | within hdispatch hack =>
      rename_i packet t c₁ _ _
      have hm₀ : Midcall.Sound ⟨c₀.observePeer packet t, none, w⟩ := hm
      have hplays : Plays (some packet) unguarded ⟨c₀.observePeer packet t, none, w⟩ _ _ :=
        dispatch_plays hm₀
      obtain ⟨_, hreach, rfl⟩ := hplays.ok _ hdispatch
      have hm₁ : Midcall.Sound ⟨c₁, none, w⟩ :=
        reach_inv (I := Midcall.Sound) (fun _ _ hact hs => hact.sound hs) hm₀ hreach
      have hplays₁ : Plays (some packet) unguarded ⟨c₁, none, w⟩ (c₁.acknowledge packet t) _ :=
        acknowledge_plays hm₁
      obtain ⟨_, hreach₁, rfl⟩ := hplays₁.ok _ hack
      exact reach_inv (I := Midcall.Sound) (fun _ _ hact hs => hact.sound hs) hm₁ hreach₁

theorem AtSend.bounded (h : AtSend c₀ c) (hb : c₀.Bounded) : c.Bounded := by
  cases h with
  | between => exact hb
  | within hdispatch hack =>
      have heffects : Effects none False _ c :=
        (dispatch_effects hdispatch).trans (acknowledge_effects hack)
      exact heffects.bounded ⟨hb.timed, hb.records⟩ fun _ hq => by cases hq

/-- **DATA packets and the packet size.**  In every connected state a run
leads to, between two events or where lost packets are sent again, the body of
a packet sent by one of these functions leaves 64 bytes of the packet size
free.  The packet fits exactly when the pending numbers reach no further ahead than the words of
the selective acknowledgement for which there is room; that is ten words, 320
numbers, besides a full payload. -/
theorem run_data_fits (cid : ConnectionId) (config : ConnectionConfig) (syn : Option Packet)
    (rnd : Uint16) (now t₀ t : Time) {events : List Event}
    (hrun : ((newConnection cid config syn rnd now).start t₀).run events = .ok c₀)
    (hat : AtSend c₀ c) (hs : c.state = .connected e) (hmax : 64 < c.config.maxPacketSize.toNat)
    (hsend : Resends c t c') (hp : c.Emits c' p) :
    p.body.length ≤ c.config.maxPacketSize.toNat - 64 ∧
    10 ≤ wordsRoom c.config.maxPacketSize.toNat p ∧
    (p.body.length = c.config.maxPacketSize.toNat - 64 →
      wordsRoom c.config.maxPacketSize.toNat p = 10) ∧
    (p.encodedLen ≤ c.config.maxPacketSize.toNat ↔
      63 ≤ wordsRoom c.config.maxPacketSize.toNat p ∨
        ∀ x, e.recvBuf.pending.contains x = true → Circular.ahead (e.recvBuf.ackNum + 2) x
          < 32 * wordsRoom c.config.maxPacketSize.toNat p) := by
  obtain ⟨w, hsound₀, -⟩ := run_inv (I := fun _ => True) (fun _ _ _ _ _ _ => trivial)
    (fun _ _ _ _ _ => trivial) (along_unguarded _ events) (sound_start cid config syn rnd now t₀ [])
    trivial hrun
  have hb₀ : c₀.Bounded := foldlM_inv Bounded hrun (bounded_start cid config syn rnd now t₀)
    fun _ _ _ _ hb hstep => step_bounded hb hstep
  have hwf : e.sendBuf.WF := (hat.sound hsound₀ e (established_connected hs)).sendBuf
  obtain ⟨heack, hlen⟩ := hsend.shape hs hwf (hat.bounded hb₀) hmax hp
  rw [maxPayload_eq hmax] at hlen
  have hfree : p.body.length + 64 ≤ c.config.maxPacketSize.toNat := by omega
  refine ⟨hlen, ?_, ?_, encodedLen_le_iff heack hfree⟩
  · unfold wordsRoom
    omega
  · unfold wordsRoom
    omega

/-- An acceptor with packets of 66 bytes, so that two are left for a payload. -/
def smallPacketAcceptor : Connection :=
  (newConnection ⟨2, 1⟩ { newConnectionConfig with bufferSize := 16, maxPacketSize := 66 }
    (some (newPacketBuilder .st_syn 1 0 1000 100).build) 5 0).start 0

/-- A packet that arrives with `k` others missing before it. -/
def earlyData (k : Uint16) : Packet :=
  (((newPacketBuilder .st_data 1 0 1000 (101 + k)).withAckNum 4).withPayload [7]).build

omit [Float64] in
/-- With 300 numbers missing before the pending one a full payload fits. -/
theorem run_data_fits_near : ∃ c c' p, @run exactFloat64 smallPacketAcceptor
      [.onPacket (earlyData 300) 0 0, .onWrite [1, 2] 0 0] = .ok c ∧
    c.processWrites 0 = .ok c' ∧ c.Emits c' p ∧ p.body = [1, 2] ∧ p.encodedLen ≤ 66 := by
  have hrun : ∃ c e c' p, @run exactFloat64 smallPacketAcceptor
        [.onPacket (earlyData 300) 0 0, .onWrite [1, 2] 0 0] = .ok c ∧
      c.state = .connected e ∧ c.config.maxPacketSize = 66 ∧ c.processWrites 0 = .ok c' ∧
      c'.socketEvents = c.socketEvents ++ [.outgoing p] ∧ p.body = [1, 2] ∧
      e.recvBuf.pending.entries = [(401, [7])] ∧ e.recvBuf.ackNum = 100 :=
    ⟨_, _, _, _, rfl, rfl, rfl, rfl, rfl, rfl, rfl, rfl⟩
  let := exactFloat64
  obtain ⟨c, e, c', p, hrun, hs, hsize, hok, hsent, hbody, hpending, hack⟩ := hrun
  have hemits : c.Emits c' p := ⟨_, hsent, List.mem_singleton.mpr rfl⟩
  obtain ⟨-, -, hten, hiff⟩ := run_data_fits _ _ _ _ _ _ 0 hrun .between hs
    (by rw [hsize]; decide) (.processWrites hok) hemits
  refine ⟨c, c', p, hrun, hok, hemits, hbody, ?_⟩
  rw [hsize] at hten hiff
  have hwords : wordsRoom (66 : Uint16).toNat p = 10 := hten (by rw [hbody]; decide)
  refine hiff.mpr (.inr fun x hx => ?_)
  obtain ⟨v, hv⟩ := OrdMap.contains_iff.mp hx
  rw [hpending] at hv
  cases List.mem_singleton.mp hv
  rw [hwords, hack]
  decide

omit [Float64] in
/-- With 330 numbers missing it does not. -/
theorem data_oversized : ∃ c e c' p, @run exactFloat64 smallPacketAcceptor
      [.onPacket (earlyData 330) 0 0, .onWrite [1, 2] 0 0] = .ok c ∧
    c.state = .connected e ∧ c.config.maxPacketSize = 66 ∧ c.processWrites 0 = .ok c' ∧
    c'.socketEvents = c.socketEvents ++ [.outgoing p] ∧
    p.header.packetType = .st_data ∧ p.body = [1, 2] ∧ 66 < p.encodedLen := by
  have hrun : ∃ c e c' p, @run exactFloat64 smallPacketAcceptor
        [.onPacket (earlyData 330) 0 0, .onWrite [1, 2] 0 0] = .ok c ∧
      c.state = .connected e ∧ c.config.maxPacketSize = 66 ∧ c.processWrites 0 = .ok c' ∧
      c'.socketEvents = c.socketEvents ++ [.outgoing p] ∧
      p.header.packetType = .st_data ∧ p.body = [1, 2] ∧ p.eack = e.recvBuf.selectiveAck ∧
      e.recvBuf.pending.entries = [(431, [7])] ∧ e.recvBuf.ackNum = 100 :=
    ⟨_, _, _, _, rfl, rfl, rfl, rfl, rfl, rfl, rfl, rfl, rfl, rfl⟩
  obtain ⟨c, e, c', p, hrun, hs, hsize, hok, hsent, ht, hbody, heack, hpending, hack⟩ := hrun
  refine ⟨c, e, c', p, hrun, hs, hsize, hok, hsent, ht, hbody, ?_⟩
  rw [← Nat.not_le, encodedLen_le_iff heack (by rw [hbody]; decide)]
  have hwords : wordsRoom 66 p = 10 := by rw [wordsRoom, hbody]; rfl
  rw [hwords, hack]
  rintro (h | h)
  · exact absurd h (by decide)
  · refine absurd (h 431 ?_) (by decide)
    exact OrdMap.contains_iff.mpr ⟨[7], hpending ▸ List.mem_cons_self⟩

end Connection

end UtpGo
