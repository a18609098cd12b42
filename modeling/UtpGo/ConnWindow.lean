/-
UtpGo/ConnWindow.lean

The peer's receive window.  `processWrites` takes payloads from the send
buffer up to the smaller of the free congestion window and the window the peer
has advertised.  The bytes already in flight are part of the first limit but
not of the second, so that call after call may send a full window of the peer.

The bytes a call sends are described first (`length_readPayloads`): it stops at
the first empty slice of the send buffer.

Main results: `step_window`, what a call does to the bytes in flight, and
`run_window`, consecutive calls respect the peer's window if each of them fits
into it together with what is in flight.
-/
import UtpGo.ConnTransmit

namespace UtpGo

open Checked

/-! ### The bytes a call takes from the send buffer -/

/-- The bytes in front of the first empty slice, at which reading stops. -/
def SendBuffer.ready (sb : SendBuffer) : Nat :=
  ((sb.pending.takeWhile (· ≠ [])).flatten.drop sb.offset).length

namespace SendBuffer

variable {sb sb' : SendBuffer} {out : Bytes}

theorem ready_le (sb : SendBuffer) : sb.ready ≤ sb.unread.length := by
  have hle : (sb.pending.takeWhile (· ≠ [])).flatten.length ≤ sb.pending.flatten.length := by
    conv_rhs => rw [← List.takeWhile_append_dropWhile (p := (· ≠ [])) (l := sb.pending)]
    rw [List.flatten_append, List.length_append]
    exact Nat.le_add_right _ _
  rw [ready, unread, List.length_drop, List.length_drop]
  omega

/-- A read takes the next ready bytes, or there were none. -/
theorem ready_read (h : sb.WF) {bufLen : Nat} (hpos : 0 < bufLen)
    (hok : sb.read bufLen = .ok (out, sb')) :
    if out = [] then sb.ready = 0 else sb.ready = out.length + sb'.ready := by
  rw [read, if_neg (by omega)] at hok
  rcases hp : sb.pending with - | ⟨data, rest⟩
  · rw [hp] at hok
    obtain ⟨rfl, rfl⟩ := Prod.mk.inj (pure_eq_ok.mp hok)
    simp [ready, hp]
  unfold WF at h
  rw [hp] at h hok
  dsimp only at h hok
  have hoff : sb.offset ≤ data.length := by rcases h with h | h <;> omega
  set n := min (data.length - sb.offset) bufLen with hn
  have hle : sb.offset + n ≤ data.length := by omega
  rw [slice_of_le (Nat.le_add_right _ _) hle, ok_bind] at hok
  have hlen : ((data.take (sb.offset + n)).drop sb.offset).length = n := by
    rw [List.length_drop, List.length_take]
    omega
  by_cases hd : data = []
  · -- an empty slice is read as nothing
    subst hd
    have hnil : out = [] := by
      split at hok <;> (obtain ⟨rfl, -⟩ := Prod.mk.inj (pure_eq_ok.mp hok); simp)
    rw [if_pos hnil, ready, hp]
    simp
  have hdpos : 0 < data.length := List.length_pos_iff.mpr hd
  have hready : sb.ready = data.length - sb.offset + (rest.takeWhile (· ≠ [])).flatten.length := by
    rw [ready, hp, List.takeWhile_cons_of_pos (by simpa using hd), List.flatten_cons,
      List.length_drop, List.length_append]
    omega
  have hnpos : 0 < n := by rcases h with h | h <;> omega
  have hne : (data.take (sb.offset + n)).drop sb.offset ≠ [] := by
    rw [← List.length_pos_iff, hlen]
    exact hnpos
  split at hok
  · rename_i hend
    obtain ⟨rfl, rfl⟩ := Prod.mk.inj (pure_eq_ok.mp hok)
    rw [if_neg hne, hready, hlen]
    show _ = n + (List.drop 0 (rest.takeWhile (· ≠ [])).flatten).length
    rw [List.drop_zero]
    omega
  · rename_i hend
    obtain ⟨rfl, rfl⟩ := Prod.mk.inj (pure_eq_ok.mp hok)
    rw [if_neg hne, hready, hlen]
    show _ = n + (((data :: rest).takeWhile (· ≠ [])).flatten.drop (sb.offset + n)).length
    rw [List.takeWhile_cons_of_pos (by simpa using hd), List.flatten_cons,
      List.length_drop, List.length_append]
    omega

end SendBuffer

/-- The loop takes what is ready, up to the limit. -/
theorem length_readPayloads {maxData : Uint32} {fuel : Nat} {windowSize : Uint32}
    {sb sb' : SendBuffer} {payloads : List Bytes} (h : sb.WF) (hfuel : sb.ready < fuel)
    (hok : Connection.readPayloads maxData fuel windowSize sb = .ok (payloads, sb')) :
    payloads.flatten.length = if maxData = 0 then 0 else min windowSize.toNat sb.ready := by
  induction fuel generalizing windowSize sb payloads with
  | zero => omega
  | succ fuel ih =>
      unfold Connection.readPayloads at hok
      split at hok
      swap
      · rename_i hw
        obtain ⟨rfl, -⟩ := Prod.mk.inj (pure_eq_ok.mp hok)
        have hzero : windowSize.toNat = 0 := by bv_omega
        simp [hzero]
      rename_i hw
      dsimp only at hok
      obtain ⟨⟨data, sb₁⟩, hread, hok⟩ := bind_eq_ok.mp hok
      obtain ⟨_, _, hread', hdid⟩ := SendBuffer.read_spec h (min windowSize maxData).toNat
      cases hread.symm.trans hread'
      dsimp only at hok
      have hwpos : 0 < windowSize.toNat := by bv_omega
      have hmin := Circular.toNat_min windowSize maxData
      have hout : data.length ≤ min windowSize.toNat maxData.toNat := hmin ▸ hdid.length
      by_cases hm : maxData = 0
      · -- a buffer of length zero
        rw [if_pos hm]
        have hnil : data.length = 0 := by
          rw [hm] at hout
          simpa using hout
        simp only [hnil, if_true] at hok
        obtain ⟨rfl, -⟩ := Prod.mk.inj (pure_eq_ok.mp hok)
        rfl
      rw [if_neg hm]
      have hmpos : 0 < maxData.toNat := by bv_omega
      have hready := SendBuffer.ready_read h (by omega) hread
      split at hok
      · rename_i hz
        obtain ⟨rfl, -⟩ := Prod.mk.inj (pure_eq_ok.mp hok)
        rw [if_pos (List.length_eq_zero_iff.mp hz)] at hready
        simp [hready]
      · rename_i hz
        rw [if_neg (fun hnil => hz (List.length_eq_zero_iff.mpr hnil))] at hready
        obtain ⟨⟨payloads', sb₂⟩, hrest, hok⟩ := bind_eq_ok.mp hok
        obtain ⟨rfl, rfl⟩ := Prod.mk.inj (pure_eq_ok.mp hok)
        have hlen := ih hdid.wf (by omega) hrest
        rw [if_neg hm] at hlen
        have hwin := windowSize.isLt
        have hsub : (windowSize - BitVec.ofNat 32 data.length).toNat
            = windowSize.toNat - data.length := by
          bv_omega
        rw [List.flatten_cons, List.length_append, hlen, hsub, hready]
        omega

/-! ### The bytes in flight -/

namespace SentPackets

variable {s s' : SentPackets}

/-- The payload bytes transmitted and not yet acknowledged. -/
def inFlight (s : SentPackets) : Nat :=
  ((s.packets.filter (·.acks.isEmpty)).map (·.data.length)).sum

/-- They are a matter of the payloads and of what was acknowledged. -/
theorem inFlight_congr (hchunks : s'.chunks = s.chunks) (hacked : ∀ i, s'.Acked i ↔ s.Acked i) :
    s'.inFlight = s.inFlight := by
  have hmap : ∀ s : SentPackets, s.inFlight = (((s.packets.map fun p =>
      (p.data, p.acks.isEmpty)).filter (·.2)).map (·.1.length)).sum := by
    intro s
    rw [inFlight, List.filter_map, List.map_map]
    rfl
  rw [hmap, hmap]
  congr 3
  apply List.ext_getElem?
  intro i
  have hc : s'.chunks[i]? = s.chunks[i]? := by rw [hchunks]
  rw [chunks, chunks, List.getElem?_map, List.getElem?_map] at hc
  rw [List.getElem?_map, List.getElem?_map]
  have ha := hacked i
  unfold Acked at ha
  rcases hp' : s'.packets[i]? with - | p' <;> rcases hp : s.packets[i]? with - | p
  · rfl
  · rw [hp', hp] at hc
    cases hc
  · rw [hp', hp] at hc
    cases hc
  · rw [hp', hp] at hc ha
    have hdata : p'.data = p.data := (Prod.mk.inj (Option.some.inj hc)).2
    have hempty : p'.acks.isEmpty = p.acks.isEmpty := by
      rw [Bool.eq_iff_iff, List.isEmpty_iff, List.isEmpty_iff, ← not_iff_not]
      simpa using ha
    show some (p'.data, p'.acks.isEmpty) = some (p.data, p.acks.isEmpty)
    rw [hdata, hempty]

/-- The payload of a new record is in flight. -/
theorem inFlight_transmitNew (packetType : PacketType) (data : Bytes) (dataLen : Uint32)
    (now : Time) : (s.transmitNew packetType data dataLen now).inFlight
      = s.inFlight + data.length := by
  simp [inFlight, transmitNew, List.filter_append]

/-- A transmission adds its payload to the bytes in flight, if its number is
new. -/
theorem inFlight_onTransmit (h : s.WF) {seqNum : Uint16} {packetType : PacketType} {data : Bytes}
    {dataLen : Uint32} {now : Time}
    (hok : s.onTransmit seqNum packetType data dataLen now = .ok s') :
    s.inFlight ≤ s'.inFlight ∧ s'.inFlight ≤ s.inFlight + data.length := by
  rcases onTransmit_ok h hok with ⟨-, -, rfl⟩ | hres
  · rw [inFlight_transmitNew]
    omega
  · rw [inFlight_congr hres.chunks hres.acked]
    omega

end SentPackets

namespace Connection

variable {c c' : Connection} {e : Established} {now : Time}

/-- The payload bytes in flight. -/
def inFlight (c : Connection) : Nat := c.established.elim 0 (·.sentPackets.inFlight)

theorem inFlight_connected (hs : c.state = .connected e) : c.inFlight = e.sentPackets.inFlight := by
  rw [inFlight, established_connected hs]
  rfl

/-- What a call that transmits `n` payload bytes does. -/
structure Adds (c : Connection) (e : Established) (n : Nat) (c' : Connection) (e' : Established) :
    Prop where
  state : c'.state = .connected e'
  wf : e'.sentPackets.WF
  window : c'.peerRecvWindow = c.peerRecvWindow
  mono : e.sentPackets.inFlight ≤ e'.sentPackets.inFlight
  bound : e'.sentPackets.inFlight ≤ e.sentPackets.inFlight + n

theorem transmit_adds {p : Packet} (hs : c.state = .connected e) (h : e.sentPackets.WF)
    (hok : c.transmit p now = .ok c') : ∃ e', Adds c e p.body.length c' e' ∧
      (e.sentPackets.packets.length < 65536 → p.header.seqNum = e.sentPackets.nextSeqNum →
        e'.sentPackets.inFlight = e.sentPackets.inFlight + p.body.length ∧
        e'.sentPackets.packets.length = e.sentPackets.packets.length + 1 ∧
        e'.sentPackets.nextSeqNum = e.sentPackets.nextSeqNum + 1) := by
  unfold transmit at hok
  rw [hs] at hok
  obtain ⟨sp, hsp, hok⟩ := bind_eq_ok.mp hok
  obtain rfl := pure_eq_ok.mp hok
  obtain ⟨hmono, hbound⟩ := SentPackets.inFlight_onTransmit h hsp
  refine ⟨{ e with sentPackets := sp }, ⟨rfl, h.of_transmit hsp, rfl, hmono, hbound⟩, ?_⟩
  intro hlen hseq
  rw [hseq] at hsp
  obtain rfl := SentPackets.onTransmit_fresh h hlen hsp
  refine ⟨SentPackets.inFlight_transmitNew _ _ _ _, ?_, SentPackets.nextSeqNum_transmitNew⟩
  simp [SentPackets.transmitNew]

theorem transmitPayloads_adds {e₀ : Established} {payloads : List Bytes} {seqNum : Uint16}
    (hs : c.state = .connected e) (h : e.sentPackets.WF)
    (hok : transmitPayloads e₀ now payloads seqNum c = .ok c') :
    ∃ e', Adds c e payloads.flatten.length c' e' ∧
      (e.sentPackets.packets.length + payloads.length ≤ 65536 →
        seqNum = e.sentPackets.nextSeqNum →
        e'.sentPackets.inFlight = e.sentPackets.inFlight + payloads.flatten.length) := by
  induction payloads generalizing seqNum c e with
  | nil =>
      obtain rfl := pure_eq_ok.mp hok
      exact ⟨e, ⟨hs, h, rfl, le_refl _, le_refl _⟩, fun _ _ => rfl⟩
  | cons payload payloads ih =>
      obtain ⟨c₁, htransmit, hok⟩ := bind_eq_ok.mp hok
      obtain ⟨e₁, hadds₁, hfresh₁⟩ := transmit_adds hs h htransmit
      obtain ⟨e', hadds, hfresh⟩ := ih hadds₁.state hadds₁.wf hok
      have hbody : (c.dataPacket e₀ seqNum payload now).body.length = payload.length := rfl
      have hmono := hadds₁.mono
      have hbound := hadds₁.bound
      rw [hbody] at hbound
      have hmono' := hadds.mono
      have hbound' := hadds.bound
      rw [List.flatten_cons, List.length_append, List.length_cons]
      refine ⟨e', ⟨hadds.state, hadds.wf, hadds.window.trans hadds₁.window, by omega, by omega⟩, ?_⟩
      intro hlen hseq
      obtain ⟨hflight, hlen₁, hnext⟩ := hfresh₁ (by omega) hseq
      rw [hbody] at hflight
      rw [hfresh (by omega) (by rw [hnext, hseq]), hflight]
      omega

/-! ### The limit -/

/-- The bytes `processWrites` sends: those that are ready, as far as the
congestion window and the peer's window go.  With 64 for the packet size there
is no room for a payload. -/
def toSend (c : Connection) (e : Established) : Nat :=
  if c.config.maxPacketSize = 64 then 0
  else min (min e.sentPackets.window.toNat c.peerRecvWindow.toNat) e.sendBuf.ready

/-- The next call keeps within the peer's window: it has nothing to send, or
what it sends fits into the window together with what is in flight. -/
def Fits (c : Connection) : Prop :=
  ∀ e, c.state = .connected e →
    c.toSend e = 0 ∨ e.sentPackets.inFlight + c.toSend e ≤ c.peerRecvWindow.toNat

/-- The records have room for a packet for each byte that is ready. -/
def RecordsLast (c : Connection) : Prop :=
  ∀ e, c.state = .connected e → e.sentPackets.packets.length + e.sendBuf.ready ≤ 65536

theorem processWrites_adds (hs : c.state = .connected e) (h : e.Sound)
    (hok : c.processWrites now = .ok c') : ∃ e', Adds c e (c.toSend e) c' e' ∧
      (e.sentPackets.packets.length + e.sendBuf.ready ≤ 65536 →
        e'.sentPackets.inFlight = e.sentPackets.inFlight + c.toSend e) := by
  unfold processWrites at hok
  rw [hs] at hok
  obtain ⟨⟨payloads, sb⟩, hread, hok⟩ := bind_eq_ok.mp hok
  obtain ⟨r, -, hok⟩ := bind_eq_ok.mp hok
  obtain ⟨payloads', sb', hread', hne, hstream, -, -, -⟩ := readPayloads_spec
    ((c.config.maxPacketSize - 64).setWidth 32) (e.sendBuf.unread.length + 1)
    (min e.sentPackets.window c.peerRecvWindow) h.sendBuf
  cases hread.symm.trans hread'
  have hlen : payloads.flatten.length = c.toSend e := by
    rw [length_readPayloads h.sendBuf (Nat.lt_succ_of_le e.sendBuf.ready_le) hread, toSend]
    have hmax : (c.config.maxPacketSize - 64).setWidth 32 = 0 ↔ c.config.maxPacketSize = 64 := by
      bv_omega
    simp only [hmax, Circular.toNat_min]
  -- the other buffers do not matter
  obtain ⟨e', hadds, hfresh⟩ := transmitPayloads_adds (c := { c with
    state := .connected { e with sendBuf := r.sendBuf }, pendingWrites := r.pendingWrites,
    results := r.results, writable := r.writable }) rfl h.sentPackets hok
  rw [hlen] at hadds hfresh
  refine ⟨e', ⟨hadds.state, hadds.wf, hadds.window, hadds.mono, hadds.bound⟩, fun hroom => ?_⟩
  refine hfresh ?_ rfl
  have hcount := length_le_flatten hne
  have hready : c.toSend e ≤ e.sendBuf.ready := by
    unfold toSend
    split <;> omega
  show e.sentPackets.packets.length + payloads.length ≤ 65536
  omega

/-- The calls of the event loop that write. -/
def Event.IsWrite : Event → Prop
  | .onWrite _ _ _ => True
  | .processWrites _ => True
  | _ => False

theorem processWrites_idle (hs : ∀ e, c.state ≠ .connected e)
    (hok : c.processWrites now = .ok c') :
    c'.state = c.state ∧ c'.peerRecvWindow = c.peerRecvWindow := by
  unfold processWrites at hok
  split at hok
  · cases hok
    exact ⟨rfl, rfl⟩
  · cases hok
    exact ⟨rfl, rfl⟩
  · rename_i e hs'
    exact absurd hs' (hs e)

variable [Float64]

/-- What a writing call does is what `processWrites` does. -/
theorem step_of_isWrite {ev : Event} (hev : ev.IsWrite) (hok : c.step ev = .ok c') :
    ∃ (c₁ c₂ : Connection) (now : Time), c₁.processWrites now = .ok c₂ ∧
      c₁.state = c.state ∧ c₁.config = c.config ∧ c₁.peerRecvWindow = c.peerRecvWindow ∧
      c'.state = c₂.state ∧ c'.peerRecvWindow = c₂.peerRecvWindow := by
  cases ev with
  | onWrite data resultCh now =>
      obtain ⟨c₂, hwrites, hok⟩ := bind_eq_ok.mp hok
      obtain rfl := pure_eq_ok.mp hok
      refine ⟨_, c₂, now, hwrites, ?_⟩
      split <;> exact ⟨rfl, rfl, rfl, rfl, rfl⟩
  | processWrites now => exact ⟨_, c', now, hok, rfl, rfl, rfl, rfl, rfl⟩
  | onPacket | processReads | tick | onTimeout | onIdleTimeout | shutdown => exact hev.elim

/-- **One call**: it keeps within the peer's window if it fits, and, as long
as every packet is recorded, only then. -/
theorem step_window {ev : Event} {w : Bytes} (hev : ev.IsWrite)
    (hsound : Midcall.Sound ⟨c, none, w⟩) (hok : c.step ev = .ok c') :
    c'.peerRecvWindow = c.peerRecvWindow ∧
    (c.Fits → c'.inFlight ≤ max c.inFlight c.peerRecvWindow.toNat) ∧
    (c.RecordsLast → c'.inFlight ≤ max c.inFlight c.peerRecvWindow.toNat → c.Fits) := by
  obtain ⟨c₁, c₂, now, hwrites, hstate, hconfig, hwin, hstate', hwin'⟩ := step_of_isWrite hev hok
  by_cases hs : ∃ e, c.state = .connected e
  · obtain ⟨e, hs⟩ := hs
    have he := hsound e (established_connected hs)
    obtain ⟨e', hadds, hexact⟩ := processWrites_adds (hstate.trans hs) he hwrites
    have hsend : c₁.toSend e = c.toSend e := by rw [toSend, toSend, hconfig, hwin]
    rw [hsend] at hadds hexact
    have hfits : c.Fits ↔ c.toSend e = 0 ∨
        e.sentPackets.inFlight + c.toSend e ≤ c.peerRecvWindow.toNat := by
      constructor
      · exact fun h => h e hs
      · intro h e₁ hs₁
        cases hs.symm.trans hs₁
        exact h
    have hbound := hadds.bound
    rw [hfits, inFlight_connected (hstate'.trans hadds.state), inFlight_connected hs]
    refine ⟨(hwin'.trans hadds.window).trans hwin, by omega, fun hroom hle => ?_⟩
    rw [hexact (hroom e hs)] at hle
    omega
  · obtain ⟨hs₂, hwin₂⟩ := processWrites_idle (fun e he => hs ⟨e, hstate.symm.trans he⟩) hwrites
    have hsame : c'.inFlight = c.inFlight := by
      rw [inFlight, inFlight, established, established, hstate', hs₂, hstate]
    refine ⟨(hwin'.trans hwin₂).trans hwin, fun _ => ?_, fun _ _ e he => absurd ⟨e, he⟩ hs⟩
    rw [hsame]
    exact le_max_left _ _

theorem calls_window {calls : List Event} {w : Bytes} (hcalls : ∀ ev ∈ calls, ev.IsWrite)
    (hsound : Midcall.Sound ⟨c, none, w⟩) (hok : c.run calls = .ok c')
    (hfits : Along (fun c _ => c.Fits) c calls) :
    c'.inFlight ≤ max c.inFlight c.peerRecvWindow.toNat := by
  induction calls generalizing c w with
  | nil =>
      obtain rfl := pure_eq_ok.mp hok
      exact le_max_left _ _
  | cons ev calls ih =>
      simp only [run, List.foldlM_cons, bind_eq_ok] at hok
      obtain ⟨c₁, hstep, hrun⟩ := hok
      obtain ⟨hwin, hone, -⟩ := step_window (hcalls ev List.mem_cons_self) hsound hstep
      obtain ⟨hand, -, hsound₁, -⟩ := step_inv (I := fun _ => True) (fun _ _ _ _ _ => trivial)
        (guarded_unguarded c ev) hsound trivial hstep
      have hrest := ih (w := w) (fun ev hev => hcalls ev (List.mem_cons_of_mem _ hev)) hsound₁ hrun
        (hfits.2 c₁ hstep)
      rw [hwin] at hrest
      have hfirst := hone hfits.1
      omega

/-- **The peer's window is respected by calls that fit**: from every reachable
state, any number of writing calls leaves the bytes in flight within the
peer's window, or where they were, if each call fits; and a single call that
does so fits, as long as every packet is recorded. -/
theorem run_window (cid : ConnectionId) (config : ConnectionConfig) (syn : Option Packet)
    (rnd : Uint16) (now t₀ : Time) (events : List Event) (c : Connection)
    (hrun : ((newConnection cid config syn rnd now).start t₀).run events = .ok c) :
    (∀ calls c', (∀ ev ∈ calls, ev.IsWrite) → c.run calls = .ok c' →
      Along (fun c _ => c.Fits) c calls →
      c'.inFlight ≤ max c.inFlight c.peerRecvWindow.toNat) ∧
    (∀ ev c', ev.IsWrite → c.step ev = .ok c' → c.RecordsLast →
      (c'.inFlight ≤ max c.inFlight c.peerRecvWindow.toNat ↔ c.Fits)) := by
  obtain ⟨w, hsound, -⟩ := run_inv (I := fun _ => True) (fun _ _ _ _ _ _ => trivial)
    (fun _ _ _ _ _ => trivial) (along_unguarded _ events)
    (sound_start cid config syn rnd now t₀ []) trivial hrun
  constructor
  · intro calls c' hcalls hok hfits
    exact calls_window hcalls hsound hok hfits
  · intro ev c' hev hok hroom
    obtain ⟨-, hfits, honly⟩ := step_window hev hsound hok
    exact ⟨honly hroom, hfits⟩

omit [Float64] in
/-- Three bytes are written, with a window of 1000 bytes. -/
theorem run_window_three : ∃ c c',
    @run exactFloat64 sampleAcceptor [.onWrite [1, 2, 3] 0 0] = .ok c ∧
    @run exactFloat64 c [.processWrites 0] = .ok c' ∧ c.inFlight = 0 ∧ c'.inFlight = 3 ∧
    c'.inFlight ≤ max c.inFlight c.peerRecvWindow.toNat := by
  have hrun : ∃ e c c', @run exactFloat64 sampleAcceptor [.onWrite [1, 2, 3] 0 0] = .ok c ∧
      @run exactFloat64 c [.processWrites 0] = .ok c' ∧ c.inFlight = 0 ∧ c'.inFlight = 3 ∧
      c.state = .connected e ∧ e.sentPackets.inFlight + c.toSend e ≤ c.peerRecvWindow.toNat :=
    ⟨_, _, _, rfl, rfl, rfl, rfl, rfl, by decide⟩
  obtain ⟨e, c, c', hrun, hcalls, hbefore, hafter, hs, hfits⟩ := hrun
  refine ⟨c, c', hrun, hcalls, hbefore, hafter, ?_⟩
  refine (@run_window exactFloat64 _ _ _ _ _ _ _ c hrun).1 _ c' ?_ hcalls ⟨?_, fun _ _ => trivial⟩
  · intro ev hev
    obtain rfl := List.mem_singleton.mp hev
    trivial
  · intro e' hs'
    cases hs.symm.trans hs'
    exact .inr hfits

omit [Float64] in
/-- A peer with a window of 10 bytes, and two writes of 10 bytes each: with
the first in flight the next call sends the second, and 20 bytes are in
flight. -/
theorem window_exceeded : ∃ c c',
    @run exactFloat64 ((newConnection ⟨2, 1⟩ { newConnectionConfig with bufferSize := 16 }
      (some (newPacketBuilder .st_syn 1 0 10 100).build) 5 0).start 0)
      [.onWrite (List.replicate 10 1) 0 0, .onWrite (List.replicate 10 2) 1 0] = .ok c ∧
    @run exactFloat64 c [.processWrites 0] = .ok c' ∧ c.peerRecvWindow = 10 ∧
    c.inFlight = 10 ∧ c'.inFlight = 20 :=
  ⟨_, _, rfl, rfl, rfl, rfl, rfl⟩

end Connection

end UtpGo
