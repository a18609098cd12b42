/-
UtpGo/RecvBufferSpec.lean

What the receive buffer computes.  The invariant `WF` has two parts: the
bytes held fit in `buf`, and every pending number lies at least two beyond
the last one consumed.  The second part is what keeps `consumed` from
wrapping: the initial number always counts as written, so it is never
pending, and the loop of `Write` stops in front of it.

`Content f out rb` compares the buffer with a numbered stream `f`: the bytes
read so far and those waiting in `buf` are the stream up to `consumed`, and
every pending packet is the chunk its number says.  One lemma a call
(`write_spec`, `read_spec`) carries both.
-/
import UtpGo.InOrder
import UtpGo.RecvBuffer

namespace UtpGo

open Circular Checked Reassembly

namespace ReceiveBuffer

/-! ### Available space -/

def pendingBytes (rb : ReceiveBuffer) : Nat := (rb.pending.entries.map (·.2.length)).sum

theorem foldl_sub_eq (l : List (Uint16 × Bytes)) (a : Int) :
    l.foldl (fun (available : Int) item => available - (item.2.length : Nat)) a
      = a - ((l.map (·.2.length)).sum : Nat) := by
  induction l generalizing a with
  | nil => simp
  | cons e l ih =>
      rw [List.foldl_cons, ih, List.map_cons, List.sum_cons]
      omega

theorem available_eq (rb : ReceiveBuffer) :
    rb.available = (rb.buf.length : Int) - rb.offset - rb.pendingBytes :=
  foldl_sub_eq _ _

theorem available_new (size : Nat) (initSeqNum : Uint16) :
    (newReceiveBuffer size initSeqNum).available = size := by
  simp [available_eq, newReceiveBuffer, pendingBytes]

/-! ### The numbers held -/

/-- A packet with number `s` has been taken: it was copied to the stream, or
it is pending. -/
def Holds (rb : ReceiveBuffer) (s : Uint16) : Prop :=
  (1 ≤ ahead rb.initSeqNum s ∧ ahead rb.initSeqNum s ≤ rb.consumed.toNat) ∨
    rb.pending.contains s = true

theorem ahead_ackNum (rb : ReceiveBuffer) :
    ahead rb.initSeqNum rb.ackNum = rb.consumed.toNat := by
  simp [ahead, ackNum]

/-- The test of `WasWritten` is true of the numbers held and of the initial
number. -/
theorem wasWritten_iff (rb : ReceiveBuffer) (s : Uint16) :
    rb.wasWritten s = true ↔ s = rb.initSeqNum ∨ rb.Holds s := by
  have hr : ahead rb.initSeqNum (rb.initSeqNum + rb.consumed) = rb.consumed.toNat :=
    rb.ahead_ackNum
  unfold wasWritten Holds
  rw [Bool.or_eq_true, CircularRangeInclusive.contains_iff, hr, ← ahead_eq_zero]
  constructor
  · rintro (h | h)
    · exact .inr (.inr h)
    · rcases Nat.eq_zero_or_pos (ahead rb.initSeqNum s) with h0 | hpos
      · exact .inl h0
      · exact .inr (.inl ⟨hpos, h⟩)
  · rintro (h | h | h)
    · exact .inr (h.trans_le (Nat.zero_le _))
    · exact .inr h.2
    · exact .inl h

/-! ### Invariant -/

structure WF (rb : ReceiveBuffer) : Prop where
  fits : rb.offset + rb.pendingBytes ≤ rb.buf.length
  later : ∀ e ∈ rb.pending.entries, rb.consumed.toNat + 1 < ahead rb.initSeqNum e.1

/-- The invariant inside the loop of `Write`, where the next number may be
pending. -/
structure Draining (rb : ReceiveBuffer) : Prop where
  fits : rb.offset + rb.pendingBytes ≤ rb.buf.length
  later : ∀ e ∈ rb.pending.entries, rb.consumed.toNat < ahead rb.initSeqNum e.1

/-- The buffer agrees with the numbered stream `f`, of which `out` has been
read already; chunk `k` travels under the number `initSeqNum + 1 + k`. -/
structure Content (f : ℕ → Option Bytes) (out : Bytes) (rb : ReceiveBuffer) : Prop where
  known : ∀ k < rb.consumed.toNat, (f k).isSome
  stream : out ++ rb.buf.take rb.offset = inOrder f rb.consumed.toNat
  pend : ∀ e ∈ rb.pending.entries, f (ahead rb.initSeqNum e.1 - 1) = some e.2

theorem wf_new (size : Nat) (initSeqNum : Uint16) : (newReceiveBuffer size initSeqNum).WF where
  fits := by simp [newReceiveBuffer, pendingBytes]
  later := by simp [newReceiveBuffer]

theorem content_new (f : ℕ → Option Bytes) (size : Nat) (initSeqNum : Uint16) :
    Content f [] (newReceiveBuffer size initSeqNum) where
  known := by simp [newReceiveBuffer]
  stream := by simp [newReceiveBuffer]
  pend := by simp [newReceiveBuffer]

theorem Content.mono {f g : ℕ → Option Bytes} {out : Bytes} {rb : ReceiveBuffer}
    (h : Content f out rb) (hle : ∀ k v, f k = some v → g k = some v) : Content g out rb where
  known := by
    intro k hk
    obtain ⟨v, hv⟩ := Option.isSome_iff_exists.mp (h.known k hk)
    exact Option.isSome_iff_exists.mpr ⟨v, hle k v hv⟩
  stream := h.stream.trans (inOrder_mono hle h.known)
  pend := fun e he => hle _ _ (h.pend e he)

/-! ### The loop of `Write` -/

/-- What draining a buffer leads to. -/
structure Drained (rb rb' : ReceiveBuffer) : Prop where
  wf : rb'.WF
  init : rb'.initSeqNum = rb.initSeqNum
  size : rb'.buf.length = rb.buf.length
  room : rb'.offset + rb'.pendingBytes = rb.offset + rb.pendingBytes
  mono : rb.consumed.toNat ≤ rb'.consumed.toNat
  pending : ∀ e, e ∈ rb'.pending.entries ↔
    e ∈ rb.pending.entries ∧ rb'.consumed.toNat < ahead rb.initSeqNum e.1
  holds : ∀ s, rb'.Holds s ↔ rb.Holds s
  content : ∀ f out, Content f out rb → Content f out rb'

/-- One pass of the loop: the packet with the next number moves to the
stream. -/
def consume (rb : ReceiveBuffer) (next : Uint16) (data : Bytes) : ReceiveBuffer :=
  { rb with
    buf := rb.buf.take rb.offset ++ data ++ rb.buf.drop (rb.offset + data.length)
    offset := rb.offset + data.length
    consumed := rb.consumed + 1
    pending := rb.pending.erase next }

section Consume

variable {rb : ReceiveBuffer} {next : Uint16} {data : Bytes}

theorem pendingBytes_of_mem (h : (next, data) ∈ rb.pending.entries) :
    rb.pendingBytes = data.length + (rb.consume next data).pendingBytes := by
  have hp := ((OrdMap.perm_erase h).map (·.2.length)).sum_eq
  simpa [pendingBytes, consume] using hp

/-- The next number is reached without wrapping: were `consumed` at its
maximum, the next number would be the initial one, which is never pending. -/
theorem next_ahead (h : rb.Draining) (hnext : next = rb.initSeqNum + 1 + rb.consumed)
    (hmem : (next, data) ∈ rb.pending.entries) :
    ahead rb.initSeqNum next = rb.consumed.toNat + 1 ∧
      (rb.consumed + 1).toNat = rb.consumed.toNat + 1 := by
  have hlt := h.later _ hmem
  subst hnext
  unfold ahead at hlt ⊢
  bv_omega

theorem length_consume (h : rb.Draining) (hmem : (next, data) ∈ rb.pending.entries) :
    (rb.consume next data).buf.length = rb.buf.length := by
  have hf := h.fits
  rw [pendingBytes_of_mem hmem] at hf
  simp only [consume, List.length_append, List.length_take, List.length_drop]
  omega

theorem draining_consume (h : rb.Draining) (hnext : next = rb.initSeqNum + 1 + rb.consumed)
    (hmem : (next, data) ∈ rb.pending.entries) : (rb.consume next data).Draining where
  fits := by
    have hf := h.fits
    rw [pendingBytes_of_mem hmem] at hf
    rw [length_consume h hmem]
    show rb.offset + data.length + _ ≤ _
    omega
  later := by
    intro e he
    obtain ⟨hn, hc⟩ := next_ahead h hnext hmem
    obtain ⟨hmem', hne⟩ := OrdMap.mem_erase.mp he
    have hlt := h.later e hmem'
    have hneq : ahead rb.initSeqNum e.1 ≠ ahead rb.initSeqNum next :=
      fun heq => hne ((ahead_inj _).mp heq)
    show (rb.consumed + 1).toNat < ahead rb.initSeqNum e.1
    omega

theorem holds_consume (h : rb.Draining) (hnext : next = rb.initSeqNum + 1 + rb.consumed)
    (hmem : (next, data) ∈ rb.pending.entries) (s : Uint16) :
    (rb.consume next data).Holds s ↔ rb.Holds s := by
  obtain ⟨hn, hc⟩ := next_ahead h hnext hmem
  have hpend : (rb.consume next data).pending.contains s = true ↔
      rb.pending.contains s = true ∧ s ≠ next := by
    rw [OrdMap.contains_iff, OrdMap.contains_iff]
    constructor
    · rintro ⟨v, hv⟩
      obtain ⟨hv, hne⟩ := OrdMap.mem_erase.mp hv
      exact ⟨⟨v, hv⟩, hne⟩
    · rintro ⟨⟨v, hv⟩, hne⟩
      exact ⟨v, OrdMap.mem_erase.mpr ⟨hv, hne⟩⟩
  have hnextmem : rb.pending.contains next = true := OrdMap.contains_iff.mpr ⟨data, hmem⟩
  show (1 ≤ ahead rb.initSeqNum s ∧ ahead rb.initSeqNum s ≤ (rb.consumed + 1).toNat) ∨
    (rb.consume next data).pending.contains s = true ↔ _
  rw [hpend, hc]
  unfold Holds
  by_cases hs : s = next
  · subst hs
    constructor
    · intro _
      exact .inr hnextmem
    · intro _
      exact .inl (by omega)
  · have hne : ahead rb.initSeqNum s ≠ rb.consumed.toNat + 1 := by
      rw [← hn]
      exact fun heq => hs ((ahead_inj _).mp heq)
    constructor
    · rintro (⟨h1, h2⟩ | ⟨h1, -⟩)
      · exact .inl ⟨h1, by omega⟩
      · exact .inr h1
    · rintro (⟨h1, h2⟩ | h1)
      · exact .inl ⟨h1, by omega⟩
      · exact .inr ⟨h1, hs⟩

theorem content_consume {f : ℕ → Option Bytes} {out : Bytes} (h : rb.Draining)
    (hnext : next = rb.initSeqNum + 1 + rb.consumed) (hmem : (next, data) ∈ rb.pending.entries)
    (hc : Content f out rb) : Content f out (rb.consume next data) := by
  obtain ⟨hn, hsucc⟩ := next_ahead h hnext hmem
  have hchunk : f rb.consumed.toNat = some data := by
    have := hc.pend _ hmem
    rwa [show ahead rb.initSeqNum next - 1 = rb.consumed.toNat by omega] at this
  have hoff : rb.offset ≤ rb.buf.length := by
    have := h.fits
    omega
  refine ⟨?_, ?_, ?_⟩
  · intro k hk
    have hk' : k < rb.consumed.toNat + 1 := by
      rw [← hsucc]
      exact hk
    rcases Nat.lt_succ_iff_lt_or_eq.mp hk' with hlt | rfl
    · exact hc.known k hlt
    · rw [hchunk]
      rfl
  · show out ++ (rb.buf.take rb.offset ++ data ++ _).take (rb.offset + data.length) = _
    have htake : (rb.buf.take rb.offset ++ data).length = rb.offset + data.length := by
      simp [hoff]
    rw [List.take_left' htake, ← List.append_assoc, hc.stream]
    show _ = inOrder f (rb.consumed + 1).toNat
    rw [hsucc, inOrder_succ, hchunk]
    rfl
  · intro e he
    exact hc.pend e (OrdMap.mem_erase.mp he).1

end Consume

/-- With the next number not pending the buffer is well formed again. -/
theorem wf_of_draining {rb : ReceiveBuffer} (h : rb.Draining)
    (hnone : rb.pending.get? (rb.initSeqNum + 1 + rb.consumed) = none) : rb.WF where
  fits := h.fits
  later := by
    intro e he
    have hlt := h.later e he
    have hne : e.1 ≠ rb.initSeqNum + 1 + rb.consumed := by
      intro heq
      exact OrdMap.get?_eq_none.mp hnone e.2 (heq ▸ he)
    unfold ahead at hlt ⊢
    bv_omega

theorem drained_refl {rb : ReceiveBuffer} (h : rb.Draining)
    (hnone : rb.pending.get? (rb.initSeqNum + 1 + rb.consumed) = none) : Drained rb rb where
  wf := wf_of_draining h hnone
  init := rfl
  size := rfl
  room := rfl
  mono := le_refl _
  pending := fun e => ⟨fun he => ⟨he, h.later e he⟩, And.left⟩
  holds := fun _ => Iff.rfl
  content := fun _ _ hc => hc

/-- The loop of `Write` returns, and leaves the next number not pending. -/
theorem drain_spec {fuel : Nat} {next : Uint16} {rb : ReceiveBuffer} (h : rb.Draining)
    (hnext : next = rb.initSeqNum + 1 + rb.consumed) (hfuel : rb.pending.size ≤ fuel) :
    ∃ rb', drain fuel next rb = .ok rb' ∧ Drained rb rb' := by
  induction fuel generalizing next rb with
  | zero =>
      refine ⟨rb, rfl, drained_refl h ?_⟩
      have hnil : rb.pending.entries = [] := List.length_eq_zero_iff.mp (by
        unfold OrdMap.size at hfuel
        omega)
      exact OrdMap.get?_eq_none.mpr (by simp [hnil])
  | succ fuel ih =>
      rcases hget : rb.pending.get? next with - | data
      · refine ⟨rb, ?_, drained_refl h (hnext ▸ hget)⟩
        simp only [drain, hget]
        rfl
      · have hmem := OrdMap.get?_eq_some.mp hget
        obtain ⟨hn, hsucc⟩ := next_ahead h hnext hmem
        have hslice : rb.offset + data.length ≤ rb.buf.length := by
          have hf := h.fits
          rw [pendingBytes_of_mem hmem] at hf
          omega
        have hsize : (rb.consume next data).pending.size ≤ fuel := by
          have := OrdMap.size_erase hmem
          show (rb.pending.erase next).size ≤ fuel
          omega
        have hnext' : next + 1 = rb.initSeqNum + 1 + (rb.consumed + 1) := by
          rw [hnext]
          ring
        obtain ⟨rb', hd, hdr⟩ := ih (draining_consume h hnext hmem) hnext' hsize
        refine ⟨rb', ?_, ?_⟩
        · simp only [drain, hget, slice_of_le (Nat.le_add_right _ _) hslice, ok_bind]
          exact hd
        · have hmono : rb.consumed.toNat + 1 ≤ rb'.consumed.toNat := hsucc ▸ hdr.mono
          refine ⟨hdr.wf, hdr.init, hdr.size.trans (length_consume h hmem), ?_, by omega,
            ?_, ?_, ?_⟩
          · rw [hdr.room, pendingBytes_of_mem hmem, ← Nat.add_assoc]
            rfl
          · intro e
            have he := hdr.pending e
            rw [he]
            refine and_congr_left fun hlt => ⟨fun hm => (OrdMap.mem_erase.mp hm).1, fun hm => ?_⟩
            refine OrdMap.mem_erase.mpr ⟨hm, ?_⟩
            rintro heq
            have hlt' : rb'.consumed.toNat < ahead rb.initSeqNum e.1 := hlt
            rw [heq, hn] at hlt'
            omega
          · intro s
            rw [hdr.holds, holds_consume h hnext hmem]
          · intro f out hc
            exact hdr.content f out (content_consume h hnext hmem hc)

/-! ### Write -/

/-- The calls of `Write` that take the packet. -/
def accepts (rb : ReceiveBuffer) (data : Bytes) (seqNum : Uint16) : Bool :=
  !rb.wasWritten seqNum && (data.length : Int) ≤ rb.available

/-- What taking a packet leads to. -/
structure Wrote (rb : ReceiveBuffer) (data : Bytes) (seqNum : Uint16) (rb' : ReceiveBuffer) :
    Prop where
  wf : rb'.WF
  init : rb'.initSeqNum = rb.initSeqNum
  size : rb'.buf.length = rb.buf.length
  room : rb'.available = rb.available - data.length
  mono : rb.consumed.toNat ≤ rb'.consumed.toNat
  pending : ∀ e, e ∈ rb'.pending.entries ↔
    (e = (seqNum, data) ∨ e ∈ rb.pending.entries) ∧ rb'.consumed.toNat < ahead rb.initSeqNum e.1
  holds : ∀ s, rb'.Holds s ↔ s = seqNum ∨ rb.Holds s
  content : ∀ f out, f (ahead rb.initSeqNum seqNum - 1) = some data →
    Content f out rb → Content f out rb'

theorem write_of_wasWritten {rb : ReceiveBuffer} {data : Bytes} {seqNum : Uint16}
    (h : rb.wasWritten seqNum = true) : rb.write data seqNum = .ok (rb, none) := by
  rw [write, if_pos h]
  rfl

theorem write_of_full {rb : ReceiveBuffer} {data : Bytes} {seqNum : Uint16}
    (h : rb.wasWritten seqNum = false) (hfull : rb.available < data.length) :
    rb.write data seqNum = .ok (rb, some .insufficientSpace) := by
  rw [write, if_neg (by simp [h]), if_pos hfull]
  rfl

/-- A packet that is accepted is pending first, and then the buffer is
drained. -/
theorem write_of_accepts {rb : ReceiveBuffer} {data : Bytes} {seqNum : Uint16} (h : rb.WF)
    (hacc : rb.accepts data seqNum = true) :
    ∃ rb', rb.write data seqNum = .ok (rb', none) ∧ Wrote rb data seqNum rb' := by
  simp only [accepts, Bool.and_eq_true, Bool.not_eq_true', decide_eq_true_eq] at hacc
  obtain ⟨hnew, hroom⟩ := hacc
  have hnot : ¬ (seqNum = rb.initSeqNum ∨ rb.Holds seqNum) := by
    rw [← wasWritten_iff, hnew]
    simp
  have hnone : rb.pending.get? seqNum = none := by
    rcases hget : rb.pending.get? seqNum with - | v
    · rfl
    · exact absurd (.inr (.inr (by simp [OrdMap.contains, hget]))) hnot
  have hperm := OrdMap.perm_insert (v := data) hnone
  set rb₁ : ReceiveBuffer := { rb with pending := rb.pending.insert seqNum data } with hrb₁
  have hbytes : rb₁.pendingBytes = data.length + rb.pendingBytes := by
    simpa [pendingBytes, hrb₁] using (hperm.map (·.2.length)).sum_eq
  have hahead : rb.consumed.toNat < ahead rb.initSeqNum seqNum := by
    by_contra hle
    rcases Nat.eq_zero_or_pos (ahead rb.initSeqNum seqNum) with h0 | hpos
    · exact hnot (.inl (ahead_eq_zero.mp h0))
    · exact hnot (.inr (.inl ⟨hpos, by omega⟩))
  have hdraining : rb₁.Draining := by
    refine ⟨?_, ?_⟩
    · rw [available_eq] at hroom
      rw [hbytes]
      show rb.offset + _ ≤ rb.buf.length
      omega
    · intro e he
      show rb.consumed.toNat < ahead rb.initSeqNum e.1
      rcases OrdMap.mem_insert.mp he with rfl | ⟨he, -⟩
      · exact hahead
      · have := h.later e he
        omega
  obtain ⟨rb', hd, hdr⟩ := drain_spec hdraining rfl (le_refl _)
  have hmem : ∀ e, e ∈ rb₁.pending.entries ↔ e = (seqNum, data) ∨ e ∈ rb.pending.entries := by
    intro e
    rw [hperm.mem_iff, List.mem_cons]
  refine ⟨rb', ?_, hdr.wf, hdr.init, hdr.size, ?_, hdr.mono, ?_, ?_, ?_⟩
  · rw [write, if_neg (by simp [hnew]), if_neg (by omega)]
    show (drain rb₁.pending.size _ rb₁ >>= fun rb => pure (rb, none)) = _
    rw [show rb.initSeqNum + 1 + rb.consumed = rb₁.initSeqNum + 1 + rb₁.consumed from rfl, hd]
    rfl
  · have hroom' := hdr.room
    rw [hbytes] at hroom'
    rw [available_eq, available_eq, hdr.size]
    show ((rb.buf.length : Nat) : Int) - _ - _ = _
    have : rb'.offset + rb'.pendingBytes = rb.offset + (data.length + rb.pendingBytes) := hroom'
    omega
  · intro e
    rw [hdr.pending, hmem]
  · intro s
    rw [hdr.holds]
    show _ ∨ (rb.pending.insert seqNum data).contains s = true ↔ _
    rw [OrdMap.contains_insert]
    unfold Holds
    tauto
  · intro f out hf hc
    refine hdr.content f out ⟨hc.known, hc.stream, ?_⟩
    intro e he
    rcases (hmem e).mp he with rfl | he
    · exact hf
    · exact hc.pend e he

/-- The three outcomes of `Write`. -/
theorem write_spec {rb : ReceiveBuffer} (h : rb.WF) (data : Bytes) (seqNum : Uint16) :
    ∃ rb' err, rb.write data seqNum = .ok (rb', err) ∧
      (rb.accepts data seqNum = true ∧ err = none ∧ Wrote rb data seqNum rb' ∨
        rb.accepts data seqNum = false ∧ rb' = rb ∧
          (rb.wasWritten seqNum = true ∧ err = none ∨
            rb.wasWritten seqNum = false ∧ err = some .insufficientSpace)) := by
  cases hacc : rb.accepts data seqNum with
  | true =>
      obtain ⟨rb', hw, hwrote⟩ := write_of_accepts h hacc
      exact ⟨rb', none, hw, .inl ⟨rfl, rfl, hwrote⟩⟩
  | false =>
      cases hold : rb.wasWritten seqNum with
      | true => exact ⟨rb, none, write_of_wasWritten hold, .inr ⟨rfl, rfl, .inl ⟨rfl, rfl⟩⟩⟩
      | false =>
          have hfull : rb.available < data.length := by
            simpa [accepts, hold] using hacc
          exact ⟨rb, some .insufficientSpace, write_of_full hold hfull,
            .inr ⟨rfl, rfl, .inr ⟨rfl, rfl⟩⟩⟩

theorem WF.write {rb rb' : ReceiveBuffer} (h : rb.WF) {data : Bytes} {seqNum : Uint16}
    {err : Option RecvError} (hw : rb.write data seqNum = .ok (rb', err)) : rb'.WF := by
  obtain ⟨rb₁, err₁, hw₁, hout⟩ := write_spec h data seqNum
  rw [hw₁] at hw
  cases hw
  rcases hout with ⟨-, -, hwrote⟩ | ⟨-, rfl, -⟩
  · exact hwrote.wf
  · exact h

theorem initSeqNum_write {rb rb' : ReceiveBuffer} (h : rb.WF) {data : Bytes} {seqNum : Uint16}
    {err : Option RecvError} (hw : rb.write data seqNum = .ok (rb', err)) :
    rb'.initSeqNum = rb.initSeqNum := by
  obtain ⟨rb₁, err₁, hw₁, hout⟩ := write_spec h data seqNum
  rw [hw] at hw₁
  cases hw₁
  rcases hout with ⟨-, -, hwrote⟩ | ⟨-, rfl, -⟩
  · exact hwrote.init
  · rfl

/-- The loop of `Write` adds to the bytes copied, and changes none of them. -/
theorem drain_prefix {fuel : Nat} {next : Uint16} {rb rb' : ReceiveBuffer}
    (hoff : rb.offset ≤ rb.buf.length) (hok : drain fuel next rb = .ok rb') :
    rb.buf.take rb.offset <+: rb'.buf.take rb'.offset := by
  induction fuel generalizing next rb with
  | zero =>
      obtain rfl := pure_eq_ok.mp hok
      exact List.prefix_refl _
  | succ fuel ih =>
      unfold drain at hok
      split at hok
      · obtain rfl := pure_eq_ok.mp hok
        exact List.prefix_refl _
      · rename_i data hdata
        obtain ⟨bytes, hslice, hok⟩ := bind_eq_ok.mp hok
        have hfit := (slice_eq_ok.mp hslice).2.1
        have hlen : (rb.buf.take rb.offset ++ data).length = rb.offset + data.length := by
          rw [List.length_append, List.length_take, min_eq_left hoff]
        refine List.IsPrefix.trans ?_ (ih ?_ hok)
        · show _ <+: List.take (rb.offset + data.length) (_ ++ _ ++ _)
          rw [List.take_left' hlen]
          exact List.prefix_append _ _
        · show rb.offset + data.length ≤ List.length (_ ++ _ ++ _)
          rw [List.length_append, hlen]
          omega

/-- A packet adds to the bytes that can be read, and changes none of them. -/
theorem write_prefix {rb rb' : ReceiveBuffer} (h : rb.WF) {data : Bytes} {seqNum : Uint16}
    {err : Option RecvError} (hw : rb.write data seqNum = .ok (rb', err)) :
    rb.buf.take rb.offset <+: rb'.buf.take rb'.offset := by
  unfold write at hw
  split at hw
  · cases hw
    exact List.prefix_refl _
  split at hw
  · cases hw
    exact List.prefix_refl _
  · obtain ⟨rb₁, hdrain, hw⟩ := bind_eq_ok.mp hw
    cases hw
    have hoff : rb.offset ≤ rb.buf.length := by
      have := h.fits
      omega
    have hpre := drain_prefix (by exact hoff) hdrain
    exact hpre

/-! ### Read -/

/-- What reading leads to: the bytes read leave the front of the stream. -/
structure DidRead (rb : ReceiveBuffer) (bufLen : Nat) (out : Bytes) (rb' : ReceiveBuffer) :
    Prop where
  wf : rb'.WF
  init : rb'.initSeqNum = rb.initSeqNum
  size : rb'.buf.length = rb.buf.length
  consumed : rb'.consumed = rb.consumed
  pending : rb'.pending = rb.pending
  length : out.length = min bufLen rb.offset
  offset : rb'.offset = rb.offset - out.length
  stream : out ++ rb'.buf.take rb'.offset = rb.buf.take rb.offset

theorem read_spec {rb : ReceiveBuffer} (h : rb.WF) (bufLen : Nat) :
    ∃ out rb', rb.read bufLen = .ok (out, rb') ∧ DidRead rb bufLen out rb' := by
  have hoff : rb.offset ≤ rb.buf.length := by
    have := h.fits
    omega
  by_cases hz : bufLen = 0
  · refine ⟨[], rb, ?_, h, rfl, rfl, rfl, rfl, ?_, rfl, rfl⟩
    · rw [read, if_pos hz]
      rfl
    · simp [hz]
  · set n := min bufLen rb.offset with hn
    have hle : n ≤ rb.offset := min_le_right _ _
    have hsum : n + (rb.offset - n) = rb.offset := by omega
    have hrest : ((rb.buf.take rb.offset).drop n).length = rb.offset - n := by
      simp [hoff]
    refine ⟨rb.buf.take n, { rb with
      buf := (rb.buf.take rb.offset).drop n ++ rb.buf.drop (rb.offset - n)
      offset := rb.offset - n }, ?_, ?_⟩
    · rw [read, if_neg hz]
      simp only [← hn, slice_of_le (Nat.zero_le n) (hle.trans hoff), ok_bind, List.drop_zero]
      rw [hsum, slice_of_le hle hoff]
      rfl
    · have hlen : (rb.buf.take n).length = n := by
        rw [List.length_take]
        omega
      have hsize : ((rb.buf.take rb.offset).drop n ++ rb.buf.drop (rb.offset - n)).length
          = rb.buf.length := by
        rw [List.length_append, hrest, List.length_drop]
        omega
      refine ⟨⟨?_, h.later⟩, rfl, hsize, rfl, rfl, hlen, ?_, ?_⟩
      · show rb.offset - n + rb.pendingBytes ≤ List.length (_ ++ _)
        rw [hsize]
        have := h.fits
        omega
      · show rb.offset - n = rb.offset - _
        rw [hlen]
      · show rb.buf.take n ++ List.take (rb.offset - n) (_ ++ _) = _
        rw [List.take_left' hrest]
        have htake : rb.buf.take n = (rb.buf.take rb.offset).take n := by
          rw [List.take_take, min_eq_left hle]
        rw [htake, List.take_append_drop]

theorem didRead_of_ok {rb rb' : ReceiveBuffer} (h : rb.WF) {bufLen : Nat} {out : Bytes}
    (hr : rb.read bufLen = .ok (out, rb')) : DidRead rb bufLen out rb' := by
  obtain ⟨out₁, rb₁, hr₁, hdid⟩ := read_spec h bufLen
  rw [hr₁] at hr
  cases hr
  exact hdid

theorem WF.read {rb rb' : ReceiveBuffer} (h : rb.WF) {bufLen : Nat} {out : Bytes}
    (hr : rb.read bufLen = .ok (out, rb')) : rb'.WF := (didRead_of_ok h hr).wf

theorem DidRead.holds {rb rb' : ReceiveBuffer} {bufLen : Nat} {out : Bytes}
    (h : DidRead rb bufLen out rb') (s : Uint16) : rb'.Holds s ↔ rb.Holds s := by
  unfold Holds
  rw [h.init, h.consumed, h.pending]

theorem DidRead.content {rb rb' : ReceiveBuffer} {bufLen : Nat} {out : Bytes}
    (h : DidRead rb bufLen out rb') {f : ℕ → Option Bytes} {o : Bytes} (hc : Content f o rb) :
    Content f (o ++ out) rb' := by
  refine ⟨?_, ?_, ?_⟩
  · rw [h.consumed]
    exact hc.known
  · rw [List.append_assoc, h.stream, hc.stream, h.consumed]
  · rw [h.pending, h.init]
    exact hc.pend

end ReceiveBuffer

end UtpGo
