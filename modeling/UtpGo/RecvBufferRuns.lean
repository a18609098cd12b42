/-
UtpGo/RecvBufferRuns.lean

Runs of the receive buffer: any sequence of `Write` and `Read` calls, with
arbitrary sequence numbers.  Beside the buffer a run records which writes
were accepted and what the reads returned.

Main results: the buffer reassembles the stream of the accepted writes,
whatever order they come in (`run_reassembles`), and it accepts the next
number of the stream exactly as long as `consumed` has not reached its
maximum (`write_next_advances_iff`).  Its capacity is exact: every byte of the
`size` is copied, pending or available, and a write is refused only for want
of room (`run_capacity`).
-/
import UtpGo.RecvBufferSpec

namespace UtpGo

open Circular Checked Reassembly

namespace ReceiveBuffer

/-! ### Runs -/

inductive Call where
  | write (data : Bytes) (seqNum : Uint16)
  | read (bufLen : Nat)

/-- A run so far: the buffer, the accepted writes in order, and the bytes the
reads returned. -/
structure RunState where
  rb : ReceiveBuffer
  accepted : List (Uint16 × Bytes)
  out : Bytes

def call (st : RunState) : Call → GoM RunState
  | .write data seqNum => do
      let (rb, _) ← st.rb.write data seqNum
      pure { st with
        rb
        accepted := if st.rb.accepts data seqNum then st.accepted ++ [(seqNum, data)]
          else st.accepted }
  | .read bufLen => do
      let (out, rb) ← st.rb.read bufLen
      pure { st with rb, out := st.out ++ out }

def run (size : Nat) (initSeqNum : Uint16) (calls : List Call) : GoM RunState :=
  calls.foldlM call ⟨newReceiveBuffer size initSeqNum, [], []⟩

/-- The data of the first accepted write with a given number. -/
def firstData (accepted : List (Uint16 × Bytes)) (seqNum : Uint16) : Option Bytes :=
  (accepted.find? fun e => e.1 = seqNum).map (·.2)

/-- The accepted writes as a numbered stream. -/
def chunkAt (initSeqNum : Uint16) (accepted : List (Uint16 × Bytes)) (k : ℕ) : Option Bytes :=
  firstData accepted (initSeqNum + 1 + BitVec.ofNat 16 k)

theorem firstData_isSome {accepted : List (Uint16 × Bytes)} {s : Uint16} :
    (firstData accepted s).isSome = true ↔ s ∈ accepted.map (·.1) := by
  unfold firstData
  rw [Option.isSome_map, List.find?_isSome, List.mem_map]
  refine exists_congr fun e => and_congr_right fun _ => ?_
  simp

theorem firstData_append {accepted : List (Uint16 × Bytes)} {s : Uint16} {d : Bytes}
    (h : firstData accepted s = some d) (e : Uint16 × Bytes) :
    firstData (accepted ++ [e]) s = some d := by
  unfold firstData at h ⊢
  rw [List.find?_append]
  rcases hf : accepted.find? (fun e => e.1 = s) with - | e'
  · rw [hf] at h
    cases h
  · rw [hf] at h ⊢
    exact h

theorem firstData_new {accepted : List (Uint16 × Bytes)} {s : Uint16} {d : Bytes}
    (h : s ∉ accepted.map (·.1)) : firstData (accepted ++ [(s, d)]) s = some d := by
  have hnone : accepted.find? (fun e => e.1 = s) = none := by
    rw [List.find?_eq_none]
    intro e he heq
    exact h (List.mem_map.mpr ⟨e, he, by simpa using heq⟩)
  simp [firstData, List.find?_append, hnone]

theorem chunkAt_eq (initSeqNum : Uint16) (accepted : List (Uint16 × Bytes)) (k : ℕ) :
    chunkAt initSeqNum accepted k
      = firstData accepted (initSeqNum + BitVec.ofNat 16 (k + 1)) := by
  have hnum : initSeqNum + BitVec.ofNat 16 (k + 1) = initSeqNum + 1 + BitVec.ofNat 16 k := by
    bv_omega
  rw [hnum, chunkAt]

theorem chunkAt_ahead {initSeqNum s : Uint16} (accepted : List (Uint16 × Bytes))
    (h : 0 < ahead initSeqNum s) :
    chunkAt initSeqNum accepted (ahead initSeqNum s - 1) = firstData accepted s := by
  have hs : initSeqNum + 1 + BitVec.ofNat 16 (ahead initSeqNum s - 1) = s := by
    unfold ahead at h ⊢
    bv_omega
  rw [chunkAt, hs]

/-- The data consumed: that of the first accepted writes with the numbers
`initSeqNum + 1` up to `initSeqNum + consumed`, in this order. -/
def RunState.consumedBytes (st : RunState) : Bytes :=
  (List.range st.rb.consumed.toNat).flatMap fun k =>
    (firstData st.accepted (st.rb.initSeqNum + BitVec.ofNat 16 (k + 1))).getD []

/-! ### The invariant of a run -/

structure RunInv (size : Nat) (initSeqNum : Uint16) (st : RunState) : Prop where
  wf : st.rb.WF
  init : st.rb.initSeqNum = initSeqNum
  size : st.rb.buf.length = size
  content : Content (chunkAt initSeqNum st.accepted) st.out st.rb
  holds : ∀ s, st.rb.Holds s ↔ s ∈ st.accepted.map (·.1)
  pending : ∀ e, e ∈ st.rb.pending.entries ↔
    e ∈ st.accepted ∧ st.rb.consumed.toNat < ahead initSeqNum e.1
  nodup : (st.accepted.map (·.1)).Nodup

theorem runInv_new (size : Nat) (initSeqNum : Uint16) :
    RunInv size initSeqNum ⟨newReceiveBuffer size initSeqNum, [], []⟩ where
  wf := wf_new size initSeqNum
  init := rfl
  size := by simp [newReceiveBuffer]
  content := content_new _ size initSeqNum
  holds := by
    intro s
    simp only [Holds, newReceiveBuffer, OrdMap.contains, OrdMap.get?_empty]
    simp
    omega
  pending := by simp [newReceiveBuffer]
  nodup := by simp

/-- A call returns, keeps the invariant and never turns `consumed` back. -/
theorem call_inv {size : Nat} {initSeqNum : Uint16} {st : RunState}
    (h : RunInv size initSeqNum st) (c : Call) :
    ∃ st', call st c = .ok st' ∧ RunInv size initSeqNum st' ∧
      st.rb.consumed.toNat ≤ st'.rb.consumed.toNat := by
  cases c with
  | write data seqNum =>
      obtain ⟨rb', err, hw, hout⟩ := write_spec h.wf data seqNum
      rcases hout with ⟨hacc, -, hwrote⟩ | ⟨hrej, rfl, -⟩
      · refine ⟨⟨rb', st.accepted ++ [(seqNum, data)], st.out⟩, ?_, ?_, hwrote.mono⟩
        · simp [call, hw, hacc]
        · have hnew : seqNum ∉ st.accepted.map (·.1) := by
            intro hmem
            have hold := (wasWritten_iff st.rb seqNum).mpr (.inr ((h.holds seqNum).mpr hmem))
            simp [accepts, hold] at hacc
          have hpos : 0 < ahead initSeqNum seqNum := by
            rcases Nat.eq_zero_or_pos (ahead initSeqNum seqNum) with h0 | hpos
            · have heq : seqNum = st.rb.initSeqNum := by rw [h.init, ahead_eq_zero.mp h0]
              have hold := (wasWritten_iff st.rb seqNum).mpr (.inl heq)
              simp [accepts, hold] at hacc
            · exact hpos
          refine ⟨hwrote.wf, hwrote.init.trans h.init, hwrote.size.trans h.size, ?_, ?_, ?_, ?_⟩
          · apply hwrote.content
            · rw [h.init, chunkAt_ahead _ hpos, firstData_new hnew]
            · exact h.content.mono fun k v hk => firstData_append hk _
          · intro s
            rw [hwrote.holds, h.holds]
            simp [or_comm]
          · intro e
            rw [hwrote.pending, h.init, h.pending, List.mem_append, List.mem_singleton]
            constructor
            · rintro ⟨rfl | ⟨hmem, -⟩, hlt⟩
              · exact ⟨.inr rfl, hlt⟩
              · exact ⟨.inl hmem, hlt⟩
            · rintro ⟨hmem | rfl, hlt⟩
              · exact ⟨.inr ⟨hmem, lt_of_le_of_lt hwrote.mono hlt⟩, hlt⟩
              · exact ⟨.inl rfl, hlt⟩
          · rw [List.map_append, List.nodup_append]
            refine ⟨h.nodup, by simp, ?_⟩
            intro s hs t ht
            obtain rfl : t = seqNum := by simpa using ht
            rintro rfl
            exact hnew hs
      · refine ⟨st, ?_, h, le_refl _⟩
        simp [call, hw, hrej]
  | read bufLen =>
      obtain ⟨out, rb', hr, hdid⟩ := read_spec h.wf bufLen
      refine ⟨⟨rb', st.accepted, st.out ++ out⟩, ?_, ?_, ?_⟩
      · simp [call, hr]
      · refine ⟨hdid.wf, hdid.init.trans h.init, hdid.size.trans h.size, hdid.content h.content,
          ?_, ?_, h.nodup⟩
        · intro s
          rw [hdid.holds, h.holds]
        · intro e
          rw [hdid.pending, hdid.consumed, h.pending]
      · rw [hdid.consumed]

theorem calls_inv {size : Nat} {initSeqNum : Uint16} {st : RunState}
    (h : RunInv size initSeqNum st) (calls : List Call) :
    ∃ st', calls.foldlM call st = .ok st' ∧ RunInv size initSeqNum st' ∧
      st.rb.consumed.toNat ≤ st'.rb.consumed.toNat := by
  induction calls generalizing st with
  | nil => exact ⟨st, rfl, h, le_refl _⟩
  | cons c calls ih =>
      obtain ⟨st₁, h₁, hinv₁, hle₁⟩ := call_inv h c
      obtain ⟨st', h', hinv', hle'⟩ := ih hinv₁
      refine ⟨st', ?_, hinv', hle₁.trans hle'⟩
      rw [List.foldlM_cons, h₁]
      exact h'

theorem run_inv (size : Nat) (initSeqNum : Uint16) (calls : List Call) :
    ∃ st, run size initSeqNum calls = .ok st ∧ RunInv size initSeqNum st := by
  obtain ⟨st, hst, hinv, -⟩ := calls_inv (runInv_new size initSeqNum) calls
  exact ⟨st, hst, hinv⟩

theorem RunInv.of_run {size : Nat} {initSeqNum : Uint16} {calls : List Call} {st : RunState}
    (hrun : run size initSeqNum calls = .ok st) : RunInv size initSeqNum st := by
  obtain ⟨st', hst', h⟩ := run_inv size initSeqNum calls
  rw [hrun] at hst'
  cases hst'
  exact h

theorem RunInv.consumedBytes {size : Nat} {initSeqNum : Uint16} {st : RunState}
    (h : RunInv size initSeqNum st) :
    st.consumedBytes = st.out ++ st.rb.buf.take st.rb.offset := by
  rw [h.content.stream, inOrder, RunState.consumedBytes, h.init]
  simp only [chunkAt_eq]

/-- The front of the accepted writes is `consumed`.  At the maximum the next
number is the initial one, which is never accepted. -/
theorem RunInv.isFront {size : Nat} {initSeqNum : Uint16} {st : RunState}
    (h : RunInv size initSeqNum st) :
    IsFront (chunkAt initSeqNum st.accepted) st.rb.consumed.toNat where
  before := h.content.known
  missing := by
    have hnot : ¬ st.rb.Holds (initSeqNum + 1 + st.rb.consumed) := by
      rintro (⟨h1, h2⟩ | hc)
      · rw [h.init] at h1 h2
        unfold ahead at h1 h2
        bv_omega
      · obtain ⟨v, hv⟩ := OrdMap.contains_iff.mp hc
        have hlt := h.wf.later _ hv
        rw [h.init] at hlt
        unfold ahead at hlt
        bv_omega
    rw [h.holds, ← firstData_isSome, Bool.not_eq_true, Option.isSome_eq_false_iff,
      Option.isNone_iff_eq_none] at hnot
    rw [chunkAt, BitVec.ofNat_toNat, BitVec.setWidth_eq]
    exact hnot

theorem RunInv.pending_perm {size : Nat} {initSeqNum : Uint16} {st : RunState}
    (h : RunInv size initSeqNum st) :
    st.rb.pending.entries.Perm
      (st.accepted.filter fun e => st.rb.consumed.toNat < ahead initSeqNum e.1) := by
  refine (List.perm_ext_iff_of_nodup (OrdMap.nodup_entries _) ?_).mpr ?_
  · exact (List.Nodup.of_map _ h.nodup).filter _
  · intro e
    rw [h.pending, List.mem_filter, decide_eq_true_eq]

/-! ### Reassembly -/

/-- **The receive buffer reassembles the stream.**  After any calls, the bytes
read followed by those waiting in `buf` are the data of the first accepted
writes with the numbers `initSeqNum + 1` up to `initSeqNum + consumed`;
`consumed` is the length of the longest run of accepted numbers and no later
call turns it back; the accepted writes beyond it are pending, each once; and
a write with a number accepted before changes nothing. -/
theorem run_reassembles (size : Nat) (initSeqNum : Uint16) (calls : List Call) :
    ∃ st, run size initSeqNum calls = .ok st ∧
      st.out ++ st.rb.buf.take st.rb.offset =
        (List.range st.rb.consumed.toNat).flatMap (fun k =>
          (firstData st.accepted (initSeqNum + BitVec.ofNat 16 (k + 1))).getD []) ∧
      IsGreatest {n : ℕ | ∀ k, 1 ≤ k → k ≤ n →
        initSeqNum + BitVec.ofNat 16 k ∈ st.accepted.map (·.1)} st.rb.consumed.toNat ∧
      (∀ more, ∃ st', run size initSeqNum (calls ++ more) = .ok st' ∧
        st.rb.consumed.toNat ≤ st'.rb.consumed.toNat) ∧
      st.rb.pending.entries.Perm
        (st.accepted.filter fun e => st.rb.consumed.toNat < ahead initSeqNum e.1) ∧
      (st.accepted.map (·.1)).Nodup ∧
      ∀ data seqNum, seqNum ∈ st.accepted.map (·.1) →
        st.rb.write data seqNum = .ok (st.rb, none) := by
  obtain ⟨st, hst, h⟩ := run_inv size initSeqNum calls
  refine ⟨st, hst, ?_, ?_, ?_, h.pending_perm, h.nodup, ?_⟩
  · rw [h.content.stream, inOrder]
    simp only [chunkAt_eq]
  · have hset : {n : ℕ | ∀ k, 1 ≤ k → k ≤ n →
        initSeqNum + BitVec.ofNat 16 k ∈ st.accepted.map (·.1)}
          = {m | ∀ k < m, (chunkAt initSeqNum st.accepted k).isSome} := by
      ext n
      simp only [Set.mem_ofPred_eq, chunkAt_eq, firstData_isSome]
      constructor
      · intro hn k hk
        exact hn (k + 1) (by omega) (by omega)
      · intro hn k hk hkn
        have := hn (k - 1) (by omega)
        rwa [show k - 1 + 1 = k by omega] at this
    rw [hset]
    exact h.isFront.isGreatest
  · intro more
    obtain ⟨st', hst', -, hle⟩ := calls_inv h more
    refine ⟨st', ?_, hle⟩
    rw [run, List.foldlM_append]
    rw [run] at hst
    rw [hst]
    exact hst'
  · intro data seqNum hmem
    apply write_of_wasWritten
    rw [wasWritten_iff]
    exact .inr ((h.holds seqNum).mpr hmem)

/-! ### Capacity -/

/-- The numbers that count as written: those accepted, and the initial one,
which the peer's first packet has used. -/
theorem RunInv.wasWritten_iff {size : Nat} {initSeqNum : Uint16} {st : RunState}
    (h : RunInv size initSeqNum st) (s : Uint16) :
    st.rb.wasWritten s = true ↔ s = initSeqNum ∨ s ∈ st.accepted.map (·.1) := by
  rw [ReceiveBuffer.wasWritten_iff, h.init, h.holds]

theorem RunInv.capacity {size : Nat} {initSeqNum : Uint16} {st : RunState}
    (h : RunInv size initSeqNum st) :
    (st.rb.offset : Int) + st.rb.pendingBytes + st.rb.available = size := by
  rw [available_eq, h.size]
  omega

theorem RunInv.available_nonneg {size : Nat} {initSeqNum : Uint16} {st : RunState}
    (h : RunInv size initSeqNum st) : 0 ≤ st.rb.available := by
  have hfits := h.wf.fits
  rw [available_eq]
  omega

/-- **The capacity of the receive buffer is exact.**  Any calls return, so
that no slice in the loop of `Write` or in `Read` is out of bounds; after
them the bytes copied, the pending bytes and `Available` add up to the size
and `Available` is between 0 and the size.  A further write fails if and only
if its number was not written and its data is longer than `Available`, and
then it leaves the buffer as it was. -/
theorem run_capacity (size : Nat) (initSeqNum : Uint16) (calls : List Call) :
    ∃ st, run size initSeqNum calls = .ok st ∧
      0 ≤ st.rb.available ∧ st.rb.available ≤ size ∧
      (st.rb.offset : Int) + st.rb.pendingBytes + st.rb.available = size ∧
      (∀ s, st.rb.wasWritten s = true ↔ s = initSeqNum ∨ s ∈ st.accepted.map (·.1)) ∧
      (∀ bufLen, ∃ out rb', st.rb.read bufLen = .ok (out, rb')) ∧
      ∀ data seqNum, ∃ rb' err, st.rb.write data seqNum = .ok (rb', err) ∧
        (err ≠ none ↔ st.rb.wasWritten seqNum = false ∧ st.rb.available < data.length) ∧
        (err ≠ none → rb' = st.rb) := by
  obtain ⟨st, hst, h⟩ := run_inv size initSeqNum calls
  have hcap := h.capacity
  refine ⟨st, hst, h.available_nonneg, by omega, hcap, h.wasWritten_iff, ?_, ?_⟩
  · intro bufLen
    obtain ⟨out, rb', hr, -⟩ := read_spec h.wf bufLen
    exact ⟨out, rb', hr⟩
  · intro data seqNum
    obtain ⟨rb', err, hw, hout⟩ := write_spec h.wf data seqNum
    refine ⟨rb', err, hw, ?_⟩
    rcases hout with ⟨hacc, rfl, -⟩ | ⟨hrej, rfl, ⟨hold, rfl⟩ | ⟨hnew, rfl⟩⟩
    · -- an accepted write is new and fits
      simp only [accepts, Bool.and_eq_true, Bool.not_eq_true', decide_eq_true_eq] at hacc
      refine ⟨⟨fun hne => absurd rfl hne, fun hfull => ?_⟩, fun hne => absurd rfl hne⟩
      omega
    · simp [hold]
    · -- a refused one that is new does not fit
      have hfull : st.rb.available < data.length := by
        simpa [accepts, hnew] using hrej
      simp [hnew, hfull]

/-! ### Liveness of the front -/

theorem WF.accepts_next {rb : ReceiveBuffer} (h : rb.WF) {data : Bytes}
    (hroom : (data.length : Int) ≤ rb.available) (hc : rb.consumed.toNat < 65535) :
    rb.accepts data (rb.ackNum + 1) = true := by
  have hahead : ahead rb.initSeqNum (rb.ackNum + 1) = rb.consumed.toNat + 1 := by
    unfold ahead ackNum
    bv_omega
  have hnot : ¬ (rb.ackNum + 1 = rb.initSeqNum ∨ rb.Holds (rb.ackNum + 1)) := by
    rintro (h0 | ⟨-, hle⟩ | hp)
    · rw [← ahead_eq_zero] at h0
      omega
    · omega
    · obtain ⟨v, hv⟩ := OrdMap.contains_iff.mp hp
      have hlt : rb.consumed.toNat + 1 < ahead rb.initSeqNum (rb.ackNum + 1) :=
        h.later (rb.ackNum + 1, v) hv
      omega
  rw [← wasWritten_iff, Bool.not_eq_true] at hnot
  rw [accepts, hnot]
  simpa using hroom

/-- Writing the number after `AckNum` advances the buffer, unless `consumed`
is at its maximum. -/
theorem WF.write_next {rb : ReceiveBuffer} (h : rb.WF) {data : Bytes}
    (hroom : (data.length : Int) ≤ rb.available) (hc : rb.consumed.toNat < 65535) :
    ∃ rb', rb.write data (rb.ackNum + 1) = .ok (rb', none) ∧
      rb.consumed.toNat < rb'.consumed.toNat ∧ Wrote rb data (rb.ackNum + 1) rb' := by
  have hahead : ahead rb.initSeqNum (rb.ackNum + 1) = rb.consumed.toNat + 1 := by
    unfold ahead ackNum
    bv_omega
  obtain ⟨rb', hw, hwrote⟩ := write_of_accepts h (h.accepts_next hroom hc)
  refine ⟨rb', hw, ?_, hwrote⟩
  have hmono := hwrote.mono
  rcases (hwrote.holds _).mpr (.inl rfl) with ⟨-, hle⟩ | hp
  · rw [hwrote.init] at hle
    omega
  · obtain ⟨v, hv⟩ := OrdMap.contains_iff.mp hp
    have hlt : rb'.consumed.toNat + 1 < ahead rb'.initSeqNum (rb.ackNum + 1) :=
      hwrote.wf.later (rb.ackNum + 1, v) hv
    rw [hwrote.init] at hlt
    omega

/-- `n` packets of one byte each, in order. -/
def inOrderWrites (b : Byte) (n : Nat) : List Call :=
  (List.range n).map fun k => .write [b] (BitVec.ofNat 16 (k + 1))

theorem run_inOrderWrites (b : Byte) {size n : Nat} (hn : n ≤ 65535) (hsize : n ≤ size) :
    ∃ st, run size 0 (inOrderWrites b n) = .ok st ∧
      st.accepted.map (·.1) = (List.range n).map (fun k => BitVec.ofNat 16 (k + 1)) ∧
      st.rb.consumed.toNat = n ∧ st.rb.available = (size : Int) - n := by
  induction n with
  | zero =>
      exact ⟨_, rfl, rfl, rfl, available_new size 0⟩
  | succ n ih =>
      obtain ⟨st, hst, hacc, hcons, hav⟩ := ih (by omega) (by omega)
      have h := RunInv.of_run hst
      have hnum : st.rb.ackNum + 1 = BitVec.ofNat 16 (n + 1) := by
        unfold ackNum
        rw [h.init]
        bv_omega
      have hroom : ([b].length : Int) ≤ st.rb.available := by
        rw [hav, List.length_singleton]
        omega
      have haccepts := h.wf.accepts_next hroom (by omega)
      obtain ⟨rb', hw, hlt, hwrote⟩ := h.wf.write_next hroom (by omega)
      rw [hnum] at haccepts hw hwrote
      have hrun : run size 0 (inOrderWrites b (n + 1))
          = .ok ⟨rb', st.accepted ++ [(BitVec.ofNat 16 (n + 1), [b])], st.out⟩ := by
        rw [run] at hst
        rw [run, inOrderWrites, List.range_succ, List.map_append, List.foldlM_append]
        show (List.foldlM call _ (inOrderWrites b n) >>= _) = _
        rw [hst]
        simp [call, hw, haccepts]
      refine ⟨_, hrun, ?_, ?_, ?_⟩
      · rw [List.map_append, hacc, List.range_succ, List.map_append]
        rfl
      · -- the numbers accepted end at `n + 1`, so the front is there
        have hfront := (RunInv.of_run hrun).isFront
        show rb'.consumed.toNat = n + 1
        by_contra hne
        have hnext := hfront.before (n + 1) (by
          show n + 1 < rb'.consumed.toNat
          omega)
        rw [chunkAt, firstData_isSome, List.map_append, hacc, List.mem_append] at hnext
        rcases hnext with hmem | hmem
        · obtain ⟨k, hk, heq⟩ := List.mem_map.mp hmem
          rw [List.mem_range] at hk
          bv_omega
        · rw [List.map_singleton, List.mem_singleton] at hmem
          bv_omega
      · show rb'.available = _
        rw [hwrote.room, hav, List.length_singleton]
        omega

/-- **The next number of the stream is accepted until the counter is full.**
In every state a run leads to, and for all data there is room for, writing
the number after `AckNum` returns nil and advances `AckNum` if and only if
fewer than 65535 packets have been consumed. -/
theorem write_next_advances_iff {size : Nat} {initSeqNum : Uint16} {calls : List Call}
    {st : RunState} (hrun : run size initSeqNum calls = .ok st) {data : Bytes}
    (hroom : (data.length : Int) ≤ st.rb.available) :
    (∃ rb', st.rb.write data (st.rb.ackNum + 1) = .ok (rb', none) ∧
        1 ≤ ahead st.rb.ackNum rb'.ackNum) ↔ st.rb.consumed.toNat < 65535 := by
  have h := RunInv.of_run hrun
  constructor
  · rintro ⟨rb', hw, hadv⟩
    by_contra hmax
    -- the number after the maximum is the initial one, and it counts as written
    have hinit : st.rb.ackNum + 1 = st.rb.initSeqNum := by
      unfold ackNum
      bv_omega
    rw [write_of_wasWritten ((wasWritten_iff _ _).mpr (.inl hinit))] at hw
    obtain rfl : st.rb = rb' := congrArg Prod.fst (Except.ok.inj hw)
    simp at hadv
  · intro hlt
    obtain ⟨rb', hw, hadv, hwrote⟩ := h.wf.write_next hroom hlt
    refine ⟨rb', hw, ?_⟩
    unfold ahead ackNum
    rw [hwrote.init]
    bv_omega

/-- The 65535th packet is the last one. -/
theorem write_next_advances_iff_last : ∃ st rb', run 65536 0 (inOrderWrites 0xEF 65534) = .ok st ∧
    st.rb.consumed.toNat = 65534 ∧
    st.rb.write [0xEF] (st.rb.ackNum + 1) = .ok (rb', none) ∧
    1 ≤ ahead st.rb.ackNum rb'.ackNum := by
  obtain ⟨st, hst, -, hcons, hav⟩ :=
    run_inOrderWrites 0xEF (show 65534 ≤ 65535 by omega) (show 65534 ≤ 65536 by omega)
  have hroom : (([0xEF] : Bytes).length : Int) ≤ st.rb.available := by
    rw [hav, List.length_singleton]
    omega
  obtain ⟨rb', hw, hadv⟩ := (write_next_advances_iff hst hroom).mpr (by omega)
  exact ⟨st, rb', hst, hcons, hw, hadv⟩

/-- After 65535 packets the buffer drops the next one and reports success. -/
theorem write_next_dropped : ∃ st, run 65536 0 (inOrderWrites 0xEF 65535) = .ok st ∧
    (([0xEF] : Bytes).length : Int) ≤ st.rb.available ∧
    st.rb.write [0xEF] (st.rb.ackNum + 1) = .ok (st.rb, none) := by
  obtain ⟨st, hst, -, hcons, hav⟩ :=
    run_inOrderWrites 0xEF (le_refl 65535) (show 65535 ≤ 65536 by omega)
  refine ⟨st, hst, ?_, ?_⟩
  · rw [hav, List.length_singleton]
    omega
  · apply write_of_wasWritten
    rw [wasWritten_iff]
    left
    unfold ackNum
    bv_omega

end ReceiveBuffer

end UtpGo
