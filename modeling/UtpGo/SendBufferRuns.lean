/-
UtpGo/SendBufferRuns.lean

Runs of the send buffer: any sequence of `Write` and `Read` calls, of any
lengths.  Beside the buffer a run records the bytes the writes took, as far
as the counts they returned say, and the bytes the reads returned.

Main result: the buffer is a bounded queue of bytes (`run_queue`).  What the
reads returned followed by what is held is what the writes took, each write
takes as much of its data as there is room for, and the room is the size less
the bytes held.
-/
import UtpGo.SendBuffer

namespace UtpGo

open Checked

namespace SendBuffer

/-! ### Runs -/

inductive Call where
  | write (data : Bytes)
  | read (bufLen : Nat)

structure RunState where
  sb : SendBuffer
  accepted : Bytes
  out : Bytes

def call (st : RunState) : Call → GoM RunState
  | .write data => do
      let (sb, n) ← st.sb.write data
      pure { st with sb, accepted := st.accepted ++ data.take n.toNat }
  | .read bufLen => do
      let (out, sb) ← st.sb.read bufLen
      pure { st with sb, out := st.out ++ out }

def run (size : Nat) (calls : List Call) : GoM RunState :=
  calls.foldlM call ⟨newSendBuffer size, [], []⟩

/-! ### One call -/

theorem length_read_le {sb sb' : SendBuffer} {bufLen : Nat} {out : Bytes}
    (hok : sb.read bufLen = .ok (out, sb')) : out.length ≤ bufLen := by
  unfold read at hok
  split at hok
  · cases hok
    exact Nat.zero_le _
  split at hok
  · cases hok
    exact Nat.zero_le _
  · obtain ⟨out₁, hslice, hok⟩ := bind_eq_ok.mp hok
    obtain ⟨-, -, rfl⟩ := slice_eq_ok.mp hslice
    have hle : ∀ (data : Bytes) (n : Nat), n ≤ bufLen →
        ((data.take (sb.offset + n)).drop sb.offset).length ≤ bufLen := by
      intro data n hn
      rw [List.length_drop, List.length_take]
      omega
    split at hok <;> cases hok <;> exact hle _ _ (min_le_right _ _)

/-- A slice that fits is held whole, and of one that does not as many bytes
as there is room for: in both cases a front of it. -/
theorem write_spec {sb : SendBuffer} (h : sb.WF) (hroom : 0 ≤ sb.available) (data : Bytes) :
    ∃ sb', sb.write data = .ok (sb', min (data.length : Int) sb.available) ∧ sb'.WF ∧
      sb'.size = sb.size ∧
      sb'.unread = sb.unread ++ data.take (min (data.length : Int) sb.available).toNat := by
  by_cases hle : (data.length : Int) ≤ sb.available
  · refine ⟨{ sb with pending := sb.pending ++ [data] }, ?_, wf_append h data, rfl, ?_⟩
    · rw [write_of_le hle, min_eq_left hle]
    · rw [unread_append h, min_eq_left hle, Int.toNat_natCast, List.take_length]
  · have hlt : sb.available.toNat ≤ data.length := by omega
    set part := data.take sb.available.toNat with hpart
    refine ⟨{ sb with pending := sb.pending ++ [part] }, ?_, wf_append h part, rfl, ?_⟩
    · rw [write, if_neg hle, if_neg (by omega), slice_of_le (Nat.zero_le _) hlt, ok_bind,
        min_eq_right (by omega)]
      rfl
    · rw [unread_append h, min_eq_right (by omega)]

/-! ### Up to an empty slice -/

/-- The bytes held before the first empty slice.  Reading that slice returns
nothing, as if the buffer were empty. -/
def front (sb : SendBuffer) : Bytes :=
  (sb.pending.takeWhile fun data => decide (data ≠ [])).flatten.drop sb.offset

theorem front_prefix {sb : SendBuffer} (h : sb.WF) : sb.front <+: sb.unread := by
  have hle : sb.offset ≤ (sb.pending.takeWhile fun data => decide (data ≠ [])).flatten.length := by
    unfold WF at h
    rcases hp : sb.pending with - | ⟨data, rest⟩
    · rw [hp] at h
      exact h.trans_le (Nat.zero_le _)
    · rw [hp] at h
      rcases h with h | h
      · exact h.trans_le (Nat.zero_le _)
      · -- a slice read in part is not empty
        have hne : data ≠ [] := by
          rintro rfl
          exact absurd h (Nat.not_lt_zero _)
        rw [List.takeWhile_cons_of_pos (by simpa using hne), List.flatten_cons, List.length_append]
        omega
  refine ⟨(sb.pending.dropWhile fun data => decide (data ≠ [])).flatten, ?_⟩
  rw [unread, front, ← List.drop_append_of_le_length hle, ← List.flatten_append,
    List.takeWhile_append_dropWhile]

/-- A read takes from the front of these bytes, and it returns nothing only if
there are none. -/
theorem read_front {sb sb' : SendBuffer} {bufLen : Nat} {out : Bytes} (h : sb.WF)
    (hlen : bufLen ≠ 0) (hok : sb.read bufLen = .ok (out, sb')) :
    out = [] ∧ sb.front = [] ∨ out ≠ [] ∧ sb.front = out ++ sb'.front := by
  rw [read, if_neg hlen] at hok
  unfold WF at h
  rcases hp : sb.pending with - | ⟨data, rest⟩
  · rw [hp] at hok
    cases hok
    exact .inl ⟨rfl, by simp [front, hp]⟩
  rw [hp] at hok h
  obtain ⟨out₁, hslice, hok⟩ := bind_eq_ok.mp hok
  obtain ⟨-, hle, rfl⟩ := slice_eq_ok.mp hslice
  set n := min (data.length - sb.offset) bufLen with hn
  by_cases hdata : data = []
  · left
    subst hdata
    have hout : (([] : Bytes).take (sb.offset + n)).drop sb.offset = [] := by simp
    refine ⟨?_, by simp [front, hp]⟩
    split at hok <;> cases hok <;> exact hout
  right
  have hpos : 0 < data.length := List.length_pos_iff.mpr hdata
  have hlt : sb.offset < data.length := by omega
  -- the slice splits into what was read before, what is read now and the rest
  have hfront : ∀ later : Bytes, (data ++ later).drop sb.offset
      = (data.take (sb.offset + n)).drop sb.offset ++ (data ++ later).drop (sb.offset + n) := by
    intro later
    have hcut : (data.take (sb.offset + n)).drop sb.offset
        = ((data ++ later).drop sb.offset).take n := by
      rw [List.drop_take, Nat.add_sub_cancel_left, List.drop_append_of_le_length hlt.le,
        List.take_append_of_le_length (by rw [List.length_drop]; omega)]
    rw [hcut, List.drop_take_append_drop]
  have hne : (data.take (sb.offset + n)).drop sb.offset ≠ [] := by
    rw [← List.length_pos_iff, List.length_drop, List.length_take]
    omega
  have hpend : (data :: rest).takeWhile (fun data => decide (data ≠ []))
      = data :: rest.takeWhile fun data => decide (data ≠ []) :=
    List.takeWhile_cons_of_pos (by simpa using hdata)
  split at hok
  · rename_i hend
    cases hok
    refine ⟨hne, ?_⟩
    rw [front, hp, hpend, List.flatten_cons, hfront, hend, List.drop_left]
    rfl
  · cases hok
    refine ⟨hne, ?_⟩
    rw [front, hp, hpend, List.flatten_cons, hfront]
    show _ = _ ++ List.drop _ ((data :: rest).takeWhile _).flatten
    rw [hpend, List.flatten_cons]

/-! ### The invariant of a run -/

structure RunInv (size : Nat) (st : RunState) : Prop where
  wf : st.sb.WF
  room : st.sb.unread.length ≤ size
  size : st.sb.size = size
  queue : st.out ++ st.sb.unread = st.accepted

theorem runInv_new (size : Nat) : RunInv size ⟨newSendBuffer size, [], []⟩ where
  wf := wf_new size
  room := Nat.zero_le _
  size := rfl
  queue := rfl

theorem RunInv.available {size : Nat} {st : RunState} (h : RunInv size st) :
    st.sb.available = (size : Int) - st.sb.unread.length := by
  rw [available_eq h.wf, h.size]

theorem RunInv.available_nonneg {size : Nat} {st : RunState} (h : RunInv size st) :
    0 ≤ st.sb.available := by
  have hroom := h.room
  rw [h.available]
  omega

/-- A call returns and keeps the invariant: a write adds at the end of the
queue, a read takes from its front. -/
theorem call_inv {size : Nat} {st : RunState} (h : RunInv size st) (c : Call) :
    ∃ st', call st c = .ok st' ∧ RunInv size st' := by
  cases c with
  | write data =>
      obtain ⟨sb', hw, hwf, hsize, hunread⟩ := write_spec h.wf h.available_nonneg data
      refine ⟨_, by rw [call, hw]; rfl, hwf, ?_, hsize.trans h.size, ?_⟩
      · show sb'.unread.length ≤ size
        have hav := h.available
        have hroom := h.room
        rw [hunread, List.length_append, List.length_take]
        omega
      · show st.out ++ sb'.unread = _
        rw [hunread, ← List.append_assoc, h.queue]
  | read bufLen =>
      obtain ⟨out, sb', hr, hdid⟩ := read_spec h.wf bufLen
      refine ⟨_, by rw [call, hr]; rfl, hdid.wf, ?_, hdid.size.trans h.size, ?_⟩
      · show sb'.unread.length ≤ size
        have hroom := h.room
        rw [hdid.stream, List.length_append] at hroom
        omega
      · show (st.out ++ out) ++ sb'.unread = st.accepted
        rw [List.append_assoc, ← hdid.stream, h.queue]

theorem calls_inv {size : Nat} {st : RunState} (h : RunInv size st) (calls : List Call) :
    ∃ st', calls.foldlM call st = .ok st' ∧ RunInv size st' := by
  induction calls generalizing st with
  | nil => exact ⟨st, rfl, h⟩
  | cons c calls ih =>
      obtain ⟨st₁, h₁, hinv₁⟩ := call_inv h c
      obtain ⟨st', h', hinv'⟩ := ih hinv₁
      refine ⟨st', ?_, hinv'⟩
      rw [List.foldlM_cons, h₁]
      exact h'

/-! ### The queue -/

/-- **The send buffer is a bounded queue of bytes.**  Any calls return, so
that no slice in `Read` is out of bounds; after them the bytes returned by
the reads followed by the bytes held are the bytes taken by the writes, in
order, and `Available` is the size less the bytes held, and not negative.  A
further write takes exactly the first `min(len, Available)` bytes of its data
and returns that count, and a further read returns. -/
theorem run_queue (size : Nat) (calls : List Call) :
    ∃ st, run size calls = .ok st ∧
      st.out ++ st.sb.unread = st.accepted ∧
      st.sb.available = (size : Int) - st.sb.unread.length ∧
      0 ≤ st.sb.available ∧
      (∀ data, ∃ sb', st.sb.write data = .ok (sb', min (data.length : Int) st.sb.available) ∧
        sb'.unread = st.sb.unread ++ data.take (min (data.length : Int) st.sb.available).toNat) ∧
      ∀ bufLen, ∃ out sb', st.sb.read bufLen = .ok (out, sb') ∧ out.length ≤ bufLen ∧
        st.sb.unread = out ++ sb'.unread := by
  obtain ⟨st, hst, h⟩ := calls_inv (runInv_new size) calls
  refine ⟨st, hst, h.queue, h.available, h.available_nonneg, ?_, ?_⟩
  · intro data
    obtain ⟨sb', hw, -, -, hunread⟩ := write_spec h.wf h.available_nonneg data
    exact ⟨sb', hw, hunread⟩
  · intro bufLen
    obtain ⟨out, sb', hr, hdid⟩ := read_spec h.wf bufLen
    exact ⟨out, sb', hr, hdid.length, hdid.stream⟩

end SendBuffer

end UtpGo
