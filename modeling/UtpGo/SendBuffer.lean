/-
UtpGo/SendBuffer.lean

The send buffer: `send_buffer.go`.  Written slices wait in `pending`, and
`offset` bytes of the first one have been read already.  `unread` is the
stream the buffer still holds: a write appends to it, a read takes from its
front, and `Available` is the room that is left (`available_eq`).

A slice of length zero is pending like any other; reading it returns nothing
and removes it.
-/
import UtpGo.Basic

namespace UtpGo

open Checked

structure SendBuffer where
  pending : List Bytes
  offset : Nat
  size : Nat
  deriving DecidableEq, Repr

def newSendBuffer (size : Nat) : SendBuffer := { pending := [], offset := 0, size }

namespace SendBuffer

def available (sb : SendBuffer) : Int :=
  let used := sb.pending.foldl (fun used data => used + data.length) 0
  (sb.size : Int) + sb.offset - (used : Nat)

def isEmpty (sb : SendBuffer) : Bool := sb.pending.length == 0

def write (sb : SendBuffer) (data : Bytes) : GoM (SendBuffer × Int) :=
  let available := sb.available
  if (data.length : Int) ≤ available then
    pure ({ sb with pending := sb.pending ++ [data] }, data.length)
  else if available < 0 then throw .sliceBounds
  else do
    let part ← slice data 0 available.toNat
    pure ({ sb with pending := sb.pending ++ [part] }, available)

/-- `Read` into a buffer of `bufLen` bytes: the bytes copied out, at most the
rest of the first slice. -/
def read (sb : SendBuffer) (bufLen : Nat) : GoM (Bytes × SendBuffer) :=
  if bufLen = 0 then pure ([], sb)
  else match sb.pending with
    | [] => pure ([], sb)
    | data :: rest => do
        let n := min (data.length - sb.offset) bufLen
        let out ← slice data sb.offset (sb.offset + n)
        if sb.offset + n = data.length then
          pure (out, { sb with offset := 0, pending := rest })
        else
          pure (out, { sb with offset := sb.offset + n })

/-! ### The stream held -/

/-- The bytes written and not yet read. -/
def unread (sb : SendBuffer) : Bytes := sb.pending.flatten.drop sb.offset

/-- Only the first slice may have been read in part, and not to its end. -/
def WF (sb : SendBuffer) : Prop :=
  match sb.pending with
  | [] => sb.offset = 0
  | data :: _ => sb.offset = 0 ∨ sb.offset < data.length

theorem wf_new (size : Nat) : (newSendBuffer size).WF := rfl

theorem isEmpty_iff (sb : SendBuffer) : sb.isEmpty = true ↔ sb.pending = [] := by
  simp [isEmpty]

theorem unread_of_isEmpty {sb : SendBuffer} (h : sb.isEmpty = true) : sb.unread = [] := by
  rw [isEmpty_iff] at h
  simp [unread, h]

theorem WF.offset_le {sb : SendBuffer} (h : sb.WF) : sb.offset ≤ sb.pending.flatten.length := by
  unfold WF at h
  rcases hp : sb.pending with - | ⟨data, rest⟩
  · rw [hp] at h
    exact h.trans_le (Nat.zero_le _)
  · rw [hp] at h
    rw [List.flatten_cons, List.length_append]
    rcases h with h | h <;> omega

theorem foldl_length (l : List Bytes) (a : Nat) :
    l.foldl (fun used data => used + data.length) a = a + l.flatten.length := by
  induction l generalizing a with
  | nil => rfl
  | cons data l ih =>
      rw [List.foldl_cons, ih, List.flatten_cons, List.length_append]
      omega

theorem available_eq {sb : SendBuffer} (h : sb.WF) :
    sb.available = (sb.size : Int) - sb.unread.length := by
  have hle := h.offset_le
  show (sb.size : Int) + sb.offset - (sb.pending.foldl _ 0 : Nat) = _
  rw [foldl_length, unread, List.length_drop]
  omega

/-! ### Writing and reading -/

theorem write_of_le {sb : SendBuffer} {data : Bytes} (h : (data.length : Int) ≤ sb.available) :
    sb.write data = .ok ({ sb with pending := sb.pending ++ [data] }, data.length) := by
  rw [write, if_pos h]
  rfl

theorem wf_append {sb : SendBuffer} (h : sb.WF) (data : Bytes) :
    SendBuffer.WF { sb with pending := sb.pending ++ [data] } := by
  unfold WF at h ⊢
  rcases hp : sb.pending with - | ⟨first, rest⟩
  · rw [hp] at h
    exact .inl h
  · rw [hp] at h
    exact h

theorem unread_append {sb : SendBuffer} (h : sb.WF) (data : Bytes) :
    SendBuffer.unread { sb with pending := sb.pending ++ [data] } = sb.unread ++ data := by
  show (sb.pending ++ [data]).flatten.drop sb.offset = _
  rw [List.flatten_append, List.drop_append_of_le_length h.offset_le]
  simp [unread]

/-- What reading leads to. -/
structure DidRead (sb : SendBuffer) (bufLen : Nat) (out : Bytes) (sb' : SendBuffer) : Prop where
  wf : sb'.WF
  size : sb'.size = sb.size
  stream : sb.unread = out ++ sb'.unread
  length : out.length ≤ bufLen
  empty : sb.pending = [] → sb'.pending = [] ∧ out = []

theorem read_spec {sb : SendBuffer} (h : sb.WF) (bufLen : Nat) :
    ∃ out sb', sb.read bufLen = .ok (out, sb') ∧ DidRead sb bufLen out sb' := by
  by_cases hz : bufLen = 0
  · refine ⟨[], sb, ?_, h, rfl, rfl, Nat.zero_le _, fun he => ⟨he, rfl⟩⟩
    rw [read, if_pos hz]
    rfl
  rcases hp : sb.pending with - | ⟨data, rest⟩
  · refine ⟨[], sb, ?_, h, rfl, rfl, Nat.zero_le _, fun he => ⟨he, rfl⟩⟩
    rw [read, if_neg hz, hp]
    rfl
  · unfold WF at h
    rw [hp] at h
    have hoff : sb.offset ≤ data.length := by rcases h with h | h <;> omega
    set n := min (data.length - sb.offset) bufLen with hn
    have hle : sb.offset + n ≤ data.length := by omega
    have hout : ((data.take (sb.offset + n)).drop sb.offset).length = n := by
      rw [List.length_drop, List.length_take]
      omega
    -- the first slice splits into what was read before, what is read now and the rest
    have hsplit : data.drop sb.offset
        = (data.take (sb.offset + n)).drop sb.offset ++ data.drop (sb.offset + n) := by
      conv_lhs => rw [← List.take_append_drop (sb.offset + n) data]
      rw [List.drop_append_of_le_length]
      rw [List.length_take]
      omega
    have hstream : sb.unread = (data.take (sb.offset + n)).drop sb.offset
        ++ (data.drop (sb.offset + n) ++ rest.flatten) := by
      rw [unread, hp, List.flatten_cons, List.drop_append_of_le_length hoff, hsplit,
        List.append_assoc]
    by_cases hend : sb.offset + n = data.length
    · refine ⟨(data.take (sb.offset + n)).drop sb.offset, { sb with offset := 0, pending := rest },
        ?_, ?_, rfl, ?_, by omega, ?_⟩
      · rw [read, if_neg hz, hp]
        simp only [← hn, slice_of_le (Nat.le_add_right _ _) hle, ok_bind, if_pos hend]
        rfl
      · unfold WF
        split
        · rfl
        · exact .inl rfl
      · rw [hstream, hend, List.drop_length, List.nil_append]
        rfl
      · intro he
        rw [hp] at he
        cases he
    · refine ⟨(data.take (sb.offset + n)).drop sb.offset, { sb with offset := sb.offset + n },
        ?_, ?_, rfl, ?_, by omega, ?_⟩
      · rw [read, if_neg hz, hp]
        simp only [← hn, slice_of_le (Nat.le_add_right _ _) hle, ok_bind, if_neg hend]
        rfl
      · show SendBuffer.WF { sb with offset := sb.offset + n }
        unfold WF
        simp only [hp]
        exact .inr (by omega)
      · rw [hstream]
        show _ = _ ++ List.drop (sb.offset + n) sb.pending.flatten
        rw [hp, List.flatten_cons, List.drop_append_of_le_length hle]
      · intro he
        rw [hp] at he
        cases he

end SendBuffer

end UtpGo
