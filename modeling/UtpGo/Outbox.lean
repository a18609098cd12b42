/-
UtpGo/Outbox.lean

Messages that leave in order and in parts.  An outbox holds the messages that
have left, those that have not, and how much of the first of these has.  The
invariant is that this is less than all of it: a message that has left to its
end is among those that have left.

`placed` is all that has left.  Finishing the first message and advancing in
it append to `placed` what they move (`placed_finish`, `placed_advance`), and
a message is finished exactly when its last element has left, after all of
the messages before it (`done_prefix_placed`, `not_placed_of_rest`).
-/
import Mathlib.Data.List.Basic

namespace UtpGo

/-- Messages with a tag each; `moved` is how much of the first message of
`rest` has left. -/
structure Outbox (κ β : Type*) where
  done : List (κ × List β)
  rest : List (κ × List β)
  moved : Nat
  begun : moved = 0 ∨ ∃ w tail, rest = w :: tail ∧ moved < w.2.length

namespace Outbox

variable {κ β : Type*} {o : Outbox κ β} {w : κ × List β} {tail : List (κ × List β)} {n : Nat}

def empty : Outbox κ β := ⟨[], [], 0, .inl rfl⟩

def messages (o : Outbox κ β) : List (κ × List β) := o.done ++ o.rest

/-- All that has left. -/
def placed (o : Outbox κ β) : List β :=
  o.done.flatMap (·.2) ++ (o.rest.flatMap (·.2)).take o.moved

/-- A new message comes last. -/
def push (o : Outbox κ β) (w : κ × List β) : Outbox κ β where
  done := o.done
  rest := o.rest ++ [w]
  moved := o.moved
  begun := by
    rcases o.begun with h | ⟨w₁, tail, h, hlt⟩
    · exact .inl h
    · exact .inr ⟨w₁, tail ++ [w], by rw [h, List.cons_append], hlt⟩

/-- The first message leaves to its end. -/
def finish (o : Outbox κ β) (w : κ × List β) (tail : List (κ × List β)) : Outbox κ β :=
  ⟨o.done ++ [w], tail, 0, .inl rfl⟩

/-- A part of the first message leaves. -/
def advance (o : Outbox κ β) (h : o.rest = w :: tail) (n : Nat)
    (hn : o.moved + n < w.2.length) : Outbox κ β :=
  ⟨o.done, o.rest, o.moved + n, .inr ⟨w, tail, h, hn⟩⟩

theorem moved_le (h : o.rest = w :: tail) : o.moved ≤ w.2.length := by
  rcases o.begun with hz | ⟨w₁, tail₁, h₁, hlt⟩
  · omega
  · cases h.symm.trans h₁
    exact Nat.le_of_lt hlt

theorem moved_of_rest_nil (h : o.rest = []) : o.moved = 0 := by
  rcases o.begun with hz | ⟨w₁, tail₁, h₁, -⟩
  · exact hz
  · cases h.symm.trans h₁

theorem placed_of_rest (h : o.rest = w :: tail) :
    o.placed = o.done.flatMap (·.2) ++ w.2.take o.moved := by
  rw [placed, h, List.flatMap_cons, List.take_append_of_le_length (moved_le h)]

theorem messages_push (o : Outbox κ β) (w : κ × List β) :
    (o.push w).messages = o.messages ++ [w] := (List.append_assoc _ _ _).symm

theorem placed_push (o : Outbox κ β) (w : κ × List β) : (o.push w).placed = o.placed := by
  show o.done.flatMap (·.2) ++ ((o.rest ++ [w]).flatMap (·.2)).take o.moved = _ ++ _
  rcases h : o.rest with - | ⟨w₁, tail⟩
  · rw [moved_of_rest_nil h, List.take_zero, List.take_zero]
  · rw [List.flatMap_append, List.flatMap_cons, List.append_assoc,
      List.take_append_of_le_length (moved_le h), List.take_append_of_le_length (moved_le h)]

theorem messages_finish (h : o.rest = w :: tail) : (o.finish w tail).messages = o.messages := by
  rw [messages, messages, h, finish, List.append_assoc]
  rfl

theorem placed_finish (h : o.rest = w :: tail) :
    (o.finish w tail).placed = o.placed ++ w.2.drop o.moved := by
  rw [placed_of_rest h, List.append_assoc, List.take_append_drop]
  show (o.done ++ [w]).flatMap (·.2) ++ _ = _
  rw [List.flatMap_append, List.flatMap_singleton]
  exact List.append_nil _

theorem placed_advance (h : o.rest = w :: tail) (hn : o.moved + n < w.2.length) :
    (o.advance h n hn).placed = o.placed ++ (w.2.drop o.moved).take n := by
  have h' : (o.advance h n hn).rest = w :: tail := h
  rw [placed_of_rest h, placed_of_rest h', List.append_assoc]
  show _ ++ w.2.take (o.moved + n) = _
  rw [List.take_add]
  rfl

/-! ### What has left -/

theorem placed_prefix (o : Outbox κ β) : o.placed <+: o.messages.flatMap (·.2) := by
  rw [messages, List.flatMap_append]
  exact (List.prefix_append_right_inj _).mpr (List.take_prefix _ _)

theorem done_prefix_placed (o : Outbox κ β) : o.done.flatMap (·.2) <+: o.placed :=
  List.prefix_append _ _

/-- A message that has something in it and is not finished has not left to its
end. -/
theorem not_placed_of_rest {earlier later : List (κ × List β)}
    (h : o.rest = earlier ++ w :: later) (hw : w.2 ≠ []) :
    ¬ (o.done ++ earlier ++ [w]).flatMap (·.2) <+: o.placed := by
  intro hpre
  have hlen := hpre.length_le
  have hpos : 0 < w.2.length := List.length_pos_iff.mpr hw
  rw [placed, List.flatMap_append, List.flatMap_append, List.flatMap_singleton,
    List.append_assoc, List.length_append, List.length_append, List.length_append] at hlen
  have hmoved : o.moved < (earlier.flatMap (·.2)).length + w.2.length := by
    rcases o.begun with hz | ⟨w₁, tail, h₁, hlt⟩
    · omega
    · -- the message begun is the first of these
      cases earlier with
      | nil =>
          cases h.symm.trans h₁
          simpa using hlt
      | cons w₂ earlier =>
          cases h.symm.trans h₁
          rw [List.flatMap_cons, List.length_append]
          omega
  have htake := List.length_take_le o.moved (o.rest.flatMap (·.2))
  omega

end Outbox

end UtpGo
