/-
UtpGo/Handover.lean

Handing items over while holding a lock.  A producer takes a lock, hands the
items that are due to a bounded queue, one after the other, and gives the lock
back.  The consumer is the only one to receive from the queue, and between
its receives it needs the same lock for operations of its own.

When the queue is full while items are left, the producer waits for the
consumer; when the consumer waits for the lock then, neither of them can go on
(`Deadlocked.stuck`).  This cannot happen as long as the queue has room for all
that is due whenever the producer begins (`not_deadlocked`), and it can happen
whenever it has not (`reaches_deadlock`).
-/
import Mathlib.Logic.Relation
import Mathlib.Tactic

namespace Handover

open Relation

/-- A system of this kind: `κ` are the states of the consumer, `σ` those of
the shared data, `α` the items and `ω` the operations under the lock. -/
structure Spec (κ σ α ω : Type) where
  cap : Nat
  /-- The items the producer hands over next. -/
  due : σ → List α
  /-- What it leaves when it has handed them over. -/
  clear : σ → σ
  apply : σ → ω → σ
  /-- A turn of the consumer, with the operations it will ask for and what it
  leaves in the queue. -/
  turn : κ → σ → List α → List ω → κ → List α → Prop

structure Sys (κ σ α ω : Type) where
  consumer : κ
  shared : σ
  queue : List α
  /-- The items left to hand over, if the producer holds the lock. -/
  sending : Option (List α)
  /-- The operations the consumer still asks the lock for. -/
  wants : List ω

variable {κ σ α ω : Type} (S : Spec κ σ α ω)

/-- The steps.  An operation of the consumer is one step: it takes the lock
and gives it back. -/
inductive Step : Sys κ σ α ω → Sys κ σ α ω → Prop where
  | begin {s : Sys κ σ α ω} {order : List α} (hidle : s.sending = none)
      (horder : order.Perm (S.due s.shared)) : Step s { s with sending := some order }
  | send {s : Sys κ σ α ω} {a : α} {rest : List α} (hsend : s.sending = some (a :: rest))
      (hroom : s.queue.length < S.cap) :
      Step s { s with sending := some rest, queue := s.queue ++ [a] }
  | release {s : Sys κ σ α ω} (hdone : s.sending = some []) :
      Step s { s with sending := none, shared := S.clear s.shared }
  | turn {s : Sys κ σ α ω} {ops : List ω} {c' : κ} {queue' : List α} (hready : s.wants = [])
      (hturn : S.turn s.consumer s.shared s.queue ops c' queue') :
      Step s { s with consumer := c', queue := queue', wants := ops }
  | operate {s : Sys κ σ α ω} {op : ω} {ops : List ω} (hwants : s.wants = op :: ops)
      (hidle : s.sending = none) :
      Step s { s with shared := S.apply s.shared op, wants := ops }

/-- The producer waits for room in the queue, and the consumer for the lock
that the producer holds. -/
structure Deadlocked (s : Sys κ σ α ω) : Prop where
  sending : ∃ a rest, s.sending = some (a :: rest)
  full : S.cap ≤ s.queue.length
  wants : s.wants ≠ []

variable {S} {s s' : Sys κ σ α ω}

/-- Neither of the two can go on. -/
theorem Deadlocked.stuck (h : Deadlocked S s) : ¬ Step S s s' := by
  obtain ⟨⟨a, rest, hsend⟩, hfull, hwants⟩ := h
  intro hstep
  cases hstep with
  | begin hidle =>
      rw [hidle] at hsend
      cases hsend
  | send _ hroom => omega
  | release hdone =>
      rw [hdone] at hsend
      cases hsend
  | turn hready => exact hwants hready
  | operate _ hidle =>
      rw [hidle] at hsend
      cases hsend

/-! ### Enough room -/

/-- Whenever the producer begins, there is room for all that is due. -/
def Roomy (S : Spec κ σ α ω) (s s' : Sys κ σ α ω) : Prop :=
  Step S s s' ∧ (s.sending = none → s'.sending ≠ none →
    s.queue.length + (S.due s.shared).length ≤ S.cap)

/-- There is room for what is left to hand over. -/
def HasRoom (S : Spec κ σ α ω) (s : Sys κ σ α ω) : Prop :=
  ∀ rest, s.sending = some rest → s.queue.length + rest.length ≤ S.cap

theorem HasRoom.step
    (hturn : ∀ c shared queue ops c' queue', S.turn c shared queue ops c' queue' →
      queue'.length ≤ queue.length)
    (h : HasRoom S s) (hstep : Roomy S s s') : HasRoom S s' := by
  obtain ⟨hstep, hroom⟩ := hstep
  cases hstep with
  | begin hidle horder =>
      rintro rest ⟨⟩
      rw [horder.length_eq]
      apply hroom hidle
      rintro ⟨⟩
  | send hsend =>
      rintro rest ⟨⟩
      have hle := h _ hsend
      rw [List.length_append, List.length_singleton]
      rw [List.length_cons] at hle
      omega
  | release => rintro rest ⟨⟩
  | turn _ hserve =>
      intro rest hrest
      have hqueue := hturn _ _ _ _ _ _ hserve
      exact (Nat.add_le_add_right hqueue _).trans (h rest hrest)
  | operate => exact h

/-- **No deadlock with enough room.** -/
theorem not_deadlocked
    (hturn : ∀ c shared queue ops c' queue', S.turn c shared queue ops c' queue' →
      queue'.length ≤ queue.length)
    (hidle : s.sending = none) (h : ReflTransGen (Roomy S) s s') : ¬ Deadlocked S s' := by
  have hinv : HasRoom S s' := by
    induction h with
    | refl =>
        intro rest hrest
        rw [hidle] at hrest
        cases hrest
    | tail _ hstep ih => exact ih.step hturn hstep
  rintro ⟨⟨a, rest, hsend⟩, hfull, -⟩
  have hle := hinv _ hsend
  rw [List.length_cons] at hle
  omega

/-! ### Rounds -/

theorem reaches_of_roomy (h : ReflTransGen (Roomy S) s s') : ReflTransGen (Step S) s s' :=
  h.lift id fun _ _ hstep => hstep.1

/-- A step on which the producer does not begin. -/
theorem Step.roomy (h : Step S s s') (hsending : s.sending = none → s'.sending = none) :
    Roomy S s s' :=
  ⟨h, fun hidle hne => absurd (hsending hidle) hne⟩

/-- The consumer performs its operations while the producer is at rest. -/
theorem reaches_operate (hidle : s.sending = none) : ReflTransGen (Roomy S) s
    { s with shared := s.wants.foldl S.apply s.shared, wants := [] } := by
  obtain ⟨consumer, shared, queue, sending, wants⟩ := s
  obtain rfl : sending = none := hidle
  induction wants generalizing shared with
  | nil => exact .refl
  | cons op ops ih =>
      have hstep : Step S ⟨consumer, shared, queue, none, op :: ops⟩
          ⟨consumer, S.apply shared op, queue, none, ops⟩ := .operate rfl rfl
      exact .head (hstep.roomy id) (ih (S.apply shared op))

/-- The producer has nothing to hand over. -/
theorem reaches_clear (hidle : s.sending = none) (hdue : S.due s.shared = [])
    (hcap : s.queue.length ≤ S.cap) :
    ReflTransGen (Roomy S) s { s with shared := S.clear s.shared } := by
  have hbegin : Roomy S s { s with sending := some [] } :=
    ⟨.begin hidle (by rw [hdue]), fun _ _ => by rwa [hdue]⟩
  have hrelease : Step S { s with sending := some [] } { s with
      sending := none, shared := S.clear s.shared } := .release rfl
  have hroomy := hrelease.roomy fun _ => rfl
  rw [← hidle] at hroomy
  exact .head hbegin (.single hroomy)

/-- The producer hands over as many items as there is room for. -/
theorem reaches_send {items : List α} (hsend : s.sending = some items) {n : Nat}
    (hn : n ≤ items.length) (hroom : s.queue.length + n ≤ S.cap) : ReflTransGen (Roomy S) s
      { s with sending := some (items.drop n), queue := s.queue ++ items.take n } := by
  induction n with
  | zero =>
      have heq : { s with sending := some (items.drop 0), queue := s.queue ++ items.take 0 }
          = s := by
        rw [List.drop_zero, ← hsend, List.take_zero, List.append_nil]
      rw [heq]
  | succ n ih =>
      have hlt : n < items.length := hn
      refine (ih (by omega) (by omega)).tail ?_
      have hqueue : s.queue ++ items.take (n + 1) = s.queue ++ items.take n ++ [items[n]] := by
        rw [List.append_assoc, ← List.take_concat_get' items n hlt]
      rw [hqueue]
      refine Step.roomy (Step.send (s := { s with
        sending := some (items.drop n), queue := s.queue ++ items.take n }) ?_ ?_) (by rintro ⟨⟩)
      · rw [List.drop_eq_getElem_cons hlt]
      · show (s.queue ++ items.take n).length < S.cap
        rw [List.length_append, List.length_take]
        omega

/-! ### Too little room -/

/-- **A deadlock with too little room**: the consumer asks for the lock, and
the producer, which begins, has more items than there is room for. -/
theorem reaches_deadlock (hidle : s.sending = none) (hwants : s.wants ≠ [])
    (hcap : s.queue.length ≤ S.cap)
    (hover : S.cap < s.queue.length + (S.due s.shared).length) :
    ∃ s', ReflTransGen (Step S) s s' ∧ Deadlocked S s' := by
  have hbegin : Step S s { s with sending := some (S.due s.shared) } :=
    .begin hidle (List.Perm.refl _)
  have hlt : S.cap - s.queue.length < (S.due s.shared).length := by omega
  have hroom : s.queue.length + (S.cap - s.queue.length) ≤ S.cap := by omega
  have hsends := reaches_send (s := { s with sending := some (S.due s.shared) }) rfl hlt.le hroom
  refine ⟨_, .head hbegin (reaches_of_roomy hsends), ?_⟩
  refine ⟨⟨_, _, congrArg some (List.drop_eq_getElem_cons hlt)⟩, ?_, hwants⟩
  show S.cap ≤ (s.queue ++ (S.due s.shared).take (S.cap - s.queue.length)).length
  rw [List.length_append, List.length_take]
  omega

end Handover
