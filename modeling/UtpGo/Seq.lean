/-
UtpGo/Seq.lean

Sequence numbers: `seq.go`.  Numbers are 16 bits wide and come round, so a
set of numbers in flight is a circular range from `start` up to `stop`, both
inclusive.

Main results: `contains` is a bound on the distance from `start`
(`contains_iff`), which is how every later file reads it, and the numbers that
`next` hands out are those that the range contains, each once (`drain_new`).
-/
import UtpGo.Basic

namespace UtpGo

open Circular

/-- A range bounded inclusively below and above that supports wrapping
arithmetic. -/
structure CircularRangeInclusive where
  start : Uint16
  stop : Uint16
  exhausted : Bool := false
  deriving DecidableEq, Repr

def newCircularRangeInclusive (start stop : Uint16) : CircularRangeInclusive :=
  { start, stop, exhausted := false }

namespace CircularRangeInclusive

def contains (r : CircularRangeInclusive) (item : Uint16) : Bool :=
  if r.stop ≥ r.start then
    item ≥ r.start && item ≤ r.stop
  else if item ≥ r.start then
    true
  else
    item ≤ r.stop

theorem contains_iff (r : CircularRangeInclusive) (item : Uint16) :
    r.contains item = true ↔ ahead r.start item ≤ ahead r.start r.stop := by
  unfold contains ahead
  split
  · simp only [ge_iff_le, Bool.and_eq_true, decide_eq_true_eq]
    bv_omega
  · split
    · simp only [true_iff]
      bv_omega
    · simp only [decide_eq_true_eq]
      bv_omega

/-! ### The iterator -/

/-- `Next`: a number and whether there was one, and the range that is left. -/
def next (r : CircularRangeInclusive) : (Uint16 × Bool) × CircularRangeInclusive :=
  if r.exhausted then ((0, false), r)
  else if r.start = r.stop then ((r.stop, true), { r with exhausted := true })
  else ((r.start, true), { r with start := r.start + 1 })

/-- The numbers that `next` hands out until it reports that there is none,
with a bound for the calls. -/
def drain : Nat → CircularRangeInclusive → Option (List Uint16)
  | 0, _ => none
  | calls + 1, r =>
      match r.next with
      | ((_, false), _) => some []
      | ((item, true), r) => (drain calls r).map (item :: ·)

theorem next_exhausted {r : CircularRangeInclusive} (h : r.exhausted = true) :
    r.next = ((0, false), r) := if_pos h

theorem next_last {r : CircularRangeInclusive} (h : r.exhausted = false) (heq : r.start = r.stop) :
    r.next = ((r.stop, true), { r with exhausted := true }) := by
  rw [next, if_neg (by simp [h]), if_pos heq]

theorem next_of_ne {r : CircularRangeInclusive} (h : r.exhausted = false)
    (hne : r.start ≠ r.stop) : r.next = ((r.start, true), { r with start := r.start + 1 }) := by
  rw [next, if_neg (by simp [h]), if_neg hne]

theorem drain_eq (r : CircularRangeInclusive) (h : r.exhausted = false) (spare : Nat) :
    drain (ahead r.start r.stop + 2 + spare) r = some (arc r.start r.stop) := by
  -- on the distance that is left
  induction hd : ahead r.start r.stop generalizing r with
  | zero =>
      have heq : r.start = r.stop := (ahead_eq_zero.mp hd).symm
      have hfuel : 0 + 2 + spare = spare + 1 + 1 := by omega
      rw [hfuel, drain, next_last h heq, heq, arc_self]
      dsimp only
      rw [drain, next_exhausted rfl]
      rfl
  | succ d ih =>
      have hne : r.start ≠ r.stop := by
        intro heq
        rw [heq, ahead_self] at hd
        cases hd
      have hleft : ahead (r.start + 1) r.stop = d := by
        rw [ahead_succ hne] at hd
        exact Nat.succ.inj hd
      have hfuel : d + 1 + 2 + spare = d + 2 + spare + 1 := by omega
      have hrest := ih { r with start := r.start + 1 } h hleft
      rw [hfuel, drain, next_of_ne h hne]
      dsimp only
      rw [hrest, arc_cons hne]
      rfl

/-- **A range is what its iterator hands out**: all numbers from `start` up to
`stop`, in this order and each once, and then it is exhausted. -/
theorem drain_new (start stop : Uint16) :
    (∀ spare, drain (ahead start stop + 2 + spare) (newCircularRangeInclusive start stop)
      = some (arc start stop)) ∧
    (arc start stop).getLast? = some stop ∧ (arc start stop).Nodup ∧
    (arc start stop).length = (stop - start).toNat + 1 ∧
    ∀ item, ((newCircularRangeInclusive start stop).contains item = true ↔
        item ∈ arc start stop) ∧
      ((newCircularRangeInclusive start stop).contains item = true ↔
        (item - start).toNat ≤ (stop - start).toNat) := by
  refine ⟨drain_eq (newCircularRangeInclusive start stop) rfl, getLast?_arc start stop,
    nodup_arc start stop, length_arc start stop, fun item => ?_⟩
  have hcontains := contains_iff (newCircularRangeInclusive start stop) item
  exact ⟨hcontains.trans mem_arc.symm, hcontains⟩

/-- A range that comes round. -/
example : drain 5 (newCircularRangeInclusive 65534 0) = some [65534, 65535, 0] := by decide

end CircularRangeInclusive

end UtpGo
