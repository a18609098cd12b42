/-
UtpGo/Alarms.lean

Alarms by key, counted in ticks: what a timer structure is for.  A key has at
most one alarm; setting it replaces the one it had, and a tick makes the
alarms ring that have no tick left, each of them once.

`rings_of_set` is the rule for users: an alarm that is left alone rings on
the tick it was set for, with the value it was set with, and on no other.
-/
import Mathlib.Tactic

/-- Of each key, the value of its alarm and the number of ticks that pass
before the one on which it rings. -/
abbrev Alarms (κ ν : Type) := κ → Option (ν × Nat)

namespace Alarms

variable {κ ν : Type} [DecidableEq κ]

inductive Op (κ ν : Type) where
  | set (key : κ) (value : ν) (left : Nat)
  | cancel (key : κ)
  | cancelIf (p : κ → Bool)
  | tick

def silent : Alarms κ ν := fun _ => none

/-- The alarm of one key after a tick. -/
def countDown : Option (ν × Nat) → Option (ν × Nat)
  | none => none
  | some (_, 0) => none
  | some (value, left + 1) => some (value, left)

def step (a : Alarms κ ν) : Op κ ν → Alarms κ ν
  | .set key value left => fun k => if k = key then some (value, left) else a k
  | .cancel key => fun k => if k = key then none else a k
  | .cancelIf p => fun k => if p k then none else a k
  | .tick => fun k => countDown (a k)

/-- What rings for a key during an operation. -/
def rings (a : Alarms κ ν) (key : κ) : Op κ ν → Option ν
  | .tick =>
      match a key with
      | some (value, 0) => some value
      | _ => none
  | _ => none

def run (a : Alarms κ ν) (ops : List (Op κ ν)) : Alarms κ ν := ops.foldl step a

/-- What rings for a key during a run, in order. -/
def ringsIn (a : Alarms κ ν) (key : κ) : List (Op κ ν) → List ν
  | [] => []
  | op :: ops => (a.rings key op).toList ++ (a.step op).ringsIn key ops

/-- The operation neither sets nor cancels the alarm of the key. -/
def Op.Spares (key : κ) : Op κ ν → Prop
  | .set k _ _ => k ≠ key
  | .cancel k => k ≠ key
  | .cancelIf p => p key = false
  | .tick => True

def Op.isTick : Op κ ν → Bool
  | .tick => true
  | _ => false

def ticks (ops : List (Op κ ν)) : Nat := ops.countP Op.isTick

variable {a : Alarms κ ν} {key : κ} {op : Op κ ν} {ops : List (Op κ ν)}

theorem step_set_self {value : ν} {left : Nat} :
    a.step (.set key value left) key = some (value, left) := if_pos rfl

theorem step_set_of_ne {k : κ} {value : ν} {left : Nat} (h : key ≠ k) :
    a.step (.set k value left) key = a key := if_neg h

theorem step_cancel_self : a.step (.cancel key) key = none := if_pos rfl

theorem step_cancel_of_ne {k : κ} (h : key ≠ k) : a.step (.cancel k) key = a key := if_neg h

theorem step_tick : a.step .tick key = countDown (a key) := rfl

theorem step_of_spares (h : op.Spares key) (htick : op.isTick = false) :
    a.step op key = a key ∧ a.rings key op = none := by
  cases op with
  | set k _ _ => exact ⟨step_set_of_ne (Ne.symm h), rfl⟩
  | cancel k => exact ⟨step_cancel_of_ne (Ne.symm h), rfl⟩
  | cancelIf p =>
      refine ⟨if_neg ?_, rfl⟩
      rw [show p key = false from h]
      exact Bool.false_ne_true
  | tick => cases htick

theorem ringsIn_of_none (h : ∀ op ∈ ops, op.Spares key) (hnone : a key = none) :
    a.ringsIn key ops = [] := by
  induction ops generalizing a with
  | nil => rfl
  | cons op ops ih =>
      have hrest := fun op' hop' => h op' (List.mem_cons_of_mem op hop')
      rw [ringsIn]
      cases htick : op.isTick with
      | false =>
          obtain ⟨hkey, hring⟩ := step_of_spares (a := a) (h op List.mem_cons_self) htick
          rw [hring, ih hrest (hkey.trans hnone)]
          rfl
      | true =>
          cases op with
          | tick =>
              have hstep : a.step .tick key = none := by rw [step_tick, hnone, countDown]
              rw [ih hrest hstep, rings, hnone]
              rfl
          | _ => cases htick

/-- **An alarm rings once**, on the tick it was set for and with the value it
was set with, as long as nobody sets or cancels it. -/
theorem rings_of_set {value : ν} {left : Nat} (h : ∀ op ∈ ops, op.Spares key)
    (hset : a key = some (value, left)) :
    a.ringsIn key ops = if left < ticks ops then [value] else [] := by
  induction ops generalizing a left with
  | nil => rfl
  | cons op ops ih =>
      have hrest := fun op' hop' => h op' (List.mem_cons_of_mem op hop')
      rw [ringsIn, ticks, List.countP_cons]
      cases htick : op.isTick with
      | false =>
          obtain ⟨hkey, hring⟩ := step_of_spares (a := a) (h op List.mem_cons_self) htick
          rw [hring, ih hrest (hkey.trans hset)]
          rfl
      | true =>
          cases op with
          | tick =>
              cases left with
              | zero =>
                  -- it rings now, and the key has no alarm from here on
                  have hstep : a.step .tick key = none := by rw [step_tick, hset, countDown]
                  rw [ringsIn_of_none hrest hstep, rings, hset, if_pos (by simp)]
                  rfl
              | succ left =>
                  have hstep : a.step .tick key = some (value, left) := by
                    rw [step_tick, hset, countDown]
                  rw [ih hrest hstep, rings, hset]
                  refine if_congr ?_ rfl rfl
                  simp [ticks]
          | _ => cases htick

end Alarms
