/-
UtpGo/DelaySetRuns.lean

Runs of the time wheel: puts, removals and ticks in any order.  A key is
looked up in a slot (`valueAt`); an operation that spares the key leaves it
where it is, except that a tick empties the current slot (`valueAt_run`).

Main results: `put_timely_iff`, an item expires in time exactly if its delay
is shorter than a turn of the wheel or the wheel has one slot only: a delay
of a whole turn leads back to the current slot, which the next tick empties.
And `run_keyed`: as long as no key is put into a second slot, the wheel
behaves as a map of alarms.  `full_turn_expires_next` and `key_in_two_slots`
are the runs in which it does not.
-/
import UtpGo.Alarms
import UtpGo.DelaySet

namespace UtpGo

/-- The calls on a wheel, and the ticks of its loop. -/
inductive WheelOp (κ P : Type) where
  | put (key : κ) (value : P) (delay : Duration)
  | remove (key : κ)
  | retain (shouldRemove : κ → Bool)
  | tick

variable {κ P : Type} [LinearOrder κ]

namespace WheelOp

/-- The operation neither puts nor removes the key. -/
def Spares (key : κ) : WheelOp κ P → Prop
  | .put k _ _ => k ≠ key
  | .remove k => k ≠ key
  | .retain shouldRemove => shouldRemove key = false
  | .tick => True

def isTick : WheelOp κ P → Bool
  | .tick => true
  | _ => false

def ticks (ops : List (WheelOp κ P)) : Nat := ops.countP isTick

end WheelOp

open WheelOp

namespace TimeWheel

def apply (tw : TimeWheel κ P) : WheelOp κ P → TimeWheel κ P
  | .put key value delay => tw.put key value delay
  | .remove key => tw.remove key
  | .retain shouldRemove => tw.retain shouldRemove
  | .tick => tw.tick

/-- The calls of the expiry function during an operation.  Those of one tick
come in no particular order. -/
def calls (tw : TimeWheel κ P) : WheelOp κ P → List (κ × P)
  | .tick => tw.due
  | _ => []

def run (tw : TimeWheel κ P) (ops : List (WheelOp κ P)) : TimeWheel κ P := ops.foldl apply tw

def callsIn (tw : TimeWheel κ P) : List (WheelOp κ P) → List (κ × P)
  | [] => []
  | op :: ops => tw.calls op ++ (tw.apply op).callsIn ops

/-- The number of slots an item with this delay is put ahead. -/
def slotsAhead (tw : TimeWheel κ P) (delay : Duration) : Nat := min delay tw.maxDelay / tw.interval

/-- The slot of an item with this delay. -/
def slotFor (tw : TimeWheel κ P) (delay : Duration) : Nat :=
  (tw.current + tw.slotsAhead delay) % tw.slotNum

/-- The value of a key in a slot. -/
def valueAt (tw : TimeWheel κ P) (i : Nat) (key : κ) : Option P :=
  (tw.slots.getD i .empty).get? key

/-! ### A key in a slot -/

structure WF (tw : TimeWheel κ P) : Prop where
  slots : tw.slots.length = tw.slotNum
  current : tw.current < tw.slotNum
  interval : 0 < tw.interval
  maxDelay : tw.maxDelay = tw.slotNum * tw.interval

variable {tw : TimeWheel κ P} {key k : κ} {value : P} {delay : Duration} {i : Nat}

theorem WF.slotFor_lt (h : tw.WF) (delay : Duration) : tw.slotFor delay < tw.slotNum :=
  Nat.mod_lt _ (Nat.zero_lt_of_lt h.current)

theorem mem_due : (key, value) ∈ tw.due ↔ tw.valueAt tw.current key = some value :=
  OrdMap.get?_eq_some.symm

theorem valueAt_put (h : tw.WF) : (tw.put key value delay).valueAt i k =
    if i = tw.slotFor delay ∧ k = key then some value else tw.valueAt i k := by
  have hlt : tw.slotFor delay < tw.slots.length := h.slots ▸ h.slotFor_lt delay
  show ((tw.slots.modify (tw.slotFor delay) fun slot => slot.insert key value).getD i
    .empty).get? k = _
  unfold valueAt
  rw [List.getD_eq_getElem?_getD, List.getD_eq_getElem?_getD, List.getElem?_modify]
  by_cases hi : i = tw.slotFor delay
  · subst hi
    rw [List.getElem?_eq_getElem hlt]
    by_cases hk : k = key
    · subst hk
      simp
    · simp [hk, OrdMap.get?_insert_of_ne hk]
  · rw [if_neg (fun h => hi h.1)]
    simp [Ne.symm hi]

theorem valueAt_retain {shouldRemove : κ → Bool} : (tw.retain shouldRemove).valueAt i k =
    if shouldRemove k then none else tw.valueAt i k := by
  show ((tw.slots.map fun slot : OrdMap κ P => slot.filterKeys fun key => !shouldRemove key).getD
    i .empty).get? k = _
  unfold valueAt
  rw [List.getD_eq_getElem?_getD, List.getD_eq_getElem?_getD, List.getElem?_map]
  cases tw.slots[i]? with
  | none => simp
  | some slot =>
      simp only [Option.map_some, Option.getD_some, OrdMap.get?_filterKeys]
      cases shouldRemove k <;> rfl

theorem valueAt_tick (tw : TimeWheel κ P) (i : Nat) (k : κ) :
    tw.tick.valueAt i k = if i = tw.current then none else tw.valueAt i k := by
  show ((tw.slots.set tw.current .empty).getD i .empty).get? k = _
  unfold valueAt
  rw [List.getD_eq_getElem?_getD, List.getD_eq_getElem?_getD, List.getElem?_set]
  by_cases hi : i = tw.current
  · subst hi
    rw [if_pos rfl, if_pos rfl]
    split <;> rfl
  · rw [if_neg (Ne.symm hi), if_neg hi]

theorem valueAt_remove_of_ne (h : k ≠ key) : (tw.remove key).valueAt i k = tw.valueAt i k := by
  show ((removeFirst key tw.slots).getD i .empty).get? k = _
  unfold valueAt
  generalize tw.slots = slots
  induction slots generalizing i with
  | nil => rfl
  | cons slot slots ih =>
      rw [removeFirst]
      split
      · cases i with
        | zero => exact OrdMap.get?_erase_of_ne h
        | succ i => rfl
      · cases i with
        | zero => rfl
        | succ i => exact ih

/-! ### Runs -/

variable {op : WheelOp κ P} {ops later : List (WheelOp κ P)}

theorem length_removeFirst (slots : List (OrdMap κ P)) :
    (removeFirst key slots).length = slots.length := by
  induction slots with
  | nil => rfl
  | cons slot slots ih =>
      rw [removeFirst]
      split
      · rfl
      · rw [List.length_cons, ih, List.length_cons]

theorem wf_new {interval : Duration} {slotNum : Nat} (hinterval : 0 < interval)
    (hslots : 0 < slotNum) : (newTimeWheel interval slotNum : TimeWheel κ P).WF :=
  ⟨List.length_replicate, hslots, hinterval, rfl⟩

theorem WF.put (h : tw.WF) : (tw.put key value delay).WF :=
  ⟨(List.length_modify _ _ _).trans h.slots, h.current, h.interval, h.maxDelay⟩

/-- A delay of either sign that does not panic leads to a slot which some delay
of `put` leads to. -/
theorem WF.exists_put {π : Type} {tw' : TimeWheel κ P} {delay : Int} (h : tw.WF)
    (hok : (tw.putSigned key value delay : Checked.Go π _) = .ok tw') :
    ∃ delay, tw' = tw.put key value delay := by
  obtain ⟨index, hindex, rfl⟩ := putSigned_ok hok
  have hlt := hindex (Nat.zero_lt_of_lt h.current)
  let ahead := (index + (tw.slotNum - tw.current)) % tw.slotNum
  have hahead : ahead ≤ tw.slotNum := (Nat.mod_lt _ (Nat.zero_lt_of_lt h.current)).le
  refine ⟨ahead * tw.interval, ?_⟩
  have hslot : (tw.current + min (ahead * tw.interval) tw.maxDelay / tw.interval) % tw.slotNum
      = index := by
    rw [h.maxDelay, min_eq_left (Nat.mul_le_mul_right _ hahead),
      Nat.mul_div_cancel _ h.interval, Nat.add_mod_mod]
    have hcurrent := h.current
    rw [show tw.current + (index + (tw.slotNum - tw.current)) = index + tw.slotNum by omega,
      Nat.add_mod_right, Nat.mod_eq_of_lt hlt]
  dsimp only [TimeWheel.put]
  rw [hslot]

theorem WF.apply (h : tw.WF) : (tw.apply op).WF := by
  cases op with
  | put => exact h.put
  | remove => exact ⟨(length_removeFirst _).trans h.slots, h.current, h.interval, h.maxDelay⟩
  | retain => exact ⟨(List.length_map _).trans h.slots, h.current, h.interval, h.maxDelay⟩
  | tick =>
      refine ⟨List.length_set.trans h.slots, ?_, h.interval, h.maxDelay⟩
      exact Nat.mod_lt _ (Nat.zero_lt_of_lt h.current)

theorem WF.run (h : tw.WF) : (tw.run ops).WF := by
  induction ops generalizing tw with
  | nil => exact h
  | cons op ops ih => exact ih h.apply

theorem WF.clear (h : tw.WF) (shouldRemove : κ → Bool) (keys : List κ) :
    (keys.foldl remove (tw.retain shouldRemove)).WF := by
  have hretain : (tw.apply (.retain shouldRemove)).WF := h.apply
  change (tw.retain shouldRemove).WF at hretain
  generalize tw.retain shouldRemove = tw₁ at hretain
  induction keys generalizing tw₁ with
  | nil => exact hretain
  | cons key keys ih =>
      have hremove : (tw₁.apply (.remove key)).WF := hretain.apply
      exact ih _ hremove

theorem slotNum_apply : (tw.apply op).slotNum = tw.slotNum := by
  cases op <;> rfl

theorem slotNum_run : (tw.run ops).slotNum = tw.slotNum := by
  induction ops generalizing tw with
  | nil => rfl
  | cons op ops ih => exact ih.trans slotNum_apply

theorem maxDelay_run : (tw.run ops).maxDelay = tw.maxDelay := by
  induction ops generalizing tw with
  | nil => rfl
  | cons op ops ih =>
      refine ih.trans ?_
      cases op <;> rfl

/-- The wheel turns with the ticks. -/
theorem current_run (h : tw.WF) :
    (tw.run ops).current = (tw.current + ticks ops) % tw.slotNum := by
  induction ops generalizing tw with
  | nil => exact (Nat.mod_eq_of_lt h.current).symm
  | cons op ops ih =>
      refine (ih h.apply).trans ?_
      rw [slotNum_apply, ticks, ticks, List.countP_cons]
      cases op with
      | tick =>
          show ((tw.current + 1) % tw.slotNum + _) % tw.slotNum = _
          rw [Nat.mod_add_mod, Nat.add_right_comm]
          rfl
      | _ => rfl

/-- What an operation that spares the key changes about it. -/
theorem valueAt_apply (h : tw.WF) (hop : op.Spares key) : (tw.apply op).valueAt i key =
    if op.isTick ∧ i = tw.current then none else tw.valueAt i key := by
  cases op with
  | put k _ _ =>
      refine (valueAt_put h).trans ?_
      rw [if_neg fun heq => hop heq.2.symm]
      rfl
  | remove k => exact valueAt_remove_of_ne (Ne.symm hop)
  | retain shouldRemove =>
      refine valueAt_retain.trans ?_
      rw [show shouldRemove key = false from hop]
      rfl
  | tick =>
      refine (valueAt_tick tw i key).trans ?_
      simp [isTick]

/-- A key that is spared stays in its slot until the slot is the current one
on a tick. -/
theorem valueAt_run (h : tw.WF) (hops : ∀ op ∈ ops, op.Spares key)
    (hi : ∀ j < ticks ops, (tw.current + j) % tw.slotNum ≠ i) :
    (tw.run ops).valueAt i key = tw.valueAt i key := by
  induction ops generalizing tw with
  | nil => rfl
  | cons op ops ih =>
      have hrest := fun op' hop' => hops op' (List.mem_cons_of_mem op hop')
      rw [ticks, List.countP_cons] at hi
      have hstay : (tw.apply op).valueAt i key = tw.valueAt i key := by
        rw [valueAt_apply h (hops op List.mem_cons_self), if_neg]
        rintro ⟨htick, rfl⟩
        rw [if_pos htick] at hi
        exact hi 0 (Nat.succ_pos _) (Nat.mod_eq_of_lt h.current)
      refine (ih h.apply hrest fun j hj => ?_).trans hstay
      rw [slotNum_apply]
      cases op with
      | tick =>
          show ((tw.current + 1) % tw.slotNum + j) % tw.slotNum ≠ i
          rw [Nat.mod_add_mod, Nat.add_right_comm, Nat.add_assoc]
          exact hi (j + 1) (Nat.succ_lt_succ hj)
      | _ => exact hi j hj

/-! ### When an item expires -/

/-- The item that `put key value delay` makes expires on the `n`-th tick after
it, if nobody puts or removes the key in between: through fewer ticks it
stays in its slot, and this is the slot that the `n`-th tick empties. -/
def ExpiresOn (tw : TimeWheel κ P) (key : κ) (value : P) (delay : Duration) (n : Nat) : Prop :=
  0 < n ∧ ∀ later, (∀ op ∈ later, op.Spares key) →
    (ticks later < n →
      ((tw.put key value delay).run later).valueAt (tw.slotFor delay) key = some value) ∧
    (ticks later + 1 = n → ((tw.put key value delay).run later).current = tw.slotFor delay ∧
      (key, value) ∈ ((tw.put key value delay).run later).due)

theorem expiresOn (h : tw.WF) (key : κ) (value : P) (delay : Duration) :
    tw.ExpiresOn key value delay (tw.slotsAhead delay % tw.slotNum + 1) := by
  have hput : (tw.put key value delay).WF := h.put
  refine ⟨Nat.succ_pos _, fun later hlater => ?_⟩
  have hstay : ticks later < tw.slotsAhead delay % tw.slotNum + 1 →
      ((tw.put key value delay).run later).valueAt (tw.slotFor delay) key = some value := by
    intro hlt
    rw [valueAt_run hput hlater, valueAt_put h, if_pos ⟨rfl, rfl⟩]
    -- the slots emptied so far lie before the one of the item
    intro j hj heq
    have hmod : (tw.current + j) ≡ (tw.current + tw.slotsAhead delay) [MOD tw.slotNum] := heq
    have hmod' : j % tw.slotNum = tw.slotsAhead delay % tw.slotNum :=
      Nat.ModEq.add_left_cancel' _ hmod
    have := Nat.mod_le j tw.slotNum
    omega
  refine ⟨hstay, fun heq => ?_⟩
  have hcurrent : ((tw.put key value delay).run later).current = tw.slotFor delay := by
    rw [current_run hput]
    show (tw.current + ticks later) % tw.slotNum = _
    rw [Nat.succ.inj heq, Nat.add_mod_mod]
    rfl
  refine ⟨hcurrent, mem_due.mpr ?_⟩
  rw [hcurrent]
  exact hstay (by omega)

/-- An item expires once. -/
theorem ExpiresOn.unique {n n' : Nat} (h : tw.ExpiresOn key value delay n)
    (h' : tw.ExpiresOn key value delay n') : n = n' := by
  have hle : ∀ {n n' : Nat}, tw.ExpiresOn key value delay n →
      tw.ExpiresOn key value delay n' → n' ≤ n := by
    intro n n' h h'
    by_contra hlt
    have hspares : ∀ m, ∀ op ∈ List.replicate m (.tick : WheelOp κ P), op.Spares key := by
      intro m op hop
      rw [(List.mem_replicate.mp hop).2]
      trivial
    have hticks : ∀ m, ticks (List.replicate m (.tick : WheelOp κ P)) = m := by
      intro m
      rw [ticks, List.countP_replicate]
      rfl
    -- the `n`-th tick empties the slot in which the item should still be
    obtain ⟨m, rfl⟩ : ∃ m, n = m + 1 := ⟨n - 1, by have := h.1; omega⟩
    obtain ⟨hcurrent, -⟩ := (h.2 _ (hspares m)).2 (by rw [hticks])
    have hheld := (h'.2 _ (hspares (m + 1))).1 (by rw [hticks]; omega)
    rw [List.replicate_succ', TimeWheel.run, List.foldl_append] at hheld
    have hempty := (valueAt_tick ((tw.put key value delay).run (List.replicate m .tick)) _
      key).symm.trans hheld
    rw [if_pos hcurrent.symm] at hempty
    cases hempty
  exact le_antisymm (hle h' h) (hle h h')

/-- What is expected of a timer: it expires, not before the whole intervals of
its delay have passed and at most a tick after a turn of the wheel, not
before a shorter one, and after a whole turn if the delay is so long. -/
structure Timely (tw : TimeWheel κ P) (key : κ) (value : P) (delay : Duration) (n : Nat) :
    Prop where
  expires : tw.ExpiresOn key value delay n
  notBefore : min delay tw.maxDelay / tw.interval ≤ n
  notAfter : n ≤ tw.slotNum + 1
  ordered : ∀ key' value' shorter m, shorter ≤ delay →
    tw.ExpiresOn key' value' shorter m → m ≤ n
  fullTurn : tw.maxDelay ≤ delay → tw.slotNum ≤ n

theorem WF.slotsAhead_le (h : tw.WF) (delay : Duration) : tw.slotsAhead delay ≤ tw.slotNum := by
  refine (Nat.div_le_div_right (min_le_right _ _)).trans ?_
  rw [h.maxDelay, Nat.mul_div_cancel _ h.interval]

/-- A delay of a turn or more leads back to the current slot. -/
theorem WF.slotsAhead_full (h : tw.WF) (hdelay : tw.maxDelay ≤ delay) :
    tw.slotsAhead delay = tw.slotNum := by
  rw [slotsAhead, min_eq_right hdelay, h.maxDelay, Nat.mul_div_cancel _ h.interval]

theorem WF.slotsAhead_lt (h : tw.WF) (hdelay : delay < tw.maxDelay) :
    tw.slotsAhead delay < tw.slotNum := by
  rw [slotsAhead, min_eq_left hdelay.le]
  rw [h.maxDelay, Nat.mul_comm] at hdelay
  exact Nat.div_lt_of_lt_mul hdelay

theorem slotsAhead_mono {shorter : Duration} (hle : shorter ≤ delay) :
    tw.slotsAhead shorter ≤ tw.slotsAhead delay :=
  Nat.div_le_div_right (min_le_min_right _ hle)

theorem WF.timely_iff (h : tw.WF) (key : κ) (value : P) (delay : Duration) :
    (∃ n, tw.Timely key value delay n) ↔ delay < tw.maxDelay ∨ tw.slotNum = 1 := by
  have hpos : 0 < tw.slotNum := Nat.zero_lt_of_lt h.current
  constructor
  · rintro ⟨n, hn⟩
    by_contra hlate
    obtain ⟨hfull, hone⟩ := not_or.mp hlate
    have hahead := h.slotsAhead_full (not_lt.mp hfull)
    have heq := hn.expires.unique (expiresOn h key value delay)
    rw [hahead, Nat.mod_self] at heq
    have hbefore : tw.slotsAhead delay ≤ n := hn.notBefore
    omega
  · intro hcond
    refine ⟨_, expiresOn h key value delay, ?_, ?_, ?_, ?_⟩
    · show tw.slotsAhead delay ≤ _
      rcases hcond with hlt | hone
      · rw [Nat.mod_eq_of_lt (h.slotsAhead_lt hlt)]
        exact Nat.le_succ _
      · have := h.slotsAhead_le delay
        omega
    · have := Nat.mod_lt (tw.slotsAhead delay) hpos
      omega
    · intro key' value' shorter m hle hm
      rw [hm.unique (expiresOn h key' value' shorter)]
      refine Nat.succ_le_succ ?_
      rcases hcond with hlt | hone
      · rw [Nat.mod_eq_of_lt (h.slotsAhead_lt hlt)]
        exact (Nat.mod_le _ _).trans (slotsAhead_mono hle)
      · rw [hone, Nat.mod_one]
        exact Nat.zero_le _
    · intro hfull
      rcases hcond with hlt | hone
      · exact absurd hfull (not_le.mpr hlt)
      · rw [hone]
        exact Nat.succ_le_succ (Nat.zero_le _)

/-- **A timer is in time** if and only if its delay is shorter than a turn of
the wheel, or the wheel has one slot only. -/
theorem put_timely_iff {interval : Duration} {slotNum : Nat} (hinterval : 0 < interval)
    (hslots : 0 < slotNum) (ops : List (WheelOp κ P)) (key : κ) (value : P) (delay : Duration) :
    (∃ n, ((newTimeWheel interval slotNum).run ops).Timely key value delay n) ↔
      delay < slotNum * interval ∨ slotNum = 1 := by
  have hwf : ((newTimeWheel interval slotNum : TimeWheel κ P).run ops).WF :=
    (wf_new hinterval hslots).run
  rw [hwf.timely_iff, maxDelay_run, slotNum_run]
  rfl

/-- A delay of seven intervals, on a wheel of eight slots. -/
theorem put_timely_seven :
    ∃ n, (newTimeWheel 250 8 : TimeWheel Nat Nat).Timely 1 10 1750 n :=
  (put_timely_iff (by decide) (by decide) [] 1 10 1750).mpr (.inl (by decide))

/-- On a wheel of eight slots an item with a delay of eight intervals expires
on the next tick, before one with a delay of one interval. -/
theorem full_turn_expires_next :
    (newTimeWheel 250 8 : TimeWheel Nat Nat).callsIn
      [.put 1 10 2000, .put 2 20 250, .tick, .tick] = [(1, 10), (2, 20)] ∧
    (newTimeWheel 250 8 : TimeWheel Nat Nat).callsIn
      [.put 1 10 2000, .put 2 20 250, .tick] = [(1, 10)] := by
  decide

/-! ### The wheel as a map of alarms -/

/-- The operation on alarms that an operation on the wheel is meant to be. -/
def alarmOp (tw : TimeWheel κ P) : WheelOp κ P → Alarms.Op κ P
  | .put key value delay => .set key value (tw.slotsAhead delay % tw.slotNum)
  | .remove key => .cancel key
  | .retain shouldRemove => .cancelIf shouldRemove
  | .tick => .tick

/-- An alarm stands in the slot that is the current one when it rings, and in
no other. -/
structure Represents (tw : TimeWheel κ P) (a : Alarms κ P) : Prop where
  left_lt : ∀ {key value left}, a key = some (value, left) → left < tw.slotNum
  valueAt : ∀ key i, tw.valueAt i key = (a key).bind fun alarm =>
    if i = (tw.current + alarm.2) % tw.slotNum then some alarm.1 else none

/-- The condition on a step: a key is put into the slot it stands in, or it
stands in none. -/
def Placed (tw : TimeWheel κ P) : WheelOp κ P → Prop
  | .put key _ delay => ∀ i, tw.valueAt i key ≠ none → i = tw.slotFor delay
  | _ => True

def PlacedAlong (tw : TimeWheel κ P) : List (WheelOp κ P) → Prop
  | [] => True
  | op :: ops => tw.Placed op ∧ (tw.apply op).PlacedAlong ops

variable {a : Alarms κ P}

theorem valueAt_new {interval : Duration} {slotNum : Nat} :
    (newTimeWheel interval slotNum : TimeWheel κ P).valueAt i key = none := by
  show ((List.replicate slotNum (OrdMap.empty : OrdMap κ P)).getD i .empty).get? key = none
  rw [List.getD_eq_getElem?_getD, List.getElem?_replicate]
  split <;> rfl

theorem Represents.single (h : tw.Represents a) {j : Nat} (hi : tw.valueAt i key ≠ none)
    (hj : tw.valueAt j key ≠ none) : i = j := by
  rw [h.valueAt] at hi hj
  cases hkey : a key with
  | none => simp [hkey] at hi
  | some alarm =>
      obtain ⟨value, left⟩ := alarm
      simp only [hkey, Option.bind_some, ne_eq, ite_eq_right_iff, reduceCtorEq, imp_false,
        not_not] at hi hj
      rw [hi, hj]

theorem valueAt_remove_self (h : ∀ i j, tw.valueAt i key ≠ none → tw.valueAt j key ≠ none → i = j) :
    (tw.remove key).valueAt i key = none := by
  show ((removeFirst key tw.slots).getD i .empty).get? key = none
  unfold valueAt at h
  generalize tw.slots = slots at h
  induction slots generalizing i with
  | nil => rfl
  | cons slot slots ih =>
      rw [removeFirst]
      split
      · rename_i hkey
        cases i with
        | zero => exact OrdMap.get?_erase_self
        | succ i =>
            -- the key stands in the first slot already
            by_contra hne
            cases h 0 (i + 1) (Option.isSome_iff_ne_none.mp hkey) hne
      · rename_i hkey
        cases i with
        | zero => exact Option.not_isSome_iff_eq_none.mp hkey
        | succ i => exact ih fun i j hi hj => Nat.succ.inj (h (i + 1) (j + 1) hi hj)

theorem represents_new {interval : Duration} {slotNum : Nat} :
    (newTimeWheel interval slotNum : TimeWheel κ P).Represents .silent where
  left_lt := by
    intro key value left h
    cases h
  valueAt := fun _ _ => valueAt_new

theorem Represents.put (hwf : tw.WF) (h : tw.Represents a)
    (hplaced : ∀ i, tw.valueAt i key ≠ none → i = tw.slotFor delay) :
    (tw.put key value delay).Represents
      (a.step (.set key value (tw.slotsAhead delay % tw.slotNum))) := by
  refine ⟨fun {k v left} hk => ?_, fun k i => ?_⟩
  · by_cases heq : k = key
    · rw [heq, Alarms.step_set_self] at hk
      cases hk
      exact Nat.mod_lt _ (Nat.zero_lt_of_lt hwf.current)
    · rw [Alarms.step_set_of_ne heq] at hk
      exact h.left_lt hk
  · rw [valueAt_put hwf]
    by_cases heq : k = key
    · subst heq
      rw [Alarms.step_set_self, Option.bind_some]
      show _ = if i = (tw.current + tw.slotsAhead delay % tw.slotNum) % tw.slotNum then _ else _
      rw [Nat.add_mod_mod]
      by_cases hi : i = tw.slotFor delay
      · rw [if_pos ⟨hi, rfl⟩]
        exact (if_pos hi).symm
      · rw [if_neg fun h => hi h.1]
        refine Eq.trans ?_ (if_neg hi).symm
        exact not_not.mp fun hne => hi (hplaced i hne)
    · rw [if_neg fun h => heq h.2, Alarms.step_set_of_ne heq, h.valueAt]
      rfl

theorem Represents.remove (h : tw.Represents a) :
    (tw.remove key).Represents (a.step (.cancel key)) := by
  refine ⟨fun {k v left} hk => ?_, fun k i => ?_⟩
  · by_cases heq : k = key
    · rw [heq, Alarms.step_cancel_self] at hk
      cases hk
    · rw [Alarms.step_cancel_of_ne heq] at hk
      exact h.left_lt hk
  · by_cases heq : k = key
    · subst heq
      rw [valueAt_remove_self fun _ _ => h.single, Alarms.step_cancel_self]
      rfl
    · rw [valueAt_remove_of_ne heq, Alarms.step_cancel_of_ne heq, h.valueAt]
      rfl

theorem Represents.retain {shouldRemove : κ → Bool} (h : tw.Represents a) :
    (tw.retain shouldRemove).Represents (a.step (.cancelIf shouldRemove)) := by
  refine ⟨fun {k v left} hk => ?_, fun k i => ?_⟩
  · change (if shouldRemove k then none else a k) = _ at hk
    split at hk
    · cases hk
    · exact h.left_lt hk
  · rw [valueAt_retain]
    show _ = Option.bind (if shouldRemove k then none else a k) _
    split
    · rfl
    · exact h.valueAt k i

/-- An alarm with ticks left is not in the current slot. -/
theorem WF.later_slot (hwf : tw.WF) {left : Nat} (hlt : left + 1 < tw.slotNum) :
    (tw.current + (left + 1)) % tw.slotNum ≠ tw.current := by
  intro heq
  have hmod : tw.current + (left + 1) ≡ tw.current + 0 [MOD tw.slotNum] :=
    heq.trans (Nat.mod_eq_of_lt hwf.current).symm
  have hzero : (left + 1) % tw.slotNum = 0 % tw.slotNum := Nat.ModEq.add_left_cancel' _ hmod
  rw [Nat.mod_eq_of_lt hlt, Nat.zero_mod] at hzero
  cases hzero

/-- A tick brings every alarm a slot nearer. -/
theorem Represents.tick (hwf : tw.WF) (h : tw.Represents a) :
    tw.tick.Represents (a.step .tick) := by
  refine ⟨fun {k v left} hk => ?_, fun k i => ?_⟩
  · change Alarms.countDown (a k) = _ at hk
    rcases hkey : a k with - | ⟨value, - | left'⟩
    · rw [hkey] at hk
      cases hk
    · rw [hkey] at hk
      cases hk
    · rw [hkey] at hk
      cases hk
      exact (Nat.lt_succ_self _).trans (h.left_lt hkey)
  · rw [valueAt_tick, h.valueAt]
    show _ = Option.bind (Alarms.countDown (a k)) fun alarm =>
      if i = ((tw.current + 1) % tw.slotNum + alarm.2) % tw.slotNum then some alarm.1 else none
    rcases hkey : a k with - | ⟨value, - | left⟩
    · simp [Alarms.countDown]
    · -- the alarm that rings stands in the current slot
      rw [Option.bind_some, Nat.add_zero, Nat.mod_eq_of_lt hwf.current]
      split <;> rfl
    · have hne := hwf.later_slot (h.left_lt hkey)
      rw [Option.bind_some, Alarms.countDown, Option.bind_some, Nat.mod_add_mod,
        Nat.add_right_comm, Nat.add_assoc]
      split
      · rename_i hi
        rw [if_neg fun heq => hne (heq.symm.trans hi)]
      · rfl

theorem Represents.apply (hwf : tw.WF) (h : tw.Represents a) (hplaced : tw.Placed op) :
    (tw.apply op).Represents (a.step (tw.alarmOp op)) := by
  cases op with
  | put key value delay => exact h.put hwf hplaced
  | remove key => exact h.remove
  | retain shouldRemove => exact h.retain
  | tick => exact h.tick hwf

/-- The expiry function is called for the alarms that ring. -/
theorem Represents.calls (hwf : tw.WF) (h : tw.Represents a) (key : κ) :
    (tw.calls op).filter (fun item => item.1 = key)
      = (a.rings key (tw.alarmOp op)).toList.map (Prod.mk key) := by
  cases op with
  | tick =>
      refine (OrdMap.filter_key _ key).trans ?_
      show (tw.valueAt tw.current key).toList.map _ = _
      rw [h.valueAt]
      show _ = (Alarms.rings a key .tick).toList.map _
      rw [Alarms.rings]
      rcases hkey : a key with - | ⟨value, - | left⟩
      · rfl
      · rw [Option.bind_some, Nat.add_zero, if_pos (Nat.mod_eq_of_lt hwf.current).symm]
        rfl
      · rw [Option.bind_some, if_neg (hwf.later_slot (h.left_lt hkey)).symm]
        rfl
  | _ => rfl

theorem alarmOp_apply {op' : WheelOp κ P} : (tw.apply op).alarmOp op' = tw.alarmOp op' := by
  cases op <;> cases op' <;> rfl

/-- The calls for a key during a run are the rings of its alarm. -/
theorem Represents.callsIn (hwf : tw.WF) (h : tw.Represents a) (hplaced : tw.PlacedAlong ops)
    (key : κ) : (tw.callsIn ops).filter (fun item => item.1 = key)
      = (a.ringsIn key (ops.map tw.alarmOp)).map (Prod.mk key) := by
  induction ops generalizing tw a with
  | nil => rfl
  | cons op ops ih =>
      have hops : ops.map (tw.apply op).alarmOp = ops.map tw.alarmOp :=
        List.map_congr_left fun _ _ => alarmOp_apply
      have hrest := ih hwf.apply (h.apply hwf hplaced.1) hplaced.2
      rw [hops] at hrest
      rw [TimeWheel.callsIn, List.filter_append, h.calls hwf, hrest, List.map_cons, Alarms.ringsIn,
        List.map_append]

theorem PlacedAlong.append {ops' : List (WheelOp κ P)} (h : tw.PlacedAlong (ops ++ ops')) :
    tw.PlacedAlong ops ∧ (tw.run ops).PlacedAlong ops' := by
  induction ops generalizing tw with
  | nil => exact ⟨trivial, h⟩
  | cons op ops ih =>
      obtain ⟨hops, hops'⟩ := ih h.2
      exact ⟨⟨h.1, hops⟩, hops'⟩

theorem Represents.run (hwf : tw.WF) (h : tw.Represents a) (hplaced : tw.PlacedAlong ops) :
    ∃ a, (tw.run ops).Represents a := by
  induction ops generalizing tw a with
  | nil => exact ⟨a, h⟩
  | cons op ops ih => exact ih hwf.apply (h.apply hwf hplaced.1) hplaced.2

theorem alarmOp_spares (h : op.Spares key) : (tw.alarmOp op).Spares key := by
  cases op <;> exact h

theorem ticks_alarmOp : Alarms.ticks (ops.map tw.alarmOp) = ticks ops := by
  rw [Alarms.ticks, List.countP_map]
  refine List.countP_congr fun op _ => ?_
  cases op <;> exact Iff.rfl

/-- A put is followed by one call, unless it is replaced or removed. -/
theorem Represents.put_calls (hwf : tw.WF) (h : tw.Represents a)
    (hput : tw.Placed (.put key value delay)) (hrest : (tw.put key value delay).PlacedAlong later)
    (hlater : ∀ op ∈ later, op.Spares key) :
    ((tw.put key value delay).callsIn later).filter (fun item => item.1 = key)
      = if tw.slotsAhead delay % tw.slotNum < ticks later then [(key, value)] else [] := by
  have hspares : ∀ op ∈ later.map (tw.put key value delay).alarmOp, op.Spares key := by
    intro op hop
    obtain ⟨op', hop', rfl⟩ := List.mem_map.mp hop
    exact alarmOp_spares (hlater op' hop')
  rw [(h.put hwf hput).callsIn hwf.put hrest, Alarms.rings_of_set hspares Alarms.step_set_self,
    ticks_alarmOp, apply_ite (List.map _)]
  rfl

/-- **The wheel is a map**, in every run that never puts a key into a second
slot: a key stands in one slot at most, it is gone once it is removed, and a
put that is neither replaced nor removed leads to one call of the expiry
function, with the value put, before the wheel has turned round. -/
theorem run_keyed {interval : Duration} {slotNum : Nat} (hinterval : 0 < interval)
    (hslots : 0 < slotNum)
    (hplaced : (newTimeWheel interval slotNum : TimeWheel κ P).PlacedAlong ops) :
    (∀ key i j, ((newTimeWheel interval slotNum).run ops).valueAt i key ≠ none →
      ((newTimeWheel interval slotNum).run ops).valueAt j key ≠ none → i = j) ∧
    (∀ key i, (((newTimeWheel interval slotNum).run ops).remove key).valueAt i key = none) ∧
    ∀ before key value delay later, ops = before ++ .put key value delay :: later →
      (∀ op ∈ later, op.Spares key) → ∃ left < slotNum,
      ((((newTimeWheel interval slotNum).run before).put key value delay).callsIn later).filter
          (fun item => item.1 = key)
        = if left < ticks later then [(key, value)] else [] := by
  have hwf : (newTimeWheel interval slotNum : TimeWheel κ P).WF := wf_new hinterval hslots
  obtain ⟨a, ha⟩ := represents_new.run hwf hplaced
  refine ⟨fun key i j => ha.single, fun key i => valueAt_remove_self fun _ _ => ha.single, ?_⟩
  rintro before key value delay later rfl hlater
  obtain ⟨hbefore, hput, hrest⟩ := hplaced.append
  obtain ⟨a₁, ha₁⟩ := represents_new.run hwf hbefore
  refine ⟨_, ?_, ha₁.put_calls hwf.run hput hrest hlater⟩
  rw [slotNum_run]
  exact Nat.mod_lt _ hslots

/-- One put, and the ticks until its item expires. -/
theorem run_keyed_once :
    (newTimeWheel 250 8 : TimeWheel Nat Nat).PlacedAlong [.put 1 10 250, .tick, .tick] ∧
    ∃ left < 8, (((newTimeWheel 250 8 : TimeWheel Nat Nat).put 1 10 250).callsIn
      [.tick, .tick]).filter (fun item => item.1 = 1)
        = if left < ticks [(.tick : WheelOp Nat Nat), .tick] then [(1, 10)] else [] := by
  have hplaced : (newTimeWheel 250 8 : TimeWheel Nat Nat).PlacedAlong
      [.put 1 10 250, .tick, .tick] :=
    ⟨fun i hi => absurd valueAt_new hi, trivial, trivial, trivial⟩
  refine ⟨hplaced, (run_keyed (by decide) (by decide) hplaced).2.2 [] 1 10 250 _ rfl ?_⟩
  simp [Spares]

/-- A key that is put twice, with different delays: it stands in two slots,
removing it leaves one of them, and it expires twice. -/
theorem key_in_two_slots :
    ((newTimeWheel 250 8 : TimeWheel Nat Nat).run [.put 1 10 0, .put 1 20 250]).slotsOf 1 = 2 ∧
    ((newTimeWheel 250 8 : TimeWheel Nat Nat).run
      [.put 1 10 0, .put 1 20 250, .remove 1]).slotsOf 1 = 1 ∧
    (newTimeWheel 250 8 : TimeWheel Nat Nat).callsIn
      [.put 1 10 0, .put 1 20 250, .tick, .tick] = [(1, 10), (1, 20)] := by
  decide

end TimeWheel

end UtpGo
