/-
UtpGo/DelaySet.lean

The time wheel: `delay_set.go`.  A wheel of slots, each a map from keys to
items; an item is put into the slot its delay away from the current one, and
every tick empties the current slot and hands its items to the expiry
function.  A key put twice may stand in two slots, and `remove` deletes it
from the first of them only.

A tick walks over a Go map, whose order is not defined: the order is an
argument of `tick`, and the model takes any permutation of the slot.

The lemmas say what a wheel can hold after each operation (`Holds`), and in
how many slots a key stands (`slotsOf`).
-/
import UtpGo.Basic
import UtpGo.OrdMap

namespace UtpGo

structure TimeWheel (κ P : Type) [LinearOrder κ] where
  interval : Duration
  slots : List (OrdMap κ P)
  current : Nat
  slotNum : Nat
  maxDelay : Duration

variable {κ P : Type} [LinearOrder κ]

/-- The interval is positive: the ticker does not start otherwise. -/
def newTimeWheel (interval : Duration) (slotNum : Nat) : TimeWheel κ P where
  interval := interval
  slots := List.replicate slotNum .empty
  current := 0
  slotNum := slotNum
  maxDelay := slotNum * interval

namespace TimeWheel

def put (tw : TimeWheel κ P) (key : κ) (value : P) (delay : Duration) : TimeWheel κ P :=
  let delay := min delay tw.maxDelay
  let slots := delay / tw.interval
  let index := (tw.current + slots) % tw.slotNum
  { tw with slots := tw.slots.modify index fun slot => slot.insert key value }

/-- `put` for a delay of either sign.  Go divides towards zero and the
remainder has the sign of the dividend: a negative delay may lead to a negative
index, at which the slice panics. -/
def putSigned {π : Type} (tw : TimeWheel κ P) (key : κ) (value : P) (delay : Int) :
    Checked.Go π (TimeWheel κ P) :=
  let delay := min delay tw.maxDelay
  let slots := delay.tdiv tw.interval
  let index := (tw.current + slots).tmod tw.slotNum
  if index < 0 then throw .indexOutOfRange
  else pure { tw with slots := tw.slots.modify index.toNat fun slot => slot.insert key value }

def retain (tw : TimeWheel κ P) (shouldRemove : κ → Bool) : TimeWheel κ P :=
  { tw with slots := tw.slots.map fun slot => slot.filterKeys fun key => !shouldRemove key }

/-- Delete `key` from the first slot that has it. -/
def removeFirst (key : κ) : List (OrdMap κ P) → List (OrdMap κ P)
  | [] => []
  | slot :: slots =>
      if slot.contains key then slot.erase key :: slots else slot :: removeFirst key slots

def remove (tw : TimeWheel κ P) (key : κ) : TimeWheel κ P :=
  { tw with slots := removeFirst key tw.slots }

/-- The items of the current slot. -/
def due (tw : TimeWheel κ P) : List (κ × P) := (tw.slots.getD tw.current .empty).entries

/-- One pass of `run`: the current slot is cleared and the wheel turns. -/
def tick (tw : TimeWheel κ P) : TimeWheel κ P :=
  { tw with
    slots := tw.slots.set tw.current .empty
    current := (tw.current + 1) % tw.slotNum }

/-! ### What a wheel holds -/

def Holds (tw : TimeWheel κ P) (item : κ × P) : Prop := ∃ slot ∈ tw.slots, item ∈ slot.entries

variable {tw : TimeWheel κ P} {item : κ × P}

theorem not_holds_new {interval : Duration} {slotNum : Nat} :
    ¬ (newTimeWheel interval slotNum : TimeWheel κ P).Holds item := by
  rintro ⟨slot, hslot, hitem⟩
  rw [(List.mem_replicate.mp hslot).2] at hitem
  simp at hitem

/-- An item inserted into some slot. -/
theorem Holds.of_insert {index : Nat} {key : κ} {value : P}
    (h : Holds { tw with slots := tw.slots.modify index fun slot => slot.insert key value } item) :
    item = (key, value) ∨ tw.Holds item := by
  obtain ⟨slot, hslot, hitem⟩ := h
  obtain ⟨i, hi⟩ := List.getElem?_of_mem hslot
  change (tw.slots.modify _ _)[i]? = some slot at hi
  rw [List.getElem?_modify] at hi
  obtain ⟨slot₀, hslot₀, heq⟩ := Option.map_eq_some_iff.mp hi
  have hmem := List.mem_of_getElem? hslot₀
  split at heq
  · subst heq
    rcases OrdMap.mem_insert.mp hitem with h | ⟨h, -⟩
    · exact .inl h
    · exact .inr ⟨slot₀, hmem, h⟩
  · subst heq
    exact .inr ⟨slot₀, hmem, hitem⟩

theorem Holds.of_put {key : κ} {value : P} {delay : Duration}
    (h : (tw.put key value delay).Holds item) : item = (key, value) ∨ tw.Holds item :=
  Holds.of_insert h

theorem putSigned_ok {π : Type} {tw' : TimeWheel κ P} {key : κ} {value : P} {delay : Int}
    (hok : (tw.putSigned key value delay : Checked.Go π _) = .ok tw') :
    ∃ index, (0 < tw.slotNum → index < tw.slotNum) ∧
      tw' = { tw with slots := tw.slots.modify index fun slot => slot.insert key value } := by
  dsimp only [putSigned] at hok
  split at hok
  · cases hok
  · refine ⟨_, fun hpos => ?_, (Checked.pure_eq_ok.mp hok).symm⟩
    have hlt := Int.tmod_lt_of_pos (tw.current + (min delay tw.maxDelay).tdiv tw.interval)
      (Int.natCast_pos.mpr hpos)
    omega

theorem putSigned_error {π : Type} {key : κ} {value : P} {delay : Int} {panic : Checked.Panic π}
    (herr : tw.putSigned key value delay = .error panic) : panic = .indexOutOfRange := by
  dsimp only [putSigned] at herr
  split at herr
  · exact (Checked.throw_eq_error.mp herr).symm
  · cases herr

theorem Holds.of_putSigned {π : Type} {tw' : TimeWheel κ P} {key : κ} {value : P} {delay : Int}
    (hok : (tw.putSigned key value delay : Checked.Go π _) = .ok tw') (h : tw'.Holds item) :
    item = (key, value) ∨ tw.Holds item := by
  obtain ⟨index, -, rfl⟩ := putSigned_ok hok
  exact Holds.of_insert h

/-- A delay that is not negative is that of `put`. -/
theorem putSigned_natCast {π : Type} (tw : TimeWheel κ P) (key : κ) (value : P)
    (delay : Duration) :
    (tw.putSigned key value delay : Checked.Go π _) = pure (tw.put key value delay) := by
  have hindex : ((tw.current : Int) + (min (delay : Int) tw.maxDelay).tdiv tw.interval).tmod
      tw.slotNum = ((tw.current + min delay tw.maxDelay / tw.interval) % tw.slotNum : Nat) := by
    rw [← Nat.cast_min, ← Int.ofNat_tdiv, ← Int.natCast_add, ← Int.ofNat_tmod]
  dsimp only [putSigned]
  rw [hindex, if_neg (by omega)]
  rfl

theorem Holds.of_retain {shouldRemove : κ → Bool} (h : (tw.retain shouldRemove).Holds item) :
    tw.Holds item ∧ shouldRemove item.1 = false := by
  obtain ⟨slot, hslot, hitem⟩ := h
  obtain ⟨slot₀, hslot₀, rfl⟩ := List.mem_map.mp hslot
  obtain ⟨hmem, hkeep⟩ := OrdMap.mem_filterKeys.mp hitem
  exact ⟨⟨slot₀, hslot₀, hmem⟩, by simpa using hkeep⟩

theorem Holds.of_remove {key : κ} (h : (tw.remove key).Holds item) : tw.Holds item := by
  obtain ⟨slot, hslot, hitem⟩ := h
  change slot ∈ removeFirst key tw.slots at hslot
  unfold Holds
  generalize tw.slots = slots at hslot
  induction slots with
  | nil => cases hslot
  | cons slot₀ slots ih =>
      rw [removeFirst] at hslot
      split at hslot
      · rcases List.mem_cons.mp hslot with rfl | hslot
        · exact ⟨slot₀, by simp, (OrdMap.mem_erase.mp hitem).1⟩
        · exact ⟨slot, by simp [hslot], hitem⟩
      · rcases List.mem_cons.mp hslot with rfl | hslot
        · exact ⟨slot, by simp, hitem⟩
        · obtain ⟨slot', hslot', hitem'⟩ := ih hslot
          exact ⟨slot', by simp [hslot'], hitem'⟩

theorem Holds.of_due (h : item ∈ tw.due) : tw.Holds item := by
  unfold due at h
  rw [List.getD_eq_getElem?_getD] at h
  rcases hs : tw.slots[tw.current]? with - | slot
  · rw [hs] at h
    simp at h
  · rw [hs] at h
    exact ⟨slot, List.mem_of_getElem? hs, h⟩

theorem Holds.of_tick (h : tw.tick.Holds item) : tw.Holds item := by
  obtain ⟨slot, hslot, hitem⟩ := h
  rcases List.mem_or_eq_of_mem_set hslot with hslot | rfl
  · exact ⟨slot, hslot, hitem⟩
  · simp at hitem

/-! ### In how many slots a key stands -/

def slotsOf (tw : TimeWheel κ P) (key : κ) : Nat := tw.slots.countP fun slot => slot.contains key

theorem Holds.slotsOf_pos (h : tw.Holds item) : 0 < tw.slotsOf item.1 := by
  obtain ⟨slot, hslot, hitem⟩ := h
  exact List.countP_pos_iff.mpr ⟨slot, hslot, OrdMap.contains_iff.mpr ⟨item.2, hitem⟩⟩

theorem slotsOf_retain_le (shouldRemove : κ → Bool) (key : κ) :
    (tw.retain shouldRemove).slotsOf key ≤ tw.slotsOf key := by
  unfold slotsOf retain
  rw [List.countP_map]
  refine List.countP_mono_left fun slot _ hkey => ?_
  obtain ⟨v, hv⟩ := OrdMap.contains_iff.mp hkey
  exact OrdMap.contains_iff.mpr ⟨v, (OrdMap.mem_filterKeys.mp hv).1⟩

/-- `remove` takes a key out of one slot, and leaves the other keys. -/
theorem slotsOf_remove (tw : TimeWheel κ P) (key key' : κ) :
    (tw.remove key).slotsOf key' = tw.slotsOf key' - if key' = key then 1 else 0 := by
  unfold slotsOf remove
  generalize tw.slots = slots
  induction slots with
  | nil => simp [removeFirst]
  | cons slot slots ih =>
      have herase : (slot.erase key).contains key' = true ↔
          slot.contains key' = true ∧ key' ≠ key := OrdMap.contains_erase
      dsimp only [removeFirst] at ih ⊢
      split
      · rename_i hkey
        rw [List.countP_cons, List.countP_cons]
        by_cases heq : key' = key
        · subst heq
          simp [herase, hkey]
        · simp [herase, heq]
      · rename_i hkey
        rw [List.countP_cons, List.countP_cons, ih]
        by_cases heq : key' = key
        · subst heq
          simp [hkey]
        · simp [heq]

/-- A key that stands in one slot at most is gone once it was removed. -/
theorem slotsOf_removeAll {keys : List κ} {key : κ} (hkey : key ∈ keys)
    (hone : tw.slotsOf key ≤ 1) : (keys.foldl remove tw).slotsOf key = 0 := by
  have hle : ∀ (keys : List κ) (tw : TimeWheel κ P),
      (keys.foldl remove tw).slotsOf key ≤ tw.slotsOf key := by
    intro keys
    induction keys with
    | nil => exact fun tw => le_refl _
    | cons k keys ih =>
        intro tw
        refine (ih (tw.remove k)).trans ?_
        rw [slotsOf_remove]
        exact Nat.sub_le _ _
  induction keys generalizing tw with
  | nil => cases hkey
  | cons k keys ih =>
      rw [List.foldl_cons]
      have hrem := slotsOf_remove tw k key
      by_cases heq : key = k
      · rw [if_pos heq] at hrem
        have := hle keys (tw.remove k)
        omega
      · rw [if_neg heq] at hrem
        exact ih ((List.mem_cons.mp hkey).resolve_left heq) (by omega)

end TimeWheel

end UtpGo
