/-
UtpGo/Circular.lean

Arithmetic on a circle of `2 ^ w` numbers.  A counter of fixed width that is
never rebased is read relative to a base point: `ahead base x` is the number
of steps from `base` up to `x`.  On the arc that has not come round yet the
distance behaves like an ordinary natural number (`ahead_add_ofNat`), and a
number is determined by its distance (`ahead_inj`).  The numbers from `base`
up to `x`, in order, are `arc base x`, and distances say which they are
(`mem_arc`).
-/
import Mathlib.Tactic
import Mathlib.Data.BitVec

namespace Circular

variable {w : Nat}

instance linearOrder : LinearOrder (BitVec w) where
  le_refl := by intro a; bv_omega
  le_trans := by intro a b c; bv_omega
  lt_iff_le_not_ge := by intro a b; bv_omega
  le_antisymm := by intro a b; bv_omega
  le_total := by intro a b; bv_omega
  toDecidableLE := inferInstance
  toDecidableEq := inferInstance
  toDecidableLT := inferInstance

theorem toNat_min (a b : BitVec w) : (min a b).toNat = min a.toNat b.toNat := by
  rcases le_total a b with h | h
  · rw [min_eq_left h, min_eq_left (show a.toNat ≤ b.toNat from h)]
  · rw [min_eq_right h, min_eq_right (show b.toNat ≤ a.toNat from h)]

/-- The number of steps from `base` up to `x`. -/
def ahead (base x : BitVec w) : Nat := (x - base).toNat

variable {base x y : BitVec w}

theorem ahead_lt (base x : BitVec w) : ahead base x < 2 ^ w := (x - base).isLt

@[simp] theorem ahead_self (base : BitVec w) : ahead base base = 0 := by
  simp [ahead]

@[simp] theorem add_ahead (base x : BitVec w) : base + BitVec.ofNat w (ahead base x) = x := by
  unfold ahead
  rw [BitVec.ofNat_toNat, BitVec.setWidth_eq]
  ring

theorem ahead_add_ofNat {k : Nat} (hk : k < 2 ^ w) :
    ahead base (base + BitVec.ofNat w k) = k := by
  simp [ahead, Nat.mod_eq_of_lt hk]

theorem ahead_inj (base : BitVec w) : ahead base x = ahead base y ↔ x = y := by
  refine ⟨fun h => ?_, fun h => h ▸ rfl⟩
  rw [← add_ahead base x, h, add_ahead]

theorem ahead_eq_zero : ahead base x = 0 ↔ x = base := by
  rw [← ahead_self base, ahead_inj]

theorem add_ofNat_succ (base : BitVec w) (k : Nat) :
    base + BitVec.ofNat w (k + 1) = base + 1 + BitVec.ofNat w k := by
  rw [BitVec.ofNat_add, add_comm (BitVec.ofNat w k), ← add_assoc]
  rfl

/-- One step on, the distance is one less. -/
theorem ahead_succ (h : base ≠ x) : ahead base x = ahead (base + 1) x + 1 := by
  have hpos : ahead base x ≠ 0 := fun hzero => h (ahead_eq_zero.mp hzero).symm
  obtain ⟨k, hk⟩ := Nat.exists_eq_succ_of_ne_zero hpos
  have hlt : k < 2 ^ w := lt_trans (Nat.lt_succ_self k) (hk ▸ ahead_lt base x)
  have hx : base + 1 + BitVec.ofNat w k = x := by
    rw [← add_ofNat_succ, ← Nat.succ_eq_add_one, ← hk, add_ahead]
  rw [hk, ← hx, ahead_add_ofNat hlt]

/-! ### Arcs -/

/-- The numbers from `base` up to `x`, both inclusive. -/
def arc (base x : BitVec w) : List (BitVec w) :=
  (List.range (ahead base x + 1)).map fun k => base + BitVec.ofNat w k

@[simp] theorem length_arc (base x : BitVec w) : (arc base x).length = ahead base x + 1 := by
  simp [arc]

theorem mem_arc : y ∈ arc base x ↔ ahead base y ≤ ahead base x := by
  constructor
  · intro hy
    obtain ⟨k, hk, rfl⟩ := List.mem_map.mp hy
    have hle : k ≤ ahead base x := Nat.le_of_lt_succ (List.mem_range.mp hk)
    rwa [ahead_add_ofNat (lt_of_le_of_lt hle (ahead_lt base x))]
  · intro hle
    exact List.mem_map.mpr ⟨ahead base y, List.mem_range.mpr (Nat.lt_succ_of_le hle),
      add_ahead base y⟩

theorem nodup_arc (base x : BitVec w) : (arc base x).Nodup := by
  refine List.Nodup.map_on ?_ List.nodup_range
  intro j hj k hk heq
  have hlt : ∀ i ∈ List.range (ahead base x + 1), i < 2 ^ w := fun i hi =>
    lt_of_le_of_lt (Nat.le_of_lt_succ (List.mem_range.mp hi)) (ahead_lt base x)
  calc j = ahead base (base + BitVec.ofNat w j) := (ahead_add_ofNat (hlt j hj)).symm
    _ = ahead base (base + BitVec.ofNat w k) := by rw [heq]
    _ = k := ahead_add_ofNat (hlt k hk)

theorem arc_self (base : BitVec w) : arc base base = [base] := by
  simp [arc]

theorem arc_cons (h : base ≠ x) : arc base x = base :: arc (base + 1) x := by
  rw [arc, ahead_succ h, List.range_succ_eq_map, List.map_cons, List.map_map]
  congr 1
  · simp
  · exact List.map_congr_left fun k _ => add_ofNat_succ base k

theorem getLast?_arc (base x : BitVec w) : (arc base x).getLast? = some x := by
  rw [arc, List.range_succ, List.map_append, List.getLast?_append]
  simp

end Circular
