/-
UtpGo/BinHeap.lean

Binary heaps in a vector, the way Go's `container/heap` keeps them.  An entry
is appended and swapped upwards until its parent is not larger (`up`); the
root is swapped with the last entry and the new root downwards, with the
smaller child each time, until no child is smaller (`down`).

A `Heap` carries its order, so a user never states it.  `HeapOps` is all that
a user needs of an implementation: `push` adds an entry, `pop` takes the root
of a heap that has one, and both return a heap.  `containerHeap` shows that
the loops are such an implementation, and `Heap.root_le` is the rule for
users: nothing in a heap is smaller than its root.
-/
import Mathlib.Tactic

namespace Heaps

variable {α β : Type} [LinearOrder β] {key : α → β} {n : Nat}

/-! ### Order -/

/-- The index above `j`.  The root is above itself. -/
def parent (j : Nat) : Nat := (j - 1) / 2

theorem parent_le (j : Nat) : parent j ≤ j := by
  unfold parent
  omega

theorem parent_lt {j : Nat} (h : parent j ≠ j) : parent j < j :=
  lt_of_le_of_ne (parent_le j) h

/-- An index other than the root is one of the two children of its parent. -/
theorem child_cases {i k : Nat} (h : parent k = i) (hne : k ≠ i) :
    k = 2 * i + 1 ∨ k = 2 * i + 2 := by
  unfold parent at h
  omega

theorem parent_left (i : Nat) : parent (2 * i + 1) = i := by
  unfold parent
  omega

theorem parent_right (i : Nat) : parent (2 * i + 2) = i := by
  unfold parent
  omega

/-- No entry before index `m` is smaller than its parent. -/
def OrderedBelow (key : α → β) (v : Vector α n) (m : Nat) : Prop :=
  ∀ i j (hi : i < n) (hj : j < n), j < m → parent j = i → key v[i] ≤ key v[j]

def Ordered (key : α → β) (v : Vector α n) : Prop := OrderedBelow key v n

/-- A vector of `n` entries in heap order. -/
structure Heap (key : α → β) (n : Nat) where
  entries : Vector α n
  ordered : Ordered key entries

def Heap.empty : Heap key 0 := ⟨#v[], fun i _ hi => absurd hi (Nat.not_lt_zero i)⟩

def Heap.root (h : Heap key (n + 1)) : α := h.entries.get ⟨0, n.succ_pos⟩

def Heap.toSet (h : Heap key n) : Set α := {x | x ∈ h.entries}

theorem Heap.toSet_empty (h : Heap key 0) : h.toSet = ∅ := by
  refine Set.eq_empty_of_forall_notMem fun x hx => ?_
  obtain ⟨i, hi, -⟩ := Vector.mem_iff_getElem.mp hx
  exact absurd hi (Nat.not_lt_zero i)

/-- **The root is smallest.** -/
theorem Heap.root_le (h : Heap key (n + 1)) {x : α} (hx : x ∈ h.toSet) : key h.root ≤ key x := by
  obtain ⟨j, hj, rfl⟩ := Vector.mem_iff_getElem.mp hx
  -- along the path from the entry to the root
  induction j using Nat.strong_induction_on with
  | _ j ih =>
      by_cases hroot : parent j = j
      · have hzero : j = 0 := by
          unfold parent at hroot
          omega
        subst hzero
        exact le_refl _
      · have hlt := parent_lt hroot
        have habove : parent j < n + 1 := lt_trans hlt hj
        have hpath := ih (parent j) hlt habove (Vector.getElem_mem habove)
        exact le_trans hpath (h.ordered _ j habove hj hj rfl)

/-! ### Upwards -/

variable (key) in
/-- The loop `up`. -/
def up (v : Vector α n) (j : Nat) (hj : j < n) : Vector α n :=
  have hi : parent j < n := lt_of_le_of_lt (parent_le j) hj
  if hstop : parent j = j ∨ ¬ key v[j] < key v[parent j] then v
  else up (v.swap (parent j) j) (parent j) hi
termination_by j
decreasing_by exact parent_lt (not_or.mp hstop).1

/-- Only the entry at `j` may be smaller than its parent, and its children
would be in order below that parent. -/
structure UpOrder (key : α → β) (v : Vector α n) (j : Nat) : Prop where
  off : ∀ i k (hi : i < n) (hk : k < n), parent k = i → k ≠ j → key v[i] ≤ key v[k]
  across : ∀ i k (hi : i < n) (hk : k < n), parent k = j → k ≠ j → parent j = i →
    key v[i] ≤ key v[k]

theorem UpOrder.finish {v : Vector α n} {j : Nat} (h : UpOrder key v j) (hj : j < n)
    (hi : parent j < n) (hstop : parent j = j ∨ ¬ key v[j] < key v[parent j]) :
    Ordered key v := by
  rintro i k hi' hk - rfl
  by_cases hkj : k = j
  · subst hkj
    rcases hstop with hroot | hle
    · simp only [hroot, le_refl]
    · exact not_lt.mp hle
  · exact h.off _ k hi' hk rfl hkj

theorem UpOrder.swap {v : Vector α n} {j : Nat} (h : UpOrder key v j) (hj : j < n)
    (hi : parent j < n) (hne : parent j ≠ j) (hlt : key v[j] < key v[parent j]) :
    UpOrder key (v.swap (parent j) j) (parent j) := by
  have hbelow := parent_lt hne
  constructor
  · rintro a k ha hk rfl hki
    rw [Vector.getElem_swap, Vector.getElem_swap, if_neg hki]
    by_cases hkj : k = j
    · subst hkj
      rw [if_pos rfl, if_pos rfl]
      exact hlt.le
    rw [if_neg hkj]
    have hoff := h.off _ k ha hk rfl hkj
    split
    · rename_i heq
      simp only [heq] at hoff
      exact le_trans hlt.le hoff
    · split
      · rename_i heq
        exact h.across _ k hi hk heq hkj rfl
      · exact hoff
  · rintro a k ha hk hpk hki rfl
    -- the entry that went down is in order below the grandparent
    have hgrand : key (v.swap (parent j) j)[parent (parent j)] ≤ key v[parent j] := by
      rw [Vector.getElem_swap]
      split
      · exact hlt.le
      · rename_i hroot
        have hfar : parent (parent j) ≠ j := ne_of_lt (lt_of_le_of_lt (parent_le _) hbelow)
        rw [if_neg hfar]
        exact h.off _ _ ha hi rfl hne
    refine le_trans hgrand ?_
    rw [Vector.getElem_swap, if_neg hki]
    split
    · exact le_refl _
    · rename_i hkj
      exact h.off _ k hi hk hpk hkj

theorem up_ordered {v : Vector α n} {j : Nat} (hj : j < n) (h : UpOrder key v j) :
    Ordered key (up key v j hj) := by
  induction v, j, hj using up.induct key with
  | case1 v j hj hi hstop =>
      rw [up, dif_pos hstop]
      exact h.finish hj hi hstop
  | case2 v j hj hi hstop ih =>
      rw [up, dif_neg hstop]
      obtain ⟨hne, hlt⟩ := not_or.mp hstop
      exact ih (h.swap hj hi hne (not_not.mp hlt))

theorem up_perm (v : Vector α n) (j : Nat) (hj : j < n) : (up key v j hj).Perm v := by
  induction v, j, hj using up.induct key with
  | case1 v j hj hi hstop => rw [up, dif_pos hstop]
  | case2 v j hj hi hstop ih =>
      rw [up, dif_neg hstop]
      exact ih.trans (Vector.swap_perm hi hj)

/-! ### Downwards -/

section Down

variable (key) (v : Vector α n) (i : Nat) {m : Nat} (hm : m ≤ n)

/-- The smaller child of `i` before index `m`, the left one if they are
equal. -/
def minChild : Nat :=
  if hright : 2 * i + 2 < m then
    if key v[2 * i + 2] < key v[2 * i + 1] then 2 * i + 2 else 2 * i + 1
  else 2 * i + 1

theorem minChild_cases :
    minChild key v i hm = 2 * i + 1 ∨ minChild key v i hm = 2 * i + 2 ∧ 2 * i + 2 < m := by
  unfold minChild
  split
  · rename_i hright
    split
    · exact .inr ⟨rfl, hright⟩
    · exact .inl rfl
  · exact .inl rfl

theorem minChild_lt (hleft : 2 * i + 1 < m) : minChild key v i hm < m := by
  rcases minChild_cases key v i hm with h | ⟨h, hright⟩
  · rwa [h]
  · rwa [h]

theorem lt_minChild : i < minChild key v i hm := by
  rcases minChild_cases key v i hm with h | ⟨h, -⟩ <;> omega

theorem parent_minChild : parent (minChild key v i hm) = i := by
  rcases minChild_cases key v i hm with h | ⟨h, -⟩
  · rw [h, parent_left]
  · rw [h, parent_right]

theorem minChild_le {k : Nat} (hc : minChild key v i hm < n) (hk : k < n) (hkm : k < m)
    (hpk : parent k = i) (hne : k ≠ i) : key v[minChild key v i hm] ≤ key v[k] := by
  unfold minChild
  rcases child_cases hpk hne with rfl | rfl
  · split
    · split
      · rename_i hlt
        exact hlt.le
      · exact le_refl _
    · exact le_refl _
  · simp only [dif_pos hkm]
    split
    · exact le_refl _
    · rename_i hle
      exact not_lt.mp hle

end Down

variable (key) in
/-- The loop `down`, which leaves the entries from index `m` on alone. -/
def down (v : Vector α n) (i : Nat) {m : Nat} (hm : m ≤ n) : Vector α n :=
  if hleft : 2 * i + 1 < m then
    have hj : minChild key v i hm < n := lt_of_lt_of_le (minChild_lt key v i hm hleft) hm
    have hi : i < n := lt_trans (lt_minChild key v i hm) hj
    if key v[minChild key v i hm] < key v[i] then
      down (v.swap i (minChild key v i hm)) (minChild key v i hm) hm
    else v
  else v
termination_by m - i
decreasing_by
  have hlt := minChild_lt key v i hm hleft
  have hgt := lt_minChild key v i hm
  omega

/-- Only the entry at `i` may be larger than its children, and they would be
in order below its parent. -/
structure DownOrder (key : α → β) (v : Vector α n) (m i : Nat) : Prop where
  off : ∀ a k (ha : a < n) (hk : k < n), k < m → parent k = a → a ≠ i → key v[a] ≤ key v[k]
  across : ∀ a k (ha : a < n) (hk : k < n), k < m → parent k = i → parent i = a → a ≠ i →
    key v[a] ≤ key v[k]

variable {v : Vector α n} {i m : Nat}

theorem DownOrder.finish (h : DownOrder key v m i)
    (hstop : ∀ k (hi : i < n) (hk : k < n), k < m → parent k = i → k ≠ i → key v[i] ≤ key v[k]) :
    OrderedBelow key v m := by
  rintro a k ha hk hkm rfl
  by_cases hai : parent k = i
  · by_cases hki : k = i
    · subst hki
      simp only [hai, le_refl]
    · simp only [hai]
      exact hstop k (hai ▸ ha) hk hkm hai hki
  · exact h.off _ k ha hk hkm rfl hai

theorem DownOrder.swap (h : DownOrder key v m i) {c : Nat} (hi : i < n) (hc : c < n) (hcm : c < m)
    (hpc : parent c = i) (hne : c ≠ i)
    (hmin : ∀ k (hk : k < n), k < m → parent k = i → k ≠ i → key v[c] ≤ key v[k])
    (hlt : key v[c] < key v[i]) : DownOrder key (v.swap i c) m c := by
  have hic : i < c := hpc ▸ parent_lt (hpc ▸ hne.symm)
  constructor
  · rintro a k ha hk hkm rfl hac
    rw [Vector.getElem_swap, Vector.getElem_swap]
    by_cases hai : parent k = i
    · -- the children of the place that the smaller child has gone up to
      rw [if_pos hai]
      split
      · exact le_refl _
      · rename_i hki
        split
        · exact hlt.le
        · exact hmin k hk hkm hai hki
    · rw [if_neg hai, if_neg hac]
      split
      · rename_i hki
        exact h.across _ c ha hc hcm hpc (hki ▸ rfl) hai
      · rename_i hki
        have hkc : k ≠ c := fun heq => hai (heq ▸ hpc)
        rw [if_neg hkc]
        exact h.off _ k ha hk hkm rfl hai
  · rintro a k ha hk hkm hpk rfl hac
    have hck : c ≤ k := hpk ▸ parent_le k
    rw [Vector.getElem_swap, Vector.getElem_swap, if_pos hpc, if_neg (by omega)]
    split
    · exact hlt.le
    · exact h.off c k hc hk hkm hpk hne

theorem down_ordered (hm : m ≤ n) (h : DownOrder key v m i) :
    OrderedBelow key (down key v i hm) m := by
  induction v, i using down.induct key hm with
  | case1 v i hleft hj hi hlt ih =>
      rw [down, dif_pos hleft, if_pos hlt]
      refine ih (h.swap hi hj (minChild_lt key v i hm hleft) (parent_minChild key v i hm)
        (lt_minChild key v i hm).ne' ?_ hlt)
      exact fun k hk hkm hpk hne => minChild_le key v i hm hj hk hkm hpk hne
  | case2 v i hleft hj hi hlt =>
      rw [down, dif_pos hleft, if_neg hlt]
      refine h.finish fun k _ hk hkm hpk hne => ?_
      exact le_trans (not_lt.mp hlt) (minChild_le key v i hm hj hk hkm hpk hne)
  | case3 v i hleft =>
      rw [down, dif_neg hleft]
      refine h.finish fun k _ hk hkm hpk hne => ?_
      rcases child_cases hpk hne with rfl | rfl <;> omega

theorem down_perm (v : Vector α n) (i : Nat) (hm : m ≤ n) : (down key v i hm).Perm v := by
  induction v, i using down.induct key hm with
  | case1 v i hleft hj hi hlt ih =>
      rw [down, dif_pos hleft, if_pos hlt]
      exact ih.trans (Vector.swap_perm hi hj)
  | case2 v i hleft hj hi hlt => rw [down, dif_pos hleft, if_neg hlt]
  | case3 v i hleft => rw [down, dif_neg hleft]

theorem getElem_down (v : Vector α n) (i : Nat) (hm : m ≤ n) {k : Nat} (hk : k < n)
    (hmk : m ≤ k) : (down key v i hm)[k] = v[k] := by
  induction v, i using down.induct key hm with
  | case1 v i hleft hj hi hlt ih =>
      have hchild := minChild_lt key v i hm hleft
      rw [down, dif_pos hleft, if_pos hlt, ih, Vector.getElem_swap, if_neg (by omega),
        if_neg (by omega)]
  | case2 v i hleft hj hi hlt => rw [down, dif_pos hleft, if_neg hlt]
  | case3 v i hleft => rw [down, dif_neg hleft]

/-! ### Adding an entry and taking the root -/

/-- What a user needs of an implementation of heaps. -/
structure HeapOps (key : α → β) where
  push {n : Nat} : Heap key n → α → Heap key (n + 1)
  pop {n : Nat} : Heap key (n + 1) → Heap key n
  push_perm {n : Nat} (h : Heap key n) (x : α) : (push h x).entries.Perm (h.entries.push x)
  pop_perm {n : Nat} (h : Heap key (n + 1)) : ((pop h).entries.push h.root).Perm h.entries

theorem HeapOps.toSet_push (ops : HeapOps key) (h : Heap key n) (x : α) :
    (ops.push h x).toSet = insert x h.toSet := by
  ext y
  show y ∈ (ops.push h x).entries ↔ y = x ∨ y ∈ h.entries
  rw [(ops.push_perm h x).mem_iff, Vector.mem_push, or_comm]

theorem HeapOps.toSet_pop (ops : HeapOps key) (h : Heap key (n + 1)) :
    h.toSet = insert h.root (ops.pop h).toSet := by
  ext y
  show y ∈ h.entries ↔ y = h.root ∨ y ∈ (ops.pop h).entries
  rw [← (ops.pop_perm h).mem_iff, Vector.mem_push, or_comm]

variable (key) in
/-- `heap.Push`: the entry goes to the end, and upwards from there. -/
def pushEntry (v : Vector α n) (x : α) : Vector α (n + 1) := up key (v.push x) n n.lt_succ_self

variable (key) in
/-- `heap.Pop`: the root goes to the end, where it is cut off. -/
def popRoot (v : Vector α (n + 1)) : Vector α n := (down key (v.swap 0 n) 0 n.le_succ).pop

theorem pushEntry_ordered {x : α} (h : Ordered key v) : Ordered key (pushEntry key v x) := by
  refine up_ordered n.lt_succ_self ⟨?_, ?_⟩
  · intro i k hi hk hpk hkn
    have hk' : k < n := by omega
    have hi' : i < n := lt_of_le_of_lt (hpk ▸ parent_le k) hk'
    rw [Vector.getElem_push_lt hi', Vector.getElem_push_lt hk']
    exact h i k hi' hk' hk' hpk
  · intro i k _ hk hpk hkn
    -- the last entry has no children
    have hle := parent_le k
    omega

theorem popRoot_ordered {v : Vector α (n + 1)} (h : Ordered key v) :
    Ordered key (popRoot key v) := by
  have hswap : DownOrder key (v.swap 0 n) n 0 := by
    constructor
    · intro a k ha hk hkn hpk hne
      have hak : a ≤ k := hpk ▸ parent_le k
      rw [Vector.getElem_swap, Vector.getElem_swap, if_neg hne, if_neg (by omega),
        if_neg (by omega), if_neg (by omega)]
      exact h a k ha hk hk hpk
    · rintro a k - - - - rfl hne
      exact absurd rfl hne
  intro i j hi hj _ hpj
  rw [popRoot, Vector.getElem_pop, Vector.getElem_pop]
  exact down_ordered n.le_succ hswap i j _ _ hj hpj

theorem popRoot_perm (h : Heap key (n + 1)) :
    ((popRoot key h.entries).push h.root).Perm h.entries := by
  have hlast : (down key (h.entries.swap 0 n) 0 n.le_succ).back = h.root := by
    rw [Vector.back_eq_getElem, getElem_down _ _ _ _ (by omega)]
    exact Vector.getElem_swap_right _ _
  have hparts := Vector.push_pop_back (down key (h.entries.swap 0 n) 0 n.le_succ)
  rw [hlast] at hparts
  rw [popRoot, hparts]
  exact (down_perm _ _ _).trans (Vector.swap_perm _ _)

/-- The heaps of `container/heap`. -/
def containerHeap : HeapOps key where
  push h x := ⟨pushEntry key h.entries x, pushEntry_ordered h.ordered⟩
  pop h := ⟨popRoot key h.entries, popRoot_ordered h.ordered⟩
  push_perm _ _ := up_perm _ _ _
  pop_perm h := popRoot_perm h

end Heaps
