/-
UtpGo/OrdMap.lean

Finite maps with ordered keys, as strictly sorted association lists.  A map
carries the proof that its entries are sorted, so a key occurs at most once
and looking a key up is the same as finding its entry (`get?_eq_some`).

Every operation is described by its entries (`mem_insert`, `mem_erase`,
`mem_filterKeys`); sums over the entries are followed through insertions and
deletions by permutation lemmas (`perm_insert`, `perm_insert_erase`,
`perm_erase`), from which the total of a map is computed (`total_insert`).
-/
import Mathlib.Tactic
import Mathlib.Data.List.Sort

/-- A finite map, as its entries in increasing order of keys. -/
structure OrdMap (κ ν : Type) [LinearOrder κ] where
  entries : List (κ × ν)
  sorted : entries.Pairwise fun a b => a.1 < b.1

namespace OrdMap

variable {κ ν : Type} [LinearOrder κ]

/-! ### Operations -/

def empty : OrdMap κ ν := ⟨[], .nil⟩

instance : Inhabited (OrdMap κ ν) := ⟨empty⟩

def size (m : OrdMap κ ν) : Nat := m.entries.length

def keys (m : OrdMap κ ν) : List κ := m.entries.map (·.1)

def values (m : OrdMap κ ν) : List ν := m.entries.map (·.2)

def get? (m : OrdMap κ ν) (k : κ) : Option ν :=
  (m.entries.find? fun e => e.1 = k).map (·.2)

def contains (m : OrdMap κ ν) (k : κ) : Bool := (m.get? k).isSome

/-- Set the value of `k`, replacing the entry it had. -/
def insert (m : OrdMap κ ν) (k : κ) (v : ν) : OrdMap κ ν where
  entries := m.entries.filter (fun e => e.1 < k) ++ (k, v) :: m.entries.filter (fun e => k < e.1)
  sorted := by
    rw [List.pairwise_append, List.pairwise_cons]
    refine ⟨m.sorted.filter _, ⟨?_, m.sorted.filter _⟩, ?_⟩
    · intro e he
      simpa using (List.mem_filter.mp he).2
    · intro a ha b hb
      have hak : a.1 < k := by simpa using (List.mem_filter.mp ha).2
      rcases List.mem_cons.mp hb with rfl | hb
      · exact hak
      · have hkb : k < b.1 := by simpa using (List.mem_filter.mp hb).2
        exact hak.trans hkb

/-- Keep the entries whose key satisfies `p`. -/
def filterKeys (m : OrdMap κ ν) (p : κ → Bool) : OrdMap κ ν where
  entries := m.entries.filter fun e => p e.1
  sorted := m.sorted.filter _

def erase (m : OrdMap κ ν) (k : κ) : OrdMap κ ν := m.filterKeys fun k' => k' ≠ k

/-! ### Entries -/

variable {m : OrdMap κ ν} {k k' : κ} {v v' : ν}

theorem nodup_entries (m : OrdMap κ ν) : m.entries.Nodup :=
  m.sorted.imp fun h => by
    intro heq
    rw [heq] at h
    exact lt_irrefl _ h

theorem nodup_keys (m : OrdMap κ ν) : m.keys.Nodup := by
  unfold keys
  rw [List.Nodup, List.pairwise_map]
  exact m.sorted.imp fun h => ne_of_lt h

theorem entry_unique (h : (k, v) ∈ m.entries) (h' : (k, v') ∈ m.entries) : v = v' := by
  have hinj := List.inj_on_of_nodup_map m.nodup_keys h h' rfl
  exact congrArg Prod.snd hinj

@[simp] theorem entries_empty : (empty : OrdMap κ ν).entries = [] := rfl

theorem mem_insert {e : κ × ν} :
    e ∈ (m.insert k v).entries ↔ e = (k, v) ∨ e ∈ m.entries ∧ e.1 ≠ k := by
  simp only [insert, List.mem_append, List.mem_cons, List.mem_filter, decide_eq_true_eq]
  constructor
  · rintro (⟨h, hlt⟩ | rfl | ⟨h, hlt⟩)
    · exact .inr ⟨h, ne_of_lt hlt⟩
    · exact .inl rfl
    · exact .inr ⟨h, ne_of_gt hlt⟩
  · rintro (rfl | ⟨h, hne⟩)
    · exact .inr (.inl rfl)
    · rcases lt_or_gt_of_ne hne with hlt | hgt
      · exact .inl ⟨h, hlt⟩
      · exact .inr (.inr ⟨h, hgt⟩)

theorem mem_filterKeys {p : κ → Bool} {e : κ × ν} :
    e ∈ (m.filterKeys p).entries ↔ e ∈ m.entries ∧ p e.1 = true := by
  simp [filterKeys]

theorem mem_erase {e : κ × ν} : e ∈ (m.erase k).entries ↔ e ∈ m.entries ∧ e.1 ≠ k := by
  simp [erase, mem_filterKeys]

/-! ### Looking up -/

theorem get?_eq_some : m.get? k = some v ↔ (k, v) ∈ m.entries := by
  unfold get?
  constructor
  · intro h
    obtain ⟨⟨k₁, v₁⟩, he, rfl⟩ := Option.map_eq_some_iff.mp h
    have hk := List.find?_some he
    obtain rfl : k₁ = k := of_decide_eq_true hk
    exact List.mem_of_find?_eq_some he
  · intro h
    rcases he : m.entries.find? (fun e => e.1 = k) with - | ⟨k₁, v₁⟩
    · exact absurd (decide_eq_true rfl) (List.find?_eq_none.mp he (k, v) h)
    · have hk := List.find?_some he
      obtain rfl : k₁ = k := of_decide_eq_true hk
      rw [he, Option.map_some, entry_unique (List.mem_of_find?_eq_some he) h]

theorem get?_eq_none : m.get? k = none ↔ ∀ v, (k, v) ∉ m.entries := by
  constructor
  · intro h v hv
    rw [get?_eq_some.mpr hv] at h
    cases h
  · intro h
    rcases hk : m.get? k with - | v
    · rfl
    · exact absurd (get?_eq_some.mp hk) (h v)

theorem contains_iff : m.contains k = true ↔ ∃ v, (k, v) ∈ m.entries := by
  rw [contains, Option.isSome_iff_exists]
  exact exists_congr fun v => get?_eq_some

theorem mem_keys : k ∈ m.keys ↔ ∃ v, (k, v) ∈ m.entries := by
  constructor
  · intro h
    obtain ⟨⟨k₁, v⟩, he, rfl⟩ := List.mem_map.mp h
    exact ⟨v, he⟩
  · rintro ⟨v, he⟩
    exact List.mem_map.mpr ⟨(k, v), he, rfl⟩

@[simp] theorem get?_empty : (empty : OrdMap κ ν).get? k = none := rfl

@[simp] theorem get?_insert_self : (m.insert k v).get? k = some v :=
  get?_eq_some.mpr (mem_insert.mpr (.inl rfl))

theorem get?_insert_of_ne (h : k' ≠ k) : (m.insert k v).get? k' = m.get? k' := by
  ext w
  rw [get?_eq_some, get?_eq_some, mem_insert]
  constructor
  · rintro (heq | hmem)
    · exact absurd (congrArg Prod.fst heq) h
    · exact hmem.1
  · intro hmem
    exact .inr ⟨hmem, h⟩

theorem get?_filterKeys {p : κ → Bool} :
    (m.filterKeys p).get? k = if p k then m.get? k else none := by
  ext w
  rw [get?_eq_some, mem_filterKeys]
  cases hp : p k with
  | false => simp
  | true => simp [get?_eq_some]

theorem get?_erase_of_ne (h : k' ≠ k) : (m.erase k).get? k' = m.get? k' := by
  rw [erase, get?_filterKeys, if_pos (by simpa using h)]

theorem get?_erase_self : (m.erase k).get? k = none := by
  rw [erase, get?_filterKeys, if_neg (by simp)]

theorem of_get?_insert (h : (m.insert k v).get? k' = some v') :
    k' = k ∧ v' = v ∨ m.get? k' = some v' := by
  rcases mem_insert.mp (get?_eq_some.mp h) with heq | ⟨he, -⟩
  · cases heq
    exact .inl ⟨rfl, rfl⟩
  · exact .inr (get?_eq_some.mpr he)

theorem of_get?_erase (h : (m.erase k).get? k' = some v') : m.get? k' = some v' :=
  get?_eq_some.mpr (mem_erase.mp (get?_eq_some.mp h)).1

theorem contains_insert :
    (m.insert k v).contains k' = true ↔ k' = k ∨ m.contains k' = true := by
  by_cases h : k' = k
  · simp [contains, h]
  · simp [contains, h, get?_insert_of_ne h]

theorem contains_erase :
    (m.erase k).contains k' = true ↔ m.contains k' = true ∧ k' ≠ k := by
  simp only [contains_iff, mem_erase]
  exact ⟨fun ⟨v, hv, hne⟩ => ⟨⟨v, hv⟩, hne⟩, fun ⟨⟨v, hv⟩, hne⟩ => ⟨v, hv, hne⟩⟩

theorem erase_eq_self (h : m.get? k = none) : (m.erase k).entries = m.entries := by
  refine List.filter_eq_self.mpr ?_
  rintro ⟨k', v'⟩ he
  simp only [ne_eq, decide_not, Bool.not_eq_eq_eq_not, Bool.not_true, decide_eq_false_iff_not]
  rintro rfl
  exact get?_eq_none.mp h v' he

theorem erase_of_get?_eq_none (h : m.get? k = none) : m.erase k = m := by
  obtain ⟨entries, sorted⟩ := m
  exact (OrdMap.mk.injEq ..).mpr (erase_eq_self h)

/-! ### Permutations -/

theorem perm_insert (h : m.get? k = none) :
    (m.insert k v).entries.Perm ((k, v) :: m.entries) := by
  refine (List.perm_ext_iff_of_nodup (nodup_entries _) ?_).mpr ?_
  · exact List.nodup_cons.mpr ⟨get?_eq_none.mp h v, m.nodup_entries⟩
  · rintro ⟨k', v'⟩
    rw [mem_insert, List.mem_cons]
    refine or_congr_right ⟨And.left, fun he => ⟨he, ?_⟩⟩
    rintro rfl
    exact get?_eq_none.mp h v' he

theorem perm_erase (h : (k, v) ∈ m.entries) :
    m.entries.Perm ((k, v) :: (m.erase k).entries) := by
  refine (List.perm_ext_iff_of_nodup m.nodup_entries ?_).mpr ?_
  · refine List.nodup_cons.mpr ⟨?_, nodup_entries _⟩
    intro he
    exact (mem_erase.mp he).2 rfl
  · rintro ⟨k', v'⟩
    rw [List.mem_cons, mem_erase]
    constructor
    · intro he
      by_cases hk : k' = k
      · subst hk
        exact .inl (by rw [entry_unique he h])
      · exact .inr ⟨he, hk⟩
    · rintro (heq | ⟨he, -⟩)
      · exact heq ▸ h
      · exact he

theorem perm_insert_erase (m : OrdMap κ ν) (k : κ) (v : ν) :
    (m.insert k v).entries.Perm ((k, v) :: (m.erase k).entries) := by
  refine (List.perm_ext_iff_of_nodup (nodup_entries _) ?_).mpr ?_
  · refine List.nodup_cons.mpr ⟨?_, nodup_entries _⟩
    intro he
    exact (mem_erase.mp he).2 rfl
  · intro e
    rw [mem_insert, List.mem_cons, mem_erase]

theorem size_erase (h : (k, v) ∈ m.entries) : m.size = (m.erase k).size + 1 := by
  simpa [size] using (perm_erase h).length_eq

/-- A key has one entry at most. -/
theorem filter_key (m : OrdMap κ ν) (k : κ) :
    m.entries.filter (fun e => e.1 = k) = (m.get? k).toList.map (Prod.mk k) := by
  cases hk : m.get? k with
  | none =>
      rw [List.filter_eq_nil_iff.mpr]
      · rfl
      · rintro ⟨k', v⟩ he heq
        obtain rfl : k' = k := by simpa using heq
        exact get?_eq_none.mp hk v he
  | some v =>
      have hnil : (m.erase k).entries.filter (fun e => e.1 = k) = [] := by
        rw [List.filter_eq_nil_iff]
        intro e he
        simpa using (mem_erase.mp he).2
      have hperm := (perm_erase (get?_eq_some.mp hk)).filter (fun e => e.1 = k)
      rw [List.filter_cons_of_pos (by simp), hnil] at hperm
      exact List.perm_singleton.mp hperm

/-! ### Totals -/

/-- The sum of a number attached to each value. -/
def total (f : ν → Nat) (m : OrdMap κ ν) : Nat := (m.entries.map fun e => f e.2).sum

theorem total_of_perm {f : ν → Nat} {l : List (κ × ν)} (h : m.entries.Perm l) :
    m.total f = (l.map fun e => f e.2).sum :=
  (h.map _).sum_eq

/-- A new value adds its number, and takes away that of the value it
replaces. -/
theorem total_insert (f : ν → Nat) (m : OrdMap κ ν) (k : κ) (v : ν) :
    (m.insert k v).total f + (m.get? k).elim 0 f = m.total f + f v := by
  rw [total_of_perm (perm_insert_erase m k v), List.map_cons, List.sum_cons]
  cases hk : m.get? k with
  | none =>
      rw [total, erase_eq_self hk, Option.elim_none]
      dsimp only
      omega
  | some w =>
      rw [total_of_perm (perm_erase (get?_eq_some.mp hk)), List.map_cons, List.sum_cons,
        Option.elim_some]
      dsimp only
      omega

theorem le_total {f : ν → Nat} (h : m.get? k = some v) : f v ≤ m.total f := by
  rw [total_of_perm (perm_erase (get?_eq_some.mp h)), List.map_cons, List.sum_cons]
  exact Nat.le_add_right _ _

theorem total_eq_zero {f : ν → Nat} :
    m.total f = 0 ↔ ∀ k v, m.get? k = some v → f v = 0 := by
  constructor
  · intro h k v hk
    have := le_total (f := f) hk
    omega
  · intro h
    rw [total, List.sum_eq_zero_iff]
    intro n hn
    obtain ⟨⟨k, v⟩, he, rfl⟩ := List.mem_map.mp hn
    exact h k v (get?_eq_some.mpr he)

end OrdMap
