/-
UtpGo/Expiry.lean

The least value among entries that expire.  An entry is a value with a
deadline, and it counts as long as the deadline has not passed.  A lookup
answers with the least value that counts; on the way it may drop entries that
do not count, but it need not find them all (`Lookup`).

Two rules for users, both from what a single lookup does:

* `Tracks.lookup`, `Tracks.values_eq`: dropping is not seen.  As long as the
  clock does not go back, what is left has the same values as everything that
  was ever added.
* `Agree.lookup`: which entries of a value are dropped is not seen either.
  Two stores that agree on the latest deadline of every value give the same
  answers and still agree, even if the clock goes back.
-/
import Mathlib.Order.Bounds.Basic
import Mathlib.Tactic

namespace Expiry

variable {β τ : Type} [LinearOrder β] [LinearOrder τ]

/-! ### Values and answers -/

/-- The entries of a list. -/
def ofList (l : List (β × τ)) : Set (β × τ) := {x | x ∈ l}

omit [LinearOrder β] [LinearOrder τ] in
theorem ofList_nil : ofList ([] : List (β × τ)) = ∅ :=
  Set.eq_empty_of_forall_notMem fun _ => List.not_mem_nil

omit [LinearOrder β] [LinearOrder τ] in
theorem ofList_cons (x : β × τ) (l : List (β × τ)) : ofList (x :: l) = insert x (ofList l) :=
  Set.ext fun _ => List.mem_cons

omit [LinearOrder β] [LinearOrder τ] in
theorem ofList_perm {l l' : List (β × τ)} (h : l.Perm l') : ofList l = ofList l' :=
  Set.ext fun _ => h.mem_iff

/-- The values that count. -/
def values (now : τ) (s : Set (β × τ)) : Set β :=
  {v | ∃ deadline, (v, deadline) ∈ s ∧ now ≤ deadline}

/-- The answer is the least of the values, if there is one. -/
structure Answers (values : Set β) (answer : Option β) : Prop where
  least : ∀ v, answer = some v → IsLeast values v
  none : answer = none → values = ∅

theorem Answers.unique {s : Set β} {a b : Option β} (ha : Answers s a) (hb : Answers s b) :
    a = b := by
  cases a with
  | none =>
      cases b with
      | none => rfl
      | some w =>
          have hmem := (hb.least w rfl).1
          rw [ha.none rfl] at hmem
          exact hmem.elim
  | some v =>
      have hv := ha.least v rfl
      cases b with
      | none =>
          have hmem := hv.1
          rw [hb.none rfl] at hmem
          exact hmem.elim
      | some w => rw [hv.unique (hb.least w rfl)]

/-! ### Lookups -/

/-- What a lookup does to the entries, and its answer: it drops entries that
have expired, smallest first, until the least one left counts. -/
structure Lookup (now : τ) (s s' : Set (β × τ)) (answer : Option β) : Prop where
  subset : s' ⊆ s
  dropped : ∀ x ∈ s, x ∉ s' → x.2 < now ∧ ∀ y ∈ s', x.1 ≤ y.1
  least : ∀ v, answer = some v → v ∈ values now s' ∧ ∀ x ∈ s', v ≤ x.1
  none : answer = none → s' = ∅

variable {now : τ} {s s' t t' : Set (β × τ)} {answer : Option β}

theorem lookup_empty : Lookup now (∅ : Set (β × τ)) ∅ none :=
  ⟨subset_rfl, fun _ hx => hx.elim, nofun, fun _ => rfl⟩

theorem lookup_hit {x : β × τ} (hx : x ∈ s) (hnow : now ≤ x.2) (hleast : ∀ y ∈ s, x.1 ≤ y.1) :
    Lookup now s s (some x.1) := by
  refine ⟨subset_rfl, fun y hy hy' => absurd hy hy', ?_, nofun⟩
  rintro v ⟨⟩
  exact ⟨⟨x.2, hx, hnow⟩, hleast⟩

/-- One expired entry that is least is dropped first. -/
theorem Lookup.drop {x : β × τ} (h : Lookup now s s' answer) (hx : x.2 < now)
    (hleast : ∀ y ∈ s, x.1 ≤ y.1) : Lookup now (insert x s) s' answer := by
  refine ⟨h.subset.trans (Set.subset_insert x s), ?_, h.least, h.none⟩
  rintro y (rfl | hy) hy'
  · exact ⟨hx, fun z hz => hleast z (h.subset hz)⟩
  · exact h.dropped y hy hy'

/-- The entries that count are left. -/
theorem Lookup.values_eq (h : Lookup now s s' answer) : values now s' = values now s := by
  ext v
  constructor
  · rintro ⟨deadline, hmem, hnow⟩
    exact ⟨deadline, h.subset hmem, hnow⟩
  · rintro ⟨deadline, hmem, hnow⟩
    refine ⟨deadline, ?_, hnow⟩
    by_contra hgone
    exact absurd (h.dropped _ hmem hgone).1 (not_lt.mpr hnow)

theorem Lookup.answers (h : Lookup now s s' answer) : Answers (values now s) answer := by
  rw [← h.values_eq]
  constructor
  · intro v hv
    obtain ⟨hmem, hle⟩ := h.least v hv
    refine ⟨hmem, ?_⟩
    rintro w ⟨deadline, hw, -⟩
    exact hle (w, deadline) hw
  · intro hnone
    rw [h.none hnone]
    exact Set.eq_empty_of_forall_notMem fun v ⟨_, hmem, _⟩ => hmem

/-! ### Dropping is not seen -/

/-- What is in the store is part of the history, and the rest of the history
had expired at one of the clock's readings. -/
structure Tracks (readings : Set τ) (history s : Set (β × τ)) : Prop where
  subset : s ⊆ history
  expired : ∀ x ∈ history, x ∉ s → ∃ t ∈ readings, x.2 < t

variable {readings : Set τ} {history : Set (β × τ)}

omit [LinearOrder β] in
theorem tracks_empty : Tracks readings (∅ : Set (β × τ)) ∅ := ⟨subset_rfl, fun _ hx => hx.elim⟩

omit [LinearOrder β] in
theorem Tracks.add (h : Tracks readings history s) (x : β × τ) :
    Tracks readings (insert x history) (insert x s) := by
  refine ⟨Set.insert_subset_insert h.subset, ?_⟩
  rintro y (rfl | hy) hgone
  · exact absurd (Set.mem_insert y s) hgone
  · exact h.expired y hy fun hmem => hgone (Set.mem_insert_of_mem x hmem)

theorem Tracks.lookup (h : Tracks readings history s) (hl : Lookup now s s' answer) :
    Tracks (insert now readings) history s' := by
  refine ⟨hl.subset.trans h.subset, fun x hx hgone => ?_⟩
  by_cases hmem : x ∈ s
  · exact ⟨now, Set.mem_insert now readings, (hl.dropped x hmem hgone).1⟩
  · obtain ⟨t, ht, hlt⟩ := h.expired x hx hmem
    exact ⟨t, Set.mem_insert_of_mem now ht, hlt⟩

omit [LinearOrder β] in
/-- **Dropping is not seen** by a clock that has not gone back. -/
theorem Tracks.values_eq (h : Tracks readings history s) (hclock : ∀ t ∈ readings, t ≤ now) :
    values now s = values now history := by
  ext v
  constructor
  · rintro ⟨deadline, hmem, hnow⟩
    exact ⟨deadline, h.subset hmem, hnow⟩
  · rintro ⟨deadline, hmem, hnow⟩
    refine ⟨deadline, ?_, hnow⟩
    by_contra hgone
    obtain ⟨t, ht, hlt⟩ := h.expired _ hmem hgone
    exact absurd (lt_of_lt_of_le hlt (hclock t ht)) (not_lt.mpr hnow)

/-! ### Which entries are dropped is not seen -/

/-- Every entry of the one store has one of the same value in the other that
expires no earlier. -/
def Covers (s t : Set (β × τ)) : Prop := ∀ x ∈ s, ∃ y ∈ t, y.1 = x.1 ∧ x.2 ≤ y.2

/-- The stores have the same values, with the same latest deadlines. -/
def Agree (s t : Set (β × τ)) : Prop := Covers s t ∧ Covers t s

omit [LinearOrder β] in
theorem Covers.add (h : Covers s t) (x : β × τ) : Covers (insert x s) (insert x t) := by
  rintro y (rfl | hy)
  · exact ⟨y, Set.mem_insert y t, rfl, le_refl _⟩
  · obtain ⟨z, hz, hcover⟩ := h y hy
    exact ⟨z, Set.mem_insert_of_mem x hz, hcover⟩

omit [LinearOrder β] in
theorem Covers.values_subset (h : Covers s t) : values now s ⊆ values now t := by
  rintro v ⟨deadline, hmem, hnow⟩
  obtain ⟨⟨w, deadline'⟩, hy, rfl, hle⟩ := h _ hmem
  exact ⟨deadline', hy, le_trans hnow hle⟩

theorem Covers.lookup (h : Covers s t) (hs : Lookup now s s' answer)
    (ht : Lookup now t t' answer) : Covers s' t' := by
  intro x hx
  obtain ⟨y, hy, hvalue, hle⟩ := h x (hs.subset hx)
  by_cases hmem : y ∈ t'
  · exact ⟨y, hmem, hvalue, hle⟩
  -- the entry was dropped, so its value is that of the answer, which counts
  obtain ⟨hexpired, hbelow⟩ := ht.dropped y hy hmem
  cases answer with
  | none =>
      rw [hs.none rfl] at hx
      exact hx.elim
  | some v =>
      obtain ⟨⟨deadline, hv, hnow⟩, -⟩ := ht.least v rfl
      have hxv : v = x.1 := le_antisymm ((hs.least v rfl).2 x hx) (hvalue ▸ hbelow _ hv)
      exact ⟨(v, deadline), hv, hxv, le_trans hle (le_trans hexpired.le hnow)⟩

omit [LinearOrder β] in
theorem Agree.add (h : Agree s t) (x : β × τ) : Agree (insert x s) (insert x t) :=
  ⟨h.1.add x, h.2.add x⟩

/-- **Stores that agree** answer the same and agree again. -/
theorem Agree.lookup {a b : Option β} (h : Agree s t) (hs : Lookup now s s' a)
    (ht : Lookup now t t' b) : a = b ∧ Agree s' t' := by
  have hvalues : values now s = values now t := h.1.values_subset.antisymm h.2.values_subset
  have hab : a = b := hs.answers.unique (hvalues ▸ ht.answers)
  subst hab
  exact ⟨rfl, h.1.lookup hs ht, h.2.lookup ht hs⟩

end Expiry
