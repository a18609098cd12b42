/-
UtpGo/Checked.lean

Computations that may panic.  A Go program fails at run time where it
indexes past the end of a slice, slices outside the bounds, follows a nil
pointer or calls `panic` itself; `Go π α` is a computation that returns an
`α` or ends in such a panic, with `π` the values the program itself panics
with.

The file supplies the checked slice operations and the inversion rules with
which a `do` block is taken apart: a block that returned did so through each
of its lines (`bind_eq_ok`), and a block that panicked did so at one of them
(`bind_eq_error`).  For loops there are an invariant rule (`foldlM_inv`) and a
rule for what some pass has brought about (`foldlM_occurs_iff`).
-/
import Mathlib.Tactic

namespace Checked

/-- The ways a computation ends in a panic. -/
inductive Panic (π : Type) where
  | indexOutOfRange
  | sliceBounds
  | nilDereference
  | raised (v : π)
  deriving DecidableEq, Repr

/-- A computation that returns a value or panics. -/
abbrev Go (π α : Type) := Except (Panic π) α

variable {π α β σ : Type}

/-! ### Taking a block apart -/

theorem bind_eq_ok {x : Go π α} {f : α → Go π β} {b : β} :
    (x >>= f) = .ok b ↔ ∃ a, x = .ok a ∧ f a = .ok b := by
  cases x with
  | error e => simp [bind, Except.bind]
  | ok a => simp [bind, Except.bind]

theorem bind_eq_error {x : Go π α} {f : α → Go π β} {e : Panic π} :
    (x >>= f) = .error e ↔ x = .error e ∨ ∃ a, x = .ok a ∧ f a = .error e := by
  cases x with
  | error e' => simp [bind, Except.bind]
  | ok a => simp [bind, Except.bind]

@[simp] theorem pure_eq_ok {a b : α} : (pure a : Go π α) = .ok b ↔ a = b := by
  simp [pure, Except.pure]

@[simp] theorem pure_ne_error {a : α} {e : Panic π} : (pure a : Go π α) ≠ .error e := by
  simp [pure, Except.pure]

@[simp] theorem throw_ne_ok {e : Panic π} {a : α} : (throw e : Go π α) ≠ .ok a := by
  simp [throw, throwThe, MonadExceptOf.throw]

@[simp] theorem throw_eq_error {e e' : Panic π} :
    (throw e : Go π α) = .error e' ↔ e = e' := by
  simp [throw, throwThe, MonadExceptOf.throw]

@[simp] theorem ok_bind (a : α) (f : α → Go π β) : ((.ok a : Go π α) >>= f) = f a := rfl

/-- The panic of a computation, if it ends in one. -/
def panic? : Go π α → Option (Panic π)
  | .error e => some e
  | .ok _ => none

theorem panic?_eq_some {x : Go π α} {e : Panic π} : panic? x = some e ↔ x = .error e := by
  cases x with
  | error e' => simp [panic?]
  | ok a => simp [panic?]

/-! ### Slices -/

/-- `l[i]`. -/
def index (l : List α) (i : Nat) : Go π α :=
  match l[i]? with
  | some a => pure a
  | none => throw .indexOutOfRange

/-- `l[lo:hi]`. -/
def slice (l : List α) (lo hi : Nat) : Go π (List α) :=
  if lo ≤ hi ∧ hi ≤ l.length then pure ((l.take hi).drop lo) else throw .sliceBounds

theorem index_eq_ok {l : List α} {i : Nat} {a : α} :
    (index l i : Go π α) = .ok a ↔ l[i]? = some a := by
  unfold index
  rcases h : l[i]? with - | b <;> simp

theorem index_eq_error {l : List α} {i : Nat} {e : Panic π} :
    (index l i : Go π α) = .error e ↔ l.length ≤ i ∧ e = .indexOutOfRange := by
  unfold index
  rcases h : l[i]? with - | b
  · simp only [throw_eq_error, List.getElem?_eq_none_iff] at h ⊢
    exact ⟨fun he => ⟨h, he.symm⟩, fun he => he.2.symm⟩
  · have hi : i < l.length := (List.getElem?_eq_some_iff.mp h).1
    simp only [pure_ne_error, false_iff, not_and]
    omega

theorem slice_eq_ok {l r : List α} {lo hi : Nat} :
    (slice l lo hi : Go π (List α)) = .ok r ↔
      lo ≤ hi ∧ hi ≤ l.length ∧ r = (l.take hi).drop lo := by
  unfold slice
  by_cases h : lo ≤ hi ∧ hi ≤ l.length
  · rw [if_pos h, pure_eq_ok]
    exact ⟨fun hr => ⟨h.1, h.2, hr.symm⟩, fun hr => hr.2.2.symm⟩
  · rw [if_neg h]
    simp only [throw_ne_ok, false_iff]
    exact fun hr => h ⟨hr.1, hr.2.1⟩

theorem slice_of_le {l : List α} {lo hi : Nat} (h₁ : lo ≤ hi) (h₂ : hi ≤ l.length) :
    (slice l lo hi : Go π (List α)) = .ok ((l.take hi).drop lo) :=
  slice_eq_ok.mpr ⟨h₁, h₂, rfl⟩

/-! ### Loops -/

/-- The invariant rule of a loop: what holds before the first pass and is
kept by every pass that returns holds after the loop. -/
theorem foldlM_inv {f : σ → α → Go π σ} (I : σ → Prop) {l : List α} {s s' : σ}
    (h : l.foldlM f s = .ok s') (h₀ : I s)
    (hstep : ∀ s a s', a ∈ l → I s → f s a = .ok s' → I s') : I s' := by
  induction l generalizing s with
  | nil =>
      simp only [List.foldlM_nil, pure_eq_ok] at h
      exact h ▸ h₀
  | cons a l ih =>
      rw [List.foldlM_cons, bind_eq_ok] at h
      obtain ⟨s₁, h₁, h₂⟩ := h
      refine ih h₂ (hstep s a s₁ (by simp) h₀ h₁) ?_
      intro s b s' hb
      exact hstep s b s' (by simp [hb])

/-- The rule of occurrence: what holds after a loop held before it, or was
brought about by one of the passes.  Each pass is looked at with what led to
it and what follows it. -/
theorem foldlM_occurs_iff {f : σ → α → Go π σ} {P : σ → Prop} {Q : σ → α → Prop} {l : List α}
    {s s' : σ} (h : l.foldlM f s = .ok s')
    (hstep : ∀ l₁ a l₂ s₁ s₂, l = l₁ ++ a :: l₂ → l₁.foldlM f s = .ok s₁ → f s₁ a = .ok s₂ →
      l₂.foldlM f s₂ = .ok s' → (P s₂ ↔ P s₁ ∨ Q s₁ a)) :
    P s' ↔ P s ∨ ∃ l₁ a l₂ s₁, l = l₁ ++ a :: l₂ ∧ l₁.foldlM f s = .ok s₁ ∧ Q s₁ a := by
  induction l generalizing s with
  | nil =>
      obtain rfl := pure_eq_ok.mp h
      refine ⟨.inl, fun h => h.resolve_right ?_⟩
      rintro ⟨l₁, a, l₂, -, hnil, -⟩
      cases l₁ <;> cases hnil
  | cons a l ih =>
      rw [List.foldlM_cons, bind_eq_ok] at h
      obtain ⟨s₁, h₁, h₂⟩ := h
      -- a loop from `s₁` is one from `s` whose first pass is `a`
      have hcons : ∀ l₁, (a :: l₁).foldlM f s = l₁.foldlM f s₁ := by
        intro l₁
        rw [List.foldlM_cons, h₁, ok_bind]
      have hrest := ih h₂ fun l₁ b l₂ s₂ s₃ hl hl₁ =>
        hstep (a :: l₁) b l₂ s₂ s₃ (congrArg (a :: ·) hl) ((hcons l₁).trans hl₁)
      rw [hrest, hstep [] a l s s₁ rfl rfl h₁ h₂, or_assoc]
      refine or_congr_right ⟨?_, ?_⟩
      · rintro (hQ | ⟨l₁, b, l₂, s₂, rfl, hl₁, hQ⟩)
        · exact ⟨[], a, l, s, rfl, rfl, hQ⟩
        · exact ⟨a :: l₁, b, l₂, s₂, rfl, (hcons l₁).trans hl₁, hQ⟩
      · rintro ⟨_ | ⟨b, l₁⟩, c, l₂, s₂, heq, hl₁, hQ⟩
        · cases heq
          cases pure_eq_ok.mp hl₁
          exact .inl hQ
        · cases heq
          exact .inr ⟨l₁, c, l₂, s₂, rfl, (hcons l₁).symm.trans hl₁, hQ⟩

/-! ### Panics of the program's own -/

/-- The computation panics with a value of the program, if at all: it stays
within its slices and follows no nil pointer. -/
def OnlyRaises (m : Go π α) : Prop := ∀ e, m = .error e → ∃ v, e = .raised v

theorem OnlyRaises.of_ok {m : Go π α} {a : α} (h : m = .ok a) : OnlyRaises m := by
  rintro e he
  cases h.symm.trans he

theorem OnlyRaises.pure (a : α) : OnlyRaises (pure a : Go π α) := .of_ok rfl

theorem OnlyRaises.throw (v : π) : OnlyRaises (throw (.raised v) : Go π α) :=
  fun _ he => ⟨v, (throw_eq_error.mp he).symm⟩

theorem OnlyRaises.bind {m : Go π α} {f : α → Go π β} (hm : OnlyRaises m)
    (hf : ∀ a, m = .ok a → OnlyRaises (f a)) : OnlyRaises (m >>= f) := by
  intro e he
  rcases bind_eq_error.mp he with he | ⟨a, ha, he⟩
  · exact hm e he
  · exact hf a ha e he

/-- A computation that raises nothing either returns. -/
theorem OnlyRaises.returns {m : Go π α} (h : OnlyRaises m) (hno : ∀ v, m ≠ .error (.raised v)) :
    ∃ a, m = .ok a := by
  rcases hm : m with e | a
  · obtain ⟨v, rfl⟩ := h e hm
    exact absurd hm (hno v)
  · exact ⟨a, rfl⟩

end Checked
