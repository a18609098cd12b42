/-
UtpGo/Traces.lean

Computations as runs of a transition relation.  A handler of a program is
taken apart once into small actions, and every invariant is then checked
against the actions instead of the code.

`Follows R F s m K` says this of the computation `m` started in `s`: if it
returns, it has only taken steps of `R`, to a state that `K` relates to the
result; if it panics, it has taken steps of `R` to a state in which `F`
admits the panic.  The rules below follow the computation: a returned value
(`Follows.pure`), one step before it (`Follows.step`), and a `do` block
(`Follows.bind`), whose second half may rely on any invariant of `R`.
-/
import Mathlib.Logic.Relation
import UtpGo.Checked

namespace Checked

open Relation

variable {π α β σ : Type}

/-- What holds at the start and is kept by every step holds after any number
of steps. -/
theorem reach_inv {R : σ → σ → Prop} {I : σ → Prop} (hI : ∀ s s', R s s' → I s → I s')
    {s s' : σ} (hs : I s) (h : ReflTransGen R s s') : I s' := by
  induction h with
  | refl => exact hs
  | tail _ hstep ih => exact hI _ _ hstep ih

structure Follows (R : σ → σ → Prop) (F : σ → Panic π → Prop) (s : σ) (m : Go π α)
    (K : α → σ → Prop) : Prop where
  ok : ∀ a, m = .ok a → ∃ s', ReflTransGen R s s' ∧ K a s'
  error : ∀ e, m = .error e → ∃ s', ReflTransGen R s s' ∧ F s' e

namespace Follows

variable {R : σ → σ → Prop} {F : σ → Panic π → Prop} {s s₁ : σ} {m : Go π α}
  {K : α → σ → Prop}

protected theorem pure {a : α} (h : K a s) : Follows R F s (pure a : Go π α) K where
  ok := by
    intro b hb
    obtain rfl := pure_eq_ok.mp hb
    exact ⟨s, .refl, h⟩
  error := by
    intro e he
    exact absurd he pure_ne_error

protected theorem throw {e : Panic π} (h : F s e) : Follows R F s (throw e : Go π α) K where
  ok := by
    intro b hb
    exact absurd hb throw_ne_ok
  error := by
    intro e' he
    obtain rfl := throw_eq_error.mp he
    exact ⟨s, .refl, h⟩

/-- Some steps, and then the rest. -/
protected theorem steps (hR : ReflTransGen R s s₁) (h : Follows R F s₁ m K) :
    Follows R F s m K where
  ok := by
    intro a ha
    obtain ⟨s', hs', hK⟩ := h.ok a ha
    exact ⟨s', hR.trans hs', hK⟩
  error := by
    intro e he
    obtain ⟨s', hs', hF⟩ := h.error e he
    exact ⟨s', hR.trans hs', hF⟩

/-- One step, and then the rest. -/
protected theorem step (hR : R s s₁) (h : Follows R F s₁ m K) : Follows R F s m K :=
  .steps (.single hR) h

/-- One line of a block, and then the rest, which may rely on an invariant of
the steps. -/
protected theorem bind {I : σ → Prop} (hI : ∀ s s', R s s' → I s → I s') (hs : I s)
    {f : α → Go π β} {L : β → σ → Prop} (h : Follows R F s m K)
    (hf : ∀ a s₁, I s₁ → K a s₁ → Follows R F s₁ (f a) L) : Follows R F s (m >>= f) L where
  ok := by
    intro b hb
    obtain ⟨a, ha, hfa⟩ := bind_eq_ok.mp hb
    obtain ⟨s₁, hs₁, hK⟩ := h.ok a ha
    obtain ⟨s', hs', hL⟩ := (hf a s₁ (reach_inv hI hs hs₁) hK).ok b hfa
    exact ⟨s', hs₁.trans hs', hL⟩
  error := by
    intro e he
    rcases bind_eq_error.mp he with he | ⟨a, ha, hfa⟩
    · exact h.error e he
    · obtain ⟨s₁, hs₁, hK⟩ := h.ok a ha
      obtain ⟨s', hs', hF⟩ := (hf a s₁ (reach_inv hI hs hs₁) hK).error e hfa
      exact ⟨s', hs₁.trans hs', hF⟩

/-- A line that returns a known value takes no step. -/
protected theorem ok_bind {a : α} (hm : m = .ok a) {f : α → Go π β} {L : β → σ → Prop}
    (hf : Follows R F s (f a) L) : Follows R F s (m >>= f) L := by
  rw [hm, Checked.ok_bind]
  exact hf

protected theorem weaken {L : α → σ → Prop} (h : Follows R F s m K)
    (hKL : ∀ a s, K a s → L a s) : Follows R F s m L where
  ok := by
    intro a ha
    obtain ⟨s', hs', hK⟩ := h.ok a ha
    exact ⟨s', hs', hKL a s' hK⟩
  error := h.error

end Follows

end Checked
