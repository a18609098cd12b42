/-
UtpGo/LossyPair.lean

Two parties over a network that may drop, duplicate, reorder and delay.  Such
a network need not be stored: a message that was sent may arrive at any later
time, any number of times, or never, so a party may take in whatever the other
has sent by then.

Reasoning is by rely and guarantee.  Each party shows the other a `view` of
itself that only grows.  `Keeps P view I J` is the contract of one side: its
invariant `I` speaks of its own state and of the view of the other, survives
the growth of that view, and is kept by its own steps, which may rely on the
invariant `J` of the other side.  When both sides have a contract, the two
invariants hold in every state reached (`reach_keeps`).

Two systems of the same parties, with other messages, are compared by
`Refines`: the steps of one are steps of the other as long as nothing has gone
wrong, and then its runs are runs of the other (`Refines.reach`).
-/
import Mathlib.Order.Basic
import UtpGo.Traces

namespace LossyPair

open Relation

variable {σ μ V : Type} [Preorder V]

/-- A party: the messages it has sent, and its steps, each of which may take
in a message. -/
structure Party (σ μ : Type) where
  sent : σ → μ → Prop
  step : σ → Option μ → σ → Prop

/-- One of the parties takes a step; what it takes in, the other has sent. -/
inductive Step (P : Party σ μ) : σ × σ → σ × σ → Prop where
  | left {a a' b : σ} {m? : Option μ} (hm : ∀ m, m? = some m → P.sent b m)
      (h : P.step a m? a') : Step P (a, b) (a', b)
  | right {a b b' : σ} {m? : Option μ} (hm : ∀ m, m? = some m → P.sent a m)
      (h : P.step b m? b') : Step P (a, b) (a, b')

/-- The contract of one side. -/
structure Keeps (P : Party σ μ) (view : σ → V) (I J : σ → V → Prop) : Prop where
  stable : ∀ {a v v'}, v ≤ v' → I a v → I a v'
  step : ∀ {a b a' m?}, I a (view b) → J b (view a) → (∀ m, m? = some m → P.sent b m) →
    P.step a m? a' → I a' (view b) ∧ view a ≤ view a'

variable {P : Party σ μ} {view : σ → V} {I J : σ → V → Prop}

/-- The side that moves keeps its invariant, and the other survives. -/
theorem Keeps.both (hI : Keeps P view I J) (hJ : Keeps P view J I) {a b a' : σ} {m? : Option μ}
    (hm : ∀ m, m? = some m → P.sent b m) (h : P.step a m? a')
    (ha : I a (view b)) (hb : J b (view a)) : I a' (view b) ∧ J b (view a') := by
  obtain ⟨ha', hle⟩ := hI.step ha hb hm h
  exact ⟨ha', hJ.stable hle hb⟩

/-- **Rely and guarantee**: two contracts that match hold in every state
reached. -/
theorem reach_keeps (hI : Keeps P view I J) (hJ : Keeps P view J I) {s s' : σ × σ}
    (hs : I s.1 (view s.2) ∧ J s.2 (view s.1)) (h : ReflTransGen (Step P) s s') :
    I s'.1 (view s'.2) ∧ J s'.2 (view s'.1) := by
  refine Checked.reach_inv (I := fun s => I s.1 (view s.2) ∧ J s.2 (view s.1)) ?_ hs h
  rintro _ _ (⟨hm, hstep⟩ | ⟨hm, hstep⟩) ⟨ha, hb⟩
  · exact hI.both hJ hm hstep ha hb
  · exact (hJ.both hI hm hstep hb ha).symm

section Refinement

variable {ν : Type}

/-- The steps of `P` are steps of `P'`, as long as `Q` holds.  `S` holds at any
time, and `I` while `Q` does; what breaks `Q` breaks it for good. -/
structure Refines (P : Party σ μ) (P' : Party σ ν) (S Q I : σ → Prop) : Prop where
  back : ∀ {a a' m?}, S a → P.step a m? a' → S a' ∧ (Q a' → Q a)
  step : ∀ {a b a' m?}, S a → I a → I b → Q a' → (∀ m, m? = some m → P.sent b m) →
    P.step a m? a' → I a' ∧ (a' = a ∨
      ∃ n? : Option ν, (∀ n, n? = some n → P'.sent b n) ∧ P'.step a n? a')

variable {P' : Party σ ν} {S Q I : σ → Prop}

/-- **Refinement**: a run after which `Q` holds of both parties is a run of the
other system. -/
theorem Refines.reach (h : Refines P P' S Q I) {s s' : σ × σ} (hS : S s.1 ∧ S s.2)
    (hI : I s.1 ∧ I s.2) (hrun : ReflTransGen (Step P) s s') (hQ : Q s'.1 ∧ Q s'.2) :
    ReflTransGen (Step P') s s' ∧ I s'.1 ∧ I s'.2 := by
  have hall : (S s'.1 ∧ S s'.2) ∧ (Q s'.1 ∧ Q s'.2 →
      ReflTransGen (Step P') s s' ∧ I s'.1 ∧ I s'.2) := by
    clear hQ
    induction hrun with
    | refl => exact ⟨hS, fun _ => ⟨.refl, hI⟩⟩
    | tail _ hstep ih =>
        obtain ⟨hS₁, ih⟩ := ih
        cases hstep with
        | left hm hstep =>
            obtain ⟨hSa, hback⟩ := h.back hS₁.1 hstep
            refine ⟨⟨hSa, hS₁.2⟩, fun hQ => ?_⟩
            obtain ⟨hreach, hIa, hIb⟩ := ih ⟨hback hQ.1, hQ.2⟩
            obtain ⟨hIa', rfl | ⟨n?, hn, hstep'⟩⟩ := h.step hS₁.1 hIa hIb hQ.1 hm hstep
            · exact ⟨hreach, hIa', hIb⟩
            · exact ⟨hreach.tail (.left hn hstep'), hIa', hIb⟩
        | right hm hstep =>
            obtain ⟨hSb, hback⟩ := h.back hS₁.2 hstep
            refine ⟨⟨hS₁.1, hSb⟩, fun hQ => ?_⟩
            obtain ⟨hreach, hIa, hIb⟩ := ih ⟨hQ.1, hback hQ.2⟩
            obtain ⟨hIb', rfl | ⟨n?, hn, hstep'⟩⟩ := h.step hS₁.2 hIb hIa hQ.2 hm hstep
            · exact ⟨hreach, hIa, hIb'⟩
            · exact ⟨hreach.tail (.right hn hstep'), hIa, hIb'⟩
  exact hall.2 hQ

end Refinement

end LossyPair
