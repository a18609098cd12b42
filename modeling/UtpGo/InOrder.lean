/-
UtpGo/InOrder.lean

Reassembly of a numbered stream.  A partial function `f` gives the chunk
with each number, numbers counted from zero.  `inOrder f n` is the stream of
the first `n` chunks, and `IsFront f n` says that `n` is where the stream
stops for now: the chunks before `n` are there and the chunk `n` is not.

A receiver that keeps the stream up to its front and the chunks beyond it
loses nothing: the front is the length of the longest complete prefix
(`IsFront.isGreatest`), and more chunks only extend the stream
(`inOrder_mono`).
-/
import Mathlib.Tactic

namespace Reassembly

variable {α β : Type}

/-- The first `n` chunks, one after the other. -/
def inOrder (f : ℕ → Option (List α)) (n : ℕ) : List α :=
  (List.range n).flatMap fun k => (f k).getD []

/-- All chunks before `n` are there and the chunk `n` is not. -/
structure IsFront (f : ℕ → Option β) (n : ℕ) : Prop where
  before : ∀ k < n, (f k).isSome
  missing : f n = none

variable {f g : ℕ → Option (List α)} {n m : ℕ}

@[simp] theorem inOrder_zero : inOrder f 0 = [] := rfl

theorem inOrder_succ : inOrder f (n + 1) = inOrder f n ++ (f n).getD [] := by
  simp [inOrder, List.range_succ]

theorem inOrder_congr (h : ∀ k < n, f k = g k) : inOrder f n = inOrder g n := by
  induction n with
  | zero => rfl
  | succ n ih =>
      rw [inOrder_succ, inOrder_succ, h n (by omega)]
      rw [ih fun k hk => h k (by omega)]

/-- Learning more chunks does not change the stream of the chunks known. -/
theorem inOrder_mono (hle : ∀ k v, f k = some v → g k = some v) (hn : ∀ k < n, (f k).isSome) :
    inOrder f n = inOrder g n := by
  apply inOrder_congr
  intro k hk
  obtain ⟨v, hv⟩ := Option.isSome_iff_exists.mp (hn k hk)
  rw [hv, hle k v hv]

/-- The stream of a list of chunks is the list joined up to the front. -/
theorem inOrder_getElem? (l : List (List α)) (hn : n ≤ l.length) :
    inOrder (fun k => l[k]?) n = (l.take n).flatten := by
  induction n with
  | zero => rfl
  | succ n ih =>
      have hlt : n < l.length := hn
      rw [inOrder_succ, ih (by omega), List.take_add_one, List.flatten_append,
        List.getElem?_eq_getElem hlt]
      simp

/-- The front is the length of the longest complete prefix. -/
theorem IsFront.isGreatest {f : ℕ → Option β} {n : ℕ} (h : IsFront f n) :
    IsGreatest {m | ∀ k < m, (f k).isSome} n := by
  refine ⟨h.before, ?_⟩
  intro m hm
  by_contra hlt
  have hnm := hm n (not_le.mp hlt)
  rw [h.missing] at hnm
  cases hnm

end Reassembly
