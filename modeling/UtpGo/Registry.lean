/-
UtpGo/Registry.lean

A table of keys that are taken and given back.  A party looks whether a key is
free, enters itself under it, starts, and ends; somebody else clears its entry
when it has ended.  Looking and entering are two steps, and so are ending and
clearing.

Two parties that find a key free at the same time will both enter themselves.
The rules below (`Step`) exclude this: nobody may claim a key while another
claims it.  Then no two parties ever have a key in common, and the entry of a
party that is live is its own (`Sole.step`); and when nobody leaves without
having its entry cleared, every entry is that of some party (`Covered.step`).
-/
import Mathlib.Data.Multiset.MapFold
import Mathlib.Data.Multiset.UnionInter
import Mathlib.Tactic

namespace Registry

/-- How far a party is: it has found its key free, has entered itself, is
live, or has ended and waits for its entry to be cleared. -/
inductive Stage (κ ω : Type) where
  | claimed (k : κ)
  | entered (k : κ) (o : ω)
  | live (k : κ) (o : ω)
  | leaving (k : κ)

structure Reg (κ ω : Type) where
  holder : κ → Option ω
  parties : Multiset (Stage κ ω)

variable {κ ω : Type}

namespace Stage

def key : Stage κ ω → κ
  | claimed k => k
  | entered k _ => k
  | live k _ => k
  | leaving k => k

/-- The entry is as it should be for a party at this stage. -/
def Fits (holder : κ → Option ω) : Stage κ ω → Prop
  | claimed k => holder k = none
  | entered k o => holder k = some o
  | live k o => holder k = some o
  | leaving k => holder k ≠ none

/-- Only the entry of its own key matters to a party. -/
theorem Fits.congr {holder holder' : κ → Option ω} {p : Stage κ ω} (h : p.Fits holder)
    (hsame : holder' p.key = holder p.key) : p.Fits holder' := by
  cases p with
  | claimed | entered | live => exact hsame.trans h
  | leaving => exact fun hnone => h (hsame.symm.trans hnone)

end Stage

/-! ### Steps -/

section Step

variable [DecidableEq κ]

/-- What the parties do, one at a time.  A party that is live may leave without
an end only where `cancels` allows it. -/
inductive Step (cancels : Prop) (r : Reg κ ω) : Reg κ ω → Prop where
  | same : Step cancels r r
  | claim {k : κ} (hfree : r.holder k = none) (hsole : .claimed k ∉ r.parties) :
      Step cancels r ⟨r.holder, .claimed k ::ₘ r.parties⟩
  | enter {k : κ} (o : ω) {rest : Multiset (Stage κ ω)} (h : r.parties = .claimed k ::ₘ rest) :
      Step cancels r ⟨Function.update r.holder k (some o), .entered k o ::ₘ rest⟩
  | renew {k : κ} {o : ω} (h : .entered k o ∈ r.parties) :
      Step cancels r ⟨Function.update r.holder k (some o), r.parties⟩
  | start {k : κ} {o : ω} {rest : Multiset (Stage κ ω)} (h : r.parties = .entered k o ::ₘ rest) :
      Step cancels r ⟨r.holder, .live k o ::ₘ rest⟩
  | finish {k : κ} {o : ω} {rest : Multiset (Stage κ ω)} (h : r.parties = .live k o ::ₘ rest) :
      Step cancels r ⟨r.holder, .leaving k ::ₘ rest⟩
  | abandon {k : κ} {o : ω} {rest : Multiset (Stage κ ω)} (hcancels : cancels)
      (h : r.parties = .live k o ::ₘ rest) : Step cancels r ⟨r.holder, rest⟩
  | clear {k : κ} {rest : Multiset (Stage κ ω)} (h : r.parties = .leaving k ::ₘ rest) :
      Step cancels r ⟨Function.update r.holder k none, rest⟩

end Step

/-! ### One party for a key -/

/-- No two parties have a key in common, and every entry is as it should be. -/
structure Sole (r : Reg κ ω) : Prop where
  keys : (r.parties.map Stage.key).Nodup
  fits : ∀ p ∈ r.parties, p.Fits r.holder

namespace Sole

variable {r r' : Reg κ ω} {p p' : Stage κ ω} {rest : Multiset (Stage κ ω)}

theorem key_ne (h : Sole r) (hr : r.parties = p ::ₘ rest) : ∀ q ∈ rest, q.key ≠ p.key := by
  have hkeys := h.keys
  rw [hr, Multiset.map_cons, Multiset.nodup_cons] at hkeys
  exact fun q hq heq => hkeys.1 (heq ▸ Multiset.mem_map_of_mem _ hq)

/-- The others, when the entry of one party's key changes. -/
theorem remove {holder : κ → Option ω} (h : Sole r) (hr : r.parties = p ::ₘ rest)
    (hsame : ∀ k, k ≠ p.key → holder k = r.holder k) : Sole ⟨holder, rest⟩ where
  keys := by
    have hkeys := h.keys
    rw [hr, Multiset.map_cons, Multiset.nodup_cons] at hkeys
    exact hkeys.2
  fits := by
    intro q hq
    have hfits := h.fits q (hr ▸ Multiset.mem_cons_of_mem hq)
    exact hfits.congr (hsame _ (h.key_ne hr q hq))

theorem cons (h : Sole r) (hkey : ∀ q ∈ r.parties, q.key ≠ p.key) (hfits : p.Fits r.holder) :
    Sole ⟨r.holder, p ::ₘ r.parties⟩ where
  keys := by
    rw [Multiset.map_cons, Multiset.nodup_cons]
    refine ⟨fun hmem => ?_, h.keys⟩
    obtain ⟨q, hq, heq⟩ := Multiset.mem_map.mp hmem
    exact hkey q hq heq
  fits := by
    intro q hq
    rcases Multiset.mem_cons.mp hq with rfl | hq
    · exact hfits
    · exact h.fits q hq

/-- A party moves on, and the entry of its key with it. -/
theorem replace {holder : κ → Option ω} (h : Sole r) (hr : r.parties = p ::ₘ rest)
    (hkey : p'.key = p.key) (hsame : ∀ k, k ≠ p.key → holder k = r.holder k)
    (hfits : p'.Fits holder) : Sole ⟨holder, p' ::ₘ rest⟩ :=
  (h.remove hr hsame).cons (fun q hq => hkey ▸ h.key_ne hr q hq) hfits

variable [DecidableEq κ] {cancels : Prop}

/-- **Nobody takes what another has.** -/
theorem step (h : Sole r) (hstep : Step cancels r r') : Sole r' := by
  have hupdate : ∀ {k : κ} {v : Option ω} (k' : κ), k' ≠ k →
      Function.update r.holder k v k' = r.holder k' := fun k' hne => Function.update_of_ne hne _ _
  cases hstep with
  | same => exact h
  | claim hfree hsole =>
      refine h.cons (fun q hq heq => ?_) hfree
      have hfits := h.fits q hq
      -- a party with a free key has claimed it
      cases q with
      | claimed k =>
          obtain rfl : k = _ := heq
          exact hsole hq
      | entered k o | live k o =>
          obtain rfl : k = _ := heq
          cases hfree.symm.trans hfits
      | leaving k =>
          obtain rfl : k = _ := heq
          exact hfits hfree
  | enter o hr => exact h.replace hr rfl hupdate (Function.update_self _ _ _)
  | renew hmem =>
      obtain ⟨rest, hr⟩ := Multiset.exists_cons_of_mem hmem
      rw [hr]
      exact h.replace hr rfl hupdate (Function.update_self _ _ _)
  | start hr =>
      have hfits := h.fits _ (hr ▸ Multiset.mem_cons_self _ _)
      exact h.replace hr rfl (fun _ _ => rfl) hfits
  | finish hr =>
      have hfits := h.fits _ (hr ▸ Multiset.mem_cons_self _ _)
      refine h.replace hr rfl (fun _ _ => rfl) fun hnone => ?_
      cases hnone.symm.trans hfits
  | abandon _ hr => exact h.remove hr fun _ _ => rfl
  | clear hr => exact h.remove hr hupdate

end Sole

/-! ### A party for every entry -/

/-- Under every key that is taken there is a party. -/
def Covered (r : Reg κ ω) : Prop := ∀ k, r.holder k ≠ none → ∃ p ∈ r.parties, p.key = k

namespace Covered

variable {r r' : Reg κ ω}

/-- **No entry is left behind**, as long as nobody leaves without an end. -/
theorem step [DecidableEq κ] {cancels : Prop} (hcancels : ¬ cancels) (h : Covered r)
    (hstep : Step cancels r r') : Covered r' := by
  have hreplace : ∀ {p p' : Stage κ ω} {rest : Multiset (Stage κ ω)} {holder : κ → Option ω},
      r.parties = p ::ₘ rest → p'.key = p.key →
      (∀ k, k ≠ p.key → holder k = r.holder k) → Covered ⟨holder, p' ::ₘ rest⟩ := by
    intro p p' rest holder hr hkey hsame k hk
    by_cases hkp : k = p.key
    · exact ⟨p', Multiset.mem_cons_self _ _, hkey.trans hkp.symm⟩
    · have hk : holder k ≠ none := hk
      rw [hsame k hkp] at hk
      obtain ⟨q, hq, rfl⟩ := h k hk
      rw [hr] at hq
      rcases Multiset.mem_cons.mp hq with rfl | hq
      · exact absurd rfl hkp
      · exact ⟨q, Multiset.mem_cons_of_mem hq, rfl⟩
  have hupdate : ∀ {k : κ} {v : Option ω} (k' : κ), k' ≠ k →
      Function.update r.holder k v k' = r.holder k' := fun k' hne => Function.update_of_ne hne _ _
  cases hstep with
  | same => exact h
  | claim =>
      intro k hk
      obtain ⟨p, hp, hkey⟩ := h k hk
      exact ⟨p, Multiset.mem_cons_of_mem hp, hkey⟩
  | enter o hr => exact hreplace hr rfl hupdate
  | renew hmem =>
      obtain ⟨rest, hr⟩ := Multiset.exists_cons_of_mem hmem
      rw [hr]
      exact hreplace hr rfl hupdate
  | start hr | finish hr => exact hreplace hr rfl fun _ _ => rfl
  | abandon hc => exact absurd hc hcancels
  | clear hr =>
      intro k hk
      rename_i k₀ rest
      have hne : k ≠ k₀ := by
        rintro rfl
        exact hk (Function.update_self _ _ _)
      have hk : Function.update r.holder k₀ none k ≠ none := hk
      rw [hupdate k hne] at hk
      obtain ⟨q, hq, rfl⟩ := h k hk
      rw [hr] at hq
      rcases Multiset.mem_cons.mp hq with rfl | hq
      · exact absurd rfl hne
      · exact ⟨q, hq, rfl⟩

/-- When nobody is leaving, the entries are those of the parties that have
entered themselves or are live. -/
theorem holder_iff (h : Covered r) (hsole : Sole r) (hleft : ∀ k, .leaving k ∉ r.parties) {k : κ}
    {o : ω} : r.holder k = some o ↔ .entered k o ∈ r.parties ∨ .live k o ∈ r.parties := by
  constructor
  · intro hk
    obtain ⟨p, hp, rfl⟩ := h k (hk ▸ Option.some_ne_none o)
    have hfits := hsole.fits p hp
    cases p with
    | claimed => cases hk.symm.trans hfits
    | entered =>
        cases hk.symm.trans hfits
        exact .inl hp
    | live =>
        cases hk.symm.trans hfits
        exact .inr hp
    | leaving => exact absurd hp (hleft _)
  · rintro (hp | hp)
    · exact hsole.fits _ hp
    · exact hsole.fits _ hp

end Covered

end Registry
