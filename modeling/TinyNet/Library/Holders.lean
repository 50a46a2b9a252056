import Mathlib.Logic.Function.Basic
import Mathlib.Tactic

/-!
# Which thread holds what

A table gives the place of each thread, and a place may hold a resource.  This file says
what becomes of the holders when one thread moves to another place.

Main results:

- Theorem {lit}`Exclusive.update`: a resource stays with one thread if only a free one is
  taken.
- Theorem {lit}`Held.update`: a resource stays held if the thread that moves does not let
  it go.
-/

namespace Library
namespace Holders

universe u v w

variable {T : Type u} {P : Type v} {R : Type w} {holds : P → Option R} {threads : T → P}
  {t : T} {pc : P} {r : R}

/-- No resource is held by two threads. -/
def Exclusive (holds : P → Option R) (threads : T → P) : Prop :=
  ∀ t t' r, holds (threads t) = some r → holds (threads t') = some r → t = t'

/-- Some thread holds the resource. -/
def Held (holds : P → Option R) (threads : T → P) (r : R) : Prop :=
  ∃ t, holds (threads t) = some r

/-- Nobody holds anything at the start. -/
theorem exclusive_const (hpc : holds pc = none) : Exclusive holds fun _ : T => pc := by
  intro t t' r hr
  rw [hpc] at hr
  contradiction

variable [DecidableEq T]

/-- A thread that moves takes at most what it held or what nobody held. -/
theorem Exclusive.update (h : Exclusive holds threads)
    (hnew : ∀ r, holds pc = some r → holds (threads t) = some r ∨ ¬ Held holds threads r) :
    Exclusive holds (Function.update threads t pc) := by
  -- a thread other than the one that moves cannot hold what that one holds now
  have hother : ∀ t' r, t' ≠ t → holds pc = some r → holds (threads t') ≠ some r := by
    intro t' r ht hpc hr
    rcases hnew r hpc with hheld | hfree
    · exact ht (h t' t r hr hheld)
    · exact hfree ⟨t', hr⟩
  intro t₁ t₂ r h₁ h₂
  by_cases ht₁ : t₁ = t <;> by_cases ht₂ : t₂ = t
  · rw [ht₁, ht₂]
  · rw [ht₁, Function.update_self] at h₁
    rw [Function.update_of_ne ht₂] at h₂
    exact absurd h₂ (hother t₂ r ht₂ h₁)
  · rw [ht₂, Function.update_self] at h₂
    rw [Function.update_of_ne ht₁] at h₁
    exact absurd h₁ (hother t₁ r ht₁ h₂)
  · rw [Function.update_of_ne ht₁] at h₁
    rw [Function.update_of_ne ht₂] at h₂
    exact h t₁ t₂ r h₁ h₂

/-- A thread that moves and keeps what it held leaves the resource held. -/
theorem Held.update (h : Held holds threads r)
    (hkeep : holds (threads t) = some r → holds pc = some r) :
    Held holds (Function.update threads t pc) r := by
  rcases h with ⟨t', ht'⟩
  refine ⟨t', ?_⟩
  by_cases ht : t' = t
  · rw [ht, Function.update_self]
    exact hkeep (ht ▸ ht')
  · rw [Function.update_of_ne ht]
    exact ht'

/-- A thread that moves to a place that holds the resource. -/
theorem held_update_self (threads : T → P) (t : T) (h : holds pc = some r) :
    Held holds (Function.update threads t pc) r :=
  ⟨t, by rw [Function.update_self, h]⟩

/-- A thread that moves and holds the same as before changes nothing. -/
theorem held_update_iff (h : holds pc = holds (threads t)) (r : R) :
    Held holds (Function.update threads t pc) r ↔ Held holds threads r := by
  constructor
  · rintro ⟨t', ht'⟩
    by_cases ht : t' = t
    · rw [ht, Function.update_self] at ht'
      exact ⟨t, h ▸ ht'⟩
    · rw [Function.update_of_ne ht] at ht'
      exact ⟨t', ht'⟩
  · intro hheld
    exact hheld.update h.trans

/-- What is held after a thread has moved, it holds or was held before by another. -/
theorem Held.of_update (h : Held holds (Function.update threads t pc) r) :
    holds pc = some r ∨ ∃ t', t' ≠ t ∧ holds (threads t') = some r := by
  rcases h with ⟨t', ht'⟩
  by_cases ht : t' = t
  · rw [ht, Function.update_self] at ht'
    exact Or.inl ht'
  · rw [Function.update_of_ne ht] at ht'
    exact Or.inr ⟨t', ht, ht'⟩

end Holders
end Library
