import Mathlib.Tactic

/-!
# Descriptor tables

An operating system hands out descriptors, which are natural numbers in the range of a
signed integer, and takes them back with {lit}`close`.  A number that was taken back may
be handed out again.  Passing a number to {lit}`close` that is not open has no effect on
the table, but it counts: by the time of the call the number may belong to someone else.
This file keeps that count.

Main results:

- Theorem {lit}`Once.handOut`: handing out a descriptor keeps the counts at most one.
- Theorem {lit}`Once.close`: so does closing a descriptor that is open.
- Theorem {lit}`Once.close_of_neg`: and closing a number that is no descriptor.
-/

namespace Library
namespace DescriptorTable

/-- The descriptors that are open, with the history of those handed out: how often each
was passed to {lit}`close` since it was last handed out. -/
structure Table where
  isOpen : Int → Bool
  handedOut : Int → Bool
  closes : Int → Nat

namespace Table

/-- A table in which the descriptors of others are open. -/
def create (others : Int → Bool) : Table where
  isOpen := others
  handedOut := fun _ => false
  closes := fun _ => 0

/-- Hand out a number that is not open. -/
def handOut (t : Table) (fd : Int) : Option Table :=
  if 0 ≤ fd ∧ t.isOpen fd = false then
    some
      { isOpen := Function.update t.isOpen fd true
        handedOut := Function.update t.handedOut fd true
        closes := Function.update t.closes fd 0 }
  else none

/-- Pass a number to {lit}`close`. -/
def close (t : Table) (fd : Int) : Table where
  isOpen := Function.update t.isOpen fd false
  handedOut := t.handedOut
  closes := Function.update t.closes fd (t.closes fd + 1)

/-- Every descriptor is passed to {lit}`close` at most once between being handed out
and being handed out again. -/
def ClosedAtMostOnce (t : Table) : Prop :=
  ∀ fd, t.handedOut fd = true → t.closes fd ≤ 1

/-- The descriptor was handed out and is still open. -/
def Held (t : Table) (fd : Int) : Prop :=
  t.handedOut fd = true ∧ t.isOpen fd = true

/-- The counts are at most one, and zero for what is open. -/
structure Once (t : Table) : Prop where
  nonneg : ∀ fd, t.handedOut fd = true → 0 ≤ fd
  le_one : t.ClosedAtMostOnce
  of_open : ∀ fd, t.Held fd → t.closes fd = 0

theorem once_create (others : Int → Bool) : (create others).Once := by
  constructor
  · intro fd hfd
    simp [create] at hfd
  · intro fd hfd
    simp [create] at hfd
  · exact fun fd _ => rfl

/-- What handing out a number does to the table. -/
theorem handOut_eq_some {t t' : Table} {fd : Int} (h : t.handOut fd = some t') :
    0 ≤ fd ∧ t.isOpen fd = false ∧
      t' = { isOpen := Function.update t.isOpen fd true
             handedOut := Function.update t.handedOut fd true
             closes := Function.update t.closes fd 0 } := by
  simp only [handOut, Option.ite_none_right_eq_some, Option.some.injEq] at h
  exact ⟨h.1.1, h.1.2, h.2.symm⟩

/-- A number that can be handed out is held by nobody. -/
theorem not_held_of_handOut {t t' : Table} {fd : Int} (h : t.handOut fd = some t') :
    ¬t.Held fd := by
  rintro ⟨-, hopen⟩
  rw [(handOut_eq_some h).2.1] at hopen
  contradiction

theorem held_of_handOut {t t' : Table} {fd : Int} (h : t.handOut fd = some t') :
    t'.Held fd := by
  rw [(handOut_eq_some h).2.2]
  exact ⟨Function.update_self .., Function.update_self ..⟩

theorem Held.of_handOut {t t' : Table} {fd x : Int} (hx : t.Held x)
    (h : t.handOut fd = some t') : t'.Held x := by
  have hne : x ≠ fd := by
    rintro rfl
    exact not_held_of_handOut h hx
  rw [(handOut_eq_some h).2.2]
  exact ⟨(Function.update_of_ne hne ..).trans hx.1, (Function.update_of_ne hne ..).trans hx.2⟩

/-- Closing a descriptor leaves the others open. -/
theorem Held.of_close {t : Table} {fd x : Int} (hx : t.Held x) (hne : x ≠ fd) :
    (t.close fd).Held x :=
  ⟨hx.1, (Function.update_of_ne hne ..).trans hx.2⟩

theorem Once.handOut {t t' : Table} {fd : Int} (h : t.Once)
    (hhand : t.handOut fd = some t') : t'.Once := by
  rcases handOut_eq_some hhand with ⟨hnonneg, -, rfl⟩
  constructor
  · intro x hx
    by_cases hxfd : x = fd
    · rw [hxfd]
      exact hnonneg
    · exact h.nonneg x ((Function.update_of_ne hxfd ..).symm.trans hx)
  · intro x hx
    by_cases hxfd : x = fd
    · simp [hxfd]
    · simp only [Function.update_of_ne hxfd] at hx ⊢
      exact h.le_one x hx
  · rintro x ⟨hhanded, hopen⟩
    by_cases hxfd : x = fd
    · simp [hxfd]
    · simp only [Function.update_of_ne hxfd] at hhanded hopen ⊢
      exact h.of_open x ⟨hhanded, hopen⟩

/-- A close changes the count of its own descriptor only. -/
theorem once_close {t : Table} {fd : Int} (h : t.Once)
    (hfd : t.handedOut fd = true → t.closes fd = 0) : (t.close fd).Once := by
  constructor
  · exact h.nonneg
  · intro x hx
    by_cases hxfd : x = fd
    · subst hxfd
      simp [close, hfd hx]
    · simp only [close, Function.update_of_ne hxfd]
      exact h.le_one x hx
  · rintro x ⟨hhanded, hopen⟩
    by_cases hxfd : x = fd
    · simp [close, hxfd] at hopen
    · simp only [close, Function.update_of_ne hxfd] at hopen ⊢
      exact h.of_open x ⟨hhanded, hopen⟩

theorem Once.close {t : Table} {fd : Int} (h : t.Once) (hfd : t.Held fd) :
    (t.close fd).Once :=
  once_close h fun _ => h.of_open fd hfd

theorem Once.close_of_neg {t : Table} {fd : Int} (h : t.Once) (hfd : fd < 0) :
    (t.close fd).Once := by
  apply once_close h
  intro hhanded
  have hnonneg := h.nonneg fd hhanded
  omega

end Table
end DescriptorTable
end Library
