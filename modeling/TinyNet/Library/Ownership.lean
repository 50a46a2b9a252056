import Mathlib.Tactic

/-!
# Exclusive ownership of objects

Objects are handed round between places, each of which holds a list of them.  The
places are separated if no object is held twice, whether by two places or by one.
This file gives the rules under which a hand-over, a loss and the arrival of a new
object keep them separated.

Main results:

- Theorem {lit}`Separated.transfer`: two places may redistribute, or drop, what they
  hold together.
- Theorem {lit}`Separated.shrink`: one place may drop objects.
- Theorem {lit}`Separated.insert`: a place may receive an object that was never used.
- Theorem {lit}`Separated.mono`: places may drop objects, and what is used may change for
  objects that nobody holds.
- Theorem {lit}`Separated.release`: the holder of an object may give it up for good.
-/

namespace Library
namespace Ownership

universe u v

variable {P : Type u} {O : Type v}

/-- No object is held twice, and only used objects are held. -/
structure Separated (owns : P → List O) (used : O → Prop) : Prop where
  nodup : ∀ p, (owns p).Nodup
  eq_of_mem : ∀ p q o, o ∈ owns p → o ∈ owns q → p = q
  used_of_mem : ∀ p o, o ∈ owns p → used o

variable {owns owns' : P → List O} {used : O → Prop}

/-- What two places hold together has no repetition. -/
theorem Separated.nodup_append (h : Separated owns used) {p q : P} (hpq : p ≠ q) :
    (owns p ++ owns q).Nodup := by
  rw [List.nodup_append']
  refine ⟨h.nodup p, h.nodup q, ?_⟩
  intro o hp hq
  exact hpq (h.eq_of_mem p q o hp hq)

/-- Two places redistribute or drop what they hold together. -/
theorem Separated.transfer (h : Separated owns used) {p q : P} (hpq : p ≠ q)
    (hsub : (owns' p ++ owns' q).Subperm (owns p ++ owns q))
    (hother : ∀ r, r ≠ p → r ≠ q → owns' r = owns r) : Separated owns' used := by
  classical
  have hnodup : (owns' p ++ owns' q).Nodup := by
    rcases hsub with ⟨l, hperm, hlist⟩
    exact hperm.nodup_iff.mp ((h.nodup_append hpq).sublist hlist)
  have hdisjoint := List.nodup_append'.mp hnodup
  -- whoever holds an object now, it was held before by the same place, or by p or q
  have hmem : ∀ r o, o ∈ owns' r → (r = p ∨ r = q) ∧ (o ∈ owns p ∨ o ∈ owns q) ∨
      r ≠ p ∧ r ≠ q ∧ o ∈ owns r := by
    intro r o ho
    by_cases hr : r = p ∨ r = q
    · left
      refine ⟨hr, List.mem_append.mp (hsub.subset ?_)⟩
      rcases hr with rfl | rfl
      · exact List.mem_append_left _ ho
      · exact List.mem_append_right _ ho
    · rw [not_or] at hr
      right
      rw [hother r hr.1 hr.2] at ho
      exact ⟨hr.1, hr.2, ho⟩
  constructor
  · intro r
    by_cases hrp : r = p
    · rw [hrp]
      exact hdisjoint.1
    · by_cases hrq : r = q
      · rw [hrq]
        exact hdisjoint.2.1
      · rw [hother r hrp hrq]
        exact h.nodup r
  · intro r t o hr ht
    rcases hmem r o hr with ⟨hrpq, hold⟩ | ⟨hrp, hrq, hold⟩
    · rcases hmem t o ht with ⟨htpq, -⟩ | ⟨htp, htq, htold⟩
      · rcases hrpq with rfl | rfl <;> rcases htpq with rfl | rfl
        · rfl
        · exact absurd ht (hdisjoint.2.2 hr)
        · exact absurd hr (hdisjoint.2.2 ht)
        · rfl
      · rcases hold with hold | hold
        · exact absurd (h.eq_of_mem t p o htold hold) htp
        · exact absurd (h.eq_of_mem t q o htold hold) htq
    · rcases hmem t o ht with ⟨-, htold⟩ | ⟨htp, htq, htold⟩
      · rcases htold with htold | htold
        · exact absurd (h.eq_of_mem r p o hold htold) hrp
        · exact absurd (h.eq_of_mem r q o hold htold) hrq
      · exact h.eq_of_mem r t o hold htold
  · intro r o ho
    rcases hmem r o ho with ⟨-, hold | hold⟩ | ⟨-, -, hold⟩
    · exact h.used_of_mem p o hold
    · exact h.used_of_mem q o hold
    · exact h.used_of_mem r o hold

/-- One place drops some of what it holds. -/
theorem Separated.shrink (h : Separated owns used) {p : P}
    (hsub : (owns' p).Subperm (owns p)) (hother : ∀ r, r ≠ p → owns' r = owns r) :
    Separated owns' used := by
  have hmem : ∀ r o, o ∈ owns' r → o ∈ owns r := by
    intro r o ho
    by_cases hr : r = p
    · rw [hr] at ho ⊢
      exact hsub.subset ho
    · rwa [hother r hr] at ho
  constructor
  · intro r
    by_cases hr : r = p
    · rcases hsub with ⟨l, hperm, hlist⟩
      rw [hr]
      exact hperm.nodup_iff.mp ((h.nodup p).sublist hlist)
    · rw [hother r hr]
      exact h.nodup r
  · intro r t o hr ht
    exact h.eq_of_mem r t o (hmem r o hr) (hmem t o ht)
  · intro r o ho
    exact h.used_of_mem r o (hmem r o ho)

/-- One place receives an object that was never used before. -/
theorem Separated.insert (h : Separated owns used) {used' : O → Prop} {p : P} {x : O}
    (hfresh : ¬used x) (hx : used' x) (hused : ∀ o, used o → used' o)
    (hp : owns' p = x :: owns p) (hother : ∀ r, r ≠ p → owns' r = owns r) :
    Separated owns' used' := by
  have hnew : ∀ r, x ∉ owns r := fun r hr => hfresh (h.used_of_mem r x hr)
  have hmem : ∀ r o, o ∈ owns' r → r = p ∧ o = x ∨ o ∈ owns r := by
    intro r o ho
    by_cases hr : r = p
    · rw [hr, hp, List.mem_cons] at ho
      rcases ho with rfl | ho
      · exact Or.inl ⟨hr, rfl⟩
      · exact Or.inr (hr ▸ ho)
    · rw [hother r hr] at ho
      exact Or.inr ho
  constructor
  · intro r
    by_cases hr : r = p
    · rw [hr, hp]
      exact List.nodup_cons.mpr ⟨hnew p, h.nodup p⟩
    · rw [hother r hr]
      exact h.nodup r
  · intro r t o hr ht
    rcases hmem r o hr with ⟨rfl, rfl⟩ | hold
    · rcases hmem t o ht with ⟨rfl, -⟩ | htold
      · rfl
      · exact absurd htold (hnew t)
    · rcases hmem t o ht with ⟨rfl, rfl⟩ | htold
      · exact absurd hold (hnew r)
      · exact h.eq_of_mem r t o hold htold
  · intro r o ho
    rcases hmem r o ho with ⟨-, rfl⟩ | hold
    · exact hx
    · exact hused o (h.used_of_mem r o hold)

/-- Places drop some of what they hold; what remains is still used. -/
theorem Separated.mono (h : Separated owns used) {used' : O → Prop}
    (hsub : ∀ p, (owns' p).Sublist (owns p))
    (hused : ∀ p o, o ∈ owns' p → used o → used' o) : Separated owns' used' := by
  constructor
  · exact fun p => (h.nodup p).sublist (hsub p)
  · intro p q o hp hq
    exact h.eq_of_mem p q o ((hsub p).subset hp) ((hsub q).subset hq)
  · intro p o ho
    exact hused p o ho (h.used_of_mem p o ((hsub p).subset ho))

/-- The holder of an object gives it up, after which it is used no more. -/
theorem Separated.release (h : Separated owns used) {used' : O → Prop} {p : P} {x : O}
    (hp : owns p = x :: owns' p) (hother : ∀ r, r ≠ p → (owns' r).Sublist (owns r))
    (hused : ∀ o, o ≠ x → used o → used' o) : Separated owns' used' := by
  have hsub : ∀ r, (owns' r).Sublist (owns r) := by
    intro r
    by_cases hr : r = p
    · rw [hr, hp]
      exact List.sublist_cons_self x (owns' p)
    · exact hother r hr
  apply h.mono hsub
  rintro r o ho
  apply hused
  rintro rfl
  by_cases hr : r = p
  · have hnodup := h.nodup p
    rw [hp, List.nodup_cons] at hnodup
    exact hnodup.1 (hr ▸ ho)
  · apply hr
    apply h.eq_of_mem r p o ((hsub r).subset ho)
    rw [hp]
    exact List.mem_cons_self

end Ownership
end Library
