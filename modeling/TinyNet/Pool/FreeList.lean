import TinyNet.Library.StepSystem
import TinyNet.Pool.Model

/-!
# The free list of the pool

Callers acquire elements from a {lit}`Pool<T>` and release each at most once.  As long as
the list keeps an element, it runs from {lit}`m_head` through exactly the free elements to
{lit}`m_tail`.  The call that takes the last element makes the pool grow, but out of
reach: {lit}`m_head` is null from then on, whatever is released, and the assertion of the
next {lit}`acquire` fails.

Main results:

- Theorem {lit}`step_inv`: in every run the list is in order or the pool is drained.
- Theorem {lit}`step_ordered`: an {lit}`acquire` that leaves an element keeps it in order.
- Theorem {lit}`wellFormed_iff`: the list stays in order exactly if {lit}`acquire` is only
  called while fewer elements are held than the pool grows by.
- Theorem {lit}`testpool_drained`: the run of {lit}`test/testpool.cpp`.
-/

namespace TinyNet
namespace Pool

open Library.LinkedList
open Library.MachineInt
open Library.StepSystem

/-- The pool and the elements that callers hold. -/
structure State where
  pool : Pool
  held : List Nat

/-- A call on the pool. -/
inductive Call where
  | acquire
  | release (pElem : Nat)
deriving DecidableEq

/-- Nothing is held yet. -/
def start (pool : Pool) : State where
  pool := pool
  held := []

/-- One call.  Only an element that is held can be released. -/
def step (s : State) : Call → Option State
  | .acquire => s.pool.acquire.map fun r => { pool := r.1, held := r.2 :: s.held }
  | .release pElem =>
      if pElem ∈ s.held then
        (s.pool.release pElem).map fun pool => { pool := pool, held := s.held.erase pElem }
      else none

/-- {lit}`m_head` is not null; no element is held twice; and the chain from {lit}`m_head`
visits no element twice, contains exactly the elements that were created and are not held,
and ends at {lit}`m_tail`. -/
structure WellFormed (s : State) : Prop where
  head_ne_null : s.pool.head ≠ none
  held_nodup : s.held.Nodup
  free_list : ∃ l, Chain s.pool.next s.pool.head l ∧ l.Nodup ∧ l.getLast? = s.pool.tail ∧
    ∀ e, e ∈ l ↔ e < s.pool.created ∧ e ∉ s.held

/-! ## A list in order -/

/-- The free list is {lit}`l` followed by {lit}`t`, every element is free or held, and none
was created since the constructor. -/
structure Ordered (m : Int) (s : State) (l : List Nat) (t : Nat) : Prop where
  linked : s.pool.Linked l t
  partition : (l ++ [t] ++ s.held).Perm (List.range s.pool.created)
  created : (s.pool.created : Int) = m + 1

section Ordered

variable {m : Int} {s s' : State} {l : List Nat} {t : Nat}

theorem Ordered.wellFormed (h : Ordered m s l t) : WellFormed s := by
  have hnodup : (l ++ [t] ++ s.held).Nodup := h.partition.nodup_iff.mpr List.nodup_range
  have hdisjoint := List.nodup_append'.mp hnodup
  constructor
  · rw [h.linked.chain.head_eq]
    simp
  · exact hdisjoint.2.1
  · refine ⟨l ++ [t], h.linked.chain, hdisjoint.1, by simp [h.linked.tail], ?_⟩
    intro e
    have hmem : e ∈ l ++ [t] ++ s.held ↔ e < s.pool.created := by
      rw [h.partition.mem_iff, List.mem_range]
    constructor
    · intro he
      exact ⟨hmem.mp (List.mem_append_left _ he), hdisjoint.2.2 he⟩
    · rintro ⟨hlt, hheld⟩
      rcases List.mem_append.mp (hmem.mpr hlt) with he | he
      · exact he
      · exact absurd he hheld

/-- The number of free elements, the last apart, and of held elements. -/
theorem Ordered.length (h : Ordered m s l t) : (l.length + s.held.length : Int) = m := by
  have hlength := h.partition.length_eq
  have hcreated := h.created
  simp only [List.length_append, List.length_singleton, List.length_range] at hlength
  omega

/-- {lit}`acquire` takes the first element and leaves the others, if there are any. -/
theorem acquire_cons {p : Pool} {x : Nat} (h : p.Linked (x :: l) t) :
    p.acquire = some ({ p with head := p.next x }, x) ∧
      Linked { p with head := p.next x } l t := by
  have hchain := h.chain
  have hhead : p.head = some x := hchain.head_eq
  rw [hhead] at hchain
  cases hchain with
  | cons rest =>
      refine ⟨?_, rest, h.tail⟩
      cases hnext : p.next x with
      | none =>
          have hnull := rest.head_eq
          rw [hnext] at hnull
          simp at hnull
      | some y => simp [acquire, hhead, hnext]

/-- {lit}`acquire` takes the last element and leaves {lit}`m_head` null. -/
theorem acquire_last {p p' : Pool} {e : Nat} (h : p.Linked [] t)
    (hacquire : p.acquire = some (p', e)) : p'.head = none := by
  have hchain := h.chain
  have hhead : p.head = some t := hchain.head_eq
  rw [List.nil_append, hhead] at hchain
  cases hchain with
  | cons rest =>
      have hnext : p.next t = none := rest.head_eq
      simp only [acquire, hhead, hnext, Option.map_eq_some_iff] at hacquire
      rcases hacquire with ⟨p₁, hinflate, heq⟩
      obtain ⟨rfl, -⟩ := Prod.mk.inj heq
      exact inflate_head hinflate

/-- {lit}`release` links an element behind the last one. -/
theorem release_linked {p : Pool} {e : Nat} (h : p.Linked l t) (he : e ∉ l ++ [t]) :
    ∃ p', p.release e = some p' ∧ p'.Linked (l ++ [t]) e ∧ p'.created = p.created := by
  have hnodup := List.nodup_append'.mp h.chain.nodup
  have hte : t ≠ e := by
    rintro rfl
    simp at he
  have hchain : Chain (Function.update (Function.update p.next t (some e)) e none) p.head
      (l ++ [t, e]) := by
    apply h.chain.concat
    · rw [Function.update_of_ne hte, Function.update_self]
    · rw [Function.update_self]
    · intro y hy
      have hye : y ≠ e := by
        rintro rfl
        exact he (List.mem_append_left _ hy)
      have hyt : y ≠ t := by
        rintro rfl
        exact hnodup.2.2 hy (by simp)
      rw [Function.update_of_ne hye, Function.update_of_ne hyt]
  refine ⟨{ p with
      next := Function.update (Function.update p.next t (some e)) e none
      tail := some e }, by simp [release, h.tail], ⟨?_, rfl⟩, rfl⟩
  rw [List.append_assoc]
  exact hchain

/-- A call that keeps the list in order, or takes its last element. -/
theorem Ordered.step_cases (h : Ordered m s l t) {c : Call} (hstep : step s c = some s') :
    (∃ l' t', Ordered m s' l' t' ∧ (c = .acquire → l ≠ [])) ∨
      c = .acquire ∧ l = [] ∧ s'.pool.head = none := by
  cases c with
  | acquire =>
      rw [step, Option.map_eq_some_iff] at hstep
      rcases hstep with ⟨⟨p, e⟩, hacquire, rfl⟩
      cases l with
      | nil => exact .inr ⟨rfl, rfl, acquire_last h.linked hacquire⟩
      | cons x l =>
          rcases acquire_cons h.linked with ⟨hfirst, hlinked⟩
          rw [hfirst] at hacquire
          obtain ⟨rfl, rfl⟩ := Prod.mk.inj (Option.some.inj hacquire)
          refine .inl ⟨l, t, ⟨hlinked, ?_, h.created⟩, by simp⟩
          exact List.perm_middle.trans h.partition
  | release pElem =>
      rw [step, Option.ite_none_right_eq_some, Option.map_eq_some_iff] at hstep
      rcases hstep with ⟨hmem, p, hrelease, rfl⟩
      have hnodup : (l ++ [t] ++ s.held).Nodup := h.partition.nodup_iff.mpr List.nodup_range
      have hfree : pElem ∉ l ++ [t] := fun he => (List.nodup_append'.mp hnodup).2.2 he hmem
      rcases release_linked h.linked hfree with ⟨p', hp', hlinked, hcreated⟩
      obtain rfl := Option.some.inj (hrelease.symm.trans hp')
      refine .inl ⟨l ++ [t], pElem, ⟨hlinked, ?_, ?_⟩, by simp⟩
      · have hmove : (l ++ [t] ++ [pElem] ++ s.held.erase pElem).Perm (l ++ [t] ++ s.held) := by
          rw [List.append_assoc (l ++ [t])]
          exact (List.perm_cons_erase hmem).symm.append_left _
        rw [hcreated]
        exact hmove.trans h.partition
      · rw [hcreated]
        exact h.created

/-- A call of {lit}`acquire` that leaves an element, and every {lit}`release`, keeps the
list in order. -/
theorem step_ordered (h : Ordered m s l t) {c : Call}
    (hc : c = .acquire → (s.held.length : Int) < m) (hstep : step s c = some s') :
    ∃ l' t', Ordered m s' l' t' := by
  rcases h.step_cases hstep with ⟨l', t', hordered, -⟩ | ⟨hacquire, rfl, -⟩
  · exact ⟨l', t', hordered⟩
  · have hlength := h.length
    have hlt := hc hacquire
    simp only [List.length_nil] at hlength
    omega

end Ordered

/-! ## Whole runs -/

/-- The list is in order, or the pool is drained. -/
def Inv (m : Int) (s : State) : Prop :=
  s.pool.head = none ∨ ∃ l t, Ordered m s l t

/-- A drained pool stays drained, whatever is released. -/
theorem step_drained {s s' : State} {c : Call} (h : s.pool.head = none)
    (hstep : step s c = some s') : s'.pool.head = none := by
  cases c with
  | acquire => simp [step, acquire, h] at hstep
  | release pElem =>
      rw [step, Option.ite_none_right_eq_some, Option.map_eq_some_iff] at hstep
      rcases hstep with ⟨-, p, hrelease, rfl⟩
      rw [release] at hrelease
      split at hrelease
      · contradiction
      · obtain rfl := Option.some.inj hrelease
        exact h

theorem step_inv {m : Int} {s s' : State} {c : Call} (h : Inv m s)
    (hstep : step s c = some s') : Inv m s' := by
  rcases h with hnull | ⟨l, t, hordered⟩
  · exact .inl (step_drained hnull hstep)
  · rcases hordered.step_cases hstep with ⟨l', t', hordered', -⟩ | ⟨-, -, hnull⟩
    · exact .inr ⟨l', t', hordered'⟩
    · exact .inl hnull

/-- The list of a new pool is in order. -/
theorem start_ordered {grow : Nat} (h : 0 ≤ toI32 grow) :
    ∃ p l t, construct grow = some p ∧ Ordered (toI32 grow) (start p) l t := by
  rcases construct_spec h with ⟨p, l, t, hp, hlinked, hrange, hcreated, -⟩
  refine ⟨p, l, t, hp, hlinked, ?_, hcreated⟩
  rw [hrange]
  simp [start]

/-- For every {lit}`grow` and every sequence of calls: the pool can be constructed and its
free list is in order after every call, exactly if {lit}`grow` is not negative as an
{lit}`int` and {lit}`acquire` is only called while fewer elements are held. -/
theorem wellFormed_iff (grow : Nat) (calls : List Call) :
    (∃ p, construct grow = some p ∧ Always step WellFormed (start p) calls) ↔
      0 ≤ toI32 grow ∧ ∀ p, construct grow = some p →
        EachStep step (fun s c => c = .acquire → (s.held.length : Int) < toI32 grow)
          (start p) calls := by
  constructor
  · rintro ⟨p, hp, halways⟩
    have hgrow : 0 ≤ toI32 grow := by
      rw [construct, inflate, Option.ite_none_right_eq_some] at hp
      exact hp.1
    refine ⟨hgrow, ?_⟩
    intro p' hp'
    obtain rfl := Option.some.inj (hp.symm.trans hp')
    rcases start_ordered hgrow with ⟨p₁, l, t, hp₁, hordered⟩
    obtain rfl := Option.some.inj (hp.symm.trans hp₁)
    refine eachStep_of_always (fun _ _ _ h hstep => step_inv h hstep) ?_
      (.inr ⟨l, t, hordered⟩) halways
    rintro s c s' h hstep hwell rfl
    rcases h with hnull | ⟨l', t', hordered'⟩
    · exact absurd (step_drained hnull hstep) hwell.head_ne_null
    · rcases hordered'.step_cases hstep with ⟨-, -, -, hne⟩ | ⟨-, -, hnull⟩
      · have hlength := hordered'.length
        have hpos := List.length_pos_iff.mpr (hne rfl)
        omega
      · exact absurd hnull hwell.head_ne_null
  · rintro ⟨hgrow, hsteps⟩
    rcases start_ordered hgrow with ⟨p, l, t, hp, hordered⟩
    have hwell : ∀ s, (∃ l t, Ordered (toI32 grow) s l t) → WellFormed s := by
      rintro s ⟨l', t', hordered'⟩
      exact hordered'.wellFormed
    refine ⟨p, hp, always_of_eachStep ?_ hwell ⟨l, t, hordered⟩ (hsteps p hp)⟩
    rintro s c s' ⟨l', t', hordered'⟩ hc hstep
    exact step_ordered hordered' hc hstep

/-- {lit}`test/testpool.cpp` acquires fifty elements from a pool that grows by twenty.
After 21 calls {lit}`m_head` is null, and the assertion of the next call fails. -/
theorem testpool_drained :
    ∃ p s, construct 20 = some p ∧
      run step (start p) (List.replicate 21 .acquire) = some s ∧ s.pool.head = none ∧
      step s .acquire = none ∧ ¬WellFormed s := by
  have hrun : ((construct 20).bind fun p =>
      run step (start p) (List.replicate 21 .acquire)).map (fun s => s.pool.head) =
        some none := by
    decide +kernel
  rcases Option.map_eq_some_iff.mp hrun with ⟨s, hs, hnull⟩
  rcases Option.bind_eq_some_iff.mp hs with ⟨p, hp, hrun⟩
  refine ⟨p, s, hp, hrun, hnull, ?_, fun h => h.head_ne_null hnull⟩
  simp [step, acquire, hnull]

end Pool
end TinyNet
