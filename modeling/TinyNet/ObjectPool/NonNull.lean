import TinyNet.ObjectPool.Threads

/-!
# What {lit}`acquire` returns

{lit}`alloc` tests whether the free list is empty, fills it if so, and then sweeps it.
{lit}`Processor::run` dereferences the result without a check.  But the test, the inserts
and the sweep are separate steps: another worker may sweep the list in between, and then
the call finds nothing and returns null.

Main results:

- Theorem {lit}`step_sure`: as long as nobody sweeps what another thread counts on, every
  call that is past its test or its refill finds an object.
- Theorem {lit}`acquire_nonnull`: then no call returns null.
- Theorem {lit}`overtaken_acquire_null`: two workers, one of which is given null.
-/

namespace TinyNet
namespace ObjectPool

open Library.StepSystem
open AtomicAlloc

variable {n : Nat}

/-- No call of {lit}`acquire` is about to return null. -/
def NonNull (s : State n) : Prop :=
  ∀ t, (s.threads t).pc ≠ .returning none

/-- The thread is past its test, which found the list non-empty, or past its last insert,
and has not exchanged the head yet. -/
def ThreadPc.expectsObject : ThreadPc → Bool
  | .alloc (.refill i) => 20 ≤ i
  | .alloc (.exchange none) => true
  | _ => false

/-- The condition on a step: a thread that exchanges the head of a non-empty list for
null does so when no other thread counts on finding an object there. -/
def undisturbed (s : State n) : Action n → Bool
  | .advance t =>
      match (s.threads t).pc with
      | .alloc (.exchange _) =>
          s.pool.objList = [] ∨ ∀ u, u ≠ t → (s.threads u).pc.expectsObject = false
      | _ => true
  | _ => true

/-! ## One step -/

/-- A thread that expects an object finds one, and one that has swept has one. -/
def ThreadPc.Sure (free : List Obj) : ThreadPc → Prop
  | .alloc (.refill i) => 20 ≤ i → free ≠ []
  | .alloc (.exchange pItem) => pItem = none → free ≠ []
  | .alloc (.visit rest pItem) => pItem = none → rest ≠ []
  | .returning pItem => pItem ≠ none
  | _ => True

namespace ThreadPc.Sure

variable {pc : ThreadPc} {free free' : List Obj}

/-- Who is sure of an object stays so unless the list is emptied. -/
theorem mono (h : pc.Sure free) (hfree : free ≠ [] → free' ≠ []) : pc.Sure free' := by
  cases pc with
  | idle => trivial
  | alloc pc =>
      cases pc with
      | test => trivial
      | refill i => exact fun hi => hfree (h hi)
      | exchange pItem => exact fun hnull => hfree (h hnull)
      | visit rest pItem => exact h
  | returning pItem => exact h
  | releasing pObj => trivial

/-- Who does not count on the list stays sure whatever happens to it. -/
theorem of_not_expects (h : pc.Sure free) (hpc : pc.expectsObject = false) :
    pc.Sure free' := by
  cases pc with
  | idle => trivial
  | alloc pc =>
      cases pc with
      | test => trivial
      | refill i =>
          intro hi
          simp [ThreadPc.expectsObject, hi] at hpc
      | exchange pItem =>
          rintro rfl
          contradiction
      | visit rest pItem => exact h
  | returning pItem => exact h
  | releasing pObj => trivial

end ThreadPc.Sure

/-- A step of {lit}`alloc` keeps its own thread sure. -/
theorem allocStep_sure {a : AtomicAlloc} {pc : AllocPc}
    (h : (ThreadPc.alloc pc).Sure a.objList) :
    (afterAlloc (a.allocStep pc).2).Sure (a.allocStep pc).1.objList := by
  cases pc with
  | test =>
      rw [allocStep]
      split
      · intro hi
        omega
      · rename_i hne
        exact fun _ => hne
  | refill i =>
      rw [allocStep]
      split
      · exact fun _ => List.cons_ne_nil _ _
      · rename_i hi
        exact fun _ => h (by omega)
  | exchange pItem =>
      rw [allocStep]
      split
      · rename_i hempty
        exact fun hnull => h hnull hempty
      · rename_i hne
        exact fun _ => List.reverse_ne_nil_iff.mpr hne
  | visit rest pItem =>
      cases rest with
      | nil => exact fun hnull => absurd rfl (h hnull)
      | cons pObj rest => exact fun hnull => absurd hnull (by simp)

/-- Only the exchange of the head empties the list. -/
theorem allocStep_objList_ne_nil {a : AtomicAlloc} {pc : AllocPc}
    (hpc : ∀ pItem, pc ≠ .exchange pItem) (h : a.objList ≠ []) :
    (a.allocStep pc).1.objList ≠ [] := by
  cases pc with
  | test =>
      rw [allocStep]
      split <;> exact h
  | refill i =>
      rw [allocStep]
      split
      · exact List.cons_ne_nil _ _
      · exact h
  | exchange pItem => exact absurd rfl (hpc pItem)
  | visit rest pItem => cases rest <;> exact h

/-- Every thread is sure of its object. -/
def AllSure (s : State n) : Prop :=
  ∀ t, (s.threads t).pc.Sure s.pool.objList

theorem start_sure : AllSure (start : State n) :=
  fun _ => trivial

theorem AllSure.nonNull {s : State n} (h : AllSure s) : NonNull s := by
  intro t hpc
  have hsure := h t
  rw [hpc] at hsure
  exact hsure rfl

/-- One thread and the pool have changed. -/
theorem sure_setThread {s : State n} {pool : AtomicAlloc} {t : Fin n} {th : Thread}
    (hself : th.pc.Sure pool.objList)
    (hother : ∀ u, u ≠ t → (s.threads u).pc.Sure pool.objList) :
    AllSure ({ s with pool := pool }.setThread t th) := by
  intro u
  by_cases hu : u = t
  · rw [hu, State.setThread_self]
    exact hself
  · rw [State.setThread_of_ne _ hu]
    exact hother u hu

/-- A step of {lit}`alloc` that takes no list on which another thread counts. -/
theorem allocStep_allSure {s : State n} (h : AllSure s) {t : Fin n} {pc : AllocPc}
    (hpc : (s.threads t).pc = .alloc pc) (hok : undisturbed s (.advance t) = true) :
    AllSure (s.allocStep t pc) := by
  have hself := h t
  rw [hpc] at hself
  refine sure_setThread (allocStep_sure hself) ?_
  intro u hu
  by_cases hexchange : ∃ pItem, pc = .exchange pItem
  · rcases hexchange with ⟨pItem, rfl⟩
    simp only [undisturbed, hpc, decide_eq_true_eq] at hok
    rcases hok with hempty | hnone
    · exact (h u).mono fun hne => absurd hempty hne
    · exact (h u).of_not_expects (hnone u hu)
  · rw [not_exists] at hexchange
    exact (h u).mono (allocStep_objList_ne_nil hexchange)

/-- Every step that meets the condition keeps every thread sure. -/
theorem step_sure {s s' : State n} {a : Action n} (h : AllSure s)
    (hok : undisturbed s a = true) (hstep : step s a = some s') : AllSure s' := by
  cases step_cases hstep with
  | acquire t hpc => exact sure_setThread trivial fun u _ => h u
  | release t pObj hpc hmem => exact sure_setThread trivial fun u _ => h u
  | allocStep t pc hpc => exact allocStep_allSure h hpc hok
  | returnStep t pItem hpc => exact sure_setThread trivial fun u _ => h u
  | releaseStep t pObj hpc =>
      exact sure_setThread trivial fun u _ => (h u).mono fun _ => List.cons_ne_nil _ _
  | handOver t u pObj hne hmem =>
      have hgive : AllSure (s.setThread t
          { s.threads t with held := (s.threads t).held.erase pObj }) :=
        sure_setThread (h t) fun v _ => h v
      refine sure_setThread ?_ fun v _ => hgive v
      exact h u

/-! ## Whole runs -/

/-- In every interleaving of any number of threads in which nobody sweeps a list that
another thread counts on, no call of {lit}`acquire` returns null. -/
theorem acquire_nonnull (acts : List (Action n))
    (h : EachStep step (fun s a => undisturbed s a = true) start acts) :
    Always step NonNull start acts :=
  always_of_eachStep (fun _ _ _ hsure hok hstep => step_sure hsure hok hstep)
    (fun _ hsure => hsure.nonNull) start_sure h

/-- Two workers and the application thread: the first worker acquires an object and hands
it to the application thread, which releases it while the second worker is in
{lit}`alloc`, between its test and its refill. -/
def overlappingCalls : List (Action 3) :=
  .acquire 0 :: List.replicate 46 (.advance 0) ++
    [.handOver 0 2 19, .acquire 1, .advance 1, .release 2 19, .advance 2] ++
    List.replicate 46 (.advance 1)

/-- All calls of these threads return an object. -/
theorem acquire_nonnull_overlapping :
    (∃ s, run step start overlappingCalls = some s ∧ (s.threads 1).held = [39]) ∧
      Always step NonNull start overlappingCalls := by
  constructor
  · have hrun : (run step start overlappingCalls).map (fun s => (s.threads 1).held) =
        some [39] := by
      decide +kernel
    exact Option.map_eq_some_iff.mp hrun
  · apply acquire_nonnull
    apply eachStep_of_checkSteps (fun _ _ h => h)
    decide +kernel

/-- Both workers call {lit}`acquire`.  The first fills the list; the second finds it
non-empty; the first sweeps it; the second finds it empty and returns null. -/
theorem overtaken_acquire_null :
    ∃ s : State 2, run step start
        (.acquire 0 :: .acquire 1 :: List.replicate 22 (.advance 0) ++
          [.advance 1, .advance 0, .advance 1]) = some s ∧
      (s.threads 1).pc = .returning none ∧ ¬NonNull s := by
  have hrun : (run step (start : State 2)
      (.acquire 0 :: .acquire 1 :: List.replicate 22 (.advance 0) ++
        [.advance 1, .advance 0, .advance 1])).map (fun s => (s.threads 1).pc) =
      some (.returning none) := by
    decide +kernel
  rcases Option.map_eq_some_iff.mp hrun with ⟨s, hs, hpc⟩
  exact ⟨s, hs, hpc, fun h => h 1 hpc⟩

end ObjectPool
end TinyNet
