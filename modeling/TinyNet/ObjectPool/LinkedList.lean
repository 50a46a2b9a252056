import TinyNet.Library.StepSystem

/-!
# The linked list under the object pool

{lit}`AtomicAlloc` keeps its free objects in an {lit}`AtomicLinkedList`, which wraps each in
a node of an {lit}`AtomicIntrusiveLinkedList` ({lit}`libs/AtomicLinkedList.h`,
{lit}`libs/AtomicIntrusiveLinkedList.h`).  This file embeds the nodes, and any number of
threads that call {lit}`insertHead` and {lit}`sweep`.

The threads share the head, which is atomic.  A step loads or exchanges it, or is one round
of a loop over nodes, whose accesses to {lit}`next` are not atomic.  Wrappers are created by
{lit}`insertHead` and deleted by {lit}`sweep`, and their addresses may be used again.  A
thread that would follow a pointer to no wrapper has no step.

Main results:

- Theorem {lit}`step_cases`: what a step can be, and which event it makes visible.
-/

namespace TinyNet
namespace AtomicLinkedList

open Library.StepSystem

universe u

variable {A : Type u} {n : Nat}

/-- {lit}`Wrapper`, with the successor that its hook has. -/
structure Wrapper (A : Type u) where
  next : Option Nat
  data : A

/-- Where a thread stands: outside, in {lit}`insertHead` before the load, the assignment to
{lit}`next` or the {lit}`compare_exchange_weak`, in {lit}`sweep` before the exchange, or in
the loop of {lit}`reverse` or of {lit}`unlinkAll`. -/
inductive ThreadPc where
  | idle
  | load (t : Nat)
  | link (t : Nat) (oldHead : Option Nat)
  | compareExchange (t : Nat) (oldHead : Option Nat)
  | exchange
  | reverse (head rhead : Option Nat)
  | unlinkAll (head : Option Nat)
deriving DecidableEq

/-- The list, the wrappers that exist, and the threads. -/
structure State (n : Nat) (A : Type u) where
  head : Option Nat
  heap : Nat → Option (Wrapper A)
  pcs : Fin n → ThreadPc

/-- A thread calls {lit}`insertHead`, for which {lit}`make_unique` finds a place, calls
{lit}`sweep`, or goes on with its call.  A {lit}`compare_exchange_weak` may fail although
the head is as expected. -/
inductive Action (n : Nat) (A : Type u) where
  | insertHead (i : Fin n) (data : A) (t : Nat)
  | sweep (i : Fin n)
  | advance (i : Fin n) (spurious : Bool)

/-- What a step does to the list as its callers see it: a thread inserts a value, takes the
list, or passes a value to its {lit}`func`. -/
inductive Event (n : Nat) (A : Type u) where
  | insert (i : Fin n) (data : A)
  | take (i : Fin n)
  | visit (i : Fin n) (data : A)

/-- An empty list, and threads outside of it. -/
def start : State n A where
  head := none
  heap _ := none
  pcs _ := .idle

namespace State

/-- Move a thread on. -/
def setPc (s : State n A) (i : Fin n) (pc : ThreadPc) : State n A :=
  { s with pcs := Function.update s.pcs i pc }

/-- Create, write or delete a wrapper. -/
def setWrapper (s : State n A) (t : Nat) (w : Option (Wrapper A)) : State n A :=
  { s with heap := Function.update s.heap t w }

/-- Store the head. -/
def setHead (s : State n A) (head : Option Nat) : State n A :=
  { s with head := head }

/-- {lit}`next(t) = oldHead`. -/
def link (s : State n A) (i : Fin n) (t : Nat) (oldHead : Option Nat) (w : Wrapper A) :
    State n A :=
  (s.setWrapper t (some { w with next := oldHead })).setPc i (.compareExchange t oldHead)

/-- A round of {lit}`reverse`. -/
def reverse (s : State n A) (i : Fin n) (t : Nat) (rhead : Option Nat) (w : Wrapper A) :
    State n A :=
  (s.setWrapper t (some { w with next := rhead })).setPc i (.reverse w.next (some t))

/-- A round of {lit}`unlinkAll`, whose {lit}`func` deletes the wrapper. -/
def unlink (s : State n A) (i : Fin n) (t : Nat) (w : Wrapper A) : State n A :=
  (s.setWrapper t none).setPc i (.unlinkAll w.next)

/-- The next step of the call that a thread is in. -/
def advance (s : State n A) (i : Fin n) (spurious : Bool) : Option (State n A) :=
  match s.pcs i with
  | .idle => none
  | .load t => some (s.setPc i (.link t s.head))
  | .link t oldHead => (s.heap t).map (s.link i t oldHead)
  | .compareExchange t oldHead =>
      if s.head = oldHead ∧ spurious = false then some ((s.setHead (some t)).setPc i .idle)
      else some (s.setPc i (.link t s.head))
  | .exchange =>
      if s.head = none then some (s.setPc i .idle)
      else some ((s.setHead none).setPc i (.reverse s.head none))
  | .reverse none rhead => some (s.setPc i (.unlinkAll rhead))
  | .reverse (some t) rhead => (s.heap t).map (s.reverse i t rhead)
  | .unlinkAll none => some (s.setPc i .exchange)
  | .unlinkAll (some t) => (s.heap t).map (s.unlink i t)

end State

/-- One step of a thread; no result if it cannot take it. -/
def step (s : State n A) : Action n A → Option (State n A)
  | .insertHead i data t =>
      if s.pcs i = .idle ∧ (s.heap t).isNone then
        some ((s.setWrapper t (some { next := none, data := data })).setPc i (.load t))
      else none
  | .sweep i => if s.pcs i = .idle then some (s.setPc i .exchange) else none
  | .advance i spurious => s.advance i spurious

/-- The event that a step makes visible. -/
def event (s : State n A) : Action n A → Option (Event n A)
  | .insertHead _ _ _ => none
  | .sweep _ => none
  | .advance i spurious =>
      match s.pcs i with
      | .compareExchange t oldHead =>
          if s.head = oldHead ∧ spurious = false then
            (s.heap t).map fun w => .insert i w.data
          else none
      | .exchange => if s.head = none then none else some (.take i)
      | .unlinkAll (some t) => (s.heap t).map fun w => .visit i w.data
      | _ => none

/-- What a step can be. -/
inductive StepCase (s : State n A) : Action n A → Option (Event n A) → State n A → Prop where
  | insertHead (i : Fin n) (data : A) (t : Nat) (pc_eq : s.pcs i = .idle)
      (fresh : s.heap t = none) :
      StepCase s (.insertHead i data t) none
        ((s.setWrapper t (some { next := none, data := data })).setPc i (.load t))
  | sweep (i : Fin n) (pc_eq : s.pcs i = .idle) :
      StepCase s (.sweep i) none (s.setPc i .exchange)
  | load (i : Fin n) (spurious : Bool) (t : Nat) (pc_eq : s.pcs i = .load t) :
      StepCase s (.advance i spurious) none (s.setPc i (.link t s.head))
  | link (i : Fin n) (spurious : Bool) (t : Nat) (oldHead : Option Nat) (w : Wrapper A)
      (pc_eq : s.pcs i = .link t oldHead) (heap_eq : s.heap t = some w) :
      StepCase s (.advance i spurious) none (s.link i t oldHead w)
  | insert (i : Fin n) (spurious : Bool) (t : Nat)
      (pc_eq : s.pcs i = .compareExchange t s.head) :
      StepCase s (.advance i spurious) ((s.heap t).map fun w => .insert i w.data)
        ((s.setHead (some t)).setPc i .idle)
  | retry (i : Fin n) (spurious : Bool) (t : Nat) (oldHead : Option Nat)
      (pc_eq : s.pcs i = .compareExchange t oldHead) :
      StepCase s (.advance i spurious) none (s.setPc i (.link t s.head))
  | take (i : Fin n) (spurious : Bool) (pc_eq : s.pcs i = .exchange) (ne : s.head ≠ none) :
      StepCase s (.advance i spurious) (some (.take i))
        ((s.setHead none).setPc i (.reverse s.head none))
  | finish (i : Fin n) (spurious : Bool) (pc_eq : s.pcs i = .exchange) :
      StepCase s (.advance i spurious) none (s.setPc i .idle)
  | reverse (i : Fin n) (spurious : Bool) (t : Nat) (rhead : Option Nat) (w : Wrapper A)
      (pc_eq : s.pcs i = .reverse (some t) rhead) (heap_eq : s.heap t = some w) :
      StepCase s (.advance i spurious) none (s.reverse i t rhead w)
  | reversed (i : Fin n) (spurious : Bool) (rhead : Option Nat)
      (pc_eq : s.pcs i = .reverse none rhead) :
      StepCase s (.advance i spurious) none (s.setPc i (.unlinkAll rhead))
  | visit (i : Fin n) (spurious : Bool) (t : Nat) (w : Wrapper A)
      (pc_eq : s.pcs i = .unlinkAll (some t)) (heap_eq : s.heap t = some w) :
      StepCase s (.advance i spurious) (some (.visit i w.data)) (s.unlink i t w)
  | visited (i : Fin n) (spurious : Bool) (pc_eq : s.pcs i = .unlinkAll none) :
      StepCase s (.advance i spurious) none (s.setPc i .exchange)

/-- A thread in a call takes the step of its place. -/
theorem advance_cases {s s' : State n A} {i : Fin n} {spurious : Bool}
    (h : s.advance i spurious = some s') :
    StepCase s (.advance i spurious) (event s (.advance i spurious)) s' := by
  unfold State.advance at h
  unfold event
  cases hpc : s.pcs i with
  | idle => simp [hpc] at h
  | load t =>
      simp only [hpc, Option.some.injEq] at h ⊢
      exact h ▸ .load i spurious t hpc
  | link t oldHead =>
      simp only [hpc, Option.map_eq_some_iff] at h ⊢
      rcases h with ⟨w, hw, rfl⟩
      exact .link i spurious t oldHead w hpc hw
  | compareExchange t oldHead =>
      simp only [hpc] at h ⊢
      split at h
      · rename_i hsuccess
        cases h
        rw [if_pos hsuccess]
        exact .insert i spurious t (hsuccess.1 ▸ hpc)
      · rename_i hfail
        cases h
        rw [if_neg hfail]
        exact .retry i spurious t oldHead hpc
  | exchange =>
      simp only [hpc] at h ⊢
      split at h
      · rename_i hempty
        cases h
        rw [if_pos hempty]
        exact .finish i spurious hpc
      · rename_i hne
        cases h
        rw [if_neg hne]
        exact .take i spurious hpc hne
  | reverse head rhead =>
      cases head with
      | none =>
          simp only [hpc, Option.some.injEq] at h ⊢
          exact h ▸ .reversed i spurious rhead hpc
      | some t =>
          simp only [hpc, Option.map_eq_some_iff] at h ⊢
          rcases h with ⟨w, hw, rfl⟩
          exact .reverse i spurious t rhead w hpc hw
  | unlinkAll head =>
      cases head with
      | none =>
          simp only [hpc, Option.some.injEq] at h ⊢
          exact h ▸ .visited i spurious hpc
      | some t =>
          simp only [hpc, Option.map_eq_some_iff] at h ⊢
          rcases h with ⟨w, hw, rfl⟩
          simp only [hw, Option.map_some]
          exact .visit i spurious t w hpc hw

/-- Every step is one of the cases. -/
theorem step_cases {s s' : State n A} {a : Action n A} (h : step s a = some s') :
    StepCase s a (event s a) s' := by
  cases a with
  | insertHead i data t =>
      simp only [step, Option.ite_none_right_eq_some, Option.some.injEq,
        Option.isNone_iff_eq_none] at h
      exact h.2 ▸ .insertHead i data t h.1.1 h.1.2
  | sweep i =>
      simp only [step, Option.ite_none_right_eq_some, Option.some.injEq] at h
      exact h.2 ▸ .sweep i h.1
  | advance i spurious => exact advance_cases h

end AtomicLinkedList
end TinyNet
