import TinyNet.AppThread.ObjectPool

/-!
# The object pool and its threads

Any number of threads share one {lit}`ObjectPool<T, AtomicAlloc<T>>`
({lit}`libs/object_pool.hpp`).  A thread may call {lit}`acquire` and {lit}`release`
whenever it is in neither, and may hold any number of objects.  An object may also
change hands outside the pool, as when a worker acquires a package that the application
thread releases.  What a thread releases it holds, and holds no longer afterwards.

A call takes the atomic steps of {lit}`AtomicAlloc.allocStep`, between which the other
threads go on; the return of {lit}`acquire`, and in {lit}`release` the destructor and
the insertion, are steps of their own.

Main results:

- Theorem {lit}`step_cases`: what a step can be.
-/

namespace TinyNet
namespace ObjectPool

open Library.StepSystem
open AtomicAlloc

variable {n : Nat}

/-- Where a thread stands: outside the pool, in {lit}`alloc`, about to return its
result, or in {lit}`release` past the destructor. -/
inductive ThreadPc where
  | idle
  | alloc (pc : AllocPc)
  | returning (pItem : Option Obj)
  | releasing (pObj : Obj)
deriving DecidableEq

/-- A thread, with the objects that it holds. -/
structure Thread where
  pc : ThreadPc
  held : List Obj
deriving DecidableEq

/-- The pool and its threads. -/
structure State (n : Nat) where
  pool : AtomicAlloc
  threads : Fin n → Thread

/-- A thread calls {lit}`acquire`, calls {lit}`release`, goes on with the call that it is
in, or passes an object on. -/
inductive Action (n : Nat) where
  | acquire (t : Fin n)
  | release (t : Fin n) (pObj : Obj)
  | advance (t : Fin n)
  | handOver (t u : Fin n) (pObj : Obj)
deriving DecidableEq

/-- A pool as constructed, and threads that hold nothing. -/
def start : State n where
  pool := AtomicAlloc.create
  threads _ := { pc := .idle, held := [] }

/-- Where a thread is after a step of {lit}`alloc`. -/
def afterAlloc : Progress AllocPc (Option Obj) → ThreadPc
  | .running pc => .alloc pc
  | .returned pItem => .returning pItem

namespace State

/-- Replace a thread. -/
def setThread (s : State n) (t : Fin n) (th : Thread) : State n :=
  { s with threads := Function.update s.threads t th }

@[simp]
theorem setThread_pool (s : State n) (t : Fin n) (th : Thread) :
    (s.setThread t th).pool = s.pool :=
  rfl

@[simp]
theorem setThread_self (s : State n) (t : Fin n) (th : Thread) :
    (s.setThread t th).threads t = th := by
  simp [setThread]

theorem setThread_of_ne (s : State n) {t u : Fin n} (h : u ≠ t) (th : Thread) :
    (s.setThread t th).threads u = s.threads u := by
  simp [setThread, h]

/-- A step of {lit}`_alloc.alloc()`. -/
def allocStep (s : State n) (t : Fin n) (pc : AllocPc) : State n :=
  { s with pool := (s.pool.allocStep pc).1 }.setThread t
    { s.threads t with pc := afterAlloc (s.pool.allocStep pc).2 }

/-- The return of {lit}`acquire`, which gives the object to the caller if there is one. -/
def returnStep (s : State n) (t : Fin n) (pItem : Option Obj) : State n :=
  s.setThread t { pc := .idle, held := pItem.toList ++ (s.threads t).held }

/-- The call of {lit}`release(pObj)` and {lit}`pObj->~T()`. -/
def releaseCall (s : State n) (t : Fin n) (pObj : Obj) : State n :=
  s.setThread t { pc := .releasing pObj, held := (s.threads t).held.erase pObj }

/-- {lit}`m_objList.insertHead(pObj)` in {lit}`release`. -/
def releaseStep (s : State n) (t : Fin n) (pObj : Obj) : State n :=
  { s with pool := s.pool.release pObj }.setThread t { s.threads t with pc := .idle }

/-- One thread passes an object on to another. -/
def handOver (s : State n) (t u : Fin n) (pObj : Obj) : State n :=
  (s.setThread t { s.threads t with held := (s.threads t).held.erase pObj }).setThread u
    { s.threads u with held := pObj :: (s.threads u).held }

/-- The next step of the call that a thread is in. -/
def advance (s : State n) (t : Fin n) : Option (State n) :=
  match (s.threads t).pc with
  | .idle => none
  | .alloc pc => some (s.allocStep t pc)
  | .returning pItem => some (s.returnStep t pItem)
  | .releasing pObj => some (s.releaseStep t pObj)

end State

/-- One step of a thread; no result if it cannot take it. -/
def step (s : State n) : Action n → Option (State n)
  | .acquire t =>
      if (s.threads t).pc = .idle then
        some (s.setThread t { s.threads t with pc := .alloc .test })
      else none
  | .release t pObj =>
      if (s.threads t).pc = .idle ∧ pObj ∈ (s.threads t).held then
        some (s.releaseCall t pObj)
      else none
  | .advance t => s.advance t
  | .handOver t u pObj =>
      if t ≠ u ∧ pObj ∈ (s.threads t).held then some (s.handOver t u pObj) else none

/-- What a step can be. -/
inductive StepCase (s : State n) : Action n → State n → Prop where
  | acquire (t : Fin n) (pc_eq : (s.threads t).pc = .idle) :
      StepCase s (.acquire t) (s.setThread t { s.threads t with pc := .alloc .test })
  | release (t : Fin n) (pObj : Obj) (pc_eq : (s.threads t).pc = .idle)
      (mem : pObj ∈ (s.threads t).held) :
      StepCase s (.release t pObj) (s.releaseCall t pObj)
  | allocStep (t : Fin n) (pc : AllocPc) (pc_eq : (s.threads t).pc = .alloc pc) :
      StepCase s (.advance t) (s.allocStep t pc)
  | returnStep (t : Fin n) (pItem : Option Obj)
      (pc_eq : (s.threads t).pc = .returning pItem) :
      StepCase s (.advance t) (s.returnStep t pItem)
  | releaseStep (t : Fin n) (pObj : Obj) (pc_eq : (s.threads t).pc = .releasing pObj) :
      StepCase s (.advance t) (s.releaseStep t pObj)
  | handOver (t u : Fin n) (pObj : Obj) (ne : t ≠ u) (mem : pObj ∈ (s.threads t).held) :
      StepCase s (.handOver t u pObj) (s.handOver t u pObj)

/-- A thread in a call takes the step of its place. -/
theorem advance_cases {s s' : State n} {t : Fin n} (h : s.advance t = some s') :
    StepCase s (.advance t) s' := by
  unfold State.advance at h
  cases hpc : (s.threads t).pc with
  | idle => simp [hpc] at h
  | alloc pc =>
      simp only [hpc, Option.some.injEq] at h
      exact h ▸ .allocStep t pc hpc
  | returning pItem =>
      simp only [hpc, Option.some.injEq] at h
      exact h ▸ .returnStep t pItem hpc
  | releasing pObj =>
      simp only [hpc, Option.some.injEq] at h
      exact h ▸ .releaseStep t pObj hpc

/-- Every step is one of the cases. -/
theorem step_cases {s s' : State n} {a : Action n} (h : step s a = some s') :
    StepCase s a s' := by
  cases a with
  | acquire t =>
      simp only [step, Option.ite_none_right_eq_some, Option.some.injEq] at h
      exact h.2 ▸ .acquire t h.1
  | release t pObj =>
      simp only [step, Option.ite_none_right_eq_some, Option.some.injEq] at h
      exact h.2 ▸ .release t pObj h.1.1 h.1.2
  | advance t => exact advance_cases h
  | handOver t u pObj =>
      simp only [step, Option.ite_none_right_eq_some, Option.some.injEq] at h
      exact h.2 ▸ .handOver t u pObj h.1.1 h.1.2

end ObjectPool
end TinyNet
