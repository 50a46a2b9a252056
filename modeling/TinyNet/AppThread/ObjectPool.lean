import TinyNet.Library.Ownership
import TinyNet.Library.StepSystem

/-!
# The object pool

This file embeds {lit}`ObjectPool` with its {lit}`AtomicAlloc` and the
{lit}`AtomicLinkedList` under it ({lit}`libs/object_pool.hpp`).  The atomic steps of
{lit}`alloc` are the emptiness test, each of the twenty refill inserts, each
exchange of the list head and each visit of a swept element; that an insertion is
one step is shown in {lit}`ObjectPool.Linearization`.  An object is the
address at which {lit}`new` created it; nothing is ever deleted, so the addresses
are numbered in the order of creation.

{lit}`alloc` sweeps the whole list and returns the element visited last.  The others
are unlinked and forgotten, and a second thread that finds the list empty between
its own test and its sweep returns null.

Main results:

- Theorem {lit}`allocStep_spec`: a step of {lit}`alloc` creates an object in the
  list, or passes objects between the list and the caller, or forgets some.
- Theorem {lit}`separated_allocStep`: whoever shares the pool, such a step leaves every
  object with one holder at most.
-/

namespace TinyNet

open Library.Ownership
open Library.StepSystem

/-- The address of a pooled object. -/
abbrev Obj := Nat

/-- {lit}`AtomicAlloc`: the free list, head first, and the number of objects that
{lit}`new` has created. -/
structure AtomicAlloc where
  objList : List Obj
  created : Nat
deriving DecidableEq

namespace AtomicAlloc

/-- A pool as constructed. -/
def create : AtomicAlloc where
  objList := []
  created := 0

/-- {lit}`m_objList.insertHead(pObj)`, which is all that {lit}`release` does for a
type with a trivial destructor. -/
def release (a : AtomicAlloc) (pObj : Obj) : AtomicAlloc :=
  { a with objList := pObj :: a.objList }

/-- {lit}`m_objList.insertHead(new T())`. -/
def insertNew (a : AtomicAlloc) : AtomicAlloc where
  objList := a.created :: a.objList
  created := a.created + 1

/-- The next step of {lit}`alloc`; {lit}`pItem` is its local variable and
{lit}`rest` the part of a swept list that is still to be visited. -/
inductive AllocPc where
  | test
  | refill (i : Nat)
  | exchange (pItem : Option Obj)
  | visit (rest : List Obj) (pItem : Option Obj)
deriving DecidableEq

/-- One step of {lit}`alloc`.  A sweep visits the elements from tail to head, and
goes on until it finds the list empty. -/
def allocStep (a : AtomicAlloc) :
    AllocPc → AtomicAlloc × Progress AllocPc (Option Obj)
  | .test =>
      if a.objList = [] then (a, .running (.refill 0)) else (a, .running (.exchange none))
  | .refill i =>
      if i < 20 then (a.insertNew, .running (.refill (i + 1)))
      else (a, .running (.exchange none))
  | .exchange pItem =>
      if a.objList = [] then (a, .returned pItem)
      else ({ a with objList := [] }, .running (.visit a.objList.reverse pItem))
  | .visit [] pItem => (a, .running (.exchange pItem))
  | .visit (pObj :: rest) _ => (a, .running (.visit rest (some pObj)))

/-- A call of {lit}`alloc` that no other thread interrupts and that returns with its
{lit}`n`-th step. -/
def alloc : Nat → AtomicAlloc → AllocPc → Option (AtomicAlloc × Option Obj)
  | 0, _, _ => none
  | n + 1, a, pc =>
      match a.allocStep pc with
      | (a', .running pc') => alloc n a' pc'
      | (a', .returned pItem) => if n = 0 then some (a', pItem) else none

/-- The objects that only the caller of {lit}`alloc` can reach. -/
def AllocPc.holds : AllocPc → List Obj
  | .test => []
  | .refill _ => []
  | .exchange pItem => pItem.toList
  | .visit rest pItem => rest ++ pItem.toList

/-- The same after a step. -/
def progressHolds : Progress AllocPc (Option Obj) → List Obj
  | .running pc => pc.holds
  | .returned pItem => pItem.toList

/-- What a step of {lit}`alloc` does with the objects. -/
inductive AllocEffect (a a' : AtomicAlloc) (held held' : List Obj) : Prop where
  | pass (created : a'.created = a.created)
      (sub : (a'.objList ++ held').Subperm (a.objList ++ held))
  | insert (eq : a' = a.insertNew) (held_eq : held' = held)

/-- A step of {lit}`alloc` inserts a new object, or moves and forgets old ones. -/
theorem allocStep_spec (a : AtomicAlloc) (pc : AllocPc) :
    AllocEffect a (allocStep a pc).1 pc.holds (progressHolds (allocStep a pc).2) := by
  cases pc with
  | test =>
      rw [allocStep]
      split <;> exact .pass rfl (List.Subperm.refl _)
  | refill i =>
      rw [allocStep]
      split
      · exact .insert rfl rfl
      · exact .pass rfl (List.Subperm.refl _)
  | exchange pItem =>
      rw [allocStep]
      split
      · exact .pass rfl (List.Subperm.refl _)
      · refine .pass rfl ?_
        apply List.Perm.subperm
        exact a.objList.reverse_perm.append_right _
  | visit rest pItem =>
      cases rest with
      | nil => exact .pass rfl (List.Subperm.refl _)
      | cons pObj rest =>
          have hrotate : (a.objList ++ (rest ++ [pObj])).Subperm
              (a.objList ++ (pObj :: rest)) :=
            ((List.perm_append_singleton pObj rest).append_left _).subperm
          have hforget : (a.objList ++ (pObj :: rest)).Subperm
              (a.objList ++ (pObj :: rest ++ pItem.toList)) :=
            ((List.sublist_append_left _ _).append_left _).subperm
          exact .pass rfl (hrotate.trans hforget)

/-- If the free list and the caller are two of the places that hold objects, a step of
{lit}`alloc` keeps the places separated. -/
theorem separated_allocStep {P : Type*} [DecidableEq P] {owns : P → List Obj}
    {a : AtomicAlloc} {pc : AllocPc} {free caller : P}
    (h : Separated owns (· < a.created)) (hne : free ≠ caller)
    (hfree : owns free = a.objList) (hcaller : owns caller = pc.holds) :
    Separated
      (Function.update (Function.update owns free (allocStep a pc).1.objList) caller
        (progressHolds (allocStep a pc).2))
      (· < (allocStep a pc).1.created) := by
  cases allocStep_spec a pc with
  | pass hcreated hsub =>
      rw [hcreated]
      apply h.transfer hne
      · rw [Function.update_self, Function.update_of_ne hne, Function.update_self, hfree,
          hcaller]
        exact hsub
      · intro p hp hp'
        rw [Function.update_of_ne hp', Function.update_of_ne hp]
  | insert hnew hsame =>
      have hkept : Function.update owns caller pc.holds = owns := by
        rw [← hcaller, Function.update_eq_self]
      rw [hsame, Function.update_comm hne, hkept, hnew]
      apply h.insert (p := free) (x := a.created)
      · simp
      · simp [insertNew]
      · intro o ho
        exact Nat.lt_succ_of_lt ho
      · rw [Function.update_self, hfree]
        rfl
      · intro p hp
        exact Function.update_of_ne hp _ _

/-- Undisturbed on an empty list, {lit}`alloc` creates twenty objects, returns the
newest and forgets the rest. -/
theorem alloc_empty (created : Nat) :
    alloc 45 ⟨[], created⟩ .test = some (⟨[], created + 20⟩, some (created + 19)) :=
  rfl

end AtomicAlloc
end TinyNet
