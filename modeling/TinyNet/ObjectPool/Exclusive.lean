import TinyNet.Library.Ownership
import TinyNet.ObjectPool.Threads

/-!
# The object pool hands no object out twice

{lit}`alloc` detaches the whole free list and keeps the element that it visits last,
while other threads refill, sweep and release.  Still every object is in one place at a
time: in the free list, in the hands of a thread that is inside the pool, or with a
thread that holds it.  What a sweep does not keep is in no place any more.

Main results:

- Theorem {lit}`step_separated`: every step of every thread keeps the places separated.
- Theorem {lit}`exclusive_always`: in every interleaving no object is held twice, or held
  and free, or held and swept by another thread, or twice in the free list.
-/

namespace TinyNet
namespace ObjectPool

open Library.Ownership
open Library.StepSystem
open AtomicAlloc

variable {n : Nat}

/-- The objects that only a thread inside the pool can reach: the fragment that it has
swept and not yet visited, its choice, or what it is about to insert. -/
def ThreadPc.inFlight : ThreadPc → List Obj
  | .idle => []
  | .alloc pc => pc.holds
  | .returning pItem => pItem.toList
  | .releasing pObj => [pObj]

/-- Who can have an object. -/
inductive Place (n : Nat) where
  | free
  | flight (t : Fin n)
  | held (t : Fin n)
deriving DecidableEq

/-- What each place has. -/
def State.owns (s : State n) : Place n → List Obj
  | .free => s.pool.objList
  | .flight t => (s.threads t).pc.inFlight
  | .held t => (s.threads t).held

/-- No object is held by two threads, or twice by one; no held object is in the free
list, or in the hands of a thread inside the pool; no object is twice in the free
list. -/
structure Exclusive (s : State n) : Prop where
  held_nodup : ∀ t, (s.threads t).held.Nodup
  held_once : ∀ t u o, o ∈ (s.threads t).held → o ∈ (s.threads u).held → t = u
  not_free : ∀ t o, o ∈ (s.threads t).held → o ∉ s.pool.objList
  not_swept : ∀ t u o, o ∈ (s.threads t).held → o ∉ (s.threads u).pc.inFlight
  free_nodup : s.pool.objList.Nodup

/-- The places are separated, and hold only objects that were created. -/
abbrev Inv (s : State n) : Prop :=
  Separated s.owns (· < s.pool.created)

/-- Separate places are exclusive. -/
theorem Inv.exclusive {s : State n} (h : Inv s) : Exclusive s where
  held_nodup t := h.nodup (.held t)
  held_once t u o ht hu := by
    cases h.eq_of_mem (.held t) (.held u) o ht hu
    rfl
  not_free t o ht hfree := by
    cases h.eq_of_mem (.held t) .free o ht hfree
  not_swept t u o ht hu := by
    cases h.eq_of_mem (.held t) (.flight u) o ht hu
  free_nodup := h.nodup .free

theorem start_inv : Inv (start : State n) := by
  have howns : ∀ p, (start : State n).owns p = [] := by
    intro p
    cases p <;> rfl
  constructor
  · intro p
    simp [howns]
  · intro p q o hp
    simp [howns] at hp
  · intro p o hp
    simp [howns] at hp

/-! ## What the places have after an update -/

/-- The pool has changed. -/
theorem owns_setPool (s : State n) (pool : AtomicAlloc) :
    State.owns { s with pool := pool } = Function.update s.owns .free pool.objList := by
  funext p
  cases p <;> simp [State.owns]

/-- One thread has changed. -/
theorem owns_setThread (s : State n) (t : Fin n) (th : Thread) :
    (s.setThread t th).owns =
      Function.update (Function.update s.owns (.flight t) th.pc.inFlight) (.held t) th.held := by
  funext p
  cases p with
  | free => simp [State.owns]
  | flight u =>
      by_cases hu : u = t
      · simp [State.owns, hu]
      · simp [State.owns, State.setThread_of_ne _ hu, hu]
  | held u =>
      by_cases hu : u = t
      · simp [State.owns, hu]
      · simp [State.owns, State.setThread_of_ne _ hu, hu]

/-- One thread has moved and holds what it held. -/
theorem owns_setPc (s : State n) (t : Fin n) (pc : ThreadPc) :
    (s.setThread t { s.threads t with pc := pc }).owns =
      Function.update s.owns (.flight t) pc.inFlight := by
  rw [owns_setThread]
  apply Function.update_eq_self_iff.mpr
  simp [State.owns]

/-- One thread holds other objects and stands where it stood. -/
theorem owns_setHeld (s : State n) (t : Fin n) (held : List Obj) :
    (s.setThread t { s.threads t with held := held }).owns =
      Function.update s.owns (.held t) held := by
  have hflight : s.owns (.flight t) = (s.threads t).pc.inFlight := rfl
  rw [owns_setThread, ← hflight, Function.update_eq_self]

/-! ## Steps -/

theorem inFlight_afterAlloc (r : Progress AllocPc (Option Obj)) :
    (afterAlloc r).inFlight = progressHolds r := by
  cases r <;> rfl

/-- A thread calls {lit}`acquire`. -/
theorem acquire_separated {s : State n} (h : Inv s) {t : Fin n}
    (hpc : (s.threads t).pc = .idle) :
    Inv (s.setThread t { s.threads t with pc := .alloc .test }) := by
  have hflight : s.owns (.flight t) = [] := by
    simp [State.owns, hpc, ThreadPc.inFlight]
  have howns : Function.update s.owns (.flight t) [] = s.owns := by
    rw [← hflight, Function.update_eq_self]
  rw [Inv, owns_setPc, State.setThread_pool]
  exact howns.symm ▸ h

/-- A thread in {lit}`alloc`. -/
theorem allocStep_separated {s : State n} (h : Inv s) {t : Fin n} {pc : AllocPc}
    (hpc : (s.threads t).pc = .alloc pc) : Inv (s.allocStep t pc) := by
  have hflight : s.owns (.flight t) = pc.holds := by
    simp [State.owns, hpc, ThreadPc.inFlight]
  have howns : (s.allocStep t pc).owns =
      Function.update (Function.update s.owns .free (s.pool.allocStep pc).1.objList)
        (.flight t) (progressHolds (s.pool.allocStep pc).2) := by
    rw [← inFlight_afterAlloc, ← owns_setPool, ← owns_setPc]
    rfl
  rw [Inv, howns]
  exact separated_allocStep h (by simp) rfl hflight

/-- The object that {lit}`acquire` returns passes from the call to its caller. -/
theorem returnStep_separated {s : State n} (h : Inv s) {t : Fin n} {pItem : Option Obj}
    (hpc : (s.threads t).pc = .returning pItem) : Inv (s.returnStep t pItem) := by
  apply h.transfer (p := .flight t) (q := .held t) (by simp)
  · rw [State.returnStep, owns_setThread]
    simpa [State.owns, hpc, ThreadPc.inFlight] using List.Subperm.refl _
  · intro r hflight hheld
    rw [State.returnStep, owns_setThread, Function.update_of_ne hheld,
      Function.update_of_ne hflight]

/-- The object to be released passes from its holder to the call. -/
theorem releaseCall_separated {s : State n} (h : Inv s) {t : Fin n} {pObj : Obj}
    (hpc : (s.threads t).pc = .idle) (hmem : pObj ∈ (s.threads t).held) :
    Inv (s.releaseCall t pObj) := by
  apply h.transfer (p := .flight t) (q := .held t) (by simp)
  · rw [State.releaseCall, owns_setThread]
    simpa [State.owns, hpc, ThreadPc.inFlight] using (List.perm_cons_erase hmem).symm.subperm
  · intro r hflight hheld
    rw [State.releaseCall, owns_setThread, Function.update_of_ne hheld,
      Function.update_of_ne hflight]

/-- The released object passes from the call to the free list. -/
theorem releaseStep_separated {s : State n} (h : Inv s) {t : Fin n} {pObj : Obj}
    (hpc : (s.threads t).pc = .releasing pObj) : Inv (s.releaseStep t pObj) := by
  have howns : (s.releaseStep t pObj).owns =
      Function.update (Function.update s.owns .free (pObj :: s.pool.objList)) (.flight t) [] := by
    have hidle : ([] : List Obj) = ThreadPc.idle.inFlight := rfl
    have hlist : pObj :: s.pool.objList = (s.pool.release pObj).objList := rfl
    rw [hidle, hlist, ← owns_setPool, ← owns_setPc]
    rfl
  apply h.transfer (p := .free) (q := .flight t) (by simp)
  · rw [howns]
    have hperm : (pObj :: s.pool.objList).Perm (s.pool.objList ++ [pObj]) :=
      (List.perm_append_singleton pObj s.pool.objList).symm
    simpa [State.owns, hpc, ThreadPc.inFlight] using hperm.subperm
  · intro r hfree hflight
    rw [howns, Function.update_of_ne hflight, Function.update_of_ne hfree]

/-- An object passes from one holder to another. -/
theorem handOver_separated {s : State n} (h : Inv s) {t u : Fin n} {pObj : Obj}
    (hne : t ≠ u) (hmem : pObj ∈ (s.threads t).held) : Inv (s.handOver t u pObj) := by
  have howns : (s.handOver t u pObj).owns =
      Function.update (Function.update s.owns (.held t) ((s.threads t).held.erase pObj))
        (.held u) (pObj :: (s.threads u).held) := by
    rw [State.handOver, ← State.setThread_of_ne s hne.symm, owns_setHeld, owns_setHeld]
  apply h.transfer (p := .held t) (q := .held u) (by simpa using hne)
  · rw [howns]
    have htake := (List.perm_cons_erase hmem).symm.append_right (s.threads u).held
    have hgive : ((s.threads t).held.erase pObj ++ pObj :: (s.threads u).held).Perm
        (pObj :: (s.threads t).held.erase pObj ++ (s.threads u).held) :=
      List.perm_middle
    simpa [State.owns, hne] using (hgive.trans htake).subperm
  · intro r ht hu
    rw [howns, Function.update_of_ne hu, Function.update_of_ne ht]

/-- Every step of every thread keeps the places separated. -/
theorem step_separated {s s' : State n} {a : Action n} (h : Inv s)
    (hstep : step s a = some s') : Inv s' := by
  cases step_cases hstep with
  | acquire t hpc => exact acquire_separated h hpc
  | release t pObj hpc hmem => exact releaseCall_separated h hpc hmem
  | allocStep t pc hpc => exact allocStep_separated h hpc
  | returnStep t pItem hpc => exact returnStep_separated h hpc
  | releaseStep t pObj hpc => exact releaseStep_separated h hpc
  | handOver t u pObj hne hmem => exact handOver_separated h hne hmem

/-- In every interleaving of any number of threads, the pool never has one object in two
hands. -/
theorem exclusive_always (acts : List (Action n)) : Always step Exclusive start acts :=
  always_of_invariant (fun _ _ _ h hstep => step_separated h hstep)
    (fun _ h => h.exclusive) start_inv acts

end ObjectPool
end TinyNet
