import TinyNet.AppThread.ObjectPool

/-!
# What becomes of the objects of a pool

One thread makes whole calls on an {lit}`ObjectPool`.  {lit}`alloc` fills an empty list
with twenty objects and sweeps the list whatever its length, but it returns only the
object that it visits last.  The others are in nobody's hands afterwards, and the next
call has to create twenty more.

Main results:

- Theorems {lit}`alloc_undisturbed_nil` and {lit}`alloc_undisturbed_cons`: what a call of
  {lit}`alloc` without interruption does.
- Theorem {lit}`step_lost_iff`: which calls lose objects.
- Theorem {lit}`conservation_iff`: every created object is held or free as long as no
  call of {lit}`acquire` is made, and not afterwards; the number of objects created is
  bounded by the number held at once exactly if never two are held.
- Theorem {lit}`acquire_forgets_nineteen`: the first call already loses objects.
-/

namespace TinyNet
namespace AtomicAlloc

/-! ## Calls without interruption -/

/-- The number of steps of a call of {lit}`alloc` that no other thread interrupts. -/
def allocSteps (a : AtomicAlloc) : Nat :=
  if a.objList = [] then 45 else a.objList.length + 4

/-- The elements of a swept list are visited one by one, and each replaces the last. -/
theorem alloc_visit (created : Nat) (rest : List Obj) (pItem : Option Obj) :
    alloc (rest.length + 2) ⟨[], created⟩ (.visit rest pItem) =
      some (⟨[], created⟩, rest.foldl (fun _ pObj => some pObj) pItem) := by
  induction rest generalizing pItem with
  | nil => rfl
  | cons pObj rest ih => exact ih (some pObj)

/-- On an empty list, {lit}`alloc` creates twenty objects and returns the newest. -/
theorem alloc_undisturbed_nil {a : AtomicAlloc} (h : a.objList = []) :
    a.alloc a.allocSteps .test = some (⟨[], a.created + 20⟩, some (a.created + 19)) := by
  obtain ⟨objList, created⟩ := a
  subst h
  exact alloc_empty created

/-- On a list with objects, {lit}`alloc` returns the first and empties the list. -/
theorem alloc_undisturbed_cons {a : AtomicAlloc} {pObj : Obj} {rest : List Obj}
    (h : a.objList = pObj :: rest) :
    a.alloc a.allocSteps .test = some (⟨[], a.created⟩, some pObj) := by
  obtain ⟨objList, created⟩ := a
  subst h
  have hsteps : allocSteps ⟨pObj :: rest, created⟩ = (pObj :: rest).reverse.length + 2 + 2 := by
    simp [allocSteps]
  -- the test and the exchange of the head, and then the visits
  have hsweep : alloc ((pObj :: rest).reverse.length + 2 + 2) ⟨pObj :: rest, created⟩ .test =
      alloc ((pObj :: rest).reverse.length + 2) ⟨[], created⟩
        (.visit (pObj :: rest).reverse none) :=
    rfl
  rw [hsteps, hsweep, alloc_visit, List.foldl_reverse, List.foldr_cons]

end AtomicAlloc

namespace ObjectPool
namespace Sequential

open Library.StepSystem

/-- The pool, the objects that callers hold, and the greatest number that they have held
at once. -/
structure State where
  pool : AtomicAlloc
  held : List Obj
  peak : Nat
deriving DecidableEq

/-- A call on the pool. -/
inductive Call where
  | acquire
  | release (pObj : Obj)
deriving DecidableEq

/-- A pool as constructed. -/
def start : State where
  pool := AtomicAlloc.create
  held := []
  peak := 0

/-- {lit}`acquire` has returned. -/
def State.afterAcquire (s : State) (r : AtomicAlloc × Option Obj) : State where
  pool := r.1
  held := r.2.toList ++ s.held
  peak := max s.peak (r.2.toList ++ s.held).length

/-- {lit}`release(pObj)`. -/
def State.afterRelease (s : State) (pObj : Obj) : State where
  pool := s.pool.release pObj
  held := s.held.erase pObj
  peak := s.peak

/-- One call.  Only an object that is held can be released. -/
def step (s : State) : Call → Option State
  | .acquire => (s.pool.alloc s.pool.allocSteps .test).map s.afterAcquire
  | .release pObj => if pObj ∈ s.held then some (s.afterRelease pObj) else none

/-- The created objects are exactly those held and those free, each once. -/
def Conserved (s : State) : Prop :=
  (s.held ++ s.pool.objList).Perm (List.range s.pool.created)

/-- The number of created objects exceeds the greatest number held at once by twenty at
most. -/
def Bounded (s : State) : Prop :=
  s.pool.created ≤ s.peak + 20

/-- The number of created objects that are neither held nor free. -/
def lost (s : State) : Nat :=
  s.pool.created - (s.held ++ s.pool.objList).length

/-! ## One call -/

/-- What a call can be. -/
inductive StepCase (s : State) : Call → State → Prop where
  | refill (nil : s.pool.objList = []) :
      StepCase s .acquire
        { pool := ⟨[], s.pool.created + 20⟩
          held := (s.pool.created + 19) :: s.held
          peak := max s.peak (s.held.length + 1) }
  | reuse (pObj : Obj) (rest : List Obj) (cons : s.pool.objList = pObj :: rest) :
      StepCase s .acquire
        { pool := ⟨[], s.pool.created⟩
          held := pObj :: s.held
          peak := max s.peak (s.held.length + 1) }
  | release (pObj : Obj) (mem : pObj ∈ s.held) :
      StepCase s (.release pObj) (s.afterRelease pObj)

theorem step_cases {s s' : State} {c : Call} (h : step s c = some s') : StepCase s c s' := by
  cases c with
  | acquire =>
      rw [step] at h
      cases hlist : s.pool.objList with
      | nil =>
          rw [AtomicAlloc.alloc_undisturbed_nil hlist, Option.map_some,
            Option.some.injEq] at h
          exact h ▸ .refill hlist
      | cons pObj rest =>
          rw [AtomicAlloc.alloc_undisturbed_cons hlist, Option.map_some,
            Option.some.injEq] at h
          exact h ▸ .reuse pObj rest hlist
  | release pObj =>
      simp only [step, Option.ite_none_right_eq_some, Option.some.injEq] at h
      exact h.2 ▸ .release pObj h.1

/-- The invariant of all calls: what is held or free exists once and was created, and
twenty objects were created for each that was ever held beside the others. -/
structure Inv (s : State) : Prop where
  nodup : (s.held ++ s.pool.objList).Nodup
  lt_created : ∀ o ∈ s.held ++ s.pool.objList, o < s.pool.created
  le_peak : (s.held ++ s.pool.objList).length ≤ s.peak
  peak_le : 20 * s.peak ≤ s.pool.created

theorem start_inv : Inv start := by
  constructor <;> simp [start, AtomicAlloc.create]

/-- A release moves an object. -/
theorem afterRelease_perm {s : State} {pObj : Obj} (h : pObj ∈ s.held) :
    ((s.afterRelease pObj).held ++ (s.afterRelease pObj).pool.objList).Perm
      (s.held ++ s.pool.objList) := by
  have hmove : (s.held.erase pObj ++ pObj :: s.pool.objList).Perm
      (pObj :: s.held.erase pObj ++ s.pool.objList) :=
    List.perm_middle
  exact hmove.trans ((List.perm_cons_erase h).symm.append_right _)

/-- A call that moves objects, or forgets some, keeps what remains apart. -/
theorem Inv.of_subperm {s s' : State} (h : Inv s)
    (hsub : (s'.held ++ s'.pool.objList).Subperm (s.held ++ s.pool.objList))
    (hcreated : s'.pool.created = s.pool.created)
    (hpeak : (s'.held ++ s'.pool.objList).length ≤ s'.peak)
    (htwenty : 20 * s'.peak ≤ s'.pool.created) : Inv s' := by
  refine ⟨?_, ?_, hpeak, htwenty⟩
  · rcases hsub with ⟨l, hperm, hlist⟩
    exact hperm.nodup_iff.mp (h.nodup.sublist hlist)
  · intro o ho
    rw [hcreated]
    exact h.lt_created o (hsub.subset ho)

theorem step_inv {s s' : State} {c : Call} (h : Inv s) (hstep : step s c = some s') :
    Inv s' := by
  have hpeak := h.le_peak
  have htwenty := h.peak_le
  cases step_cases hstep with
  | refill hnil =>
      have hcreated := h.lt_created
      have hnodup := h.nodup
      rw [hnil, List.append_nil] at hcreated hnodup hpeak
      constructor
      · have hfresh : s.pool.created + 19 ∉ s.held := by
          intro hmem
          have hlt : s.pool.created + 19 < s.pool.created := hcreated _ hmem
          omega
        simpa using ⟨hfresh, hnodup⟩
      · intro o ho
        simp only [List.append_nil, List.mem_cons] at ho
        rcases ho with rfl | ho
        · exact Nat.lt_succ_self (s.pool.created + 19)
        · exact (hcreated o ho).trans_le (Nat.le_add_right _ _)
      · simp
      · show 20 * max s.peak (s.held.length + 1) ≤ s.pool.created + 20
        omega
  | reuse pObj rest hcons =>
      have hsub : (pObj :: s.held).Subperm (s.held ++ s.pool.objList) := by
        rw [hcons]
        have hmove : (pObj :: s.held).Perm (s.held ++ [pObj]) :=
          (List.perm_append_singleton pObj s.held).symm
        have hfirst : (s.held ++ [pObj]).Sublist (s.held ++ pObj :: rest) :=
          (List.singleton_sublist.mpr List.mem_cons_self).append_left s.held
        exact hmove.subperm.trans hfirst.subperm
      have hlength := hsub.length_le
      rw [List.length_cons] at hlength
      refine h.of_subperm (by simpa using hsub) rfl (by simp) ?_
      show 20 * max s.peak (s.held.length + 1) ≤ s.pool.created
      omega
  | release pObj hmem =>
      have hperm := afterRelease_perm hmem
      refine h.of_subperm hperm.subperm rfl ?_ htwenty
      rw [hperm.length_eq]
      exact hpeak

/-- A call loses no object exactly if it is a release or finds just one object free. -/
theorem step_lost_iff {s s' : State} {c : Call} (h : Inv s) (hstep : step s c = some s') :
    lost s' = lost s ↔ (c = .acquire → s.pool.objList.length = 1) := by
  have hpeak := h.le_peak
  have htwenty := h.peak_le
  cases step_cases hstep with
  | refill hnil =>
      rw [hnil] at hpeak
      simp only [lost, hnil, List.append_nil, List.length_cons, List.length_nil] at hpeak ⊢
      simp only [forall_const]
      omega
  | reuse pObj rest hcons =>
      rw [hcons] at hpeak
      simp only [lost, hcons, List.append_nil, List.length_append, List.length_cons,
        forall_const] at hpeak ⊢
      omega
  | release pObj hmem =>
      have hlength := (afterRelease_perm hmem).length_eq
      have hcreated : (s.afterRelease pObj).pool.created = s.pool.created := rfl
      rw [lost, lost, hlength, hcreated]
      simp

/-- A call of {lit}`acquire` gives its caller one more object. -/
theorem held_of_acquire {s s' : State} (hstep : step s .acquire = some s') :
    ∃ pObj, s'.held = pObj :: s.held := by
  cases step_cases hstep with
  | refill _ => exact ⟨_, rfl⟩
  | reuse pObj rest _ => exact ⟨pObj, rfl⟩

/-! ## Sequences of calls -/

/-- If any object was created, some are lost. -/
theorem Inv.held_eq_nil_of_conserved {s : State} (h : Inv s) (hc : Conserved s) :
    s.held = [] := by
  have hlength := hc.length_eq
  have hpeak := h.le_peak
  have htwenty := h.peak_le
  rw [List.length_range] at hlength
  rw [List.length_append] at hlength hpeak
  apply List.eq_nil_of_length_eq_zero
  omega

/-- No object is lost exactly as long as {lit}`acquire` is not called. -/
theorem always_conserved_iff (calls : List Call) :
    Always step Conserved start calls ↔
      EachStep step (fun _ c => c ≠ .acquire) start calls := by
  constructor
  · refine eachStep_of_always (fun _ _ _ h hstep => step_inv h hstep) ?_ start_inv
    rintro s c s' h hstep hconserved rfl
    have hnil := (step_inv h hstep).held_eq_nil_of_conserved hconserved
    rcases held_of_acquire hstep with ⟨pObj, hheld⟩
    rw [hheld] at hnil
    contradiction
  · -- nothing is held, so nothing can be released
    have hstay : ∀ s c s', s = start → c ≠ .acquire → step s c = some s' → s' = start := by
      rintro s c s' rfl hne hstep
      cases step_cases hstep with
      | refill _ => contradiction
      | reuse _ _ _ => contradiction
      | release pObj hmem => simp [start] at hmem
    have hconserved : ∀ s, s = start → Conserved s := by
      rintro s rfl
      exact List.Perm.refl _
    exact always_of_eachStep hstay hconserved rfl

/-- All objects that are not lost are one, and no more than twenty were created. -/
structure Single (s : State) : Prop where
  le_twenty : s.pool.created ≤ 20
  one : s.pool.created = 0 ∨ (s.held ++ s.pool.objList).length = 1

/-- Who acquires only with empty hands gets the same object again and again. -/
theorem step_single {s s' : State} {c : Call} (h : Single s)
    (hc : c = .acquire → s.held = []) (hstep : step s c = some s') : Single s' := by
  have htwenty := h.le_twenty
  have hone := h.one
  cases step_cases hstep with
  | refill hnil =>
      rw [hc rfl, hnil] at hone
      have hzero : s.pool.created = 0 := by simpa using hone
      constructor
      · simp [hzero]
      · right
        simp [hc rfl]
  | reuse pObj rest hcons =>
      constructor
      · exact htwenty
      · right
        simp [hc rfl]
  | release pObj hmem =>
      constructor
      · exact htwenty
      · rw [(afterRelease_perm hmem).length_eq]
        exact hone

/-- The number of created objects stays within twenty of the number held at once exactly
if {lit}`acquire` is only called when nothing is held. -/
theorem always_bounded_iff (calls : List Call) :
    Always step Bounded start calls ↔
      EachStep step (fun s c => c = .acquire → s.held = []) start calls := by
  constructor
  · refine eachStep_of_always (fun _ _ _ h hstep => step_inv h hstep) ?_ start_inv
    rintro s c s' h hstep hbounded rfl
    have hinv := step_inv h hstep
    have hpeak := hinv.le_peak
    have htwenty := hinv.peak_le
    rcases held_of_acquire hstep with ⟨pObj, hheld⟩
    rw [List.length_append, hheld, List.length_cons] at hpeak
    unfold Bounded at hbounded
    apply List.eq_nil_of_length_eq_zero
    omega
  · have hstart : Single start := ⟨by decide, by decide⟩
    refine always_of_eachStep (fun _ _ _ h hc hstep => step_single h hc hstep) ?_ hstart
    intro s h
    have htwenty := h.le_twenty
    unfold Bounded
    omega

/-- For every sequence of calls: after every call the created objects are exactly those
held and those free, if and only if {lit}`acquire` is never called; the number of created
objects never exceeds the greatest number held at once by more than twenty, if and only
if {lit}`acquire` is only called when nothing is held; and a call loses no object, if and
only if it is a release or finds exactly one object free. -/
theorem conservation_iff (calls : List Call) :
    (Always step Conserved start calls ↔
      EachStep step (fun _ c => c ≠ .acquire) start calls) ∧
    (Always step Bounded start calls ↔
      EachStep step (fun s c => c = .acquire → s.held = []) start calls) ∧
    ∀ s c s', run step start calls = some s → step s c = some s' →
      (lost s' = lost s ↔ (c = .acquire → s.pool.objList.length = 1)) := by
  refine ⟨always_conserved_iff calls, always_bounded_iff calls, ?_⟩
  intro s c s' hrun hstep
  exact step_lost_iff (run_invariant (fun _ _ _ h hs => step_inv h hs) start_inv hrun) hstep

/-- The first call of {lit}`acquire` leaves one of twenty objects in reach, and after two
calls forty objects were created for the two that are held. -/
theorem acquire_forgets_nineteen :
    (∃ s, run step start [.acquire] = some s ∧ s.held = [19] ∧ s.pool.objList = [] ∧
      s.pool.created = 20 ∧ ¬Conserved s) ∧
    ∃ s, run step start [.acquire, .acquire] = some s ∧ s.peak = 2 ∧ s.pool.created = 40 ∧
      ¬Bounded s := by
  constructor
  · have hrun : run step start [.acquire] = some ⟨⟨[], 20⟩, [19], 1⟩ := by decide
    refine ⟨_, hrun, rfl, rfl, rfl, ?_⟩
    intro hconserved
    have hlength := hconserved.length_eq
    simp at hlength
  · have hrun : run step start [.acquire, .acquire] = some ⟨⟨[], 40⟩, [39, 19], 2⟩ := by
      decide
    refine ⟨_, hrun, rfl, rfl, ?_⟩
    unfold Bounded
    decide

end Sequential
end ObjectPool
end TinyNet
