import TinyNet.ObjectPool.Linearization

/-!
# Every call takes effect once

The events of a run are what its callers see of the list.  This file relates them to the
calls: the values that the events of a thread insert are those with which the thread called
{lit}`insertHead`, in the order of its calls, except for that of a call under way, whose
exchange has not succeeded yet.  So no call is given up, and none takes effect twice.

Main results:

- Theorem {lit}`step_calls`: a step inserts the value of a call under way, or leaves it to be
  inserted.
- Theorem {lit}`run_linearizes`: every run of the threads is, event by event, a run of the
  list with atomic operations, and each call of {lit}`insertHead` is one event.
- Theorem {lit}`run_visits_all`: once the list is empty and no call is under way, every
  value that {lit}`insertHead` was called with has been visited, as often as it was called.
-/

namespace TinyNet
namespace AtomicLinkedList

open Library.StepSystem

universe u

variable {A : Type u} {n : Nat}

/-! ## Calls and events -/

/-- The value with which an action calls {lit}`insertHead`. -/
def called : Action n A → Option A
  | .insertHead _ data _ => some data
  | .sweep _ => none
  | .advance _ _ => none

/-- The value with which an action of the thread {lit}`i` calls {lit}`insertHead`. -/
def calledBy (i : Fin n) : Action n A → Option A
  | .insertHead j data _ => if j = i then some data else none
  | .sweep _ => none
  | .advance _ _ => none

/-- The value that an event of the thread {lit}`i` inserts. -/
def insertedBy (i : Fin n) : Event n A → Option A
  | .insert j data => if j = i then some data else none
  | .take _ => none
  | .visit _ _ => none

/-- The thread that takes a step. -/
def Action.thread : Action n A → Fin n
  | .insertHead i _ _ => i
  | .sweep i => i
  | .advance i _ => i

/-- The wrapper that a call of {lit}`insertHead` has still to insert. -/
def ThreadPc.inserting : ThreadPc → Option Nat
  | .load t => some t
  | .link t _ => some t
  | .compareExchange t _ => some t
  | _ => none

/-- The value that the thread {lit}`i` has still to insert. -/
def State.inserting (s : State n A) (i : Fin n) : List A :=
  ((s.pcs i).inserting.bind (data s.heap)).toList

section Steps

variable {s s' : State n A} {c : Spec n A} {owns : Option (Fin n) → List Nat}
variable {a : Action n A} {i j : Fin n} {t : Nat}

theorem inserting_eq {pc : ThreadPc} (hpc : s.pcs i = pc) :
    s.inserting i = (pc.inserting.bind (data s.heap)).toList := by
  rw [State.inserting, hpc]

@[simp]
theorem inserting_setPc (s : State n A) (i : Fin n) (pc : ThreadPc) :
    (s.setPc i pc).inserting i = (pc.inserting.bind (data s.heap)).toList :=
  inserting_eq (Function.update_self ..)

/-- The wrapper that a thread has still to insert belongs to it. -/
theorem Refines.mem_of_inserting (h : Refines s c owns)
    (ht : (s.pcs i).inserting = some t) : t ∈ owns (some i) := by
  have hown := h.pcs i
  cases hpc : s.pcs i <;> rw [hpc] at ht hown <;> cases ht
  · simp [hown.1]
  · simp [hown.1]
  · simp [hown.1]

/-- A thread that is in the loop of {lit}`sweep` writes wrappers of its own. -/
theorem PcInv.mem_of_reverse {heap : Nat → Option (Wrapper A)} {rhead : Option Nat}
    {l : List Nat} {xs : List A} (h : PcInv heap (.reverse (some t) rhead) l xs) : t ∈ l := by
  rcases h.1 with ⟨a, b, ha, -, rfl⟩
  cases ha
  simp

theorem PcInv.mem_of_unlinkAll {heap : Nat → Option (Wrapper A)} {l : List Nat} {xs : List A}
    (h : PcInv heap (.unlinkAll (some t)) l xs) : t ∈ l := by
  cases h.1
  simp

/-- A step leaves the wrappers of the other threads. -/
theorem Refines.heap_of_ne (h : Refines s c owns) (hstep : step s a = some s')
    (hj : j ≠ a.thread) (ht : t ∈ owns (some j)) : s'.heap t = s.heap t := by
  have hused := h.separated.used_of_mem (some j) t ht
  -- what the thread writes is its own, or did not exist
  have hother : ∀ {t'}, t' ∈ owns (some a.thread) → t ≠ t' := by
    rintro t' ht' rfl
    have heq := h.separated.eq_of_mem _ _ t ht ht'
    exact hj (Option.some.inj heq)
  have hcase := step_cases hstep
  generalize event s a = e at hcase
  cases hcase with
  | insertHead i data t' pc_eq fresh =>
      refine Function.update_of_ne ?_ ..
      rintro rfl
      simp [fresh] at hused
  | link i _ t' oldHead w pc_eq heap_eq =>
      have hown := h.pcs i
      rw [pc_eq] at hown
      exact Function.update_of_ne (hother (by simp [Action.thread, hown.1])) ..
  | reverse i _ t' rhead w pc_eq heap_eq =>
      have hown := h.pcs i
      rw [pc_eq] at hown
      exact Function.update_of_ne (hother hown.mem_of_reverse) ..
  | visit i _ t' w pc_eq heap_eq =>
      have hown := h.pcs i
      rw [pc_eq] at hown
      exact Function.update_of_ne (hother hown.mem_of_unlinkAll) ..
  | sweep | load | insert | retry | take | finish | reversed | visited => rfl

/-- A step leaves the places of the other threads. -/
theorem pcs_of_ne (hstep : step s a = some s') (hj : j ≠ a.thread) : s'.pcs j = s.pcs j := by
  have hcase := step_cases hstep
  generalize event s a = e at hcase
  cases hcase <;> exact Function.update_of_ne hj ..

/-- The event of a step is one of the thread that takes it. -/
theorem insertedBy_of_ne (hj : j ≠ a.thread) : (event s a).bind (insertedBy j) = none := by
  rw [Option.bind_eq_none_iff]
  intro e he
  cases a with
  | insertHead | sweep => contradiction
  | advance i spurious =>
      have hne : i ≠ j := hj.symm
      simp only [event] at he
      split at he
      · split at he
        · rcases Option.map_eq_some_iff.mp he with ⟨w, -, rfl⟩
          simp [insertedBy, hne]
        · contradiction
      · split at he
        · contradiction
        · cases he
          rfl
      · rcases Option.map_eq_some_iff.mp he with ⟨w, -, rfl⟩
        rfl
      · contradiction

theorem calledBy_of_ne (hj : j ≠ a.thread) : calledBy j a = none := by
  cases a with
  | insertHead i data t => exact if_neg fun heq => hj heq.symm
  | sweep i => rfl
  | advance i spurious => rfl

/-- The values that a thread has still to insert, when it takes a step itself. -/
theorem Refines.inserting_thread (h : Refines s c owns) (hstep : step s a = some s') :
    ((event s a).bind (insertedBy a.thread)).toList ++ s'.inserting a.thread =
      s.inserting a.thread ++ (calledBy a.thread a).toList := by
  have hcase := step_cases hstep
  generalize event s a = e at hcase ⊢
  cases hcase with
  | insertHead i data t pc_eq fresh =>
      simp [Action.thread, calledBy, inserting_eq pc_eq, ThreadPc.inserting, State.setWrapper,
        AtomicLinkedList.data]
  | sweep i pc_eq =>
      simp [Action.thread, calledBy, inserting_eq pc_eq, ThreadPc.inserting]
  | load i _ t pc_eq =>
      simp [Action.thread, calledBy, inserting_eq pc_eq, ThreadPc.inserting]
  | link i _ t oldHead w pc_eq heap_eq =>
      simp [Action.thread, calledBy, inserting_eq pc_eq, ThreadPc.inserting, State.link,
        State.setWrapper, data, heap_eq]
  | insert i _ t pc_eq =>
      have hmem : t ∈ owns (some i) := h.mem_of_inserting (by rw [pc_eq]; rfl)
      rcases h.exists_wrapper hmem with ⟨w, hw⟩
      simp [Action.thread, calledBy, inserting_eq pc_eq, ThreadPc.inserting, insertedBy, data,
        hw]
  | retry i _ t oldHead pc_eq =>
      simp [Action.thread, calledBy, inserting_eq pc_eq, ThreadPc.inserting]
  | take i _ pc_eq ne =>
      simp [Action.thread, calledBy, inserting_eq pc_eq, ThreadPc.inserting, insertedBy]
  | finish i _ pc_eq =>
      simp [Action.thread, calledBy, inserting_eq pc_eq, ThreadPc.inserting]
  | reverse i _ t rhead w pc_eq heap_eq =>
      simp [Action.thread, calledBy, inserting_eq pc_eq, ThreadPc.inserting, State.reverse]
  | reversed i _ rhead pc_eq =>
      simp [Action.thread, calledBy, inserting_eq pc_eq, ThreadPc.inserting]
  | visit i _ t w pc_eq heap_eq =>
      simp [Action.thread, calledBy, inserting_eq pc_eq, ThreadPc.inserting, insertedBy,
        State.unlink]
  | visited i _ pc_eq =>
      simp [Action.thread, calledBy, inserting_eq pc_eq, ThreadPc.inserting]

/-- A step inserts the value of a call under way, or leaves it to be inserted. -/
theorem step_calls (h : Refines s c owns) (hstep : step s a = some s') (j : Fin n) :
    ((event s a).bind (insertedBy j)).toList ++ s'.inserting j =
      s.inserting j ++ (calledBy j a).toList := by
  rcases eq_or_ne j a.thread with rfl | hj
  · exact h.inserting_thread hstep
  · have hsame : s'.inserting j = s.inserting j := by
      rw [State.inserting, State.inserting, pcs_of_ne hstep hj]
      cases ht : (s.pcs j).inserting with
      | none => rfl
      | some t =>
          rw [Option.bind_some, Option.bind_some, data, data,
            h.heap_of_ne hstep hj (h.mem_of_inserting ht)]
    rw [insertedBy_of_ne hj, calledBy_of_ne hj, hsame]
    simp

/-- Along a run a thread inserts the values of its calls, in their order, except for a call
under way. -/
theorem run_calls [DecidableEq A] {as : List (Action n A)} (h : ∃ c owns, Refines s c owns)
    (hrun : run step s as = some s') (j : Fin n) :
    (trace step event s as).filterMap (insertedBy j) ++ s'.inserting j =
      s.inserting j ++ as.filterMap (calledBy j) := by
  induction as generalizing s with
  | nil =>
      cases hrun
      simp [trace]
  | cons a as ih =>
      rw [run_cons, Option.bind_eq_some_iff] at hrun
      rcases hrun with ⟨s₁, hs₁, hrest⟩
      rcases h with ⟨c, owns, h⟩
      rcases step_refines ⟨owns, h⟩ hs₁ with ⟨c₁, -, owns₁, h₁⟩
      have hfirst := step_calls h hs₁ j
      have hlater := ih ⟨c₁, owns₁, h₁⟩ hrest
      have htrace : (trace step event s (a :: as)).filterMap (insertedBy j) =
          ((event s a).bind (insertedBy j)).toList ++
            (trace step event s₁ as).filterMap (insertedBy j) := by
        rw [trace, hs₁, List.filterMap_append]
        cases event s a with
        | none => rfl
        | some e => cases he : insertedBy j e <;> simp [he]
      have hcalls : (a :: as).filterMap (calledBy j) =
          (calledBy j a).toList ++ as.filterMap (calledBy j) := by
        rw [List.filterMap_cons]
        cases calledBy j a <;> rfl
      rw [htrace, hcalls, List.append_assoc, hlater, ← List.append_assoc, hfirst,
        List.append_assoc]

end Steps

/-! ## All threads together -/

section Counting

variable [DecidableEq A]

/-- What all threads add together. -/
theorem count_filterMap_sum {E : Type*} {f : E → Option A} {g : Fin n → E → Option A}
    (h : ∀ e x, (f e).toList.count x = ∑ i, (g i e).toList.count x) (es : List E) (x : A) :
    (es.filterMap f).count x = ∑ i, (es.filterMap (g i)).count x := by
  induction es with
  | nil => simp
  | cons e es ih =>
      simp only [count_filterMap_cons, Finset.sum_add_distrib]
      rw [h, ih]

/-- A value that one of the threads adds. -/
theorem count_of_thread (j : Fin n) (data x : A) :
    [data].count x =
      ∑ i, (if j = i then some data else none : Option A).toList.count x := by
  rw [Finset.sum_eq_single j]
  · simp
  · intro i _ hne
    simp [hne.symm]
  · simp

/-- If every thread has inserted the values of its calls, then so have all together. -/
theorem inserted_perm_called {es : List (Event n A)} {as : List (Action n A)}
    (h : ∀ i, es.filterMap (insertedBy i) = as.filterMap (calledBy i)) :
    (es.filterMap inserted).Perm (as.filterMap called) := by
  rw [List.perm_iff_count]
  intro x
  rw [count_filterMap_sum (g := insertedBy), count_filterMap_sum (g := calledBy)]
  · simp only [h]
  · intro a x
    cases a with
    | insertHead j data t => exact count_of_thread j data x
    | sweep | advance => simp [called, calledBy]
  · intro e x
    cases e with
    | insert j data => exact count_of_thread j data x
    | take | visit => simp [inserted, insertedBy]

end Counting

/-! ## Whole runs -/

/-- Every run of the threads is, event by event, a run of the list with atomic operations.
The head is null exactly if that list is empty, and a thread outside of a call has visited
all that it took.  The values that a thread inserts are those with which it called
{lit}`insertHead`, in the order of the calls; that of a call under way may be missing. -/
theorem run_linearizes [DecidableEq A] {as : List (Action n A)} {s : State n A}
    (h : run step start as = some s) :
    (∃ c, run Spec.step Spec.start (trace step event start as) = some c ∧
      (s.head = none ↔ c.items = []) ∧ ∀ i, s.pcs i = .idle → c.taken i = []) ∧
    ∀ i, as.filterMap (calledBy i) =
      (trace step event start as).filterMap (insertedBy i) ++ s.inserting i := by
  rcases run_refines h with ⟨c, hrun, owns, hrefines⟩
  refine ⟨⟨c, hrun, hrefines.head_eq_none_iff, fun _ => hrefines.taken_eq_nil⟩, ?_⟩
  intro i
  rw [run_calls ⟨_, _, start_refines⟩ h i]
  rfl

/-- The exchange of one thread fails because another one has inserted meanwhile; then that one
sweeps the list, and a value is inserted between its two exchanges. -/
def overlapping (i j : Fin n) : List (Action n Nat) :=
  [.insertHead i 7 0, .advance i false, .advance i false, .insertHead j 8 1,
    .advance j false, .advance j false, .advance j false, .advance i false,
    .advance i false, .advance i false, .sweep j, .advance j false, .insertHead i 9 2,
    .advance i false, .advance i false, .advance i false] ++
    List.replicate 12 (.advance j false)

/-- When the first thread is about to retry, its value is the one that is missing. -/
theorem run_linearizes_overlapping :
    ∃ s, run step start ((overlapping (0 : Fin 2) 1).take 8) = some s ∧
      trace step event start ((overlapping (0 : Fin 2) 1).take 8) = [.insert 1 8] ∧
      s.inserting 0 = [7] ∧
      (∃ c, run Spec.step Spec.start [.insert (1 : Fin 2) 8] = some c ∧
        (s.head = none ↔ c.items = []) ∧ ∀ i, s.pcs i = .idle → c.taken i = []) ∧
      ((overlapping (0 : Fin 2) 1).take 8).filterMap (calledBy 0) = [7] := by
  have hrun : run step start ((overlapping (0 : Fin 2) 1).take 8) = some _ := rfl
  rcases run_linearizes hrun with ⟨hspec, hcalls⟩
  exact ⟨_, hrun, rfl, rfl, hspec, hcalls 0⟩

/-- Once the list is empty and no call is under way, every call of {lit}`insertHead` has
inserted its value, and the values visited are those of the calls, each as often. -/
theorem run_visits_all [DecidableEq A] {as : List (Action n A)} {s : State n A}
    (h : run step start as = some s) (hidle : ∀ i, s.pcs i = .idle)
    (hempty : s.head = none) :
    (∀ i, (trace step event start as).filterMap (insertedBy i) =
      as.filterMap (calledBy i)) ∧
    ((trace step event start as).filterMap inserted).Perm (as.filterMap called) ∧
    ((trace step event start as).filterMap visited).Perm (as.filterMap called) := by
  rcases run_refines h with ⟨c, hrun, owns, hrefines⟩
  have hitems : c.items = [] := hrefines.head_eq_none_iff.mp hempty
  have htaken : ∀ i, c.taken i = [] := fun i => hrefines.taken_eq_nil (hidle i)
  have hcalls : ∀ i, (trace step event start as).filterMap (insertedBy i) =
      as.filterMap (calledBy i) := by
    intro i
    have hthread := run_calls ⟨_, _, start_refines⟩ h i
    rw [inserting_eq (hidle i)] at hthread
    simpa [ThreadPc.inserting, State.inserting, start] using hthread
  have hinserted := inserted_perm_called hcalls
  refine ⟨hcalls, hinserted, List.Perm.trans ?_ hinserted⟩
  rw [List.perm_iff_count]
  intro x
  have hcount := Spec.run_count hrun x
  simpa [Spec.count, Spec.start, hitems, htaken] using hcount

/-- The three values are visited by the second thread, the last one after it has been round
again. -/
theorem run_visits_all_overlapping :
    ∃ s, run step start (overlapping (0 : Fin 2) 1) = some s ∧ (∀ i, s.pcs i = .idle) ∧
      s.head = none ∧
      (trace step event start (overlapping (0 : Fin 2) 1)).filterMap visited = [8, 7, 9] ∧
      (overlapping (0 : Fin 2) 1).filterMap called = [7, 8, 9] ∧
      [8, 7, 9].Perm [7, 8, 9] := by
  have hend : (run step start (overlapping (0 : Fin 2) 1)).map
      (fun s => decide ((∀ i, s.pcs i = .idle) ∧ s.head = none)) = some true := by
    decide
  rcases Option.map_eq_some_iff.mp hend with ⟨s, hrun, hquiet⟩
  rcases of_decide_eq_true hquiet with ⟨hidle, hempty⟩
  exact ⟨s, hrun, hidle, hempty, rfl, rfl, (run_visits_all hrun hidle hempty).2.2⟩

end AtomicLinkedList
end TinyNet
