import TinyNet.SPSCQueue.Invariant

/-!
# What the unbounded queue does with elements and nodes

Main results:

- Theorem {lit}`tryDequeue_fifo`: elements come out in the order in which they went in, and
  {lit}`try_dequeue` returns false only if all have come out.
- Theorem {lit}`recycled_unreachable`: a node that is used again cannot be reached from
  {lit}`tail_`, where the list holds the elements in the queue and no others.
- Theorem {lit}`nodes_bounded`: the queue makes no more nodes than its greatest load and its
  preallocation need.
- Theorem {lit}`destroy_deletes_all`: the destructor deletes every node once.
-/

namespace TinyNet
namespace SPSCQueue

open Library.LinkedList
open Library.StepSystem

variable {α : Type} {next : Nat → Option Nat} {value : Nat → α}

/-! ## The order of the elements -/

/-- Along every run of one producer and one consumer, what {lit}`try_dequeue` has returned
is a beginning of what was enqueued, it returns false only if nothing is left, and neither
thread follows a null pointer. -/
theorem tryDequeue_fifo {acts : List (Action α)} {s : State α}
    (hrun : run step (create next value) acts = some s) :
    s.dequeued <+: s.enqueued ∧
    (∀ s', s.consumer = .loadNext → step s .consumer = some s' → s'.consumer = .idle →
      s.dequeued = s.enqueued) ∧
    (s.producer ≠ .idle → (step s .producer).isSome) ∧
    (s.consumer ≠ .idle → (step s .consumer).isSome) := by
  rcases run_inv hrun with ⟨cache, spare, live, h⟩
  refine ⟨⟨_, h.values⟩, ?_, ?_, ?_⟩
  · intro s' hpc hstep hidle
    simp only [step, consumerStep, hpc, h.next_tail, Option.some.injEq] at hstep
    subst hstep
    cases live with
    | nil => simpa using h.values
    | cons x live => cases hidle
  · intro hbusy
    rcases h.producerStep hbusy with ⟨s', hs', -⟩
    exact Option.isSome_iff_exists.mpr ⟨s', hs'⟩
  · intro hbusy
    rcases h.consumerStep hbusy with ⟨s', hs', -⟩
    exact Option.isSome_iff_exists.mpr ⟨s', hs'⟩

/-- The first element is dequeued while the second is on its way in; then the third takes
the node that the first has freed. -/
def reuse : List (Action Nat) :=
  enqueueCall 7 ++ [.enqueue 8, .producer, .producer, .producer] ++ dequeueCall ++
    List.replicate 5 .producer ++ [.enqueue 9, .producer, .producer, .producer, .producer]

theorem tryDequeue_fifo_reuse :
    ∃ s, run step (create (fun _ => none) (fun _ => 0)) reuse = some s ∧
      s.dequeued = [7] ∧ s.enqueued = [7, 8] ∧ s.dequeued <+: s.enqueued := by
  have hrun : (run step (create (fun _ => none) (fun _ => 0)) reuse).map
      (fun s => (s.dequeued, s.enqueued)) = some ([7], [7, 8]) := by
    decide
  rcases Option.map_eq_some_iff.mp hrun with ⟨s, hs, heq⟩
  simp only [Prod.mk.injEq] at heq
  exact ⟨s, hs, heq.1, heq.2, (tryDequeue_fifo hs).1⟩

/-! ## The nodes -/

/-- Along every run, the list from {lit}`tail_` on is that of the elements in the queue, and
the node that the producer fills, new or used, is not part of it. -/
theorem recycled_unreachable {acts : List (Action α)} {s : State α}
    (hrun : run step (create next value) acts = some s) :
    ∃ live, Chain s.next (some s.tail) (s.tail :: live) ∧
      s.dequeued ++ live.map s.value = s.enqueued ∧
      ∀ n, s.producer.prepared = some n → n ∉ s.tail :: live := by
  rcases run_inv hrun with ⟨cache, spare, live, h⟩
  refine ⟨live, ?_, h.values, ?_⟩
  · have hchain := h.chain
    rw [← List.append_assoc] at hchain
    exact hchain.of_append
  · intro n hn hmem
    exact h.prepared_notMem hn
      (List.mem_append_right cache (List.mem_append_right spare hmem))

/-- The producer fills node 0 again while the queue holds the second element. -/
theorem recycled_unreachable_reuse :
    ∃ s, run step (create (fun _ => none) (fun _ => 0)) reuse = some s ∧
      s.producer.prepared = some 0 ∧
      ∃ live, Chain s.next (some s.tail) (s.tail :: live) ∧
        s.dequeued ++ live.map s.value = s.enqueued ∧ 0 ∉ s.tail :: live := by
  have hrun : (run step (create (fun _ => none) (fun _ => 0)) reuse).map
      (fun s => s.producer.prepared) = some (some 0) := by
    decide
  rcases Option.map_eq_some_iff.mp hrun with ⟨s, hs, heq⟩
  rcases recycled_unreachable hs with ⟨live, hchain, hvalues, hfree⟩
  exact ⟨s, hs, heq, live, hchain, hvalues, hfree 0 heq⟩

/-- The destructor's loop deletes the nodes of the chain. -/
theorem deleteFrom_of_chain {l : List Nat} {fuel n : Nat} (h : Chain next (some n) l)
    (hfuel : l.length ≤ fuel) : deleteFrom next fuel n = some l := by
  induction l generalizing fuel n with
  | nil => cases h
  | cons x l ih =>
      obtain rfl : n = x := Option.some.inj h.head_eq
      cases fuel with
      | zero => simp at hfuel
      | succ fuel =>
          have hrest := h.rest
          cases hn : next n with
          | none =>
              rw [hn] at hrest
              cases hrest
              simp [deleteFrom, hn]
          | some n' =>
              rw [hn] at hrest
              simp [deleteFrom, hn, ih hrest (Nat.le_of_succ_le_succ hfuel)]

/-- After every run that leaves the producer between two calls, the destructor deletes each
node that {lit}`new` has made, and each only once. -/
theorem destroy_deletes_all {acts : List (Action α)} {s : State α}
    (hrun : run step (create next value) acts = some s) (hidle : s.producer = .idle) :
    ∃ deleted, destroy s s.allocated = some deleted ∧
      deleted.Perm (List.range s.allocated) := by
  rcases run_inv hrun with ⟨cache, spare, live, h⟩
  have hnodes := h.nodes
  rw [hidle] at hnodes
  refine ⟨_, deleteFrom_of_chain h.chain ?_, hnodes⟩
  rw [← List.length_range (n := s.allocated)]
  exact hnodes.length_eq.le

theorem destroy_deletes_all_two :
    ∃ s, run step (create (fun _ => none) (fun _ => 0)) (enqueueCall 7 ++ dequeueCall) =
        some s ∧
      ∃ deleted, destroy s s.allocated = some deleted ∧
        deleted.Perm (List.range s.allocated) := by
  have hrun : (run step (create (fun _ => none) (fun _ => 0))
      (enqueueCall 7 ++ dequeueCall)).map (fun s => s.producer) = some .idle := by
    decide
  rcases Option.map_eq_some_iff.mp hrun with ⟨s, hs, hidle⟩
  exact ⟨s, hs, destroy_deletes_all hs hidle⟩

/-! ## The number of nodes -/

/-- {lit}`m + 1` nodes are enough, and if the producer is about to make one there are at
most {lit}`m`. -/
def Enough (m : Nat) (s : State α) : Prop :=
  s.allocated ≤ m + 1 ∧
    match s.producer with
    | .retest _ => s.first = s.tailCopy → s.allocated ≤ m
    | .newNode _ => s.allocated ≤ m
    | _ => True

/-- If the producer finds no used node, the nodes are {lit}`tail_` and those of the elements
in the queue. -/
theorem Shape.allocated_le_load {s : State α} {cache spare live : List Nat} {v : α}
    (h : Shape s cache spare live) (hpc : s.producer = .loadTail v)
    (hfirst : s.first = s.tail) : s.allocated ≤ s.load := by
  have hloaded := h.loadTail hpc
  have hspare : spare = [] := by
    by_contra hne
    exact hloaded.first_ne_tailCopy.mpr hne hfirst
  have hnodes := hloaded.nodes.length_eq
  have hvalues := congrArg List.length h.values
  simp only [hspare, Producer.prepared, Option.toList_none, List.nil_append,
    List.length_cons, List.length_range] at hnodes
  rw [List.length_append, List.length_map] at hvalues
  simp only [State.load, hpc]
  omega

theorem producerStep_enough {m : Nat} {s s' : State α} (hinv : Inv s) (hload : s.load ≤ m)
    (h : Enough m s) (hstep : producerStep s = some s') : Enough m s' := by
  rcases h with ⟨hle, hpcOk⟩
  cases hpc : s.producer with
  | idle => simp [producerStep, hpc] at hstep
  | loadTail v =>
      simp only [producerStep, hpc, Option.some.injEq] at hstep
      subst hstep
      rcases hinv with ⟨cache, spare, live, hshape⟩
      exact ⟨hle, fun hfirst => (hshape.allocated_le_load hpc hfirst).trans hload⟩
  | retest v =>
      simp only [producerStep, hpc, Option.some.injEq] at hstep
      rw [hpc] at hpcOk
      subst hstep
      refine ⟨hle, ?_⟩
      by_cases hne : s.first ≠ s.tailCopy
      · simp [hne]
      · simpa [hne] using hpcOk (not_not.mp hne)
  | newNode v =>
      simp only [producerStep, hpc, Option.some.injEq] at hstep
      rw [hpc] at hpcOk
      subst hstep
      exact ⟨Nat.succ_le_succ hpcOk, trivial⟩
  | allocNode v =>
      simp only [producerStep, hpc, Option.some.injEq] at hstep
      subst hstep
      refine ⟨hle, ?_⟩
      by_cases hne : s.first ≠ s.tailCopy <;> simp [hne]
  | take v =>
      simp only [producerStep, hpc, Option.map_eq_some_iff] at hstep
      rcases hstep with ⟨n, -, rfl⟩
      exact ⟨hle, trivial⟩
  | clearNext n v =>
      simp only [producerStep, hpc, Option.some.injEq] at hstep
      subst hstep
      exact ⟨hle, trivial⟩
  | writeValue n v =>
      simp only [producerStep, hpc, Option.some.injEq] at hstep
      subst hstep
      exact ⟨hle, trivial⟩
  | publish n v =>
      simp only [producerStep, hpc, Option.some.injEq] at hstep
      subst hstep
      exact ⟨hle, trivial⟩
  | moveHead n =>
      simp only [producerStep, hpc, Option.some.injEq] at hstep
      subst hstep
      exact ⟨hle, trivial⟩

/-- Neither the consumer's steps nor a call make a node or change what the producer knows
of them. -/
theorem consumerStep_eq {s s' : State α} (hstep : consumerStep s = some s') :
    s'.allocated = s.allocated ∧ s'.producer = s.producer ∧ s'.first = s.first ∧
      s'.tailCopy = s.tailCopy ∧ s'.enqueued = s.enqueued := by
  cases hpc : s.consumer with
  | idle => simp [consumerStep, hpc] at hstep
  | loadNext =>
      simp only [consumerStep, hpc, Option.some.injEq] at hstep
      subst hstep
      exact ⟨rfl, rfl, rfl, rfl, rfl⟩
  | readValue =>
      simp only [consumerStep, hpc, Option.map_eq_some_iff] at hstep
      rcases hstep with ⟨n, -, rfl⟩
      exact ⟨rfl, rfl, rfl, rfl, rfl⟩
  | moveTail v =>
      simp only [consumerStep, hpc, Option.map_eq_some_iff] at hstep
      rcases hstep with ⟨n, -, rfl⟩
      exact ⟨rfl, rfl, rfl, rfl, rfl⟩

theorem step_enough {m : Nat} {s s' : State α} {a : Action α} (hinv : Inv s)
    (hload : s.load ≤ m) (h : Enough m s) (hstep : step s a = some s') : Enough m s' := by
  cases a with
  | enqueue v =>
      cases hpc : s.producer <;> simp only [step, hpc, reduceCtorEq] at hstep
      cases hstep
      exact ⟨h.1, trivial⟩
  | tryDequeue =>
      cases hpc : s.consumer <;> simp only [step, hpc, reduceCtorEq] at hstep
      cases hstep
      exact h
  | producer => exact producerStep_enough hinv hload h hstep
  | consumer =>
      rcases consumerStep_eq hstep with ⟨hallocated, hproducer, hfirst, htailCopy, -⟩
      unfold Enough
      rw [hallocated, hproducer, hfirst, htailCopy]
      exact h

/-- A node that is made stays. -/
theorem step_allocated_le {s s' : State α} {a : Action α} (hstep : step s a = some s') :
    s.allocated ≤ s'.allocated := by
  cases a with
  | enqueue v =>
      cases hpc : s.producer <;> simp only [step, hpc, reduceCtorEq] at hstep
      cases hstep
      exact le_rfl
  | tryDequeue =>
      cases hpc : s.consumer <;> simp only [step, hpc, reduceCtorEq] at hstep
      cases hstep
      exact le_rfl
  | producer =>
      cases hpc : s.producer <;>
        simp only [step, producerStep, hpc, Option.map_eq_some_iff, Option.some.injEq,
          reduceCtorEq] at hstep
      case take v =>
        rcases hstep with ⟨n, -, rfl⟩
        exact le_rfl
      all_goals
        subst hstep
        simp
  | consumer => exact (consumerStep_eq hstep).1.ge

/-! ## Preallocation -/

/-- {lit}`enqueue` of a queue from which nothing was ever dequeued makes a node. -/
theorem run_enqueueCall {s : State α} (v : α) (hidle : s.producer = .idle)
    (hfirst : s.first = s.tail) (hcopy : s.tailCopy = s.tail) :
    ∃ s', run step s (enqueueCall v) = some s' ∧ s'.producer = .idle ∧
      s'.first = s'.tail ∧ s'.tailCopy = s'.tail ∧ s'.consumer = s.consumer ∧
      s'.allocated = s.allocated + 1 ∧ s'.enqueued = s.enqueued ++ [v] ∧
      s'.dequeued = s.dequeued := by
  simp [enqueueCall, List.replicate, run_cons, step, producerStep, hidle, hfirst, hcopy]

/-- So do {lit}`prealloc` calls in a row. -/
theorem run_enqueueCalls {s : State α} (v : α) (prealloc : Nat) (hidle : s.producer = .idle)
    (hfirst : s.first = s.tail) (hcopy : s.tailCopy = s.tail) :
    ∃ s', run step s (List.replicate prealloc (enqueueCall v)).flatten = some s' ∧
      s'.producer = .idle ∧ s'.consumer = s.consumer ∧
      s'.allocated = s.allocated + prealloc ∧
      s'.enqueued.length = s.enqueued.length + prealloc ∧ s'.dequeued = s.dequeued := by
  induction prealloc generalizing s with
  | zero => exact ⟨s, rfl, hidle, rfl, rfl, rfl, rfl⟩
  | succ k ih =>
      rcases run_enqueueCall v hidle hfirst hcopy with
        ⟨t, ht, hidle', hfirst', hcopy', hconsumer, hallocated, henqueued, hdequeued⟩
      rcases ih hidle' hfirst' hcopy' with ⟨s', hs', hpc, hc, ha, he, hd⟩
      refine ⟨s', ?_, hpc, hc.trans hconsumer, ?_, ?_, hd.trans hdequeued⟩
      · rw [List.replicate_succ, List.flatten_cons, run_append, ht]
        exact hs'
      · omega
      · rw [he, henqueued, List.length_append, List.length_singleton]
        omega

/-- {lit}`try_dequeue` of a queue with elements in it returns one. -/
theorem run_dequeueCall {s : State α} (hinv : Inv s) (hidle : s.consumer = .idle)
    (hsome : s.dequeued.length < s.enqueued.length) :
    ∃ s', run step s dequeueCall = some s' ∧ s'.consumer = .idle ∧
      s'.producer = s.producer ∧ s'.allocated = s.allocated ∧ s'.enqueued = s.enqueued ∧
      s'.dequeued.length = s.dequeued.length + 1 := by
  rcases hinv with ⟨cache, spare, live, h⟩
  have hvalues := congrArg List.length h.values
  rw [List.length_append, List.length_map] at hvalues
  cases live with
  | nil => simp at hvalues; omega
  | cons x live =>
      have hnext := h.next_tail
      rw [List.head?_cons] at hnext
      simp [dequeueCall, List.replicate, run_cons, step, consumerStep, hidle, hnext]

/-- So do as many calls in a row as there are elements. -/
theorem run_dequeueCalls {s : State α} (prealloc : Nat) (hinv : Inv s)
    (hidle : s.consumer = .idle)
    (hlength : s.enqueued.length = s.dequeued.length + prealloc) :
    ∃ s', run step s (List.replicate prealloc dequeueCall).flatten = some s' ∧
      s'.consumer = .idle ∧ s'.producer = s.producer ∧ s'.allocated = s.allocated ∧
      s'.enqueued.length = s'.dequeued.length := by
  induction prealloc generalizing s with
  | zero => exact ⟨s, rfl, hidle, rfl, rfl, hlength⟩
  | succ k ih =>
      rcases run_dequeueCall hinv hidle (by omega) with
        ⟨t, ht, hidle', hproducer, hallocated, henqueued, hdequeued⟩
      have hinv' : Inv t := run_invariant (fun _ _ _ => step_inv) hinv ht
      rcases ih hinv' hidle' (by rw [henqueued]; omega) with ⟨s', hs', hc, hpc, ha, he⟩
      refine ⟨s', ?_, hc, hpc.trans hproducer, ha.trans hallocated, he⟩
      rw [List.replicate_succ, List.flatten_cons, run_append, ht]
      exact hs'

/-- {lit}`SPSCQueue(prealloc)` ends, with an empty queue and {lit}`prealloc + 1` nodes. -/
theorem run_preallocate (next : Nat → Option Nat) (value : Nat → α) (prealloc : Nat)
    (dummy : α) :
    ∃ s, run step (create next value) (preallocate prealloc dummy) = some s ∧
      s.producer = .idle ∧ s.consumer = .idle ∧ s.allocated = prealloc + 1 ∧
      s.enqueued.length = s.dequeued.length := by
  rcases run_enqueueCalls (s := create next value) dummy prealloc rfl rfl rfl with
    ⟨t, ht, hproducer, hconsumer, hallocated, henqueued, hdequeued⟩
  rcases run_dequeueCalls prealloc (run_inv ht) hconsumer (by rw [henqueued, hdequeued]; rfl)
    with ⟨s, hs, hc, hp, ha, he⟩
  refine ⟨s, ?_, hp.trans hproducer, hc, ?_, he⟩
  · rw [preallocate, run_append, ht]
    exact hs
  · rw [ha, hallocated]
    exact Nat.add_comm 1 prealloc

/-- {lit}`SPSCQueue(prealloc)` succeeds.  If at no step of a run that follows more than
{lit}`m` elements are in the queue or in {lit}`enqueue`, the nodes are those of the
preallocation or, if {lit}`m` is greater, {lit}`m + 1` at most.  So a queue that is never
fuller than its preallocation makes no node. -/
theorem nodes_bounded (next : Nat → Option Nat) (value : Nat → α) (prealloc m : Nat)
    (dummy : α) :
    ∃ s, run step (create next value) (preallocate prealloc dummy) = some s ∧
      ∀ acts s', run step s acts = some s' → EachStep step (fun t _ => t.load ≤ m) s acts →
        prealloc + 1 ≤ s'.allocated ∧ s'.allocated ≤ max prealloc m + 1 := by
  rcases run_preallocate next value prealloc dummy with ⟨s, hs, hproducer, -, hallocated, -⟩
  refine ⟨s, hs, fun acts s' hrun hload => ?_⟩
  have hkeep : ∀ (t : State α) (a : Action α) (t' : State α),
      (Inv t ∧ s.allocated ≤ t.allocated ∧ Enough (max prealloc m) t) → t.load ≤ m →
      step t a = some t' →
      Inv t' ∧ s.allocated ≤ t'.allocated ∧ Enough (max prealloc m) t' := by
    intro t a t' ⟨hinv, hle, henough⟩ hm hstep
    exact ⟨step_inv hinv hstep, hle.trans (step_allocated_le hstep),
      step_enough hinv (hm.trans (le_max_right _ _)) henough hstep⟩
  have hstart : Enough (max prealloc m) s := by
    rw [Enough, hproducer, hallocated]
    exact ⟨Nat.succ_le_succ (le_max_left _ _), trivial⟩
  have hend := run_invariant_of_eachStep hkeep ⟨run_inv hs, le_rfl, hstart⟩ hload hrun
  rw [hallocated] at hend
  exact ⟨hend.2.1, hend.2.2.1⟩

/-- With one node in reserve an element goes through the queue and no node is made. -/
theorem nodes_bounded_one :
    ∃ s s', run step (create (fun _ => none) (fun _ => 0)) (preallocate 1 0) = some s ∧
      run step s (enqueueCall 7 ++ dequeueCall) = some s' ∧ s'.allocated = 2 := by
  rcases nodes_bounded (fun _ => none) (fun _ => 0) 1 1 0 with ⟨s, hs, hbound⟩
  have hrun : (run step (create (fun _ => none) (fun _ => 0)) (preallocate 1 0)).map
      (fun s => ((run step s (enqueueCall 7 ++ dequeueCall)).isSome,
        checkSteps step (fun t _ => decide (t.load ≤ 1)) s
          (enqueueCall 7 ++ dequeueCall))) = some (true, true) := by
    decide +kernel
  rw [hs, Option.map_some, Option.some.injEq, Prod.mk.injEq] at hrun
  rcases Option.isSome_iff_exists.mp hrun.1 with ⟨s', hs'⟩
  have hload : EachStep step (fun t _ => t.load ≤ 1) s (enqueueCall 7 ++ dequeueCall) :=
    eachStep_of_checkSteps (fun _ _ h => of_decide_eq_true h) hrun.2
  rcases hbound _ s' hs' hload with ⟨hlow, hhigh⟩
  exact ⟨s, s', hs, hs', by omega⟩

end SPSCQueue
end TinyNet
