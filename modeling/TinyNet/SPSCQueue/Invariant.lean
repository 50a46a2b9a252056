import TinyNet.Library.LinkedList
import TinyNet.SPSCQueue.Model

/-!
# Where the nodes of the queue are

The nodes form one chain from {lit}`first_`: those that the producer knows to be used, those
that have been used since it last read {lit}`tail_`, the node {lit}`tail_`, and the nodes of
the elements in the queue.  At most one more node exists, which the producer prepares.

Main results:

- Theorem {lit}`step_inv`: every step keeps the nodes and the elements in order.
- Theorem {lit}`run_inv`: so does every run from a new queue.
-/

namespace TinyNet
namespace SPSCQueue

open Library.LinkedList
open Library.StepSystem

variable {α : Type}

/-! ## The invariant -/

/-- What the producer knows of the used nodes and of the node it prepares. -/
def ProducerOk (s : State α) (cache : List Nat) : Producer α → Prop
  | .take _ => cache ≠ []
  | .loadTail _ => cache = []
  | .newNode _ => cache = []
  | .writeValue n _ => s.next n = none
  | .publish n v => s.next n = none ∧ s.value n = v
  | _ => True

/-- What the consumer knows of the elements in the queue. -/
def ConsumerOk (s : State α) (live : List Nat) : Consumer α → Prop
  | .readValue => live ≠ []
  | .moveTail v => (live.map s.value).head? = some v
  | _ => True

/-- The last node of the chain; between the two stores that end {lit}`enqueue` it is ahead
of {lit}`head_`. -/
def Producer.last (head : Nat) : Producer α → Nat
  | .moveHead n => n
  | _ => head

/-- The chain is made of the nodes {lit}`cache` that are used, the nodes {lit}`spare` that
are used but not known to be, {lit}`tail_` and the nodes {lit}`live` of the elements. -/
structure Shape (s : State α) (cache spare live : List Nat) : Prop where
  chain : Chain s.next (some s.first) (cache ++ (spare ++ s.tail :: live))
  tailCopy : (spare ++ s.tail :: live).head? = some s.tailCopy
  last : (s.tail :: live).getLast? = some (s.producer.last s.head)
  values : s.dequeued ++ live.map s.value = s.enqueued
  nodes : (s.producer.prepared.toList ++ (cache ++ (spare ++ s.tail :: live))).Perm
    (List.range s.allocated)
  producer : ProducerOk s cache s.producer
  consumer : ConsumerOk s live s.consumer

/-- What holds between any two steps. -/
def Inv (s : State α) : Prop :=
  ∃ cache spare live, Shape s cache spare live

theorem create_inv (next : Nat → Option Nat) (value : Nat → α) : Inv (create next value) := by
  refine ⟨[], [], [], ?_, rfl, rfl, rfl, List.Perm.refl _, trivial, trivial⟩
  apply Chain.cons
  have hnext : (create next value).next (create next value).first = none :=
    Function.update_self (β := fun _ => Option Nat) 0 none next
  rw [hnext]
  exact Chain.nil

namespace Shape

variable {s s' : State α} {cache spare live : List Nat}

/-- The node that the producer prepares is not in the chain. -/
theorem prepared_notMem (h : Shape s cache spare live) {n : Nat}
    (hn : s.producer.prepared = some n) : n ∉ cache ++ (spare ++ s.tail :: live) := by
  have hnodup := h.nodes.nodup_iff.mpr List.nodup_range
  rw [hn] at hnodup
  exact (List.nodup_cons.mp hnodup).1

/-- The producer's copy of {lit}`tail_` differs from {lit}`first_` exactly if it knows of
a used node. -/
theorem first_ne_tailCopy (h : Shape s cache spare live) :
    s.first ≠ s.tailCopy ↔ cache ≠ [] := by
  have hhead := h.chain.head_eq
  cases cache with
  | nil =>
      rw [List.nil_append, h.tailCopy, Option.some.injEq] at hhead
      simp [hhead]
  | cons x cache =>
      obtain rfl : s.first = x := Option.some.inj hhead
      simp only [ne_eq, reduceCtorEq, not_false_eq_true, iff_true]
      intro heq
      have hmem := List.mem_of_mem_head? h.tailCopy
      rw [← heq] at hmem
      have hnodup := h.chain.nodup
      exact (List.nodup_cons.mp hnodup).1 (List.mem_append_right cache hmem)

/-- The successor of {lit}`tail_` is the node of the oldest element. -/
theorem next_tail (h : Shape s cache spare live) : s.next s.tail = live.head? := by
  have hchain := h.chain
  rw [← List.append_assoc] at hchain
  exact hchain.next_eq

/-! ## The producer -/

/-- The producer goes on to a line of {lit}`alloc_node` that writes nothing. -/
theorem moveProducer (h : Shape s cache spare live) {pc : Producer α}
    (hlast : pc.last s.head = s.producer.last s.head)
    (hprepared : pc.prepared = s.producer.prepared) (hpc : ProducerOk s cache pc) :
    Shape { s with producer := pc } cache spare live :=
  ⟨h.chain, h.tailCopy, by rw [hlast]; exact h.last, h.values,
    by rw [hprepared]; exact h.nodes, hpc, h.consumer⟩

/-- {lit}`if (first_ != tail_copy_)`. -/
theorem testCache (h : Shape s cache spare live) {v : α} {no : Producer α}
    (hpc : s.producer = .allocNode v ∨ s.producer = .retest v)
    (hno : no = .loadTail v ∨ no = .newNode v) :
    Shape { s with producer := if s.first ≠ s.tailCopy then .take v else no }
      cache spare live := by
  have hlast : s.producer.last s.head = s.head := by
    rcases hpc with hpc | hpc <;> rw [hpc] <;> rfl
  have hprepared : s.producer.prepared = none := by
    rcases hpc with hpc | hpc <;> rw [hpc] <;> rfl
  by_cases hne : s.first ≠ s.tailCopy
  · rw [if_pos hne]
    exact h.moveProducer hlast.symm hprepared.symm (h.first_ne_tailCopy.mp hne)
  · have hcache : cache = [] := by
      by_contra hcache
      exact hne (h.first_ne_tailCopy.mpr hcache)
    rw [if_neg hne]
    rcases hno with rfl | rfl
    · exact h.moveProducer hlast.symm hprepared.symm hcache
    · exact h.moveProducer hlast.symm hprepared.symm hcache

/-- {lit}`alloc_node` takes the first used node. -/
theorem takeNode (h : Shape s cache spare live) {v : α} (hpc : s.producer = .take v) :
    ∃ n cache', s.next s.first = some n ∧
      Shape { s with first := n, producer := .clearNext s.first v } cache' spare live := by
  have hcache := h.producer
  rw [hpc] at hcache
  cases cache with
  | nil => exact absurd rfl hcache
  | cons x cache =>
      have hhead := h.chain.head_eq
      obtain rfl : s.first = x := Option.some.inj hhead
      have hrest := h.chain.rest
      have hnext := hrest.head_eq
      cases hn : s.next s.first with
      | none =>
          rw [hn] at hnext
          have hnil := List.head?_eq_none_iff.mp hnext.symm
          simp at hnil
      | some n =>
          rw [hn] at hrest
          have hlast := h.last
          have hnodes := h.nodes
          rw [hpc] at hlast hnodes
          exact ⟨n, cache, rfl, hrest, h.tailCopy, hlast, h.values, hnodes, trivial,
            h.consumer⟩

/-- {lit}`tail_copy_ = load_consume(&tail_)`. -/
theorem loadTail (h : Shape s cache spare live) {v : α} (hpc : s.producer = .loadTail v) :
    Shape { s with tailCopy := s.tail, producer := .retest v } spare [] live := by
  have hcache := h.producer
  have hchain := h.chain
  have hlast := h.last
  have hnodes := h.nodes
  rw [hpc] at hcache hlast hnodes
  obtain rfl : cache = [] := hcache
  exact ⟨hchain, rfl, hlast, h.values, hnodes, trivial, h.consumer⟩

/-- {lit}`new node`. -/
theorem newNode (h : Shape s cache spare live) {v : α} (hpc : s.producer = .newNode v) :
    Shape { s with allocated := s.allocated + 1, producer := .clearNext s.allocated v }
      cache spare live := by
  have hlast := h.last
  have hnodes := h.nodes
  rw [hpc] at hlast hnodes
  refine ⟨h.chain, h.tailCopy, hlast, h.values, ?_, trivial, h.consumer⟩
  rw [List.range_succ]
  exact (List.Perm.cons _ hnodes).trans (List.perm_append_singleton _ _).symm

/-- {lit}`n->next_ = 0`. -/
theorem clearNext (h : Shape s cache spare live) {n : Nat} {v : α}
    (hpc : s.producer = .clearNext n v) :
    Shape { s with next := Function.update s.next n none, producer := .writeValue n v }
      cache spare live := by
  have hnot := h.prepared_notMem (n := n) (by rw [hpc]; rfl)
  have hlast := h.last
  have hnodes := h.nodes
  rw [hpc] at hlast hnodes
  refine ⟨h.chain.congr ?_, h.tailCopy, hlast, h.values, hnodes,
    Function.update_self _ _ _, h.consumer⟩
  intro x hx
  exact Function.update_of_ne (ne_of_mem_of_not_mem hx hnot) _ _

/-- {lit}`n->value_ = v`. -/
theorem writeValue (h : Shape s cache spare live) {n : Nat} {v : α}
    (hpc : s.producer = .writeValue n v) :
    Shape { s with value := Function.update s.value n v, producer := .publish n v }
      cache spare live := by
  have hnot := h.prepared_notMem (n := n) (by rw [hpc]; rfl)
  have hmap : live.map (Function.update s.value n v) = live.map s.value := by
    apply List.map_congr_left
    intro x hx
    refine Function.update_of_ne (ne_of_mem_of_not_mem ?_ hnot) _ _
    simp [hx]
  have hnext := h.producer
  have hlast := h.last
  have hnodes := h.nodes
  rw [hpc] at hnext hlast hnodes
  refine ⟨h.chain, h.tailCopy, hlast, ?_, hnodes, ⟨hnext, Function.update_self _ _ _⟩, ?_⟩
  · rw [hmap]
    exact h.values
  · have hconsumer := h.consumer
    cases hc : s.consumer with
    | moveTail w =>
        rw [hc] at hconsumer
        rw [ConsumerOk, hmap]
        exact hconsumer
    | readValue =>
        rw [hc] at hconsumer
        exact hconsumer
    | idle => trivial
    | loadNext => trivial

/-- {lit}`store_release(&head_->next_, n)`. -/
theorem publish (h : Shape s cache spare live) {n : Nat} {v : α}
    (hpc : s.producer = .publish n v) :
    Shape { s with
      next := Function.update s.next s.head (some n)
      producer := .moveHead n
      enqueued := s.enqueued ++ [v] } cache spare (live ++ [n]) := by
  have hnot := h.prepared_notMem (n := n) (by rw [hpc]; rfl)
  have hproducer := h.producer
  have hlast := h.last
  have hnodes := h.nodes
  rw [hpc] at hproducer hlast hnodes
  rcases hproducer with ⟨hnext, hvalue⟩
  -- {lit}`head_` is the last node of the chain
  rcases List.getLast?_eq_some_iff.mp hlast with ⟨before, hbefore⟩
  have hsplit : cache ++ (spare ++ s.tail :: live) = cache ++ (spare ++ before) ++ [s.head] := by
    rw [hbefore]
    simp [Producer.last]
  have hchain := h.chain
  rw [hsplit] at hchain hnot
  have hnodup := hchain.nodup
  have hne : n ≠ s.head := by
    rintro rfl
    exact hnot (by simp)
  have hlinked : cache ++ (spare ++ s.tail :: (live ++ [n])) =
      cache ++ (spare ++ before) ++ [s.head, n] := by
    rw [← List.cons_append, hbefore]
    simp [Producer.last]
  refine ⟨?_, ?_, ?_, ?_, ?_, trivial, ?_⟩
  · show Chain _ _ (cache ++ (spare ++ s.tail :: (live ++ [n])))
    rw [hlinked]
    apply hchain.concat (Function.update_self _ _ _)
    · rw [Function.update_of_ne hne]
      exact hnext
    · intro x hx
      refine Function.update_of_ne ?_ _ _
      rintro rfl
      exact (List.nodup_append.mp hnodup).2.2 _ hx _ (by simp) rfl
  · have hcopy := h.tailCopy
    show (spare ++ s.tail :: (live ++ [n])).head? = some s.tailCopy
    rw [← List.cons_append, ← List.append_assoc, List.head?_append, hcopy]
    rfl
  · show (s.tail :: (live ++ [n])).getLast? = some n
    rw [← List.cons_append, List.getLast?_concat]
  · show s.dequeued ++ (live ++ [n]).map s.value = s.enqueued ++ [v]
    rw [List.map_append, ← List.append_assoc, h.values, List.map_singleton, hvalue]
  · refine List.Perm.trans ?_ hnodes
    show (cache ++ (spare ++ s.tail :: (live ++ [n]))).Perm
      (n :: (cache ++ (spare ++ s.tail :: live)))
    rw [hlinked, hsplit]
    simpa using List.perm_append_singleton n (cache ++ (spare ++ (before ++ [s.head])))
  · have hconsumer := h.consumer
    cases hc : s.consumer with
    | moveTail w =>
        rw [hc] at hconsumer
        have hhead : (live.map s.value).head? = some w := hconsumer
        rw [ConsumerOk, List.map_append, List.head?_append, hhead]
        rfl
    | readValue => exact List.append_ne_nil_of_right_ne_nil _ (List.cons_ne_nil _ _)
    | idle => trivial
    | loadNext => trivial

/-- {lit}`head_ = n`. -/
theorem moveHead (h : Shape s cache spare live) {n : Nat} (hpc : s.producer = .moveHead n) :
    Shape { s with head := n, producer := .idle } cache spare live := by
  have hlast := h.last
  have hnodes := h.nodes
  rw [hpc] at hlast hnodes
  exact ⟨h.chain, h.tailCopy, hlast, h.values, hnodes, trivial, h.consumer⟩

/-- The next line of {lit}`enqueue` is always possible and keeps the nodes in order. -/
theorem producerStep (h : Shape s cache spare live) (hbusy : s.producer ≠ .idle) :
    ∃ s', SPSCQueue.producerStep s = some s' ∧ Inv s' := by
  unfold SPSCQueue.producerStep
  cases hpc : s.producer with
  | idle => exact absurd hpc hbusy
  | allocNode v => exact ⟨_, rfl, cache, spare, live, h.testCache (.inl hpc) (.inl rfl)⟩
  | take v =>
      rcases h.takeNode hpc with ⟨n, cache', hnext, htake⟩
      exact ⟨_, by rw [hnext]; rfl, cache', spare, live, htake⟩
  | loadTail v => exact ⟨_, rfl, spare, [], live, h.loadTail hpc⟩
  | retest v => exact ⟨_, rfl, cache, spare, live, h.testCache (.inr hpc) (.inr rfl)⟩
  | newNode v => exact ⟨_, rfl, cache, spare, live, h.newNode hpc⟩
  | clearNext n v => exact ⟨_, rfl, cache, spare, live, h.clearNext hpc⟩
  | writeValue n v => exact ⟨_, rfl, cache, spare, live, h.writeValue hpc⟩
  | publish n v => exact ⟨_, rfl, cache, spare, live ++ [n], h.publish hpc⟩
  | moveHead n => exact ⟨_, rfl, cache, spare, live, h.moveHead hpc⟩

/-! ## The consumer -/

/-- The consumer goes on without a store. -/
theorem moveConsumer (h : Shape s cache spare live) {pc : Consumer α}
    (hpc : ConsumerOk s live pc) : Shape { s with consumer := pc } cache spare live :=
  ⟨h.chain, h.tailCopy, h.last, h.values, h.nodes, h.producer, hpc⟩

/-- {lit}`store_release(&tail_, tail_->next_)`. -/
theorem moveTail {x : Nat} (h : Shape s cache spare (x :: live)) :
    Shape { s with
      tail := x
      consumer := .idle
      dequeued := s.dequeued ++ [s.value x] } cache (spare ++ [s.tail]) live := by
  have hnodes : cache ++ ((spare ++ [s.tail]) ++ x :: live) =
      cache ++ (spare ++ s.tail :: x :: live) := by
    simp
  refine ⟨?_, ?_, ?_, ?_, ?_, h.producer, trivial⟩
  · rw [hnodes]
    exact h.chain
  · rw [List.append_assoc]
    exact h.tailCopy
  · have hlast := h.last
    rw [List.getLast?_cons_cons] at hlast
    exact hlast
  · have hvalues := h.values
    simpa using hvalues
  · rw [hnodes]
    exact h.nodes

/-- The next line of {lit}`try_dequeue` is always possible and keeps the nodes in order. -/
theorem consumerStep (h : Shape s cache spare live) (hbusy : s.consumer ≠ .idle) :
    ∃ s', SPSCQueue.consumerStep s = some s' ∧ Inv s' := by
  have hconsumer := h.consumer
  unfold SPSCQueue.consumerStep
  rw [h.next_tail]
  cases hpc : s.consumer with
  | idle => exact absurd hpc hbusy
  | loadNext =>
      refine ⟨_, rfl, cache, spare, live, ?_⟩
      cases live with
      | nil => exact h.moveConsumer trivial
      | cons x live => exact h.moveConsumer (List.cons_ne_nil x live)
  | readValue =>
      rw [hpc] at hconsumer
      cases live with
      | nil => exact absurd rfl hconsumer
      | cons x live => exact ⟨_, rfl, cache, spare, x :: live, h.moveConsumer rfl⟩
  | moveTail v =>
      rw [hpc] at hconsumer
      cases live with
      | nil => simp [ConsumerOk] at hconsumer
      | cons x live =>
          obtain rfl : s.value x = v := Option.some.inj hconsumer
          exact ⟨_, rfl, cache, spare ++ [s.tail], live, h.moveTail⟩

end Shape

/-! ## Steps and runs -/

/-- Every step keeps the invariant. -/
theorem step_inv {s s' : State α} {a : Action α} (h : Inv s) (hstep : step s a = some s') :
    Inv s' := by
  rcases h with ⟨cache, spare, live, h⟩
  cases a with
  | enqueue v =>
      cases hpc : s.producer <;> simp only [step, hpc, reduceCtorEq] at hstep
      cases hstep
      exact ⟨cache, spare, live,
        h.moveProducer (by rw [hpc]; rfl) (by rw [hpc]; rfl) trivial⟩
  | tryDequeue =>
      cases hpc : s.consumer <;> simp only [step, hpc, reduceCtorEq] at hstep
      cases hstep
      exact ⟨cache, spare, live, h.moveConsumer trivial⟩
  | producer =>
      have hbusy : s.producer ≠ .idle := by
        intro hidle
        simp [step, producerStep, hidle] at hstep
      rcases h.producerStep hbusy with ⟨s'', hs'', hinv⟩
      obtain rfl : s'' = s' := Option.some.inj (hs''.symm.trans hstep)
      exact hinv
  | consumer =>
      have hbusy : s.consumer ≠ .idle := by
        intro hidle
        simp [step, consumerStep, hidle] at hstep
      rcases h.consumerStep hbusy with ⟨s'', hs'', hinv⟩
      obtain rfl : s'' = s' := Option.some.inj (hs''.symm.trans hstep)
      exact hinv

/-- Every run from a new queue keeps the invariant. -/
theorem run_inv {next : Nat → Option Nat} {value : Nat → α} {acts : List (Action α)}
    {s : State α} (hrun : run step (create next value) acts = some s) : Inv s :=
  run_invariant (fun _ _ _ => step_inv) (create_inv next value) hrun

end SPSCQueue
end TinyNet
