import TinyNet.Library.StepSystem

/-!
# The unbounded queue of one producer and one consumer

This file embeds {lit}`SPSCQueue` of {lit}`libs/spscqueue.h`.  The queue is a linked list of
nodes from {lit}`tail_`, whose own value has been dequeued, to {lit}`head_`.  The nodes from
{lit}`first_` up to {lit}`tail_` have been used and are taken again by {lit}`alloc_node`,
which knows {lit}`tail_` from a copy and reads it only if the copy has no node left.

The producer is in {lit}`enqueue` and the consumer in {lit}`try_dequeue` at the same time
and every line of the code is a step.  Where the code would follow a null pointer no step
is possible.  The state also keeps what was enqueued and what was dequeued.
-/

namespace TinyNet
namespace SPSCQueue

variable {α : Type}

/-- Where the producer stands in {lit}`enqueue(v)`, with {lit}`alloc_node` inlined. -/
inductive Producer (α : Type) where
  | idle
  | allocNode (v : α)
  | take (v : α)
  | loadTail (v : α)
  | retest (v : α)
  | newNode (v : α)
  | clearNext (n : Nat) (v : α)
  | writeValue (n : Nat) (v : α)
  | publish (n : Nat) (v : α)
  | moveHead (n : Nat)
deriving DecidableEq

/-- Where the consumer stands in {lit}`try_dequeue`. -/
inductive Consumer (α : Type) where
  | idle
  | loadNext
  | readValue
  | moveTail (v : α)
deriving DecidableEq

/-- The nodes, of which {lit}`new` has made those below {lit}`allocated`, the data members
of the queue, its two threads, and what has been enqueued and dequeued. -/
structure State (α : Type) where
  next : Nat → Option Nat
  value : Nat → α
  allocated : Nat
  tail : Nat
  head : Nat
  first : Nat
  tailCopy : Nat
  producer : Producer α
  consumer : Consumer α
  enqueued : List α
  dequeued : List α

/-- A call, or the next line of the call that a thread is in. -/
inductive Action (α : Type) where
  | enqueue (v : α)
  | tryDequeue
  | producer
  | consumer
deriving DecidableEq

/-- {lit}`SPSCQueue()`; memory holds anything but for the node that is made here. -/
def create (next : Nat → Option Nat) (value : Nat → α) : State α where
  next := Function.update next 0 none
  value := value
  allocated := 1
  tail := 0
  head := 0
  first := 0
  tailCopy := 0
  producer := .idle
  consumer := .idle
  enqueued := []
  dequeued := []

/-- The next line of {lit}`enqueue`. -/
def producerStep (s : State α) : Option (State α) :=
  match s.producer with
  | .idle => none
  | .allocNode v =>
      some { s with producer := if s.first ≠ s.tailCopy then .take v else .loadTail v }
  | .take v =>
      (s.next s.first).map fun n =>
        { s with first := n, producer := .clearNext s.first v }
  | .loadTail v => some { s with tailCopy := s.tail, producer := .retest v }
  | .retest v =>
      some { s with producer := if s.first ≠ s.tailCopy then .take v else .newNode v }
  | .newNode v =>
      some { s with allocated := s.allocated + 1, producer := .clearNext s.allocated v }
  | .clearNext n v =>
      some { s with next := Function.update s.next n none, producer := .writeValue n v }
  | .writeValue n v =>
      some { s with value := Function.update s.value n v, producer := .publish n v }
  | .publish n v =>
      some { s with
        next := Function.update s.next s.head (some n)
        producer := .moveHead n
        enqueued := s.enqueued ++ [v] }
  | .moveHead n => some { s with head := n, producer := .idle }

/-- The next line of {lit}`try_dequeue`. -/
def consumerStep (s : State α) : Option (State α) :=
  match s.consumer with
  | .idle => none
  | .loadNext =>
      some { s with consumer := if (s.next s.tail).isSome then .readValue else .idle }
  | .readValue =>
      (s.next s.tail).map fun n => { s with consumer := .moveTail (s.value n) }
  | .moveTail v =>
      (s.next s.tail).map fun n =>
        { s with tail := n, consumer := .idle, dequeued := s.dequeued ++ [v] }

/-- One step. -/
def step (s : State α) : Action α → Option (State α)
  | .enqueue v =>
      match s.producer with
      | .idle => some { s with producer := .allocNode v }
      | _ => none
  | .tryDequeue =>
      match s.consumer with
      | .idle => some { s with consumer := .loadNext }
      | _ => none
  | .producer => producerStep s
  | .consumer => consumerStep s

/-- The lines of a call of {lit}`enqueue` that has to read {lit}`tail_`. -/
def enqueueCall (v : α) : List (Action α) :=
  .enqueue v :: List.replicate 8 .producer

/-- The lines of a call of {lit}`try_dequeue` that finds an element. -/
def dequeueCall : List (Action α) :=
  .tryDequeue :: List.replicate 3 .consumer

/-- What {lit}`SPSCQueue(prealloc)` does after the initialisation: it enqueues a dummy
{lit}`prealloc` times and dequeues as many. -/
def preallocate (prealloc : Nat) (dummy : α) : List (Action α) :=
  (List.replicate prealloc (enqueueCall dummy)).flatten ++
    (List.replicate prealloc dequeueCall).flatten

/-- The loop of {lit}`~SPSCQueue` from a node on: the nodes it deletes, in order. -/
def deleteFrom (next : Nat → Option Nat) : Nat → Nat → Option (List Nat)
  | 0, _ => none
  | fuel + 1, n =>
      match next n with
      | none => some [n]
      | some n' => (deleteFrom next fuel n').map (n :: ·)

/-- {lit}`~SPSCQueue`. -/
def destroy (s : State α) (fuel : Nat) : Option (List Nat) :=
  deleteFrom s.next fuel s.first

/-- The node that the producer has taken and not yet published. -/
def Producer.prepared : Producer α → Option Nat
  | .clearNext n _ => some n
  | .writeValue n _ => some n
  | .publish n _ => some n
  | _ => none

/-- The elements in the queue, and one more while {lit}`enqueue` has yet to publish its
own. -/
def State.load (s : State α) : Nat :=
  s.enqueued.length - s.dequeued.length +
    match s.producer with
    | .idle => 0
    | .moveHead _ => 0
    | _ => 1

end SPSCQueue
end TinyNet
