import TinyNet.Library.StepSystem

/-!
# The intrusive queue of many producers and one consumer

This file embeds {lit}`mpscq_t` of {lit}`libs/intrusive_mpmc_link_queue.h`.  The nodes are the
callers' own; one more, {lit}`stub`, is part of the queue.  A producer exchanges {lit}`head`
for its node and only then makes the node that was there point to it.  The consumer walks from
{lit}`tail` and pushes {lit}`stub` when it comes to the last node, so that it never takes the
node that {lit}`head` points to.

The source does not define {lit}`XCHG`; it is taken to be an atomic exchange that returns the
old value.  Any number of producers and one consumer interleave between any two accesses to
memory that others write.  A producer pushes only a node that is not in the queue and that
nobody else pushes.  The state also keeps the history of the calls: the nodes pushed, in the
order of the exchanges, and the nodes popped.
-/

namespace TinyNet
namespace Mpscq

/-- The node {lit}`self->stub`. -/
def stub : Nat := 0

/-- Where a call {lit}`mpscq_push(self, n)` stands; {lit}`link` is the place that the code
marks. -/
inductive Push where
  | idle
  | clear (n : Nat)
  | exchange (n : Nat)
  | link (prev n : Nat)
deriving DecidableEq

/-- Where the call {lit}`mpscq_pop(self)` stands; its local {lit}`tail` is {lit}`self->tail`
at all these places. -/
inductive Pop where
  | idle
  | loadNext
  | loadSecond
  | loadHead
  | loadLast
deriving DecidableEq

/-- Who calls {lit}`mpscq_push`: a producer, or {lit}`mpscq_pop` for {lit}`stub`. -/
abbrev Caller (k : Nat) := Option (Fin k)

/-- The nodes, the queue, its threads, and the nodes pushed and popped so far. -/
structure State (k : Nat) where
  next : Nat → Option Nat
  head : Nat
  tail : Nat
  pushes : Caller k → Push
  pop : Pop
  pushed : List Nat
  popped : List Nat

/-- A call, or the next step of one. -/
inductive Action (k : Nat) where
  | push (t : Fin k) (n : Nat)
  | pop
  | pushStep (c : Caller k)
  | popStep
deriving DecidableEq

/-- The node that a call of {lit}`mpscq_push` has in hand. -/
def Push.node : Push → Option Nat
  | .idle => none
  | .clear n => some n
  | .exchange n => some n
  | .link _ n => some n

variable {k : Nat}

/-- {lit}`mpscq_create`; the other nodes point anywhere. -/
def create (next : Nat → Option Nat) : State k where
  next := Function.update next stub none
  head := stub
  tail := stub
  pushes _ := .idle
  pop := .idle
  pushed := []
  popped := []

/-- The nodes that were pushed and have not been popped, by the history of the calls. -/
def State.queued (s : State k) : List Nat :=
  s.pushed.drop s.popped.length

/-- {lit}`n` may be pushed: it is not the queue's own node, its owner has it back if it was
pushed before, and it is in nobody's hand. -/
def State.Free (s : State k) (n : Nat) : Prop :=
  n ≠ stub ∧ n ∉ s.queued ∧ ∀ c, (s.pushes c).node ≠ some n

instance (s : State k) (n : Nat) : Decidable (s.Free n) :=
  inferInstanceAs (Decidable (_ ∧ _ ∧ _))

/-- The next step of {lit}`mpscq_push`, with {lit}`XCHG` as one step. -/
def pushStep (s : State k) (c : Caller k) : Option (State k) :=
  match s.pushes c with
  | .idle => none
  | .clear n =>
      some { s with
        next := Function.update s.next n none
        pushes := Function.update s.pushes c (.exchange n) }
  | .exchange n =>
      some { s with
        head := n
        pushes := Function.update s.pushes c (.link s.head n)
        pushed := if n = stub then s.pushed else s.pushed ++ [n] }
  | .link prev n =>
      some { s with
        next := Function.update s.next prev (some n)
        pushes := Function.update s.pushes c .idle }

/-- {lit}`mpscq_pop` returns null. -/
def State.returnNull (s : State k) : State k :=
  { s with pop := .idle }

/-- {lit}`self->tail = next; return tail;` -/
def State.returnTail (s : State k) (n : Nat) : State k :=
  { s with tail := n, pop := .idle, popped := s.popped ++ [s.tail] }

/-- The next step of {lit}`mpscq_pop`. -/
def popStep (s : State k) : Option (State k) :=
  match s.pop with
  | .idle => none
  | .loadNext =>
      if s.tail = stub then
        match s.next s.tail with
        | none => some s.returnNull
        | some n => some { s with tail := n, pop := .loadSecond }
      else
        match s.next s.tail with
        | none => some { s with pop := .loadHead }
        | some n => some (s.returnTail n)
  | .loadSecond =>
      match s.next s.tail with
      | none => some { s with pop := .loadHead }
      | some n => some (s.returnTail n)
  | .loadHead =>
      if s.tail ≠ s.head then some s.returnNull
      else
        some { s with
          pushes := Function.update s.pushes none (.clear stub)
          pop := .loadLast }
  | .loadLast =>
      -- the call of {lit}`mpscq_push` for {lit}`stub` comes first
      if s.pushes none ≠ .idle then none
      else
        match s.next s.tail with
        | none => some s.returnNull
        | some n => some (s.returnTail n)

/-- One step. -/
def step (s : State k) : Action k → Option (State k)
  | .push t n =>
      if s.pushes (some t) = .idle ∧ s.Free n then
        some { s with pushes := Function.update s.pushes (some t) (.clear n) }
      else none
  | .pop =>
      match s.pop with
      | .idle => some { s with pop := .loadNext }
      | _ => none
  | .pushStep c => pushStep s c
  | .popStep => popStep s

end Mpscq
end TinyNet
