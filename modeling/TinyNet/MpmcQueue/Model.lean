import TinyNet.Library.MachineInt
import TinyNet.Library.StepSystem

/-!
# The bounded queue for many producers and consumers

This file embeds {lit}`mpmc_bounded_queue` of {lit}`libs/mpmc_queue.hpp`: a ring of cells,
each with a sequence number that says whose turn it is.  A producer takes a position by a
compare-and-swap on {lit}`enqueue_pos_` once the sequence number of its cell equals the
position, then writes the data and publishes it by the next sequence number; a consumer
does the like on {lit}`dequeue_pos_`.  Any number of threads interleave between any two
accesses to shared memory, and a weak compare-and-swap may fail for no reason.

Positions and sequence numbers are of type {lit}`size_t`, and the queue compares them by
their difference as {lit}`intptr_t`.  The steps take the arithmetic as a parameter: that of
words of {lit}`w` bits, which wraps around, is the source's; with unbounded counts they are
the algorithm that it implements.  The state also keeps what was enqueued, in the order of
the positions, and the position and result of every {lit}`dequeue` that returned true.
-/

namespace TinyNet
namespace MpmcQueue

open Library.MachineInt (Arithmetic)

variable {α : Type}

/-- {lit}`cell_t`. -/
structure Cell (α : Type) where
  sequence : Nat
  data : α

/-- The data members of {lit}`mpmc_bounded_queue<T>`. -/
structure Queue (α : Type) where
  buffer : Nat → Cell α
  bufferMask : Nat
  enqueuePos : Nat
  dequeuePos : Nat

/-- Where a thread stands in {lit}`enqueue(data)` or in {lit}`dequeue`. -/
inductive Pc (α : Type) where
  | idle
  | enqueueLoad (data : α)
  | enqueueSeq (data : α) (pos : Nat)
  | enqueueCas (data : α) (pos : Nat)
  | enqueueWrite (data : α) (pos : Nat)
  | enqueuePublish (pos : Nat)
  | dequeueLoad
  | dequeueSeq (pos : Nat)
  | dequeueCas (pos : Nat)
  | dequeueRead (pos : Nat)
  | dequeueRelease (pos : Nat) (data : α)
deriving DecidableEq

/-- The queue, its threads, and what has been enqueued and dequeued. -/
structure State (α : Type) where
  queue : Queue α
  threads : Nat → Pc α
  enqueued : List α
  dequeued : List (Nat × α)

/-- A call by an idle thread, or the next step of a thread. -/
inductive Action (α : Type) where
  | enqueue (t : Nat) (data : α)
  | dequeue (t : Nat)
  | thread (t : Nat) (spurious : Bool)
deriving DecidableEq

namespace Queue

/-- The constructor; the data of the cells is uninitialised. -/
def create (bufferSize : Nat) (garbage : Nat → α) : Queue α where
  buffer i := ⟨i, garbage i⟩
  bufferMask := bufferSize - 1
  enqueuePos := 0
  dequeuePos := 0

/-- The index {lit}`pos & buffer_mask_`. -/
def slot (q : Queue α) (pos : Nat) : Nat :=
  pos &&& q.bufferMask

/-- The cell of a position. -/
def cell (q : Queue α) (pos : Nat) : Cell α :=
  q.buffer (q.slot pos)

/-- Write the cell of a position. -/
def setCell (q : Queue α) (pos : Nat) (c : Cell α) : Queue α :=
  { q with buffer := Function.update q.buffer (q.slot pos) c }

end Queue

namespace State

/-- A fresh queue and idle threads. -/
def start (bufferSize : Nat) (garbage : Nat → α) : State α where
  queue := .create bufferSize garbage
  threads _ := .idle
  enqueued := []
  dequeued := []

/-- Move one thread on. -/
def goto (s : State α) (t : Nat) (pc : Pc α) : State α :=
  { s with threads := Function.update s.threads t pc }

/-- The compare-and-swap of {lit}`enqueue` succeeds and stores the next position. -/
def takeEnqueue (s : State α) (data : α) (next : Nat) : State α :=
  { s with
    queue := { s.queue with enqueuePos := next }
    enqueued := s.enqueued ++ [data] }

/-- The compare-and-swap of {lit}`dequeue` succeeds and stores the next position. -/
def takeDequeue (s : State α) (next : Nat) : State α :=
  { s with queue := { s.queue with dequeuePos := next } }

/-- {lit}`cell->data_ = data`. -/
def writeData (s : State α) (pos : Nat) (data : α) : State α :=
  { s with queue := s.queue.setCell pos { s.queue.cell pos with data := data } }

/-- {lit}`cell->sequence_.store(sequence)`. -/
def storeSequence (s : State α) (pos sequence : Nat) : State α :=
  { s with queue := s.queue.setCell pos { s.queue.cell pos with sequence := sequence } }

/-- {lit}`dequeue` returns true. -/
def logDequeue (s : State α) (pos : Nat) (data : α) : State α :=
  { s with dequeued := s.dequeued ++ [(pos, data)] }

end State

section Steps

variable (A : Arithmetic)

/-- Where {lit}`enqueue` goes from the load of the sequence number. -/
def afterEnqueueSeq (sequence : Nat) (data : α) (pos : Nat) : Pc α :=
  let dif := A.dif sequence pos
  if dif = 0 then .enqueueCas data pos
  else if dif < 0 then .idle
  else .enqueueLoad data

/-- Where {lit}`dequeue` goes from the load of the sequence number. -/
def afterDequeueSeq (sequence pos : Nat) : Pc α :=
  let dif := A.dif sequence (A.add pos 1)
  if dif = 0 then .dequeueCas pos
  else if dif < 0 then .idle
  else .dequeueLoad

/-- {lit}`enqueue` returns false if the sequence number is behind its position. -/
theorem afterEnqueueSeq_eq_idle_iff (sequence : Nat) (data : α) (pos : Nat) :
    afterEnqueueSeq A sequence data pos = .idle ↔ A.dif sequence pos < 0 := by
  unfold afterEnqueueSeq
  dsimp only
  split_ifs with hzero hneg
  · simp [hzero]
  · simp [hneg]
  · simp [hneg]

/-- {lit}`dequeue` returns false if the sequence number is behind the next position. -/
theorem afterDequeueSeq_eq_idle_iff (sequence pos : Nat) :
    (afterDequeueSeq A sequence pos : Pc α) = .idle ↔
      A.dif sequence (A.add pos 1) < 0 := by
  unfold afterDequeueSeq
  dsimp only
  split_ifs with hzero hneg
  · simp [hzero]
  · simp [hneg]
  · simp [hneg]

/-- One access of a thread to shared memory. -/
def threadStep (s : State α) (t : Nat) (spurious : Bool) : Option (State α) :=
  match s.threads t with
  | .idle => none
  | .enqueueLoad data => some (s.goto t (.enqueueSeq data s.queue.enqueuePos))
  | .enqueueSeq data pos =>
      some (s.goto t (afterEnqueueSeq A (s.queue.cell pos).sequence data pos))
  | .enqueueCas data pos =>
      if s.queue.enqueuePos = pos ∧ spurious = false then
        some ((s.takeEnqueue data (A.add pos 1)).goto t (.enqueueWrite data pos))
      else some (s.goto t (.enqueueSeq data s.queue.enqueuePos))
  | .enqueueWrite data pos => some ((s.writeData pos data).goto t (.enqueuePublish pos))
  | .enqueuePublish pos => some ((s.storeSequence pos (A.add pos 1)).goto t .idle)
  | .dequeueLoad => some (s.goto t (.dequeueSeq s.queue.dequeuePos))
  | .dequeueSeq pos => some (s.goto t (afterDequeueSeq A (s.queue.cell pos).sequence pos))
  | .dequeueCas pos =>
      if s.queue.dequeuePos = pos ∧ spurious = false then
        some ((s.takeDequeue (A.add pos 1)).goto t (.dequeueRead pos))
      else some (s.goto t (.dequeueSeq s.queue.dequeuePos))
  | .dequeueRead pos => some (s.goto t (.dequeueRelease pos (s.queue.cell pos).data))
  | .dequeueRelease pos data =>
      some (((s.storeSequence pos (A.add (A.add pos s.queue.bufferMask) 1)).logDequeue pos
        data).goto t .idle)

/-- A call by an idle thread. -/
def call (s : State α) (t : Nat) (pc : Pc α) : Option (State α) :=
  match s.threads t with
  | .idle => some (s.goto t pc)
  | _ => none

/-- One step. -/
def step (s : State α) : Action α → Option (State α)
  | .enqueue t data => call s t (.enqueueLoad data)
  | .dequeue t => call s t .dequeueLoad
  | .thread t spurious => threadStep A s t spurious

end Steps

/-- The position that a producer has taken and not yet published. -/
def Pc.writing : Pc α → Option Nat
  | .enqueueWrite _ pos => some pos
  | .enqueuePublish pos => some pos
  | _ => none

/-- The position that a consumer has taken and not yet released. -/
def Pc.reading : Pc α → Option Nat
  | .dequeueRead pos => some pos
  | .dequeueRelease pos _ => some pos
  | _ => none

end MpmcQueue
end TinyNet
