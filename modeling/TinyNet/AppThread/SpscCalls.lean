import TinyNet.AppThread.SpscQueue

/-!
# What the queue tells its two threads

Besides {lit}`enqueue` and {lit}`try_dequeue`, {lit}`utils::spscqueue`
({lit}`libs/spscqueue.hpp`) lets the consumer look at the oldest record in place
({lit}`frontPtr`) and drop it ({lit}`popFront`), and lets both threads ask how full the queue
is.  Each question loads the two indices one after the other, and the other thread moves its
index in between.  This file embeds all of these calls, each load and store being one step, and
keeps what each thread was told since it last changed the queue itself.

The operands of the comparison in {lit}`isEmpty` and of the subtraction in {lit}`sizeGuess` may
be loaded in either order.

Main results:

- Theorem {lit}`answers_hold`: what a thread was told stays true until it changes the queue
  itself, in the sense that the other thread can only take records away from the producer's
  view and add to the consumer's.
- Theorem {lit}`removed_in_order`: {lit}`try_dequeue` and {lit}`popFront` together remove the
  records in the order in which they were enqueued.
-/

namespace TinyNet
namespace SpscQueue
namespace Calls

open Library.RingBuffer
open Library.StepSystem

variable {size : Nat} {α : Type}

/-! ## The calls, step by step -/

/-- The next step of {lit}`isFull`. -/
inductive IsFullPc (size : Nat) where
  | loadWrite
  | loadRead (write : Fin (size + 1))

/-- The next step of {lit}`sizeGuess`. -/
inductive SizeGuessPc (size : Nat) where
  | start (writeFirst : Bool)
  | loadRead (write : Fin (size + 1))
  | loadWrite (read : Fin (size + 1))

/-- The next step of {lit}`frontPtr`. -/
inductive FrontPtrPc (size : Nat) where
  | loadRead
  | loadWrite (currentRead : Fin (size + 1))

/-- The next step of {lit}`popFront`; its assert is compiled out. -/
inductive PopFrontPc (size : Nat) where
  | loadRead
  | storeRead (currentRead : Fin (size + 1))

/-- One step of {lit}`isFull`. -/
def isFullStep (q : SpscQueue size α) : IsFullPc size → Progress (IsFullPc size) Bool
  | .loadWrite => .running (.loadRead q.writeIndex)
  | .loadRead write => .returned (next write = q.readIndex)

/-- The arithmetic of {lit}`sizeGuess`. -/
def sizeGuess (write read : Fin (size + 1)) : Int :=
  let ret : Int := write.val - read.val
  if ret < 0 then ret + (size + 1) else ret

/-- One step of {lit}`sizeGuess`. -/
def sizeGuessStep (q : SpscQueue size α) : SizeGuessPc size → Progress (SizeGuessPc size) Int
  | .start true => .running (.loadRead q.writeIndex)
  | .start false => .running (.loadWrite q.readIndex)
  | .loadRead write => .returned (sizeGuess write q.readIndex)
  | .loadWrite read => .returned (sizeGuess q.writeIndex read)

/-- One step of {lit}`frontPtr`; the result is the index of the record, if there is one. -/
def frontPtrStep (q : SpscQueue size α) :
    FrontPtrPc size → Progress (FrontPtrPc size) (Option (Fin (size + 1)))
  | .loadRead => .running (.loadWrite q.readIndex)
  | .loadWrite currentRead =>
      if currentRead = q.writeIndex then .returned none else .returned (some currentRead)

/-- One step of {lit}`popFront`; the result is the record that it destroys. -/
def popFrontStep (q : SpscQueue size α) :
    PopFrontPc size → SpscQueue size α × Progress (PopFrontPc size) α
  | .loadRead => (q, .running (.storeRead q.readIndex))
  | .storeRead currentRead =>
      ({ q with readIndex := next currentRead }, .returned (q.records currentRead))

/-! ## The two threads -/

/-- A question that either thread may ask. -/
inductive QueryPc (size : Nat) where
  | isEmpty (pc : IsEmptyPc size)
  | isFull (pc : IsFullPc size)
  | sizeGuess (pc : SizeGuessPc size)

/-- What a thread is told. -/
inductive Answer (size : Nat) where
  | isEmpty (empty : Bool)
  | isFull (full : Bool)
  | sizeGuess (ret : Int)
  | frontPtr (front : Option (Fin (size + 1)))
deriving DecidableEq

/-- One step of a question. -/
def queryStep (q : SpscQueue size α) : QueryPc size → Progress (QueryPc size) (Answer size)
  | .isEmpty pc =>
      match isEmptyStep q pc with
      | .running pc' => .running (.isEmpty pc')
      | .returned empty => .returned (.isEmpty empty)
  | .isFull pc =>
      match isFullStep q pc with
      | .running pc' => .running (.isFull pc')
      | .returned full => .returned (.isFull full)
  | .sizeGuess pc =>
      match sizeGuessStep q pc with
      | .running pc' => .running (.sizeGuess pc')
      | .returned ret => .returned (.sizeGuess ret)

/-- Where the producer stands. -/
inductive ProducerPc (size : Nat) (α : Type) where
  | idle
  | enqueue (record : α) (pc : EnqueuePc size)
  | query (pc : QueryPc size)

/-- Where the consumer stands. -/
inductive ConsumerPc (size : Nat) (α : Type) where
  | idle
  | tryDequeue (pc : TryDequeuePc size α)
  | frontPtr (pc : FrontPtrPc size)
  | popFront (pc : PopFrontPc size)
  | query (pc : QueryPc size)

/-- The questions. -/
inductive Query where
  | isEmpty (readFirst : Bool)
  | isFull
  | sizeGuess (writeFirst : Bool)

def Query.start : Query → QueryPc size
  | .isEmpty readFirst => .isEmpty (.start readFirst)
  | .isFull => .isFull .loadWrite
  | .sizeGuess writeFirst => .sizeGuess (.start writeFirst)

/-- The calls of the producer. -/
inductive ProducerCall (α : Type) where
  | enqueue (record : α)
  | query (question : Query)

def ProducerCall.start : ProducerCall α → ProducerPc size α
  | .enqueue record => .enqueue record .loadWrite
  | .query question => .query question.start

/-- The calls of the consumer. -/
inductive ConsumerCall where
  | tryDequeue
  | frontPtr
  | popFront
  | query (question : Query)

def ConsumerCall.start : ConsumerCall → ConsumerPc size α
  | .tryDequeue => .tryDequeue .loadRead
  | .frontPtr => .frontPtr .loadRead
  | .popFront => .popFront .loadRead
  | .query question => .query question.start

/-- The queue and its threads, with what each was told since it last changed the queue, and the
records that were enqueued and removed so far. -/
structure State (size : Nat) (α : Type) where
  queue : SpscQueue size α
  producer : ProducerPc size α
  consumer : ConsumerPc size α
  producerTold : List (Answer size)
  consumerTold : List (Answer size)
  enqueued : List α
  removed : List α

/-- A thread makes a call or goes on with one. -/
inductive Action (α : Type) where
  | produce (call : ProducerCall α)
  | producer
  | consume (call : ConsumerCall)
  | consumer

/-- A new queue. -/
def start (garbage : Fin (size + 1) → α) : State size α where
  queue := create garbage
  producer := .idle
  consumer := .idle
  producerTold := []
  consumerTold := []
  enqueued := []
  removed := []

/-- The next step of the producer. -/
def State.producerStep (s : State size α) : ProducerPc size α → Option (State size α)
  | .idle => none
  | .enqueue record pc =>
      match enqueueStep s.queue record pc with
      | (q, .running pc') => some { s with queue := q, producer := .enqueue record pc' }
      | (q, .returned true) =>
          some { s with
            queue := q, producer := .idle, producerTold := []
            enqueued := s.enqueued ++ [record] }
      | (q, .returned false) => some { s with queue := q, producer := .idle }
  | .query pc =>
      match queryStep s.queue pc with
      | .running pc' => some { s with producer := .query pc' }
      | .returned answer =>
          some { s with producer := .idle, producerTold := s.producerTold ++ [answer] }

/-- The next step of the consumer. -/
def State.consumerStep (s : State size α) : ConsumerPc size α → Option (State size α)
  | .idle => none
  | .tryDequeue pc =>
      match tryDequeueStep s.queue pc with
      | (q, .running pc') => some { s with queue := q, consumer := .tryDequeue pc' }
      | (q, .returned none) => some { s with queue := q, consumer := .idle }
      | (q, .returned (some record)) =>
          some { s with
            queue := q, consumer := .idle, consumerTold := []
            removed := s.removed ++ [record] }
  | .frontPtr pc =>
      match frontPtrStep s.queue pc with
      | .running pc' => some { s with consumer := .frontPtr pc' }
      | .returned front =>
          some { s with
            consumer := .idle, consumerTold := s.consumerTold ++ [.frontPtr front] }
  | .popFront pc =>
      match popFrontStep s.queue pc with
      | (q, .running pc') => some { s with queue := q, consumer := .popFront pc' }
      | (q, .returned record) =>
          some { s with
            queue := q, consumer := .idle, consumerTold := []
            removed := s.removed ++ [record] }
  | .query pc =>
      match queryStep s.queue pc with
      | .running pc' => some { s with consumer := .query pc' }
      | .returned answer =>
          some { s with consumer := .idle, consumerTold := s.consumerTold ++ [answer] }

/-- One step. -/
def step (s : State size α) : Action α → Option (State size α)
  | .produce call =>
      match s.producer with
      | .idle => some { s with producer := call.start }
      | _ => none
  | .producer => s.producerStep s.producer
  | .consume call =>
      match s.consumer with
      | .idle => some { s with consumer := call.start }
      | _ => none
  | .consumer => s.consumerStep s.consumer

/-! ## What an answer says -/

/-- What an answer tells the producer.  The consumer may have taken records since. -/
def Answer.HoldsForProducer (q : SpscQueue size α) : Answer size → Prop
  | .isEmpty empty => empty = true → q.contents = []
  | .isFull full => full = false → q.contents.length < size
  | .sizeGuess ret => q.contents.length ≤ ret
  | .frontPtr _ => True

/-- What an answer tells the consumer.  The producer may have added records since. -/
def Answer.HoldsForConsumer (q : SpscQueue size α) : Answer size → Prop
  | .isEmpty empty => empty = false → q.contents ≠ []
  | .isFull full => full = true → q.contents.length = size
  | .sizeGuess ret => ret ≤ q.contents.length
  | .frontPtr front => ∀ p, front = some p →
      p = q.readIndex ∧ q.contents.head? = some (q.records p)

/-- The answer says to the consumer that there is a record.  A queue for no records is always
full. -/
def Answer.saysNonempty : Answer size → Bool
  | .isEmpty empty => !empty
  | .isFull full => full && decide (0 < size)
  | .sizeGuess ret => 0 < ret
  | .frontPtr front => front.isSome

def Action.isPopFront : Action α → Bool
  | .consume .popFront => true
  | _ => false

/-- {lit}`popFront` is called only by a consumer that was told that there is a record. -/
def Checked (s : State size α) (a : Action α) : Prop :=
  a.isPopFront = true → ∃ x ∈ s.consumerTold, x.saysNonempty = true

instance (s : State size α) (a : Action α) : Decidable (Checked s a) :=
  inferInstanceAs (Decidable (_ → _))

theorem sizeGuess_eq_count (write read : Fin (size + 1)) :
    sizeGuess write read = count read write := by
  have hread := read.isLt
  have hwrite := write.isLt
  simp only [sizeGuess, count]
  split <;> split <;> omega

theorem contents_eq_nil (q : SpscQueue size α) : q.contents = [] ↔ q.readIndex = q.writeIndex :=
  contents_eq_nil_iff _ _ _

theorem length_contents_eq (q : SpscQueue size α) :
    q.contents.length = count q.readIndex q.writeIndex :=
  length_contents _ _ _

/-- The oldest record is the one at the read index. -/
theorem head_contents {q : SpscQueue size α} (h : q.contents ≠ []) :
    q.contents.head? = some (q.records q.readIndex) := by
  have hne : q.readIndex ≠ q.writeIndex := fun heq => h ((contents_eq_nil q).mpr heq)
  rw [SpscQueue.contents, contents_next_read q.records hne]
  rfl

/-! ## What the other thread does -/

/-- The producer has added records or nothing. -/
structure Grown (q q' : SpscQueue size α) : Prop where
  readIndex : q'.readIndex = q.readIndex
  contents : q.contents <+: q'.contents

/-- The consumer has taken records or nothing. -/
structure Shrunk (q q' : SpscQueue size α) : Prop where
  writeIndex : q'.writeIndex = q.writeIndex
  contents : q'.contents <:+ q.contents

theorem enqueueStep_grown {q : SpscQueue size α} {record : α} {pc : EnqueuePc size}
    (h : pc.Valid q record) : Grown q (enqueueStep q record pc).1 := by
  refine ⟨?_, ?_⟩
  · cases pc with
    | loadWrite => rfl
    | loadRead currentWrite =>
        rw [enqueueStep]
        split <;> rfl
    | storeRecord currentWrite => rfl
    | storeWrite currentWrite => rfl
  · have heffect := enqueueStep_spec h
    generalize enqueueStep q record pc = r at heffect
    rcases r with ⟨q', progress⟩
    cases progress with
    | running pc' =>
        rw [heffect.2]
    | returned ok =>
        cases ok with
        | true =>
            rw [show q'.contents = _ from heffect]
            exact List.prefix_append _ _
        | false => rw [heffect.1]

theorem tryDequeueStep_shrunk {q : SpscQueue size α} {pc : TryDequeuePc size α}
    (h : pc.Valid q) : Shrunk q (tryDequeueStep q pc).1 := by
  refine ⟨?_, ?_⟩
  · cases pc with
    | loadRead => rfl
    | loadWrite currentRead =>
        rw [tryDequeueStep]
        split <;> rfl
    | readRecord currentRead => rfl
    | storeRead currentRead record => rfl
  · have heffect := tryDequeueStep_spec h
    generalize tryDequeueStep q pc = r at heffect
    rcases r with ⟨q', progress⟩
    cases progress with
    | running pc' => rw [heffect.2]
    | returned record =>
        cases record with
        | none => rw [show q' = q from heffect]
        | some record =>
            rw [show q.contents = _ from heffect]
            exact List.suffix_cons _ _

/-- What the producer was told survives the consumer's steps. -/
theorem Answer.HoldsForProducer.shrunk {q q' : SpscQueue size α} {a : Answer size}
    (h : a.HoldsForProducer q) (hq : Shrunk q q') : a.HoldsForProducer q' := by
  have hlength := hq.contents.length_le
  cases a with
  | isEmpty empty =>
      intro hempty
      have hnil := hq.contents
      rw [h hempty] at hnil
      exact List.suffix_nil.mp hnil
  | isFull full =>
      intro hfull
      exact lt_of_le_of_lt hlength (h hfull)
  | sizeGuess ret =>
      have hret : (q.contents.length : Int) ≤ ret := h
      show (q'.contents.length : Int) ≤ ret
      omega
  | frontPtr front => trivial

/-- What the producer was told is about the contents. -/
theorem Answer.HoldsForProducer.congr {q q' : SpscQueue size α} {a : Answer size}
    (h : a.HoldsForProducer q) (hq : q'.contents = q.contents) : a.HoldsForProducer q' := by
  cases a with
  | isEmpty empty => exact fun hempty => hq.trans (h hempty)
  | isFull full =>
      intro hfull
      rw [hq]
      exact h hfull
  | sizeGuess ret =>
      show (q'.contents.length : Int) ≤ ret
      rw [hq]
      exact h
  | frontPtr front => trivial

/-- A queue that holds records still does after the producer's steps. -/
theorem Grown.ne_nil {q q' : SpscQueue size α} (hq : Grown q q') (h : q.contents ≠ []) :
    q'.contents ≠ [] := by
  intro hnil
  have hbefore := hq.contents
  rw [hnil] at hbefore
  exact h (List.prefix_nil.mp hbefore)

/-- A full queue is full after the producer's steps. -/
theorem Grown.full {q q' : SpscQueue size α} (hq : Grown q q')
    (h : q.contents.length = size) : q'.contents.length = size := by
  have hle := hq.contents.length_le
  have hmax := q'.length_contents_le
  omega

/-- What the consumer was told survives the producer's steps. -/
theorem Answer.HoldsForConsumer.grown {q q' : SpscQueue size α} {a : Answer size}
    (h : a.HoldsForConsumer q) (hq : Grown q q') : a.HoldsForConsumer q' := by
  have hlength := hq.contents.length_le
  cases a with
  | isEmpty empty =>
      intro hempty
      exact hq.ne_nil (h hempty)
  | isFull full =>
      intro hfull
      exact hq.full (h hfull)
  | sizeGuess ret =>
      have hret : ret ≤ q.contents.length := h
      show ret ≤ q'.contents.length
      omega
  | frontPtr front =>
      intro p hp
      rcases h p hp with ⟨rfl, hhead⟩
      have hne : q.contents ≠ [] := by
        intro hnil
        rw [hnil] at hhead
        cases hhead
      rw [← hq.readIndex]
      exact ⟨rfl, head_contents (hq.ne_nil hne)⟩

/-! ## What a question in progress knows -/

/-- What the producer has loaded so far.  Its own index stays; the consumer's may have moved. -/
def QueryPc.ForProducer (q : SpscQueue size α) : QueryPc size → Prop
  | .isEmpty (.loadWrite read) => read = q.writeIndex → q.contents = []
  | .isEmpty (.loadRead write) => write = q.writeIndex
  | .isFull (.loadRead write) => write = q.writeIndex
  | .sizeGuess (.loadRead write) => write = q.writeIndex
  | .sizeGuess (.loadWrite read) => q.contents.length ≤ count read q.writeIndex
  | _ => True

/-- What the consumer has loaded so far.  Its own index stays; the producer's may have moved. -/
def QueryPc.ForConsumer (q : SpscQueue size α) : QueryPc size → Prop
  | .isEmpty (.loadWrite read) => read = q.readIndex
  | .isEmpty (.loadRead write) => q.readIndex ≠ write → q.contents ≠ []
  | .isFull (.loadRead write) => next write = q.readIndex → q.contents.length = size
  | .sizeGuess (.loadRead write) => count q.readIndex write ≤ q.contents.length
  | .sizeGuess (.loadWrite read) => read = q.readIndex
  | _ => True

/-- A call leads on to a place with one property or to a result with another. -/
def Leads {P R : Type} (known : P → Prop) (holds : R → Prop) : Progress P R → Prop
  | .running pc => known pc
  | .returned r => holds r

/-- A step of a question leads the producer on, or to an answer that holds. -/
theorem queryStep_producer {q : SpscQueue size α} {pc : QueryPc size} (h : pc.ForProducer q) :
    Leads (QueryPc.ForProducer q) (Answer.HoldsForProducer q) (queryStep q pc) := by
  cases pc with
  | isEmpty pc =>
      cases pc with
      | start readFirst =>
          cases readFirst with
          | true => exact (contents_eq_nil q).mpr
          | false => rfl
      | loadWrite read =>
          intro hempty
          exact h (of_decide_eq_true hempty)
      | loadRead write =>
          intro hempty
          obtain rfl : write = q.writeIndex := h
          exact (contents_eq_nil q).mpr (of_decide_eq_true hempty)
  | isFull pc =>
      cases pc with
      | loadWrite => rfl
      | loadRead write =>
          intro hroom
          obtain rfl : write = q.writeIndex := h
          have hne : q.contents.length ≠ size :=
            fun hfull => of_decide_eq_false hroom (q.length_contents_eq_iff.mp hfull)
          exact lt_of_le_of_ne q.length_contents_le hne
  | sizeGuess pc =>
      cases pc with
      | start writeFirst =>
          cases writeFirst with
          | true => rfl
          | false => exact (length_contents_eq q).le
      | loadRead write =>
          obtain rfl : write = q.writeIndex := h
          show (q.contents.length : Int) ≤ sizeGuess q.writeIndex q.readIndex
          rw [sizeGuess_eq_count, length_contents_eq]
      | loadWrite read =>
          show (q.contents.length : Int) ≤ sizeGuess q.writeIndex read
          rw [sizeGuess_eq_count]
          exact Int.ofNat_le.mpr h

/-- A step of a question leads the consumer on, or to an answer that holds. -/
theorem queryStep_consumer {q : SpscQueue size α} {pc : QueryPc size} (h : pc.ForConsumer q) :
    Leads (QueryPc.ForConsumer q) (Answer.HoldsForConsumer q) (queryStep q pc) := by
  cases pc with
  | isEmpty pc =>
      cases pc with
      | start readFirst =>
          cases readFirst with
          | true => rfl
          | false => exact mt (contents_eq_nil q).mp
      | loadWrite read =>
          intro hsome hnil
          obtain rfl : read = q.readIndex := h
          exact of_decide_eq_false hsome ((contents_eq_nil q).mp hnil)
      | loadRead write =>
          intro hsome
          exact h (of_decide_eq_false hsome)
  | isFull pc =>
      cases pc with
      | loadWrite => exact q.length_contents_eq_iff.mpr
      | loadRead write =>
          intro hfull
          exact h (of_decide_eq_true hfull)
  | sizeGuess pc =>
      cases pc with
      | start writeFirst =>
          cases writeFirst with
          | true => exact (length_contents_eq q).ge
          | false => rfl
      | loadRead write =>
          show sizeGuess write q.readIndex ≤ (q.contents.length : Int)
          rw [sizeGuess_eq_count]
          exact Int.ofNat_le.mpr h
      | loadWrite read =>
          obtain rfl : read = q.readIndex := h
          show sizeGuess q.writeIndex q.readIndex ≤ (q.contents.length : Int)
          rw [sizeGuess_eq_count, length_contents_eq]

/-- The consumer's steps keep what the producer has loaded. -/
theorem QueryPc.ForProducer.shrunk {q q' : SpscQueue size α} {pc : QueryPc size}
    (h : pc.ForProducer q) (hq : Shrunk q q') : pc.ForProducer q' := by
  have hlength := hq.contents.length_le
  cases pc with
  | isEmpty pc =>
      cases pc with
      | start readFirst => trivial
      | loadWrite read =>
          intro hread
          have hnil := hq.contents
          rw [h (hread.trans hq.writeIndex)] at hnil
          exact List.suffix_nil.mp hnil
      | loadRead write => exact Eq.trans h hq.writeIndex.symm
  | isFull pc =>
      cases pc with
      | loadWrite => trivial
      | loadRead write => exact Eq.trans h hq.writeIndex.symm
  | sizeGuess pc =>
      cases pc with
      | start writeFirst => trivial
      | loadRead write => exact Eq.trans h hq.writeIndex.symm
      | loadWrite read =>
          show q'.contents.length ≤ count read q'.writeIndex
          rw [hq.writeIndex]
          exact hlength.trans h

/-- The producer's steps keep what the consumer has loaded. -/
theorem QueryPc.ForConsumer.grown {q q' : SpscQueue size α} {pc : QueryPc size}
    (h : pc.ForConsumer q) (hq : Grown q q') : pc.ForConsumer q' := by
  have hlength := hq.contents.length_le
  cases pc with
  | isEmpty pc =>
      cases pc with
      | start readFirst => trivial
      | loadWrite read => exact Eq.trans h hq.readIndex.symm
      | loadRead write =>
          intro hread
          rw [hq.readIndex] at hread
          exact hq.ne_nil (h hread)
  | isFull pc =>
      cases pc with
      | loadWrite => trivial
      | loadRead write =>
          intro hfull
          exact hq.full (h (hfull.trans hq.readIndex))
  | sizeGuess pc =>
      cases pc with
      | start writeFirst => trivial
      | loadRead write =>
          show count q'.readIndex write ≤ q'.contents.length
          rw [hq.readIndex]
          exact Nat.le_trans h hlength
      | loadWrite read => exact Eq.trans h hq.readIndex.symm

/-! ## The invariant -/

/-- What holds where the producer stands. -/
def ProducerOk (q : SpscQueue size α) : ProducerPc size α → Prop
  | .idle => True
  | .enqueue record pc => pc.Valid q record
  | .query pc => pc.ForProducer q

/-- What holds where the consumer stands.  In {lit}`popFront` there is a record. -/
def ConsumerOk (q : SpscQueue size α) : ConsumerPc size α → Prop
  | .idle => True
  | .tryDequeue pc => pc.Valid q
  | .frontPtr .loadRead => True
  | .frontPtr (.loadWrite currentRead) => currentRead = q.readIndex
  | .popFront .loadRead => q.contents ≠ []
  | .popFront (.storeRead currentRead) => currentRead = q.readIndex ∧ q.contents ≠ []
  | .query pc => pc.ForConsumer q

/-- What holds between any two steps. -/
structure Inv (s : State size α) : Prop where
  log : s.enqueued = s.removed ++ s.queue.contents
  producer : ProducerOk s.queue s.producer
  consumer : ConsumerOk s.queue s.consumer
  producerTold : ∀ a ∈ s.producerTold, a.HoldsForProducer s.queue
  consumerTold : ∀ a ∈ s.consumerTold, a.HoldsForConsumer s.queue

theorem start_inv (garbage : Fin (size + 1) → α) : Inv (start garbage) where
  log := (create_contents garbage).symm
  producer := trivial
  consumer := trivial
  producerTold _ h := by cases h
  consumerTold _ h := by cases h

/-- The producer's steps keep what holds where the consumer stands. -/
theorem enqueueStep_consumerOk {q : SpscQueue size α} {record : α} {pc : EnqueuePc size}
    (h : pc.Valid q record) {cpc : ConsumerPc size α} (hc : ConsumerOk q cpc) :
    ConsumerOk (enqueueStep q record pc).1 cpc := by
  have hq := enqueueStep_grown h
  cases cpc with
  | idle => trivial
  | tryDequeue cpc => exact enqueueStep_consumer h hc
  | frontPtr cpc =>
      cases cpc with
      | loadRead => trivial
      | loadWrite currentRead => exact Eq.trans hc hq.readIndex.symm
  | popFront cpc =>
      cases cpc with
      | loadRead => exact hq.ne_nil hc
      | storeRead currentRead => exact ⟨hc.1.trans hq.readIndex.symm, hq.ne_nil hc.2⟩
  | query cpc => exact QueryPc.ForConsumer.grown hc hq

/-- The consumer's steps keep what holds where the producer stands. -/
theorem tryDequeueStep_producerOk {q : SpscQueue size α} {pc : TryDequeuePc size α}
    (h : pc.Valid q) {ppc : ProducerPc size α} (hp : ProducerOk q ppc) :
    ProducerOk (tryDequeueStep q pc).1 ppc := by
  cases ppc with
  | idle => trivial
  | enqueue record ppc => exact tryDequeueStep_producer h hp
  | query ppc => exact QueryPc.ForProducer.shrunk hp (tryDequeueStep_shrunk h)

/-- The next step of the producer. -/
theorem producerStep_inv {s s' : State size α} (h : Inv s)
    (hstep : s.producerStep s.producer = some s') : Inv s' := by
  have hok := h.producer
  generalize s.producer = pc at hstep hok
  cases pc with
  | idle => cases hstep
  | enqueue record pc =>
      have heffect := enqueueStep_spec hok
      have hconsumer := enqueueStep_consumerOk hok h.consumer
      have hgrown := enqueueStep_grown hok
      rw [State.producerStep] at hstep
      generalize enqueueStep s.queue record pc = r at hstep heffect hconsumer hgrown
      rcases r with ⟨q, progress⟩
      have htold : ∀ a ∈ s.consumerTold, a.HoldsForConsumer q :=
        fun a ha => (h.consumerTold a ha).grown hgrown
      cases progress with
      | running pc' =>
          cases hstep
          rcases heffect with ⟨hvalid, hcontents⟩
          refine ⟨?_, hvalid, hconsumer, fun a ha => (h.producerTold a ha).congr hcontents, htold⟩
          rw [hcontents]
          exact h.log
      | returned ok =>
          cases ok with
          | true =>
              cases hstep
              refine ⟨?_, trivial, hconsumer, ?_, htold⟩
              · rw [show q.contents = _ from heffect, h.log, List.append_assoc]
              · intro a ha
                cases ha
          | false =>
              cases hstep
              rcases heffect with ⟨rfl, -⟩
              exact ⟨h.log, trivial, hconsumer, h.producerTold, htold⟩
  | query pc =>
      have hleads := queryStep_producer hok
      rw [State.producerStep] at hstep
      generalize queryStep s.queue pc = r at hstep hleads
      cases r with
      | running pc' =>
          cases hstep
          exact ⟨h.log, hleads, h.consumer, h.producerTold, h.consumerTold⟩
      | returned answer =>
          cases hstep
          exact ⟨h.log, trivial, h.consumer,
            List.forall_mem_append.mpr ⟨h.producerTold, List.forall_mem_singleton.mpr hleads⟩,
            h.consumerTold⟩

/-- A record has left the queue: the producer was told nothing that this upsets. -/
theorem Inv.remove {s : State size α} {q : SpscQueue size α} {record : α} (h : Inv s)
    (hshrunk : Shrunk s.queue q) (hproducer : ProducerOk q s.producer)
    (hcontents : s.queue.contents = record :: q.contents) :
    Inv { s with
      queue := q, consumer := .idle, consumerTold := []
      removed := s.removed ++ [record] } where
  log := by
    rw [h.log, hcontents, List.append_assoc]
    rfl
  producer := hproducer
  consumer := trivial
  producerTold a ha := (h.producerTold a ha).shrunk hshrunk
  consumerTold _ ha := by cases ha

/-- A step of {lit}`try_dequeue`. -/
theorem tryDequeue_inv {s s' : State size α} {pc : TryDequeuePc size α} (h : Inv s)
    (hok : pc.Valid s.queue) (hstep : s.consumerStep (.tryDequeue pc) = some s') : Inv s' := by
  have heffect := tryDequeueStep_spec hok
  have hproducer := tryDequeueStep_producerOk hok h.producer
  have hshrunk := tryDequeueStep_shrunk hok
  rw [State.consumerStep] at hstep
  generalize tryDequeueStep s.queue pc = r at hstep heffect hproducer hshrunk
  rcases r with ⟨q, progress⟩
  cases progress with
  | running pc' =>
      cases hstep
      rcases heffect with ⟨hvalid, rfl⟩
      exact ⟨h.log, h.producer, hvalid, h.producerTold, h.consumerTold⟩
  | returned result =>
      cases result with
      | none =>
          cases hstep
          obtain rfl : q = s.queue := heffect
          exact ⟨h.log, h.producer, trivial, h.producerTold, h.consumerTold⟩
      | some record =>
          cases hstep
          exact h.remove hshrunk hproducer heffect

/-- A step of {lit}`popFront`.  The last one does to the indices what {lit}`try_dequeue`
does. -/
theorem popFront_inv {s s' : State size α} {pc : PopFrontPc size} (h : Inv s)
    (hok : ConsumerOk s.queue (.popFront pc))
    (hstep : s.consumerStep (.popFront pc) = some s') : Inv s' := by
  cases pc with
  | loadRead =>
      cases hstep
      exact ⟨h.log, h.producer, ⟨rfl, hok⟩, h.producerTold, h.consumerTold⟩
  | storeRead currentRead =>
      cases hstep
      rcases hok with ⟨rfl, hne⟩
      have hindices : s.queue.readIndex ≠ s.queue.writeIndex :=
        fun heq => hne ((contents_eq_nil s.queue).mpr heq)
      have hvalid : (TryDequeuePc.storeRead s.queue.readIndex
          (s.queue.records s.queue.readIndex)).Valid s.queue := ⟨rfl, hindices, rfl⟩
      exact h.remove (tryDequeueStep_shrunk hvalid) (tryDequeueStep_producerOk hvalid h.producer)
        (tryDequeueStep_spec hvalid)

/-- A step of {lit}`frontPtr`. -/
theorem frontPtr_inv {s s' : State size α} {pc : FrontPtrPc size} (h : Inv s)
    (hok : ConsumerOk s.queue (.frontPtr pc))
    (hstep : s.consumerStep (.frontPtr pc) = some s') : Inv s' := by
  cases pc with
  | loadRead =>
      cases hstep
      exact ⟨h.log, h.producer, rfl, h.producerTold, h.consumerTold⟩
  | loadWrite currentRead =>
      obtain rfl : currentRead = s.queue.readIndex := hok
      rw [State.consumerStep, frontPtrStep] at hstep
      by_cases hempty : s.queue.readIndex = s.queue.writeIndex
      · rw [if_pos hempty] at hstep
        cases hstep
        refine ⟨h.log, h.producer, trivial, h.producerTold, List.forall_mem_append.mpr
          ⟨h.consumerTold, List.forall_mem_singleton.mpr fun p hp => ?_⟩⟩
        cases hp
      · rw [if_neg hempty] at hstep
        cases hstep
        refine ⟨h.log, h.producer, trivial, h.producerTold, List.forall_mem_append.mpr
          ⟨h.consumerTold, List.forall_mem_singleton.mpr fun p hp => ?_⟩⟩
        cases hp
        exact ⟨rfl, head_contents fun hnil => hempty ((contents_eq_nil s.queue).mp hnil)⟩

/-- The next step of the consumer. -/
theorem consumerStep_inv {s s' : State size α} (h : Inv s)
    (hstep : s.consumerStep s.consumer = some s') : Inv s' := by
  have hok := h.consumer
  generalize s.consumer = pc at hstep hok
  cases pc with
  | idle => cases hstep
  | tryDequeue pc => exact tryDequeue_inv h hok hstep
  | frontPtr pc => exact frontPtr_inv h hok hstep
  | popFront pc => exact popFront_inv h hok hstep
  | query pc =>
      have hleads := queryStep_consumer hok
      rw [State.consumerStep] at hstep
      generalize queryStep s.queue pc = r at hstep hleads
      cases r with
      | running pc' =>
          cases hstep
          exact ⟨h.log, h.producer, hleads, h.producerTold, h.consumerTold⟩
      | returned answer =>
          cases hstep
          exact ⟨h.log, h.producer, trivial, h.producerTold,
            List.forall_mem_append.mpr ⟨h.consumerTold, List.forall_mem_singleton.mpr hleads⟩⟩

/-- An answer that says so is right that there is a record. -/
theorem Answer.HoldsForConsumer.nonempty {q : SpscQueue size α} {a : Answer size}
    (h : a.HoldsForConsumer q) (hyes : a.saysNonempty = true) : q.contents ≠ [] := by
  cases a with
  | isEmpty empty => exact h (by simpa [saysNonempty] using hyes)
  | isFull full =>
      rcases Bool.and_eq_true_iff.mp hyes with ⟨hfull, hsize⟩
      have hpos : 0 < q.contents.length := (h hfull).symm ▸ of_decide_eq_true hsize
      exact List.length_pos_iff.mp hpos
  | sizeGuess ret =>
      have hpos : 0 < ret := of_decide_eq_true hyes
      have hle : ret ≤ q.contents.length := h
      intro hnil
      rw [hnil] at hle
      simp at hle
      omega
  | frontPtr front =>
      rcases Option.isSome_iff_exists.mp hyes with ⟨p, hp⟩
      intro hnil
      have hhead := (h p hp).2
      rw [hnil] at hhead
      cases hhead

/-- Every checked step keeps the invariant. -/
theorem step_inv {s s' : State size α} {a : Action α} (h : Inv s) (ha : Checked s a)
    (hstep : step s a = some s') : Inv s' := by
  cases a with
  | producer => exact producerStep_inv h hstep
  | consumer => exact consumerStep_inv h hstep
  | produce call =>
      rw [step] at hstep
      split at hstep
      · cases hstep
        refine ⟨h.log, ?_, h.consumer, h.producerTold, h.consumerTold⟩
        cases call with
        | enqueue record => trivial
        | query question => cases question <;> trivial
      · cases hstep
  | consume call =>
      rw [step] at hstep
      split at hstep
      · cases hstep
        refine ⟨h.log, h.producer, ?_, h.producerTold, h.consumerTold⟩
        cases call with
        | tryDequeue => trivial
        | frontPtr => trivial
        | popFront =>
            rcases ha rfl with ⟨answer, hanswer, hyes⟩
            exact (h.consumerTold answer hanswer).nonempty hyes
        | query question => cases question <;> trivial
      · cases hstep

/-- What a thread was told stays true until it changes the queue itself: to the producer,
whether there is room and how many records there are at most; to the consumer, whether there is
a record, how many there are at least, and where the oldest one is.  {lit}`popFront` is called
only after an answer that there is a record. -/
theorem answers_hold {garbage : Fin (size + 1) → α} {acts : List (Action α)}
    (hok : EachStep step Checked (start garbage) acts) :
    Always step (fun s => (∀ a ∈ s.producerTold, a.HoldsForProducer s.queue) ∧
      ∀ a ∈ s.consumerTold, a.HoldsForConsumer s.queue) (start garbage) acts :=
  always_of_eachStep (fun _ _ _ h ha hstep => step_inv h ha hstep)
    (fun _ h => ⟨h.producerTold, h.consumerTold⟩) (start_inv garbage) hok

/-- The consumer asks for the size, the producer enqueues a record before the consumer has
loaded both indices, and each of them asks again. -/
def overtaken : List (Action Nat) :=
  [.consume (.query (.sizeGuess true)), .consumer, .produce (.enqueue 7), .producer, .producer,
    .producer, .producer, .consumer, .consume .frontPtr, .consumer, .consumer,
    .produce (.query (.sizeGuess false)), .producer, .producer]

theorem answers_hold_overtaken :
    ∃ s, run step (start fun _ : Fin 3 => 0) overtaken = some s ∧
      s.producerTold = [.sizeGuess 1] ∧
      s.consumerTold = [.sizeGuess 0, .frontPtr (some 0)] ∧
      (∀ a ∈ s.producerTold, a.HoldsForProducer s.queue) ∧
      ∀ a ∈ s.consumerTold, a.HoldsForConsumer s.queue := by
  have hrun : (run step (start fun _ : Fin 3 => 0) overtaken).map
      (fun s => (s.producerTold, s.consumerTold)) =
        some ([.sizeGuess 1], [.sizeGuess 0, .frontPtr (some 0)]) := by
    decide
  have hok : EachStep step Checked (start fun _ : Fin 3 => 0) overtaken :=
    eachStep_of_checkSteps (fun _ _ h => of_decide_eq_true h) (by decide)
  rcases Option.map_eq_some_iff.mp hrun with ⟨s, hs, htold⟩
  rcases Prod.mk.inj htold with ⟨hproducer, hconsumer⟩
  exact ⟨s, hs, hproducer, hconsumer, answers_hold hok _ s (List.prefix_refl _) hs⟩

/-- The records leave the queue in the order in which they were enqueued, whether by
{lit}`try_dequeue` or by a {lit}`popFront` that was checked. -/
theorem removed_in_order {garbage : Fin (size + 1) → α} {acts : List (Action α)}
    (hok : EachStep step Checked (start garbage) acts) :
    Always step (fun s => s.enqueued = s.removed ++ s.queue.contents) (start garbage) acts :=
  always_of_eachStep (fun _ _ _ h ha hstep => step_inv h ha hstep) (fun _ h => h.log)
    (start_inv garbage) hok

/-- The record that {lit}`frontPtr` showed is dropped by {lit}`popFront`. -/
theorem removed_in_order_popFront :
    ∃ s, run step (start fun _ : Fin 3 => 0)
        (overtaken ++ [.consume .popFront, .consumer, .consumer]) = some s ∧
      s.removed = [7] ∧ s.enqueued = s.removed ++ s.queue.contents := by
  have hrun : (run step (start fun _ : Fin 3 => 0)
      (overtaken ++ [.consume .popFront, .consumer, .consumer])).map (·.removed) =
        some [7] := by
    decide
  have hok : EachStep step Checked (start fun _ : Fin 3 => 0)
      (overtaken ++ [.consume .popFront, .consumer, .consumer]) :=
    eachStep_of_checkSteps (fun _ _ h => of_decide_eq_true h) (by decide)
  rcases Option.map_eq_some_iff.mp hrun with ⟨s, hs, hremoved⟩
  exact ⟨s, hs, hremoved, removed_in_order hok _ s (List.prefix_refl _) hs⟩

end Calls
end SpscQueue
end TinyNet
