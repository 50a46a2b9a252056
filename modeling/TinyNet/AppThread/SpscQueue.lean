import TinyNet.Library.RingBuffer
import TinyNet.Library.StepSystem

/-!
# The single-producer single-consumer queue

This file embeds {lit}`utils::spscqueue` ({lit}`libs/spscqueue.hpp`).  Each load and
store of an index, and each access to a record, is one step; the producer is in
{lit}`enqueue` and the consumer in {lit}`isEmpty` or {lit}`try_dequeue` at the same
time.  The queue has {lit}`size + 1` records, one of which is always unused, and
index types that only hold indices of records.

Main results:

- Theorem {lit}`enqueueStep_spec`: {lit}`enqueue` appends its record when it returns
  true, and returns false only if the queue holds {lit}`size` records.
- Theorem {lit}`tryDequeueStep_spec`: {lit}`try_dequeue` removes the oldest record.
- Theorems {lit}`enqueueStep_consumer` and {lit}`tryDequeueStep_producer`: neither
  side's steps upset what the other has read so far.
-/

namespace TinyNet

open Library.RingBuffer
open Library.StepSystem

/-- {lit}`spscqueue<T>(size)`; the records start out uninitialised. -/
structure SpscQueue (size : Nat) (α : Type) where
  records : Fin (size + 1) → α
  readIndex : Fin (size + 1)
  writeIndex : Fin (size + 1)

namespace SpscQueue

variable {size : Nat} {α : Type}

/-- The constructor. -/
def create (garbage : Fin (size + 1) → α) : SpscQueue size α where
  records := garbage
  readIndex := ⟨0, Nat.succ_pos size⟩
  writeIndex := ⟨0, Nat.succ_pos size⟩

/-- The records in the queue, oldest first. -/
def contents (q : SpscQueue size α) : List α :=
  Library.RingBuffer.contents q.records q.readIndex q.writeIndex

/-! ## The calls, step by step -/

/-- The next step of {lit}`enqueue`. -/
inductive EnqueuePc (size : Nat) where
  | loadWrite
  | loadRead (currentWrite : Fin (size + 1))
  | storeRecord (currentWrite : Fin (size + 1))
  | storeWrite (currentWrite : Fin (size + 1))

/-- The next step of {lit}`try_dequeue`. -/
inductive TryDequeuePc (size : Nat) (α : Type) where
  | loadRead
  | loadWrite (currentRead : Fin (size + 1))
  | readRecord (currentRead : Fin (size + 1))
  | storeRead (currentRead : Fin (size + 1)) (record : α)

/-- The next step of {lit}`isEmpty`, whose operands may be loaded in either order. -/
inductive IsEmptyPc (size : Nat) where
  | start (readFirst : Bool)
  | loadWrite (read : Fin (size + 1))
  | loadRead (write : Fin (size + 1))

/-- One step of {lit}`enqueue(record)`. -/
def enqueueStep (q : SpscQueue size α) (record : α) :
    EnqueuePc size → SpscQueue size α × Progress (EnqueuePc size) Bool
  | .loadWrite => (q, .running (.loadRead q.writeIndex))
  | .loadRead currentWrite =>
      if next currentWrite ≠ q.readIndex then (q, .running (.storeRecord currentWrite))
      else (q, .returned false)
  | .storeRecord currentWrite =>
      ({ q with records := Function.update q.records currentWrite record },
        .running (.storeWrite currentWrite))
  | .storeWrite currentWrite =>
      ({ q with writeIndex := next currentWrite }, .returned true)

/-- One step of {lit}`try_dequeue`; the result is the record, if there was one. -/
def tryDequeueStep (q : SpscQueue size α) :
    TryDequeuePc size α → SpscQueue size α × Progress (TryDequeuePc size α) (Option α)
  | .loadRead => (q, .running (.loadWrite q.readIndex))
  | .loadWrite currentRead =>
      if currentRead = q.writeIndex then (q, .returned none)
      else (q, .running (.readRecord currentRead))
  | .readRecord currentRead =>
      (q, .running (.storeRead currentRead (q.records currentRead)))
  | .storeRead currentRead record =>
      ({ q with readIndex := next currentRead }, .returned (some record))

/-- One step of {lit}`isEmpty`. -/
def isEmptyStep (q : SpscQueue size α) :
    IsEmptyPc size → Progress (IsEmptyPc size) Bool
  | .start true => .running (.loadWrite q.readIndex)
  | .start false => .running (.loadRead q.writeIndex)
  | .loadWrite read => .returned (read = q.writeIndex)
  | .loadRead write => .returned (q.readIndex = write)

/-! ## What a call in progress knows about the queue -/

/-- What the producer has read is still so: only it moves the write index, and the
consumer can only make more room. -/
def EnqueuePc.Valid (q : SpscQueue size α) (record : α) : EnqueuePc size → Prop
  | .loadWrite => True
  | .loadRead currentWrite => currentWrite = q.writeIndex
  | .storeRecord currentWrite =>
      currentWrite = q.writeIndex ∧ next q.writeIndex ≠ q.readIndex
  | .storeWrite currentWrite =>
      currentWrite = q.writeIndex ∧ next q.writeIndex ≠ q.readIndex ∧
        q.records q.writeIndex = record

/-- What the consumer has read is still so: only it moves the read index, and the
producer can only add records behind the oldest. -/
def TryDequeuePc.Valid (q : SpscQueue size α) : TryDequeuePc size α → Prop
  | .loadRead => True
  | .loadWrite currentRead => currentRead = q.readIndex
  | .readRecord currentRead => currentRead = q.readIndex ∧ q.readIndex ≠ q.writeIndex
  | .storeRead currentRead record =>
      currentRead = q.readIndex ∧ q.readIndex ≠ q.writeIndex ∧
        q.records q.readIndex = record

@[simp]
theorem create_contents (garbage : Fin (size + 1) → α) :
    (create garbage).contents = [] := by
  rw [contents, contents_eq_nil_iff]
  rfl

/-- The queue never holds more than {lit}`size` records. -/
theorem length_contents_le (q : SpscQueue size α) : q.contents.length ≤ size := by
  rw [contents, length_contents]
  exact count_le _ _

/-- The queue refuses exactly when it holds {lit}`size` records. -/
theorem length_contents_eq_iff (q : SpscQueue size α) :
    q.contents.length = size ↔ next q.writeIndex = q.readIndex := by
  rw [contents, length_contents, count_eq_iff_full]

/-- What a step of {lit}`enqueue` does to the contents. -/
def EnqueueEffect (q q' : SpscQueue size α) (record : α) :
    Progress (EnqueuePc size) Bool → Prop
  | .running pc => pc.Valid q' record ∧ q'.contents = q.contents
  | .returned true => q'.contents = q.contents ++ [record]
  | .returned false => q' = q ∧ q.contents.length = size

/-- A step of {lit}`enqueue` leaves the contents alone, unless it is the one that
returns true. -/
theorem enqueueStep_spec {q : SpscQueue size α} {record : α} {pc : EnqueuePc size}
    (h : pc.Valid q record) :
    EnqueueEffect q (enqueueStep q record pc).1 record (enqueueStep q record pc).2 := by
  cases pc with
  | loadWrite => exact ⟨rfl, rfl⟩
  | loadRead currentWrite =>
      obtain rfl : currentWrite = q.writeIndex := h
      by_cases hfull : next q.writeIndex = q.readIndex
      · rw [enqueueStep, if_neg (not_not.mpr hfull)]
        exact ⟨rfl, q.length_contents_eq_iff.mpr hfull⟩
      · rw [enqueueStep, if_pos hfull]
        exact ⟨⟨rfl, hfull⟩, rfl⟩
  | storeRecord currentWrite =>
      rcases h with ⟨rfl, hroom⟩
      refine ⟨⟨rfl, hroom, Function.update_self _ _ _⟩, ?_⟩
      exact contents_update_write _ _ _ _
  | storeWrite currentWrite =>
      rcases h with ⟨rfl, hroom, hrecord⟩
      have happend := contents_next_write q.records hroom
      rw [hrecord] at happend
      exact happend

/-- The producer's steps keep what the consumer knows. -/
theorem enqueueStep_consumer {q : SpscQueue size α} {record : α} {pc : EnqueuePc size}
    (h : pc.Valid q record) {cpc : TryDequeuePc size α} (hc : cpc.Valid q) :
    cpc.Valid (enqueueStep q record pc).1 := by
  cases pc with
  | loadWrite => exact hc
  | loadRead currentWrite =>
      rw [enqueueStep]
      split <;> exact hc
  | storeRecord currentWrite =>
      rcases h with ⟨rfl, -⟩
      cases cpc with
      | loadRead => trivial
      | loadWrite currentRead => exact hc
      | readRecord currentRead => exact hc
      | storeRead currentRead x =>
          rcases hc with ⟨hread, hne, hx⟩
          refine ⟨hread, hne, ?_⟩
          rw [← hx]
          exact Function.update_of_ne hne record q.records
  | storeWrite currentWrite =>
      rcases h with ⟨rfl, hroom, -⟩
      cases cpc with
      | loadRead => trivial
      | loadWrite currentRead => exact hc
      | readRecord currentRead => exact ⟨hc.1, Ne.symm hroom⟩
      | storeRead currentRead x => exact ⟨hc.1, Ne.symm hroom, hc.2.2⟩

/-- What a step of {lit}`try_dequeue` does to the contents. -/
def TryDequeueEffect (q q' : SpscQueue size α) :
    Progress (TryDequeuePc size α) (Option α) → Prop
  | .running pc => pc.Valid q' ∧ q' = q
  | .returned none => q' = q
  | .returned (some record) => q.contents = record :: q'.contents

/-- A step of {lit}`try_dequeue` leaves the queue alone, unless it is the one that
returns the oldest record. -/
theorem tryDequeueStep_spec {q : SpscQueue size α} {pc : TryDequeuePc size α}
    (h : pc.Valid q) :
    TryDequeueEffect q (tryDequeueStep q pc).1 (tryDequeueStep q pc).2 := by
  cases pc with
  | loadRead => exact ⟨rfl, rfl⟩
  | loadWrite currentRead =>
      obtain rfl : currentRead = q.readIndex := h
      by_cases hempty : q.readIndex = q.writeIndex
      · rw [tryDequeueStep, if_pos hempty]
        rfl
      · rw [tryDequeueStep, if_neg hempty]
        exact ⟨⟨rfl, hempty⟩, rfl⟩
  | readRecord currentRead =>
      rcases h with ⟨rfl, hne⟩
      exact ⟨⟨rfl, hne, rfl⟩, rfl⟩
  | storeRead currentRead record =>
      rcases h with ⟨rfl, hne, hrecord⟩
      have hdrop := contents_next_read q.records hne
      rw [hrecord] at hdrop
      exact hdrop

/-- The consumer's steps keep what the producer knows. -/
theorem tryDequeueStep_producer {q : SpscQueue size α} {pc : TryDequeuePc size α}
    (h : pc.Valid q) {record : α} {ppc : EnqueuePc size} (hp : ppc.Valid q record) :
    ppc.Valid (tryDequeueStep q pc).1 record := by
  cases pc with
  | loadRead => exact hp
  | loadWrite currentRead =>
      rw [tryDequeueStep]
      split <;> exact hp
  | readRecord currentRead => exact hp
  | storeRead currentRead x =>
      rcases h with ⟨rfl, hne, -⟩
      -- the index after the write index cannot be the one the reader moves to
      have hroom : next q.writeIndex ≠ next q.readIndex :=
        fun heq => hne (next_injective heq).symm
      cases ppc with
      | loadWrite => trivial
      | loadRead currentWrite => exact hp
      | storeRecord currentWrite => exact ⟨hp.1, hroom⟩
      | storeWrite currentWrite => exact ⟨hp.1, hroom, hp.2.2⟩

end SpscQueue
end TinyNet
