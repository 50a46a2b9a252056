import TinyNet.Library.FixedBuffer
import TinyNet.Library.MachineInt

/-!
# The send queue of the kqueue backend

On kqueue {lit}`EventHandler` keeps the bytes to send itself, in {lit}`sendBuf` between
{lit}`sndBufHead` and {lit}`sndBufTail`.  This file embeds {lit}`async_send`, whose
{lit}`while` loop moves the bytes to the front when the room behind them does not
suffice, and the {lit}`::send` that answers a write event.  A missing result
({lit}`none`) is an access outside {lit}`sendBuf`.

Main results:

- Theorem {lit}`makeRoom_spec`: the loop ends after at most two rounds, and what it
  refuses would not fit behind the pending bytes.
- Theorem {lit}`asyncSend_spec`: {lit}`async_send` appends its data to the pending bytes
  or leaves them alone, as its result says, and when it does which.
- Theorem {lit}`sendPending_spec`: the worker's {lit}`::send` is given the pending bytes,
  of which it removes what was sent.
-/

namespace TinyNet
namespace Kqueue

open Library.FixedBuffer
open Library.MachineInt

/-- The send half of {lit}`EventHandler`. -/
structure SendQueue (N : BufferSize) where
  sndBufHead : Int
  sndBufTail : Int
  sendBuf : Buf UInt8 N.val
deriving DecidableEq

/-- Where the {lit}`while` loop of {lit}`async_send` is: at its test, past it, or left by
its {lit}`return -1`. -/
inductive Room (N : BufferSize) where
  | testing (q : SendQueue N)
  | enough (q : SendQueue N)
  | refused (q : SendQueue N)
deriving DecidableEq

namespace SendQueue

variable {N : BufferSize}

/-- The queue as the constructor leaves it; {lit}`sendBuf` is uninitialised. -/
def create (garbage : Buf UInt8 N.val) : SendQueue N where
  sndBufHead := 0
  sndBufTail := 0
  sendBuf := garbage

/-- The pending bytes {lit}`sendBuf[sndBufHead..sndBufTail)`. -/
def pending (q : SendQueue N) : List UInt8 :=
  q.sendBuf.range q.sndBufHead q.sndBufTail

/-- The right operand of both comparisons of {lit}`async_send`: the room behind
{lit}`sndBufTail`, converted to unsigned because {lit}`dataLen` is. -/
def room (q : SendQueue N) : Int :=
  toU32 (N.val - q.sndBufTail)

/-- Move the pending bytes to the front. -/
def compact (q : SendQueue N) : Option (SendQueue N) := do
  let dataSize := toU32 (q.sndBufTail - q.sndBufHead)
  let buf ← q.sendBuf.move 0 q.sndBufHead dataSize
  some { sndBufHead := 0, sndBufTail := toI32 dataSize, sendBuf := buf }

/-- The {lit}`while` loop, for at most the given number of rounds. -/
def makeRoom (dataLen : Nat) : Nat → SendQueue N → Option (Room N)
  | 0, q => if q.room < dataLen then some (.testing q) else some (.enough q)
  | k + 1, q =>
      if q.room < dataLen then
        if 0 < q.sndBufHead then q.compact.bind (makeRoom dataLen k) else some (.refused q)
      else some (.enough q)

/-- What follows the loop: copy the data behind the tail if it fits. -/
def append (q : SendQueue N) (pData : List UInt8) : Option (SendQueue N × Bool) :=
  if pData.length < q.room then do
    let buf ← q.sendBuf.write q.sndBufTail pData
    some ({ q with sendBuf := buf, sndBufTail := toI32 (q.sndBufTail + pData.length) }, true)
  else some (q, false)

/-- {lit}`EventHandler::async_send(pData, dataLen)` up to its call of
{lit}`updateEvents`; false is its {lit}`return -1`.  Two rounds of the loop suffice. -/
def asyncSend (q : SendQueue N) (pData : List UInt8) : Option (SendQueue N × Bool) := do
  match ← q.makeRoom pData.length 2 with
  | .testing _ => none
  | .enough q => q.append pData
  | .refused q => some (q, false)

/-- The bytes that the worker passes to {lit}`::send` on a write event. -/
def sendRange (q : SendQueue N) : Option (List UInt8) :=
  q.sendBuf.read q.sndBufHead (q.sndBufTail - q.sndBufHead)

/-- The update after a {lit}`::send` that returned {lit}`sntLen`. -/
def sent (q : SendQueue N) (sntLen : Int) : SendQueue N :=
  if 0 < sntLen then { q with sndBufHead := q.sndBufHead + sntLen } else q

/-- The index invariant: {lit}`0 <= sndBufHead <= sndBufTail < SendBufSize`. -/
structure InRange (q : SendQueue N) : Prop where
  head_nonneg : 0 ≤ q.sndBufHead
  head_le : q.sndBufHead ≤ q.sndBufTail
  tail_lt : q.sndBufTail < N.val

theorem create_inRange (garbage : Buf UInt8 N.val) : (create garbage).InRange := by
  have hN := N.one_le
  refine ⟨le_rfl, le_rfl, ?_⟩
  show (0 : Int) < N.val
  omega

@[simp]
theorem create_pending (garbage : Buf UInt8 N.val) : (create garbage).pending = [] := by
  simp [pending, create]

section InRange

variable {q : SendQueue N}

/-- In range, the unsigned comparisons of {lit}`async_send` are exact. -/
theorem InRange.room_eq (h : q.InRange) : q.room = N.val - q.sndBufTail := by
  have hnonneg := h.head_nonneg
  have hle := h.head_le
  have hlt := h.tail_lt
  have hN := N.lt_int
  exact toU32_of_range (by omega) (by omega)

/-- The number of pending bytes is the distance between the indices. -/
theorem InRange.length_pending (h : q.InRange) :
    (q.pending.length : Int) = q.sndBufTail - q.sndBufHead := by
  have hle := h.head_le
  have hlt := h.tail_lt
  rw [pending, Buf.length_range h.head_nonneg hle (by omega)]
  omega

/-- Compaction puts the pending bytes at the front. -/
theorem compact_spec (h : q.InRange) :
    ∃ q', q.compact = some q' ∧ q'.InRange ∧ q'.pending = q.pending ∧
      q'.sndBufHead = 0 ∧ q'.sndBufTail = q.pending.length := by
  have hnonneg := h.head_nonneg
  have hle := h.head_le
  have hlt := h.tail_lt
  have hN := N.lt_int
  have hlength := h.length_pending
  have hu32 : toU32 (q.sndBufTail - q.sndBufHead) = q.sndBufTail - q.sndBufHead :=
    toU32_of_range (by omega) (by omega)
  have hi32 : toI32 (q.sndBufTail - q.sndBufHead) = q.sndBufTail - q.sndBufHead :=
    toI32_of_range (by omega) (by omega)
  rcases Buf.move_to_front q.sendBuf hnonneg hle (by omega) with ⟨buf, hbuf, hpending⟩
  refine ⟨⟨0, q.sndBufTail - q.sndBufHead, buf⟩, by simp [compact, hu32, hi32, hbuf], ?_,
    hpending, rfl, hlength.symm⟩
  exact ⟨le_rfl, by simp only; omega, by simp only; omega⟩

/-- The loop ends after at most two rounds.  Past it there is room for the data behind
the tail, which the loop has left alone if there was room already. -/
theorem makeRoom_spec (h : q.InRange) (dataLen : Nat) :
    (∃ q', q.makeRoom dataLen 2 = some (.enough q') ∧ q'.InRange ∧
      q'.pending = q.pending ∧ q'.sndBufTail + dataLen ≤ N.val ∧
      q'.sndBufTail = if q.sndBufTail + dataLen ≤ N.val then q.sndBufTail
        else q.pending.length) ∨
    (∃ q', q.makeRoom dataLen 2 = some (.refused q') ∧ q'.InRange ∧
      q'.pending = q.pending ∧ (N.val : Int) < q.pending.length + dataLen) := by
  have hlength := h.length_pending
  by_cases hroom : q.room < dataLen
  · have hroom' := hroom
    rw [h.room_eq] at hroom'
    by_cases hhead : 0 < q.sndBufHead
    · rcases compact_spec h with ⟨q', hcompact, hRange, hpending, hhead', htail⟩
      by_cases hagain : q'.room < dataLen
      · right
        refine ⟨q', by simp [makeRoom, hroom, hhead, hcompact, hagain, hhead'], hRange,
          hpending, ?_⟩
        rw [hRange.room_eq] at hagain
        omega
      · left
        refine ⟨q', by simp [makeRoom, hroom, hhead, hcompact, hagain], hRange, hpending, ?_, ?_⟩
        · rw [hRange.room_eq] at hagain
          omega
        · rw [if_neg (by omega), htail]
    · right
      refine ⟨q, by simp [makeRoom, hroom, hhead], h, rfl, ?_⟩
      have hnonneg := h.head_nonneg
      omega
  · left
    refine ⟨q, by simp [makeRoom, hroom], h, rfl, ?_, ?_⟩
    · rw [h.room_eq] at hroom
      omega
    · rw [h.room_eq] at hroom
      rw [if_pos (by omega)]

/-- What follows the loop, decided by the room behind the tail. -/
theorem append_spec (h : q.InRange) (pData : List UInt8) :
    ∃ q' ok, q.append pData = some (q', ok) ∧ q'.InRange ∧
      (ok = true ↔ q.sndBufTail + pData.length < N.val) ∧
      q'.pending = if ok then q.pending ++ pData else q.pending := by
  have hnonneg := h.head_nonneg
  have hle := h.head_le
  have hlt := h.tail_lt
  have hN := N.lt_int
  unfold append
  rw [h.room_eq]
  by_cases hroom : (pData.length : Int) < N.val - q.sndBufTail
  · have hi32 : toI32 (q.sndBufTail + pData.length) = q.sndBufTail + pData.length :=
      toI32_of_range (by omega) (by omega)
    rcases Buf.write_behind q.sendBuf pData hnonneg hle (by omega) with
      ⟨buf, hbuf, hpending⟩
    refine ⟨⟨q.sndBufHead, q.sndBufTail + pData.length, buf⟩, true,
      by simp [hroom, hbuf, hi32], ?_, ?_, hpending⟩
    · exact ⟨hnonneg, by simp only; omega, by simp only; omega⟩
    · simp only [true_iff]
      omega
  · refine ⟨q, false, by simp [hroom], h, ?_, by simp⟩
    simp only [Bool.false_eq_true, false_iff]
    omega

/-- {lit}`async_send` accepts data that fits behind the pending bytes with a byte to
spare, unless it fills the room behind the tail exactly. -/
theorem asyncSend_spec (h : q.InRange) (pData : List UInt8) :
    ∃ q' ok, q.asyncSend pData = some (q', ok) ∧ q'.InRange ∧
      (ok = true ↔ (pData.length : Int) < N.val - q.pending.length ∧
        (pData.length : Int) ≠ N.val - q.sndBufTail) ∧
      q'.pending = if ok then q.pending ++ pData else q.pending := by
  have hlength := h.length_pending
  have hnonneg := h.head_nonneg
  rcases makeRoom_spec h pData.length with
    ⟨q₁, hloop, hRange, hpending, hfits, htail⟩ | ⟨q₁, hloop, hRange, hpending, hfull⟩
  · rcases append_spec hRange pData with ⟨q', ok, happend, hRange', hok, hpending'⟩
    rw [hpending] at hpending'
    refine ⟨q', ok, by simp [asyncSend, hloop, happend], hRange', ?_, hpending'⟩
    rw [hok, htail]
    split_ifs <;> omega
  · refine ⟨q₁, false, by simp [asyncSend, hloop], hRange, ?_, by simpa using hpending⟩
    simp only [Bool.false_eq_true, false_iff]
    omega

/-- The worker passes the pending bytes to {lit}`::send`. -/
theorem sendRange_spec (h : q.InRange) : q.sendRange = some q.pending := by
  have hle := h.head_le
  have hlt := h.tail_lt
  rw [sendRange, Buf.read_eq_some h.head_nonneg (by omega) (by omega), pending]
  congr 2
  omega

/-- What was sent is removed from the pending bytes. -/
theorem sent_spec (h : q.InRange) {sntLen : Int} (hle : sntLen ≤ q.pending.length) :
    (q.sent sntLen).InRange ∧ (q.sent sntLen).pending = q.pending.drop sntLen.toNat := by
  have hnonneg := h.head_nonneg
  have hlt := h.tail_lt
  have hlength := h.length_pending
  unfold sent
  split
  case isTrue hpos =>
    refine ⟨⟨?_, ?_, hlt⟩, ?_⟩
    · show 0 ≤ q.sndBufHead + sntLen
      omega
    · show q.sndBufHead + sntLen ≤ q.sndBufTail
      omega
    · rw [pending, pending, Buf.drop_range _ hnonneg, Int.toNat_of_nonneg hpos.le]
  case isFalse hneg =>
    refine ⟨h, ?_⟩
    rw [Int.toNat_eq_zero.mpr (by omega), List.drop_zero]

end InRange

end SendQueue
end Kqueue
end TinyNet
