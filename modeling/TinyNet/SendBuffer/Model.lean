import TinyNet.Library.FixedBuffer
import TinyNet.Library.MachineInt

/-!
# The send buffer

This file embeds {lit}`SendBuffer<BufferSize>` of {lit}`detail/sendbuffer.hpp`:
{lit}`push` with its compaction, and {lit}`pop` cut into the three parts between
which it does not hold the lock.  The assertion at the head of {lit}`push` is
compiled out under {lit}`NDEBUG`, which the build sets, and is not part of the
model.  A missing result ({lit}`none`) is an access outside {lit}`dataBuf`.

Main results:

- Theorem {lit}`push_spec`: {lit}`push` stays in bounds and keeps the indices in
  range; it appends its data to the pending bytes when it returns true and leaves
  them alone when it returns false.
- Theorem {lit}`push_accepts`: when it does which.
- Theorem {lit}`handlerRange_spec`: the handler is given the first pending bytes.
- Theorem {lit}`finish_spec`: the closing update of {lit}`pop` drops what the
  handler consumed, or everything.
-/

namespace TinyNet

open Library.FixedBuffer
open Library.MachineInt

/-- The data members of {lit}`class SendBuffer<BufferSize>`. -/
structure SendBuffer (N : BufferSize) where
  dataHead : Int
  dataTail : Int
  dataBuf : Buf UInt8 N.val
deriving DecidableEq

namespace SendBuffer

variable {N : BufferSize}

/-- The buffer as the constructor leaves it; {lit}`dataBuf` is uninitialised. -/
def create (garbage : Buf UInt8 N.val) : SendBuffer N where
  dataHead := 0
  dataTail := 0
  dataBuf := garbage

/-- The pending bytes {lit}`dataBuf[dataHead..dataTail)`. -/
def pending (b : SendBuffer N) : List UInt8 :=
  b.dataBuf.range b.dataHead b.dataTail

/-- The left operand of both comparisons of {lit}`push`: the room behind
{lit}`dataTail`, converted to unsigned because {lit}`dataLen` is. -/
def room (b : SendBuffer N) : Int :=
  toU32 (N.val - b.dataTail)

/-- Move the pending bytes to the front. -/
def compact (b : SendBuffer N) : Option (SendBuffer N) :=
  let leftSize := b.dataTail - b.dataHead
  if 0 < leftSize then do
    let buf ← b.dataBuf.move 0 b.dataHead leftSize
    some { dataHead := 0, dataTail := leftSize, dataBuf := buf }
  else some { b with dataHead := 0, dataTail := 0 }

/-- The second half of {lit}`push`: copy the data behind the tail if it fits. -/
def append (b : SendBuffer N) (pData : List UInt8) : Option (SendBuffer N × Bool) :=
  if b.room > pData.length then do
    let buf ← b.dataBuf.write b.dataTail pData
    some ({ b with dataBuf := buf, dataTail := toI32 (b.dataTail + pData.length) }, true)
  else some (b, false)

/-- {lit}`SendBuffer::push(pData, dataLen)`, where {lit}`dataLen` is the number of
bytes given. -/
def push (b : SendBuffer N) (pData : List UInt8) : Option (SendBuffer N × Bool) :=
  if b.room < pData.length then
    if 0 < b.dataHead then do
      let b ← b.compact
      b.append pData
    else some (b, false)
  else b.append pData

/-- The length that {lit}`pop` reads under its first lock. -/
def snapshot (b : SendBuffer N) : Int :=
  b.dataTail - b.dataHead

/-- The bytes {lit}`(dataBuf + dataHead, dataLen)` that the handler is given. -/
def handlerRange (b : SendBuffer N) (dataLen : Int) : Option (List UInt8) :=
  b.dataBuf.read b.dataHead (toU32 dataLen)

/-- The closing update that {lit}`pop` makes under its second lock. -/
def finish (b : SendBuffer N) (dataLen popLen : Int) : SendBuffer N :=
  if popLen < dataLen then { b with dataHead := b.dataHead + popLen }
  else { b with dataHead := 0, dataTail := 0 }

/-- {lit}`SendBuffer::pop(handler)` without interruption. -/
def pop (b : SendBuffer N) (handler : List UInt8 → Int) :
    Option (SendBuffer N × Bool) := do
  let data ← b.handlerRange b.snapshot
  if handler data ≤ 0 then some (b, false)
  else some (b.finish b.snapshot (handler data), true)

/-- The index invariant: {lit}`0 <= dataHead <= dataTail < BufferSize`. -/
structure InRange (b : SendBuffer N) : Prop where
  head_nonneg : 0 ≤ b.dataHead
  head_le : b.dataHead ≤ b.dataTail
  tail_lt : b.dataTail < N.val

/-- A fresh buffer is in range. -/
theorem create_inRange (garbage : Buf UInt8 N.val) : (create garbage).InRange := by
  have hN := N.one_le
  refine ⟨le_rfl, le_rfl, ?_⟩
  show (0 : Int) < N.val
  omega

@[simp]
theorem create_pending (garbage : Buf UInt8 N.val) : (create garbage).pending = [] := by
  simp [pending, create]

namespace InRange

variable {b : SendBuffer N}

/-- In range, the unsigned comparisons of {lit}`push` are exact. -/
theorem room_eq (h : b.InRange) : b.room = N.val - b.dataTail := by
  have hnonneg := h.head_nonneg
  have hle := h.head_le
  have hlt := h.tail_lt
  have hN := N.lt_int
  exact toU32_of_range (by omega) (by omega)

/-- The number of pending bytes is the distance between the indices. -/
theorem length_pending (h : b.InRange) :
    (b.pending.length : Int) = b.dataTail - b.dataHead := by
  have hle := h.head_le
  have hlt := h.tail_lt
  rw [pending, Buf.length_range h.head_nonneg hle (by omega)]
  omega

end InRange

/-! ## Push -/

/-- Compaction re-bases the indices and keeps the pending bytes. -/
theorem compact_spec {b : SendBuffer N} (h : b.InRange) :
    ∃ b', b.compact = some b' ∧ b'.InRange ∧ b'.pending = b.pending ∧
      b'.dataHead = 0 := by
  have hnonneg := h.head_nonneg
  have hle := h.head_le
  have hlt := h.tail_lt
  unfold compact
  dsimp only
  by_cases hleft : 0 < b.dataTail - b.dataHead
  · rcases Buf.move_to_front b.dataBuf hnonneg hle (by omega) with ⟨buf, hbuf, hpending⟩
    rw [if_pos hleft, hbuf]
    refine ⟨⟨0, b.dataTail - b.dataHead, buf⟩, rfl, ?_, hpending, rfl⟩
    exact ⟨le_rfl, hleft.le, by simp only; omega⟩
  · have hempty : b.dataHead = b.dataTail := by omega
    rw [if_neg hleft]
    refine ⟨⟨0, 0, b.dataBuf⟩, rfl, ?_, ?_, rfl⟩
    · exact ⟨le_rfl, le_rfl, by simp only; omega⟩
    · simp [pending, hempty]

/-- The second half of {lit}`push`, decided by the room behind the tail. -/
theorem append_spec {b : SendBuffer N} (h : b.InRange) (pData : List UInt8) :
    ∃ b' ok, b.append pData = some (b', ok) ∧ b'.InRange ∧
      (ok = true ↔ b.dataTail + pData.length < N.val) ∧
      b'.pending = if ok then b.pending ++ pData else b.pending := by
  have hnonneg := h.head_nonneg
  have hle := h.head_le
  have hlt := h.tail_lt
  have hN := N.lt_int
  unfold append
  rw [h.room_eq]
  by_cases hroom : (N.val : Int) - b.dataTail > pData.length
  · have hi32 : toI32 (b.dataTail + pData.length) = b.dataTail + pData.length :=
      toI32_of_range (by omega) (by omega)
    rcases Buf.write_behind b.dataBuf pData hnonneg hle (by omega) with
      ⟨buf, hbuf, hpending⟩
    refine ⟨⟨b.dataHead, b.dataTail + pData.length, buf⟩, true,
      by simp [hroom, hbuf, hi32], ?_, ?_, hpending⟩
    · exact ⟨hnonneg, by simp only; omega, by simp only; omega⟩
    · simp only [true_iff]
      omega
  · refine ⟨b, false, by simp [hroom], h, ?_, by simp⟩
    simp only [Bool.false_eq_true, false_iff]
    omega

/-- {lit}`push` accepts data that fits behind the pending bytes with a byte to spare,
unless it fills the room behind the tail exactly. -/
theorem push_accepts {b : SendBuffer N} (h : b.InRange) (pData : List UInt8) :
    ∃ b' ok, b.push pData = some (b', ok) ∧ b'.InRange ∧
      (ok = true ↔ (pData.length : Int) < N.val - b.pending.length ∧
        (pData.length : Int) ≠ N.val - b.dataTail) ∧
      b'.pending = if ok then b.pending ++ pData else b.pending := by
  have hnonneg := h.head_nonneg
  have hlength := h.length_pending
  unfold push
  by_cases hroom : b.room < pData.length
  · have hroom' := hroom
    rw [h.room_eq] at hroom'
    by_cases hhead : 0 < b.dataHead
    · rcases compact_spec h with ⟨c, hc, hcRange, hcPending, hcHead⟩
      rcases append_spec hcRange pData with ⟨b', ok, happend, hRange, hok, hpending⟩
      have htail := hcRange.length_pending
      rw [hcPending] at hpending htail
      refine ⟨b', ok, by simp [hroom, hhead, hc, happend], hRange, ?_, hpending⟩
      rw [hok]
      omega
    · refine ⟨b, false, by simp [hroom, hhead], h, ?_, by simp⟩
      simp only [Bool.false_eq_true, false_iff]
      omega
  · rcases append_spec h pData with ⟨b', ok, happend, hRange, hok, hpending⟩
    refine ⟨b', ok, by simp [hroom, happend], hRange, ?_, hpending⟩
    rw [h.room_eq] at hroom
    rw [hok]
    omega

/-- {lit}`push` appends its data to the pending bytes or leaves them alone, as its
result says, and keeps the indices in range, whether or not it has compacted. -/
theorem push_spec {b : SendBuffer N} (h : b.InRange) (pData : List UInt8) :
    ∃ b' ok, b.push pData = some (b', ok) ∧ b'.InRange ∧
      b'.pending = if ok then b.pending ++ pData else b.pending := by
  rcases push_accepts h pData with ⟨b', ok, hpush, hRange, -, hpending⟩
  exact ⟨b', ok, hpush, hRange, hpending⟩

/-! ## Pop -/

/-- The handler is given the first {lit}`dataLen` pending bytes. -/
theorem handlerRange_spec {b : SendBuffer N} (h : b.InRange) {dataLen : Int}
    (hlen : 0 ≤ dataLen) (hle : dataLen ≤ b.pending.length) :
    b.handlerRange dataLen = some (b.pending.take dataLen.toNat) := by
  have hnonneg := h.head_nonneg
  have hlt := h.tail_lt
  have hN := N.lt_int
  have hpending := h.length_pending
  unfold handlerRange
  rw [toU32_of_range hlen (by omega), Buf.read_eq_some hnonneg hlen (by omega), pending,
    Buf.take_range _ (by omega), Int.toNat_of_nonneg hlen]

/-- The closing update of {lit}`pop` drops the consumed bytes if the handler left
some of the snapshot, and everything that is pending otherwise. -/
theorem finish_spec {b : SendBuffer N} (h : b.InRange) {dataLen popLen : Int}
    (hpop : 0 < popLen) (hle : popLen ≤ dataLen) (hlen : dataLen ≤ b.pending.length) :
    (b.finish dataLen popLen).InRange ∧
      (b.finish dataLen popLen).pending =
        if popLen < dataLen then b.pending.drop popLen.toNat else [] := by
  have hnonneg := h.head_nonneg
  have hlt := h.tail_lt
  have hpending := h.length_pending
  unfold finish
  split
  · refine ⟨⟨?_, ?_, hlt⟩, ?_⟩
    · show 0 ≤ b.dataHead + popLen
      omega
    · show b.dataHead + popLen ≤ b.dataTail
      omega
    · rw [pending, pending, Buf.drop_range _ hnonneg, Int.toNat_of_nonneg hpop.le]
  · refine ⟨⟨le_rfl, le_rfl, ?_⟩, by simp [pending]⟩
    show (0 : Int) < N.val
    omega

/-- An uninterrupted {lit}`pop` removes the first bytes the handler consumed from
the pending bytes, and leaves them alone when it returns false. -/
theorem pop_spec {b : SendBuffer N} (h : b.InRange) {handler : List UInt8 → Int}
    (hhandler : handler b.pending ≤ b.pending.length) :
    b.handlerRange b.snapshot = some b.pending ∧
    ∃ b' ok, b.pop handler = some (b', ok) ∧ b'.InRange ∧
      (ok = true ↔ 0 < handler b.pending) ∧
      b'.pending = b.pending.drop (handler b.pending).toNat := by
  have hpending := h.length_pending
  have hle := h.head_le
  have hrange : b.handlerRange b.snapshot = some b.pending := by
    rw [handlerRange_spec h (by unfold snapshot; omega) (by unfold snapshot; omega),
      List.take_of_length_le (by unfold snapshot; omega)]
  refine ⟨hrange, ?_⟩
  unfold pop
  rw [hrange]
  by_cases hpop : handler b.pending ≤ 0
  · refine ⟨b, false, by simp [hpop], h, ?_, ?_⟩
    · simp only [Bool.false_eq_true, false_iff]
      omega
    · rw [Int.toNat_eq_zero.mpr hpop, List.drop_zero]
  · have hsnap : b.snapshot = b.pending.length := hpending.symm
    have hsnapLe : b.snapshot ≤ b.pending.length := hsnap.le
    rcases finish_spec h (not_le.mp hpop) (by omega) hsnapLe with ⟨hRange, hdrop⟩
    refine ⟨b.finish b.snapshot (handler b.pending), true, by simp [hpop], hRange, ?_, ?_⟩
    · simp only [true_iff]
      omega
    · rw [hdrop]
      split
      · rfl
      · rw [List.drop_eq_nil_of_le (by omega)]

end SendBuffer
end TinyNet
