import TinyNet.Library.StepSystem
import TinyNet.SendBuffer.Model

/-!
# The send buffer as a byte queue

Run one call after another, {lit}`SendBuffer` is a first-in first-out queue of
bytes: what its handlers have consumed, followed by what is pending, is the
concatenation of everything it has accepted.

Main results:

- Theorem {lit}`step_ledger`: every call keeps the accounting and the indices.
- Theorem {lit}`run_fifo`: the same after any sequence of calls, together with
  the failure atomicity of the next call.
-/

namespace TinyNet
namespace SendBuffer

open Library.FixedBuffer
open Library.MachineInt
open Library.StepSystem

variable {N : BufferSize}

/-- A {lit}`DataHandler`: it answers with at most the number of bytes it was given. -/
structure DataHandler where
  call : List UInt8 → Int
  le_length : ∀ d, call d ≤ d.length

/-- A call on the buffer. -/
inductive Op where
  | push (pData : List UInt8)
  | pop (handler : DataHandler)

/-- Execute a call; the result is what the call returns. -/
def Op.exec (b : SendBuffer N) : Op → Option (SendBuffer N × Bool)
  | .push pData => b.push pData
  | .pop handler => b.pop handler.call

/-- The buffer together with the bytes accepted and the bytes consumed so far. -/
structure Ledger (N : BufferSize) where
  buf : SendBuffer N
  accepted : List UInt8
  consumed : List UInt8

/-- Nothing has been accepted or consumed. -/
def Ledger.start (garbage : Buf UInt8 N.val) : Ledger N where
  buf := create garbage
  accepted := []
  consumed := []

/-- The bytes a handler has consumed when it was given {lit}`data` and returned
{lit}`popLen`. -/
def consumedBytes (data : List UInt8) (popLen : Int) : List UInt8 :=
  if 0 < popLen then data.take popLen.toNat else []

/-- One call, with the accounting of its bytes; no result on a memory fault. -/
def step (s : Ledger N) : Op → Option (Ledger N)
  | .push pData => do
      let r ← s.buf.push pData
      some
        { s with
          buf := r.1
          accepted := if r.2 then s.accepted ++ pData else s.accepted }
  | .pop handler => do
      let data ← s.buf.handlerRange s.buf.snapshot
      let r ← s.buf.pop handler.call
      some
        { s with
          buf := r.1
          consumed := s.consumed ++ consumedBytes data (handler.call data) }

/-- The indices are in range and every accepted byte is consumed or pending. -/
def Ledger.Balanced (s : Ledger N) : Prop :=
  s.buf.InRange ∧ s.accepted = s.consumed ++ s.buf.pending

/-- Consuming the first bytes of the pending ones splits them. -/
theorem consumedBytes_append (data : List UInt8) (popLen : Int) :
    consumedBytes data popLen ++ data.drop popLen.toNat = data := by
  unfold consumedBytes
  split
  · exact List.take_append_drop _ _
  · rename_i hpop
    rw [Int.toNat_eq_zero.mpr (not_lt.mp hpop)]
    simp

/-- A call that returns false leaves the pending bytes alone. -/
theorem exec_spec {b : SendBuffer N} (h : b.InRange) (op : Op) :
    ∃ b' ok, op.exec b = some (b', ok) ∧ b'.InRange ∧
      (ok = false → b'.pending = b.pending) := by
  cases op with
  | push pData =>
      rcases push_spec h pData with ⟨b', ok, hpush, hRange, hpending⟩
      refine ⟨b', ok, hpush, hRange, ?_⟩
      intro hfail
      simp [hpending, hfail]
  | pop handler =>
      rcases pop_spec h (handler.le_length _) with ⟨-, b', ok, hpop, hRange, hok, hpending⟩
      refine ⟨b', ok, hpop, hRange, ?_⟩
      intro hfail
      have hzero : handler.call b.pending ≤ 0 := by
        by_contra hpos
        rw [hok.mpr (not_le.mp hpos)] at hfail
        contradiction
      rw [hpending, Int.toNat_eq_zero.mpr hzero, List.drop_zero]

/-- Every call succeeds in memory and keeps the ledger balanced. -/
theorem step_ledger {s : Ledger N} (h : s.Balanced) (op : Op) :
    ∃ s', step s op = some s' ∧ s'.Balanced := by
  rcases h with ⟨hRange, hbytes⟩
  cases op with
  | push pData =>
      rcases push_spec hRange pData with ⟨b', ok, hpush, hRange', hpending⟩
      refine ⟨⟨b', if ok then s.accepted ++ pData else s.accepted, s.consumed⟩, ?_,
        hRange', ?_⟩
      · simp [step, hpush]
      · cases ok with
        | true => simp [hpending, hbytes]
        | false => simp [hpending, hbytes]
  | pop handler =>
      rcases pop_spec hRange (handler.le_length _) with
        ⟨hrange, b', ok, hpop, hRange', -, hpending⟩
      refine ⟨⟨b', s.accepted,
        s.consumed ++ consumedBytes s.buf.pending (handler.call s.buf.pending)⟩, ?_,
        hRange', ?_⟩
      · simp [step, hrange, hpop]
      · simp only [hpending, List.append_assoc, consumedBytes_append]
        exact hbytes

/-- Every sequence of calls succeeds in memory and keeps the ledger balanced. -/
theorem run_ledger {s : Ledger N} (h : s.Balanced) (ops : List Op) :
    ∃ s', run step s ops = some s' ∧ s'.Balanced :=
  exists_run (fun _ op hbalanced => step_ledger hbalanced op) h ops

theorem start_balanced (garbage : Buf UInt8 N.val) : (Ledger.start garbage).Balanced :=
  ⟨create_inRange garbage, by simp [Ledger.start]⟩

/-- Run sequentially, the send buffer is a byte queue with failure atomicity.  After
any sequence of calls, none of which has left {lit}`dataBuf`, the indices are in
range, also after a compaction, so that both comparisons of the next {lit}`push`
are exact; the accepted bytes are the consumed bytes followed by the pending ones;
and a next call that returns false leaves the pending bytes as they are. -/
theorem run_fifo (garbage : Buf UInt8 N.val) (ops : List Op) :
    ∃ s, run step (Ledger.start garbage) ops = some s ∧
      s.accepted = s.consumed ++ s.buf.pending ∧
      s.buf.InRange ∧ s.buf.room = N.val - s.buf.dataTail ∧
      (∃ c, s.buf.compact = some c ∧ c.InRange ∧ c.room = N.val - c.dataTail) ∧
      ∀ op : Op, ∃ b' ok, op.exec s.buf = some (b', ok) ∧ b'.InRange ∧
        (ok = false → b'.pending = s.buf.pending) := by
  rcases run_ledger (start_balanced garbage) ops with ⟨s, hrun, hRange, hbytes⟩
  rcases compact_spec hRange with ⟨c, hc, hcRange, -, -⟩
  exact ⟨s, hrun, hbytes, hRange, hRange.room_eq, ⟨c, hc, hcRange, hcRange.room_eq⟩,
    exec_spec hRange⟩

end SendBuffer
end TinyNet
