import TinyNet.Epoll.WriteInterest
import TinyNet.Kqueue.SendQueue

/-!
# The send queue of the kqueue backend as a byte queue

Run one call after another, the send half of {lit}`EventHandler` on kqueue is a first-in
first-out queue of bytes.  Unlike {lit}`SendBuffer` it never sets its indices back when
everything was sent: the window between them drifts through {lit}`sendBuf` until the
{lit}`while` loop of {lit}`async_send` moves it to the front.

Main results:

- Theorem {lit}`makeRoom_ends`: the loop ends by itself, whatever the number of rounds
  that it is given.
- Theorem {lit}`step_ledger`: every call keeps the accounting and the indices.
- Theorem {lit}`run_stream`: the same after any sequence of calls, together with the end
  of the loop and the failure atomicity of the next call.
-/

namespace TinyNet
namespace Kqueue

open Library.FixedBuffer
open Library.MachineInt
open Library.StepSystem

variable {N : BufferSize}

/-! ## The end of the loop -/

namespace Room

/-- The queue that the loop has left. -/
def queue : Room N → SendQueue N
  | .testing q => q
  | .enough q => q
  | .refused q => q

/-- The loop was left, by its test or by {lit}`return -1`. -/
def ended : Room N → Bool
  | .testing _ => false
  | .enough _ => true
  | .refused _ => true

end Room

namespace SendQueue

/-- A loop that has ended takes no further round. -/
theorem makeRoom_succ {dataLen k : Nat} {q : SendQueue N} {r : Room N}
    (h : q.makeRoom dataLen k = some r) (hended : r.ended = true) :
    q.makeRoom dataLen (k + 1) = some r := by
  induction k generalizing q with
  | zero =>
      by_cases hroom : q.room < dataLen
      · simp only [makeRoom, hroom, if_true, Option.some.injEq] at h
        rw [← h] at hended
        contradiction
      · simpa [makeRoom, hroom] using h
  | succ k ih =>
      by_cases hroom : q.room < dataLen
      · by_cases hhead : 0 < q.sndBufHead
        · simp only [makeRoom, hroom, hhead, if_true, Option.bind_eq_some_iff] at h ⊢
          rcases h with ⟨q', hcompact, hrest⟩
          exact ⟨q', hcompact, by simpa only [makeRoom] using ih hrest⟩
        · simpa [makeRoom, hroom, hhead] using h
      · simpa [makeRoom, hroom] using h

/-- The loop ends by itself: given two rounds or more, it is always left in the same
place, with the indices in range and the pending bytes as they were. -/
theorem makeRoom_ends {q : SendQueue N} (h : q.InRange) (dataLen : Nat) :
    ∃ r, r.ended = true ∧ r.queue.InRange ∧ r.queue.pending = q.pending ∧
      ∀ k, 2 ≤ k → q.makeRoom dataLen k = some r := by
  have hmore : ∀ r : Room N, r.ended = true → q.makeRoom dataLen 2 = some r →
      ∀ k, 2 ≤ k → q.makeRoom dataLen k = some r := by
    intro r hended htwo k hk
    induction k, hk using Nat.le_induction with
    | base => exact htwo
    | succ k _ ih => exact makeRoom_succ ih hended
  rcases makeRoom_spec h dataLen with
    ⟨q', hloop, hRange, hpending, -, -⟩ | ⟨q', hloop, hRange, hpending, -⟩
  · exact ⟨.enough q', rfl, hRange, hpending, hmore _ rfl hloop⟩
  · exact ⟨.refused q', rfl, hRange, hpending, hmore _ rfl hloop⟩

end SendQueue

/-! ## The ledger -/

namespace Stream

open Epoll.WriteInterest (SendCall)

/-- A call of {lit}`async_send`, or the handling of an {lit}`EVFILT_WRITE`. -/
inductive Op where
  | asyncSend (pData : List UInt8)
  | writeReady (send : SendCall)

/-- The queue together with the data of the calls that returned 0 and the bytes that
{lit}`::send` has taken so far. -/
structure Ledger (N : BufferSize) where
  queue : SendQueue N
  accepted : List UInt8
  taken : List UInt8

/-- A session as its constructor leaves it. -/
def Ledger.start (garbage : Buf UInt8 N.val) : Ledger N where
  queue := .create garbage
  accepted := []
  taken := []

/-- One call, with the accounting of its bytes; no result on a memory fault. -/
def step (s : Ledger N) : Op → Option (Ledger N)
  | .asyncSend pData => do
      let r ← s.queue.asyncSend pData
      some
        { s with
          queue := r.1
          accepted := if r.2 then s.accepted ++ pData else s.accepted }
  | .writeReady send => do
      let data ← s.queue.sendRange
      some
        { s with
          queue := s.queue.sent (send.call data)
          taken := s.taken ++ data.take (send.call data).toNat }

/-- The indices are in range and every accepted byte was taken or is pending. -/
structure Ledger.Balanced (s : Ledger N) : Prop where
  inRange : s.queue.InRange
  bytes : s.accepted = s.taken ++ s.queue.pending

theorem start_balanced (garbage : Buf UInt8 N.val) : (Ledger.start garbage).Balanced where
  inRange := SendQueue.create_inRange garbage
  bytes := by simp [Ledger.start]

/-- Every call succeeds in memory and keeps the ledger balanced. -/
theorem step_ledger {s : Ledger N} (h : s.Balanced) (op : Op) :
    ∃ s', step s op = some s' ∧ s'.Balanced := by
  have hbytes := h.bytes
  cases op with
  | asyncSend pData =>
      rcases SendQueue.asyncSend_spec h.inRange pData with ⟨q, ok, hsend, hRange, -, hpending⟩
      refine ⟨⟨q, if ok then s.accepted ++ pData else s.accepted, s.taken⟩, ?_, hRange, ?_⟩
      · simp [step, hsend]
      · cases ok with
        | true => simp [hpending, hbytes]
        | false => simp [hpending, hbytes]
  | writeReady send =>
      have hrange := SendQueue.sendRange_spec h.inRange
      rcases SendQueue.sent_spec h.inRange (send.le_length _) with ⟨hRange, hpending⟩
      refine ⟨⟨s.queue.sent (send.call s.queue.pending), s.accepted,
        s.taken ++ s.queue.pending.take (send.call s.queue.pending).toNat⟩, ?_, hRange, ?_⟩
      · simp [step, hrange]
      · simp only [hpending, List.append_assoc, List.take_append_drop]
        exact hbytes

/-- Run sequentially, the send queue of the kqueue backend is a byte queue whose
{lit}`while` loop always ends.  After any sequence of calls and write events, none of
which has left {lit}`sendBuf`, the indices are in range, so that the comparisons of
{lit}`async_send` are exact; the data of the calls that returned 0 is what
{lit}`::send` has taken followed by the pending bytes; {lit}`::send` is next given
exactly the pending bytes; and the next {lit}`async_send` leaves its loop with the
indices in range and returns, with the pending bytes as they were if it returns -1. -/
theorem run_stream (garbage : Buf UInt8 N.val) (ops : List Op) :
    ∃ s, run step (Ledger.start garbage) ops = some s ∧
      s.queue.InRange ∧ s.queue.room = N.val - s.queue.sndBufTail ∧
      s.accepted = s.taken ++ s.queue.pending ∧
      s.queue.sendRange = some s.queue.pending ∧
      ∀ pData : List UInt8,
        (∃ r : Room N, r.ended = true ∧ r.queue.InRange ∧
          r.queue.room = N.val - r.queue.sndBufTail ∧
          ∀ k, 2 ≤ k → s.queue.makeRoom pData.length k = some r) ∧
        ∃ q ok, s.queue.asyncSend pData = some (q, ok) ∧ q.InRange ∧
          (ok = false → q.pending = s.queue.pending) := by
  rcases exists_run (fun _ op h => step_ledger h op) (start_balanced garbage) ops with
    ⟨s, hrun, h⟩
  refine ⟨s, hrun, h.inRange, h.inRange.room_eq, h.bytes,
    SendQueue.sendRange_spec h.inRange, ?_⟩
  intro pData
  constructor
  · rcases SendQueue.makeRoom_ends h.inRange pData.length with ⟨r, hended, hRange, -, hrounds⟩
    exact ⟨r, hended, hRange, hRange.room_eq, hrounds⟩
  · rcases SendQueue.asyncSend_spec h.inRange pData with ⟨q, ok, hsend, hRange, -, hpending⟩
    refine ⟨q, ok, hsend, hRange, ?_⟩
    intro hfail
    simp [hpending, hfail]

end Stream
end Kqueue
end TinyNet
