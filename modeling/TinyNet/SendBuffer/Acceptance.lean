import TinyNet.SendBuffer.Sequential

/-!
# When the send buffer accepts

What {lit}`push` answers should depend on how many bytes are pending, not on where they
lie in {lit}`dataBuf`.  It compacts if the data exceeds the room behind
{lit}`dataTail`, and accepts if the data is smaller than that room.  Data that fills the
room exactly falls between the two comparisons: it is refused without compaction, even
if bytes were popped and moving the pending ones to the front would make room.

Main results:

- Theorem {lit}`pushResult_eq`: what {lit}`push` returns, for indices in range.
- Theorem {lit}`accepts_by_pending_iff`: in every reachable state the answer depends on
  the pending bytes alone, exactly if the data is not such an exact fit.
- Theorem {lit}`exact_fit_refused`: a buffer of four with one byte pending that refuses
  two more.
-/

namespace TinyNet
namespace SendBuffer

open Library.FixedBuffer
open Library.MachineInt
open Library.StepSystem

variable {N : BufferSize}

/-- What {lit}`push(pData, dataLen)` returns. -/
def pushResult (b : SendBuffer N) (pData : List UInt8) : Option Bool :=
  (b.push pData).map Prod.snd

/-- The pending bytes and the data leave at least one byte of {lit}`dataBuf` free. -/
def fits (b : SendBuffer N) (pData : List UInt8) : Bool :=
  (b.dataTail - b.dataHead) + pData.length < N.val

/-- Bytes in front of the pending ones are free, and the data fills the room behind them
exactly. -/
def exactFit (b : SendBuffer N) (pData : List UInt8) : Bool :=
  0 < b.dataHead && (pData.length : Int) = N.val - b.dataTail

section InRange

variable {b b' : SendBuffer N}

/-- Data that fits exactly behind the tail fits. -/
theorem fits_of_exactFit {pData : List UInt8} (hexact : b.exactFit pData = true) :
    b.fits pData = true := by
  simp only [exactFit, Bool.and_eq_true, decide_eq_true_eq] at hexact
  simp only [fits, decide_eq_true_eq]
  omega

/-- {lit}`push` returns true for what fits, unless it fits exactly behind the tail. -/
theorem pushResult_eq (h : b.InRange) (pData : List UInt8) :
    b.pushResult pData = some (b.fits pData && !b.exactFit pData) := by
  have hnonneg := h.head_nonneg
  have hlength := h.length_pending
  rcases push_accepts h pData with ⟨b', ok, hpush, -, hok, -⟩
  have hdecide : ok = (b.fits pData && !b.exactFit pData) := by
    rw [Bool.eq_iff_iff, hok]
    simp only [fits, exactFit, Bool.and_eq_true, Bool.not_eq_true', Bool.and_eq_false_iff,
      decide_eq_true_eq, decide_eq_false_iff_not]
    omega
  rw [pushResult, hpush, Option.map_some, hdecide]

/-- The answer is that of the number of pending bytes exactly if the data is no exact
fit. -/
theorem pushResult_eq_fits_iff (h : b.InRange) (pData : List UInt8) :
    b.pushResult pData = some (b.fits pData) ↔ b.exactFit pData = false := by
  rw [pushResult_eq h, Option.some_inj]
  cases hexact : b.exactFit pData with
  | true => simp [fits_of_exactFit hexact]
  | false => simp

/-- The same bytes pending leave the same room. -/
theorem fits_congr (h : b.InRange) (h' : b'.InRange) (hpending : b.pending = b'.pending)
    (pData : List UInt8) : b.fits pData = b'.fits pData := by
  have hlength := h.length_pending
  have hlength' := h'.length_pending
  rw [← hpending] at hlength'
  rw [fits, fits, ← hlength, ← hlength']

/-- Two buffers with the same bytes pending answer alike exactly if the data is an exact
fit for both or for neither. -/
theorem pushResult_eq_iff (h : b.InRange) (h' : b'.InRange)
    (hpending : b.pending = b'.pending) (pData : List UInt8) :
    b.pushResult pData = b'.pushResult pData ↔ b.exactFit pData = b'.exactFit pData := by
  rw [pushResult_eq h, pushResult_eq h', Option.some_inj, ← fits_congr h h' hpending]
  cases hfits : b.fits pData with
  | true => simp
  | false =>
      have hexact : b.exactFit pData = false := by
        rw [← Bool.not_eq_true]
        intro hexact
        rw [fits_of_exactFit hexact] at hfits
        contradiction
      have hexact' : b'.exactFit pData = false := by
        rw [← Bool.not_eq_true]
        intro hexact'
        rw [fits_congr h h' hpending, fits_of_exactFit hexact'] at hfits
        contradiction
      simp [hexact, hexact']

end InRange

/-- After any sequence of calls, {lit}`push` returns true for data with
{lit}`(dataTail - dataHead) + len < BufferSize` and false for other data, exactly if the
data is no exact fit; and two buffers that any sequences of calls have left with the same
bytes pending answer alike, exactly if the data is an exact fit for both or for
neither. -/
theorem accepts_by_pending_iff (garbage garbage' : Buf UInt8 N.val) (ops ops' : List Op) :
    ∃ s s', run step (Ledger.start garbage) ops = some s ∧
      run step (Ledger.start garbage') ops' = some s' ∧
      (∀ pData, s.buf.pushResult pData = some (s.buf.fits pData) ↔
        s.buf.exactFit pData = false) ∧
      (s.buf.pending = s'.buf.pending → ∀ pData,
        (s.buf.pushResult pData = s'.buf.pushResult pData ↔
          s.buf.exactFit pData = s'.buf.exactFit pData)) := by
  rcases run_ledger (start_balanced garbage) ops with ⟨s, hrun, hRange, -⟩
  rcases run_ledger (start_balanced garbage') ops' with ⟨s', hrun', hRange', -⟩
  exact ⟨s, s', hrun, hrun', pushResult_eq_fits_iff hRange,
    fun hpending => pushResult_eq_iff hRange hRange' hpending⟩

/-- A handler that consumes one byte if there is one. -/
def takeOne : DataHandler where
  call data := min 1 data.length
  le_length data := min_le_right 1 (data.length : Int)

/-- Of two bytes in a buffer of four one is popped.  Two more would leave a byte free but
are refused, and a buffer with the same byte pending at its front accepts them. -/
theorem exact_fit_refused :
    ∃ s s', run step (Ledger.start (N := four) (.replicate 4 9))
        [.push [1, 2], .pop takeOne] = some s ∧
      run step (Ledger.start (N := four) (.replicate 4 9)) [.push [2]] = some s' ∧
      s.buf.pending = s'.buf.pending ∧ s.buf.fits [3, 4] = true ∧
      s.buf.pushResult [3, 4] = some false ∧ s'.buf.pushResult [3, 4] = some true := by
  have hrun : (run step (Ledger.start (N := four) (.replicate 4 9))
      [.push [1, 2], .pop takeOne]).map
        (fun s => (s.buf.pending, s.buf.fits [3, 4], s.buf.pushResult [3, 4])) =
      some ([2], true, some false) := by
    decide
  have hrun' : (run step (Ledger.start (N := four) (.replicate 4 9)) [.push [2]]).map
        (fun s => (s.buf.pending, s.buf.pushResult [3, 4])) =
      some ([2], some true) := by
    decide
  rcases Option.map_eq_some_iff.mp hrun with ⟨s, hs, heq⟩
  rcases Option.map_eq_some_iff.mp hrun' with ⟨s', hs', heq'⟩
  simp only [Prod.mk.injEq] at heq heq'
  exact ⟨s, s', hs, hs', heq.1.trans heq'.1.symm, heq.2.1, heq.2.2, heq'.2⟩

end SendBuffer
end TinyNet
