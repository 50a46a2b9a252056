import TinyNet.Library.StepSystem
import TinyNet.SendBuffer.Model

/-!
# Pushes during a pop

{lit}`SendBuffer::pop` holds the lock while it reads the length and while it makes
its closing update, but not around the handler.  Here any number of threads call
{lit}`push`, one atomic step each, while one consumer takes the three steps of
{lit}`pop` again and again.

Each completed pop is recorded with the bytes it consumed and with the bytes that
were accepted while it was in progress.  A pop whose handler consumed the whole
snapshot resets both indices, and loses exactly the bytes accepted meanwhile.

Main results:

- Theorem {lit}`step_accounting`: every step keeps the accounting, without a
  memory fault.
- Theorem {lit}`run_accounting`: the accounting of every interleaving.
- Theorem {lit}`conserving_iff_drains_undisturbed`: no byte is lost in exactly
  those interleavings in which nothing is accepted during a pop that drains its
  whole snapshot.
- Theorem {lit}`drain_loses_push`: an interleaving that loses a byte.
-/

namespace TinyNet
namespace SendBuffer
namespace Concurrent

open Library.FixedBuffer
open Library.MachineInt
open Library.StepSystem

variable {N : BufferSize}

/-- Where the consumer stands in {lit}`pop`. -/
inductive PopPc where
  | idle
  | snapped (dataLen : Int)
  | handled (dataLen popLen : Int) (data : List UInt8)
deriving DecidableEq

/-- A completed pop: its length snapshot, the handler's answer, the bytes consumed,
and the bytes accepted between the snapshot and the closing update. -/
structure PopRecord where
  dataLen : Int
  popLen : Int
  taken : List UInt8
  during : List UInt8
deriving DecidableEq

/-- The buffer, the consumer's place in {lit}`pop`, and the books: all accepted
bytes, those accepted since the last snapshot, and the completed pops. -/
structure State (N : BufferSize) where
  buf : SendBuffer N
  pc : PopPc
  accepted : List UInt8
  during : List UInt8
  history : List PopRecord
deriving DecidableEq

/-- A state of the threads, or a memory fault. -/
inductive Conf (N : BufferSize) where
  | live (s : State N)
  | fault
deriving DecidableEq

/-- One step of some thread; {lit}`popLen` is what the handler returns. -/
inductive Action where
  | push (pData : List UInt8)
  | snapshot
  | handle (popLen : Int)
  | finish
deriving DecidableEq

/-- Before any call. -/
def start (garbage : Buf UInt8 N.val) : Conf N :=
  .live
    { buf := create garbage
      pc := .idle
      accepted := []
      during := []
      history := [] }

/-- A push, which holds the lock throughout. -/
def pushStep (s : State N) (pData : List UInt8) : Conf N :=
  match s.buf.push pData with
  | none => .fault
  | some (buf, true) =>
      .live
        { s with
          buf := buf
          accepted := s.accepted ++ pData
          during := s.during ++ pData }
  | some (buf, false) => .live { s with buf := buf }

/-- The handler call, on the bytes found at the current {lit}`dataHead`.  If it
consumed nothing, {lit}`pop` returns false. -/
def handleStep (s : State N) (dataLen popLen : Int) : Conf N :=
  match s.buf.handlerRange dataLen with
  | none => .fault
  | some data =>
      if popLen ≤ 0 then .live { s with pc := .idle }
      else .live { s with pc := .handled dataLen popLen data }

/-- The closing update of a pop. -/
def finishStep (s : State N) (dataLen popLen : Int) (data : List UInt8) : Conf N :=
  .live
    { s with
      buf := s.buf.finish dataLen popLen
      pc := .idle
      history := s.history ++ [⟨dataLen, popLen, data.take popLen.toNat, s.during⟩] }

/-- One step of some thread; no result if the consumer is elsewhere, or for an
answer of more bytes than the handler was given. -/
def step : Conf N → Action → Option (Conf N)
  | .fault, _ => none
  | .live s, .push pData => some (pushStep s pData)
  | .live s, .snapshot =>
      match s.pc with
      | .idle => some (.live { s with pc := .snapped s.buf.snapshot, during := [] })
      | _ => none
  | .live s, .handle popLen =>
      match s.pc with
      | .snapped dataLen =>
          if popLen ≤ dataLen then some (handleStep s dataLen popLen) else none
      | _ => none
  | .live s, .finish =>
      match s.pc with
      | .handled dataLen popLen data => some (finishStep s dataLen popLen data)
      | _ => none

/-- What a step of a thread can be. -/
inductive StepCase (s : State N) : Action → Conf N → Prop where
  | push (pData : List UInt8) : StepCase s (.push pData) (pushStep s pData)
  | snapshot (pc_eq : s.pc = .idle) :
      StepCase s .snapshot (.live { s with pc := .snapped s.buf.snapshot, during := [] })
  | handle (dataLen popLen : Int) (pc_eq : s.pc = .snapped dataLen)
      (le : popLen ≤ dataLen) :
      StepCase s (.handle popLen) (handleStep s dataLen popLen)
  | finish (dataLen popLen : Int) (data : List UInt8)
      (pc_eq : s.pc = .handled dataLen popLen data) :
      StepCase s .finish (finishStep s dataLen popLen data)

/-- Every step is one of the cases. -/
theorem step_cases {s : State N} {a : Action} {c : Conf N}
    (h : step (.live s) a = some c) : StepCase s a c := by
  cases a with
  | push pData =>
      cases h
      exact .push pData
  | snapshot =>
      simp only [step] at h
      split at h
      · rename_i hpc
        cases h
        exact .snapshot hpc
      · contradiction
  | handle popLen =>
      simp only [step] at h
      split at h
      · rename_i dataLen hpc
        split at h
        · rename_i hle
          cases h
          exact .handle dataLen popLen hpc hle
        · contradiction
      · contradiction
  | finish =>
      simp only [step] at h
      split at h
      · rename_i dataLen popLen data hpc
        cases h
        exact .finish dataLen popLen data hpc
      · contradiction

/-- The bytes that a completed pop has lost: those accepted meanwhile, if the
handler consumed the whole snapshot. -/
def PopRecord.missing (r : PopRecord) : List UInt8 :=
  if r.popLen = r.dataLen then r.during else []

/-- All bytes consumed by completed pops. -/
def State.consumed (s : State N) : List UInt8 :=
  s.history.flatMap (·.taken)

/-! ## The accounting invariant -/

/-- The snapshot is a prefix of the pending bytes, followed by what was accepted
since; compaction moves both but does not part them. -/
def PcInv (s : State N) : Prop :=
  match s.pc with
  | .idle => True
  | .snapped dataLen =>
      ∃ snap : List UInt8, (snap.length : Int) = dataLen ∧
        s.buf.pending = snap ++ s.during
  | .handled dataLen popLen data =>
      (data.length : Int) = dataLen ∧ 0 < popLen ∧ popLen ≤ dataLen ∧
        s.buf.pending = data ++ s.during

/-- A record of a pop that consumed {lit}`popLen` bytes of its snapshot. -/
def PopRecord.WellFormed (r : PopRecord) : Prop :=
  0 < r.popLen ∧ r.popLen ≤ r.dataLen ∧ (r.taken.length : Int) = r.popLen

/-- The accounting: every accepted byte was consumed by a pop, lost by a pop, or is
pending, in this order. -/
structure Accounting (s : State N) : Prop where
  inRange : s.buf.InRange
  pcInv : PcInv s
  records : ∀ r ∈ s.history, r.WellFormed
  bytes : s.accepted = s.history.flatMap (fun r => r.taken ++ r.missing) ++ s.buf.pending

/-- The accounting of a configuration, which is not a fault. -/
def ConfInv (c : Conf N) : Prop :=
  ∃ s, c = .live s ∧ Accounting s

theorem start_inv (garbage : Buf UInt8 N.val) : ConfInv (start garbage) :=
  ⟨_, rfl, create_inRange garbage, trivial, by simp, by simp⟩

/-- A push keeps the accounting, in each of its branches and wherever the consumer
stands. -/
theorem pushStep_inv {s : State N} (h : Accounting s) (pData : List UInt8) :
    ConfInv (pushStep s pData) := by
  rcases push_spec h.inRange pData with ⟨b', ok, hpush, hRange, hpending⟩
  unfold pushStep
  rw [hpush]
  cases ok with
  | true =>
      simp only [if_true] at hpending
      refine ⟨_, rfl, hRange, ?_, h.records, ?_⟩
      · have hpc := h.pcInv
        unfold PcInv at hpc ⊢
        dsimp only
        split at hpc
        · trivial
        · rcases hpc with ⟨snap, hsnap, hprefix⟩
          exact ⟨snap, hsnap, by rw [hpending, hprefix, List.append_assoc]⟩
        · rcases hpc with ⟨hlen, hpos, hle, hprefix⟩
          exact ⟨hlen, hpos, hle, by rw [hpending, hprefix, List.append_assoc]⟩
      · show s.accepted ++ pData = _ ++ b'.pending
        rw [hpending, h.bytes, List.append_assoc]
  | false =>
      simp only [Bool.false_eq_true, if_false] at hpending
      refine ⟨_, rfl, hRange, ?_, h.records, ?_⟩
      · have hpc := h.pcInv
        unfold PcInv at hpc ⊢
        dsimp only
        rw [hpending]
        exact hpc
      · show s.accepted = _ ++ b'.pending
        rw [hpending]
        exact h.bytes

/-- Reading the length keeps the accounting. -/
theorem snapshot_inv {s : State N} (h : Accounting s) :
    Accounting { s with pc := .snapped s.buf.snapshot, during := [] } := by
  refine ⟨h.inRange, ⟨s.buf.pending, ?_, by simp⟩, h.records, h.bytes⟩
  exact h.inRange.length_pending

/-- The handler sees the first pending bytes, whatever was pushed meanwhile. -/
theorem handleStep_inv {s : State N} (h : Accounting s) {dataLen popLen : Int}
    (hpc : s.pc = .snapped dataLen) (hle : popLen ≤ dataLen) :
    ConfInv (handleStep s dataLen popLen) := by
  have hsnapped := h.pcInv
  rw [PcInv, hpc] at hsnapped
  rcases hsnapped with ⟨snap, hlen, hpending⟩
  have hrange : s.buf.handlerRange dataLen = some snap := by
    rw [handlerRange_spec h.inRange (by omega) (by rw [hpending, List.length_append]; omega),
      hpending, ← hlen, Int.toNat_natCast, List.take_left]
  unfold handleStep
  rw [hrange]
  dsimp only
  split
  · exact ⟨_, rfl, h.inRange, trivial, h.records, h.bytes⟩
  · rename_i hpos
    exact ⟨_, rfl, h.inRange, ⟨hlen, not_le.mp hpos, hle, hpending⟩, h.records, h.bytes⟩

/-- The closing update drops the consumed bytes, and with a drained snapshot also
the bytes accepted meanwhile. -/
theorem finishStep_inv {s : State N} (h : Accounting s) {dataLen popLen : Int}
    {data : List UInt8} (hpc : s.pc = .handled dataLen popLen data) :
    ConfInv (finishStep s dataLen popLen data) := by
  have hhandled := h.pcInv
  rw [PcInv, hpc] at hhandled
  rcases hhandled with ⟨hlen, hpos, hle, hpending⟩
  have hpopNat : popLen.toNat ≤ data.length := by omega
  rcases finish_spec h.inRange hpos hle (by rw [hpending, List.length_append]; omega) with
    ⟨hRange, hdrop⟩
  refine ⟨_, rfl, hRange, trivial, ?_, ?_⟩
  · intro r hr
    rcases List.mem_append.mp hr with hr | hr
    · exact h.records r hr
    · rw [List.mem_singleton] at hr
      subst hr
      refine ⟨hpos, hle, ?_⟩
      show ((data.take popLen.toNat).length : Int) = popLen
      rw [List.length_take_of_le hpopNat]
      omega
  · show s.accepted = _ ++ (s.buf.finish dataLen popLen).pending
    rw [h.bytes, hdrop, List.flatMap_append, List.append_assoc, hpending]
    congr 1
    simp only [List.flatMap_singleton, PopRecord.missing]
    by_cases hfull : popLen = dataLen
    · subst hfull
      rw [if_pos rfl, if_neg (lt_irrefl _), List.append_nil,
        List.take_of_length_le (by omega)]
    · rw [if_neg hfull, if_pos (by omega), List.append_nil,
        List.drop_append_of_le_length hpopNat, ← List.append_assoc, List.take_append_drop]

/-- Every step of every thread keeps the accounting, without a memory fault. -/
theorem step_accounting {c c' : Conf N} {a : Action} (h : ConfInv c)
    (hstep : step c a = some c') : ConfInv c' := by
  rcases h with ⟨s, rfl, hacc⟩
  cases step_cases hstep with
  | push pData => exact pushStep_inv hacc pData
  | snapshot hpc => exact ⟨_, rfl, snapshot_inv hacc⟩
  | handle dataLen popLen hpc hle => exact handleStep_inv hacc hpc hle
  | finish dataLen popLen data hpc => exact finishStep_inv hacc hpc

/-! ## Every interleaving -/

/-- What was consumed is a part of what was accounted for, in the same order. -/
theorem consumed_sublist (history : List PopRecord) :
    (history.flatMap (·.taken)).Sublist
      (history.flatMap fun r => r.taken ++ r.missing) := by
  induction history with
  | nil => simp
  | cons r rs ih =>
      simp only [List.flatMap_cons]
      exact (List.sublist_append_left r.taken r.missing).append ih

/-- The exact accounting of every interleaving.  No step faults and the indices stay
in range; a handler's range lies inside the pending bytes; and the accepted bytes
are, in order, for each completed pop the bytes it consumed and the bytes it lost,
and then the pending bytes.  A pop loses bytes only if its handler consumed the
whole snapshot, and then those accepted between its snapshot and its closing
update. -/
theorem run_accounting (garbage : Buf UInt8 N.val) (acts : List Action) (c : Conf N)
    (hrun : run step (start garbage) acts = some c) :
    ∃ s, c = .live s ∧
      (0 ≤ s.buf.dataHead ∧ s.buf.dataHead ≤ s.buf.dataTail ∧
        s.buf.dataTail < N.val) ∧
      (∀ dataLen, s.pc = .snapped dataLen →
        0 ≤ dataLen ∧ s.buf.dataHead + dataLen ≤ s.buf.dataTail ∧
        s.buf.handlerRange dataLen =
          some (s.buf.dataBuf.range s.buf.dataHead (s.buf.dataHead + dataLen))) ∧
      (∀ r ∈ s.history, r.WellFormed) ∧
      s.accepted =
        s.history.flatMap (fun r => r.taken ++ r.missing) ++ s.buf.pending ∧
      (s.consumed ++ s.buf.pending).Sublist s.accepted := by
  have hinv : ConfInv c :=
    run_invariant (fun _ _ _ h hstep => step_accounting h hstep) (start_inv garbage) hrun
  rcases hinv with ⟨s, rfl, h⟩
  refine ⟨s, rfl, ⟨h.inRange.head_nonneg, h.inRange.head_le, h.inRange.tail_lt⟩, ?_,
    h.records, h.bytes, ?_⟩
  · intro dataLen hpc
    have hsnapped := h.pcInv
    rw [PcInv, hpc] at hsnapped
    rcases hsnapped with ⟨snap, hlen, hpending⟩
    have hlenPending := h.inRange.length_pending
    rw [hpending, List.length_append] at hlenPending
    have hnonneg : 0 ≤ dataLen := by omega
    have hle : s.buf.dataHead + dataLen ≤ s.buf.dataTail := by omega
    refine ⟨hnonneg, hle, ?_⟩
    rw [handlerRange_spec h.inRange hnonneg (by rw [hpending, List.length_append]; omega),
      pending, Buf.take_range _ (by omega), Int.toNat_of_nonneg hnonneg]
  · rw [h.bytes]
    exact (consumed_sublist s.history).append (List.Sublist.refl _)

/-- Uninitialised memory of four bytes. -/
def blankFour : Buf UInt8 four.val := .replicate 4 9

theorem run_accounting_partial_pop :
    ∃ s, run step (start blankFour)
        [.push [1, 2], .snapshot, .push [3], .handle 1, .finish] = some (.live s) ∧
      s.accepted =
        s.history.flatMap (fun r => r.taken ++ r.missing) ++ s.buf.pending := by
  have hrun : run step (start blankFour)
      [.push [1, 2], .snapshot, .push [3], .handle 1, .finish] =
      some (.live ⟨⟨1, 3, ⟨[1, 2, 3, 9], rfl⟩⟩, .idle, [1, 2, 3], [3],
        [⟨2, 1, [1], [3]⟩]⟩) := by
    decide
  rcases run_accounting blankFour _ _ hrun with ⟨s, hs, -, -, -, hbytes, -⟩
  exact ⟨s, hs ▸ hrun, hbytes⟩

/-! ## When nothing is lost -/

/-- Between pops, every accepted byte is consumed or pending. -/
def Conserving (c : Conf N) : Prop :=
  ∀ s, c = .live s → s.pc = .idle → s.accepted = s.consumed ++ s.buf.pending

/-- At the closing update of a pop that drained its whole snapshot, exactly the
bytes of the snapshot are still pending. -/
def DrainUndisturbed (c : Conf N) (a : Action) : Prop :=
  ∀ s dataLen popLen data, c = .live s → a = .finish →
    s.pc = .handled dataLen popLen data → popLen = dataLen →
    s.buf.dataTail - s.buf.dataHead = dataLen

/-- No completed pop has lost bytes. -/
def NothingMissing (s : State N) : Prop :=
  ∀ r ∈ s.history, r.missing = []

/-- Without losses, the accounting is conservation. -/
theorem Accounting.conserved {s : State N} (h : Accounting s) (hnone : NothingMissing s) :
    s.accepted = s.consumed ++ s.buf.pending := by
  have hflat : s.history.flatMap (fun r => r.taken ++ r.missing) =
      s.history.flatMap (·.taken) := by
    apply List.flatMap_congr
    intro r hr
    rw [hnone r hr, List.append_nil]
  rw [h.bytes, hflat]
  rfl

/-- What is accounted for is consumed or lost. -/
theorem length_accounted (history : List PopRecord) :
    (history.flatMap fun r => r.taken ++ r.missing).length =
      (history.flatMap (·.taken)).length + (history.flatMap (·.missing)).length := by
  induction history with
  | nil => simp
  | cons r rs ih =>
      simp only [List.flatMap_cons, List.length_append] at ih ⊢
      omega

/-- Conservation excludes losses. -/
theorem Accounting.nothingMissing {s : State N} (h : Accounting s)
    (hconserved : s.accepted = s.consumed ++ s.buf.pending) : NothingMissing s := by
  have hlen : (s.history.flatMap fun r => r.taken ++ r.missing).length =
      (s.history.flatMap (·.taken)).length := by
    have hlen := congrArg List.length (h.bytes.symm.trans hconserved)
    simpa [State.consumed] using hlen
  have hnil : s.history.flatMap (·.missing) = [] := by
    apply List.eq_nil_of_length_eq_zero
    have hsum := length_accounted s.history
    omega
  intro r hr
  exact List.flatMap_eq_nil_iff.mp hnil r hr

/-- The record that a closing update adds has lost nothing exactly if the snapshot
was not drained or nothing was accepted meanwhile. -/
theorem nothingMissing_finish {s : State N} (h : Accounting s) {dataLen popLen : Int}
    {data : List UInt8} (hpc : s.pc = .handled dataLen popLen data) :
    (⟨dataLen, popLen, data.take popLen.toNat, s.during⟩ : PopRecord).missing = [] ↔
      (popLen = dataLen → s.buf.dataTail - s.buf.dataHead = dataLen) := by
  have hhandled := h.pcInv
  rw [PcInv, hpc] at hhandled
  rcases hhandled with ⟨hlen, -, -, hpending⟩
  have hlenPending := h.inRange.length_pending
  rw [hpending, List.length_append] at hlenPending
  unfold PopRecord.missing
  by_cases hfull : popLen = dataLen
  · simp only [hfull, if_true, forall_const]
    rw [← List.length_eq_zero_iff]
    omega
  · simp [hfull]

theorem history_pushStep {s s' : State N} {pData : List UInt8}
    (h : pushStep s pData = .live s') : s'.history = s.history := by
  unfold pushStep at h
  split at h
  · contradiction
  · cases h
    rfl
  · cases h
    rfl

theorem history_handleStep {s s' : State N} {dataLen popLen : Int}
    (h : handleStep s dataLen popLen = .live s') : s'.history = s.history := by
  unfold handleStep at h
  split at h
  · contradiction
  · split at h
    · cases h
      rfl
    · cases h
      rfl

/-- The accounting, and no losses so far. -/
def LosslessInv (c : Conf N) : Prop :=
  ∃ s, c = .live s ∧ Accounting s ∧ NothingMissing s

/-- A step that does not close a disturbed drain loses nothing. -/
theorem step_lossless {c c' : Conf N} {a : Action} (h : LosslessInv c)
    (hok : DrainUndisturbed c a) (hstep : step c a = some c') : LosslessInv c' := by
  rcases h with ⟨s, rfl, hacc, hnone⟩
  rcases step_accounting ⟨s, rfl, hacc⟩ hstep with ⟨s', rfl, hacc'⟩
  refine ⟨s', rfl, hacc', ?_⟩
  intro r hr
  generalize hc : Conf.live s' = c' at hstep
  cases step_cases hstep with
  | push pData =>
      rw [history_pushStep hc.symm] at hr
      exact hnone r hr
  | snapshot hpc =>
      cases hc
      exact hnone r hr
  | handle dataLen popLen hpc hle =>
      rw [history_handleStep hc.symm] at hr
      exact hnone r hr
  | finish dataLen popLen data hpc =>
      cases hc
      rcases List.mem_append.mp hr with hold | hnew
      · exact hnone r hold
      · rw [List.mem_singleton] at hnew
        subst hnew
        exact (nothingMissing_finish hacc hpc).mpr (hok s dataLen popLen data rfl rfl hpc)

/-- If the books balance after a step, the step did not close a disturbed drain. -/
theorem drainUndisturbed_of_conserving {c c' : Conf N} {a : Action} (h : ConfInv c)
    (hstep : step c a = some c') (hcons : Conserving c') : DrainUndisturbed c a := by
  intro s dataLen popLen data hs ha hpc
  subst hs
  subst ha
  rcases h with ⟨s₁, hs₁, hacc⟩
  cases hs₁
  have hc' : c' = finishStep s dataLen popLen data := by
    simp only [step, hpc, Option.some.injEq] at hstep
    exact hstep.symm
  subst hc'
  rcases finishStep_inv hacc hpc with ⟨s', hs', hacc'⟩
  have hidle : s'.pc = .idle := by
    cases hs'
    rfl
  have hnone := hacc'.nothingMissing (hcons s' hs' hidle)
  apply (nothingMissing_finish hacc hpc).mp
  apply hnone
  cases hs'
  simp

/-- No accepted byte is lost in exactly those interleavings in which, whenever a pop
that drained its whole snapshot makes its closing update, nothing has been accepted
since the snapshot. -/
theorem conserving_iff_drains_undisturbed (garbage : Buf UInt8 N.val)
    (acts : List Action) :
    Always step Conserving (start garbage) acts ↔
      EachStep step DrainUndisturbed (start garbage) acts := by
  constructor
  · intro halways
    exact eachStep_of_always (fun _ _ _ h hstep => step_accounting h hstep)
      (fun _ _ _ h hstep hcons => drainUndisturbed_of_conserving h hstep hcons)
      (start_inv garbage) halways
  · intro hsteps
    have hstart : LosslessInv (start garbage) := by
      rcases start_inv garbage with ⟨s, hs, hacc⟩
      refine ⟨s, hs, hacc, ?_⟩
      cases hs
      simp [NothingMissing]
    refine always_of_eachStep (fun _ _ _ h hok hstep => step_lossless h hok hstep) ?_
      hstart hsteps
    rintro c ⟨s, rfl, hacc, hnone⟩ s₁ hs₁ -
    cases hs₁
    exact hacc.conserved hnone

/-- One byte is pushed and popped; a second byte pushed after the length was read is
accepted and then neither consumed nor pending. -/
theorem drain_loses_push :
    ∃ s, run step (start blankFour)
        [.push [1], .snapshot, .push [2], .handle 1, .finish] = some (.live s) ∧
      s.pc = .idle ∧ s.accepted = [1, 2] ∧ s.consumed = [1] ∧ s.buf.pending = [] ∧
      s.accepted ≠ s.consumed ++ s.buf.pending := by
  refine ⟨⟨⟨0, 0, ⟨[1, 2, 9, 9], rfl⟩⟩, .idle, [1, 2], [2], [⟨1, 1, [1], [2]⟩]⟩,
    ?_, rfl, rfl, rfl, rfl, ?_⟩
  · decide
  · decide

end Concurrent
end SendBuffer
end TinyNet
