import TinyNet.Kqueue.SendQueue
import TinyNet.Library.StepSystem

/-!
# The filters of a kqueue session

{lit}`updateEvents` with {lit}`modify` set registers one of the two filters of a session
and deletes the other.  {lit}`async_send` asks for writes when it has accepted data; the
worker answers a write event with one {lit}`::send` of the pending bytes and then decides
from {lit}`errno` alone whether to go on writing or to go back to reading.  {lit}`errno`
is whatever the last failed call of the thread left there.  This file says which runs
leave a session without the filter it needs.

Main results:

- Theorem {lit}`step_attentive`: what each step makes of the filters.
- Theorem {lit}`attentive_iff_errno_tells`: a session is never deaf or stalled in exactly
  those runs in which {lit}`errno` says after each {lit}`::send` whether bytes remain.
- Theorem {lit}`session_stalls_or_goes_deaf`: a short {lit}`::send` that stalls a session,
  and an earlier {lit}`EAGAIN` of {lit}`recv` that makes one deaf.
-/

namespace TinyNet
namespace Kqueue
namespace Filters

open Library.FixedBuffer
open Library.MachineInt
open Library.StepSystem

variable {N : BufferSize}

/-- BSD value of {lit}`EAGAIN`. -/
def EAGAIN : Int := 35

/-- BSD value of {lit}`EWOULDBLOCK`. -/
def EWOULDBLOCK : Int := 35

/-- A live session: its send queue, its two filters, the worker's {lit}`errno`, and
whether a write event was handled since the last call of {lit}`async_send`. -/
structure Session (N : BufferSize) where
  queue : SendQueue N
  evfiltRead : Bool
  evfiltWrite : Bool
  errno : Int
  writeHandled : Bool
deriving DecidableEq

/-- {lit}`updateEvents` with the bits {lit}`kReadEvent` and {lit}`kWriteEvent` of its
argument {lit}`events`. -/
def updateEvents (s : Session N) (kReadEvent kWriteEvent modify : Bool) : Session N :=
  { s with
    evfiltRead := if kReadEvent then true else if modify then false else s.evfiltRead
    evfiltWrite := if kWriteEvent then true else if modify then false else s.evfiltWrite }

/-- A session as {lit}`Scheduler::push` registers it. -/
def registered (garbage : Buf UInt8 N.val) : Session N :=
  updateEvents
    { queue := .create garbage, evfiltRead := false, evfiltWrite := false, errno := 0
      writeHandled := false }
    true true false

/-- A result of {lit}`recv` that leaves the session alive: data, or -1 with
{lit}`EAGAIN`. -/
inductive Recv where
  | data
  | again
deriving DecidableEq

/-- A call of {lit}`async_send`, a read event, or a write event with the result of
{lit}`::send` and the {lit}`errno` that it sets if it fails. -/
inductive Action where
  | asyncSend (pData : List UInt8)
  | read (ret : Recv)
  | write (ret sendErrno : Int)
deriving DecidableEq

/-- {lit}`EventHandler::async_send`. -/
def asyncSend (s : Session N) (pData : List UInt8) : Option (Session N) := do
  let r ← s.queue.asyncSend pData
  let s' := { s with queue := r.1, writeHandled := false }
  some (if r.2 then updateEvents s' false true true else s')

/-- The {lit}`EVFILT_READ` branch of {lit}`Processor::run`, as far as it concerns the
filters. -/
def readEvent (s : Session N) : Recv → Session N
  | .data => s
  | .again => { s with errno := EAGAIN }

/-- {lit}`errno` after a {lit}`::send`. -/
def errnoAfter (s : Session N) (ret sendErrno : Int) : Int :=
  if ret = -1 then sendErrno else s.errno

/-- The test {lit}`errno == EAGAIN || errno == EWOULDBLOCK`. -/
def wouldBlock (errno : Int) : Bool :=
  errno = EAGAIN || errno = EWOULDBLOCK

/-- The {lit}`EVFILT_WRITE` branch of {lit}`Processor::run`. -/
def writeEvent (s : Session N) (ret sendErrno : Int) : Option (Session N) := do
  let _ ← s.queue.sendRange
  let errno := errnoAfter s ret sendErrno
  let s' := { s with queue := s.queue.sent ret, errno := errno, writeHandled := true }
  some (if wouldBlock errno then updateEvents s' false true true
    else updateEvents s' true false true)

/-- One step of the session. -/
def step (s : Session N) : Action → Option (Session N)
  | .asyncSend pData => asyncSend s pData
  | .read ret => some (readEvent s ret)
  | .write ret sendErrno =>
      if -1 ≤ ret ∧ ret ≤ s.queue.sndBufTail - s.queue.sndBufHead then
        writeEvent s ret sendErrno
      else none

/-- The session is neither stalled nor deaf: with unsent bytes it has its write filter,
and without any it has its read filter once a write event was handled. -/
structure Attentive (s : Session N) : Prop where
  write : s.queue.sndBufHead < s.queue.sndBufTail → s.evfiltWrite = true
  read : ¬s.queue.sndBufHead < s.queue.sndBufTail → s.writeHandled = true →
    s.evfiltRead = true

/-- The condition on a write event: {lit}`errno` is {lit}`EAGAIN` or {lit}`EWOULDBLOCK`
after its {lit}`::send` exactly if that leaves bytes unsent. -/
def ErrnoTells (s : Session N) (a : Action) : Prop :=
  ∀ ret sendErrno, a = .write ret sendErrno →
    (wouldBlock (errnoAfter s ret sendErrno) = true ↔
      s.queue.sndBufHead + max ret 0 < s.queue.sndBufTail)

/-! ## One step -/

/-- Bytes are pending exactly if the head is before the tail. -/
theorem head_lt_tail_iff {q : SendQueue N} (h : q.InRange) :
    q.sndBufHead < q.sndBufTail ↔ q.pending ≠ [] := by
  have hlength := h.length_pending
  rw [← List.length_pos_iff]
  omega

/-- A call of {lit}`async_send` leaves the session attentive: it asks for writes, or
changes neither what is pending nor the filters. -/
theorem asyncSend_attentive {s s' : Session N} {pData : List UInt8} (h : s.queue.InRange)
    (hstep : asyncSend s pData = some s') :
    s'.queue.InRange ∧ (Attentive s → Attentive s') := by
  rcases SendQueue.asyncSend_spec h pData with ⟨q, ok, hsend, hRange, -, hpending⟩
  cases ok with
  | true =>
      have heq : asyncSend s pData = some (updateEvents
          { s with queue := q, writeHandled := false } false true true) := by
        simp [asyncSend, hsend]
      rw [heq] at hstep
      obtain rfl := Option.some.inj hstep
      refine ⟨hRange, fun _ => ⟨fun _ => rfl, fun _ hhandled => ?_⟩⟩
      exact absurd hhandled (by simp [updateEvents])
  | false =>
      have heq : asyncSend s pData = some { s with queue := q, writeHandled := false } := by
        simp [asyncSend, hsend]
      rw [heq] at hstep
      obtain rfl := Option.some.inj hstep
      refine ⟨hRange, fun hattentive => ⟨?_, fun _ hhandled => absurd hhandled (by simp)⟩⟩
      intro hlt
      apply hattentive.write
      rw [head_lt_tail_iff h]
      rwa [head_lt_tail_iff hRange, hpending] at hlt

/-- The condition on a write event, for that event. -/
theorem errnoTells_write_iff {s : Session N} {ret sendErrno : Int} :
    ErrnoTells s (.write ret sendErrno) ↔
      (wouldBlock (errnoAfter s ret sendErrno) = true ↔
        s.queue.sndBufHead + max ret 0 < s.queue.sndBufTail) := by
  constructor
  · exact fun htells => htells ret sendErrno rfl
  · rintro hiff ret' sendErrno' heq
    obtain ⟨rfl, rfl⟩ := Action.write.inj heq
    exact hiff

/-- Bytes remain after a {lit}`::send` exactly if it took less than was pending. -/
theorem sent_remains_iff (q : SendQueue N) (ret : Int) :
    (q.sent ret).sndBufHead < (q.sent ret).sndBufTail ↔
      q.sndBufHead + max ret 0 < q.sndBufTail := by
  unfold SendQueue.sent
  split
  case isTrue hpos =>
    rw [max_eq_left hpos.le]
  case isFalse hneg =>
    rw [max_eq_right (by omega), add_zero]

/-- After a write event a session with exactly one of its filters is attentive exactly if
it is the right one. -/
theorem attentive_updateEvents_iff {s : Session N} {blocked : Bool}
    (hhandled : s.writeHandled = true) :
    Attentive (updateEvents s (!blocked) blocked true) ↔
      (blocked = true ↔ s.queue.sndBufHead < s.queue.sndBufTail) := by
  cases blocked with
  | true =>
      simp only [true_iff]
      constructor
      · intro hattentive
        by_contra hnone
        have hread := hattentive.read hnone hhandled
        simp [updateEvents] at hread
      · exact fun hlt => ⟨fun _ => rfl, fun hnone _ => absurd hlt hnone⟩
  | false =>
      simp only [Bool.false_eq_true, false_iff]
      constructor
      · intro hattentive hlt
        have hwrite := hattentive.write hlt
        simp [updateEvents] at hwrite
      · exact fun hnone => ⟨fun hlt => absurd hlt hnone, fun _ _ => rfl⟩

/-- A write event leaves the session attentive exactly if {lit}`errno` says whether bytes
remain. -/
theorem writeEvent_attentive {s s' : Session N} {ret sendErrno : Int} (h : s.queue.InRange)
    (hle : ret ≤ s.queue.sndBufTail - s.queue.sndBufHead)
    (hstep : writeEvent s ret sendErrno = some s') :
    s'.queue.InRange ∧ (Attentive s' ↔ ErrnoTells s (.write ret sendErrno)) := by
  have hlength := h.length_pending
  rcases SendQueue.sent_spec h (show ret ≤ s.queue.pending.length by omega) with ⟨hRange, -⟩
  have heq : writeEvent s ret sendErrno = some (updateEvents
      { s with queue := s.queue.sent ret, errno := errnoAfter s ret sendErrno,
               writeHandled := true }
      (!wouldBlock (errnoAfter s ret sendErrno)) (wouldBlock (errnoAfter s ret sendErrno))
      true) := by
    cases hblock : wouldBlock (errnoAfter s ret sendErrno) <;>
      simp [writeEvent, SendQueue.sendRange_spec h, hblock]
  rw [heq] at hstep
  obtain rfl := Option.some.inj hstep
  refine ⟨hRange, ?_⟩
  rw [attentive_updateEvents_iff rfl, errnoTells_write_iff, sent_remains_iff]

/-- What each step makes of the filters. -/
theorem step_attentive {s s' : Session N} {a : Action} (h : s.queue.InRange)
    (hstep : step s a = some s') :
    s'.queue.InRange ∧ (Attentive s → ErrnoTells s a → Attentive s') ∧
      (Attentive s' → ErrnoTells s a) := by
  cases a with
  | asyncSend pData =>
      rcases asyncSend_attentive h hstep with ⟨hRange, hattentive⟩
      exact ⟨hRange, fun hs _ => hattentive hs, fun _ _ _ heq => absurd heq (by simp)⟩
  | read ret =>
      obtain rfl := Option.some.inj hstep
      have hsame : (readEvent s ret).queue = s.queue ∧
          (Attentive s → Attentive (readEvent s ret)) := by
        cases ret with
        | data => exact ⟨rfl, fun hs => hs⟩
        | again => exact ⟨rfl, fun hs => ⟨hs.write, hs.read⟩⟩
      refine ⟨?_, fun hs _ => hsame.2 hs, fun _ _ _ heq => absurd heq (by simp)⟩
      rw [hsame.1]
      exact h
  | write ret sendErrno =>
      simp only [step, Option.ite_none_right_eq_some] at hstep
      rcases writeEvent_attentive h hstep.1.2 hstep.2 with ⟨hRange, hiff⟩
      exact ⟨hRange, fun _ => hiff.mpr, hiff.mp⟩

/-! ## Whole runs -/

/-- A session is never deaf or stalled in exactly those runs in which {lit}`errno` says
after each {lit}`::send` whether bytes remain. -/
theorem attentive_iff_errno_tells (garbage : Buf UInt8 N.val) (acts : List Action) :
    Always step Attentive (registered garbage) acts ↔
      EachStep step ErrnoTells (registered garbage) acts := by
  have hstart : (registered garbage).queue.InRange := SendQueue.create_inRange garbage
  constructor
  · intro halways
    exact eachStep_of_always (fun _ _ _ h hstep => (step_attentive h hstep).1)
      (fun _ _ _ h hstep hP => (step_attentive h hstep).2.2 hP) hstart halways
  · intro htells
    have hinv : (registered garbage).queue.InRange ∧ Attentive (registered garbage) :=
      ⟨hstart, fun _ => rfl, fun _ _ => rfl⟩
    have hattentive : ∀ s : Session N, s.queue.InRange ∧ Attentive s → Attentive s :=
      fun _ h => h.2
    refine always_of_eachStep ?_ hattentive hinv htells
    rintro s a s' ⟨hRange, hs⟩ hok hstep
    rcases step_attentive hRange hstep with ⟨hRange', hkeeps, -⟩
    exact ⟨hRange', hkeeps hs hok⟩

/-- Of two bytes a {lit}`::send` takes one, and with {lit}`errno` zero the write filter
is deleted; or {lit}`recv` has failed with {lit}`EAGAIN` before, {lit}`::send` takes both
bytes, and the read filter is not put back. -/
theorem session_stalls_or_goes_deaf :
    (∃ s, run step (registered (N := four) (.replicate 4 9))
        [.asyncSend [1, 2], .write 1 0] = some s ∧
      s.queue.pending = [2] ∧ s.evfiltWrite = false ∧ ¬Attentive s) ∧
    (∃ s, run step (registered (N := four) (.replicate 4 9))
        [.read .again, .asyncSend [1, 2], .write 2 0] = some s ∧
      s.queue.pending = [] ∧ s.evfiltRead = false ∧ ¬Attentive s) := by
  have hstall : (run step (registered (N := four) (.replicate 4 9))
      [.asyncSend [1, 2], .write 1 0]).map
        (fun s => (s.queue.pending, s.evfiltWrite, s.queue.sndBufHead, s.queue.sndBufTail)) =
      some ([2], false, 1, 2) := by
    decide
  have hdeaf : (run step (registered (N := four) (.replicate 4 9))
      [.read .again, .asyncSend [1, 2], .write 2 0]).map
        (fun s => (s.queue.pending, s.evfiltRead, s.writeHandled,
          decide (s.queue.sndBufHead < s.queue.sndBufTail))) = some ([], false, true, false) := by
    decide
  rcases Option.map_eq_some_iff.mp hstall with ⟨s, hs, heq⟩
  rcases Option.map_eq_some_iff.mp hdeaf with ⟨s', hs', heq'⟩
  simp only [Prod.mk.injEq, decide_eq_false_iff_not] at heq heq'
  rcases heq with ⟨hpending, hwrite, hhead, htail⟩
  rcases heq' with ⟨hpending', hread, hhandled, hnone⟩
  refine ⟨⟨s, hs, hpending, hwrite, ?_⟩, ⟨s', hs', hpending', hread, ?_⟩⟩
  · intro hattentive
    have htrue := hattentive.write (by omega)
    rw [hwrite] at htrue
    contradiction
  · intro hattentive
    have htrue := hattentive.read hnone hhandled
    rw [hread] at htrue
    contradiction

end Filters
end Kqueue
end TinyNet
