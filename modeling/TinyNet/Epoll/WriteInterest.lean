import TinyNet.Library.StepSystem
import TinyNet.SendBuffer.Model

/-!
# Write interest on the epoll backend

{lit}`EventHandler::async_send` appends to the send buffer and asks epoll for
{lit}`EPOLLOUT`.  The worker answers an {lit}`EPOLLOUT` event with one
{lit}`::send` of the pending bytes and then decides from {lit}`errno` alone
whether to keep asking.  This file runs the two against each other and says after
which {lit}`::send` results a session with pending bytes is left without
{lit}`EPOLLOUT`.

Main results:

- Theorem {lit}`epolloutBranch_spec`: what the worker's branch does to the pending
  bytes and to the interest set.
- Theorem {lit}`interested_iff_sends_settle`: pending output keeps its write
  interest in exactly those runs in which every {lit}`::send` takes all pending
  bytes or leaves {lit}`EAGAIN` in {lit}`errno`.
- Theorem {lit}`short_send_stalls`: a short {lit}`::send` that drops the interest.
-/

namespace TinyNet
namespace Epoll
namespace WriteInterest

open Library.FixedBuffer
open Library.MachineInt
open Library.StepSystem

variable {N : BufferSize}

/-- The bits of {lit}`epoll_event::events` that are registered for a session. -/
structure Events where
  epollin : Bool
  epollout : Bool
  epollerr : Bool
deriving DecidableEq

/-- The send half of a registered session: its buffer, and the interest set last
registered for its descriptor. -/
structure Session (N : BufferSize) where
  sendBuffer : SendBuffer N
  interest : Events
deriving DecidableEq

/-- Linux value of {lit}`EAGAIN`. -/
def EAGAIN : Int := 11

/-- Linux value of {lit}`EWOULDBLOCK`. -/
def EWOULDBLOCK : Int := 11

/-- {lit}`RET_OK` of {lit}`tinynet.hpp`. -/
def RET_OK : Int := 0

/-- {lit}`RET_ERR` of {lit}`tinynet.hpp`. -/
def RET_ERR : Int := -1

/-- {lit}`::send` as a handler: -1, or at most the number of bytes it is given. -/
structure SendCall where
  call : List UInt8 → Int
  neg_one_le : ∀ d, -1 ≤ call d
  le_length : ∀ d, call d ≤ d.length

/-- A step of the session's threads.  The worker's branch depends on the
{lit}`errno` left by earlier calls, and on the {lit}`errno` that {lit}`::send`
sets when it fails. -/
inductive Action where
  | asyncSend (pData : List UInt8)
  | epollout (staleErrno sendErrno : Int) (send : SendCall)

/-- A session as {lit}`Scheduler::push` registers it. -/
def registered (garbage : Buf UInt8 N.val) : Session N where
  sendBuffer := SendBuffer.create garbage
  interest := ⟨true, false, true⟩

/-- {lit}`EventHandler::async_send`, with its return value. -/
def asyncSend (s : Session N) (pData : List UInt8) : Option (Session N × Int) := do
  let r ← s.sendBuffer.push pData
  some ({ sendBuffer := r.1, interest := ⟨true, true, true⟩ },
    if r.2 then RET_OK else RET_ERR)

/-- {lit}`errno` after the {lit}`::send` of the worker's branch. -/
def errnoAfter (staleErrno sendErrno ret : Int) : Int :=
  if ret = -1 then sendErrno else staleErrno

/-- The test {lit}`errno == EAGAIN || errno == EWOULDBLOCK`. -/
def wouldBlock (errno : Int) : Bool :=
  errno = EAGAIN || errno = EWOULDBLOCK

/-- The {lit}`EPOLLOUT` branch of {lit}`Processor::run`. -/
def epolloutBranch (s : Session N) (staleErrno sendErrno : Int) (send : SendCall) :
    Option (Session N) := do
  let data ← s.sendBuffer.handlerRange s.sendBuffer.snapshot
  let r ← s.sendBuffer.pop send.call
  if wouldBlock (errnoAfter staleErrno sendErrno (send.call data)) then
    some { sendBuffer := r.1, interest := ⟨true, true, true⟩ }
  else
    some { sendBuffer := r.1, interest := ⟨true, false, true⟩ }

/-- One step; no result on a memory fault. -/
def step (s : Session N) : Action → Option (Session N)
  | .asyncSend pData => (asyncSend s pData).map Prod.fst
  | .epollout staleErrno sendErrno send => epolloutBranch s staleErrno sendErrno send

/-- A session with pending bytes has asked for {lit}`EPOLLOUT`. -/
def Interested (s : Session N) : Prop :=
  s.sendBuffer.pending ≠ [] → s.interest.epollout = true

/-- An {lit}`EPOLLOUT` event finds nothing pending, or its {lit}`::send` takes every
pending byte, or {lit}`errno` is {lit}`EAGAIN` or {lit}`EWOULDBLOCK` after it. -/
def SendSettles (s : Session N) (a : Action) : Prop :=
  ∀ staleErrno sendErrno send, a = .epollout staleErrno sendErrno send →
    s.sendBuffer.pending = [] ∨
    send.call s.sendBuffer.pending = s.sendBuffer.pending.length ∨
    wouldBlock (errnoAfter staleErrno sendErrno (send.call s.sendBuffer.pending)) = true

/-- {lit}`async_send` keeps the indices in range and asks for {lit}`EPOLLOUT`
whether or not it accepted the data. -/
theorem asyncSend_spec {s : Session N} (h : s.sendBuffer.InRange) (pData : List UInt8) :
    ∃ s' ret, asyncSend s pData = some (s', ret) ∧ s'.sendBuffer.InRange ∧
      s'.interest.epollout = true := by
  rcases SendBuffer.push_spec h pData with ⟨b', ok, hpush, hRange, -⟩
  exact ⟨⟨b', ⟨true, true, true⟩⟩, if ok then RET_OK else RET_ERR,
    by simp [asyncSend, hpush], hRange, rfl⟩

/-- The worker's branch drops what {lit}`::send` took, and keeps {lit}`EPOLLOUT`
exactly if {lit}`errno` says that the send would have blocked. -/
theorem epolloutBranch_spec {s : Session N} (h : s.sendBuffer.InRange)
    (staleErrno sendErrno : Int) (send : SendCall) :
    ∃ s', epolloutBranch s staleErrno sendErrno send = some s' ∧
      s'.sendBuffer.InRange ∧
      s'.sendBuffer.pending =
        s.sendBuffer.pending.drop (send.call s.sendBuffer.pending).toNat ∧
      s'.interest.epollout =
        wouldBlock (errnoAfter staleErrno sendErrno (send.call s.sendBuffer.pending)) := by
  rcases SendBuffer.pop_spec h (send.le_length _) with
    ⟨hrange, b', ok, hpop, hRange, -, hpending⟩
  cases hblock :
      wouldBlock (errnoAfter staleErrno sendErrno (send.call s.sendBuffer.pending)) with
  | true =>
      exact ⟨⟨b', ⟨true, true, true⟩⟩, by simp [epolloutBranch, hrange, hpop, hblock],
        hRange, hpending, rfl⟩
  | false =>
      exact ⟨⟨b', ⟨true, false, true⟩⟩, by simp [epolloutBranch, hrange, hpop, hblock],
        hRange, hpending, rfl⟩

/-- Every step succeeds in memory, and afterwards pending output has its write
interest exactly if the step settled its {lit}`::send`. -/
theorem step_spec {s : Session N} (h : s.sendBuffer.InRange) (a : Action) :
    ∃ s', step s a = some s' ∧ s'.sendBuffer.InRange ∧
      (Interested s' ↔ SendSettles s a) := by
  cases a with
  | asyncSend pData =>
      rcases asyncSend_spec h pData with ⟨s', ret, hsend, hRange, hout⟩
      refine ⟨s', by simp [step, hsend], hRange, ?_⟩
      constructor
      · intro _ staleErrno sendErrno send ha
        cases ha
      · intro _ _
        exact hout
  | epollout staleErrno sendErrno send =>
      rcases epolloutBranch_spec h staleErrno sendErrno send with
        ⟨s', hbranch, hRange, hpending, hout⟩
      refine ⟨s', hbranch, hRange, ?_⟩
      have hle := send.le_length s.sendBuffer.pending
      have hempty : s'.sendBuffer.pending = [] ↔
          s.sendBuffer.pending = [] ∨
            send.call s.sendBuffer.pending = s.sendBuffer.pending.length := by
        rw [hpending, List.drop_eq_nil_iff, ← List.length_eq_zero_iff]
        omega
      unfold Interested
      rw [hout, ne_eq, hempty]
      constructor
      · intro hint staleErrno' sendErrno' send' ha
        cases ha
        by_cases hsettled : s.sendBuffer.pending = [] ∨
            send.call s.sendBuffer.pending = s.sendBuffer.pending.length
        · rcases hsettled with hnil | hall
          · exact Or.inl hnil
          · exact Or.inr (Or.inl hall)
        · exact Or.inr (Or.inr (hint hsettled))
      · intro hsettles hsome
        rcases hsettles staleErrno sendErrno send rfl with hnil | hall | hblock
        · exact absurd (Or.inl hnil) hsome
        · exact absurd (Or.inr hall) hsome
        · exact hblock

/-- After a step, the indices are in range, and pending output has its write interest
exactly if the step settled its {lit}`::send`. -/
theorem step_interested {s s' : Session N} {a : Action} (h : s.sendBuffer.InRange)
    (hstep : step s a = some s') :
    s'.sendBuffer.InRange ∧ (Interested s' ↔ SendSettles s a) := by
  rcases step_spec h a with ⟨s₁, hs₁, hRange, hiff⟩
  rw [hs₁] at hstep
  cases hstep
  exact ⟨hRange, hiff⟩

/-- No run faults. -/
theorem exists_run_inRange {s : Session N} (h : s.sendBuffer.InRange)
    (acts : List Action) :
    ∃ s', run step s acts = some s' ∧ s'.sendBuffer.InRange := by
  have hstep : ∀ (s : Session N) a, s.sendBuffer.InRange →
      ∃ s', step s a = some s' ∧ s'.sendBuffer.InRange := by
    intro s a hs
    rcases step_spec hs a with ⟨s', hs', hRange, -⟩
    exact ⟨s', hs', hRange⟩
  exact exists_run hstep h acts

/-- Pending output keeps its write interest after every step of a run exactly if
every {lit}`EPOLLOUT` event of the run settles its {lit}`::send`.  No step of any
run faults. -/
theorem interested_iff_sends_settle (garbage : Buf UInt8 N.val) (acts : List Action) :
    (∃ s, run step (registered garbage) acts = some s) ∧
    (Always step Interested (registered garbage) acts ↔
      EachStep step SendSettles (registered garbage) acts) := by
  have hstart : (registered garbage).sendBuffer.InRange := SendBuffer.create_inRange garbage
  refine ⟨?_, ?_, ?_⟩
  · rcases exists_run_inRange hstart acts with ⟨s, hrun, -⟩
    exact ⟨s, hrun⟩
  · intro halways
    exact eachStep_of_always (fun _ _ _ hs hstep => (step_interested hs hstep).1)
      (fun _ _ _ hs hstep hP => (step_interested hs hstep).2.mp hP) hstart halways
  · intro hsteps
    have hlocal : ∀ (s : Session N) a s', (s.sendBuffer.InRange ∧ Interested s) →
        SendSettles s a → step s a = some s' →
        s'.sendBuffer.InRange ∧ Interested s' := by
      intro s a s' hs hok hstep
      have hnext := step_interested hs.1 hstep
      exact ⟨hnext.1, hnext.2.mpr hok⟩
    exact always_of_eachStep hlocal (fun _ hs => hs.2)
      ⟨hstart, fun hne => absurd (SendBuffer.create_pending garbage) hne⟩ hsteps

/-- A {lit}`::send` that takes at most one byte. -/
def oneByteSend : SendCall where
  call d := min 1 d.length
  neg_one_le d := by omega
  le_length d := by omega

/-- Two bytes are queued and a short {lit}`::send` takes one of them; with
{lit}`errno` zero the worker stops asking for {lit}`EPOLLOUT` while the other byte
is pending. -/
theorem short_send_stalls :
    ∃ s, run step (registered (⟨[9, 9, 9, 9], rfl⟩ : Buf UInt8 four.val))
        [.asyncSend [1, 2], .epollout 0 0 oneByteSend] = some s ∧
      s.sendBuffer.pending = [2] ∧ s.interest.epollout = false := by
  refine ⟨⟨⟨1, 2, ⟨[1, 2, 9, 9], rfl⟩⟩, ⟨true, false, true⟩⟩, ?_, rfl, rfl⟩
  decide

end WriteInterest
end Epoll
end TinyNet
