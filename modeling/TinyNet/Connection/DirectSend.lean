import TinyNet.Epoll.WriteInterest
import TinyNet.SendBuffer.Sequential

/-!
# Two ways of sending

A session of {lit}`detail/epollnet.hpp` has two calls for the application: {lit}`async_send`
puts its data into the send buffer, from which the worker sends it on {lit}`EPOLLOUT` events,
and {lit}`send` passes its data to {lit}`::send` at once.  This file runs both against the
worker, no call overlapping the worker's {lit}`pop`, and compares what is put on the connection
with what the calls have taken.

Main results:

- Theorem {lit}`stream_in_order_iff`: the bytes are put on the connection in the order of the
  calls exactly if each {lit}`send` takes bytes that commute with those pending in the buffer.
- Theorem {lit}`onSend_inside_iff`: what {lit}`send` tells {lit}`on_send` lies within its data
  only if at most half of that was sent.
-/

namespace TinyNet
namespace Connection
namespace DirectSend

open Library.FixedBuffer
open Library.MachineInt
open Library.StepSystem
open Epoll.WriteInterest (Session SendCall RET_OK RET_ERR epolloutBranch epolloutBranch_spec)

variable {N : BufferSize}

/-- The send half of a session, the bytes on the connection so far, the bytes that the calls
have taken in the order of the calls, and the arguments of {lit}`on_send`, its pointer given as
an offset into the caller's data. -/
structure State (N : BufferSize) where
  session : Session N
  wire : List UInt8
  taken : List UInt8
  onSend : List (Int × Int)

/-- The application calls {lit}`async_send` or {lit}`send`, or the worker handles an
{lit}`EPOLLOUT` event. -/
inductive Action where
  | asyncSend (pData : List UInt8)
  | send (pData : List UInt8) (call : SendCall)
  | epollout (staleErrno sendErrno : Int) (call : SendCall)

/-- A session as {lit}`Scheduler::push` registers it. -/
def start (garbage : Buf UInt8 N.val) : State N where
  session := Epoll.WriteInterest.registered garbage
  wire := []
  taken := []
  onSend := []

/-- The arguments of {lit}`on_send(pData + sntLen, sntLen)`, whose second is an
{lit}`unsigned int`. -/
def onSendArgs (sntLen : Int) : Int × Int :=
  (sntLen, sntLen % 2 ^ 32)

/-- One step; no result on a memory fault. -/
def step (s : State N) : Action → Option (State N)
  | .asyncSend pData => do
      let r ← Epoll.WriteInterest.asyncSend s.session pData
      some { s with
        session := r.1
        taken := if r.2 = RET_OK then s.taken ++ pData else s.taken }
  | .send pData call =>
      let sntLen := call.call pData
      some { s with
        wire := s.wire ++ SendBuffer.consumedBytes pData sntLen
        taken := s.taken ++ SendBuffer.consumedBytes pData sntLen
        onSend := s.onSend ++ [onSendArgs sntLen] }
  | .epollout staleErrno sendErrno call => do
      let data ← s.session.sendBuffer.handlerRange s.session.sendBuffer.snapshot
      let session ← epolloutBranch s.session staleErrno sendErrno call
      some { s with
        session := session
        wire := s.wire ++ SendBuffer.consumedBytes data (call.call data) }

/-- The bytes in the send buffer. -/
def State.pending (s : State N) : List UInt8 :=
  s.session.sendBuffer.pending

/-- The bytes on the connection and then those pending are what the calls took, in order. -/
def InOrder (s : State N) : Prop :=
  s.wire ++ s.pending = s.taken

/-- What a direct {lit}`send` takes may go before or after what is pending. -/
def Commutes (s : State N) : Action → Prop
  | .send pData call =>
      SendBuffer.consumedBytes pData (call.call pData) ++ s.pending =
        s.pending ++ SendBuffer.consumedBytes pData (call.call pData)
  | _ => True

/-- The indices of the send buffer are in range. -/
def InRange (s : State N) : Prop :=
  s.session.sendBuffer.InRange

theorem start_inRange (garbage : Buf UInt8 N.val) : InRange (start garbage) :=
  SendBuffer.create_inRange garbage

theorem start_inOrder (garbage : Buf UInt8 N.val) : InOrder (start garbage) := by
  show [] ++ (SendBuffer.create garbage).pending = []
  rw [SendBuffer.create_pending]
  rfl

/-- What a step does to the bytes. -/
inductive StepCase (s : State N) : Action → State N → Prop where
  | queued (pData : List UInt8) (s' : State N) (inRange : InRange s')
      (wire : s'.wire = s.wire) (taken : s'.taken = s.taken ++ pData)
      (pending : s'.pending = s.pending ++ pData) : StepCase s (.asyncSend pData) s'
  | refused (pData : List UInt8) (s' : State N) (inRange : InRange s')
      (wire : s'.wire = s.wire) (taken : s'.taken = s.taken)
      (pending : s'.pending = s.pending) : StepCase s (.asyncSend pData) s'
  | sent (pData : List UInt8) (call : SendCall) (s' : State N) (inRange : InRange s')
      (wire : s'.wire = s.wire ++ SendBuffer.consumedBytes pData (call.call pData))
      (taken : s'.taken = s.taken ++ SendBuffer.consumedBytes pData (call.call pData))
      (pending : s'.pending = s.pending) : StepCase s (.send pData call) s'
  | drained (staleErrno sendErrno : Int) (call : SendCall) (bytes : List UInt8)
      (s' : State N) (inRange : InRange s') (wire : s'.wire = s.wire ++ bytes)
      (taken : s'.taken = s.taken) (pending : bytes ++ s'.pending = s.pending) :
      StepCase s (.epollout staleErrno sendErrno call) s'

theorem step_cases {s s' : State N} {a : Action} (h : InRange s)
    (hstep : step s a = some s') : StepCase s a s' := by
  cases a with
  | asyncSend pData =>
      rcases SendBuffer.push_spec h pData with ⟨b, ok, hpush, hRange, hpending⟩
      cases ok with
      | true =>
          simp [step, Epoll.WriteInterest.asyncSend, hpush] at hstep
          subst hstep
          exact .queued pData _ hRange rfl rfl hpending
      | false =>
          simp [step, Epoll.WriteInterest.asyncSend, hpush, RET_OK, RET_ERR] at hstep
          subst hstep
          exact .refused pData _ hRange rfl rfl hpending
  | send pData call =>
      cases hstep
      exact .sent pData call _ h rfl rfl rfl
  | epollout staleErrno sendErrno call =>
      rcases SendBuffer.pop_spec h (call.le_length _) with ⟨hrange, -⟩
      rcases epolloutBranch_spec h staleErrno sendErrno call with
        ⟨session, hbranch, hRange, hpending, -⟩
      simp only [step, hrange, hbranch, Option.bind_eq_bind, Option.bind_some,
        Option.some.injEq] at hstep
      subst hstep
      refine .drained staleErrno sendErrno call _ _ hRange rfl rfl ?_
      show SendBuffer.consumedBytes s.pending (call.call s.pending) ++
        session.sendBuffer.pending = s.pending
      rw [hpending]
      exact SendBuffer.consumedBytes_append _ _

theorem step_inRange {s s' : State N} {a : Action} (h : InRange s)
    (hstep : step s a = some s') : InRange s' := by
  cases step_cases h hstep with
  | queued pData _ inRange => exact inRange
  | refused pData _ inRange => exact inRange
  | sent pData call _ inRange => exact inRange
  | drained staleErrno sendErrno call bytes _ inRange => exact inRange

/-- A step keeps the order exactly if what it sends directly commutes with what is pending. -/
theorem step_inOrder {s s' : State N} {a : Action} (h : InRange s) (horder : InOrder s)
    (hstep : step s a = some s') : InOrder s' ↔ Commutes s a := by
  unfold InOrder at horder ⊢
  cases step_cases h hstep with
  | queued pData _ _ hwire htaken hpending =>
      refine iff_of_true ?_ trivial
      rw [hwire, htaken, hpending, ← horder, List.append_assoc]
  | refused pData _ _ hwire htaken hpending =>
      refine iff_of_true ?_ trivial
      rw [hwire, htaken, hpending, horder]
  | sent pData call _ _ hwire htaken hpending =>
      rw [hwire, htaken, hpending, ← horder, List.append_assoc, List.append_assoc,
        List.append_cancel_left_eq]
      rfl
  | drained staleErrno sendErrno call bytes _ _ hwire htaken hpending =>
      refine iff_of_true ?_ trivial
      rw [hwire, htaken, List.append_assoc, hpending, horder]

/-- Along every run the bytes are put on the connection in the order of the calls exactly if
each {lit}`send` takes bytes that commute with those pending.  No call overlaps the worker's
{lit}`pop`. -/
theorem stream_in_order_iff (garbage : Buf UInt8 N.val) (acts : List Action) :
    Always step InOrder (start garbage) acts ↔ EachStep step Commutes (start garbage) acts := by
  constructor
  · intro halways pre a t t' hpre hrun hstep
    have ht := halways pre t ((List.prefix_append _ _).trans hpre) hrun
    have ht' : InOrder t' := by
      apply halways (pre ++ [a]) t' hpre
      rw [run_concat, hrun]
      exact hstep
    have hrange : InRange t :=
      run_invariant (fun _ _ _ => step_inRange) (start_inRange garbage) hrun
    exact (step_inOrder hrange ht hstep).mp ht'
  · intro hcommutes
    have hkeep : ∀ (s : State N) (a : Action) (s' : State N), (InRange s ∧ InOrder s) →
        Commutes s a → step s a = some s' → InRange s' ∧ InOrder s' :=
      fun _ _ _ h ha hstep =>
        ⟨step_inRange h.1 hstep, (step_inOrder h.1 h.2 hstep).mpr ha⟩
    exact always_of_eachStep hkeep (fun _ h => h.2)
      ⟨start_inRange garbage, start_inOrder garbage⟩ hcommutes

/-- Data that goes to the connection at once overtakes data that is pending. -/
example :
    (run step (start (.replicate 4 0) : State four)
      [.asyncSend [1, 2], .send [3] ⟨fun d => d.length, fun _ => by omega, fun _ => le_rfl⟩]).map
        (fun s => (s.wire, s.pending, s.taken)) = some ([3], [1, 2], [1, 2, 3]) := by
  decide

/-- The range that {lit}`send` passes to {lit}`on_send` starts where the bytes sent end.  It lies
within the caller's data exactly if {lit}`::send` did not fail and took at most half of it. -/
theorem onSend_inside_iff {pData : List UInt8} (call : SendCall)
    (hlen : pData.length < 2 ^ 32) :
    (0 ≤ (onSendArgs (call.call pData)).1 ∧
      (onSendArgs (call.call pData)).1 + (onSendArgs (call.call pData)).2 ≤ pData.length) ↔
      0 ≤ call.call pData ∧ 2 * call.call pData ≤ pData.length := by
  have hlow := call.neg_one_le pData
  have hle := call.le_length pData
  simp only [onSendArgs]
  omega

end DirectSend
end Connection
end TinyNet
