import TinyNet.Epoll.Conservation
import TinyNet.Epoll.WriteInterest

/-!
# Why a session is closed on the epoll backend

On an {lit}`EPOLLIN` event the worker calls {lit}`recv` once, with the room that is left
in the receive buffer, and decides from the sign of the result alone: positive is data,
zero and negative both close the session.  This file runs one accepted session through
any sequence of such events, with the framing loop taken one iteration at a time so that
nothing is assumed about its end, and says on which events a session is closed although
its peer is still there.

Main results:

- Theorem {lit}`step_inv`: no step loses a byte, and a session is registered until it is
  closed.
- Theorem {lit}`closed_for_cause_iff`: every close has a cause in exactly those runs in
  which {lit}`recv` is called with room in the buffer and does not fail transiently, for
  as long as the peer has not closed.
- Theorem {lit}`closed_without_cause`: a session closed by a transient error, and one
  closed because an incomplete packet fills its buffer.
-/

namespace TinyNet
namespace Epoll
namespace Disconnect

open Library.FixedBuffer
open Library.MachineInt
open Library.StepSystem
open WriteInterest (wouldBlock)

variable {R : BufferSize}

/-- A result of {lit}`recv`: the bytes received, zero, or -1 with its {lit}`errno`. -/
inductive Recv where
  | data (chunk : List UInt8)
  | zero
  | error (errno : Int)
deriving DecidableEq

/-- A close path that a worker took: the result that led to it, and whether the peer had
closed the stream by then. -/
structure Close where
  ret : Recv
  peerClosed : Bool
deriving DecidableEq

/-- An accepted session.  While its worker is in the framing loop, {lit}`loop` holds the
loop's variables.  The last three fields are the history: the bytes that {lit}`recv`
returned, the bytes that events now ended passed to {lit}`on_recv`, and the close paths
taken. -/
structure Session (R : BufferSize) where
  recv : Receiver R
  loop : Option LoopVars
  registered : Bool
  peerClosed : Bool
  received : List UInt8
  delivered : List UInt8
  closedOn : List Close
deriving DecidableEq

/-- The peer closes its end, an {lit}`EPOLLIN` event is handled up to the head of the
loop, or the loop goes once round. -/
inductive Action where
  | peerCloses
  | epollIn (ret : Recv)
  | iterate
deriving DecidableEq

/-- A session that was just accepted. -/
def accepted (garbage : Buf UInt8 R.val) : Session R where
  recv := .create garbage
  loop := none
  registered := true
  peerClosed := false
  received := []
  delivered := []
  closedOn := []

namespace Session

/-- The results that {lit}`recv(fd, recvBuf + recvBufPos, recv_size(), 0)` can have.  For
no bytes asked it returns zero. -/
def Possible (s : Session R) : Recv → Prop
  | .data chunk => RecvResult s.recv chunk
  | .zero => s.recv.recvSize = 0 ∨ s.peerClosed = true
  | .error _ => 0 < s.recv.recvSize

instance (s : Session R) (ret : Recv) : Decidable (s.Possible ret) :=
  match ret with
  | .data chunk => inferInstanceAs (Decidable (1 ≤ chunk.length ∧ _))
  | .zero => inferInstanceAs (Decidable (_ ∨ _))
  | .error _ => inferInstanceAs (Decidable (0 < _))

/-- Go on with the outcome of a part of the framing loop. -/
def follow (s : Session R) : Flow R → Session R
  | .running r v => { s with recv := r, loop := some v }
  | .done r calls =>
      { s with
        recv := r
        loop := none
        delivered := s.delivered ++ calls.flatMap (·.data) }

/-- The close path after {lit}`recv`: out of the epoll set, with {lit}`on_disconnect`. -/
def close (s : Session R) (ret : Recv) : Session R :=
  { s with registered := false, closedOn := s.closedOn ++ [⟨ret, s.peerClosed⟩] }

/-- What the worker does with the result of {lit}`recv`. -/
def handle (f : ReadPacket) (s : Session R) : Recv → Option (Session R)
  | .data chunk =>
      (recvData f s.recv chunk).map { s with received := s.received ++ chunk }.follow
  | .zero => some (s.close .zero)
  | .error errno => some (s.close (.error errno))

/-- The bytes that {lit}`on_recv` has seen. -/
def parsed (s : Session R) : List UInt8 :=
  match s.loop with
  | none => s.delivered
  | some v => s.delivered ++ v.calls.flatMap (·.data)

/-- The bytes of the buffer that {lit}`on_recv` has not seen. -/
def unparsed (s : Session R) : List UInt8 :=
  match s.loop with
  | none => s.recv.contents
  | some v => s.recv.recvBuf.range v.readPos s.recv.recvBufPos

end Session

/-- The test {lit}`while (pkgLen > 0)` and the iteration under it. -/
def loopHead (f : ReadPacket) (s : Receiver R) (v : LoopVars) : Option (Flow R) :=
  if 0 < v.pkgLen then loopBody f s v else some (.done s v.calls)

/-- One step of a session. -/
def step (f : ReadPacket) (s : Session R) : Action → Option (Session R)
  | .peerCloses => some { s with peerClosed := true }
  | .epollIn ret =>
      if s.registered = true ∧ s.loop = none ∧ s.Possible ret then s.handle f ret else none
  | .iterate => s.loop.bind fun v => (loopHead f s.recv v).map s.follow

/-- Linux value of {lit}`EINTR`. -/
def EINTR : Int := 4

/-- The errors after which the connection is as good as before. -/
def transient (errno : Int) : Bool :=
  wouldBlock errno || errno == EINTR

/-- The peer has closed the stream, or {lit}`recv` failed for good. -/
def Close.HasCause (c : Close) : Prop :=
  c.peerClosed = true ∨ ∃ errno, c.ret = .error errno ∧ transient errno = false

/-- Every close of the session has a cause, and a session that was not closed is
registered and has every byte that it did not parse. -/
structure ClosedForCause (s : Session R) : Prop where
  cause : ∀ c ∈ s.closedOn, c.HasCause
  kept : s.closedOn = [] → s.registered = true ∧ s.parsed ++ s.unparsed = s.received

/-- The condition on an {lit}`EPOLLIN` event: there is room in the buffer and
{lit}`recv` does not fail transiently, unless the peer has closed. -/
def Undisturbed (s : Session R) (a : Action) : Prop :=
  ∀ ret, a = .epollIn ret → s.peerClosed = true ∨
    (0 < s.recv.recvSize ∧ ∀ errno, ret = .error errno → transient errno = false)

/-! ## What a step does -/

/-- The cases of a step, with what is enabled in each. -/
inductive StepCase (f : ReadPacket) (s : Session R) : Action → Session R → Prop where
  | peerCloses : StepCase f s .peerCloses { s with peerClosed := true }
  | data (chunk : List UInt8) (flow : Flow R) (hidle : s.loop = none)
      (hrecv : RecvResult s.recv chunk) (hflow : recvData f s.recv chunk = some flow) :
      StepCase f s (.epollIn (.data chunk))
        ({ s with received := s.received ++ chunk }.follow flow)
  | closed (ret : Recv) (hidle : s.loop = none) (hpossible : s.Possible ret)
      (hret : ∀ chunk, ret ≠ .data chunk) : StepCase f s (.epollIn ret) (s.close ret)
  | iterate (v : LoopVars) (flow : Flow R) (hloop : s.loop = some v)
      (hflow : loopHead f s.recv v = some flow) : StepCase f s .iterate (s.follow flow)

theorem step_cases {f : ReadPacket} {s s' : Session R} {a : Action}
    (h : step f s a = some s') : StepCase f s a s' := by
  cases a with
  | peerCloses =>
      obtain rfl := Option.some.inj h
      exact .peerCloses
  | epollIn ret =>
      simp only [step, Option.ite_none_right_eq_some] at h
      rcases h with ⟨⟨-, hidle, hpossible⟩, hhandle⟩
      cases ret with
      | data chunk =>
          rcases Option.map_eq_some_iff.mp hhandle with ⟨flow, hflow, rfl⟩
          exact .data chunk flow hidle hpossible hflow
      | zero =>
          obtain rfl := Option.some.inj hhandle
          exact .closed .zero hidle hpossible (by simp)
      | error errno =>
          obtain rfl := Option.some.inj hhandle
          exact .closed (.error errno) hidle hpossible (by simp)
  | iterate =>
      rcases Option.bind_eq_some_iff.mp h with ⟨v, hloop, hmap⟩
      rcases Option.map_eq_some_iff.mp hmap with ⟨flow, hflow, rfl⟩
      exact .iterate v flow hloop hflow

/-- The step at the head of the loop keeps the accounting of the event. -/
theorem loopHead_spec {f : ReadPacket} {s : Receiver R} {v : LoopVars}
    (h : LoopInv f s v) : ∃ flow, loopHead f s v = some flow ∧ FlowSpec f s flow := by
  unfold loopHead
  by_cases hpos : 0 < v.pkgLen
  · rw [if_pos hpos]
    exact loopBody_spec h hpos
  · rw [if_neg hpos]
    exact ⟨_, rfl, h.conserves_of_not_entered hpos⟩

/-! ## What every step keeps -/

/-- What holds of a session in every run. -/
structure Inv (f : ReadPacket) (s : Session R) : Prop where
  bytes : s.received = s.delivered ++ s.recv.contents
  idle : s.loop = none → s.recv.InRange
  head : ∀ v, s.loop = some v → LoopInv f s.recv v
  registered : s.registered = true ↔ s.closedOn = []

theorem accepted_inv (f : ReadPacket) (garbage : Buf UInt8 R.val) :
    Inv f (accepted garbage) := by
  constructor
  · simp [accepted, Receiver.create, Receiver.contents]
  · intro _
    simp [accepted, Receiver.create, Receiver.InRange]
  · intro v hv
    simp [accepted] at hv
  · simp [accepted]

/-- The outcome of a part of the loop that started from the receiver {lit}`r`. -/
theorem follow_inv {f : ReadPacket} {s : Session R} {r : Receiver R} {flow : Flow R}
    (hbytes : s.received = s.delivered ++ r.contents)
    (hregistered : s.registered = true ↔ s.closedOn = []) (hspec : FlowSpec f r flow) :
    Inv f (s.follow flow) := by
  cases flow with
  | running r' v =>
      rcases hspec with ⟨rfl, hinv⟩
      refine ⟨hbytes, ?_, ?_, hregistered⟩
      · intro hidle
        simp [Session.follow] at hidle
      · intro v' hv'
        obtain rfl := Option.some.inj hv'
        exact hinv
  | done r' calls =>
      refine ⟨?_, fun _ => hspec.inRange, ?_, hregistered⟩
      · show s.received = (s.delivered ++ calls.flatMap (·.data)) ++ r'.contents
        rw [hbytes, List.append_assoc, hspec.bytes]
      · intro v hv
        simp [Session.follow] at hv

/-- No step loses a byte, and a session is registered until it is closed. -/
theorem step_inv {f : ReadPacket} {s s' : Session R} {a : Action} (h : Inv f s)
    (hstep : step f s a = some s') : Inv f s' := by
  cases step_cases hstep with
  | peerCloses => exact ⟨h.bytes, h.idle, h.head, h.registered⟩
  | data chunk flow hidle hrecv hflow =>
      rcases recvData_spec f (h.idle hidle) hrecv.ne_nil hrecv.2 with
        ⟨r, v, hdata, -, hcontents, -, -, hinv⟩
      rw [hdata] at hflow
      obtain rfl := Option.some.inj hflow
      have hspec : FlowSpec f r (.running r v) := ⟨rfl, hinv⟩
      refine follow_inv ?_ h.registered hspec
      show s.received ++ chunk = s.delivered ++ r.contents
      rw [hcontents, h.bytes, List.append_assoc]
  | closed ret hidle hpossible hret =>
      refine ⟨h.bytes, h.idle, h.head, ?_⟩
      simp [Session.close]
  | iterate v flow hloop hflow =>
      rcases loopHead_spec (h.head v hloop) with ⟨flow', hflow', hspec⟩
      rw [hflow'] at hflow
      obtain rfl := Option.some.inj hflow
      exact follow_inv h.bytes h.registered hspec

/-- The bytes parsed and the bytes still in the buffer are all the bytes received. -/
theorem Inv.parsed_append_unparsed {f : ReadPacket} {s : Session R} (h : Inv f s) :
    s.parsed ++ s.unparsed = s.received := by
  unfold Session.parsed Session.unparsed
  cases hloop : s.loop with
  | none => exact h.bytes.symm
  | some v =>
      have hinv := h.head v hloop
      have hread : v.readPos ≤ s.recv.recvBufPos := hinv.readPos_lt.le
      show (s.delivered ++ v.calls.flatMap (·.data)) ++
        s.recv.recvBuf.range v.readPos s.recv.recvBufPos = s.received
      rw [hinv.tiles.flatMap_data le_rfl, List.append_assoc,
        s.recv.recvBuf.range_append le_rfl hinv.readPos_nonneg hread, h.bytes]
      rfl

theorem Inv.closedForCause {f : ReadPacket} {s : Session R} (h : Inv f s)
    (hcause : ∀ c ∈ s.closedOn, c.HasCause) : ClosedForCause s :=
  ⟨hcause, fun hnone => ⟨h.registered.mpr hnone, h.parsed_append_unparsed⟩⟩

/-! ## The events that close a session -/

/-- A result that closes the session, on an event that meets the condition, is a
cause. -/
theorem Undisturbed.hasCause {s : Session R} {ret : Recv}
    (h : Undisturbed s (.epollIn ret)) (hpossible : s.Possible ret)
    (hret : ∀ chunk, ret ≠ .data chunk) : Close.HasCause ⟨ret, s.peerClosed⟩ := by
  rcases h ret rfl with hpeer | ⟨hroom, herror⟩
  · exact .inl hpeer
  · cases ret with
    | data chunk => exact absurd rfl (hret chunk)
    | zero =>
        rcases hpossible with hfull | hpeer
        · omega
        · exact .inl hpeer
    | error errno => exact .inr ⟨errno, rfl, herror errno rfl⟩

/-- A close that has a cause is made on an event that meets the condition. -/
theorem undisturbed_of_hasCause {s : Session R} {ret : Recv} (hpossible : s.Possible ret)
    (hcause : Close.HasCause ⟨ret, s.peerClosed⟩) : Undisturbed s (.epollIn ret) := by
  rintro ret' heq
  obtain rfl := Action.epollIn.inj heq
  rcases hcause with hpeer | ⟨errno, hret, hlasting⟩
  · exact .inl hpeer
  · obtain rfl : ret = .error errno := hret
    refine .inr ⟨hpossible, ?_⟩
    intro errno' herror
    obtain rfl := Recv.error.inj herror
    exact hlasting

/-- The steps of a loop change nothing about the closes. -/
@[simp]
theorem follow_closedOn (s : Session R) (flow : Flow R) :
    (s.follow flow).closedOn = s.closedOn := by
  cases flow <;> rfl

/-- What holds along a run of events that meet the condition. -/
structure CausedInv (f : ReadPacket) (s : Session R) : Prop where
  inv : Inv f s
  cause : ∀ c ∈ s.closedOn, c.HasCause

/-- An event that meets the condition closes the session for a cause only. -/
theorem CausedInv.step {f : ReadPacket} {s s' : Session R} {a : Action}
    (h : CausedInv f s) (hok : Undisturbed s a) (hstep : step f s a = some s') :
    CausedInv f s' := by
  refine ⟨step_inv h.inv hstep, ?_⟩
  cases step_cases hstep with
  | peerCloses => exact h.cause
  | data chunk flow _ _ _ => simpa using h.cause
  | iterate v flow _ _ => simpa using h.cause
  | closed ret _ hpossible hret =>
      intro c hc
      rcases List.mem_append.mp hc with hold | hnew
      · exact h.cause c hold
      · obtain rfl := List.mem_singleton.mp hnew
        exact hok.hasCause hpossible hret

/-- If the closes after a step have a cause, the step meets the condition. -/
theorem undisturbed_of_step {f : ReadPacket} {s s' : Session R} {a : Action}
    (hstep : step f s a = some s') (hcause : ClosedForCause s') : Undisturbed s a := by
  cases step_cases hstep with
  | peerCloses => exact fun ret heq => absurd heq (by simp)
  | iterate v flow _ _ => exact fun ret heq => absurd heq (by simp)
  | data chunk flow _ hrecv _ =>
      rintro ret heq
      obtain rfl := Action.epollIn.inj heq
      have hlen := hrecv.1
      have hfit := hrecv.2
      exact .inr ⟨by omega, fun errno herror => absurd herror (by simp)⟩
  | closed ret _ hpossible hret =>
      apply undisturbed_of_hasCause hpossible
      apply hcause.cause
      simp [Session.close]

/-- A session is closed for a cause only, and otherwise keeps what it received, in
exactly those runs in which {lit}`recv` is called with room in the buffer and does not
fail transiently for as long as the peer has not closed. -/
theorem closed_for_cause_iff (f : ReadPacket) (garbage : Buf UInt8 R.val)
    (acts : List Action) :
    Always (step f) ClosedForCause (accepted garbage) acts ↔
      EachStep (step f) Undisturbed (accepted garbage) acts := by
  constructor
  · intro halways
    exact eachStep_of_always (fun _ _ _ h hstep => step_inv h hstep)
      (fun _ _ _ _ hstep hcause => undisturbed_of_step hstep hcause)
      (accepted_inv f garbage) halways
  · intro hok
    have hstart : CausedInv f (accepted garbage) := ⟨accepted_inv f garbage, by simp [accepted]⟩
    exact always_of_eachStep (fun _ _ _ h hundisturbed hstep => h.step hundisturbed hstep)
      (fun _ h => h.inv.closedForCause h.cause) hstart hok

/-- A close without the peer's doing that is no lasting error. -/
theorem not_closedForCause {s : Session R} {ret : Recv} (hc : ⟨ret, false⟩ ∈ s.closedOn)
    (hret : ∀ errno, ret = .error errno → transient errno = true) :
    ¬ClosedForCause s := by
  intro h
  rcases h.cause _ hc with hpeer | ⟨errno, herror, hlasting⟩
  · contradiction
  · rw [hret errno herror] at hlasting
    contradiction

/-- {lit}`recv` on a non-blocking descriptor that turns out not to be ready closes the
session; so does a packet that is not complete when the buffer is full. -/
theorem closed_without_cause :
    (∃ s, run (step fun _ => 0) (accepted (R := four) (.replicate 4 9))
        [.epollIn (.error WriteInterest.EAGAIN)] = some s ∧
      s.registered = false ∧ ¬ClosedForCause s) ∧
    (∃ s, run (step fun _ => 0) (accepted (R := four) (.replicate 4 9))
        [.epollIn (.data [1, 2, 3, 4]), .iterate, .epollIn .zero] = some s ∧
      s.registered = false ∧ ¬ClosedForCause s) := by
  have hagain : (run (step fun _ => 0) (accepted (R := four) (.replicate 4 9))
      [.epollIn (.error WriteInterest.EAGAIN)]).map (fun s => (s.registered, s.closedOn)) =
      some (false, [⟨.error 11, false⟩]) := by
    decide
  have hfull : (run (step fun _ => 0) (accepted (R := four) (.replicate 4 9))
      [.epollIn (.data [1, 2, 3, 4]), .iterate, .epollIn .zero]).map
        (fun s => (s.registered, s.closedOn)) = some (false, [⟨.zero, false⟩]) := by
    decide
  rcases Option.map_eq_some_iff.mp hagain with ⟨s, hs, heq⟩
  rcases Option.map_eq_some_iff.mp hfull with ⟨s', hs', heq'⟩
  simp only [Prod.mk.injEq] at heq heq'
  refine ⟨⟨s, hs, heq.1, ?_⟩, ⟨s', hs', heq'.1, ?_⟩⟩
  · have hclose : ⟨.error 11, false⟩ ∈ s.closedOn := by simp [heq.2]
    apply not_closedForCause hclose
    intro errno herror
    obtain rfl := Recv.error.inj herror
    rfl
  · have hclose : ⟨.zero, false⟩ ∈ s'.closedOn := by simp [heq'.2]
    apply not_closedForCause hclose
    intro errno herror
    contradiction

end Disconnect
end Epoll
end TinyNet
