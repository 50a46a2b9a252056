import TinyNet.AppThread.Invariant
import TinyNet.Epoll.FramingLoop

/-!
# Sessions, workers and the application thread

This file puts the pieces together: sessions with their receive buffers, the workers
of {lit}`Processor::run` with every step of their event handling, and the hand-off to
{lit}`Processor::app_run` ({lit}`detail/epollnet.hpp`, with {lit}`config.app_run` set).
A worker interleaves with the application thread and with the other workers between
any two of its accesses to a receive buffer, and between any two steps of closing a
session.

The default {lit}`parse_message` returns a pointer into {lit}`recvBuf`.  A message is
therefore the slice that {lit}`on_recv` saw: its position is what the pointer says,
and its length and bytes record what was there at the time.  What the application
thread finds at that position is looked up when it calls {lit}`on_message`.

The send buffers play no part here and are left out, with the {lit}`EPOLLOUT` events
that drain them.

Main results:

- Theorem {lit}`step_cases`: what a step can be.
-/

namespace TinyNet
namespace Processor

open Library.FixedBuffer
open Library.MachineInt
open Library.StepSystem
open Epoll

variable {R : BufferSize}

/-- The settings that the workers read, and the session's {lit}`read_packet`. -/
structure Config where
  threads : Nat
  evtHandler : Bool
  readPacket : ReadPacket

/-- A step of closing a session. -/
inductive Closing where
  | epollDel
  | close
  | onDisconnect
  | release
  | evtSessionRelease
deriving DecidableEq

/-- The close paths for {lit}`len < 0` and for {lit}`len == 0`, which differ only in
what they log. -/
def recvClosing (evtHandler : Bool) : List Closing :=
  [.epollDel, .close, .onDisconnect, .release] ++
    if evtHandler then [.evtSessionRelease] else []

/-- The close path of an {lit}`EPOLLERR` event. -/
def errClosing : List Closing :=
  [.epollDel, .close, .release]

/-- What the worker does on an event with none of the bits it looks for. -/
def otherClosing : List Closing :=
  [.epollDel]

/-- A session: its receive half, the worker that {lit}`Scheduler::push` gave it to,
whether that worker's epoll set still has it, and whether it was passed to
{lit}`factory->release`. -/
structure Session (R : BufferSize) where
  recv : Receiver R
  worker : Nat
  registered : Bool
  released : Bool

/-- The next step of the framing loop on one session. -/
inductive FramePc where
  | loopHead (v : LoopVars)
  | requery (v : LoopVars)
  | move (readPos : Int)
  | terminate
deriving DecidableEq

/-- Where a worker stands.  In {lit}`handing` it hands a packet to the application
thread. -/
inductive ProcPc where
  | waiting
  | framing (session : Nat) (pc : FramePc)
  | handing (session : Nat) (v : LoopVars)
  | closing (session : Nat) (rest : List Closing)
  | fault
deriving DecidableEq

/-- What can be observed: the steps of closing a session, and the calls of
{lit}`on_message` with the bytes found at the message, if the session still exists. -/
inductive Event where
  | closing (what : Closing) (session : Nat)
  | onMessage (session : Nat) (message : Call) (seen : Option (List UInt8))
deriving DecidableEq

/-- Sessions are numbered in the order of their creation. -/
structure State (R : BufferSize) where
  sessions : Nat → Session R
  created : Nat
  handoff : AppThread.State Nat Call
  procs : Nat → ProcPc
  trace : List Event

/-- The result of {lit}`recv`. -/
inductive RecvOutcome where
  | error
  | closed
  | data (chunk : List UInt8)

/-- A step: a new session, an event for a worker, or the next step of a thread; {lit}`readFirst`
is the order of the loads of an {lit}`isEmpty` that the application thread calls. -/
inductive Action (R : BufferSize) where
  | accept (w : Nat) (garbage : Buf UInt8 R.val)
  | epollIn (w session : Nat) (outcome : RecvOutcome)
  | epollErr (w session : Nat)
  | epollOther (w session : Nat)
  | worker (w : Nat)
  | app (readFirst : Bool)

/-- Before the first session. -/
def start (garbage : Buf UInt8 R.val) (records : Nat → Fin 101 → Obj) : State R where
  sessions _ := ⟨Receiver.create garbage, 0, false, false⟩
  created := 0
  handoff := AppThread.start records
  procs _ := .waiting
  trace := []

/-- One step of closing a session. -/
def Session.close (x : Session R) : Closing → Session R
  | .epollDel => { x with registered := false }
  | .release => { x with released := true }
  | _ => x

@[simp]
theorem Session.close_worker (x : Session R) (what : Closing) :
    (x.close what).worker = x.worker := by
  cases what <;> rfl

@[simp]
theorem Session.close_recv (x : Session R) (what : Closing) :
    (x.close what).recv = x.recv := by
  cases what <;> rfl

@[simp]
theorem Session.close_released (x : Session R) (what : Closing) :
    (x.close what).released = (x.released || decide (what = .release)) := by
  cases what <;> simp [close]

/-- The default {lit}`parse_message`, on the slice that {lit}`on_recv` has seen. -/
def parseMessage (r : Receiver R) (v : LoopVars) : Option Call := do
  let data ← r.recvBuf.read v.readPos v.pkgLen
  some ⟨v.readPos, v.pkgLen, data⟩

/-- A step of the framing loop other than a delivery, with the worker's next place, if
it is still in the loop. -/
def frameStep (f : ReadPacket) (r : Receiver R) : FramePc →
    Option (Receiver R × Option FramePc)
  | .loopHead v => some (r, if 0 < v.pkgLen then some (.requery v) else none)
  | .requery v => do
      match ← nextQuery f r v.readPos with
      | .again pkgLen => some (r, some (.loopHead { v with pkgLen := pkgLen }))
      | .leftover => some (r, some (.move v.readPos))
      | .consumed => some ({ r with recvBufPos := 0 }, none)
  | .move readPos => do
      let moved ← moveLeftover r readPos
      some (moved, some .terminate)
  | .terminate => do
      let ended ← writeTerminator r
      some (ended, none)

/-- Where the worker is after a step of the framing loop. -/
def afterFrame (session : Nat) : Option FramePc → ProcPc
  | some pc => .framing session pc
  | none => .waiting

namespace State

def setSession (s : State R) (session : Nat) (x : Session R) : State R :=
  { s with sessions := Function.update s.sessions session x }

def setProc (s : State R) (w : Nat) (pc : ProcPc) : State R :=
  { s with procs := Function.update s.procs w pc }

@[simp]
theorem setSession_sessions (s : State R) (session : Nat) (x : Session R) :
    (s.setSession session x).sessions = Function.update s.sessions session x :=
  rfl

@[simp]
theorem setProc_sessions (s : State R) (w : Nat) (pc : ProcPc) :
    (s.setProc w pc).sessions = s.sessions :=
  rfl

@[simp]
theorem setProc_procs (s : State R) (w : Nat) (pc : ProcPc) :
    (s.setProc w pc).procs = Function.update s.procs w pc :=
  rfl

/-- The worker waits for events and the session is in its epoll set. -/
def Ready (cfg : Config) (s : State R) (w session : Nat) : Prop :=
  w < cfg.threads ∧ s.procs w = .waiting ∧ session < s.created ∧
    (s.sessions session).registered = true ∧ (s.sessions session).worker = w

instance (cfg : Config) (s : State R) (w session : Nat) :
    Decidable (s.Ready cfg w session) :=
  inferInstanceAs (Decidable (_ ∧ _ ∧ _ ∧ _ ∧ _))

/-- {lit}`factory->create` and {lit}`Scheduler::push`. -/
def accept (s : State R) (w : Nat) (garbage : Buf UInt8 R.val) : State R :=
  { s with
    sessions := Function.update s.sessions s.created
      ⟨Receiver.create garbage, w, true, false⟩
    created := s.created + 1 }

/-- An {lit}`EPOLLIN` event, up to the head of the framing loop or of a close path. -/
def epollIn (cfg : Config) (s : State R) (w session : Nat) :
    RecvOutcome → Option (State R)
  | .error => some (s.setProc w (.closing session (recvClosing cfg.evtHandler)))
  | .closed => some (s.setProc w (.closing session (recvClosing cfg.evtHandler)))
  | .data chunk =>
      if chunk = [] ∨ (s.sessions session).recv.recvSize < chunk.length then none
      else
        match recvData cfg.readPacket (s.sessions session).recv chunk with
        | some (.running r v) =>
            some ((s.setSession session { s.sessions session with recv := r }).setProc w
              (.framing session (.loopHead v)))
        | _ => some (s.setProc w .fault)

/-- {lit}`on_recv`, {lit}`parse_message` and the start of the hand-off. -/
def deliverStep (cfg : Config) (s : State R) (w session : Nat) (v : LoopVars) :
    Option (State R) :=
  match deliver (s.sessions session).recv v,
      parseMessage (s.sessions session).recv v with
  | some v', some c => do
      let h ← AppThread.step cfg.threads s.handoff (.frame w (session, c))
      some ({ s with handoff := h }.setProc w (.handing session v'))
  | _, _ => some (s.setProc w .fault)

/-- A step of the framing loop. -/
def framingStep (cfg : Config) (s : State R) (w session : Nat) (pc : FramePc) : State R :=
  match frameStep cfg.readPacket (s.sessions session).recv pc with
  | some (r, next) =>
      (s.setSession session { s.sessions session with recv := r }).setProc w
        (afterFrame session next)
  | none => s.setProc w .fault

/-- A step of the hand-off; after its last one the worker goes on with the loop. -/
def handingStep (cfg : Config) (s : State R) (w session : Nat) (v : LoopVars) :
    Option (State R) :=
  match (s.handoff.lanes w).pc with
  | .idle => some (s.setProc w (.framing session (.requery v)))
  | _ => do
      let h ← AppThread.step cfg.threads s.handoff (.worker w)
      some { s with handoff := h }

/-- A step of closing a session. -/
def closingStep (s : State R) (w session : Nat) (what : Closing) (rest : List Closing) :
    State R :=
  { (s.setSession session ((s.sessions session).close what)).setProc w
      (.closing session rest) with
    trace := s.trace ++ [.closing what session] }

@[simp]
theorem closingStep_sessions (s : State R) (w session : Nat) (what : Closing)
    (rest : List Closing) :
    (s.closingStep w session what rest).sessions =
      Function.update s.sessions session ((s.sessions session).close what) :=
  rfl

/-- The next step of a worker. -/
def workerStep (cfg : Config) (s : State R) (w : Nat) : Option (State R) :=
  match s.procs w with
  | .waiting => none
  | .framing session (.loopHead v) =>
      if 0 < v.pkgLen ∧ fits (s.sessions session).recv v then
        s.deliverStep cfg w session v
      else some (s.framingStep cfg w session (.loopHead v))
  | .framing session pc => some (s.framingStep cfg w session pc)
  | .handing session v => s.handingStep cfg w session v
  | .closing _ [] => some (s.setProc w .waiting)
  | .closing session (what :: rest) => some (s.closingStep w session what rest)
  | .fault => none

/-- The bytes at the message's position in the session's buffer. -/
def seen (s : State R) (session : Nat) (message : Call) : Option (List UInt8) :=
  if (s.sessions session).released then none
  else some ((s.sessions session).recv.recvBuf.range message.readPos
    (message.readPos + message.pkgLen))

/-- The call of {lit}`on_message` that the application thread's next step makes. -/
def appCall (s : State R) : List Event :=
  match s.handoff.app with
  | .onMessage _ pMsgPkg =>
      match s.handoff.heap pMsgPkg with
      | ⟨some session, some message⟩ =>
          [.onMessage session message (s.seen session message)]
      | _ => []
  | _ => []

/-- The next step of the application thread. -/
def appStep (cfg : Config) (readFirst : Bool) (s : State R) : Option (State R) := do
  let h ← AppThread.step cfg.threads s.handoff (.app readFirst)
  some { s with handoff := h, trace := s.trace ++ s.appCall }

end State

/-- One step of the system; no result if the thread cannot take it. -/
def step (cfg : Config) (s : State R) : Action R → Option (State R)
  | .accept w garbage => if w < cfg.threads then some (s.accept w garbage) else none
  | .epollIn w session outcome =>
      if s.Ready cfg w session then s.epollIn cfg w session outcome else none
  | .epollErr w session =>
      if s.Ready cfg w session then some (s.setProc w (.closing session errClosing))
      else none
  | .epollOther w session =>
      if s.Ready cfg w session then some (s.setProc w (.closing session otherClosing))
      else none
  | .worker w => s.workerStep cfg w
  | .app readFirst => s.appStep cfg readFirst

/-! ## Inversion -/

/-- The events that make a worker close a session, with the close path. -/
inductive ClosingEvent (cfg : Config) (w session : Nat) :
    Action R → List Closing → Prop where
  | error : ClosingEvent cfg w session (.epollIn w session .error)
      (recvClosing cfg.evtHandler)
  | closed : ClosingEvent cfg w session (.epollIn w session .closed)
      (recvClosing cfg.evtHandler)
  | epollErr : ClosingEvent cfg w session (.epollErr w session) errClosing
  | epollOther : ClosingEvent cfg w session (.epollOther w session) otherClosing

/-- What a step can be. -/
inductive StepCase (cfg : Config) (s : State R) : Action R → State R → Prop where
  | accept (w : Nat) (garbage : Buf UInt8 R.val) :
      StepCase cfg s (.accept w garbage) (s.accept w garbage)
  | received (w session : Nat) (chunk : List UInt8) (r : Receiver R) (v : LoopVars)
      (ready : s.Ready cfg w session)
      (data : recvData cfg.readPacket (s.sessions session).recv chunk =
        some (.running r v)) :
      StepCase cfg s (.epollIn w session (.data chunk))
        ((s.setSession session { s.sessions session with recv := r }).setProc w
          (.framing session (.loopHead v)))
  | closingEvent (w session : Nat) (a : Action R) (path : List Closing)
      (ready : s.Ready cfg w session) (event : ClosingEvent cfg w session a path) :
      StepCase cfg s a (s.setProc w (.closing session path))
  | fault (w : Nat) (a : Action R)
      (proc : s.procs w = .waiting ∨ ∃ session pc, s.procs w = .framing session pc) :
      StepCase cfg s a (s.setProc w .fault)
  | deliver (w session : Nat) (v v' : LoopVars) (c : Call) (h : AppThread.State Nat Call)
      (proc : s.procs w = .framing session (.loopHead v))
      (message : parseMessage (s.sessions session).recv v = some c)
      (frame : AppThread.step cfg.threads s.handoff (.frame w (session, c)) = some h) :
      StepCase cfg s (.worker w) ({ s with handoff := h }.setProc w (.handing session v'))
  | frame (w session : Nat) (pc : FramePc) (r : Receiver R) (next : Option FramePc)
      (proc : s.procs w = .framing session pc)
      (frame : frameStep cfg.readPacket (s.sessions session).recv pc = some (r, next)) :
      StepCase cfg s (.worker w)
        ((s.setSession session { s.sessions session with recv := r }).setProc w
          (afterFrame session next))
  | handed (w session : Nat) (v : LoopVars) (proc : s.procs w = .handing session v)
      (idle : (s.handoff.lanes w).pc = .idle) :
      StepCase cfg s (.worker w) (s.setProc w (.framing session (.requery v)))
  | handing (w session : Nat) (v : LoopVars) (h : AppThread.State Nat Call)
      (proc : s.procs w = .handing session v)
      (handoff : AppThread.step cfg.threads s.handoff (.worker w) = some h) :
      StepCase cfg s (.worker w) { s with handoff := h }
  | closed (w session : Nat) (proc : s.procs w = .closing session []) :
      StepCase cfg s (.worker w) (s.setProc w .waiting)
  | closing (w session : Nat) (what : Closing) (rest : List Closing)
      (proc : s.procs w = .closing session (what :: rest)) :
      StepCase cfg s (.worker w) (s.closingStep w session what rest)
  | app (readFirst : Bool) (h : AppThread.State Nat Call)
      (handoff : AppThread.step cfg.threads s.handoff (.app readFirst) = some h) :
      StepCase cfg s (.app readFirst) { s with handoff := h, trace := s.trace ++ s.appCall }

theorem epollIn_cases {cfg : Config} {s s' : State R} {w session : Nat}
    {outcome : RecvOutcome} (ready : s.Ready cfg w session)
    (h : s.epollIn cfg w session outcome = some s') :
    StepCase cfg s (.epollIn w session outcome) s' := by
  cases outcome with
  | error =>
      cases h
      exact .closingEvent w session _ _ ready .error
  | closed =>
      cases h
      exact .closingEvent w session _ _ ready .closed
  | data chunk =>
      simp only [State.epollIn] at h
      split at h
      · contradiction
      · split at h
        · rename_i r v hdata
          cases h
          exact .received w session chunk r v ready hdata
        · cases h
          exact .fault w _ (Or.inl ready.2.1)

theorem framingStep_cases {cfg : Config} {s : State R} {w session : Nat} {pc : FramePc}
    (proc : s.procs w = .framing session pc) :
    StepCase cfg s (.worker w) (s.framingStep cfg w session pc) := by
  unfold State.framingStep
  split
  · rename_i r next hframe
    exact .frame w session pc r next proc hframe
  · exact .fault w _ (Or.inr ⟨session, pc, proc⟩)

theorem deliverStep_cases {cfg : Config} {s s' : State R} {w session : Nat} {v : LoopVars}
    (proc : s.procs w = .framing session (.loopHead v))
    (h : s.deliverStep cfg w session v = some s') : StepCase cfg s (.worker w) s' := by
  unfold State.deliverStep at h
  split at h
  · rename_i v' c hdeliver hmessage
    rcases Option.bind_eq_some_iff.mp h with ⟨t, ht, heq⟩
    cases heq
    exact .deliver w session v v' c t proc hmessage ht
  · cases h
    exact .fault w _ (Or.inr ⟨session, _, proc⟩)

theorem handingStep_cases {cfg : Config} {s s' : State R} {w session : Nat} {v : LoopVars}
    (proc : s.procs w = .handing session v)
    (h : s.handingStep cfg w session v = some s') : StepCase cfg s (.worker w) s' := by
  unfold State.handingStep at h
  split at h
  · rename_i hidle
    cases h
    exact .handed w session v proc hidle
  · rcases Option.bind_eq_some_iff.mp h with ⟨t, ht, heq⟩
    cases heq
    exact .handing w session v t proc ht

theorem workerStep_cases {cfg : Config} {s s' : State R} {w : Nat}
    (h : s.workerStep cfg w = some s') : StepCase cfg s (.worker w) s' := by
  unfold State.workerStep at h
  cases hproc : s.procs w with
  | waiting => simp [hproc] at h
  | fault => simp [hproc] at h
  | handing session v =>
      simp only [hproc] at h
      exact handingStep_cases hproc h
  | closing session rest =>
      cases rest with
      | nil =>
          simp only [hproc, Option.some.injEq] at h
          exact h ▸ .closed w session hproc
      | cons what rest =>
          simp only [hproc, Option.some.injEq] at h
          exact h ▸ .closing w session what rest hproc
  | framing session pc =>
      cases pc with
      | loopHead v =>
          simp only [hproc] at h
          split at h
          · exact deliverStep_cases hproc h
          · rw [← Option.some.inj h]
            exact framingStep_cases hproc
      | requery v =>
          simp only [hproc, Option.some.injEq] at h
          exact h ▸ framingStep_cases hproc
      | move readPos =>
          simp only [hproc, Option.some.injEq] at h
          exact h ▸ framingStep_cases hproc
      | terminate =>
          simp only [hproc, Option.some.injEq] at h
          exact h ▸ framingStep_cases hproc

/-- Every step is one of the cases. -/
theorem step_cases {cfg : Config} {s s' : State R} {a : Action R}
    (h : step cfg s a = some s') : StepCase cfg s a s' := by
  cases a with
  | accept w garbage =>
      simp only [step] at h
      split at h
      · cases h
        exact .accept w garbage
      · contradiction
  | epollIn w session outcome =>
      simp only [step] at h
      split at h
      · rename_i hready
        exact epollIn_cases hready h
      · contradiction
  | epollErr w session =>
      simp only [step] at h
      split at h
      · rename_i hready
        cases h
        exact .closingEvent w session _ _ hready .epollErr
      · contradiction
  | epollOther w session =>
      simp only [step] at h
      split at h
      · rename_i hready
        cases h
        exact .closingEvent w session _ _ hready .epollOther
      · contradiction
  | worker w => exact workerStep_cases h
  | app readFirst =>
      rcases Option.bind_eq_some_iff.mp h with ⟨t, ht, heq⟩
      cases heq
      exact .app readFirst t ht

end Processor
end TinyNet
