import TinyNet.AppThread.ObjectPool
import TinyNet.AppThread.SpscQueue

/-!
# The hand-off to the application thread

With {lit}`config.app_run` set, a worker wraps each packet that it has framed in a
{lit}`MsgPackage` from the shared pool and enqueues it on its own queue;
{lit}`Processor::app_run` goes round the queues, passes each package to
{lit}`on_message` and releases it to the pool ({lit}`detail/epollnet.hpp`).  This
file embeds both sides as one system: any number of workers and the application
thread, which interleave between any two steps of the pool and of the queues.

What a worker frames is left open here, so that the system covers every sequence of
receive events.  Sessions and messages are of arbitrary types.  What belongs to one
worker is its lane: its queue, its place in the hand-off, and three histories, of
the pairs framed, of the calls of {lit}`enqueue` with their results, and of the
pairs passed to {lit}`on_message`.

Main results:

- Theorem {lit}`step_cases`: what a step can be.
- Theorem {lit}`step_lane`: what a step can do to the histories of a worker.
-/

namespace TinyNet
namespace AppThread

open Library.StepSystem
open AtomicAlloc
open SpscQueue

variable {σ μ : Type}

/-- {lit}`Factory::MsgPackage`; {lit}`new` sets both pointers to null. -/
structure MsgPackage (σ μ : Type) where
  session : Option σ
  message : Option μ
deriving DecidableEq

/-- The package of a pair. -/
def MsgPackage.filled (pair : σ × μ) : MsgPackage σ μ where
  session := some pair.1
  message := some pair.2

/-- {lit}`spscqueue` with its default size.  Only packages that the worker has
dereferenced are enqueued, so the records are not null. -/
abbrev MsgQueue := SpscQueue 100 Obj

/-- Where a worker stands in the hand-off of a pair.  It crashes if it dereferences
a null package. -/
inductive WorkerPc (σ μ : Type) where
  | idle
  | acquire (pc : AllocPc) (pair : σ × μ)
  | setSession (pMsgPkg : Option Obj) (pair : σ × μ)
  | setMessage (pMsgPkg : Obj) (pair : σ × μ)
  | enqueue (pc : EnqueuePc 100) (pMsgPkg : Obj) (pair : σ × μ)
  | crashed (pair : σ × μ)

/-- Where {lit}`app_run` stands; {lit}`i` is the position of its inner loop. -/
inductive AppPc where
  | next (i : Nat)
  | isEmpty (i : Nat) (pc : IsEmptyPc 100)
  | tryDequeue (i : Nat) (pc : TryDequeuePc 100 Obj)
  | onMessage (i : Nat) (pMsgPkg : Obj)
  | release (i : Nat) (pMsgPkg : Obj)
  | crashed

/-- What belongs to the worker of one index. -/
structure Lane (σ μ : Type) where
  msgQueue : MsgQueue
  pc : WorkerPc σ μ
  framed : List (σ × μ)
  enqueued : List ((σ × μ) × Bool)
  delivered : List (σ × μ)

/-- The pool, the packages, the lanes and the application thread. -/
structure State (σ μ : Type) where
  msgPool : AtomicAlloc
  heap : Obj → MsgPackage σ μ
  lanes : Nat → Lane σ μ
  app : AppPc

/-- A step: a worker frames a packet, goes on with its hand-off, or the application
thread goes on; {lit}`readFirst` is the order in which an {lit}`isEmpty` that it calls
loads the indices. -/
inductive Action (σ μ : Type) where
  | frame (w : Nat) (pair : σ × μ)
  | worker (w : Nat)
  | app (readFirst : Bool)

/-- {lit}`Processor::start`, with queues whose records are uninitialised. -/
def start (garbage : Nat → Fin 101 → Obj) : State σ μ where
  msgPool := AtomicAlloc.create
  heap _ := ⟨none, none⟩
  lanes w := ⟨SpscQueue.create (garbage w), .idle, [], [], []⟩
  app := .next 0

/-! ## Steps of a worker -/

/-- The worker's place after a step of {lit}`alloc`. -/
def afterAlloc (pair : σ × μ) : Progress AllocPc (Option Obj) → WorkerPc σ μ
  | .running pc => .acquire pc pair
  | .returned pMsgPkg => .setSession pMsgPkg pair

/-- The worker's place after a step of {lit}`enqueue`, whose result it ignores. -/
def afterEnqueue (pMsgPkg : Obj) (pair : σ × μ) :
    Progress (EnqueuePc 100) Bool → WorkerPc σ μ
  | .running pc => .enqueue pc pMsgPkg pair
  | .returned _ => .idle

/-- The call of {lit}`enqueue` that a step of it completes. -/
def enqueueResult (pair : σ × μ) : Progress (EnqueuePc 100) Bool → List ((σ × μ) × Bool)
  | .running _ => []
  | .returned ok => [(pair, ok)]

/-- A step of {lit}`pMsgQueue->enqueue(pMsgPkg)`. -/
def Lane.enqueueStep (l : Lane σ μ) (pc : EnqueuePc 100) (pMsgPkg : Obj) (pair : σ × μ) :
    Lane σ μ :=
  { l with
    msgQueue := (l.msgQueue.enqueueStep pMsgPkg pc).1
    pc := afterEnqueue pMsgPkg pair (l.msgQueue.enqueueStep pMsgPkg pc).2
    enqueued := l.enqueued ++ enqueueResult pair (l.msgQueue.enqueueStep pMsgPkg pc).2 }

namespace State

/-- Replace what belongs to one worker. -/
def setLane (s : State σ μ) (w : Nat) (l : Lane σ μ) : State σ μ :=
  { s with lanes := Function.update s.lanes w l }

@[simp]
theorem setLane_lanes_self (s : State σ μ) (w : Nat) (l : Lane σ μ) :
    (s.setLane w l).lanes w = l := by
  simp [setLane]

theorem setLane_lanes_of_ne (s : State σ μ) {v w : Nat} (h : v ≠ w) (l : Lane σ μ) :
    (s.setLane w l).lanes v = s.lanes v := by
  simp [setLane, h]

/-- {lit}`on_recv` and {lit}`parse_message` have returned. -/
def frame (s : State σ μ) (w : Nat) (pair : σ × μ) : State σ μ :=
  s.setLane w
    { s.lanes w with
      pc := .acquire .test pair
      framed := (s.lanes w).framed ++ [pair] }

/-- A step of {lit}`msgPool.acquire()`. -/
def acquireStep (s : State σ μ) (w : Nat) (pc : AllocPc) (pair : σ × μ) : State σ μ :=
  { s with msgPool := (s.msgPool.allocStep pc).1 }.setLane w
    { s.lanes w with pc := afterAlloc pair (s.msgPool.allocStep pc).2 }

/-- {lit}`pMsgPkg->session = pSession`. -/
def setSessionStep (s : State σ μ) (w : Nat) (pMsgPkg : Obj) (pair : σ × μ) :
    State σ μ :=
  { s with
    heap := Function.update s.heap pMsgPkg
      { s.heap pMsgPkg with session := some pair.1 } }.setLane w
    { s.lanes w with pc := .setMessage pMsgPkg pair }

/-- {lit}`pMsgPkg->message = pMsg`. -/
def setMessageStep (s : State σ μ) (w : Nat) (pMsgPkg : Obj) (pair : σ × μ) :
    State σ μ :=
  { s with
    heap := Function.update s.heap pMsgPkg
      { s.heap pMsgPkg with message := some pair.2 } }.setLane w
    { s.lanes w with pc := .enqueue .loadWrite pMsgPkg pair }

/-- One step of a worker in the hand-off. -/
def workerStep (s : State σ μ) (w : Nat) : Option (State σ μ) :=
  match (s.lanes w).pc with
  | .idle => none
  | .acquire pc pair => some (s.acquireStep w pc pair)
  | .setSession none pair => some (s.setLane w { s.lanes w with pc := .crashed pair })
  | .setSession (some pMsgPkg) pair => some (s.setSessionStep w pMsgPkg pair)
  | .setMessage pMsgPkg pair => some (s.setMessageStep w pMsgPkg pair)
  | .enqueue pc pMsgPkg pair =>
      some (s.setLane w ((s.lanes w).enqueueStep pc pMsgPkg pair))
  | .crashed _ => none

end State

/-! ## Steps of the application thread -/

/-- Where {lit}`app_run` goes after a step of {lit}`isEmpty`. -/
def afterIsEmpty (i : Nat) : Progress (IsEmptyPc 100) Bool → AppPc
  | .running pc => .isEmpty i pc
  | .returned true => .next (i + 1)
  | .returned false => .tryDequeue i .loadRead

/-- Where {lit}`app_run` goes after a step of {lit}`try_dequeue`. -/
def afterTryDequeue (i : Nat) : Progress (TryDequeuePc 100 Obj) (Option Obj) → AppPc
  | .running pc => .tryDequeue i pc
  | .returned none => .next (i + 1)
  | .returned (some pMsgPkg) => .onMessage i pMsgPkg

namespace State

/-- A step of {lit}`queue->try_dequeue(pMsgPkg)`. -/
def tryDequeueStep (s : State σ μ) (i : Nat) (pc : TryDequeuePc 100 Obj) : State σ μ :=
  { s with app := afterTryDequeue i ((s.lanes i).msgQueue.tryDequeueStep pc).2 }.setLane i
    { s.lanes i with msgQueue := ((s.lanes i).msgQueue.tryDequeueStep pc).1 }

/-- {lit}`pMsgPkg->session->on_message(pMsgPkg->message)`. -/
def onMessageStep (s : State σ μ) (i : Nat) (pMsgPkg : Obj) : State σ μ :=
  match s.heap pMsgPkg with
  | ⟨some session, some message⟩ =>
      { s with app := .release i pMsgPkg }.setLane i
        { s.lanes i with delivered := (s.lanes i).delivered ++ [(session, message)] }
  | _ => { s with app := .crashed }

/-- {lit}`msgPool.release(pMsgPkg)`. -/
def releaseStep (s : State σ μ) (i : Nat) (pMsgPkg : Obj) : State σ μ :=
  { s with msgPool := s.msgPool.release pMsgPkg, app := .next (i + 1) }

/-- One step of {lit}`app_run` over the given number of queues. -/
def appStep (threads : Nat) (readFirst : Bool) (s : State σ μ) : Option (State σ μ) :=
  match s.app with
  | .next i =>
      some { s with app := if i < threads then .isEmpty i (.start readFirst) else .next 0 }
  | .isEmpty i pc =>
      some { s with app := afterIsEmpty i ((s.lanes i).msgQueue.isEmptyStep pc) }
  | .tryDequeue i pc => some (s.tryDequeueStep i pc)
  | .onMessage i pMsgPkg => some (s.onMessageStep i pMsgPkg)
  | .release i pMsgPkg => some (s.releaseStep i pMsgPkg)
  | .crashed => none

end State

/-- One step of the system; no result if the thread cannot take it. -/
def step (threads : Nat) (s : State σ μ) : Action σ μ → Option (State σ μ)
  | .frame w pair =>
      match (s.lanes w).pc with
      | .idle => if w < threads then some (s.frame w pair) else none
      | _ => none
  | .worker w => s.workerStep w
  | .app readFirst => s.appStep threads readFirst

/-! ## Inversion -/

/-- What a step can be. -/
inductive StepCase (threads : Nat) (s : State σ μ) : Action σ μ → State σ μ → Prop where
  | frame (w : Nat) (pair : σ × μ) (lt : w < threads) (pc_eq : (s.lanes w).pc = .idle) :
      StepCase threads s (.frame w pair) (s.frame w pair)
  | acquire (w : Nat) (pc : AllocPc) (pair : σ × μ)
      (pc_eq : (s.lanes w).pc = .acquire pc pair) :
      StepCase threads s (.worker w) (s.acquireStep w pc pair)
  | crash (w : Nat) (pair : σ × μ) (pc_eq : (s.lanes w).pc = .setSession none pair) :
      StepCase threads s (.worker w) (s.setLane w { s.lanes w with pc := .crashed pair })
  | setSession (w : Nat) (pMsgPkg : Obj) (pair : σ × μ)
      (pc_eq : (s.lanes w).pc = .setSession (some pMsgPkg) pair) :
      StepCase threads s (.worker w) (s.setSessionStep w pMsgPkg pair)
  | setMessage (w : Nat) (pMsgPkg : Obj) (pair : σ × μ)
      (pc_eq : (s.lanes w).pc = .setMessage pMsgPkg pair) :
      StepCase threads s (.worker w) (s.setMessageStep w pMsgPkg pair)
  | enqueue (w : Nat) (pc : EnqueuePc 100) (pMsgPkg : Obj) (pair : σ × μ)
      (pc_eq : (s.lanes w).pc = .enqueue pc pMsgPkg pair) :
      StepCase threads s (.worker w)
        (s.setLane w ((s.lanes w).enqueueStep pc pMsgPkg pair))
  | next (readFirst : Bool) (i : Nat) (pc_eq : s.app = .next i) :
      StepCase threads s (.app readFirst)
        { s with app := if i < threads then .isEmpty i (.start readFirst) else .next 0 }
  | isEmpty (readFirst : Bool) (i : Nat) (pc : IsEmptyPc 100) (pc_eq : s.app = .isEmpty i pc) :
      StepCase threads s (.app readFirst)
        { s with app := afterIsEmpty i ((s.lanes i).msgQueue.isEmptyStep pc) }
  | tryDequeue (readFirst : Bool) (i : Nat) (pc : TryDequeuePc 100 Obj)
      (pc_eq : s.app = .tryDequeue i pc) :
      StepCase threads s (.app readFirst) (s.tryDequeueStep i pc)
  | onMessage (readFirst : Bool) (i : Nat) (pMsgPkg : Obj)
      (pc_eq : s.app = .onMessage i pMsgPkg) :
      StepCase threads s (.app readFirst) (s.onMessageStep i pMsgPkg)
  | release (readFirst : Bool) (i : Nat) (pMsgPkg : Obj)
      (pc_eq : s.app = .release i pMsgPkg) :
      StepCase threads s (.app readFirst) (s.releaseStep i pMsgPkg)

/-- A worker in hand-off takes the step of its place. -/
theorem workerStep_cases {threads : Nat} {s s' : State σ μ} {w : Nat}
    (h : s.workerStep w = some s') : StepCase threads s (.worker w) s' := by
  unfold State.workerStep at h
  cases hpc : (s.lanes w).pc with
  | idle => simp [hpc] at h
  | acquire pc pair =>
      simp only [hpc, Option.some.injEq] at h
      exact h ▸ .acquire w pc pair hpc
  | setSession pMsgPkg pair =>
      cases pMsgPkg with
      | none =>
          simp only [hpc, Option.some.injEq] at h
          exact h ▸ .crash w pair hpc
      | some pMsgPkg =>
          simp only [hpc, Option.some.injEq] at h
          exact h ▸ .setSession w pMsgPkg pair hpc
  | setMessage pMsgPkg pair =>
      simp only [hpc, Option.some.injEq] at h
      exact h ▸ .setMessage w pMsgPkg pair hpc
  | enqueue pc pMsgPkg pair =>
      simp only [hpc, Option.some.injEq] at h
      exact h ▸ .enqueue w pc pMsgPkg pair hpc
  | crashed pair => simp [hpc] at h

/-- The application thread takes the step of its place. -/
theorem appStep_cases {threads : Nat} {readFirst : Bool} {s s' : State σ μ}
    (h : s.appStep threads readFirst = some s') : StepCase threads s (.app readFirst) s' := by
  unfold State.appStep at h
  cases hpc : s.app with
  | next i =>
      simp only [hpc, Option.some.injEq] at h
      exact h ▸ .next readFirst i hpc
  | isEmpty i pc =>
      simp only [hpc, Option.some.injEq] at h
      exact h ▸ .isEmpty readFirst i pc hpc
  | tryDequeue i pc =>
      simp only [hpc, Option.some.injEq] at h
      exact h ▸ .tryDequeue readFirst i pc hpc
  | onMessage i pMsgPkg =>
      simp only [hpc, Option.some.injEq] at h
      exact h ▸ .onMessage readFirst i pMsgPkg hpc
  | release i pMsgPkg =>
      simp only [hpc, Option.some.injEq] at h
      exact h ▸ .release readFirst i pMsgPkg hpc
  | crashed => simp [hpc] at h

/-- Every step is one of the cases. -/
theorem step_cases {threads : Nat} {s s' : State σ μ} {a : Action σ μ}
    (h : step threads s a = some s') : StepCase threads s a s' := by
  cases a with
  | frame w pair =>
      simp only [step] at h
      split at h
      · rename_i hpc
        split at h
        · rename_i hlt
          cases h
          exact .frame w pair hlt hpc
        · contradiction
      · contradiction
  | worker w => exact workerStep_cases h
  | app readFirst => exact appStep_cases h

/-! ## What the threads hold -/

/-- The packages that only this worker can reach. -/
def WorkerPc.holds : WorkerPc σ μ → List Obj
  | .idle => []
  | .acquire pc _ => pc.holds
  | .setSession pMsgPkg _ => pMsgPkg.toList
  | .setMessage pMsgPkg _ => [pMsgPkg]
  | .enqueue _ pMsgPkg _ => [pMsgPkg]
  | .crashed _ => []

/-- The pair in hand-off. -/
def WorkerPc.inFlight : WorkerPc σ μ → List (σ × μ)
  | .idle => []
  | .acquire _ pair => [pair]
  | .setSession _ pair => [pair]
  | .setMessage _ pair => [pair]
  | .enqueue _ _ pair => [pair]
  | .crashed pair => [pair]

/-- The packages that the application thread has dequeued and not yet released. -/
def AppPc.holds : AppPc → List Obj
  | .onMessage _ pMsgPkg => [pMsgPkg]
  | .release _ pMsgPkg => [pMsgPkg]
  | _ => []

/-- The packages dequeued from a queue and not yet passed to {lit}`on_message`. -/
def AppPc.inHand : AppPc → Nat → List Obj
  | .onMessage i pMsgPkg, w => if w = i then [pMsgPkg] else []
  | _, _ => []

/-- The pairs that the worker's queue has accepted, in order. -/
def Lane.accepted (l : Lane σ μ) : List (σ × μ) :=
  (l.enqueued.filter (·.2)).map (·.1)

/-- The accepted pairs that have not been passed to {lit}`on_message`. -/
def Lane.pending (l : Lane σ μ) : List (σ × μ) :=
  l.accepted.drop l.delivered.length

/-- The framed pairs that may still be passed to {lit}`on_message`. -/
def Lane.outstanding (l : Lane σ μ) : List (σ × μ) :=
  l.pending ++ l.pc.inFlight

/-- Who can hold a package. -/
inductive Place where
  | free
  | worker (w : Nat)
  | queue (w : Nat)
  | app
deriving DecidableEq

namespace State

/-- What each place holds. -/
def owns (s : State σ μ) : Place → List Obj
  | .free => s.msgPool.objList
  | .worker w => (s.lanes w).pc.holds
  | .queue w => (s.lanes w).msgQueue.contents
  | .app => s.app.holds

/-- The packages of a worker's pairs that its queue has accepted and that have not
been passed to {lit}`on_message`, oldest first. -/
def undelivered (s : State σ μ) (w : Nat) : List (MsgPackage σ μ) :=
  (s.app.inHand w ++ (s.lanes w).msgQueue.contents).map s.heap

end State

/-! ## What a step does to the histories -/

/-- What a step can do to the histories of a lane. -/
inductive LaneCase (w : Nat) (l l' : Lane σ μ) : Action σ μ → Prop where
  | quiet {a : Action σ μ} (enqueued : l'.enqueued = l.enqueued)
      (delivered : l'.delivered = l.delivered)
      (inFlight : l'.pc.inFlight = l.pc.inFlight) : LaneCase w l l' a
  | frame (pair : σ × μ) (idle : l.pc = .idle) (enqueued : l'.enqueued = l.enqueued)
      (delivered : l'.delivered = l.delivered) (inFlight : l'.pc.inFlight = [pair]) :
      LaneCase w l l' (.frame w pair)
  | enqueue (pc : EnqueuePc 100) (pMsgPkg : Obj) (pair : σ × μ)
      (pc_eq : l.pc = .enqueue pc pMsgPkg pair)
      (eq : l' = l.enqueueStep pc pMsgPkg pair) : LaneCase w l l' (.worker w)
  | deliver (readFirst : Bool) (pair : σ × μ) (enqueued : l'.enqueued = l.enqueued)
      (delivered : l'.delivered = l.delivered ++ [pair])
      (inFlight : l'.pc.inFlight = l.pc.inFlight) : LaneCase w l l' (.app readFirst)

/-- A step that replaces one lane does so to that lane only. -/
theorem laneCase_setLane {s t : State σ μ} {a : Action σ μ} {w : Nat} {l : Lane σ μ}
    (hlanes : t.lanes = s.lanes) (h : LaneCase w (s.lanes w) l a) (v : Nat) :
    LaneCase v (s.lanes v) ((t.setLane w l).lanes v) a := by
  by_cases hv : v = w
  · subst hv
    rwa [State.setLane_lanes_self]
  · rw [State.setLane_lanes_of_ne _ hv, hlanes]
    exact .quiet rfl rfl rfl

/-- A worker that moves on with the same pair extends no history. -/
theorem laneCase_setPc {s t : State σ μ} {a : Action σ μ} {w : Nat} {pc : WorkerPc σ μ}
    (hlanes : t.lanes = s.lanes) (hflight : pc.inFlight = (s.lanes w).pc.inFlight)
    (v : Nat) :
    LaneCase v (s.lanes v) ((t.setLane w { s.lanes w with pc := pc }).lanes v) a := by
  apply laneCase_setLane hlanes
  exact .quiet rfl rfl hflight

theorem inFlight_afterAlloc (pair : σ × μ) (r : Progress AllocPc (Option Obj)) :
    (afterAlloc pair r).inFlight = [pair] := by
  cases r <;> rfl

/-- A step extends the histories of a lane by one entry, or not at all. -/
theorem step_lane {threads : Nat} {s s' : State σ μ} {a : Action σ μ}
    (h : step threads s a = some s') (v : Nat) :
    LaneCase v (s.lanes v) (s'.lanes v) a := by
  cases step_cases h with
  | frame w pair hlt hpc =>
      refine laneCase_setLane rfl ?_ v
      exact .frame pair hpc rfl rfl rfl
  | acquire w pc pair hpc =>
      refine laneCase_setPc rfl ?_ v
      rw [hpc, inFlight_afterAlloc]
      rfl
  | crash w pair hpc =>
      refine laneCase_setPc rfl ?_ v
      rw [hpc]
      rfl
  | setSession w pMsgPkg pair hpc =>
      refine laneCase_setPc rfl ?_ v
      rw [hpc]
      rfl
  | setMessage w pMsgPkg pair hpc =>
      refine laneCase_setPc rfl ?_ v
      rw [hpc]
      rfl
  | enqueue w pc pMsgPkg pair hpc =>
      exact laneCase_setLane rfl (.enqueue pc pMsgPkg pair hpc rfl) v
  | next readFirst i hpc => exact .quiet rfl rfl rfl
  | isEmpty readFirst i pc hpc => exact .quiet rfl rfl rfl
  | tryDequeue readFirst i pc hpc =>
      refine laneCase_setLane rfl ?_ v
      exact .quiet rfl rfl rfl
  | onMessage readFirst i pMsgPkg hpc =>
      unfold State.onMessageStep
      split
      · refine laneCase_setLane rfl ?_ v
        exact .deliver _ _ rfl rfl rfl
      · exact .quiet rfl rfl rfl
  | release readFirst i pMsgPkg hpc => exact .quiet rfl rfl rfl

end AppThread
end TinyNet
