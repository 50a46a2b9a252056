import TinyNet.Library.DescriptorTable
import TinyNet.Service.Scheduler

/-!
# Services and their workers

The scheduler is a static member that all services of one session type share.
{lit}`TCPService::start` makes new epoll descriptors for it, {lit}`Processor::start` sets
its thread count and starts the workers, and each worker reads its own epoll descriptor
from it when its thread gets to run.  A session is registered, when it is accepted or
connected, with whatever the scheduler holds at that time.  This file runs any number of
services of one type against each other.

The two fields {lit}`intact` and {lit}`ownFds` of a service record history: whether the
scheduler is still as the service's own start left it, and the descriptors that this
start made.

Main results:

- Theorems {lit}`mainStep_cases` and {lit}`serviceStep_cases`: what a step of the start
  and of a service can do.
- Theorem {lit}`serviceStep_wired`: a service whose scheduler is intact finds its own
  descriptors and its own thread count in it.
-/

namespace TinyNet
namespace Service
namespace Workers

open Library.DescriptorTable

/-! ## The services -/

/-- The part of {lit}`ITCPService::Properties` that matters here. -/
structure Properties where
  threads : Int
  app_run : Bool

/-- A worker thread: the index it was started with, the epoll descriptor it has read
from the scheduler, and the session whose event it handles. -/
structure Worker where
  procIdx : Nat
  procFd : Option Int
  handling : Option Nat

/-- Where the application's thread is in {lit}`TCPService::start`. -/
inductive Pc where
  | idle
  | epollCreate
  | procCreate (k : Nat)
  | processor
  | queue (i : Nat)
  | thread (i : Nat)
  | app
  | serving
  | failed
deriving DecidableEq

/-- A {lit}`TCPService` with its {lit}`Processor`. -/
structure TCPService where
  pc : Pc
  isRunning : Bool
  msgQueues : Nat
  procThreads : Nat
  workers : Nat → Worker
  appThread : Bool
  intact : Bool
  ownFds : Nat → Int

/-- A session: the service whose listener or connector made it, its descriptor, the epoll
descriptor it was registered with, and whether it still is. -/
structure Session where
  service : Nat
  fd : Int
  procFd : Int
  registered : Bool

/-- The threads of a service. -/
inductive Thread where
  | worker (t : Nat)
  | app
deriving DecidableEq

/-- What a worker does while it handles an event. -/
inductive Op where
  | recv
  | readPacket
  | pop
  | enqueue
  | done
  | close
  | drop
deriving DecidableEq

/-- An operation on a session, and an operation at one end of a message queue. -/
inductive Event where
  | session (service : Nat) (thread : Thread) (op : Op) (k : Nat)
  | produce (service : Nat) (thread : Thread) (queue : Nat)
  | consume (service : Nat) (thread : Thread) (queue : Nat)
deriving DecidableEq

/-- All services of one session type, with the scheduler they share. -/
structure State where
  kernel : Table
  scheder : Scheduler
  services : Nat → TCPService
  sessions : Nat → Session
  created : Nat
  log : List Event

/-- A step of one service: of the application's thread in {lit}`start`, of a listener or
connector that has a new descriptor, of a worker, or of the {lit}`app_run` thread. -/
inductive Act where
  | main (ret : Option Int)
  | push (fd : Int)
  | readProcFd (t : Nat)
  | epollWait (t k : Nat)
  | work (t : Nat) (op : Op)
  | dequeue (q : Nat)
deriving DecidableEq

/-- Services before they are started, in a process with the given descriptors. -/
def start (others : Int → Bool) : State where
  kernel := .create others
  scheder := { epollFd := 0, procFds := fun _ => 0, threads := 1 }
  services := fun _ =>
    { pc := .idle, isRunning := false, msgQueues := 0, procThreads := 0
      workers := fun _ => { procIdx := 0, procFd := none, handling := none }
      appThread := false, intact := false, ownFds := fun _ => 0 }
  sessions := fun _ => { service := 0, fd := -1, procFd := -1, registered := false }
  created := 0
  log := []

/-- No descriptor is open. -/
def fresh : State :=
  start fun _ => false

namespace State

def setService (s : State) (x : Nat) (svc : TCPService) : State :=
  { s with services := Function.update s.services x svc }

def setWorker (s : State) (x t : Nat) (worker : Worker) : State :=
  s.setService x
    { s.services x with workers := Function.update (s.services x).workers t worker }

/-- A service writes to the scheduler, which is then no longer as others left it. -/
def writeScheder (s : State) (x : Nat) (scheder : Scheduler) (svc : TCPService) : State :=
  { s with
    scheder := scheder
    services := fun y =>
      if y = x then svc else { s.services y with intact := false } }

/-- The loop of {lit}`Processor::start`. -/
def nextThread (props : Properties) (i : Nat) : Pc :=
  if (i : Int) < workerCount props.threads then .queue i else .app

/-- The first call of {lit}`Scheduler::start`. -/
def epollCreate (s : State) (x : Nat) : Option Int → Option State
  | some fd =>
      (s.kernel.handOut fd).map fun kernel =>
        { s with kernel := kernel }.writeScheder x { s.scheder with epollFd := fd }
          { s.services x with pc := .procCreate 0 }
  | none =>
      some (s.writeScheder x { s.scheder with epollFd := -1 } { s.services x with pc := .failed })

/-- The loop of {lit}`Scheduler::start`. -/
def procCreate (s : State) (x k : Nat) : Option Int → Option State
  | some fd =>
      (s.kernel.handOut fd).map fun kernel =>
        { s with kernel := kernel }.writeScheder x
          { s.scheder with procFds := Function.update s.scheder.procFds k fd }
          { s.services x with
            ownFds := Function.update (s.services x).ownFds k fd
            pc := if k + 1 < MAX_THREAD then .procCreate (k + 1) else .processor }
  | none =>
      some (s.writeScheder x
        { s.scheder with procFds := Function.update s.scheder.procFds k (-1) }
        { s.services x with pc := .failed })

/-- The first part of {lit}`Processor::start`. -/
def processor (props : Properties) (s : State) (x : Nat) : State :=
  if (s.services x).isRunning then s.setService x { s.services x with pc := .serving }
  else
    s.writeScheder x { s.scheder with threads := workerCount props.threads }
      { s.services x with isRunning := true, pc := nextThread props 0 }

/-- The next step of {lit}`TCPService::start`. -/
def mainStep (props : Properties) (s : State) (x : Nat) (ret : Option Int) : Option State :=
  match (s.services x).pc with
  | .idle => some (s.setService x { s.services x with pc := .epollCreate, intact := true })
  | .epollCreate => s.epollCreate x ret
  | .procCreate k => s.procCreate x k ret
  | .processor => some (s.processor props x)
  | .queue i =>
      some (s.setService x
        { s.services x with msgQueues := (s.services x).msgQueues + 1, pc := .thread i })
  | .thread i =>
      some (s.setService x
        { s.services x with
          workers := Function.update (s.services x).workers (s.services x).procThreads
            { procIdx := i, procFd := none, handling := none }
          procThreads := (s.services x).procThreads + 1
          pc := nextThread props (i + 1) })
  | .app => some (s.setService x { s.services x with appThread := props.app_run, pc := .serving })
  | .serving => none
  | .failed => none

/-- A listener accepts or a connector connects; then {lit}`Scheduler::push`. -/
def push (s : State) (x : Nat) (fd : Int) : Option State :=
  if (s.services x).pc = .serving then
    (s.kernel.handOut fd).map fun kernel =>
      { s with
        kernel := kernel
        sessions := Function.update s.sessions s.created
          { service := x, fd := fd, procFd := s.scheder.procFds (s.scheder.procIdx fd)
            registered := true }
        created := s.created + 1 }
  else none

/-- The first statement of {lit}`Processor::run`. -/
def readProcFd (s : State) (x t : Nat) : Option State :=
  let worker := (s.services x).workers t
  if t < (s.services x).procThreads ∧ worker.procFd = none then
    some (s.setWorker x t { worker with procFd := some (s.scheder.procFds worker.procIdx) })
  else none

/-- {lit}`epoll_wait` returns an event of a session that is registered with the worker's
descriptor. -/
def epollWait (s : State) (x t k : Nat) : Option State :=
  let worker := (s.services x).workers t
  if t < (s.services x).procThreads ∧ worker.handling = none ∧ k < s.created ∧
      (s.sessions k).registered = true ∧ worker.procFd = some (s.sessions k).procFd then
    some (s.setWorker x t { worker with handling := some k })
  else none

def deregister (s : State) (k : Nat) : State :=
  { s with sessions := Function.update s.sessions k { s.sessions k with registered := false } }

/-- A worker at work on the session {lit}`k` whose event it handles. -/
def workOn (props : Properties) (s : State) (x t k : Nat) : Op → Option State
  | .enqueue =>
      -- msgQueues[procIdx]->enqueue, under config.app_run
      if props.app_run then
        some
          { s with
            log := s.log ++ [.session x (.worker t) .enqueue k,
              .produce x (.worker t) ((s.services x).workers t).procIdx] }
      else none
  | .done => some (s.setWorker x t { (s.services x).workers t with handling := none })
  | .drop =>
      some ((s.deregister k).setWorker x t { (s.services x).workers t with handling := none })
  | .close =>
      some
        { (s.deregister k).setWorker x t { (s.services x).workers t with handling := none } with
          kernel := s.kernel.close (s.sessions k).fd }
  | op => some { s with log := s.log ++ [.session x (.worker t) op k] }

def work (props : Properties) (s : State) (x t : Nat) (op : Op) : Option State :=
  if t < (s.services x).procThreads then
    ((s.services x).workers t).handling.bind fun k => s.workOn props x t k op
  else none

/-- The {lit}`app_run` thread takes a message from a queue. -/
def dequeue (s : State) (x q : Nat) : Option State :=
  if (s.services x).appThread = true ∧ q < (s.services x).msgQueues then
    some { s with log := s.log ++ [.consume x .app q] }
  else none

end State

/-- One step of the service {lit}`x`. -/
def serviceStep (props : Properties) (x : Nat) (s : State) : Act → Option State
  | .main ret => s.mainStep props x ret
  | .push fd => s.push x fd
  | .readProcFd t => s.readProcFd x t
  | .epollWait t k => s.epollWait x t k
  | .work t op => s.work props x t op
  | .dequeue q => s.dequeue x q

/-- One step of one of the services. -/
def step (cfg : Nat → Properties) (s : State) (a : Nat × Act) : Option State :=
  serviceStep (cfg a.1) a.1 s a.2

/-! ## A service and the scheduler -/

/-- The start has made the epoll descriptor of worker {lit}`i`. -/
def Pc.made (i : Nat) : Pc → Bool
  | .procCreate k => i < k
  | .processor | .queue _ | .thread _ | .app | .serving => i < MAX_THREAD
  | _ => false

/-- The start has set the thread count. -/
def Pc.counted : Pc → Bool
  | .queue _ | .thread _ | .app | .serving => true
  | _ => false

/-- The queues and threads that the start has made so far. -/
def Counted (threads : Int) (svc : TCPService) : Prop :=
  match svc.pc with
  | .queue i => (i : Int) < workerCount threads ∧ svc.procThreads = i ∧ svc.msgQueues = i
  | .thread i => (i : Int) < workerCount threads ∧ svc.procThreads = i ∧ svc.msgQueues = i + 1
  | .app | .serving => (svc.procThreads : Int) = workerCount threads ∧
      svc.msgQueues = svc.procThreads
  | _ => svc.procThreads = 0 ∧ svc.msgQueues = 0 ∧ svc.isRunning = false

/-- How a service goes together with the scheduler. -/
structure Wired (threads : Int) (scheder : Scheduler) (svc : TCPService) : Prop where
  counted : Counted threads svc
  procIdx : ∀ t, t < svc.procThreads → (svc.workers t).procIdx = t
  fds : svc.intact = true → ∀ i, svc.pc.made i = true → scheder.procFds i = svc.ownFds i
  count : svc.intact = true → svc.pc.counted = true → scheder.threads = workerCount threads

section Wired

variable {threads : Int} {scheder : Scheduler} {svc : TCPService}

theorem Wired.queue_lt (h : Wired threads scheder svc) {t : Nat} (ht : t < svc.procThreads) :
    t < svc.msgQueues := by
  have hcounted := h.counted
  unfold Counted at hcounted
  cases hpc : svc.pc <;> simp only [hpc] at hcounted <;> omega

theorem Wired.made_of_lt (h : Wired threads scheder svc) {t : Nat} (ht : t < svc.procThreads) :
    svc.pc.made t = true := by
  have hrange := workerCount_range threads
  have hcounted := h.counted
  unfold Counted at hcounted
  cases hpc : svc.pc <;> simp only [hpc, Pc.made, decide_eq_true_iff] at hcounted ⊢ <;> omega

/-- The service was not the last to write to the scheduler. -/
theorem Wired.disturbed (h : Wired threads scheder svc) (scheder' : Scheduler) :
    Wired threads scheder' { svc with intact := false } :=
  ⟨h.counted, h.procIdx, fun hintact => by contradiction, fun hintact => by contradiction⟩

theorem Wired.setWorker (h : Wired threads scheder svc) {t : Nat} {worker : Worker}
    (hworker : worker.procIdx = (svc.workers t).procIdx) :
    Wired threads scheder { svc with workers := Function.update svc.workers t worker } := by
  refine ⟨h.counted, ?_, h.fds, h.count⟩
  intro t' ht'
  rcases eq_or_ne t' t with rfl | hne
  · simpa [hworker] using h.procIdx t' ht'
  · simpa [Function.update_of_ne hne] using h.procIdx t' ht'

theorem made_nextThread (props : Properties) (i t : Nat) :
    (State.nextThread props i).made t = decide (t < MAX_THREAD) := by
  unfold State.nextThread
  split_ifs <;> rfl

end Wired

/-- Every service goes together with the scheduler. -/
def AllWired (cfg : Nat → Properties) (s : State) : Prop :=
  ∀ x, Wired (cfg x).threads s.scheder (s.services x)

theorem start_wired (cfg : Nat → Properties) (others : Int → Bool) :
    AllWired cfg (start others) := by
  intro x
  refine ⟨⟨rfl, rfl, rfl⟩, ?_, ?_, ?_⟩ <;> simp [start]

theorem setService_wired {cfg : Nat → Properties} {s : State} {x : Nat} {svc : TCPService}
    (h : AllWired cfg s) (hsvc : Wired (cfg x).threads s.scheder svc) :
    AllWired cfg (s.setService x svc) := by
  intro y
  rcases eq_or_ne y x with rfl | hne
  · simpa [State.setService] using hsvc
  · simpa [State.setService, Function.update_of_ne hne] using h y

theorem writeScheder_wired {cfg : Nat → Properties} {s : State} {x : Nat} {svc : TCPService}
    {scheder : Scheduler} (h : AllWired cfg s) (hsvc : Wired (cfg x).threads scheder svc) :
    AllWired cfg (s.writeScheder x scheder svc) := by
  intro y
  rcases eq_or_ne y x with rfl | hne
  · simpa [State.writeScheder] using hsvc
  · simpa [State.writeScheder, hne] using (h y).disturbed scheder

/-- The cases of a step of {lit}`TCPService::start`, with what is enabled in each. -/
inductive MainCase (props : Properties) (x : Nat) (s : State) : State → Prop where
  | idle (hpc : (s.services x).pc = .idle) :
      MainCase props x s
        (s.setService x { s.services x with pc := .epollCreate, intact := true })
  | epollFails (hpc : (s.services x).pc = .epollCreate) :
      MainCase props x s
        (s.writeScheder x { s.scheder with epollFd := -1 } { s.services x with pc := .failed })
  | epollMade (fd : Int) (kernel : Table) (hpc : (s.services x).pc = .epollCreate)
      (hkernel : s.kernel.handOut fd = some kernel) :
      MainCase props x s
        ({ s with kernel := kernel }.writeScheder x { s.scheder with epollFd := fd }
          { s.services x with pc := .procCreate 0 })
  | procFails (k : Nat) (hpc : (s.services x).pc = .procCreate k) :
      MainCase props x s
        (s.writeScheder x { s.scheder with procFds := Function.update s.scheder.procFds k (-1) }
          { s.services x with pc := .failed })
  | procMade (k : Nat) (fd : Int) (kernel : Table) (hpc : (s.services x).pc = .procCreate k)
      (hkernel : s.kernel.handOut fd = some kernel) :
      MainCase props x s
        ({ s with kernel := kernel }.writeScheder x
          { s.scheder with procFds := Function.update s.scheder.procFds k fd }
          { s.services x with
            ownFds := Function.update (s.services x).ownFds k fd
            pc := if k + 1 < MAX_THREAD then .procCreate (k + 1) else .processor })
  | restarted (hpc : (s.services x).pc = .processor) (hrunning : (s.services x).isRunning = true) :
      MainCase props x s (s.setService x { s.services x with pc := .serving })
  | counts (hpc : (s.services x).pc = .processor) :
      MainCase props x s
        (s.writeScheder x { s.scheder with threads := workerCount props.threads }
          { s.services x with isRunning := true, pc := State.nextThread props 0 })
  | queue (i : Nat) (hpc : (s.services x).pc = .queue i) :
      MainCase props x s
        (s.setService x
          { s.services x with msgQueues := (s.services x).msgQueues + 1, pc := .thread i })
  | thread (i : Nat) (hpc : (s.services x).pc = .thread i) :
      MainCase props x s
        (s.setService x
          { s.services x with
            workers := Function.update (s.services x).workers (s.services x).procThreads
              { procIdx := i, procFd := none, handling := none }
            procThreads := (s.services x).procThreads + 1
            pc := State.nextThread props (i + 1) })
  | app (hpc : (s.services x).pc = .app) :
      MainCase props x s
        (s.setService x { s.services x with appThread := props.app_run, pc := .serving })

theorem mainStep_cases {props : Properties} {x : Nat} {s s' : State} {ret : Option Int}
    (hstep : s.mainStep props x ret = some s') : MainCase props x s s' := by
  unfold State.mainStep at hstep
  cases hpc : (s.services x).pc with
  | idle =>
      rw [hpc] at hstep
      obtain rfl := Option.some.inj hstep
      exact .idle hpc
  | epollCreate =>
      rw [hpc] at hstep
      cases ret with
      | none =>
          obtain rfl := Option.some.inj hstep
          exact .epollFails hpc
      | some fd =>
          rcases Option.map_eq_some_iff.mp hstep with ⟨kernel, hkernel, rfl⟩
          exact .epollMade fd kernel hpc hkernel
  | procCreate k =>
      rw [hpc] at hstep
      cases ret with
      | none =>
          obtain rfl := Option.some.inj hstep
          exact .procFails k hpc
      | some fd =>
          rcases Option.map_eq_some_iff.mp hstep with ⟨kernel, hkernel, rfl⟩
          exact .procMade k fd kernel hpc hkernel
  | processor =>
      rw [hpc] at hstep
      obtain rfl := Option.some.inj hstep
      unfold State.processor
      split_ifs with hrunning
      · exact .restarted hpc hrunning
      · exact .counts hpc
  | queue i =>
      rw [hpc] at hstep
      obtain rfl := Option.some.inj hstep
      exact .queue i hpc
  | thread i =>
      rw [hpc] at hstep
      obtain rfl := Option.some.inj hstep
      exact .thread i hpc
  | app =>
      rw [hpc] at hstep
      obtain rfl := Option.some.inj hstep
      exact .app hpc
  | serving =>
      rw [hpc] at hstep
      contradiction
  | failed =>
      rw [hpc] at hstep
      contradiction

/-- A descriptor more in the scheduler and in the service that made it. -/
theorem procMade_wired {threads : Int} {scheder : Scheduler} {svc : TCPService} {k : Nat} (fd : Int)
    (h : Wired threads scheder svc) (hpc : svc.pc = .procCreate k) :
    Wired threads { scheder with procFds := Function.update scheder.procFds k fd }
      { svc with
        ownFds := Function.update svc.ownFds k fd
        pc := if k + 1 < MAX_THREAD then .procCreate (k + 1) else .processor } := by
  have hcounted := h.counted
  simp only [Counted, hpc] at hcounted
  refine ⟨?_, h.procIdx, ?_, ?_⟩
  · split_ifs <;> simpa [Counted] using hcounted
  · intro hintact i hi
    have hle : i ≤ k := by
      split_ifs at hi <;> simp only [Pc.made, decide_eq_true_iff] at hi <;> omega
    rcases eq_or_ne i k with rfl | hne
    · simp
    · simp only [Function.update_of_ne hne]
      apply h.fds hintact
      simp only [hpc, Pc.made, decide_eq_true_iff]
      omega
  · intro _ hcounted'
    split_ifs at hcounted' <;> simp [Pc.counted] at hcounted'

theorem mainStep_wired {cfg : Nat → Properties} {s s' : State} {x : Nat} {ret : Option Int}
    (h : AllWired cfg s) (hstep : s.mainStep (cfg x) x ret = some s') : AllWired cfg s' := by
  have hx := h x
  have hcounted := hx.counted
  cases mainStep_cases hstep with
  | idle hpc =>
      simp only [Counted, hpc] at hcounted
      exact setService_wired h ⟨hcounted, hx.procIdx, by simp [Pc.made], by simp [Pc.counted]⟩
  | epollFails hpc | procFails k hpc =>
      simp only [Counted, hpc] at hcounted
      exact writeScheder_wired h ⟨hcounted, hx.procIdx, by simp [Pc.made], by simp [Pc.counted]⟩
  | epollMade fd kernel hpc _ =>
      have hkernel : AllWired cfg { s with kernel := kernel } := h
      simp only [Counted, hpc] at hcounted
      exact writeScheder_wired hkernel
        ⟨hcounted, hx.procIdx, by simp [Pc.made], by simp [Pc.counted]⟩
  | procMade k fd kernel hpc _ =>
      have hkernel : AllWired cfg { s with kernel := kernel } := h
      exact writeScheder_wired hkernel (procMade_wired fd hx hpc)
  | restarted hpc hrunning =>
      -- a processor that runs already is past this point of its only start
      simp only [Counted, hpc, hrunning] at hcounted
      simp at hcounted
  | counts hpc =>
      have hrange := workerCount_range (cfg x).threads
      have hfirst : State.nextThread (cfg x) 0 = .queue 0 := by
        unfold State.nextThread
        rw [if_pos (by simp; omega)]
      simp only [Counted, hpc] at hcounted
      rw [hfirst]
      refine writeScheder_wired h ⟨?_, hx.procIdx, ?_, fun _ _ => rfl⟩
      · simp only [Counted]
        omega
      · intro hintact i hi
        exact hx.fds hintact i (by simpa [hpc, Pc.made] using hi)
  | queue i hpc =>
      simp only [Counted, hpc] at hcounted
      refine setService_wired h ⟨?_, hx.procIdx, ?_, ?_⟩
      · simp only [Counted]
        omega
      · exact fun hintact i hi => hx.fds hintact i (by simpa [hpc, Pc.made] using hi)
      · exact fun hintact _ => hx.count hintact (by simp [hpc, Pc.counted])
  | thread i hpc =>
      simp only [Counted, hpc] at hcounted
      refine setService_wired h ⟨?_, ?_, ?_, ?_⟩
      · unfold State.nextThread
        split_ifs <;> simp only [Counted] <;> omega
      · intro t ht
        have hle : t < (s.services x).procThreads + 1 := ht
        rcases eq_or_ne t (s.services x).procThreads with rfl | hne
        · simp [hcounted.2.1]
        · simpa [Function.update_of_ne hne] using hx.procIdx t (by omega)
      · intro hintact t ht
        rw [made_nextThread] at ht
        exact hx.fds hintact t (by simpa [hpc, Pc.made] using ht)
      · exact fun hintact _ => hx.count hintact (by simp [hpc, Pc.counted])
  | app hpc =>
      simp only [Counted, hpc] at hcounted
      refine setService_wired h ⟨hcounted, hx.procIdx, ?_, ?_⟩
      · exact fun hintact i hi => hx.fds hintact i (by simpa [hpc, Pc.made] using hi)
      · exact fun hintact _ => hx.count hintact (by simp [hpc, Pc.counted])

/-! ## What a step does -/

/-- The sessions, with some of them taken out of their epoll sets. -/
structure Fewer (sessions sessions' : Nat → Session) : Prop where
  service : ∀ k, (sessions' k).service = (sessions k).service
  procFd : ∀ k, (sessions' k).procFd = (sessions k).procFd
  fd : ∀ k, (sessions' k).fd = (sessions k).fd
  registered : ∀ k, (sessions' k).registered = true → (sessions k).registered = true

theorem Fewer.refl (sessions : Nat → Session) : Fewer sessions sessions :=
  ⟨fun _ => rfl, fun _ => rfl, fun _ => rfl, fun _ => id⟩

theorem fewer_deregister (s : State) (k : Nat) : Fewer s.sessions (s.deregister k).sessions := by
  have hcases : ∀ k', (s.deregister k).sessions k' = s.sessions k' ∨
      (s.deregister k).sessions k' = { s.sessions k' with registered := false } := by
    intro k'
    rcases eq_or_ne k' k with rfl | hne
    · exact Or.inr (Function.update_self ..)
    · exact Or.inl (Function.update_of_ne hne ..)
  constructor <;> intro k' <;> rcases hcases k' with heq | heq <;> simp [heq]

/-- The cases of a step of the service {lit}`x`, with what is enabled in each. -/
inductive StepCase (props : Properties) (x : Nat) (s : State) : Act → State → Prop where
  | main (ret : Option Int) (s' : State) (hmain : s.mainStep props x ret = some s') :
      StepCase props x s (.main ret) s'
  | push (fd : Int) (kernel : Table) (hpc : (s.services x).pc = .serving)
      (hkernel : s.kernel.handOut fd = some kernel) :
      StepCase props x s (.push fd)
        { s with
          kernel := kernel
          sessions := Function.update s.sessions s.created
            { service := x, fd := fd, procFd := s.scheder.procFds (s.scheder.procIdx fd)
              registered := true }
          created := s.created + 1 }
  | readProcFd (t : Nat) (ht : t < (s.services x).procThreads)
      (hnone : ((s.services x).workers t).procFd = none) :
      StepCase props x s (.readProcFd t)
        (s.setWorker x t
          { (s.services x).workers t with
            procFd := some (s.scheder.procFds ((s.services x).workers t).procIdx) })
  | epollWait (t k : Nat) (ht : t < (s.services x).procThreads) (hk : k < s.created)
      (hregistered : (s.sessions k).registered = true)
      (hfd : ((s.services x).workers t).procFd = some (s.sessions k).procFd) :
      StepCase props x s (.epollWait t k)
        (s.setWorker x t { (s.services x).workers t with handling := some k })
  | work (t k : Nat) (op : Op) (events : List Event) (ht : t < (s.services x).procThreads)
      (hk : ((s.services x).workers t).handling = some k)
      (hevents : ∀ e ∈ events, e = .session x (.worker t) op k ∨
        e = .produce x (.worker t) ((s.services x).workers t).procIdx) :
      StepCase props x s (.work t op) { s with log := s.log ++ events }
  | finish (t k : Nat) (op : Op) (sessions : Nat → Session) (kernel : Table)
      (ht : t < (s.services x).procThreads)
      (hk : ((s.services x).workers t).handling = some k)
      (hsessions : Fewer s.sessions sessions)
      (hkernel : kernel = s.kernel ∨
        kernel = s.kernel.close (s.sessions k).fd ∧ (sessions k).registered = false) :
      StepCase props x s (.work t op)
        { s.setWorker x t { (s.services x).workers t with handling := none } with
          sessions := sessions, kernel := kernel }
  | dequeue (q : Nat) :
      StepCase props x s (.dequeue q) { s with log := s.log ++ [.consume x .app q] }

theorem workOn_cases {props : Properties} {x t k : Nat} {s s' : State} {op : Op}
    (ht : t < (s.services x).procThreads) (hk : ((s.services x).workers t).handling = some k)
    (hstep : s.workOn props x t k op = some s') : StepCase props x s (.work t op) s' := by
  cases op with
  | recv | readPacket | pop =>
      obtain rfl := Option.some.inj hstep
      exact .work t k _ _ ht hk (by simp)
  | enqueue =>
      simp only [State.workOn, Option.ite_none_right_eq_some, Option.some.injEq] at hstep
      rcases hstep with ⟨-, rfl⟩
      exact .work t k _ _ ht hk (by simp)
  | done =>
      obtain rfl := Option.some.inj hstep
      exact .finish t k _ s.sessions s.kernel ht hk (.refl _) (Or.inl rfl)
  | drop =>
      obtain rfl := Option.some.inj hstep
      exact .finish t k _ _ s.kernel ht hk (fewer_deregister s k) (Or.inl rfl)
  | close =>
      obtain rfl := Option.some.inj hstep
      have hgone : ((s.deregister k).sessions k).registered = false := by
        simp [State.deregister]
      exact .finish t k _ _ _ ht hk (fewer_deregister s k) (Or.inr ⟨rfl, hgone⟩)

theorem serviceStep_cases {props : Properties} {x : Nat} {s s' : State} {a : Act}
    (hstep : serviceStep props x s a = some s') : StepCase props x s a s' := by
  cases a with
  | main ret => exact .main ret s' hstep
  | push fd =>
      simp only [serviceStep, State.push, Option.ite_none_right_eq_some] at hstep
      rcases hstep with ⟨hpc, hmap⟩
      rcases Option.map_eq_some_iff.mp hmap with ⟨kernel, hkernel, rfl⟩
      exact .push fd kernel hpc hkernel
  | readProcFd t =>
      simp only [serviceStep, State.readProcFd, Option.ite_none_right_eq_some,
        Option.some.injEq] at hstep
      rcases hstep with ⟨⟨ht, hnone⟩, rfl⟩
      exact .readProcFd t ht hnone
  | epollWait t k =>
      simp only [serviceStep, State.epollWait, Option.ite_none_right_eq_some,
        Option.some.injEq] at hstep
      rcases hstep with ⟨⟨ht, -, hk, hregistered, hfd⟩, rfl⟩
      exact .epollWait t k ht hk hregistered hfd
  | work t op =>
      simp only [serviceStep, State.work, Option.ite_none_right_eq_some] at hstep
      rcases hstep with ⟨ht, hbind⟩
      rcases Option.bind_eq_some_iff.mp hbind with ⟨k, hk, hwork⟩
      exact workOn_cases ht hk hwork
  | dequeue q =>
      simp only [serviceStep, State.dequeue, Option.ite_none_right_eq_some,
        Option.some.injEq] at hstep
      rcases hstep with ⟨-, rfl⟩
      exact .dequeue q

theorem setWorker_wired {cfg : Nat → Properties} {s : State} {x t : Nat} {worker : Worker}
    (h : AllWired cfg s) (hworker : worker.procIdx = ((s.services x).workers t).procIdx) :
    AllWired cfg (s.setWorker x t worker) :=
  setService_wired h ((h x).setWorker hworker)

/-- A service whose scheduler is intact finds its own descriptors and its own thread
count in it. -/
theorem serviceStep_wired {cfg : Nat → Properties} {s s' : State} {x : Nat} {a : Act}
    (h : AllWired cfg s) (hstep : serviceStep (cfg x) x s a = some s') : AllWired cfg s' := by
  cases serviceStep_cases hstep with
  | main ret _ hmain => exact mainStep_wired h hmain
  | push fd kernel _ _ => exact h
  | readProcFd t _ _ => exact setWorker_wired h rfl
  | epollWait t k _ _ _ _ => exact setWorker_wired h rfl
  | work t k op events _ _ _ => exact h
  | finish t k op sessions kernel _ _ _ _ => exact setWorker_wired h rfl
  | dequeue q => exact h

end Workers
end Service
end TinyNet
