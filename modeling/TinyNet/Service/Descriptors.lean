import TinyNet.Library.DescriptorTable
import TinyNet.Service.Scheduler

/-!
# The descriptors of a service

{lit}`TCPService::start` creates the epoll descriptors of the scheduler, a socket for each
listener and one for each connector, and goes on after most failures.
{lit}`TCPService::stop` closes what the listeners and connectors remember.  Meanwhile the
listener threads accept sessions and the workers close them.  This file runs all of this
against the kernel's descriptor table, one system call at a time.

The condition {lit}`sound` names the steps at which the owners of a descriptor get in
each other's way; what it gives is proved in {lit}`ClosedOnce`.
-/

namespace TinyNet
namespace Service
namespace Descriptors

open Library.DescriptorTable

/-! ## The service -/

/-- The listeners and connectors that were added, and whether the application passed an
event handler to {lit}`start`. -/
structure Config where
  listeners : Nat
  connectors : Nat
  evtHandler : Bool

/-- A thread of the service. -/
inductive Thread where
  | unstarted
  | running
  | ended
deriving DecidableEq

/-- {lit}`Listener`. -/
structure Listener where
  lisFd : Int
  thread : Thread

/-- {lit}`Connector`.  Its {lit}`fd` is uninitialised until {lit}`connect`; the two flags
record whether {lit}`start` and {lit}`stop` were called on it. -/
structure Connector where
  fd : Int
  session : Option Nat
  started : Bool
  stopped : Bool

/-- A session: its descriptor, the connector that made it if it was not accepted, whether
it is in its worker's epoll set, whether {lit}`epoll_wait` has returned an event of it
that is not handled yet, and whether its worker has closed it. -/
structure Session where
  fd : Int
  connector : Option Nat
  registered : Bool
  pending : Bool
  closed : Bool

/-- Where the application's thread is in {lit}`TCPService::start` and {lit}`stop`. -/
inductive Pc where
  | epollCreate
  | procCreate (k : Nat)
  | lisSocket (i : Nat)
  | lisBind (i : Nat)
  | lisListen (i : Nat)
  | lisThread (i : Nat)
  | connSocket (j : Nat)
  | connConnect (j : Nat)
  | started
  | stopLis (i : Nat)
  | stopEpoll (i : Nat)
  | stopJoin (i : Nat)
  | stopConn (j : Nat)
  | stopped
deriving DecidableEq

/-- The service with the kernel's table. -/
structure State where
  kernel : Table
  scheder : Scheduler
  listeners : Nat → Listener
  connectors : Nat → Connector
  sessions : Nat → Session
  created : Nat
  pc : Pc

/-- The result of a system call: a descriptor, success, or failure. -/
inductive Ret where
  | fd (fd : Int)
  | ok
  | fail
deriving DecidableEq

/-- What a worker does on an event: go on with the session, take one of the close paths,
or only take the session out of the epoll set. -/
inductive Outcome where
  | keep
  | close
  | drop
deriving DecidableEq

/-- A step of the application's thread, of a listener thread, or of a worker. -/
inductive Action where
  | main (ret : Ret)
  | accept (i : Nat) (fd : Int)
  | listenerEnds (i : Nat)
  | epollWait (k : Nat)
  | handle (k : Nat) (outcome : Outcome)
deriving DecidableEq

/-- A service before {lit}`start`, in a process whose other descriptors are given, with
the uninitialised {lit}`fd` of each connector. -/
def start (others : Int → Bool) (garbage : Nat → Int) : State where
  kernel := .create others
  scheder := { epollFd := 0, procFds := fun _ => 0, threads := 1 }
  listeners := fun _ => { lisFd := -1, thread := .unstarted }
  connectors := fun j => { fd := garbage j, session := none, started := false, stopped := false }
  sessions := fun _ =>
    { fd := -1, connector := none, registered := false, pending := false, closed := false }
  created := 0
  pc := .epollCreate

namespace Config

/-- The loop over {lit}`lstConnector` in {lit}`start`. -/
def nextConnect (cfg : Config) (j : Nat) : Pc :=
  if j < cfg.connectors then .connSocket j else .started

/-- The loop over {lit}`lstListener` in {lit}`start`. -/
def nextListen (cfg : Config) (i : Nat) : Pc :=
  if i < cfg.listeners then .lisSocket i else cfg.nextConnect 0

/-- The loop over {lit}`lstConnector` in {lit}`stop`. -/
def nextStopConn (cfg : Config) (j : Nat) : Pc :=
  if j < cfg.connectors then .stopConn j else .stopped

/-- The loop over {lit}`lstListener` in {lit}`stop`. -/
def nextStop (cfg : Config) (i : Nat) : Pc :=
  if i < cfg.listeners then .stopLis i else cfg.nextStopConn 0

end Config

namespace State

def setPc (s : State) (pc : Pc) : State :=
  { s with pc := pc }

def setListener (s : State) (i : Nat) (lis : Listener) : State :=
  { s with listeners := Function.update s.listeners i lis }

def setConnector (s : State) (j : Nat) (conn : Connector) : State :=
  { s with connectors := Function.update s.connectors j conn }

def setSession (s : State) (k : Nat) (session : Session) : State :=
  { s with sessions := Function.update s.sessions k session }

/-- A system call that returns a descriptor. -/
def handOut (s : State) (fd : Int) : Option State :=
  (s.kernel.handOut fd).map fun kernel => { s with kernel := kernel }

/-- {lit}`EPOLL_CTL_DEL`. -/
def epollDel (s : State) (fd : Int) : State :=
  { s with
    sessions := fun k =>
      if (s.sessions k).fd = fd then { s.sessions k with registered := false }
      else s.sessions k }

/-- {lit}`close`, which also takes the descriptor out of the epoll sets. -/
def close (s : State) (fd : Int) : State :=
  { s.epollDel fd with kernel := s.kernel.close fd }

/-- {lit}`factory->create` and {lit}`Scheduler::push`. -/
def push (s : State) (fd : Int) (connector : Option Nat) : State :=
  { s with
    sessions := Function.update s.sessions s.created
      { fd := fd, connector := connector, registered := true, pending := false, closed := false }
    created := s.created + 1 }

/-- The first call of {lit}`Scheduler::start`. -/
def epollCreate (s : State) : Ret → Option State
  | .fd fd => do
      let s ← s.handOut fd
      some { s with scheder := { s.scheder with epollFd := fd }, pc := .procCreate 0 }
  | .ok => none
  -- thrown out of TCPService::start
  | .fail => some { s with scheder := { s.scheder with epollFd := -1 }, pc := .started }

/-- The loop of {lit}`Scheduler::start`. -/
def procCreate (cfg : Config) (s : State) (k : Nat) : Ret → Option State
  | .fd fd => do
      let s ← s.handOut fd
      some
        { s with
          scheder := { s.scheder with procFds := Function.update s.scheder.procFds k fd }
          pc := if k + 1 < MAX_THREAD then .procCreate (k + 1) else cfg.nextListen 0 }
  | .ok => none
  | .fail =>
      some
        { s with
          scheder := { s.scheder with procFds := Function.update s.scheder.procFds k (-1) }
          pc := .started }

/-- {lit}`socket` in {lit}`Listener::start`. -/
def lisSocket (cfg : Config) (s : State) (i : Nat) : Ret → Option State
  | .fd fd => do
      let s ← s.handOut fd
      some ((s.setListener i { s.listeners i with lisFd := fd }).setPc (.lisBind i))
  | .ok => none
  | .fail =>
      some ((s.setListener i { s.listeners i with lisFd := -1 }).setPc (cfg.nextListen (i + 1)))

/-- {lit}`bind` and {lit}`listen` in {lit}`Listener::start`: on failure the socket is
closed and {lit}`lisFd` keeps its value. -/
def lisCall (cfg : Config) (s : State) (i : Nat) (next : Pc) : Ret → Option State
  | .fd _ => none
  | .ok => some (s.setPc next)
  | .fail => some ((s.close (s.listeners i).lisFd).setPc (cfg.nextListen (i + 1)))

/-- The start of the listener's thread, whose failure is caught. -/
def lisThread (cfg : Config) (s : State) (i : Nat) : Ret → Option State
  | .fd _ => none
  | .ok =>
      some ((s.setListener i { s.listeners i with thread := .running }).setPc
        (cfg.nextListen (i + 1)))
  | .fail =>
      if (s.listeners i).lisFd = -1 then some (s.setPc (cfg.nextListen (i + 1)))
      else
        some (((s.setListener i { s.listeners i with lisFd := -1 }).setPc
          (cfg.nextListen (i + 1))).close (s.listeners i).lisFd)

/-- {lit}`socket` in {lit}`Connector::connect`. -/
def connSocket (cfg : Config) (s : State) (j : Nat) : Ret → Option State
  | .fd fd => do
      let s ← s.handOut fd
      some ((s.setConnector j { s.connectors j with fd := fd, started := true }).setPc
        (.connConnect j))
  | .ok => none
  | .fail =>
      some ((s.setConnector j { s.connectors j with fd := -1, started := true }).setPc
        (cfg.nextConnect (j + 1)))

/-- {lit}`connect` in {lit}`Connector::connect`.  On failure {lit}`evtHandler` is called,
which throws out of {lit}`start` if there is none. -/
def connConnect (cfg : Config) (s : State) (j : Nat) : Ret → Option State
  | .fd _ => none
  | .ok =>
      some (((s.push (s.connectors j).fd (some j)).setConnector j
        { s.connectors j with session := some s.created }).setPc (cfg.nextConnect (j + 1)))
  | .fail => some (s.setPc (if cfg.evtHandler then cfg.nextConnect (j + 1) else .started))

/-- {lit}`runThread.join()`, which throws out of {lit}`stop` if there is no thread. -/
def stopJoin (cfg : Config) (s : State) (i : Nat) : Option State :=
  match (s.listeners i).thread with
  | .unstarted => some (s.setPc .stopped)
  | .running => none
  | .ended => some (s.setPc (cfg.nextStop (i + 1)))

/-- {lit}`Connector::stop`. -/
def stopConn (cfg : Config) (s : State) (j : Nat) : State :=
  ((s.setConnector j { s.connectors j with stopped := true }).setPc
    (cfg.nextStopConn (j + 1))).close (s.connectors j).fd

/-- The next step of the application's thread. -/
def mainStep (cfg : Config) (s : State) (ret : Ret) : Option State :=
  match s.pc with
  | .epollCreate => s.epollCreate ret
  | .procCreate k => s.procCreate cfg k ret
  | .lisSocket i => s.lisSocket cfg i ret
  | .lisBind i => s.lisCall cfg i (.lisListen i) ret
  | .lisListen i => s.lisCall cfg i (.lisThread i) ret
  | .lisThread i => s.lisThread cfg i ret
  | .connSocket j => s.connSocket cfg j ret
  | .connConnect j => s.connConnect cfg j ret
  | .started => some (s.setPc (cfg.nextStop 0))
  | .stopLis i => some ((s.setPc (.stopEpoll i)).close (s.listeners i).lisFd)
  | .stopEpoll i => some ((s.setPc (.stopJoin i)).close s.scheder.epollFd)
  | .stopJoin i => s.stopJoin cfg i
  | .stopConn j => some (s.stopConn cfg j)
  | .stopped => none

/-- A worker handles an event that {lit}`epoll_wait` returned. -/
def handle (s : State) (k : Nat) : Outcome → State
  | .keep => s.setSession k { s.sessions k with pending := false }
  | .close =>
      ((s.setSession k
        { s.sessions k with pending := false, registered := false, closed := true }).epollDel
          (s.sessions k).fd).close (s.sessions k).fd
  | .drop =>
      (s.setSession k { s.sessions k with pending := false, registered := false }).epollDel
        (s.sessions k).fd

end State

/-- One step of the service. -/
def step (cfg : Config) (s : State) : Action → Option State
  | .main ret => s.mainStep cfg ret
  | .accept i fd =>
      if (s.listeners i).thread = .running ∧ s.kernel.isOpen (s.listeners i).lisFd = true then
        (s.handOut fd).map fun s => s.push fd none
      else none
  | .listenerEnds i =>
      if (s.listeners i).thread = .running then
        some (s.setListener i { s.listeners i with thread := .ended })
      else none
  | .epollWait k =>
      if k < s.created ∧ (s.sessions k).registered = true ∧ (s.sessions k).pending = false then
        some (s.setSession k { s.sessions k with pending := true })
      else none
  | .handle k outcome =>
      if k < s.created ∧ (s.sessions k).pending = true then some (s.handle k outcome) else none

/-- The worker of a connector's session has closed it. -/
def State.sessionClosed (s : State) (j : Nat) : Bool :=
  match (s.connectors j).session with
  | none => false
  | some k => (s.sessions k).closed

/-- The condition on the steps that close a descriptor.  {lit}`Listener::stop` runs for
the first listener only, whose socket failed or whose thread was started;
{lit}`Connector::stop` runs for a connector that was started and whose session its worker
has not closed; a worker closes no session of a connector that was stopped. -/
def sound (s : State) : Action → Bool
  | .main _ =>
      match s.pc with
      | .stopLis i => i = 0 && ((s.listeners i).lisFd = -1 || (s.listeners i).thread ≠ .unstarted)
      | .stopEpoll i => i = 0
      | .stopConn j => (s.connectors j).started && !s.sessionClosed j
      | _ => true
  | .handle k .close =>
      match (s.sessions k).connector with
      | none => true
      | some j => !(s.connectors j).stopped
  | _ => true

/-! ## System calls that return a descriptor -/

theorem State.handOut_eq_some {s s' : State} {fd : Int} (h : s.handOut fd = some s') :
    ∃ kernel, s.kernel.handOut fd = some kernel ∧ s' = { s with kernel := kernel } := by
  rcases Option.map_eq_some_iff.mp h with ⟨kernel, hkernel, rfl⟩
  exact ⟨kernel, hkernel, rfl⟩

/-- A system call that hands out a descriptor, which is never -1, and what is done with
it. -/
theorem State.handOut_bind_eq_some {s s' : State} {fd : Int} {f : State → State}
    (h : ((s.handOut fd).bind fun s₁ => some (f s₁)) = some s') :
    ∃ kernel, s.kernel.handOut fd = some kernel ∧ fd ≠ -1 ∧
      s' = f { s with kernel := kernel } := by
  rcases Option.bind_eq_some_iff.mp h with ⟨s₁, hhand, heq⟩
  rcases State.handOut_eq_some hhand with ⟨kernel, hkernel, rfl⟩
  have hnonneg := (Table.handOut_eq_some hkernel).1
  exact ⟨kernel, hkernel, by omega, (Option.some.inj heq).symm⟩

end Descriptors
end Service
end TinyNet
