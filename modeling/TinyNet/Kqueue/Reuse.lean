import TinyNet.Library.Holders
import TinyNet.Library.StepSystem

/-!
# Descriptors that are used again

A worker of {lit}`detail/kqueuenet.hpp` takes a batch of events from {lit}`kevent` and handles
them one after the other.  An event names its session, and the session its descriptor and, for
{lit}`async_send`, the {lit}`kqueue` of its worker.  A listener sets {lit}`procFd` before it
registers the session there, and a connector after it has done so.  Once the descriptor has
been closed, the next {lit}`accept` may return the same one, for another connection.  The other
threads run between any two system calls of a worker.

The kernel's side is that of {lit}`kevent`: it applies the changes one by one up to the first
that fails, reports each filter once per call, and drops the filters of a descriptor, in every
{lit}`kqueue`, when that is closed.

Main results:

- Theorem {lit}`step_inv`: the filters of a descriptor are those of the session whose
  connection is open there, and are in the {lit}`kqueue` of its worker; and every session that
  a worker is at or has an event of is open.
- Theorem {lit}`sessions_isolated`: if no batch has an event of a session after a read event
  of it, and the application calls no session before it is set up or after it was closed and
  closes none that a worker is busy with, every system call that is made for a session acts on
  that session's own connection.
-/

namespace TinyNet
namespace Kqueue
namespace Reuse

open Library.Holders
open Library.StepSystem

/-! ## The model -/

/-- {lit}`EVFILT_READ` and {lit}`EVFILT_WRITE`. -/
inductive Filter where
  | read
  | write
deriving DecidableEq

/-- An entry of a change list: {lit}`EV_ADD|EV_ENABLE` or {lit}`EV_DELETE`. -/
inductive Change where
  | add (filter : Filter)
  | delete (filter : Filter)
deriving DecidableEq

/-- The change list of {lit}`updateEvents`. -/
def updateEvents (kReadEvent kWriteEvent modify : Bool) : List Change :=
  (if kReadEvent then [.add .read] else if modify then [.delete .read] else []) ++
    if kWriteEvent then [.add .write] else if modify then [.delete .write] else []

/-- A system call on a session's descriptor. -/
inductive Syscall where
  | recv
  | send
  | kevent (changes : List Change)
  | close
deriving DecidableEq

/-- How {lit}`recv` or {lit}`::send` ends: with {lit}`EAGAIN` in {lit}`errno`, with another
error, with 0, or with data. -/
inductive Outcome where
  | again
  | error
  | closed
  | data
deriving DecidableEq

/-- The system calls that {lit}`Processor::run` makes for an event. -/
def handling : Filter → Outcome → List Syscall
  | .read, .again => [.recv]
  | .read, .error => [.recv, .kevent (updateEvents true false true), .close]
  | .read, .closed => [.recv, .kevent (updateEvents true true true), .close]
  | .read, .data => [.recv]
  | .write, .again => [.send, .kevent (updateEvents false true true)]
  | .write, _ => [.send, .kevent (updateEvents true false true)]

/-- An event of a batch: its {lit}`udata` and its filter. -/
structure Event where
  udata : Nat
  filter : Filter
deriving DecidableEq

/-- A worker: the session it is at with the calls still to make, and the events that it has not
handled yet. -/
structure Worker where
  current : Option (Nat × List Syscall)
  activeEvs : List Event

/-- What a thread that has made a session has still to do: register it, and after that, if it
is a connector, set {lit}`procFd`. -/
inductive Pending where
  | register (session : Nat) (isPassive : Bool)
  | assign (session : Nat)
deriving DecidableEq

/-- The session that it has made. -/
def Pending.session : Pending → Nat
  | .register session _ => session
  | .assign session => session

/-- Sessions are numbered in the order of their creation, and connections by the session that
was made for them; a {lit}`kqueue` is named by the worker that waits on it.  A session has its
fields {lit}`fd` and {lit}`procFd`; the kernel has the connection that is open at a descriptor,
and for each {lit}`kqueue` the {lit}`udata` of the filters of a descriptor.  {lit}`pending` is
what the threads of listeners and connectors have still to do.  {lit}`made` has the system
calls that were made for each session, and {lit}`reached` the connections that they acted
on. -/
structure State where
  fds : Nat → Nat
  procFds : Nat → Nat
  created : Nat
  descriptors : Nat → Option Nat
  knotes : Nat → Nat → Filter → Option Nat
  pending : Nat → Option Pending
  workers : Nat → Worker
  made : List (Nat × Syscall)
  reached : List (Nat × Nat)

/-- What the application may call on a session: {lit}`async_send`, {lit}`send` and
{lit}`close`. -/
inductive Call where
  | asyncSend
  | send
  | close
deriving DecidableEq

/-- The system call of a call; an {lit}`async_send` that refuses makes none. -/
def Call.syscall : Call → Syscall
  | .asyncSend => .kevent (updateEvents false true true)
  | .send => .send
  | .close => .close

/-- A thread accepts a connection, or makes one, for which the kernel picks a descriptor, and
makes a session for it, whose {lit}`procFd` is {lit}`garbage` if the session is not passive; it
registers the session; it sets {lit}`procFd`; a worker waits for events, takes its next event,
or makes its next system call; or the application calls a session. -/
inductive Action where
  | accept (t fd : Nat) (isPassive : Bool) (garbage : Nat)
  | register (t applied : Nat)
  | assign (t : Nat)
  | kevent (w : Nat) (idents : List (Nat × Filter))
  | take (w : Nat) (outcome : Outcome)
  | syscall (w applied : Nat)
  | app (session applied : Nat) (call : Call)

/-- Before the first session. -/
def start : State where
  fds _ := 0
  procFds _ := 0
  created := 0
  descriptors _ := none
  knotes _ _ _ := none
  pending _ := none
  workers _ := ⟨none, []⟩
  made := []
  reached := []

/-- One change to the filters of a descriptor. -/
def Change.apply (udata : Nat) (notes : Filter → Option Nat) : Change → Filter → Option Nat
  | .add filter => Function.update notes filter (some udata)
  | .delete filter => Function.update notes filter none

namespace State

/-- The session's connection is open at its descriptor. -/
def Open (s : State) (session : Nat) : Prop :=
  s.descriptors (s.fds session) = some session

instance (s : State) (session : Nat) : Decidable (s.Open session) :=
  inferInstanceAs (Decidable (_ = _))

/-- A system call for a session, on what is open at its descriptor; it fails if nothing is.
A {lit}`kevent` is one for the given {lit}`kqueue`, and {lit}`applied` is how many changes it
makes. -/
def perform (s : State) (kq session applied : Nat) (call : Syscall) : State :=
  let made := s.made ++ [(session, call)]
  match s.descriptors (s.fds session) with
  | none => { s with made := made }
  | some connection =>
      let s' := { s with made := made, reached := s.reached ++ [(session, connection)] }
      match call with
      | .recv => s'
      | .send => s'
      | .kevent changes =>
          { s' with
            knotes := Function.update s.knotes kq
              (Function.update (s.knotes kq) (s.fds session)
                ((changes.take applied).foldl (Change.apply session)
                  (s.knotes kq (s.fds session)))) }
      | .close =>
          { s' with
            descriptors := Function.update s.descriptors (s.fds session) none
            knotes := fun kq => Function.update (s.knotes kq) (s.fds session) fun _ => none }

def setWorker (s : State) (w : Nat) (worker : Worker) : State :=
  { s with workers := Function.update s.workers w worker }

@[simp]
theorem setWorker_workers (s : State) (w : Nat) (worker : Worker) :
    (s.setWorker w worker).workers = Function.update s.workers w worker :=
  rfl

def setPending (s : State) (t : Nat) (pending : Option Pending) : State :=
  { s with pending := Function.update s.pending t pending }

/-- What a thread has to do after one of them has gone on. -/
theorem setPending_eq_some {s : State} {t t' : Nat} {next : Option Pending} {p : Pending}
    (h : (s.setPending t next).pending t' = some p) :
    (t' = t ∧ next = some p) ∨ (t' ≠ t ∧ s.pending t' = some p) := by
  have h : Function.update s.pending t next t' = some p := h
  rcases eq_or_ne t' t with rfl | hne
  · rw [Function.update_self] at h
    exact Or.inl ⟨rfl, h⟩
  · rw [Function.update_of_ne hne] at h
    exact Or.inr ⟨hne, h⟩

/-- {lit}`accept` and {lit}`factory->create`, or {lit}`connect` and {lit}`new`. -/
def create (s : State) (fd procFd : Nat) : State :=
  { s with
    fds := Function.update s.fds s.created fd
    procFds := Function.update s.procFds s.created procFd
    created := s.created + 1
    descriptors := Function.update s.descriptors fd (some s.created) }

@[simp]
theorem create_fds_self (s : State) (fd procFd : Nat) :
    (s.create fd procFd).fds s.created = fd :=
  Function.update_self ..

@[simp]
theorem create_procFds_self (s : State) (fd procFd : Nat) :
    (s.create fd procFd).procFds s.created = procFd :=
  Function.update_self ..

theorem create_fds_of_lt {s : State} {fd procFd x : Nat} (h : x < s.created) :
    (s.create fd procFd).fds x = s.fds x :=
  Function.update_of_ne h.ne _ _

/-- A new session leaves the {lit}`procFd` of the others. -/
theorem create_procFd {s : State} {fd procFd x threads : Nat} (h : x < s.created)
    (hx : s.procFds x = s.fds x % threads) :
    (s.create fd procFd).procFds x = (s.create fd procFd).fds x % threads := by
  rw [create_fds_of_lt h, ← hx]
  exact Function.update_of_ne h.ne _ _

/-- A new session is open. -/
theorem create_open (s : State) (fd procFd : Nat) : (s.create fd procFd).Open s.created := by
  rw [Open, create_fds_self]
  exact Function.update_self ..

/-- A new connection at a free descriptor leaves the others open. -/
theorem Open.create {s : State} {fd procFd x : Nat} (hx : s.Open x) (hlt : x < s.created)
    (hfree : s.descriptors fd = none) : (s.create fd procFd).Open x := by
  have hne : s.fds x ≠ fd := by
    rintro rfl
    rw [Open, hfree] at hx
    cases hx
  rw [Open, create_fds_of_lt hlt]
  exact (Function.update_of_ne hne _ _).trans hx

/-- The events that {lit}`kevent` reports for filters of the worker's {lit}`kqueue`. -/
def events (s : State) (w : Nat) (idents : List (Nat × Filter)) : List Event :=
  idents.filterMap fun p => (s.knotes w p.1 p.2).map fun session => ⟨session, p.2⟩

end State

/-- One step.  The worker of a descriptor is {lit}`fd % threads`. -/
def step (threads : Nat) (s : State) : Action → Option State
  | .accept t fd isPassive garbage =>
      if s.pending t = none ∧ s.descriptors fd = none then
        some ((s.create fd (if isPassive then fd % threads else garbage)).setPending t
          (some (.register s.created isPassive)))
      else none
  | .register t applied =>
      match s.pending t with
      | some (.register session isPassive) =>
          let next := if isPassive then none else some (.assign session)
          some ((s.setPending t next).perform (s.fds session % threads) session applied
            (.kevent (updateEvents true true false)))
      | _ => none
  | .assign t =>
      match s.pending t with
      | some (.assign session) =>
          some ({ s with
            procFds := Function.update s.procFds session
              (s.fds session % threads) }.setPending t none)
      | _ => none
  | .kevent w idents =>
      if (s.workers w).current = none ∧ (s.workers w).activeEvs = [] ∧ idents.Nodup then
        some (s.setWorker w ⟨none, s.events w idents⟩)
      else none
  | .take w outcome =>
      match (s.workers w).current, (s.workers w).activeEvs with
      | none, e :: rest =>
          some (s.setWorker w ⟨some (e.udata, handling e.filter outcome), rest⟩)
      | _, _ => none
  | .syscall w applied =>
      match (s.workers w).current with
      | some (session, call :: calls) =>
          let next := if calls = [] then none else some (session, calls)
          some ((s.setWorker w ⟨next, (s.workers w).activeEvs⟩).perform w session applied call)
      | _ => none
  | .app session applied call =>
      if session < s.created then
        some (s.perform (s.procFds session) session applied call.syscall)
      else none

/-! ## What holds between the steps -/

/-- The worker is at the session or has an event of it. -/
def Worker.Refers (worker : Worker) (session : Nat) : Prop :=
  (∃ calls, worker.current = some (session, calls)) ∨
    ∃ e ∈ worker.activeEvs, e.udata = session

/-- No event of the batch comes after a read event of its session. -/
def Orderly (events : List Event) : Prop :=
  events.Pairwise fun e e' => e.filter = .read → e'.udata ≠ e.udata

instance (events : List Event) : Decidable (Orderly events) :=
  inferInstanceAs (Decidable (events.Pairwise _))

/-- No thread is about to register the session. -/
def State.Registered (s : State) (session : Nat) : Prop :=
  ∀ t isPassive, s.pending t ≠ some (.register session isPassive)

/-- The session that a thread has something to do for. -/
def busy : Option Pending → Option Nat :=
  Option.map Pending.session

/-- The session is open, registered, and the worker's. -/
structure Owned (threads : Nat) (s : State) (w session : Nat) : Prop where
  isOpen : s.Open session
  worker : s.fds session % threads = w
  registered : s.Registered session

/-- What holds of a worker: a call of {lit}`close` is the last one of its event, and no event
of that session is left. -/
structure WorkerOk (threads : Nat) (s : State) (w : Nat) (worker : Worker) : Prop where
  owned : ∀ session, worker.Refers session → Owned threads s w session
  orderly : Orderly worker.activeEvs
  last : ∀ session calls, worker.current = some (session, calls) →
    .close ∉ calls.dropLast ∧
      (.close ∈ calls → ∀ e ∈ worker.activeEvs, e.udata ≠ session)

/-- The filters of a descriptor are those of the session whose connection is open there, in the
{lit}`kqueue` of its worker; {lit}`procFd` names that one once the session is set up; and every
call for a session has acted on its connection. -/
structure Inv (threads : Nat) (s : State) : Prop where
  knotes : ∀ kq fd filter session, s.knotes kq fd filter = some session →
    s.descriptors fd = some session ∧ fd % threads = kq
  descriptors : ∀ fd session, s.descriptors fd = some session →
    s.fds session = fd ∧ session < s.created
  unregistered : ∀ t session isPassive, s.pending t = some (.register session isPassive) →
    s.Open session ∧ ∀ kq filter, s.knotes kq (s.fds session) filter = none
  exclusive : Exclusive busy s.pending
  busy_lt : ∀ session, Held busy s.pending session → session < s.created
  procFd : ∀ session, session < s.created → ¬Held busy s.pending session →
    s.procFds session = s.fds session % threads
  passive : ∀ t session, s.pending t = some (.register session true) →
    s.procFds session = s.fds session % threads
  workers : ∀ w, WorkerOk threads s w (s.workers w)
  made : ∀ p ∈ s.made, p.1 < s.created
  unclosed : ∀ session, session < s.created → (session, .close) ∉ s.made → s.Open session
  reached : s.reached = s.made.map fun p => (p.1, p.1)

variable {threads : Nat}

theorem start_inv : Inv threads start where
  knotes _ _ _ _ h := by cases h
  descriptors _ _ h := by cases h
  unregistered _ _ _ h := by cases h
  exclusive := exclusive_const rfl
  busy_lt _ h := by
    rcases h with ⟨t, ht⟩
    cases ht
  procFd _ h := by cases h
  passive _ _ h := by cases h
  workers w := by
    refine ⟨?_, List.Pairwise.nil, ?_⟩
    · rintro session (⟨calls, h⟩ | ⟨e, he, -⟩)
      · cases h
      · cases he
    · intro session calls h
      cases h
  made _ h := by cases h
  unclosed _ h := by cases h
  reached := rfl

/-- Sessions with one descriptor are one if both are open. -/
theorem State.Open.eq_of_fds {s : State} {x y : Nat} (hx : s.Open x) (hy : s.Open y)
    (h : s.fds x = s.fds y) : x = y := by
  rw [State.Open, h, hy] at hx
  exact (Option.some.inj hx).symm

/-- What holds of a worker depends on the sessions that it refers to. -/
theorem WorkerOk.congr {s s' : State} {w : Nat} {worker : Worker}
    (h : WorkerOk threads s w worker)
    (howned : ∀ session, worker.Refers session → Owned threads s w session →
      Owned threads s' w session) : WorkerOk threads s' w worker :=
  ⟨fun session hrefers => howned session hrefers (h.owned session hrefers), h.orderly, h.last⟩

/-- The changes for a session leave no other session's filter. -/
theorem foldl_apply {session : Nat} (changes : List Change) {notes : Filter → Option Nat}
    (h : ∀ filter y, notes filter = some y → y = session) {filter : Filter} {y : Nat}
    (hy : changes.foldl (Change.apply session) notes filter = some y) : y = session := by
  induction changes generalizing notes with
  | nil => exact h filter y hy
  | cons change changes ih =>
      refine ih ?_ hy
      cases change with
      | add f =>
          refine (Function.forall_update_iff notes fun _ o => ∀ y, o = some y → y = session).mpr
            ⟨?_, fun f' _ => h f'⟩
          intro y hy
          exact (Option.some.inj hy).symm
      | delete f =>
          refine (Function.forall_update_iff notes fun _ o => ∀ y, o = some y → y = session).mpr
            ⟨?_, fun f' _ => h f'⟩
          intro y hy
          cases hy

namespace Inv

variable {s : State} {w session : Nat}

theorem reached_concat (h : Inv threads s) (session : Nat) (call : Syscall) :
    s.reached ++ [(session, session)] =
      (s.made ++ [(session, call)]).map fun p => (p.1, p.1) := by
  rw [List.map_append, h.reached]
  rfl

theorem made_concat (h : Inv threads s) (hopen : s.Open session) (call : Syscall) :
    ∀ p ∈ s.made ++ [(session, call)], p.1 < s.created :=
  List.forall_mem_append.mpr
    ⟨h.made, List.forall_mem_singleton.mpr (h.descriptors _ _ hopen).2⟩

/-- A session that is about to be registered has another descriptor than an open and
registered one. -/
theorem fds_ne_of_unregistered (h : Inv threads s) (hopen : s.Open session)
    (hregistered : s.Registered session) {t x : Nat} {isPassive : Bool}
    (ht : s.pending t = some (.register x isPassive)) : s.fds x ≠ s.fds session := by
  intro heq
  have hx := (h.unregistered t x isPassive ht).1
  exact hregistered t isPassive (hx.eq_of_fds hopen heq ▸ ht)

/-- A worker moves on. -/
theorem setWorker (h : Inv threads s) {worker : Worker} (hok : WorkerOk threads s w worker) :
    Inv threads (s.setWorker w worker) where
  knotes := h.knotes
  descriptors := h.descriptors
  unregistered := h.unregistered
  exclusive := h.exclusive
  busy_lt := h.busy_lt
  procFd := h.procFd
  passive := h.passive
  workers := (Function.forall_update_iff s.workers fun v worker =>
    WorkerOk threads (s.setWorker w _) v worker).mpr
      ⟨hok.congr fun _ _ ho => ⟨ho.isOpen, ho.worker, ho.registered⟩,
        fun v _ => (h.workers v).congr fun _ _ ho => ⟨ho.isOpen, ho.worker, ho.registered⟩⟩
  made := h.made
  unclosed := h.unclosed
  reached := h.reached

/-- A thread goes on with the session that it has made, or is done with it; then
{lit}`procFd` is set. -/
theorem setPending (h : Inv threads s) {t : Nat} {p : Pending} (ht : s.pending t = some p)
    {next : Option Pending}
    (hnext : next = some (.assign p.session) ∨
      next = none ∧ s.procFds p.session = s.fds p.session % threads) :
    Inv threads (s.setPending t next) := by
  have hbusy : busy (s.pending t) = some p.session := by rw [ht]; rfl
  have hless : ∀ x, busy next = some x → busy (s.pending t) = some x := by
    intro x hx
    rcases hnext with rfl | ⟨rfl, -⟩
    · exact hbusy.trans hx
    · cases hx
  have hregister : ∀ t' x isPassive,
      (s.setPending t next).pending t' = some (.register x isPassive) →
      s.pending t' = some (.register x isPassive) := by
    intro t' x isPassive hx
    rcases State.setPending_eq_some hx with ⟨-, hx⟩ | ⟨-, hold⟩
    · rcases hnext with rfl | ⟨rfl, -⟩ <;> cases hx
    · exact hold
  have hbefore : ∀ x, Held busy (s.setPending t next).pending x → Held busy s.pending x := by
    intro x hx
    rcases hx.of_update with hnew | ⟨t', -, ht'⟩
    · exact ⟨t, hless x hnew⟩
    · exact ⟨t', ht'⟩
  refine ⟨h.knotes, h.descriptors, ?_, ?_, fun x hx => h.busy_lt x (hbefore x hx), ?_, ?_, ?_,
    h.made, h.unclosed, h.reached⟩
  · intro t' x isPassive hx
    exact h.unregistered t' x isPassive (hregister t' x isPassive hx)
  · exact h.exclusive.update fun x hx => Or.inl (hless x hx)
  · intro x hx hnot
    -- the thread is still at its session, or has set it up
    by_cases hheld : Held busy s.pending x
    · rcases hnext with rfl | ⟨rfl, hset⟩
      · refine absurd (hheld.update ?_) hnot
        rw [hbusy]
        exact id
      · have hx : x = p.session := by
          by_contra hne
          refine hnot (hheld.update fun hx => ?_)
          exact absurd (Option.some.inj (hbusy.symm.trans hx)).symm hne
        rw [hx]
        exact hset
    · exact h.procFd x hx hheld
  · intro t' x hx
    exact h.passive t' x (hregister t' x true hx)
  · intro v
    refine (h.workers v).congr fun x _ ho => ⟨ho.isOpen, ho.worker, ?_⟩
    intro t' isPassive hx
    exact ho.registered t' isPassive (hregister t' x isPassive hx)

/-- A connector sets {lit}`procFd`. -/
theorem assign (h : Inv threads s) (session : Nat) :
    Inv threads { s with
      procFds := Function.update s.procFds session (s.fds session % threads) } := by
  have hset : ∀ x, s.procFds x = s.fds x % threads →
      Function.update s.procFds session (s.fds session % threads) x = s.fds x % threads := by
    intro x hx
    rcases eq_or_ne x session with rfl | hne
    · exact Function.update_self ..
    · exact (Function.update_of_ne hne ..).trans hx
  exact ⟨h.knotes, h.descriptors, h.unregistered, h.exclusive, h.busy_lt,
    fun x hx hnot => hset x (h.procFd x hx hnot), fun t x hx => hset x (h.passive t x hx),
    fun v => (h.workers v).congr fun _ _ ho => ⟨ho.isOpen, ho.worker, ho.registered⟩,
    h.made, h.unclosed, h.reached⟩

/-- The filters of an open and registered session change, in the {lit}`kqueue` of its
worker. -/
theorem setNotes (h : Inv threads s) (hopen : s.Open session)
    (hregistered : s.Registered session) (call : Syscall) {kq : Nat}
    (hkq : s.fds session % threads = kq) {notes : Filter → Option Nat}
    (hnotes : ∀ filter y, notes filter = some y → y = session) :
    Inv threads { s with
      made := s.made ++ [(session, call)]
      reached := s.reached ++ [(session, session)]
      knotes := Function.update s.knotes kq
        (Function.update (s.knotes kq) (s.fds session) notes) } where
  knotes := by
    refine (Function.forall_update_iff s.knotes fun kq notes => ∀ fd filter y,
      notes fd filter = some y → s.descriptors fd = some y ∧ fd % threads = kq).mpr
        ⟨?_, fun kq' _ => h.knotes kq'⟩
    refine (Function.forall_update_iff (s.knotes kq) fun fd notes => ∀ filter y,
      notes filter = some y → s.descriptors fd = some y ∧ fd % threads = kq).mpr
        ⟨?_, fun fd _ => h.knotes kq fd⟩
    intro filter y hy
    rw [hnotes filter y hy]
    exact ⟨hopen, hkq⟩
  descriptors := h.descriptors
  unregistered t x isPassive ht := by
    rcases h.unregistered t x isPassive ht with ⟨hx, hnone⟩
    have hne := h.fds_ne_of_unregistered hopen hregistered ht
    refine ⟨hx, ?_⟩
    refine (Function.forall_update_iff s.knotes fun _ notes => ∀ filter,
      notes (s.fds x) filter = none).mpr ⟨fun filter => ?_, fun kq' _ => hnone kq'⟩
    rw [Function.update_of_ne hne]
    exact hnone kq filter
  exclusive := h.exclusive
  busy_lt := h.busy_lt
  procFd := h.procFd
  passive := h.passive
  workers v := (h.workers v).congr fun _ _ ho => ⟨ho.isOpen, ho.worker, ho.registered⟩
  made := h.made_concat hopen call
  unclosed x hx hnot := h.unclosed x hx fun hmem => hnot (List.mem_append_left _ hmem)
  reached := h.reached_concat session call

/-- The descriptor of an open and registered session that no worker refers to is closed. -/
theorem close (h : Inv threads s) (hopen : s.Open session)
    (hregistered : s.Registered session) (hidle : ∀ v, ¬(s.workers v).Refers session) :
    Inv threads { s with
      made := s.made ++ [(session, .close)]
      reached := s.reached ++ [(session, session)]
      descriptors := Function.update s.descriptors (s.fds session) none
      knotes := fun kq => Function.update (s.knotes kq) (s.fds session) fun _ => none } where
  knotes kq fd filter y hy := by
    by_cases hfd : fd = s.fds session
    · subst hfd
      simp at hy
    · have hy' : s.knotes kq fd filter = some y := by
        simpa [Function.update_of_ne hfd] using hy
      rcases h.knotes kq fd filter y hy' with ⟨hdescriptor, hkq⟩
      exact ⟨(Function.update_of_ne hfd _ _).trans hdescriptor, hkq⟩
  descriptors := (Function.forall_update_iff s.descriptors fun fd o =>
    ∀ y, o = some y → s.fds y = fd ∧ y < s.created).mpr
      ⟨fun y hy => (by cases hy), fun fd _ => h.descriptors fd⟩
  unregistered t x isPassive ht := by
    rcases h.unregistered t x isPassive ht with ⟨hx, hnone⟩
    have hne := h.fds_ne_of_unregistered hopen hregistered ht
    refine ⟨(Function.update_of_ne hne _ _).trans hx, fun kq filter => ?_⟩
    exact (congrFun (Function.update_of_ne hne _ (s.knotes kq)) filter).trans (hnone kq filter)
  exclusive := h.exclusive
  busy_lt := h.busy_lt
  procFd := h.procFd
  passive := h.passive
  workers v := by
    refine (h.workers v).congr fun x hrefers ho => ⟨?_, ho.worker, ho.registered⟩
    have hne : s.fds x ≠ s.fds session := by
      intro heq
      exact hidle v (ho.isOpen.eq_of_fds hopen heq ▸ hrefers)
    exact (Function.update_of_ne hne _ _).trans ho.isOpen
  made := h.made_concat hopen .close
  unclosed x hx hnot := by
    have hx' := h.unclosed x hx fun hmem => hnot (List.mem_append_left _ hmem)
    have hne : s.fds x ≠ s.fds session := by
      intro heq
      exact hnot (hx'.eq_of_fds hopen heq ▸ List.mem_append_right _ List.mem_cons_self)
    exact (Function.update_of_ne hne _ _).trans hx'
  reached := h.reached_concat session .close

/-- A system call for an open and registered session, with its worker's {lit}`kqueue`.  Before
a {lit}`close` no worker may refer to it any more. -/
theorem perform (h : Inv threads s) (hopen : s.Open session)
    (hregistered : s.Registered session) {kq : Nat} (hkq : s.fds session % threads = kq)
    (applied : Nat) {call : Syscall}
    (hidle : call = .close → ∀ v, ¬(s.workers v).Refers session) :
    Inv threads (s.perform kq session applied call) := by
  have hown : ∀ filter y, s.knotes kq (s.fds session) filter = some y → y = session := by
    intro filter y hy
    have hy' := (h.knotes _ _ _ _ hy).1
    rw [State.Open] at hopen
    rw [hopen] at hy'
    exact (Option.some.inj hy').symm
  have hsame := h.setNotes hopen hregistered call hkq hown
  rw [Function.update_eq_self, Function.update_eq_self] at hsame
  unfold State.perform
  rw [show s.descriptors (s.fds session) = some session from hopen]
  cases call with
  | recv => exact hsame
  | send => exact hsame
  | kevent changes =>
      exact h.setNotes hopen hregistered (.kevent changes) hkq fun _ _ => foldl_apply _ hown
  | close => exact h.close hopen hregistered (hidle rfl)

/-- A free descriptor has no filters. -/
theorem knotes_eq_none (h : Inv threads s) {fd : Nat} (hfree : s.descriptors fd = none)
    (kq : Nat) (filter : Filter) : s.knotes kq fd filter = none := by
  cases hnote : s.knotes kq fd filter with
  | none => rfl
  | some y =>
      have hy := (h.knotes kq fd filter y hnote).1
      rw [hfree] at hy
      cases hy

/-- A new connection at a free descriptor.  A listener has set {lit}`procFd`. -/
theorem accept (h : Inv threads s) {t fd procFd : Nat} {isPassive : Bool}
    (hidle : s.pending t = none) (hfree : s.descriptors fd = none)
    (hset : isPassive = true → procFd = fd % threads) :
    Inv threads ((s.create fd procFd).setPending t
      (some (.register s.created isPassive))) := by
  have hlt : ∀ {x}, s.Open x → x < s.created := fun hx => (h.descriptors _ _ hx).2
  have hstays : ∀ {x}, s.Open x → (s.create fd procFd).Open x :=
    fun hx => hx.create (hlt hx) hfree
  -- a thread that is about to register a session has the new one or had it before
  have hregister : ∀ t' x p, ((s.create fd procFd).setPending t
      (some (.register s.created isPassive))).pending t' = some (.register x p) →
      (x = s.created ∧ p = isPassive) ∨ s.pending t' = some (.register x p) := by
    intro t' x p hx
    rcases State.setPending_eq_some hx with ⟨-, hx⟩ | ⟨-, hold⟩
    · cases hx
      exact Or.inl ⟨rfl, rfl⟩
    · exact Or.inr hold
  refine ⟨?_, ?_, ?_, ?_, ?_, ?_, ?_, ?_, fun p hp => Nat.lt_succ_of_lt (h.made p hp), ?_,
    h.reached⟩
  · intro kq fd' filter y hy
    rcases h.knotes kq fd' filter y hy with ⟨hy', hkq⟩
    refine ⟨(Function.update_of_ne ?_ _ _).trans hy', hkq⟩
    rintro rfl
    rw [hfree] at hy'
    cases hy'
  · refine (Function.forall_update_iff s.descriptors fun fd' o => ∀ y, o = some y →
      (s.create fd procFd).fds y = fd' ∧ y < s.created + 1).mpr ⟨?_, ?_⟩
    · intro y hy
      obtain rfl : s.created = y := Option.some.inj hy
      exact ⟨State.create_fds_self .., Nat.lt_succ_self _⟩
    · intro fd' _ y hy
      rcases h.descriptors fd' y hy with ⟨hfd, hy'⟩
      exact ⟨(State.create_fds_of_lt hy').trans hfd, Nat.lt_succ_of_lt hy'⟩
  · intro t' x p hx
    rcases hregister t' x p hx with ⟨rfl, -⟩ | hold
    · refine ⟨s.create_open fd procFd, fun kq filter => ?_⟩
      show s.knotes kq ((s.create fd procFd).fds s.created) filter = none
      rw [State.create_fds_self]
      exact h.knotes_eq_none hfree kq filter
    · rcases h.unregistered t' x p hold with ⟨hopen, hnone⟩
      refine ⟨hstays hopen, fun kq filter => ?_⟩
      show s.knotes kq ((s.create fd procFd).fds x) filter = none
      rw [State.create_fds_of_lt (hlt hopen)]
      exact hnone kq filter
  · apply h.exclusive.update
    intro x hx
    obtain rfl : s.created = x := Option.some.inj hx
    exact Or.inr fun hheld => absurd (h.busy_lt _ hheld) (lt_irrefl _)
  · intro x hx
    rcases hx.of_update with hnew | ⟨t', -, ht'⟩
    · obtain rfl : s.created = x := Option.some.inj hnew
      exact Nat.lt_succ_self _
    · exact Nat.lt_succ_of_lt (h.busy_lt x ⟨t', ht'⟩)
  · intro x hx hnot
    rcases Nat.lt_succ_iff_lt_or_eq.mp hx with hold | rfl
    · refine State.create_procFd hold (h.procFd x hold fun hheld => hnot (hheld.update ?_))
      rw [hidle]
      intro hx'
      cases hx'
    · have hbusy : busy (some (.register s.created isPassive)) = some s.created := rfl
      exact absurd (held_update_self s.pending t hbusy) hnot
  · intro t' x hx
    rcases hregister t' x true hx with ⟨rfl, hp⟩ | hold
    · show (s.create fd procFd).procFds s.created = (s.create fd procFd).fds s.created % threads
      rw [State.create_fds_self, State.create_procFds_self]
      exact hset hp.symm
    · exact State.create_procFd (hlt (h.unregistered t' x true hold).1) (h.passive t' x hold)
  · intro v
    refine (h.workers v).congr fun x _ ho => ⟨hstays ho.isOpen, ?_, ?_⟩
    · show (s.create fd procFd).fds x % threads = v
      rw [State.create_fds_of_lt (hlt ho.isOpen)]
      exact ho.worker
    · intro t' p hx
      rcases hregister t' x p hx with ⟨rfl, -⟩ | hold
      · exact absurd (hlt ho.isOpen) (lt_irrefl _)
      · exact ho.registered t' p hold
  · intro x hx hnot
    rcases Nat.lt_succ_iff_lt_or_eq.mp hx with hold | rfl
    · exact hstays (h.unclosed x hold hnot)
    · exact s.create_open fd procFd

end Inv

/-! ## Runs -/

/-- Which batches are reported and which calls the application makes: no event comes after a
read event of its session; a session is called after it was registered and its {lit}`procFd`
set, and before {lit}`close` was called for its descriptor; and the application closes it only
while no worker is at it or has an event of it. -/
def Disciplined (s : State) : Action → Prop
  | .kevent w idents => Orderly (s.events w idents)
  | .app session _ call =>
      ¬Held busy s.pending session ∧ (session, .close) ∉ s.made ∧
        (call = .close → ∀ v, ¬(s.workers v).Refers session)
  | _ => True

/-- The system calls for an event end with {lit}`close`, if at all, and then the event is a
read event. -/
theorem handling_spec (filter : Filter) (outcome : Outcome) :
    .close ∉ (handling filter outcome).dropLast ∧
      (.close ∈ handling filter outcome → filter = .read) := by
  cases filter <;> cases outcome <;> decide

/-- An event that {lit}`kevent` reports is that of an open and registered session. -/
theorem Inv.events_owned {s : State} (h : Inv threads s) {w : Nat}
    {idents : List (Nat × Filter)} {e : Event} (he : e ∈ s.events w idents) :
    Owned threads s w e.udata := by
  rcases List.mem_filterMap.mp he with ⟨⟨fd, filter⟩, -, hmap⟩
  rcases Option.map_eq_some_iff.mp hmap with ⟨session, hnote, rfl⟩
  rcases h.knotes w fd filter session hnote with ⟨hdescriptor, hkq⟩
  obtain rfl := (h.descriptors fd session hdescriptor).1
  refine ⟨hdescriptor, hkq, fun t isPassive ht => ?_⟩
  rw [(h.unregistered t session isPassive ht).2 w filter] at hnote
  cases hnote

/-- The event that a worker takes from its batch. -/
theorem WorkerOk.take {s : State} {w : Nat} {worker : Worker} {e : Event} {rest : List Event}
    (h : WorkerOk threads s w worker) (hevents : worker.activeEvs = e :: rest)
    (outcome : Outcome) :
    WorkerOk threads s w ⟨some (e.udata, handling e.filter outcome), rest⟩ := by
  have horderly := h.orderly
  rw [hevents] at horderly
  rcases List.pairwise_cons.mp horderly with ⟨hfirst, hrest⟩
  refine ⟨?_, hrest, ?_⟩
  · rintro session (⟨calls, hcurrent⟩ | ⟨e', he', rfl⟩)
    · cases hcurrent
      exact h.owned _ (.inr ⟨e, hevents ▸ List.mem_cons_self, rfl⟩)
    · exact h.owned _ (.inr ⟨e', hevents ▸ List.mem_cons_of_mem e he', rfl⟩)
  · intro session calls hcurrent
    cases hcurrent
    rcases handling_spec e.filter outcome with ⟨hlast, hread⟩
    exact ⟨hlast, fun hclose e' he' => hfirst e' he' (hread hclose)⟩

/-- A worker with one system call less to make. -/
theorem WorkerOk.next {s : State} {w session : Nat} {worker : Worker} {call : Syscall}
    {calls : List Syscall} (h : WorkerOk threads s w worker)
    (hcurrent : worker.current = some (session, call :: calls)) :
    WorkerOk threads s w
      ⟨if calls = [] then none else some (session, calls), worker.activeEvs⟩ := by
  refine ⟨?_, h.orderly, ?_⟩
  · rintro x (⟨calls', hx⟩ | hx)
    · have hx' : session = x := by
        have hx'' := hx
        split at hx''
        · cases hx''
        · cases hx''
          rfl
      subst hx'
      exact h.owned _ (.inl ⟨_, hcurrent⟩)
    · exact h.owned x (.inr hx)
  · intro x calls' hx
    rcases h.last session _ hcurrent with ⟨hlast, hevents⟩
    split at hx
    · cases hx
    · rename_i hne
      cases hx
      rw [List.dropLast_cons_of_ne_nil hne] at hlast
      exact ⟨fun hmem => hlast (List.mem_cons_of_mem call hmem),
        fun hmem => hevents (List.mem_cons_of_mem call hmem)⟩

/-- After the last call of an event that closes its session, no worker refers to it. -/
theorem Inv.not_refers_of_close {s : State} {w session : Nat} {calls : List Syscall}
    (h : Inv threads s) (hcurrent : (s.workers w).current = some (session, .close :: calls))
    (v : Nat) :
    ¬((s.setWorker w ⟨if calls = [] then none else some (session, calls),
      (s.workers w).activeEvs⟩).workers v).Refers session := by
  rcases (h.workers w).last session _ hcurrent with ⟨hlast, hevents⟩
  have hnil : calls = [] := by
    by_contra hne
    rw [List.dropLast_cons_of_ne_nil hne] at hlast
    exact hlast List.mem_cons_self
  subst hnil
  intro hrefers
  by_cases hv : v = w
  · subst hv
    rw [State.setWorker_workers, Function.update_self] at hrefers
    rcases hrefers with ⟨calls, hnone⟩ | ⟨e, he, hudata⟩
    · cases hnone
    · exact hevents List.mem_cons_self e he hudata
  · rw [State.setWorker_workers, Function.update_of_ne hv] at hrefers
    have howned := (h.workers w).owned session (.inl ⟨_, hcurrent⟩)
    exact hv (((h.workers v).owned session hrefers).worker.symm.trans howned.worker)

/-- Every disciplined step keeps the invariant. -/
theorem step_inv {s s' : State} {a : Action} (h : Inv threads s) (ha : Disciplined s a)
    (hstep : step threads s a = some s') : Inv threads s' := by
  cases a with
  | accept t fd isPassive garbage =>
      simp only [step, Option.ite_none_right_eq_some, Option.some.injEq] at hstep
      rcases hstep with ⟨⟨hidle, hfree⟩, rfl⟩
      exact h.accept hidle hfree fun hp => if_pos hp
  | register t applied =>
      rw [step] at hstep
      split at hstep
      · rename_i session isPassive ht
        cases hstep
        have hnext : Inv threads (s.setPending t
            (if isPassive then none else some (.assign session))) := by
          apply h.setPending ht
          cases isPassive with
          | false => exact Or.inl rfl
          | true => exact Or.inr ⟨rfl, h.passive t session ht⟩
        refine hnext.perform (h.unregistered t session isPassive ht).1 ?_ rfl applied ?_
        · -- no other thread has made the session
          intro t' p ht'
          rcases State.setPending_eq_some ht' with ⟨-, hnext⟩ | ⟨hne, hold⟩
          · split at hnext <;> cases hnext
          · exact hne (h.exclusive t' t session (by rw [hold]; rfl) (by rw [ht]; rfl))
        · intro hcall
          cases hcall
      · contradiction
  | assign t =>
      rw [step] at hstep
      split at hstep
      · rename_i session ht
        cases hstep
        exact (h.assign session).setPending ht
          (Or.inr ⟨rfl, Function.update_self ..⟩)
      · contradiction
  | kevent w idents =>
      simp only [step, Option.ite_none_right_eq_some, Option.some.injEq] at hstep
      rcases hstep with ⟨-, rfl⟩
      refine h.setWorker ⟨?_, ha, ?_⟩
      · rintro session (⟨calls, hcurrent⟩ | ⟨e, he, rfl⟩)
        · cases hcurrent
        · exact h.events_owned he
      · intro session calls hcurrent
        cases hcurrent
  | take w outcome =>
      rw [step] at hstep
      split at hstep
      · rename_i e rest hcurrent hevents
        cases hstep
        exact h.setWorker ((h.workers w).take hevents outcome)
      · cases hstep
  | syscall w applied =>
      rw [step] at hstep
      split at hstep
      · rename_i session call calls hcurrent
        cases hstep
        have howned := (h.workers w).owned session (.inl ⟨_, hcurrent⟩)
        refine (h.setWorker ((h.workers w).next hcurrent)).perform howned.isOpen
          howned.registered howned.worker applied ?_
        rintro rfl v
        exact h.not_refers_of_close hcurrent v
      · cases hstep
  | app session applied call =>
      simp only [step, Option.ite_none_right_eq_some, Option.some.injEq] at hstep
      rcases hstep with ⟨hlt, rfl⟩
      rcases ha with ⟨hready, hunclosed, hclose⟩
      have hopen := h.unclosed session hlt hunclosed
      have hregistered : s.Registered session :=
        fun t isPassive ht => hready ⟨t, by rw [ht]; rfl⟩
      refine h.perform hopen hregistered (h.procFd session hlt hready).symm applied
        fun hcall => hclose ?_
      cases call <;> simp [Call.syscall] at hcall ⊢

/-- If no batch has an event of a session after a read event of it, and the application calls
no session before it was registered and its {lit}`procFd` set or after it was closed and closes
none that a worker is at or has an event of, then every system call that any thread makes for
a session acts on that session's own connection, however descriptors are used again. -/
theorem sessions_isolated {acts : List Action}
    (hok : EachStep (step threads) Disciplined start acts) :
    Always (step threads)
      (fun s => (∀ p ∈ s.reached, p.1 = p.2) ∧
        s.reached = s.made.map fun p => (p.1, p.1)) start acts := by
  refine always_of_eachStep (fun _ _ _ h ha hstep => step_inv h ha hstep) ?_ start_inv hok
  intro s h
  refine ⟨?_, h.reached⟩
  rw [h.reached]
  intro p hp
  rcases List.mem_map.mp hp with ⟨q, -, rfl⟩
  rfl

/-- The listener accepts a connection at descriptor 5 and registers it. -/
def accepts : List Action :=
  [.accept 0 5 true 0, .register 0 2]

/-- The connector makes a connection at descriptor 5, registers it and sets
{lit}`procFd`. -/
def connects : List Action :=
  [.accept 1 5 false 9, .register 1 2, .assign 1]

/-- The worker takes a batch from {lit}`kevent`, handles a read event of descriptor 5 whose
peer has closed the connection, and closes the descriptor. -/
def closes (idents : List (Nat × Filter)) : List Action :=
  [.kevent 0 idents, .take 0 .closed, .syscall 0 2, .syscall 0 2, .syscall 0 2]

/-- A check of the discipline for steps other than those of the application. -/
def checkDisciplined (s : State) : Action → Bool
  | .kevent w idents => decide (Orderly (s.events w idents))
  | .app _ _ _ => false
  | _ => true

theorem disciplined_of_check (s : State) (a : Action) (h : checkDisciplined s a = true) :
    Disciplined s a := by
  cases a with
  | kevent w idents =>
      have horderly : Orderly (s.events w idents) := of_decide_eq_true h
      exact horderly
  | app session applied call => cases h
  | accept t fd isPassive garbage => trivial
  | register t applied => trivial
  | assign t => trivial
  | take w outcome => trivial
  | syscall w applied => trivial

/-- Descriptor 5 is used for one connection after the other. -/
theorem sessions_isolated_one_after_another :
    ∃ s, run (step 1) start (accepts ++ closes [(5, .read)] ++ connects ++ closes [(5, .read)]) =
        some s ∧
      s.reached = List.replicate 4 (0, 0) ++ List.replicate 4 (1, 1) ∧
      (∀ p ∈ s.reached, p.1 = p.2) ∧ s.reached = s.made.map fun p => (p.1, p.1) := by
  have hrun : (run (step 1) start (accepts ++ closes [(5, .read)] ++ connects ++
      closes [(5, .read)])).map (·.reached) =
        some (List.replicate 4 (0, 0) ++ List.replicate 4 (1, 1)) := by
    decide
  rcases Option.map_eq_some_iff.mp hrun with ⟨s, hs, hreached⟩
  refine ⟨s, hs, hreached, ?_⟩
  exact sessions_isolated (eachStep_of_checkSteps disciplined_of_check (by decide)) _ s
    (List.prefix_refl _) hs

/-- Both filters of a session are in one batch, and its peer has closed the connection.  The
worker closes the descriptor, the listener accepts another connection there, and the worker
handles the write event: it sends on the new connection, and makes its own session the
{lit}`udata` of the filter by which the new connection is read. -/
example :
    (run (step 1) start (accepts ++ closes [(5, .read), (5, .write)] ++ accepts ++
      [.take 0 .data, .syscall 0 2, .syscall 0 2])).map
        (fun s => (s.reached.drop 5, s.fds 1, s.knotes 0 5 .read)) =
      some ([(0, 1), (0, 1)], 5, some 0) := by
  decide

end Reuse
end Kqueue
end TinyNet
