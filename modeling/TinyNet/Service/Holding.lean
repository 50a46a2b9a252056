import TinyNet.Library.Ownership
import TinyNet.Service.Descriptors

/-!
# Who is to close a descriptor

A connector and its session hold the same descriptor, and every listener closes the one
epoll descriptor that they share.  {lit}`State.holds` says who is to close a descriptor as
long as nobody has.  This file states the invariant of the service in these terms, and
what closing and handing out a descriptor do to it.

Main results:

- Theorem {lit}`Inv.setPc`: the invariant survives a move of the program counter that
  opens nothing.
- Theorem {lit}`Inv.close`: a holder may close what it holds if it gives it up.
- Theorem {lit}`Inv.handOut`: a place may receive a descriptor from the kernel.
-/

namespace TinyNet
namespace Service
namespace Descriptors

open Library.DescriptorTable
open Library.Ownership

/-! ## Who holds a descriptor -/

/-- The owners of descriptors that are closed at some time.  A session that a connector
made shares the connector's. -/
inductive Place where
  | epoll
  | listener (i : Nat)
  | connector (j : Nat)
  | session (k : Nat)
deriving DecidableEq

namespace Pc

/-- The thread of listener {lit}`i` has not been started yet. -/
def beforeThread (i : Nat) : Pc → Bool
  | .epollCreate | .procCreate _ => true
  | .lisSocket i' | .lisBind i' | .lisListen i' | .lisThread i' => i' ≤ i
  | _ => false

/-- Connector {lit}`j` has not been started yet. -/
def beforeSocket (j : Nat) : Pc → Bool
  | .epollCreate | .procCreate _ => true
  | .lisSocket _ | .lisBind _ | .lisListen _ | .lisThread _ => true
  | .connSocket j' => j' ≤ j
  | .connConnect j' => j' < j
  | _ => false

/-- Listener {lit}`i` has its socket, and its thread is still to be started. -/
def starting (i : Nat) : Pc → Bool
  | .lisBind i' | .lisListen i' | .lisThread i' => i' = i
  | _ => false

/-- Some {lit}`Listener::stop` has closed its socket, or none will any more. -/
def lisClosed : Pc → Bool
  | .stopLis i => 0 < i
  | .stopEpoll _ | .stopJoin _ | .stopConn _ | .stopped => true
  | _ => false

/-- Some {lit}`Listener::stop` has closed the epoll descriptor, or none will any more. -/
def epollClosed : Pc → Bool
  | .stopLis i | .stopEpoll i => 0 < i
  | .stopJoin _ | .stopConn _ | .stopped => true
  | _ => false

/-- {lit}`stop` is past connector {lit}`j`. -/
def connStopped (j : Nat) : Pc → Bool
  | .stopConn j' => j < j'
  | .stopped => true
  | _ => false

end Pc

/-- The descriptor that a place is to close. -/
def State.holds (s : State) : Place → List Int
  | .epoll =>
      if s.pc ≠ .epollCreate ∧ s.scheder.epollFd ≠ -1 ∧ s.pc.epollClosed = false then
        [s.scheder.epollFd]
      else []
  | .listener i =>
      if ((s.listeners i).thread ≠ .unstarted ∨ s.pc.starting i = true) ∧
          s.pc.lisClosed = false then
        [(s.listeners i).lisFd]
      else []
  | .connector j =>
      if (s.connectors j).started = true ∧ (s.connectors j).stopped = false ∧
          (s.connectors j).fd ≠ -1 ∧ s.sessionClosed j = false then
        [(s.connectors j).fd]
      else []
  | .session k =>
      if k < s.created ∧ (s.sessions k).connector = none ∧ (s.sessions k).closed = false then
        [(s.sessions k).fd]
      else []

/-! ## How the program counter moves -/

/-- The move from one program point to another opens nothing and forgets nothing. -/
structure Pc.Later (pc pc' : Pc) : Prop where
  created : pc ≠ .epollCreate
  beforeThread : ∀ i, pc'.beforeThread i = true → pc.beforeThread i = true
  beforeSocket : ∀ j, pc'.beforeSocket j = true → pc.beforeSocket j = true
  starting : ∀ i, pc'.starting i = true → pc.starting i = true
  connecting : ∀ j, pc' = .connConnect j → pc = .connConnect j
  lisClosed : pc'.lisClosed = false → pc.lisClosed = false
  epollClosed : pc'.epollClosed = false → pc.epollClosed = false
  connStopped : ∀ j, pc.connStopped j = true → pc'.connStopped j = true

theorem Pc.later_nextConnect (cfg : Config) {pc : Pc} {j : Nat} (hcreated : pc ≠ .epollCreate)
    (hsocket : ∀ j', j ≤ j' → pc.beforeSocket j' = true) (hlis : pc.lisClosed = false)
    (hepoll : pc.epollClosed = false) (hconn : ∀ j', pc.connStopped j' = false) :
    Later pc (cfg.nextConnect j) := by
  unfold Config.nextConnect
  split_ifs with hj
  · constructor <;> simp_all [Pc.beforeThread, Pc.beforeSocket, Pc.starting]
  · constructor <;> simp_all [Pc.beforeThread, Pc.beforeSocket, Pc.starting]

theorem Pc.later_nextListen (cfg : Config) {pc : Pc} {i : Nat} (hcreated : pc ≠ .epollCreate)
    (hthread : ∀ i', i ≤ i' → pc.beforeThread i' = true)
    (hsocket : ∀ j, pc.beforeSocket j = true) (hlis : pc.lisClosed = false)
    (hepoll : pc.epollClosed = false) (hconn : ∀ j', pc.connStopped j' = false) :
    Later pc (cfg.nextListen i) := by
  unfold Config.nextListen
  split_ifs with hi
  · constructor <;> simp_all [Pc.beforeThread, Pc.beforeSocket, Pc.starting]
  · exact later_nextConnect cfg hcreated (fun j _ => hsocket j) hlis hepoll hconn

theorem Pc.later_nextStopConn (cfg : Config) {pc : Pc} {j : Nat} (hcreated : pc ≠ .epollCreate)
    (hconn : ∀ j', pc.connStopped j' = true → j' < j) :
    Later pc (cfg.nextStopConn j) := by
  unfold Config.nextStopConn
  split_ifs with hj
  · constructor <;> simp_all [Pc.beforeThread, Pc.beforeSocket, Pc.starting, Pc.lisClosed,
      Pc.epollClosed, Pc.connStopped]
  · constructor <;> simp_all [Pc.beforeThread, Pc.beforeSocket, Pc.starting, Pc.lisClosed,
      Pc.epollClosed, Pc.connStopped]

theorem Pc.later_nextStop (cfg : Config) {pc : Pc} {i : Nat} (hcreated : pc ≠ .epollCreate)
    (hlis : i = 0 → pc.lisClosed = false) (hepoll : i = 0 → pc.epollClosed = false)
    (hconn : ∀ j', pc.connStopped j' = false) : Later pc (cfg.nextStop i) := by
  unfold Config.nextStop
  split_ifs with hi
  · constructor <;> simp_all [Pc.beforeThread, Pc.beforeSocket, Pc.starting, Pc.lisClosed,
      Pc.epollClosed]
  · exact later_nextStopConn cfg hcreated (by simp [hconn])

/-! ## Closing changes what is registered, and nothing else about the objects -/

/-- A connector's session counts as open exactly if the session it refers to does. -/
theorem sessionClosed_eq_false_iff {s : State} {j : Nat} :
    s.sessionClosed j = false ↔
      ∀ k, (s.connectors j).session = some k → (s.sessions k).closed = false := by
  unfold State.sessionClosed
  cases (s.connectors j).session with
  | none => simp
  | some k => simp

/-- What a connector's session counts as is a matter of that session alone. -/
theorem sessionClosed_congr {s s' : State} {j : Nat}
    (hconn : (s'.connectors j).session = (s.connectors j).session)
    (hclosed : ∀ k, (s.connectors j).session = some k →
      (s'.sessions k).closed = (s.sessions k).closed) :
    s'.sessionClosed j = s.sessionClosed j := by
  unfold State.sessionClosed
  rw [hconn]
  cases hsession : (s.connectors j).session with
  | none => rfl
  | some k => exact hclosed k hsession

section Close

variable (s : State) (fd : Int) (k : Nat)

@[simp]
theorem epollDel_fd : ((s.epollDel fd).sessions k).fd = (s.sessions k).fd := by
  unfold State.epollDel
  dsimp only
  split <;> rfl

@[simp]
theorem epollDel_connector :
    ((s.epollDel fd).sessions k).connector = (s.sessions k).connector := by
  unfold State.epollDel
  dsimp only
  split <;> rfl

@[simp]
theorem epollDel_closed : ((s.epollDel fd).sessions k).closed = (s.sessions k).closed := by
  unfold State.epollDel
  dsimp only
  split <;> rfl

@[simp]
theorem epollDel_pending : ((s.epollDel fd).sessions k).pending = (s.sessions k).pending := by
  unfold State.epollDel
  dsimp only
  split <;> rfl

/-- What is out of the epoll set stays out. -/
theorem epollDel_registered (h : (s.sessions k).registered = false) :
    ((s.epollDel fd).sessions k).registered = false := by
  unfold State.epollDel
  dsimp only
  split
  · rfl
  · exact h

@[simp]
theorem sessionClosed_epollDel (j : Nat) :
    (s.epollDel fd).sessionClosed j = s.sessionClosed j :=
  sessionClosed_congr rfl fun k _ => epollDel_closed s fd k

theorem holds_epollDel : (s.epollDel fd).holds = s.holds := by
  funext p
  cases p with
  | epoll => rfl
  | listener i => rfl
  | connector j =>
      simp only [State.holds, sessionClosed_epollDel]
      rfl
  | session k =>
      simp only [State.holds, epollDel_fd, epollDel_connector, epollDel_closed]
      rfl

theorem holds_close : (s.close fd).holds = s.holds :=
  holds_epollDel s fd

end Close

/-! ## The invariant -/

/-- How the objects of the service go together. -/
structure Links (s : State) : Prop where
  unstarted : ∀ i, s.pc.beforeThread i = true → (s.listeners i).thread = .unstarted
  unconnected : ∀ j, s.pc.beforeSocket j = true →
    (s.connectors j).started = false ∧ (s.connectors j).session = none
  connecting : ∀ j, s.pc = .connConnect j →
    (s.connectors j).started = true ∧ (s.connectors j).fd ≠ -1 ∧
      (s.connectors j).session = none
  stopped : ∀ j, (s.connectors j).stopped = true → s.pc.connStopped j = true
  session_lt : ∀ j k, (s.connectors j).session = some k → k < s.created
  session : ∀ k j, k < s.created → (s.sessions k).connector = some j →
    (s.connectors j).started = true ∧ (s.connectors j).fd ≠ -1 ∧
      (s.connectors j).session = some k ∧ (s.sessions k).fd = (s.connectors j).fd
  closed : ∀ k, (s.sessions k).closed = true →
    (s.sessions k).pending = false ∧ (s.sessions k).registered = false

/-- What holds along a run of steps that meet the condition: no descriptor was closed
twice, and every open one has at most one holder. -/
structure Inv (s : State) : Prop where
  table : s.kernel.Once
  separated : Separated s.holds s.kernel.Held
  links : Links s

theorem start_inv (others : Int → Bool) (garbage : Nat → Int) :
    Inv (start others garbage) := by
  have hholds : ∀ p, (start others garbage).holds p = [] := by
    intro p
    cases p <;> simp [start, State.holds, Pc.starting]
  refine ⟨Table.once_create others, ⟨?_, ?_, ?_⟩, ?_⟩
  · intro p
    rw [hholds]
    exact List.nodup_nil
  · intro p q o hp
    rw [hholds] at hp
    contradiction
  · intro p o hp
    rw [hholds] at hp
    contradiction
  · constructor <;> simp [start]

theorem sublist_ite {c c' : Prop} [Decidable c] [Decidable c'] (h : c' → c) (l : List Int) :
    (if c' then l else []).Sublist (if c then l else []) := by
  split_ifs with hc' hc
  · exact List.Sublist.refl l
  · exact absurd (h hc') hc
  · exact List.nil_sublist _
  · exact List.Sublist.refl []

/-- Holders lose what they hold, and gain nothing, as the program counter moves on. -/
theorem holds_setPc_sublist {s : State} {pc : Pc} (h : s.pc.Later pc) (p : Place) :
    ((s.setPc pc).holds p).Sublist (s.holds p) := by
  cases p with
  | epoll => exact sublist_ite (fun hc => ⟨h.created, hc.2.1, h.epollClosed hc.2.2⟩) _
  | listener i =>
      exact sublist_ite (fun hc => ⟨hc.1.imp_right (h.starting i), h.lisClosed hc.2⟩) _
  | connector j => exact List.Sublist.refl _
  | session k => exact List.Sublist.refl _

theorem Links.setPc {s : State} {pc : Pc} (h : Links s) (hlater : s.pc.Later pc) :
    Links (s.setPc pc) where
  unstarted i hi := h.unstarted i (hlater.beforeThread i hi)
  unconnected j hj := h.unconnected j (hlater.beforeSocket j hj)
  connecting j hj := h.connecting j (hlater.connecting j hj)
  stopped j hj := hlater.connStopped j (h.stopped j hj)
  session_lt := h.session_lt
  session := h.session
  closed := h.closed

/-- A step that leaves the table alone and makes no place hold more. -/
theorem Inv.mono {s s' : State} (h : Inv s) (hkernel : s'.kernel = s.kernel)
    (hsub : ∀ p, (s'.holds p).Sublist (s.holds p)) (hlinks : Links s') : Inv s' := by
  refine ⟨?_, ?_, hlinks⟩
  · rw [hkernel]
    exact h.table
  · rw [hkernel]
    exact h.separated.mono hsub fun _ _ _ hused => hused

theorem Inv.setPc {s : State} {pc : Pc} (h : Inv s) (hlater : s.pc.Later pc) :
    Inv (s.setPc pc) :=
  h.mono rfl (holds_setPc_sublist hlater) (h.links.setPc hlater)

theorem Links.epollDel {s : State} (h : Links s) (fd : Int) : Links (s.epollDel fd) where
  unstarted := h.unstarted
  unconnected := h.unconnected
  connecting := h.connecting
  stopped := h.stopped
  session_lt := h.session_lt
  session k j hk hconn := by
    rw [epollDel_connector] at hconn
    rw [epollDel_fd]
    exact h.session k j hk hconn
  closed k hk := by
    rw [epollDel_closed] at hk
    rw [epollDel_pending]
    exact ⟨(h.closed k hk).1, epollDel_registered s fd k (h.closed k hk).2⟩

/-- The links do not depend on the kernel and the scheduler. -/
theorem Links.congr {s s' : State} (h : Links s) (hpc : s'.pc = s.pc)
    (hlis : s'.listeners = s.listeners) (hconn : s'.connectors = s.connectors)
    (hsessions : s'.sessions = s.sessions) (hcreated : s'.created = s.created) : Links s' := by
  constructor
  · rw [hpc, hlis]
    exact h.unstarted
  · rw [hpc, hconn]
    exact h.unconnected
  · rw [hpc, hconn]
    exact h.connecting
  · rw [hpc, hconn]
    exact h.stopped
  · rw [hconn, hcreated]
    exact h.session_lt
  · rw [hconn, hsessions, hcreated]
    exact h.session
  · rw [hsessions]
    exact h.closed

theorem Links.close {s : State} (h : Links s) (fd : Int) : Links (s.close fd) :=
  (h.epollDel fd).congr rfl rfl rfl rfl rfl

/-- A holder gives its descriptor up and closes it. -/
theorem Inv.close {s s₁ : State} (h : Inv s) (hlinks : Links s₁)
    (hkernel : s₁.kernel = s.kernel) (p : Place) {fd : Int}
    (hp : s.holds p = fd :: s₁.holds p)
    (hother : ∀ r, r ≠ p → (s₁.holds r).Sublist (s.holds r)) : Inv (s₁.close fd) := by
  have hheld : s.kernel.Held fd := h.separated.used_of_mem p fd (by simp [hp])
  have htable : (s₁.close fd).kernel = s.kernel.close fd := by
    rw [← hkernel]
    rfl
  refine ⟨?_, ?_, hlinks.close fd⟩
  · rw [htable]
    exact h.table.close hheld
  · rw [htable, holds_close]
    exact h.separated.release hp hother fun o hne hused => hused.of_close hne

/-- Closing -1 has no effect. -/
theorem Inv.close_of_neg {s : State} (h : Inv s) {fd : Int} (hfd : fd < 0) :
    Inv (s.close fd) := by
  refine ⟨h.table.close_of_neg hfd, ?_, h.links.close fd⟩
  rw [holds_close]
  apply h.separated.mono (fun p => List.Sublist.refl _)
  intro p o _ hused
  have hnonneg := h.table.nonneg o hused.1
  exact hused.of_close (by omega)

/-- A place receives a descriptor from the kernel. -/
theorem Inv.handOut {s s' : State} (h : Inv s) {fd : Int} {p : Place}
    (hhand : s.kernel.handOut fd = some s'.kernel) (hp : s'.holds p = fd :: s.holds p)
    (hother : ∀ r, r ≠ p → s'.holds r = s.holds r) (hlinks : Links s') : Inv s' :=
  ⟨h.table.handOut hhand,
    h.separated.insert (Table.not_held_of_handOut hhand) (Table.held_of_handOut hhand)
      (fun _ hused => hused.of_handOut hhand) hp hother, hlinks⟩

end Descriptors
end Service
end TinyNet
