import TinyNet.Processor.Release

/-!
# Closing a session down

{lit}`Processor::run` picks the branch of an event by the first of the bits
{lit}`EPOLLIN`, {lit}`EPOLLOUT` and {lit}`EPOLLERR` that is set, and has one more branch
for events with none of them.  Four of these branches take the session out of the epoll
set, each with its own version of what has to follow.  This file adds the masks to the
system of sessions, workers and application thread, and says which events close a
session down completely.

An {lit}`EPOLLOUT` event drains the send buffer and changes the interest set, neither of
which is part of this system, so it leaves the state as it is.

Main results:

- Theorem {lit}`eventStep_teardownInv`: what is kept by every event that can be received
  from or sent to.
- Theorem {lit}`teardown_complete`: runs of such events close every session down
  completely and once.
- Theorem {lit}`teardown_incomplete`: an event with {lit}`EPOLLERR` only, and one with
  {lit}`EPOLLHUP` only, that do not.
-/

namespace TinyNet
namespace Processor

open Library.FixedBuffer
open Library.MachineInt
open Library.StepSystem
open Epoll

variable {R : BufferSize}

/-! ## Events by their masks -/

/-- The bits of {lit}`epoll_event::events`. -/
structure Mask where
  epollin : Bool
  epollout : Bool
  epollerr : Bool
  epollhup : Bool
deriving DecidableEq

/-- The branches of {lit}`Processor::run`. -/
inductive Branch where
  | epollIn
  | epollOut
  | epollErr
  | other
deriving DecidableEq

/-- The branch that the worker takes: the first bit that is set decides. -/
def Mask.branch (mask : Mask) : Branch :=
  if mask.epollin then .epollIn
  else if mask.epollout then .epollOut
  else if mask.epollerr then .epollErr
  else .other

/-- A step: a new session, an event with its mask and with the result of {lit}`recv` if
that is called, or the next step of a thread. -/
inductive EventAction (R : BufferSize) where
  | accept (w : Nat) (garbage : Buf UInt8 R.val)
  | event (w session : Nat) (mask : Mask) (outcome : RecvOutcome)
  | worker (w : Nat)
  | app (readFirst : Bool)

/-- One step of the system. -/
def eventStep (cfg : Config) (s : State R) : EventAction R → Option (State R)
  | .accept w garbage => step cfg s (.accept w garbage)
  | .event w session mask outcome =>
      match mask.branch with
      | .epollIn => step cfg s (.epollIn w session outcome)
      | .epollOut => if s.Ready cfg w session then some s else none
      | .epollErr => step cfg s (.epollErr w session)
      | .other => step cfg s (.epollOther w session)
  | .worker w => step cfg s (.worker w)
  | .app readFirst => step cfg s (.app readFirst)

/-- The event can be received from or sent to. -/
def Readable (_ : State R) (a : EventAction R) : Prop :=
  ∀ w session mask outcome, a = .event w session mask outcome →
    mask.epollin = true ∨ mask.epollout = true

/-- The steps of closing a session in a trace. -/
def closings (x : Nat) (trace : List Event) : List Closing :=
  trace.filterMap fun
    | .closing what session => if session = x then some what else none
    | .onMessage _ _ _ => none

/-- The descriptor was closed once, {lit}`on_disconnect` called once and before the one
release, and the handler, if there is one, told once. -/
structure ClosedDown (evtHandler : Bool) (done : List Closing) : Prop where
  close : done.count .close = 1
  onDisconnect : done.count .onDisconnect = 1
  release : done.count .release = 1
  order : [.onDisconnect, .release].Sublist done
  evtSessionRelease : evtHandler = true → done.count .evtSessionRelease = 1

/-- Every session that was taken out of its epoll set is closed down, unless its worker
is still at it. -/
def TornDown (cfg : Config) (s : State R) : Prop :=
  ∀ x, .epollDel ∈ closings x s.trace → (∀ w rest, s.procs w ≠ .closing x rest) →
    ClosedDown cfg.evtHandler (closings x s.trace)

/-- The close paths of {lit}`recv` are complete. -/
theorem closedDown_recvClosing (evtHandler : Bool) :
    ClosedDown evtHandler (recvClosing evtHandler) := by
  cases evtHandler with
  | false => exact ⟨rfl, rfl, rfl, by decide, by simp⟩
  | true => exact ⟨rfl, rfl, rfl, by decide, fun _ => rfl⟩

/-! ## The close path so far -/

@[simp]
theorem closings_append (x : Nat) (trace trace' : List Event) :
    closings x (trace ++ trace') = closings x trace ++ closings x trace' := by
  simp [closings]

theorem closings_closing (x session : Nat) (what : Closing) :
    closings x [.closing what session] = if session = x then [what] else [] := by
  by_cases hx : session = x
  · simp [closings, hx]
  · simp [closings, hx]

/-- The application thread closes nothing. -/
theorem closings_appCall (x : Nat) (s : State R) : closings x s.appCall = [] := by
  unfold State.appCall
  split
  · split <;> rfl
  · rfl

/-- What holds along a run of events that can be received from or sent to: every session
is untouched, closed down, or on its way through the path that follows {lit}`recv`. -/
structure TeardownInv (cfg : Config) (s : State R) : Prop where
  base : Inv s
  fresh : ∀ x, s.created ≤ x → closings x s.trace = []
  registered : ∀ x, (s.sessions x).registered = true → closings x s.trace = []
  underway : ∀ w x rest, s.procs w = .closing x rest →
    closings x s.trace ++ rest = recvClosing cfg.evtHandler
  settled : ∀ x, (∀ w rest, s.procs w ≠ .closing x rest) →
    closings x s.trace = [] ∨ closings x s.trace = recvClosing cfg.evtHandler

theorem TeardownInv.tornDown {cfg : Config} {s : State R} (h : TeardownInv cfg s) :
    TornDown cfg s := by
  intro x hdel hproc
  rcases h.settled x hproc with hnone | hall
  · rw [hnone] at hdel
    contradiction
  · rw [hall]
    exact closedDown_recvClosing cfg.evtHandler

theorem start_teardownInv (cfg : Config) (garbage : Buf UInt8 R.val)
    (records : Nat → Fin 101 → Obj) : TeardownInv cfg (start garbage records) := by
  constructor
  · exact start_inv garbage records
  · exact fun x _ => rfl
  · exact fun x _ => rfl
  · intro w x rest hproc
    simp [start] at hproc
  · exact fun x _ => Or.inl rfl

/-- A worker that moves between places outside the close paths. -/
theorem TeardownInv.of_silent {cfg : Config} {s s' : State R} (h : TeardownInv cfg s)
    (hbase : Inv s') (hcreated : s.created ≤ s'.created)
    (htrace : ∀ x, closings x s'.trace = closings x s.trace)
    (hregistered : ∀ x < s.created, (s'.sessions x).registered = (s.sessions x).registered)
    (hprocs : ∀ w x rest, s'.procs w = .closing x rest ↔ s.procs w = .closing x rest) :
    TeardownInv cfg s' := by
  constructor
  · exact hbase
  · intro x hx
    rw [htrace]
    exact h.fresh x (hcreated.trans hx)
  · intro x hx
    rw [htrace]
    rcases Nat.lt_or_ge x s.created with hlt | hge
    · rw [hregistered x hlt] at hx
      exact h.registered x hx
    · exact h.fresh x hge
  · intro w x rest hproc
    rw [htrace]
    exact h.underway w x rest ((hprocs w x rest).mp hproc)
  · intro x hproc
    rw [htrace]
    exact h.settled x fun w rest hold => hproc w rest ((hprocs w x rest).mpr hold)

/-- Where a worker that changes its place between two outside the close paths is. -/
theorem closing_iff_of_update {s : State R} {w : Nat} {pc : ProcPc}
    (hold : ∀ x rest, s.procs w ≠ .closing x rest)
    (hnew : ∀ x rest, pc ≠ .closing x rest) (v x : Nat) (rest : List Closing) :
    Function.update s.procs w pc v = .closing x rest ↔ s.procs v = .closing x rest := by
  by_cases hv : v = w
  · subst hv
    rw [Function.update_self]
    exact ⟨fun hpc => absurd hpc (hnew x rest), fun hpc => absurd hpc (hold x rest)⟩
  · rw [Function.update_of_ne hv]

/-- Receiving and framing close nothing. -/
theorem TeardownInv.update_recv {cfg : Config} {s : State R} (h : TeardownInv cfg s)
    {w session : Nat} {r : Receiver R} {pc : ProcPc}
    (hbase : Inv ((s.setSession session { s.sessions session with recv := r }).setProc w pc))
    (hold : ∀ x rest, s.procs w ≠ .closing x rest)
    (hnew : ∀ x rest, pc ≠ .closing x rest) :
    TeardownInv cfg
      ((s.setSession session { s.sessions session with recv := r }).setProc w pc) := by
  refine h.of_silent hbase (le_refl _) (fun _ => rfl) ?_ (closing_iff_of_update hold hnew)
  intro x _
  by_cases hx : x = session
  · subst hx
    simp
  · simp [hx]

/-- A worker starts on a close path of {lit}`recv`. -/
theorem TeardownInv.begin_closing {cfg : Config} {s : State R} (h : TeardownInv cfg s)
    {w session : Nat} (hbase : Inv (s.setProc w (.closing session (recvClosing cfg.evtHandler))))
    (hready : s.Ready cfg w session) :
    TeardownInv cfg (s.setProc w (.closing session (recvClosing cfg.evtHandler))) := by
  rcases hready with ⟨-, hwaiting, -, hregistered, -⟩
  constructor
  · exact hbase
  · exact h.fresh
  · exact h.registered
  · intro v x rest hproc
    rw [State.setProc_procs] at hproc
    by_cases hv : v = w
    · subst hv
      rw [Function.update_self] at hproc
      cases hproc
      show closings session s.trace ++ recvClosing cfg.evtHandler = _
      rw [h.registered session hregistered, List.nil_append]
    · rw [Function.update_of_ne hv] at hproc
      exact h.underway v x rest hproc
  · intro x hproc
    apply h.settled x
    intro v rest hold
    apply hproc v rest
    have hv : v ≠ w := by
      rintro rfl
      rw [hwaiting] at hold
      contradiction
    rw [State.setProc_procs, Function.update_of_ne hv, hold]

/-- Only its own worker is at a session. -/
theorem Inv.closing_unique {s : State R} (h : Inv s) {v w x : Nat}
    {rest rest' : List Closing} (hv : s.procs v = .closing x rest)
    (hw : s.procs w = .closing x rest') : v = w := by
  have hv' := (h.proc_at hv).2.2.1
  have hw' := (h.proc_at hw).2.2.1
  exact hv'.symm.trans hw'

/-- A step along a close path is recorded for its session. -/
theorem closings_closingStep (s : State R) (w session : Nat) (what : Closing)
    (rest : List Closing) (x : Nat) :
    closings x (s.closingStep w session what rest).trace =
      closings x s.trace ++ if session = x then [what] else [] := by
  rw [← closings_closing]
  exact closings_append x _ _

/-- The path starts with the removal from the epoll set, so that a session on it is not
registered any more. -/
theorem TeardownInv.unregistered {cfg : Config} {s : State R} (h : TeardownInv cfg s)
    {w session : Nat} {what : Closing} {rest : List Closing}
    (hproc : s.procs w = .closing session (what :: rest)) :
    ((s.closingStep w session what rest).sessions session).registered = false := by
  rw [State.closingStep_sessions, Function.update_self, Bool.eq_false_iff]
  intro hregistered
  have hunderway := h.underway w session _ hproc
  have hnone : closings session s.trace = [] := by
    apply h.registered
    cases what <;> simp_all [Session.close]
  rw [hnone, List.nil_append] at hunderway
  have hfirst : what = .epollDel := by
    rw [recvClosing] at hunderway
    exact (List.cons.inj hunderway).1
  subst hfirst
  simp [Session.close] at hregistered

/-- A step along a close path. -/
theorem closingStep_teardownInv {cfg : Config} {s : State R} (h : TeardownInv cfg s)
    {w session : Nat} {what : Closing} {rest : List Closing}
    (hproc : s.procs w = .closing session (what :: rest)) :
    TeardownInv cfg (s.closingStep w session what rest) := by
  have hunderway := h.underway w session _ hproc
  have hlt := (h.base.proc_at hproc).2.1
  have hself : closings session (s.closingStep w session what rest).trace ++ rest =
      recvClosing cfg.evtHandler := by
    rw [closings_closingStep, if_pos rfl, List.append_assoc]
    exact hunderway
  have hothers : ∀ x, session ≠ x →
      closings x (s.closingStep w session what rest).trace = closings x s.trace := by
    intro x hne
    rw [closings_closingStep, if_neg hne, List.append_nil]
  constructor
  · exact closingStep_inv h.base hproc
  · intro x hx
    have hne : session ≠ x := by
      have hx' : s.created ≤ x := hx
      omega
    rw [hothers x hne]
    exact h.fresh x hx
  · intro x hregistered
    by_cases hx : x = session
    · subst hx
      rw [h.unregistered hproc] at hregistered
      contradiction
    · rw [State.closingStep_sessions, Function.update_of_ne hx] at hregistered
      rw [hothers x (Ne.symm hx)]
      exact h.registered x hregistered
  · intro v x rest' hpc
    have hpc' : Function.update s.procs w (.closing session rest) v = .closing x rest' := hpc
    by_cases hv : v = w
    · subst hv
      rw [Function.update_self] at hpc'
      cases hpc'
      exact hself
    · rw [Function.update_of_ne hv] at hpc'
      have hne : session ≠ x := by
        rintro rfl
        exact hv (h.base.closing_unique hpc' hproc)
      rw [hothers x hne]
      exact h.underway v x rest' hpc'
  · intro x hpc
    have hne : session ≠ x := by
      rintro rfl
      apply hpc w rest
      exact Function.update_self ..
    rw [hothers x hne]
    apply h.settled x
    intro v rest' hold
    apply hpc v rest'
    have hv : v ≠ w := by
      rintro rfl
      rw [hproc] at hold
      cases hold
      exact hne rfl
    exact (Function.update_of_ne hv _ _).trans hold

/-- The end of a close path. -/
theorem closed_teardownInv {cfg : Config} {s : State R} (h : TeardownInv cfg s)
    {w session : Nat} (hbase : Inv (s.setProc w .waiting))
    (hproc : s.procs w = .closing session []) : TeardownInv cfg (s.setProc w .waiting) := by
  have hdone := h.underway w session [] hproc
  rw [List.append_nil] at hdone
  constructor
  · exact hbase
  · exact h.fresh
  · exact h.registered
  · intro v x rest hpc
    rw [State.setProc_procs] at hpc
    by_cases hv : v = w
    · subst hv
      rw [Function.update_self] at hpc
      contradiction
    · rw [Function.update_of_ne hv] at hpc
      exact h.underway v x rest hpc
  · intro x hpc
    by_cases hx : x = session
    · subst hx
      exact Or.inr hdone
    · apply h.settled x
      intro v rest hold
      apply hpc v rest
      have hv : v ≠ w := by
        rintro rfl
        rw [hproc] at hold
        cases hold
        exact hx rfl
      rw [State.setProc_procs, Function.update_of_ne hv, hold]

/-! ## Runs -/

/-- An event changes nothing or is a step of the system; if it can be received from or
sent to, it is none of those that close a session without {lit}`recv`. -/
theorem eventStep_cases {cfg : Config} {s s' : State R} {a : EventAction R}
    (h : eventStep cfg s a = some s') :
    s' = s ∨ ∃ b, step cfg s b = some s' ∧ (Readable s a →
      ∀ w session, b ≠ .epollErr w session ∧ b ≠ .epollOther w session) := by
  cases a with
  | accept w garbage => exact Or.inr ⟨.accept w garbage, h, by simp⟩
  | worker w => exact Or.inr ⟨.worker w, h, by simp⟩
  | app readFirst => exact Or.inr ⟨.app readFirst, h, by simp⟩
  | event w session mask outcome =>
      have hmask : Readable s (.event w session mask outcome) →
          mask.epollin = true ∨ mask.epollout = true :=
        fun hreadable => hreadable w session mask outcome rfl
      simp only [eventStep] at h
      split at h
      · exact Or.inr ⟨.epollIn w session outcome, h, by simp⟩
      · split at h
        · exact Or.inl (Option.some.inj h).symm
        · contradiction
      · rename_i hbranch
        refine Or.inr ⟨.epollErr w session, h, fun hreadable => ?_⟩
        rcases hmask hreadable with hin | hout
        · simp [Mask.branch, hin] at hbranch
        · cases hin : mask.epollin <;> simp [Mask.branch, hin, hout] at hbranch
      · rename_i hbranch
        refine Or.inr ⟨.epollOther w session, h, fun hreadable => ?_⟩
        rcases hmask hreadable with hin | hout
        · simp [Mask.branch, hin] at hbranch
        · cases hin : mask.epollin <;> simp [Mask.branch, hin, hout] at hbranch

/-- Events keep the invariant of the system, whatever their masks are. -/
theorem eventStep_inv {cfg : Config} {s s' : State R} {a : EventAction R} (h : Inv s)
    (hstep : eventStep cfg s a = some s') : Inv s' := by
  rcases eventStep_cases hstep with rfl | ⟨b, hb, -⟩
  · exact h
  · exact step_inv h hb

theorem run_eventStep_inv {cfg : Config} {garbage : Buf UInt8 R.val}
    {records : Nat → Fin 101 → Obj} {acts : List (EventAction R)} {s : State R}
    (hrun : run (eventStep cfg) (start garbage records) acts = some s) : Inv s :=
  run_invariant (fun _ _ _ => eventStep_inv) (start_inv garbage records) hrun

/-- A step of the system, apart from the close paths that do not follow {lit}`recv`. -/
theorem step_teardownInv {cfg : Config} {s s' : State R} {a : Action R}
    (h : TeardownInv cfg s) (herr : ∀ w session, a ≠ .epollErr w session)
    (hother : ∀ w session, a ≠ .epollOther w session)
    (hstep : step cfg s a = some s') : TeardownInv cfg s' := by
  have hbase := step_inv h.base hstep
  cases step_cases hstep with
  | accept w garbage =>
      refine h.of_silent hbase (Nat.le_succ _) (fun _ => rfl) ?_ (fun _ _ _ => Iff.rfl)
      intro x hx
      simp [State.accept, Nat.ne_of_lt hx]
  | received w session chunk r v hready hdata =>
      exact h.update_recv hbase (by simp [hready.2.1]) (by simp)
  | closingEvent w session a path hready hevent =>
      cases hevent with
      | error => exact h.begin_closing hbase hready
      | closed => exact h.begin_closing hbase hready
      | epollErr => exact absurd rfl (herr w session)
      | epollOther => exact absurd rfl (hother w session)
  | fault w a hproc =>
      refine h.of_silent hbase (le_refl _) (fun _ => rfl) (fun _ _ => rfl) ?_
      apply closing_iff_of_update
      · rcases hproc with hwaiting | ⟨session, pc, hframing⟩
        · simp [hwaiting]
        · simp [hframing]
      · simp
  | deliver w session v v' c t hproc hmessage hframe =>
      refine h.of_silent hbase (le_refl _) (fun _ => rfl) (fun _ _ => rfl) ?_
      exact closing_iff_of_update (by simp [hproc]) (by simp)
  | frame w session pc r next hproc hframe =>
      apply h.update_recv hbase
      · simp [hproc]
      · rcases afterFrame_cases session next with hwaiting | ⟨fpc, hframing⟩
        · simp [hwaiting]
        · simp [hframing]
  | handed w session v hproc hidle =>
      refine h.of_silent hbase (le_refl _) (fun _ => rfl) (fun _ _ => rfl) ?_
      exact closing_iff_of_update (by simp [hproc]) (by simp)
  | handing w session v t hproc hhandoff =>
      exact h.of_silent hbase (le_refl _) (fun _ => rfl) (fun _ _ => rfl) (fun _ _ _ => Iff.rfl)
  | closed w session hproc => exact closed_teardownInv h hbase hproc
  | closing w session what rest hproc => exact closingStep_teardownInv h hproc
  | app readFirst t hhandoff =>
      refine h.of_silent hbase (le_refl _) ?_ (fun _ _ => rfl) (fun _ _ _ => Iff.rfl)
      intro x
      rw [closings_append, closings_appCall, List.append_nil]

/-- Events that can be received from or sent to close sessions down completely. -/
theorem eventStep_teardownInv {cfg : Config} {s s' : State R} {a : EventAction R}
    (h : TeardownInv cfg s) (hreadable : Readable s a)
    (hstep : eventStep cfg s a = some s') : TeardownInv cfg s' := by
  rcases eventStep_cases hstep with rfl | ⟨b, hb, hrecv⟩
  · exact h
  · have hrecv' := hrecv hreadable
    exact step_teardownInv h (fun w session => (hrecv' w session).1)
      (fun w session => (hrecv' w session).2) hb

/-- If every event of a run has {lit}`EPOLLIN` or {lit}`EPOLLOUT` set, every session
that a worker takes out of its epoll set is closed down completely and once by the end
of the event. -/
theorem teardown_complete (cfg : Config) (garbage : Buf UInt8 R.val)
    (records : Nat → Fin 101 → Obj) (acts : List (EventAction R))
    (hreadable : EachStep (eventStep cfg) Readable (start garbage records) acts) :
    Always (eventStep cfg) (TornDown cfg) (start garbage records) acts :=
  always_of_eachStep (fun _ _ _ h hok hstep => eventStep_teardownInv h hok hstep)
    (fun _ h => h.tornDown) (start_teardownInv cfg garbage records) hreadable

/-- A session is accepted, an event with the given mask arrives for it, on which a call
of {lit}`recv` would return zero, and its worker takes {lit}`n` steps. -/
def acceptThenEvent (mask : Mask) (n : Nat) : List (EventAction four) :=
  [.accept 0 (.replicate 4 9), .event 0 0 mask .closed] ++ List.replicate n (.worker 0)

/-- The check of an event for {lit}`EPOLLIN` or {lit}`EPOLLOUT`. -/
def EventAction.readable : EventAction R → Bool
  | .event _ _ mask _ => mask.epollin || mask.epollout
  | _ => true

theorem readable_of_check (s : State R) (a : EventAction R) (h : a.readable = true) :
    Readable s a := by
  rintro w session mask outcome rfl
  simpa [EventAction.readable] using h

/-- A peer that closes the connection is reported with {lit}`EPOLLIN` and
{lit}`EPOLLHUP`. -/
theorem teardown_complete_hangup :
    Always (eventStep (oneWorker true)) (TornDown (oneWorker true)) fresh
        (acceptThenEvent ⟨true, false, false, true⟩ 6) ∧
      (run (eventStep (oneWorker true)) fresh
        (acceptThenEvent ⟨true, false, false, true⟩ 6)).map (closings 0 ·.trace) =
          some [.epollDel, .close, .onDisconnect, .release, .evtSessionRelease] := by
  refine ⟨teardown_complete _ _ _ _ ?_, by decide⟩
  exact eachStep_of_checkSteps (fun s a => readable_of_check s a) (by decide)

/-- A worker that waits is at no session of its own. -/
theorem Inv.not_closing {s : State R} (h : Inv s) {x w : Nat}
    (hworker : (s.sessions x).worker = w) (hwaiting : s.procs w = .waiting) (v : Nat)
    (rest : List Closing) : s.procs v ≠ .closing x rest := by
  intro hproc
  have hv : v = w := (h.proc_at hproc).2.2.1.symm.trans hworker
  rw [hv, hwaiting] at hproc
  contradiction

/-- A session that its worker left without {lit}`on_disconnect` is not closed down. -/
theorem not_tornDown {cfg : Config} {s : State R} (h : Inv s) {x w : Nat}
    (hworker : (s.sessions x).worker = w) (hwaiting : s.procs w = .waiting)
    (hdel : .epollDel ∈ closings x s.trace) (hmissing : .onDisconnect ∉ closings x s.trace) :
    ¬TornDown cfg s := by
  intro htorn
  have hdown := htorn x hdel (h.not_closing hworker hwaiting)
  have hcount := hdown.onDisconnect
  rw [List.count_eq_zero_of_not_mem hmissing] at hcount
  contradiction

/-- An {lit}`EPOLLERR` event without {lit}`EPOLLIN` leaves out {lit}`on_disconnect` and
the report to the handler; an {lit}`EPOLLHUP` event without any other bit takes the
session out of the epoll set and does nothing else. -/
theorem teardown_incomplete :
    (∃ s, run (eventStep (oneWorker true)) fresh
        (acceptThenEvent ⟨false, false, true, false⟩ 4) = some s ∧
      closings 0 s.trace = [.epollDel, .close, .release] ∧ ¬TornDown (oneWorker true) s) ∧
    (∃ s, run (eventStep (oneWorker true)) fresh
        (acceptThenEvent ⟨false, false, false, true⟩ 2) = some s ∧
      closings 0 s.trace = [.epollDel] ∧ ¬TornDown (oneWorker true) s) := by
  have herr : (run (eventStep (oneWorker true)) fresh
      (acceptThenEvent ⟨false, false, true, false⟩ 4)).map
        (fun s => (closings 0 s.trace, (s.sessions 0).worker, s.procs 0)) =
      some ([.epollDel, .close, .release], 0, .waiting) := by
    decide
  have hother : (run (eventStep (oneWorker true)) fresh
      (acceptThenEvent ⟨false, false, false, true⟩ 2)).map
        (fun s => (closings 0 s.trace, (s.sessions 0).worker, s.procs 0)) =
      some ([.epollDel], 0, .waiting) := by
    decide
  rcases Option.map_eq_some_iff.mp herr with ⟨s, hs, heq⟩
  rcases Option.map_eq_some_iff.mp hother with ⟨s', hs', heq'⟩
  simp only [Prod.mk.injEq] at heq heq'
  rcases heq with ⟨htrace, hworker, hwaiting⟩
  rcases heq' with ⟨htrace', hworker', hwaiting'⟩
  refine ⟨⟨s, hs, htrace, ?_⟩, ⟨s', hs', htrace', ?_⟩⟩
  · apply not_tornDown (run_eventStep_inv hs) hworker hwaiting <;> simp [htrace]
  · apply not_tornDown (run_eventStep_inv hs') hworker' hwaiting' <;> simp [htrace']

end Processor
end TinyNet
