import TinyNet.Processor.Model

/-!
# Who handles which session

A session is handled by the worker it was given to, one event at a time, and not after
its release.  A packet that is being handed over belongs to the session that its worker
is handling.

Main results:

- Theorem {lit}`step_inv`: every step of every thread keeps this so.
-/

namespace TinyNet
namespace Processor

open Library.FixedBuffer
open Library.MachineInt
open Library.StepSystem
open Epoll

variable {R : BufferSize}

/-- The rest of a close path releases the session at most once, after it has left the
epoll set. -/
def ClosesOnce : Session R → List Closing → Prop
  | _, [] => True
  | x, what :: rest =>
      (what = .release → x.registered = false ∧ x.released = false) ∧
        ClosesOnce (x.close what) rest

/-- The worker may handle the session. -/
structure Handles (s : State R) (w session : Nat) : Prop where
  lt_created : session < s.created
  worker_eq : (s.sessions session).worker = w
  not_released : (s.sessions session).released = false

/-- What holds where a worker stands. -/
def ProcOk (s : State R) (w : Nat) : ProcPc → Prop
  | .waiting => (s.handoff.lanes w).pc.inFlight = []
  | .framing session _ => (s.handoff.lanes w).pc.inFlight = [] ∧ Handles s w session
  | .handing session _ =>
      (∀ p ∈ (s.handoff.lanes w).pc.inFlight, p.1 = session) ∧ Handles s w session
  | .closing session rest =>
      (s.handoff.lanes w).pc.inFlight = [] ∧ session < s.created ∧
        (s.sessions session).worker = w ∧ ClosesOnce (s.sessions session) rest
  | .fault => (s.handoff.lanes w).pc.inFlight = []

/-- The invariant of the system. -/
structure Inv (s : State R) : Prop where
  handoff : AppThread.Inv s.handoff
  proc : ∀ w, ProcOk s w (s.procs w)
  registered : ∀ x, (s.sessions x).registered = true → (s.sessions x).released = false
  outstanding : ∀ w, ∀ p ∈ (s.handoff.lanes w).outstanding, p.1 < s.created

/-- The session that a worker is at. -/
def ProcPc.session? : ProcPc → Option Nat
  | .framing session _ => some session
  | .handing session _ => some session
  | .closing session _ => some session
  | _ => none

theorem start_inv (garbage : Buf UInt8 R.val) (records : Nat → Fin 101 → Obj) :
    Inv (start garbage records) := by
  constructor
  · exact AppThread.start_inv records
  · intro w
    rfl
  · intro x hregistered
    simp [start] at hregistered
  · intro w p hp
    simp [start, AppThread.start, AppThread.Lane.outstanding, AppThread.Lane.pending,
      AppThread.Lane.accepted, AppThread.WorkerPc.inFlight] at hp

/-! ## Rules for the steps -/

/-- What holds where a worker stands. -/
theorem Inv.proc_at {s : State R} (h : Inv s) {w : Nat} {pc : ProcPc}
    (hproc : s.procs w = pc) : ProcOk s w pc :=
  hproc ▸ h.proc w

/-- A worker's session exists and was given to it. -/
theorem ProcOk.session {s : State R} {w session : Nat} {pc : ProcPc} (h : ProcOk s w pc)
    (hsession : pc.session? = some session) :
    session < s.created ∧ (s.sessions session).worker = w := by
  cases pc with
  | waiting => simp [ProcPc.session?] at hsession
  | fault => simp [ProcPc.session?] at hsession
  | framing x pc =>
      cases hsession
      exact ⟨h.2.lt_created, h.2.worker_eq⟩
  | handing x v =>
      cases hsession
      exact ⟨h.2.lt_created, h.2.worker_eq⟩
  | closing x rest =>
      cases hsession
      exact ⟨h.2.1, h.2.2.1⟩

/-- What holds for a worker depends on its session and on its own hand-off only. -/
theorem ProcOk.congr {s s' : State R} {w : Nat} {pc : ProcPc} (h : ProcOk s w pc)
    (hcreated : s.created ≤ s'.created)
    (hsession : ∀ x, pc.session? = some x → s'.sessions x = s.sessions x)
    (hflight : ∀ p ∈ (s'.handoff.lanes w).pc.inFlight,
      p ∈ (s.handoff.lanes w).pc.inFlight) : ProcOk s' w pc := by
  have hnil : (s.handoff.lanes w).pc.inFlight = [] →
      (s'.handoff.lanes w).pc.inFlight = [] := by
    intro hempty
    apply List.eq_nil_iff_forall_not_mem.mpr
    intro p hp
    simpa [hempty] using hflight p hp
  have hhandles : ∀ x, pc.session? = some x → Handles s w x → Handles s' w x := by
    intro x hx hh
    constructor
    · exact Nat.lt_of_lt_of_le hh.lt_created hcreated
    · rw [hsession x hx]
      exact hh.worker_eq
    · rw [hsession x hx]
      exact hh.not_released
  cases pc with
  | waiting => exact hnil h
  | fault => exact hnil h
  | framing x pc => exact ⟨hnil h.1, hhandles x rfl h.2⟩
  | handing x v => exact ⟨fun p hp => h.1 p (hflight p hp), hhandles x rfl h.2⟩
  | closing x rest =>
      refine ⟨hnil h.1, Nat.lt_of_lt_of_le h.2.1 hcreated, ?_⟩
      rw [hsession x rfl]
      exact h.2.2

/-- A step of one worker, on its own session and without the hand-off. -/
theorem Inv.update_session {s s' : State R} (h : Inv s) {w session : Nat} {x : Session R}
    {pc : ProcPc} (hsessions : s'.sessions = Function.update s.sessions session x)
    (hprocs : s'.procs = Function.update s.procs w pc)
    (hcreated : s'.created = s.created) (hhandoff : s'.handoff = s.handoff)
    (hworker : (s.sessions session).worker = w)
    (hregistered : x.registered = true → x.released = false) (hpc : ProcOk s' w pc) :
    Inv s' := by
  constructor
  · rw [hhandoff]
    exact h.handoff
  · intro v
    rw [hprocs]
    by_cases hv : v = w
    · subst hv
      rw [Function.update_self]
      exact hpc
    · rw [Function.update_of_ne hv]
      apply (h.proc v).congr (le_of_eq hcreated.symm)
      · intro y hy
        rw [hsessions]
        apply Function.update_of_ne
        rintro rfl
        exact hv (((h.proc v).session hy).2.symm.trans hworker)
      · rw [hhandoff]
        exact fun _ hp => hp
  · intro y
    rw [hsessions]
    by_cases hy : y = session
    · subst hy
      rw [Function.update_self]
      exact hregistered
    · rw [Function.update_of_ne hy]
      exact h.registered y
  · rw [hhandoff, hcreated]
    exact h.outstanding

/-- A step of one worker that leaves the sessions and the hand-off alone. -/
theorem Inv.set_proc {s : State R} (h : Inv s) {w : Nat} {pc : ProcPc}
    (hpc : ProcOk s w pc) : Inv (s.setProc w pc) := by
  constructor
  · exact h.handoff
  · intro v
    by_cases hv : v = w
    · subst hv
      rw [State.setProc_procs, Function.update_self]
      exact hpc.congr (le_refl _) (fun _ _ => rfl) (fun _ hp => hp)
    · rw [State.setProc_procs, Function.update_of_ne hv]
      exact (h.proc v).congr (le_refl _) (fun _ _ => rfl) (fun _ hp => hp)
  · exact h.registered
  · exact h.outstanding

/-- A step of the hand-off that frames nothing. -/
theorem Inv.set_handoff {s : State R} (h : Inv s) {threads : Nat}
    {t : AppThread.State Nat Call} {a : AppThread.Action Nat Call}
    (hstep : AppThread.step threads s.handoff a = some t)
    (hframe : ∀ w p, a ≠ .frame w p) (trace : List Event) :
    Inv { s with handoff := t, trace := trace } := by
  constructor
  · exact AppThread.step_inv h.handoff hstep
  · intro w
    refine (h.proc w).congr (le_refl _) (fun _ _ => rfl) ?_
    intro p hp
    rcases AppThread.step_inFlight hstep hp with hold | hnew
    · exact hold
    · exact absurd hnew (hframe w p)
  · exact h.registered
  · intro w p hp
    exact h.outstanding w p (AppThread.step_outstanding_of_ne_frame hstep (hframe w p) hp)

/-! ## Steps -/

/-- A new session. -/
theorem accept_inv {s : State R} (h : Inv s) (w : Nat) (garbage : Buf UInt8 R.val) :
    Inv (s.accept w garbage) := by
  constructor
  · exact h.handoff
  · intro v
    apply (h.proc v).congr (Nat.le_succ _)
    · intro y hy
      apply Function.update_of_ne
      exact Nat.ne_of_lt ((h.proc v).session hy).1
    · exact fun _ hp => hp
  · intro y
    by_cases hy : y = s.created
    · subst hy
      simp [State.accept]
    · simpa [State.accept, Function.update_of_ne hy] using h.registered y
  · intro v p hp
    exact Nat.lt_succ_of_lt (h.outstanding v p hp)

/-- A worker that waits may handle a session of its epoll set. -/
theorem Inv.handles_of_ready {cfg : Config} {s : State R} (h : Inv s) {w session : Nat}
    (hready : s.Ready cfg w session) : Handles s w session := by
  rcases hready with ⟨-, -, hlt, hregistered, hworker⟩
  exact ⟨hlt, hworker, h.registered session hregistered⟩

theorem Inv.inFlight_of_ready {cfg : Config} {s : State R} (h : Inv s) {w session : Nat}
    (hready : s.Ready cfg w session) : (s.handoff.lanes w).pc.inFlight = [] :=
  h.proc_at hready.2.1

/-- Every close path releases the session at most once, after it left the epoll set. -/
theorem closesOnce_of_event {cfg : Config} {w session : Nat} {a : Action R}
    {path : List Closing} (hevent : ClosingEvent cfg w session a path) (x : Session R)
    (hx : x.released = false) : ClosesOnce x path := by
  have hrecv : ClosesOnce x (recvClosing cfg.evtHandler) := by
    cases cfg.evtHandler <;> simp [recvClosing, ClosesOnce, Session.close, hx]
  cases hevent with
  | error => exact hrecv
  | closed => exact hrecv
  | epollErr => simp [errClosing, ClosesOnce, Session.close, hx]
  | epollOther => simp [otherClosing, ClosesOnce]

/-- A worker receives or frames on its session. -/
theorem update_recv_inv {s : State R} (h : Inv s) {w session : Nat} (r : Receiver R)
    {pc : ProcPc} (hflight : (s.handoff.lanes w).pc.inFlight = [])
    (hhandles : Handles s w session)
    (hpc : pc = .waiting ∨ ∃ fpc, pc = .framing session fpc) :
    Inv ((s.setSession session { s.sessions session with recv := r }).setProc w pc) := by
  refine h.update_session rfl rfl rfl rfl hhandles.worker_eq (h.registered session) ?_
  rcases hpc with rfl | ⟨fpc, rfl⟩
  · exact hflight
  · refine ⟨hflight, hhandles.lt_created, ?_, ?_⟩
    · simpa using hhandles.worker_eq
    · simpa using hhandles.not_released

theorem afterFrame_cases (session : Nat) (next : Option FramePc) :
    afterFrame session next = .waiting ∨
      ∃ fpc, afterFrame session next = .framing session fpc := by
  cases next with
  | none => exact Or.inl rfl
  | some fpc => exact Or.inr ⟨fpc, rfl⟩

/-- A step of closing a session. -/
theorem closingStep_inv {s : State R} (h : Inv s) {w session : Nat} {what : Closing}
    {rest : List Closing} (hproc : s.procs w = .closing session (what :: rest)) :
    Inv (s.closingStep w session what rest) := by
  rcases h.proc_at hproc with ⟨hflight, hlt, hworker, hrelease, hrest⟩
  refine h.update_session rfl rfl rfl rfl hworker ?_ ?_
  · have hregistered := h.registered session
    cases what with
    | release => simp [Session.close, hrelease rfl]
    | epollDel => simp [Session.close]
    | close => exact hregistered
    | onDisconnect => exact hregistered
    | evtSessionRelease => exact hregistered
  · refine ⟨hflight, hlt, ?_, ?_⟩
    · simpa using hworker
    · simpa using hrest

/-- A packet enters the hand-off. -/
theorem deliver_inv {cfg : Config} {s : State R} (h : Inv s) {w session : Nat}
    {fpc : FramePc} {v : LoopVars} {c : Call} {t : AppThread.State Nat Call}
    (hproc : s.procs w = .framing session fpc)
    (hstep : AppThread.step cfg.threads s.handoff (.frame w (session, c)) = some t) :
    Inv ({ s with handoff := t }.setProc w (.handing session v)) := by
  have hok := h.proc_at hproc
  have hflight : ∀ u, ∀ p ∈ (t.lanes u).pc.inFlight,
      p ∈ (s.handoff.lanes u).pc.inFlight ∨ u = w ∧ p = (session, c) := by
    intro u p hp
    rcases AppThread.step_inFlight hstep hp with hold | hnew
    · exact Or.inl hold
    · cases hnew
      exact Or.inr ⟨rfl, rfl⟩
  constructor
  · exact AppThread.step_inv h.handoff hstep
  · intro u
    by_cases hu : u = w
    · subst hu
      rw [State.setProc_procs, Function.update_self]
      refine ⟨?_, hok.2.lt_created, hok.2.worker_eq, hok.2.not_released⟩
      intro p hp
      rcases hflight u p hp with hold | ⟨-, rfl⟩
      · simp [hok.1] at hold
      · rfl
    · rw [State.setProc_procs, Function.update_of_ne hu]
      refine (h.proc u).congr (le_refl _) (fun _ _ => rfl) ?_
      intro p hp
      rcases hflight u p hp with hold | ⟨heq, -⟩
      · exact hold
      · exact absurd heq hu
  · exact h.registered
  · intro u p hp
    rcases AppThread.step_outstanding hstep hp with hold | hnew
    · exact h.outstanding u p hold
    · cases hnew
      exact hok.2.lt_created

/-- Every step of every thread keeps the invariant. -/
theorem step_inv {cfg : Config} {s s' : State R} {a : Action R} (h : Inv s)
    (hstep : step cfg s a = some s') : Inv s' := by
  cases step_cases hstep with
  | accept w garbage => exact accept_inv h w garbage
  | received w session chunk r v hready hdata =>
      exact update_recv_inv h r (h.inFlight_of_ready hready) (h.handles_of_ready hready)
        (Or.inr ⟨_, rfl⟩)
  | closingEvent w session a path hready hevent =>
      have hhandles := h.handles_of_ready hready
      exact h.set_proc ⟨h.inFlight_of_ready hready, hhandles.lt_created,
        hhandles.worker_eq, closesOnce_of_event hevent _ hhandles.not_released⟩
  | fault w a hproc =>
      rcases hproc with hwaiting | ⟨session, pc, hframing⟩
      · have hflight : (s.handoff.lanes w).pc.inFlight = [] := h.proc_at hwaiting
        exact h.set_proc hflight
      · exact h.set_proc (h.proc_at hframing).1
  | deliver w session v v' c t hproc hmessage hframe => exact deliver_inv h hproc hframe
  | frame w session pc r next hproc hframe =>
      have hok := h.proc_at hproc
      exact update_recv_inv h r hok.1 hok.2 (afterFrame_cases session next)
  | handed w session v hproc hidle =>
      refine h.set_proc ⟨?_, (h.proc_at hproc).2⟩
      rw [hidle]
      rfl
  | handing w session v t hproc hhandoff =>
      exact h.set_handoff hhandoff (by simp) s.trace
  | closed w session hproc => exact h.set_proc (h.proc_at hproc).1
  | closing w session what rest hproc => exact closingStep_inv h hproc
  | app readFirst t hhandoff => exact h.set_handoff hhandoff (by simp) _

/-! ## Consequences -/

/-- A packet in hand-off belongs to the session its worker is handling. -/
theorem Inv.handing_of_inFlight {s : State R} (h : Inv s) {w : Nat} {p : Nat × Call}
    (hp : p ∈ (s.handoff.lanes w).pc.inFlight) : ∃ v, s.procs w = .handing p.1 v := by
  have hne : (s.handoff.lanes w).pc.inFlight ≠ [] := List.ne_nil_of_mem hp
  cases hproc : s.procs w with
  | handing session v => exact ⟨v, by rw [(h.proc_at hproc).1 p hp]⟩
  | waiting => exact absurd (h.proc_at hproc) hne
  | fault => exact absurd (h.proc_at hproc) hne
  | framing session pc => exact absurd (h.proc_at hproc).1 hne
  | closing session rest => exact absurd (h.proc_at hproc).1 hne

/-- While a session's worker is not handing a packet over, all outstanding packets of
the session are in a package that the application thread has not seen. -/
theorem Inv.outstanding_undelivered {s : State R} (h : Inv s) {w v session : Nat}
    (hworker : (s.sessions session).worker = w) (hproc : ∀ lv, s.procs w ≠ .handing session lv)
    {c : Call} (hp : (session, c) ∈ (s.handoff.lanes v).outstanding) :
    AppThread.MsgPackage.filled (session, c) ∈ s.handoff.undelivered v := by
  rcases List.mem_append.mp hp with hpending | hflight
  · rw [h.handoff.undelivered_eq]
    exact List.mem_map_of_mem hpending
  · rcases h.handing_of_inFlight hflight with ⟨lv, hhanding⟩
    have hvw : v = w := (h.proc_at hhanding).2.worker_eq.symm.trans hworker
    subst hvw
    exact absurd hhanding (hproc lv)

/-- The call of {lit}`on_message` is given a session with a pending packet. -/
theorem appCall_cases {s : State R} (h : Inv s) :
    s.appCall = [] ∨ ∃ i session message, s.appCall =
        [.onMessage session message (s.seen session message)] ∧
      (session, message) ∈ (s.handoff.lanes i).outstanding := by
  unfold State.appCall
  split
  · rename_i i pMsgPkg hpc
    rcases h.handoff.heap_onMessage hpc with ⟨⟨session, message⟩, hpair⟩
    right
    refine ⟨i, session, message, by simp [hpair, AppThread.MsgPackage.filled], ?_⟩
    exact List.mem_append_left _ (h.handoff.mem_pending_of_onMessage hpc hpair)
  · exact Or.inl rfl

/-! ## Releasing a session -/

/-- A session is released only if no package of it is in a queue or in the hands of the
application thread. -/
def ReleaseWaits (s : State R) (a : Action R) : Prop :=
  ∀ w session rest, a = .worker w → s.procs w = .closing session (.release :: rest) →
    ∀ v, ∀ m ∈ s.handoff.undelivered v, m.session ≠ some session

/-- A step of closing a session releases that session, if any. -/
theorem sessions_closingStep_released (s : State R) (w session : Nat) (what : Closing)
    (rest : List Closing) (x : Nat) :
    ((s.closingStep w session what rest).sessions x).released =
      ((s.sessions x).released || decide (x = session ∧ what = .release)) := by
  by_cases hx : x = session
  · subst hx
    simp
  · simp [hx]

/-- A release that waits does not concern a session with packets on their way. -/
theorem Inv.released_closingStep {s : State R} (h : Inv s) {w session : Nat}
    {what : Closing} {rest : List Closing} (hwaits : ReleaseWaits s (.worker w))
    (hproc : s.procs w = .closing session (what :: rest)) {v : Nat} {p : Nat × Call}
    (hp : p ∈ (s.handoff.lanes v).outstanding) :
    ((s.closingStep w session what rest).sessions p.1).released =
      (s.sessions p.1).released := by
  have hworker := (h.proc_at hproc).2.2.1
  have hne : ¬(p.1 = session ∧ what = .release) := by
    rintro ⟨rfl, rfl⟩
    have hundelivered := h.outstanding_undelivered hworker (by simp [hproc]) hp
    exact hwaits w p.1 rest rfl hproc v _ hundelivered rfl
  rw [sessions_closingStep_released]
  simp [hne]

end Processor
end TinyNet
