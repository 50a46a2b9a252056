import TinyNet.Epoll.Conservation
import TinyNet.Processor.Invariant

/-!
# Callbacks on released sessions

A worker that closes a session passes it to {lit}`factory->release` at once.  Packages
of the session may still be under way to the application thread, and after a
{lit}`recv` result the worker itself reports the session to {lit}`evtHandler` after
its release.

Main results:

- Theorem {lit}`no_use_after_release`: a run whose releases wait for the packages under
  way, and whose {lit}`recv` close paths have no handler to call, uses no released
  session.
- Theorem {lit}`released_session_used`: a run with a package under way and a run with a
  handler that do.
-/

namespace TinyNet
namespace Processor

open Library.FixedBuffer
open Library.MachineInt
open Library.StepSystem
open Epoll

variable {R : BufferSize}

/-- The event is a callback that is given the session. -/
def Event.Uses (session : Nat) : Event → Prop
  | .onMessage x _ _ => x = session
  | .closing .evtSessionRelease x => x = session
  | .closing _ _ => False

/-- No callback is given a session after its release. -/
def NoUseAfterRelease (trace : List Event) : Prop :=
  trace.Pairwise fun a b => ∀ session, a = .closing .release session → ¬b.Uses session

/-- A {lit}`recv` result closes a session only if there is no handler to report it to,
and a release waits for the packages under way. -/
def ReleaseSafe (cfg : Config) (s : State R) (a : Action R) : Prop :=
  (∀ w session, a = .epollIn w session .error ∨ a = .epollIn w session .closed →
    cfg.evtHandler = false) ∧
  ReleaseWaits s a

/-- What holds along a run of safe steps: a session with packets on their way is not
released, and no close path has a handler to call. -/
structure ReleaseInv (s : State R) : Prop where
  base : Inv s
  live : ∀ w, ∀ p ∈ (s.handoff.lanes w).outstanding, (s.sessions p.1).released = false
  recorded : ∀ session, .closing .release session ∈ s.trace →
    session < s.created ∧ (s.sessions session).released = true
  no_handler : ∀ w session rest, s.procs w = .closing session rest →
    .evtSessionRelease ∉ rest
  safe : NoUseAfterRelease s.trace

theorem start_releaseInv (garbage : Buf UInt8 R.val) (records : Nat → Fin 101 → Obj) :
    ReleaseInv (start garbage records) := by
  constructor
  · exact start_inv garbage records
  · intro w p hp
    rfl
  · intro session hmem
    simp [start] at hmem
  · intro w session rest hproc
    simp [start] at hproc
  · exact List.Pairwise.nil

/-- A step without a callback and without a release. -/
theorem ReleaseInv.of_silent {s s' : State R} (h : ReleaseInv s) (hbase : Inv s')
    (htrace : s'.trace = s.trace) (hcreated : s.created ≤ s'.created)
    (hreleased : ∀ x < s.created, (s'.sessions x).released = (s.sessions x).released)
    (houtstanding : ∀ w, ∀ p ∈ (s'.handoff.lanes w).outstanding,
      p ∈ (s.handoff.lanes w).outstanding ∨ (s'.sessions p.1).released = false)
    (hprocs : ∀ w session rest, s'.procs w = .closing session rest →
      .evtSessionRelease ∉ rest) : ReleaseInv s' := by
  constructor
  · exact hbase
  · intro w p hp
    rcases houtstanding w p hp with hold | hnew
    · rw [hreleased p.1 (h.base.outstanding w p hold)]
      exact h.live w p hold
    · exact hnew
  · intro session hmem
    rw [htrace] at hmem
    rcases h.recorded session hmem with ⟨hlt, htrue⟩
    exact ⟨Nat.lt_of_lt_of_le hlt hcreated, by rw [hreleased session hlt, htrue]⟩
  · exact hprocs
  · rw [htrace]
    exact h.safe

/-- One more event on the trace. -/
theorem NoUseAfterRelease.concat {trace : List Event} {e : Event}
    (h : NoUseAfterRelease trace)
    (he : ∀ session, .closing .release session ∈ trace → ¬e.Uses session) :
    NoUseAfterRelease (trace ++ [e]) := by
  unfold NoUseAfterRelease
  rw [List.pairwise_append]
  refine ⟨h, List.pairwise_singleton _ _, ?_⟩
  intro a ha b hb session hrelease
  rw [List.mem_singleton] at hb
  subst hb
  exact he session (hrelease ▸ ha)

/-- A close path without a handler reports to none. -/
theorem no_handler_of_event {cfg : Config} {s : State R} {w session : Nat} {a : Action R}
    {path : List Closing} (hevent : ClosingEvent cfg w session a path)
    (hsafe : ReleaseSafe cfg s a) : .evtSessionRelease ∉ path := by
  cases hevent with
  | error => simp [recvClosing, hsafe.1 w session (Or.inl rfl)]
  | closed => simp [recvClosing, hsafe.1 w session (Or.inr rfl)]
  | epollErr => simp [errClosing]
  | epollOther => simp [otherClosing]

/-- A worker that moves to a place outside the close paths adds no handler. -/
theorem ReleaseInv.no_handler_setProc {s : State R} (h : ReleaseInv s) {w : Nat}
    {pc : ProcPc} (hpc : ∀ session rest, pc = .closing session rest →
      .evtSessionRelease ∉ rest) (v session : Nat) (rest : List Closing)
    (hproc : Function.update s.procs w pc v = .closing session rest) :
    .evtSessionRelease ∉ rest := by
  by_cases hv : v = w
  · subst hv
    rw [Function.update_self] at hproc
    exact hpc session rest hproc
  · rw [Function.update_of_ne hv] at hproc
    exact h.no_handler v session rest hproc

/-- A step that only moves a worker, and to no report to a handler. -/
theorem ReleaseInv.set_proc {s : State R} (h : ReleaseInv s) {w : Nat} {pc : ProcPc}
    (hbase : Inv (s.setProc w pc))
    (hpc : ∀ session rest, pc = .closing session rest → .evtSessionRelease ∉ rest) :
    ReleaseInv (s.setProc w pc) :=
  h.of_silent hbase rfl (le_refl _) (fun _ _ => rfl) (fun _ _ hp => Or.inl hp)
    (h.no_handler_setProc hpc)

/-- Receiving and framing change nothing about releases. -/
theorem ReleaseInv.update_recv {s : State R} (h : ReleaseInv s) {w session : Nat}
    {r : Receiver R} {pc : ProcPc}
    (hbase : Inv ((s.setSession session { s.sessions session with recv := r }).setProc w pc))
    (hpc : pc = .waiting ∨ ∃ fpc, pc = .framing session fpc) :
    ReleaseInv
      ((s.setSession session { s.sessions session with recv := r }).setProc w pc) := by
  refine h.of_silent hbase rfl (le_refl _) ?_ (fun _ _ hp => Or.inl hp) ?_
  · intro x _
    by_cases hx : x = session
    · subst hx
      simp
    · simp [hx]
  · apply h.no_handler_setProc
    rintro x rest rfl
    rcases hpc with hpc | ⟨fpc, hpc⟩ <;> contradiction

/-- A step of closing a session. -/
theorem closingStep_releaseInv {cfg : Config} {s : State R} (h : ReleaseInv s)
    {w session : Nat} {what : Closing} {rest : List Closing}
    (hsafe : ReleaseSafe cfg s (.worker w))
    (hproc : s.procs w = .closing session (what :: rest)) :
    ReleaseInv (s.closingStep w session what rest) := by
  have hhandler := h.no_handler w session _ hproc
  constructor
  · exact closingStep_inv h.base hproc
  · intro v p hp
    rw [h.base.released_closingStep hsafe.2 hproc hp]
    exact h.live v p hp
  · intro x hmem
    rcases List.mem_append.mp hmem with hold | hnew
    · rcases h.recorded x hold with ⟨hx, htrue⟩
      exact ⟨hx, by rw [sessions_closingStep_released, htrue, Bool.true_or]⟩
    · rw [List.mem_singleton] at hnew
      cases hnew
      exact ⟨(h.base.proc_at hproc).2.1, by simp⟩
  · apply h.no_handler_setProc
    intro x rest' heq
    cases heq
    exact fun hmem => hhandler (List.mem_cons_of_mem _ hmem)
  · apply h.safe.concat
    intro x hx huses
    cases what with
    | evtSessionRelease => exact hhandler List.mem_cons_self
    | epollDel => exact huses
    | close => exact huses
    | onDisconnect => exact huses
    | release => exact huses

/-- A step of the application thread. -/
theorem appStep_releaseInv {s : State R} (h : ReleaseInv s) {threads : Nat} {readFirst : Bool}
    {t : AppThread.State Nat Call}
    (hstep : AppThread.step threads s.handoff (.app readFirst) = some t)
    (hbase : Inv { s with handoff := t, trace := s.trace ++ s.appCall }) :
    ReleaseInv { s with handoff := t, trace := s.trace ++ s.appCall } := by
  have houtstanding : ∀ w, ∀ p ∈ (t.lanes w).outstanding,
      p ∈ (s.handoff.lanes w).outstanding := by
    intro w p hp
    exact AppThread.step_outstanding_of_ne_frame hstep (by simp) hp
  rcases appCall_cases h.base with hnone | ⟨i, session, message, hcall, hmem⟩
  · refine h.of_silent hbase ?_ (le_refl _) (fun _ _ => rfl) ?_ h.no_handler
    · rw [hnone, List.append_nil]
    · exact fun w p hp => Or.inl (houtstanding w p hp)
  · have hlive := h.live i _ hmem
    rw [hcall] at hbase ⊢
    constructor
    · exact hbase
    · exact fun w p hp => h.live w p (houtstanding w p hp)
    · intro x hx
      rcases List.mem_append.mp hx with hold | hnew
      · exact h.recorded x hold
      · simp at hnew
    · exact h.no_handler
    · apply h.safe.concat
      intro x hx huses
      have heq : session = x := huses
      subst heq
      rw [(h.recorded session hx).2] at hlive
      contradiction

/-- Safe steps keep released sessions out of reach. -/
theorem step_releaseInv {cfg : Config} {s s' : State R} {a : Action R} (h : ReleaseInv s)
    (hsafe : ReleaseSafe cfg s a) (hstep : step cfg s a = some s') : ReleaseInv s' := by
  have hbase := step_inv h.base hstep
  cases step_cases hstep with
  | accept w garbage =>
      refine h.of_silent hbase rfl (Nat.le_succ _) ?_ (fun _ _ hp => Or.inl hp) h.no_handler
      intro x hx
      simp [State.accept, Nat.ne_of_lt hx]
  | received w session chunk r v hready hdata =>
      exact h.update_recv hbase (Or.inr ⟨_, rfl⟩)
  | closingEvent w session a path hready hevent =>
      apply h.set_proc hbase
      intro x rest heq
      cases heq
      exact no_handler_of_event hevent hsafe
  | fault w a hproc => exact h.set_proc hbase (by simp)
  | deliver w session v v' c t hproc hmessage hframe =>
      refine h.of_silent hbase rfl (le_refl _) (fun _ _ => rfl) ?_
        (h.no_handler_setProc (by simp))
      intro u p hp
      rcases AppThread.step_outstanding hframe hp with hold | hnew
      · exact Or.inl hold
      · cases hnew
        exact Or.inr (h.base.proc_at hproc).2.not_released
  | frame w session pc r next hproc hframe =>
      exact h.update_recv hbase (afterFrame_cases session next)
  | handed w session v hproc hidle => exact h.set_proc hbase (by simp)
  | handing w session v t hproc hhandoff =>
      refine h.of_silent hbase rfl (le_refl _) (fun _ _ => rfl) ?_ h.no_handler
      intro u p hp
      exact Or.inl (AppThread.step_outstanding_of_ne_frame hhandoff (by simp) hp)
  | closed w session hproc => exact h.set_proc hbase (by simp)
  | closing w session what rest hproc => exact closingStep_releaseInv h hsafe hproc
  | app readFirst t hhandoff => exact appStep_releaseInv h hhandoff hbase

/-- If no step of a run closes a session on a {lit}`recv` result with a handler to
report it to, or releases a session with a package under way, then no callback of the
run is given a released session. -/
theorem no_use_after_release (cfg : Config) (garbage : Buf UInt8 R.val)
    (records : Nat → Fin 101 → Obj) (acts : List (Action R))
    (hsafe : EachStep (step cfg) (ReleaseSafe cfg) (start garbage records) acts) :
    Always (step cfg) (fun s => NoUseAfterRelease s.trace) (start garbage records) acts :=
  always_of_eachStep (fun _ _ _ h hok hstep => step_releaseInv h hok hstep)
    (fun _ h => h.safe) (start_releaseInv garbage records) hsafe

/-- One worker, packets of two bytes, and possibly a handler. -/
def oneWorker (evtHandler : Bool) : Config :=
  ⟨1, evtHandler, twoByteFrames⟩

/-- The service before its first session. -/
def fresh : State four :=
  start (.replicate 4 9) fun _ _ => 0

/-- A session is accepted and its peer closes it. -/
def peerCloses : List (Action four) :=
  [.accept 0 (.replicate 4 9), .epollIn 0 0 .closed] ++ List.replicate 5 (.worker 0)

/-- A packet is handed over and delivered, and then its session's peer closes it. -/
def closedAfterDelivery : List (Action four) :=
  [.accept 0 (.replicate 4 9), .epollIn 0 0 (.data [1, 2])] ++
    List.replicate 54 (.worker 0) ++ List.replicate 9 (.app true) ++ [.epollIn 0 0 .closed] ++
    List.replicate 5 (.worker 0)

/-- The step releases no session, or there is no package of the worker under way. -/
def State.releasesIdle (w : Nat) (s : State R) : Action R → Bool
  | .worker v =>
      match s.procs v with
      | .closing _ (.release :: _) => (s.handoff.undelivered w).isEmpty
      | _ => true
  | _ => true

/-- No packet gets on its way for an index that no worker has. -/
theorem step_outstanding_of_le {cfg : Config} {s s' : State R} {a : Action R}
    (h : step cfg s a = some s') {w : Nat} (hw : cfg.threads ≤ w) {p : Nat × Call}
    (hp : p ∈ (s'.handoff.lanes w).outstanding) : p ∈ (s.handoff.lanes w).outstanding := by
  cases step_cases h with
  | deliver _ _ _ _ _ _ _ _ hframe => exact AppThread.step_outstanding_of_le hframe hw hp
  | handing _ _ _ _ _ hhandoff => exact AppThread.step_outstanding_of_le hhandoff hw hp
  | app _ _ hhandoff => exact AppThread.step_outstanding_of_le hhandoff hw hp
  | _ => exact hp

theorem run_undelivered_of_le {cfg : Config} {garbage : Buf UInt8 R.val}
    {records : Nat → Fin 101 → Obj} {acts : List (Action R)} {s : State R}
    (hrun : run (step cfg) (start garbage records) acts = some s) {w : Nat}
    (hw : cfg.threads ≤ w) : s.handoff.undelivered w = [] := by
  have hstep : ∀ (s : State R) a s', (∀ p, p ∉ (s.handoff.lanes w).outstanding) →
      step cfg s a = some s' → ∀ p, p ∉ (s'.handoff.lanes w).outstanding := by
    intro s a s' h hs' p hp
    exact h p (step_outstanding_of_le hs' hw hp)
  have hstart : ∀ p, p ∉ ((start garbage records).handoff.lanes w).outstanding := by
    intro p hp
    cases hp
  have houtstanding := run_invariant hstep hstart hrun
  have hpending : (s.handoff.lanes w).pending = [] :=
    List.eq_nil_iff_forall_not_mem.mpr fun p hp =>
      houtstanding p (List.mem_append_left _ hp)
  have hinv := run_invariant (fun _ _ _ => step_inv) (start_inv garbage records) hrun
  rw [hinv.handoff.undelivered_eq, hpending]
  rfl

theorem no_use_after_release_closedAfterDelivery :
    Always (step (oneWorker false)) (fun s => NoUseAfterRelease s.trace) fresh
        closedAfterDelivery ∧
      (run (step (oneWorker false)) fresh closedAfterDelivery).map (·.trace) =
        some [.onMessage 0 ⟨0, 2, [1, 2]⟩ (some [1, 2]), .closing .epollDel 0, .closing .close 0,
          .closing .onDisconnect 0, .closing .release 0] := by
  have hidle : EachStep (step (oneWorker false)) (fun s a => s.releasesIdle 0 a = true) fresh
      closedAfterDelivery :=
    eachStep_of_checkSteps (fun _ _ h => h) (by decide)
  refine ⟨no_use_after_release _ _ _ _ ?_, by decide⟩
  intro pre a t t' hpre hrun hstep
  refine ⟨fun _ _ _ => rfl, ?_⟩
  rintro w session rest rfl hproc v m hm
  have hnone : t.handoff.undelivered v = [] := by
    cases v with
    | zero =>
        have hzero := hidle pre _ t t' hpre hrun hstep
        simpa only [State.releasesIdle, hproc, List.isEmpty_iff] using hzero
    | succ v => exact run_undelivered_of_le hrun (Nat.succ_pos v)
  rw [hnone] at hm
  cases hm

/-- A packet is handed over and its session closed before the application thread takes
its first step. -/
def closedBeforeDelivery : List (Action four) :=
  [.accept 0 (.replicate 4 9), .epollIn 0 0 (.data [1, 2])] ++
    List.replicate 54 (.worker 0) ++ [.epollIn 0 0 .closed] ++
    List.replicate 5 (.worker 0) ++ List.replicate 8 (.app true)

/-- A package outlives its session: {lit}`on_message` is called on a session that was
released, without any handler.  And with a handler, closing a session is enough: the
worker releases it and then reports it. -/
theorem released_session_used :
    (∃ s, run (step (oneWorker false)) fresh closedBeforeDelivery = some s ∧
      ¬NoUseAfterRelease s.trace) ∧
    (∃ s, run (step (oneWorker true)) fresh peerCloses = some s ∧
      ¬NoUseAfterRelease s.trace) := by
  have hpackage : (run (step (oneWorker false)) fresh closedBeforeDelivery).map (·.trace) =
      some [.closing .epollDel 0, .closing .close 0, .closing .onDisconnect 0,
        .closing .release 0, .onMessage 0 ⟨0, 2, [1, 2]⟩ none] := by
    decide
  have hhandler : (run (step (oneWorker true)) fresh peerCloses).map (·.trace) =
      some [.closing .epollDel 0, .closing .close 0, .closing .onDisconnect 0,
        .closing .release 0, .closing .evtSessionRelease 0] := by
    decide
  rcases Option.map_eq_some_iff.mp hpackage with ⟨s, hs, htrace⟩
  rcases Option.map_eq_some_iff.mp hhandler with ⟨s', hs', htrace'⟩
  refine ⟨⟨s, hs, ?_⟩, ⟨s', hs', ?_⟩⟩
  · rw [htrace]
    simp [NoUseAfterRelease, Event.Uses]
  · rw [htrace']
    simp [NoUseAfterRelease, Event.Uses]

end Processor
end TinyNet
