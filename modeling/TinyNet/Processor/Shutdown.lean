import TinyNet.Library.StepSystem

/-!
# Stopping the processor

{lit}`Processor::stop` of {lit}`detail/epollnet.hpp` clears {lit}`isRunning`, joins the
workers, deletes the message queues and joins the application thread, in this order.  A
worker looks at {lit}`isRunning` only between two calls of {lit}`epoll_wait`, which has no
time limit; {lit}`app_run` looks at it only between two passes over the queues, and has no
{lit}`return` after its loop.  This file runs {lit}`stop` against any number of workers and
the application thread, one step at a time.

Main results:

- Theorem {lit}`stop_outcome`: no worker touches a deleted queue; {lit}`stop` returns only
  with an application thread that can end, and then every thread has ended; once the workers
  have ended it gets to its last {lit}`join`, which throws without an application thread.
- Theorem {lit}`stop_blocked`: while a worker waits for an event, {lit}`stop` does not get
  past the {lit}`join` of it.
- Theorem {lit}`app_clear_iff`: no deleted queue is left for the application thread to use
  exactly if each queue is deleted when the thread is past it, and no pass begins over
  deleted queues.
-/

namespace TinyNet
namespace Processor
namespace Shutdown

open Library.StepSystem

/-- What the compiled {lit}`app_run` does when {lit}`isRunning` is false.  It is declared to
return a {lit}`void *` and has no {lit}`return`, so leaving its loop is undefined: unoptimised
code ends the thread there, optimised code drops the test and goes on with the loop. -/
inductive FlowOff where
  | ends
  | goesOn
deriving DecidableEq

/-- What {lit}`Processor::start` was given, the number of workers and
{lit}`config.app_run`, and how {lit}`app_run` is compiled. -/
structure Config where
  threads : Nat
  appRun : Bool
  flowOff : FlowOff
deriving DecidableEq

/-- Where {lit}`Processor::run` stands: at the test of {lit}`isRunning`, in
{lit}`epoll_wait`, with some events of a batch left to handle, or past its loop. -/
inductive WorkerPc where
  | test
  | wait
  | handle (left : Nat)
  | ended
deriving DecidableEq

/-- Where {lit}`Processor::app_run` stands: at the test of {lit}`isRunning`, before or
inside the use of queue {lit}`i` of a pass that ends at {lit}`stop`, or past its loop. -/
inductive AppPc where
  | notStarted
  | test
  | pass (i stop : Nat)
  | use (i stop : Nat)
  | ended
deriving DecidableEq

/-- Where {lit}`Processor::stop` stands. -/
inductive MainPc where
  | idle
  | clear
  | close
  | join (i : Nat)
  | delete (i : Nat)
  | clearQueues
  | joinApp
  | returned
  | threw
deriving DecidableEq

/-- The members that {lit}`stop` shares with the threads.  {lit}`msgQueues` is the length
of the vector, and the first {lit}`deleted` queues have been deleted. -/
structure State where
  isRunning : Bool
  procThreads : Nat → WorkerPc
  appThread : AppPc
  main : MainPc
  msgQueues : Nat
  deleted : Nat

/-- The thread that takes a step; {lit}`epoll_wait` returns {lit}`ret` if the step is a
return from it. -/
inductive Action where
  | worker (i : Nat) (ret : Int)
  | app
  | main
deriving DecidableEq

/-- The processor after {lit}`start`. -/
def started (cfg : Config) : State where
  isRunning := true
  procThreads _ := .test
  appThread := if cfg.appRun then .test else .notStarted
  main := .idle
  msgQueues := cfg.threads
  deleted := 0

/-- The next place of a worker; a negative {lit}`ret` is a failed wait. -/
def WorkerPc.next (isRunning : Bool) (ret : Int) : WorkerPc → Option WorkerPc
  | .test => some (if isRunning then .wait else .ended)
  | .wait => some (if ret < 0 then .test else .handle ret.toNat)
  | .handle 0 => some .test
  | .handle (left + 1) => some (.handle left)
  | .ended => none

/-- The next place of the application thread. -/
def AppPc.next (flowOff : FlowOff) (isRunning : Bool) (msgQueues : Nat) :
    AppPc → Option AppPc
  | .notStarted => none
  | .test =>
      some (if isRunning = true ∨ flowOff = .goesOn then .pass 0 msgQueues else .ended)
  | .pass i stop => some (if i < stop then .use i stop else .test)
  | .use i stop => some (.pass (i + 1) stop)
  | .ended => none

/-- One step of {lit}`stop`; {lit}`join` waits for its thread, and throws if there is
none. -/
def mainStep (cfg : Config) (s : State) : Option State :=
  match s.main with
  | .idle => some { s with main := if s.isRunning then .clear else .returned }
  | .clear => some { s with isRunning := false, main := .close }
  | .close => some { s with main := .join 0 }
  | .join i =>
      if i < cfg.threads then
        if s.procThreads i = .ended then some { s with main := .join (i + 1) } else none
      else some { s with main := .delete 0 }
  | .delete i =>
      if i < s.msgQueues then some { s with main := .delete (i + 1), deleted := i + 1 }
      else some { s with main := .clearQueues }
  | .clearQueues => some { s with main := .joinApp, msgQueues := 0 }
  | .joinApp =>
      match s.appThread with
      | .notStarted => some { s with main := .threw }
      | .ended => some { s with main := .returned }
      | _ => none
  | .returned => none
  | .threw => none

/-- One step of a thread. -/
def step (cfg : Config) (s : State) : Action → Option State
  | .worker i ret =>
      if i < cfg.threads then
        ((s.procThreads i).next s.isRunning ret).map fun pc =>
          { s with procThreads := Function.update s.procThreads i pc }
      else none
  | .app =>
      (s.appThread.next cfg.flowOff s.isRunning s.msgQueues).map fun pc =>
        { s with appThread := pc }
  | .main => mainStep cfg s

/-- The queue that a step of a worker or of the application thread touches. -/
def touches (cfg : Config) (s : State) : Action → Option Nat
  | .worker i _ =>
      match s.procThreads i with
      | .handle (_ + 1) => if cfg.appRun then some i else none
      | _ => none
  | .app =>
      match s.appThread with
      | .pass i stop => if i < stop then some i else none
      | .use i _ => some i
      | _ => none
  | .main => none

/-- The queue has not been deleted. -/
def State.Alive (s : State) (q : Nat) : Prop :=
  s.deleted ≤ q

/-! ## How far {lit}`stop` has got -/

/-- How many workers have been joined. -/
def MainPc.joined (cfg : Config) : MainPc → Nat
  | .idle => 0
  | .clear => 0
  | .close => 0
  | .join i => i
  | _ => cfg.threads

/-- How many queues have been deleted. -/
def MainPc.deleted (cfg : Config) : MainPc → Nat
  | .idle => 0
  | .clear => 0
  | .close => 0
  | .join _ => 0
  | .delete i => i
  | _ => cfg.threads

/-- The length of {lit}`msgQueues`. -/
def MainPc.queues (cfg : Config) : MainPc → Nat
  | .joinApp => 0
  | .returned => 0
  | .threw => 0
  | _ => cfg.threads

/-- {lit}`stop` has not cleared {lit}`isRunning`. -/
def MainPc.running : MainPc → Bool
  | .idle => true
  | .clear => true
  | _ => false

/-- How many steps {lit}`stop` has left. -/
def MainPc.left (cfg : Config) : MainPc → Nat
  | .idle => cfg.threads + (cfg.threads + 7)
  | .clear => cfg.threads + (cfg.threads + 6)
  | .close => cfg.threads + (cfg.threads + 5)
  | .join i => (cfg.threads - i) + (cfg.threads + 4)
  | .delete i => (cfg.threads - i) + 3
  | .clearQueues => 2
  | .joinApp => 1
  | _ => 0

/-- The application thread ends only where it flows off its loop. -/
theorem AppPc.next_cases {flowOff : FlowOff} {isRunning : Bool} {msgQueues : Nat}
    {pc pc' : AppPc} (h : pc.next flowOff isRunning msgQueues = some pc') :
    pc' ≠ .notStarted ∧ (pc' = .ended → isRunning = false ∧ flowOff = .ends) := by
  cases pc with
  | test =>
      simp only [next, Option.some.injEq] at h
      subst h
      split
      · simp
      · rename_i hstop
        cases flowOff <;> simp_all
  | pass i stop =>
      simp only [next, Option.some.injEq] at h
      subst h
      split <;> simp
  | use i stop =>
      simp only [next, Option.some.injEq] at h
      subst h
      simp
  | notStarted | ended => contradiction

/-- What holds between any two steps. -/
structure Inv (cfg : Config) (s : State) : Prop where
  isRunning : s.isRunning = s.main.running
  joined : ∀ i, i < s.main.joined cfg → s.procThreads i = .ended
  joined_le : s.main.joined cfg ≤ cfg.threads
  deleted : s.deleted = s.main.deleted cfg
  deleted_le : s.deleted ≤ cfg.threads
  queues : s.msgQueues = s.main.queues cfg
  app : s.appThread = .notStarted ↔ cfg.appRun = false
  ended : s.appThread = .ended → cfg.flowOff = .ends
  returned : s.main = .returned → s.appThread = .ended
  threw : s.main = .threw → s.appThread = .notStarted

theorem started_inv (cfg : Config) : Inv cfg (started cfg) := by
  constructor <;> cases happRun : cfg.appRun <;>
    simp [started, happRun, MainPc.running, MainPc.joined, MainPc.deleted, MainPc.queues]

namespace Inv

variable {cfg : Config} {s s' : State}

/-- Nothing is deleted before every worker is joined. -/
theorem joined_of_deleted (h : Inv cfg s) (hdeleted : 0 < s.deleted) :
    s.main.joined cfg = cfg.threads := by
  have hmain := h.deleted
  cases hpc : s.main <;> simp_all [MainPc.deleted, MainPc.joined]

/-- A worker that has not ended finds no queue deleted. -/
theorem deleted_eq_zero (h : Inv cfg s) {i : Nat} (hi : i < cfg.threads)
    (hpc : s.procThreads i ≠ .ended) : s.deleted = 0 := by
  by_contra hdeleted
  have hjoined := h.joined_of_deleted (by omega)
  exact hpc (h.joined i (by omega))

/-- A step of a worker. -/
theorem worker (h : Inv cfg s) {i : Nat} {ret : Int}
    (hstep : step cfg s (.worker i ret) = some s') : Inv cfg s' := by
  simp only [step] at hstep
  split at hstep
  · rcases Option.map_eq_some_iff.mp hstep with ⟨pc, hpc, rfl⟩
    refine ⟨h.isRunning, ?_, h.joined_le, h.deleted, h.deleted_le, h.queues, h.app,
      h.ended, h.returned, h.threw⟩
    intro j hj
    have hended := h.joined j hj
    by_cases hij : j = i
    · subst hij
      rw [hended] at hpc
      contradiction
    · simpa [hij] using hended
  · contradiction

/-- A step of the application thread. -/
theorem app_step (h : Inv cfg s) (hstep : step cfg s .app = some s') : Inv cfg s' := by
  rcases Option.map_eq_some_iff.mp hstep with ⟨pc, hpc, rfl⟩
  have hstarted : s.appThread ≠ .notStarted := by
    intro hnone
    rw [hnone] at hpc
    contradiction
  rcases AppPc.next_cases hpc with ⟨hnext, hended⟩
  refine ⟨h.isRunning, h.joined, h.joined_le, h.deleted, h.deleted_le, h.queues, ?_,
    fun hpc => (hended hpc).2, ?_, ?_⟩
  · simp only [hnext, false_iff]
    exact fun hrun => hstarted (h.app.mpr hrun)
  · intro hmain
    rw [h.returned hmain] at hpc
    contradiction
  · intro hmain
    exact absurd (h.threw hmain) hstarted

/-- A step of {lit}`stop` that only moves on. -/
theorem goto (h : Inv cfg s) {pc : MainPc} (hrunning : pc.running = s.main.running)
    (hjoined : ∀ i, i < pc.joined cfg → s.procThreads i = .ended)
    (hle : pc.joined cfg ≤ cfg.threads) (hdeleted : pc.deleted cfg = s.main.deleted cfg)
    (hqueues : pc.queues cfg = s.main.queues cfg)
    (hreturned : pc = .returned → s.appThread = .ended)
    (hthrew : pc = .threw → s.appThread = .notStarted) :
    Inv cfg { s with main := pc } :=
  ⟨h.isRunning.trans hrunning.symm, hjoined, hle, h.deleted.trans hdeleted.symm,
    h.deleted_le, h.queues.trans hqueues.symm, h.app, h.ended, hreturned, hthrew⟩

/-- A step of {lit}`stop`. -/
theorem main_step (h : Inv cfg s) (hstep : step cfg s .main = some s') : Inv cfg s' := by
  have hstep : mainStep cfg s = some s' := hstep
  have hrunning := h.isRunning
  have hjoined := h.joined
  have hle := h.joined_le
  have hdeleted := h.deleted
  have hdeletedLe := h.deleted_le
  have hqueues := h.queues
  cases hpc : s.main with
  | idle =>
      have hset : s.isRunning = true := by rw [hrunning, hpc]; rfl
      simp only [mainStep, hpc, if_pos hset, Option.some.injEq] at hstep
      subst hstep
      exact h.goto (by rw [hpc]; rfl) (by simp [MainPc.joined]) (Nat.zero_le _)
        (by rw [hpc]; rfl) (by rw [hpc]; rfl) nofun nofun
  | clear =>
      simp only [mainStep, hpc, Option.some.injEq] at hstep
      subst hstep
      rw [hpc] at hdeleted hqueues
      exact ⟨rfl, by simp [MainPc.joined], Nat.zero_le _, hdeleted, hdeletedLe, hqueues,
        h.app, h.ended, nofun, nofun⟩
  | close =>
      simp only [mainStep, hpc, Option.some.injEq] at hstep
      subst hstep
      exact h.goto (by rw [hpc]; rfl) (by simp [MainPc.joined]) (Nat.zero_le _)
        (by rw [hpc]; rfl) (by rw [hpc]; rfl) nofun nofun
  | join i =>
      simp only [mainStep, hpc] at hstep
      rw [hpc] at hjoined hle
      split at hstep
      · rename_i hi
        split at hstep
        · rename_i hended
          simp only [Option.some.injEq] at hstep
          subst hstep
          refine h.goto (by rw [hpc]; rfl) ?_ hi (by rw [hpc]; rfl) (by rw [hpc]; rfl)
            nofun nofun
          intro j hj
          rcases Nat.lt_succ_iff_lt_or_eq.mp hj with hlt | rfl
          · exact hjoined j hlt
          · exact hended
        · contradiction
      · rename_i hi
        simp only [Option.some.injEq] at hstep
        subst hstep
        have hall : i = cfg.threads := by
          simp only [MainPc.joined] at hle
          omega
        exact h.goto (by rw [hpc]; rfl) (fun j hj => hjoined j (hall ▸ hj)) le_rfl
          (by rw [hpc]; rfl) (by rw [hpc]; rfl) nofun nofun
  | delete i =>
      simp only [mainStep, hpc] at hstep
      rw [hpc] at hjoined hdeleted hqueues
      simp only [MainPc.deleted] at hdeleted
      simp only [MainPc.queues] at hqueues
      split at hstep
      · simp only [Option.some.injEq] at hstep
        subst hstep
        exact ⟨by rw [hrunning, hpc]; rfl, hjoined, le_rfl, rfl, by simp only; omega, hqueues,
          h.app, h.ended, nofun, nofun⟩
      · simp only [Option.some.injEq] at hstep
        subst hstep
        refine h.goto (by rw [hpc]; rfl) hjoined le_rfl ?_ (by rw [hpc]; rfl) nofun nofun
        rw [hpc]
        simp only [MainPc.deleted]
        omega
  | clearQueues =>
      simp only [mainStep, hpc, Option.some.injEq] at hstep
      subst hstep
      rw [hpc] at hjoined hdeleted hrunning
      exact ⟨hrunning, hjoined, le_rfl, hdeleted, hdeletedLe, rfl, h.app, h.ended, nofun,
        nofun⟩
  | joinApp =>
      simp only [mainStep, hpc] at hstep
      rw [hpc] at hjoined
      split at hstep
      · rename_i happ
        simp only [Option.some.injEq] at hstep
        subst hstep
        exact h.goto (by rw [hpc]; rfl) hjoined le_rfl (by rw [hpc]; rfl) (by rw [hpc]; rfl)
          nofun fun _ => happ
      · rename_i happ
        simp only [Option.some.injEq] at hstep
        subst hstep
        exact h.goto (by rw [hpc]; rfl) hjoined le_rfl (by rw [hpc]; rfl) (by rw [hpc]; rfl)
          (fun _ => happ) nofun
      · contradiction
  | returned => simp [mainStep, hpc] at hstep
  | threw => simp [mainStep, hpc] at hstep

end Inv

/-- A step of any thread. -/
theorem step_inv {cfg : Config} {s s' : State} {a : Action} (h : Inv cfg s)
    (hstep : step cfg s a = some s') : Inv cfg s' := by
  cases a with
  | worker i ret => exact h.worker hstep
  | app => exact h.app_step hstep
  | main => exact h.main_step hstep

/-! ## How {lit}`stop` ends -/

/-- A step of {lit}`stop` moves no other thread, and deletes nothing or the next queue. -/
theorem mainStep_frame {cfg : Config} {s s' : State} (hstep : mainStep cfg s = some s') :
    s'.procThreads = s.procThreads ∧ s'.appThread = s.appThread ∧
      (s'.deleted = s.deleted ∨
        ∃ q, s.main = .delete q ∧ q < s.msgQueues ∧ s'.deleted = q + 1) := by
  unfold mainStep at hstep
  split at hstep
  case h_5 q hpc =>
    split at hstep
    · cases hstep
      exact ⟨rfl, rfl, Or.inr ⟨q, hpc, by assumption, rfl⟩⟩
    · cases hstep
      exact ⟨rfl, rfl, Or.inl rfl⟩
  case h_4 =>
    split at hstep
    · split at hstep
      · cases hstep
        exact ⟨rfl, rfl, Or.inl rfl⟩
      · contradiction
    · cases hstep
      exact ⟨rfl, rfl, Or.inl rfl⟩
  case h_7 =>
    split at hstep
    · cases hstep
      exact ⟨rfl, rfl, Or.inl rfl⟩
    · cases hstep
      exact ⟨rfl, rfl, Or.inl rfl⟩
    · contradiction
  all_goals
    first
    | contradiction
    | (cases hstep; exact ⟨rfl, rfl, Or.inl rfl⟩)

/-- A worker that touches its queue has not been joined. -/
theorem Inv.worker_touches_alive {cfg : Config} {s s' : State} {i : Nat} {ret : Int}
    (h : Inv cfg s) (hstep : step cfg s (.worker i ret) = some s') {q : Nat}
    (htouches : touches cfg s (.worker i ret) = some q) : s.Alive q := by
  simp only [step] at hstep
  split at hstep
  · rename_i hi
    have hpc : s.procThreads i ≠ .ended := by
      intro hended
      simp [touches, hended] at htouches
    rw [State.Alive, h.deleted_eq_zero hi hpc]
    exact Nat.zero_le q
  · contradiction

/-- Every worker has ended and every queue is deleted. -/
def State.Stopped (cfg : Config) (s : State) : Prop :=
  (∀ i, i < cfg.threads → s.procThreads i = .ended) ∧ s.deleted = cfg.threads

/-- Where {lit}`stop` comes to when only the application thread can hold it up: to its return
if that thread has ended, to the {lit}`join` of it if not, and to an exception if there is
none. -/
def State.outcome (cfg : Config) (s : State) : MainPc :=
  if cfg.appRun then if s.appThread = .ended then .returned else .joinApp else .threw

/-- How {lit}`stop` ends. -/
structure Outcome (cfg : Config) (s : State) : Prop where
  returned : s.main = .returned →
    cfg.appRun = true ∧ cfg.flowOff = .ends ∧ s.appThread = .ended ∧ s.Stopped cfg
  threw : s.main = .threw → cfg.appRun = false ∧ s.Stopped cfg
  ends : (∀ i, i < cfg.threads → s.procThreads i = .ended) →
    ∃ n s', run (step cfg) s (List.replicate n .main) = some s' ∧ s'.main = s.outcome cfg

/-- There is an application thread if it has got anywhere. -/
theorem Inv.appRun_eq_true {cfg : Config} {s : State} (h : Inv cfg s)
    (happ : s.appThread ≠ .notStarted) : cfg.appRun = true := by
  rw [← Bool.not_eq_false, ← h.app]
  exact happ

/-- When the workers have ended, {lit}`stop` is where it comes to or takes its next step. -/
theorem Inv.main_progress {cfg : Config} {s : State} (h : Inv cfg s)
    (hworkers : ∀ i, i < cfg.threads → s.procThreads i = .ended) :
    s.main = s.outcome cfg ∨
      ∃ s', mainStep cfg s = some s' ∧ s'.main.left cfg < s.main.left cfg := by
  have hrunning := h.isRunning
  have hqueues := h.queues
  cases hpc : s.main with
  | idle =>
      rw [hpc] at hrunning
      refine Or.inr ⟨{ s with main := .clear }, ?_, by simp only [MainPc.left]; omega⟩
      simp only [mainStep, hpc, hrunning, MainPc.running, if_true]
  | clear =>
      refine Or.inr ⟨{ s with isRunning := false, main := .close }, ?_,
        by simp only [MainPc.left]; omega⟩
      simp only [mainStep, hpc]
  | close =>
      refine Or.inr ⟨{ s with main := .join 0 }, ?_, by simp only [MainPc.left]; omega⟩
      simp only [mainStep, hpc]
  | join i =>
      right
      by_cases hi : i < cfg.threads
      · refine ⟨{ s with main := .join (i + 1) }, ?_, by simp only [MainPc.left]; omega⟩
        simp only [mainStep, hpc, if_pos hi, hworkers i hi, if_true]
      · refine ⟨{ s with main := .delete 0 }, ?_, by simp only [MainPc.left]; omega⟩
        simp only [mainStep, hpc, if_neg hi]
  | delete i =>
      rw [hpc] at hqueues
      simp only [MainPc.queues] at hqueues
      right
      by_cases hi : i < s.msgQueues
      · refine ⟨{ s with main := .delete (i + 1), deleted := i + 1 }, ?_,
          by simp only [MainPc.left]; omega⟩
        simp only [mainStep, hpc, if_pos hi]
      · refine ⟨{ s with main := .clearQueues }, ?_, by simp only [MainPc.left]; omega⟩
        simp only [mainStep, hpc, if_neg hi]
  | clearQueues =>
      refine Or.inr ⟨{ s with main := .joinApp, msgQueues := 0 }, ?_, Nat.lt_succ_self 1⟩
      simp only [mainStep, hpc]
  | joinApp =>
      cases happ : s.appThread with
      | notStarted =>
          refine Or.inr ⟨{ s with main := .threw }, ?_, Nat.one_pos⟩
          simp only [mainStep, hpc, happ]
      | ended =>
          refine Or.inr ⟨{ s with main := .returned }, ?_, Nat.one_pos⟩
          simp only [mainStep, hpc, happ]
      | test | pass i stop | use i stop =>
          have hrun := h.appRun_eq_true (by simp [happ])
          simp [State.outcome, hrun, happ]
  | returned =>
      have happ := h.returned hpc
      have hrun := h.appRun_eq_true (by simp [happ])
      simp [State.outcome, hrun, happ]
  | threw =>
      have hrun := h.app.mp (h.threw hpc)
      simp [State.outcome, hrun]

theorem Inv.outcome {cfg : Config} {s : State} (h : Inv cfg s) : Outcome cfg s where
  returned hpc := by
    have hjoined := h.joined
    have hdeleted := h.deleted
    rw [hpc] at hjoined hdeleted
    have happ := h.returned hpc
    exact ⟨h.appRun_eq_true (by simp [happ]), h.ended happ, happ, hjoined, hdeleted⟩
  threw hpc := by
    have hjoined := h.joined
    have hdeleted := h.deleted
    rw [hpc] at hjoined hdeleted
    exact ⟨h.app.mp (h.threw hpc), hjoined, hdeleted⟩
  ends hworkers := by
    -- the steps of stop move no other thread, so what it comes to stays the same
    have hstep : ∀ t, (Inv cfg t ∧ t.procThreads = s.procThreads ∧
        t.appThread = s.appThread) → t.main = s.outcome cfg ∨
        ∃ t', step cfg t .main = some t' ∧ (Inv cfg t' ∧ t'.procThreads = s.procThreads ∧
          t'.appThread = s.appThread) ∧ t'.main.left cfg < t.main.left cfg := by
      rintro t ⟨ht, hthreads, happ⟩
      rcases ht.main_progress (by rw [hthreads]; exact hworkers) with
        hend | ⟨t', ht', hlt⟩
      · exact Or.inl (hend.trans (by simp only [State.outcome, happ]))
      · rcases mainStep_frame ht' with ⟨hthreads', happ', -⟩
        exact Or.inr ⟨t', ht', ⟨step_inv (a := .main) ht ht', hthreads'.trans hthreads,
          happ'.trans happ⟩, hlt⟩
    rcases exists_run_replicate (fun t : State => t.main.left cfg) hstep ⟨h, rfl, rfl⟩ with
      ⟨n, t, hrun, -, hend⟩
    exact ⟨n, t, hrun, hend⟩

/-- Whatever the threads do, no worker touches a queue that {lit}`stop` has deleted.  When
{lit}`stop` returns, every worker and the application thread have ended; this needs an
application thread, and an {lit}`app_run` that ends where it flows off its loop.  Once the
workers have ended, {lit}`stop` goes on by itself to its last {lit}`join`: this throws
without {lit}`config.app_run`, which is off by default, and waits for the application thread
otherwise. -/
theorem stop_outcome (cfg : Config) (acts : List Action) :
    EachStep (step cfg)
      (fun s a => ∀ i ret q, a = .worker i ret → touches cfg s a = some q → s.Alive q)
      (started cfg) acts ∧
    Always (step cfg) (Outcome cfg) (started cfg) acts := by
  constructor
  · intro pre a t t' hpre hrun hstep i ret q ha htouches
    subst ha
    have hinv : Inv cfg t := run_invariant (fun _ _ _ => step_inv) (started_inv cfg) hrun
    exact hinv.worker_touches_alive hstep htouches
  · exact always_of_invariant (fun _ _ _ => step_inv) (fun _ h => h.outcome)
      (started_inv cfg) acts

/-- A worker, and no application thread: {lit}`stop` is at the first {lit}`join` when the
worker ends, goes on and throws. -/
theorem stop_outcome_oneWorker :
    ∃ s n s', run (step ⟨1, false, .goesOn⟩) (started ⟨1, false, .goesOn⟩)
        [.worker 0 0, .main, .main, .main, .worker 0 1, .worker 0 0, .worker 0 0,
          .worker 0 0] = some s ∧
      s.main = .join 0 ∧
      run (step ⟨1, false, .goesOn⟩) s (List.replicate n .main) = some s' ∧
      s'.main = .threw := by
  have hrun : (run (step ⟨1, false, .goesOn⟩) (started ⟨1, false, .goesOn⟩)
      [.worker 0 0, .main, .main, .main, .worker 0 1, .worker 0 0, .worker 0 0,
        .worker 0 0]).map (fun s => (s.main, s.procThreads 0)) =
      some (.join 0, .ended) := by
    decide
  rcases Option.map_eq_some_iff.mp hrun with ⟨s, hs, heq⟩
  simp only [Prod.mk.injEq] at heq
  have hends := ((stop_outcome ⟨1, false, .goesOn⟩ _).2 _ s List.prefix_rfl hs).ends
  have hworkers : ∀ i, i < 1 → s.procThreads i = .ended := by
    intro i hi
    rw [Nat.lt_one_iff.mp hi]
    exact heq.2
  rcases hends hworkers with ⟨n, s', hs', hthrew⟩
  exact ⟨s, n, s', hs, heq.1, hs', hthrew⟩

/-- A step of another thread does not move a worker. -/
theorem step_procThreads {cfg : Config} {s s' : State} {a : Action} {i : Nat}
    (ha : ∀ ret, a ≠ .worker i ret) (hstep : step cfg s a = some s') :
    s'.procThreads i = s.procThreads i := by
  cases a with
  | worker j ret =>
      have hij : i ≠ j := by
        rintro rfl
        exact ha ret rfl
      simp only [step] at hstep
      split at hstep
      · rcases Option.map_eq_some_iff.mp hstep with ⟨pc, -, rfl⟩
        simp [hij]
      · contradiction
  | app =>
      rcases Option.map_eq_some_iff.mp hstep with ⟨pc, -, rfl⟩
      rfl
  | main => rw [(mainStep_frame hstep).1]

/-- A worker that is waiting for an event holds {lit}`stop` up: as long as its
{lit}`epoll_wait` does not return, whatever else happens, no queue is deleted and
{lit}`stop` neither returns nor throws.  Clearing {lit}`isRunning` and closing the epoll
descriptor of the listeners does not wake it. -/
theorem stop_blocked {cfg : Config} {before acts : List Action} {s s' : State} {i : Nat}
    (hi : i < cfg.threads) (hbefore : run (step cfg) (started cfg) before = some s)
    (hwait : s.procThreads i = .wait) (hquiet : ∀ ret, .worker i ret ∉ acts)
    (hrun : run (step cfg) s acts = some s') :
    s'.procThreads i = .wait ∧ s'.deleted = 0 ∧ s'.main ≠ .returned ∧ s'.main ≠ .threw := by
  have hinv : Inv cfg s' := by
    refine run_invariant (fun _ _ _ => step_inv) ?_ hrun
    exact run_invariant (fun _ _ _ => step_inv) (started_inv cfg) hbefore
  have hothers : EachStep (step cfg) (fun _ a => ∀ ret, a ≠ .worker i ret) s acts := by
    apply EachStep.of_forall_mem
    intro a ha ret heq
    exact hquiet ret (heq ▸ ha)
  have hkeep : ∀ (t : State) (a : Action) (t' : State), t.procThreads i = .wait →
      (∀ ret, a ≠ .worker i ret) → step cfg t a = some t' → t'.procThreads i = .wait :=
    fun t a t' ht hok hstep => (step_procThreads hok hstep).trans ht
  have hstill : s'.procThreads i = .wait :=
    run_invariant_of_eachStep hkeep hwait hothers hrun
  have hnot : ∀ pc : MainPc, pc.joined cfg = cfg.threads → s'.main ≠ pc := by
    intro pc hpc hmain
    have hended := hinv.joined i (by rw [hmain, hpc]; exact hi)
    rw [hstill] at hended
    contradiction
  exact ⟨hstill, hinv.deleted_eq_zero hi (by rw [hstill]; decide), hnot .returned rfl,
    hnot .threw rfl⟩

/-- One worker waits; {lit}`stop` is called and gets as far as its {lit}`join`. -/
theorem stop_blocked_oneWorker :
    ∃ s s', run (step ⟨1, true, .ends⟩) (started ⟨1, true, .ends⟩) [.worker 0 0] = some s ∧
      run (step ⟨1, true, .ends⟩) s [.main, .app, .main, .main, .app] = some s' ∧
      s'.main = .join 0 ∧ s'.deleted = 0 ∧ s'.main ≠ .returned := by
  have hbefore : (run (step ⟨1, true, .ends⟩) (started ⟨1, true, .ends⟩) [.worker 0 0]).map
      (fun s => (s.procThreads 0,
        (run (step ⟨1, true, .ends⟩) s [.main, .app, .main, .main, .app]).map State.main)) =
        some (.wait, some (.join 0)) := by
    decide
  rcases Option.map_eq_some_iff.mp hbefore with ⟨s, hs, heq⟩
  simp only [Prod.mk.injEq] at heq
  rcases Option.map_eq_some_iff.mp heq.2 with ⟨s', hs', hmain⟩
  have hmain' := stop_blocked Nat.one_pos hs heq.1 (by simp) hs'
  exact ⟨s, s', hs, hs', hmain, hmain'.2.1, hmain'.2.2.1⟩

/-! ## The application thread -/

/-- The queues that the pass of the application thread has still to use. -/
def AppPc.mayUse (q : Nat) : AppPc → Prop
  | .pass i stop => i ≤ q ∧ q < stop
  | .use i stop => q = i ∨ (i ≤ q ∧ q < stop)
  | _ => False

/-- The application thread has no deleted queue ahead of it. -/
def State.AppClear (s : State) : Prop :=
  ∀ q, q < s.deleted → ¬ s.appThread.mayUse q

/-- {lit}`stop` deletes a queue only when the application thread is past it; and if that
goes on after {lit}`isRunning` is cleared, it begins no pass between the first deletion and
{lit}`msgQueues.clear()`. -/
structure Careful (cfg : Config) (s : State) (a : Action) : Prop where
  delete : ∀ q, a = .main → s.main = .delete q → q < s.msgQueues → ¬ s.appThread.mayUse q
  pass : a = .app → s.appThread = .test → cfg.flowOff = .goesOn → 0 < s.deleted →
    s.msgQueues = 0

/-- The queue that the application thread touches is one that it may use. -/
theorem mayUse_of_touches {cfg : Config} {s : State} {q : Nat}
    (h : touches cfg s .app = some q) : s.appThread.mayUse q := by
  cases hpc : s.appThread with
  | pass i stop =>
      simp only [touches, hpc] at h
      split at h
      · cases h
        exact ⟨le_rfl, by assumption⟩
      · contradiction
  | use i stop =>
      simp only [touches, hpc, Option.some.injEq] at h
      exact Or.inl h.symm
  | _ => simp [touches, hpc] at h

/-- A step of the application thread brings no new queue ahead of it, unless it begins a
pass. -/
theorem AppPc.mayUse_of_next {flowOff : FlowOff} {pc pc' : AppPc} {msgQueues q : Nat}
    (h : pc.next flowOff false msgQueues = some pc') (huse : pc'.mayUse q) :
    pc.mayUse q ∨ (pc = .test ∧ flowOff = .goesOn ∧ q < msgQueues) := by
  cases pc with
  | notStarted => contradiction
  | test =>
      simp only [next, Bool.false_eq_true, false_or, Option.some.injEq] at h
      subst h
      split at huse
      · rename_i hgoesOn
        exact Or.inr ⟨rfl, hgoesOn, huse.2⟩
      · exact huse.elim
  | pass i stop =>
      simp only [next, Option.some.injEq] at h
      subst h
      split at huse
      · rename_i hi
        rcases huse with rfl | huse
        · exact Or.inl ⟨le_rfl, hi⟩
        · exact Or.inl huse
      · exact huse.elim
  | use i stop =>
      simp only [next, Option.some.injEq] at h
      subst h
      exact Or.inl (Or.inr ⟨by have hle := huse.1; omega, huse.2⟩)
  | ended => contradiction

/-- A step after which a deleted queue is ahead of the application thread deletes that
queue, begins a pass over it, or one was ahead before. -/
theorem step_appClear {cfg : Config} {s s' : State} {a : Action} (h : Inv cfg s)
    (hclear : s.AppClear) (hcareful : Careful cfg s a) (hstep : step cfg s a = some s') :
    s'.AppClear := by
  intro q hq huse
  cases a with
  | worker i ret =>
      simp only [step] at hstep
      split at hstep
      · rcases Option.map_eq_some_iff.mp hstep with ⟨pc, -, rfl⟩
        exact hclear q hq huse
      · contradiction
  | app =>
      rcases Option.map_eq_some_iff.mp hstep with ⟨pc, hpc, rfl⟩
      have hstopped : s.isRunning = false := by
        have hdeleted := h.deleted
        rw [h.isRunning]
        cases hmain : s.main <;> simp_all [MainPc.deleted, MainPc.running]
      rw [hstopped] at hpc
      rcases AppPc.mayUse_of_next hpc huse with hbefore | ⟨htest, hgoesOn, hlt⟩
      · exact hclear q hq hbefore
      · rw [hcareful.pass rfl htest hgoesOn (Nat.zero_lt_of_lt hq)] at hlt
        exact Nat.not_lt_zero q hlt
  | main =>
      rcases mainStep_frame hstep with ⟨-, happ, hsame | ⟨p, hmain, hlt, hdeleted⟩⟩
      · rw [hsame] at hq
        rw [happ] at huse
        exact hclear q hq huse
      · rw [hdeleted] at hq
        rw [happ] at huse
        have hprev := h.deleted
        rw [hmain] at hprev
        rcases Nat.lt_succ_iff_lt_or_eq.mp hq with hlt' | rfl
        · exact hclear q (hprev ▸ hlt') huse
        · exact hcareful.delete q rfl hmain hlt huse

/-- If no deleted queue is ahead of the application thread after a step, that neither
deleted a queue ahead of it nor began a pass over deleted queues. -/
theorem careful_of_appClear {cfg : Config} {s s' : State} {a : Action}
    (hstep : step cfg s a = some s') (hclear : s'.AppClear) : Careful cfg s a where
  delete := by
    rintro q rfl hmain hlt huse
    have hstep : mainStep cfg s = some s' := hstep
    simp only [mainStep, hmain, if_pos hlt, Option.some.injEq] at hstep
    subst hstep
    exact hclear q (Nat.lt_succ_self q) huse
  pass := by
    rintro rfl htest hgoesOn hdeleted
    simp only [step, htest, AppPc.next, hgoesOn, or_true, if_true, Option.map_some,
      Option.some.injEq] at hstep
    subst hstep
    by_contra hqueues
    exact hclear 0 hdeleted ⟨le_rfl, Nat.pos_of_ne_zero hqueues⟩

/-- Along every run, no deleted queue is ever ahead of the application thread exactly if
each queue is deleted when the thread is past it or out of its loop, and the thread begins
no pass over deleted queues; {lit}`stop` does not wait for either.  Then no thread touches a
deleted queue. -/
theorem app_clear_iff (cfg : Config) (acts : List Action) :
    (Always (step cfg) State.AppClear (started cfg) acts ↔
      EachStep (step cfg) (Careful cfg) (started cfg) acts) ∧
    (Always (step cfg) State.AppClear (started cfg) acts →
      EachStep (step cfg) (fun s a => ∀ q, touches cfg s a = some q → s.Alive q)
        (started cfg) acts) := by
  refine ⟨⟨fun halways => ?_, fun hsteps => ?_⟩, fun halways => ?_⟩
  · exact eachStep_of_always (fun _ _ _ => step_inv)
      (fun _ _ _ _ hstep hclear => careful_of_appClear hstep hclear)
      (started_inv cfg) halways
  · have hkeep : ∀ s a s', Inv cfg s ∧ s.AppClear → Careful cfg s a →
        step cfg s a = some s' → Inv cfg s' ∧ s'.AppClear :=
      fun s a s' hs hok hstep => ⟨step_inv hs.1 hstep, step_appClear hs.1 hs.2 hok hstep⟩
    refine always_of_eachStep hkeep (fun _ hs => hs.2) ⟨started_inv cfg, ?_⟩ hsteps
    intro q hq
    exact absurd hq (Nat.not_lt_zero q)
  · intro pre a t t' hpre hrun hstep q htouches
    have hinv : Inv cfg t := run_invariant (fun _ _ _ => step_inv) (started_inv cfg) hrun
    cases a with
    | worker i ret => exact hinv.worker_touches_alive hstep htouches
    | app =>
        have hclear := halways pre t ((List.prefix_append _ _).trans hpre) hrun
        by_contra hdead
        exact hclear q (not_le.mp hdead) (mayUse_of_touches htouches)
    | main => contradiction

-- The thread has begun its pass; the queue is deleted before it gets there.
example :
    (run (step ⟨1, true, .ends⟩) (started ⟨1, true, .ends⟩)
      [.app, .main, .main, .main, .worker 0 0, .main, .main, .main]).map (fun s =>
        (s.deleted, touches ⟨1, true, .ends⟩ s .app)) = some (1, some 0) := by
  decide

-- The thread goes on, and begins a pass when the queue has been deleted.
example :
    (run (step ⟨1, true, .goesOn⟩) (started ⟨1, true, .goesOn⟩)
      [.main, .main, .main, .worker 0 0, .main, .main, .main, .app]).map (fun s =>
        (s.deleted, touches ⟨1, true, .goesOn⟩ s .app)) = some (1, some 0) := by
  decide

end Shutdown
end Processor
end TinyNet
