import TinyNet.AppThread.Invariant

/-!
# Order and loss in the hand-off

The pairs that {lit}`app_run` takes from a worker's queue, followed by those still in
it, are the pairs that the worker framed, in order, without those that its queue
refused.  {lit}`Processor::run` ignores the result of {lit}`enqueue`, so a refused
pair is lost.

Main results:

- Theorem {lit}`always_inOrder`: order, uniqueness and integrity of the pairs in
  every interleaving.
- Theorem {lit}`conserved_iff_queues_have_room`: no pair is lost in exactly those
  interleavings in which no {lit}`enqueue` finds its queue full.
- Theorem {lit}`full_queue_loses_packet`: a burst of 101 packets that loses one.
-/

namespace TinyNet
namespace AppThread

open Library.RingBuffer
open Library.StepSystem
open AtomicAlloc
open SpscQueue

variable {σ μ : Type}

/-! ## Order -/

/-- The package that a worker's next step writes to. -/
def WorkerPc.refills : WorkerPc σ μ → Option Obj
  | .setSession pMsgPkg _ => pMsgPkg
  | .setMessage pMsgPkg _ => some pMsgPkg
  | _ => none

/-- Each worker's pairs reach the application thread in order, once and unaltered,
and no package under way is refilled. -/
structure InOrder (s : State σ μ) : Prop where
  framing_order : ∀ w, (s.lanes w).framed =
    (s.lanes w).enqueued.map (·.1) ++ (s.lanes w).pc.inFlight
  pairs : ∀ w, (s.lanes w).delivered.map .filled ++ s.undelivered w =
    (s.lanes w).accepted.map .filled
  not_refilled : ∀ w o, (s.lanes w).pc.refills = some o →
    (∀ v, o ∉ (s.lanes v).msgQueue.contents) ∧ o ∉ s.app.holds

/-- A worker only writes to a package that it holds. -/
theorem WorkerPc.mem_holds_of_refills {pc : WorkerPc σ μ} {o : Obj}
    (h : pc.refills = some o) : o ∈ pc.holds := by
  cases pc with
  | setSession pMsgPkg pair => simpa [refills, holds] using h
  | setMessage pMsgPkg pair => simpa [refills, holds] using h.symm
  | idle => simp [refills] at h
  | acquire pc pair => simp [refills] at h
  | enqueue pc pMsgPkg pair => simp [refills] at h
  | crashed pair => simp [refills] at h

theorem Inv.inOrder {s : State σ μ} (h : Inv s) : InOrder s := by
  constructor
  · exact fun w => (h.lane w).framed_eq
  · exact fun w => (h.lane w).delivery
  · intro w o hrefills
    have hown := WorkerPc.mem_holds_of_refills hrefills
    exact ⟨h.not_mem_queue hown, h.not_mem_app hown⟩

/-- In every interleaving of any number of workers with the application thread, the
pairs reach the application thread in order, once and unaltered.  A worker whose
{lit}`acquire` returns null takes no further step. -/
theorem always_inOrder (threads : Nat) (garbage : Nat → Fin 101 → Obj)
    (acts : List (Action σ μ)) :
    Always (step threads) InOrder (start garbage) acts :=
  always_of_invariant (fun _ _ _ => step_inv) (fun _ => Inv.inOrder) (start_inv garbage) acts

example :
    (run (step 1) (start fun _ _ => 0)
      (.frame 0 (5, 7) :: List.replicate 51 (.worker 0) ++ List.replicate 8 (.app true))).map
        (fun s : State Nat Nat => ((s.lanes 0).delivered, s.undelivered 0)) =
      some ([(5, 7)], []) := by
  decide

/-! ## Loss -/

/-- Every pair that a worker has framed and handed over is delivered, in hand or in
its queue. -/
def Conserved (s : State σ μ) : Prop :=
  ∀ w, (s.lanes w).pc = .idle →
    (s.lanes w).delivered.map .filled ++ s.undelivered w = (s.lanes w).framed.map .filled

/-- The {lit}`enqueue` whose turn it is to look for room finds some. -/
def HasRoom (s : State σ μ) (a : Action σ μ) : Prop :=
  ∀ w currentWrite pMsgPkg pair, a = .worker w →
    (s.lanes w).pc = .enqueue (.loadRead currentWrite) pMsgPkg pair →
    (s.lanes w).msgQueue.contents.length < 100

/-- No {lit}`enqueue` of any worker has been refused. -/
def NoneRefused (s : State σ μ) : Prop :=
  ∀ w, ∀ e ∈ (s.lanes w).enqueued, e.2 = true

/-- A lane has accepted everything it framed exactly if nothing was refused. -/
theorem Lane.accepted_eq_iff (l : Lane σ μ) :
    l.accepted = l.enqueued.map (·.1) ↔ ∀ e ∈ l.enqueued, e.2 = true := by
  unfold accepted
  constructor
  · intro heq
    have hlength := congrArg List.length heq
    rw [List.length_map, List.length_map, List.length_filter_eq_length_iff] at hlength
    exact hlength
  · intro hall
    rw [List.filter_eq_self.mpr hall]

/-- Between two packets, a worker has lost nothing exactly if nothing was refused. -/
theorem Inv.conserved_iff {s : State σ μ} (h : Inv s) {w : Nat}
    (hidle : (s.lanes w).pc = .idle) :
    (s.lanes w).delivered.map .filled ++ s.undelivered w = (s.lanes w).framed.map .filled ↔
      ∀ e ∈ (s.lanes w).enqueued, e.2 = true := by
  have hdelivery : (s.lanes w).delivered.map .filled ++ s.undelivered w =
      (s.lanes w).accepted.map .filled := (h.lane w).delivery
  have hframed : (s.lanes w).framed = (s.lanes w).enqueued.map (·.1) := by
    simp [(h.lane w).framed_eq, hidle, WorkerPc.inFlight]
  rw [hdelivery, hframed, filled_injective.list_map.eq_iff, Lane.accepted_eq_iff]

/-- {lit}`enqueue` is refused only where it looks for room. -/
theorem enqueueStep_refused {q : MsgQueue} {o : Obj} {pc : EnqueuePc 100}
    (h : (q.enqueueStep o pc).2 = .returned false) :
    ∃ currentWrite, pc = .loadRead currentWrite := by
  cases pc with
  | loadRead currentWrite => exact ⟨currentWrite, rfl⟩
  | loadWrite => simp [SpscQueue.enqueueStep] at h
  | storeRecord currentWrite => simp [SpscQueue.enqueueStep] at h
  | storeWrite currentWrite => simp [SpscQueue.enqueueStep] at h

/-- With room in the queue, an {lit}`enqueue` is not refused. -/
theorem enqueueStep_noneRefused {l : Lane σ μ} {pc : EnqueuePc 100} {o : Obj}
    {pair : σ × μ} (hvalid : pc.Valid l.msgQueue o)
    (hroom : ∀ currentWrite, pc = .loadRead currentWrite →
      l.msgQueue.contents.length < 100)
    (hnone : ∀ e ∈ l.enqueued, e.2 = true) :
    ∀ e ∈ (l.enqueueStep pc o pair).enqueued, e.2 = true := by
  have heffect := enqueueStep_spec hvalid
  intro e he
  rw [Lane.enqueueStep] at he
  rcases List.mem_append.mp he with hold | hnew
  · exact hnone e hold
  · cases hr : (l.msgQueue.enqueueStep o pc).2 with
    | running pc' => simp [hr, enqueueResult] at hnew
    | returned ok =>
        rw [hr, enqueueResult, List.mem_singleton] at hnew
        rw [hr] at heffect
        cases ok with
        | true => rw [hnew]
        | false =>
            rcases enqueueStep_refused hr with ⟨currentWrite, hpc⟩
            have hlt := hroom currentWrite hpc
            have hfull := heffect.2
            omega

/-- Steps that find room keep the queues from refusing. -/
theorem step_noneRefused {threads : Nat} {s s' : State σ μ} {a : Action σ μ} (h : Inv s)
    (hroom : HasRoom s a) (hstep : step threads s a = some s') (hnone : NoneRefused s) :
    NoneRefused s' := by
  intro w
  cases step_lane hstep w with
  | quiet henqueued =>
      rw [henqueued]
      exact hnone w
  | frame pair hidle henqueued =>
      rw [henqueued]
      exact hnone w
  | enqueue pc o pair hpc heq =>
      rw [heq]
      apply enqueueStep_noneRefused (h.worker_at hpc).1 _ (hnone w)
      rintro currentWrite rfl
      exact hroom w currentWrite o pair rfl hpc
  | deliver readFirst pair henqueued =>
      rw [henqueued]
      exact hnone w

/-- A step after which nothing is lost found room. -/
theorem hasRoom_of_conserved {threads : Nat} {s s' : State σ μ} {a : Action σ μ}
    (h : Inv s) (hstep : step threads s a = some s') (hcons : Conserved s') :
    HasRoom s a := by
  rintro w currentWrite o pair rfl hpc
  by_contra hfull
  have hvalid : (EnqueuePc.loadRead currentWrite).Valid (s.lanes w).msgQueue o :=
    (h.worker_at hpc).1
  have hlength : (s.lanes w).msgQueue.contents.length = 100 := by
    have hle := (s.lanes w).msgQueue.length_contents_le
    omega
  have hnext : next currentWrite = (s.lanes w).msgQueue.readIndex := by
    rw [show currentWrite = (s.lanes w).msgQueue.writeIndex from hvalid]
    exact (SpscQueue.length_contents_eq_iff _).mp hlength
  have hstep' : step threads s (.worker w) =
      some (s.setLane w ((s.lanes w).enqueueStep (.loadRead currentWrite) o pair)) := by
    simp [step, State.workerStep, hpc]
  have hs' : s' = s.setLane w ((s.lanes w).enqueueStep (.loadRead currentWrite) o pair) := by
    rw [hstep'] at hstep
    exact (Option.some.inj hstep).symm
  have hlane : s'.lanes w = { s.lanes w with
      pc := .idle
      enqueued := (s.lanes w).enqueued ++ [(pair, false)] } := by
    simp [hs', Lane.enqueueStep, SpscQueue.enqueueStep, hnext, afterEnqueue, enqueueResult]
  have hidle : (s'.lanes w).pc = .idle := by rw [hlane]
  have hall := ((step_inv h hstep).conserved_iff hidle).mp (hcons w hidle)
  have hrefused : (pair, false) ∈ (s'.lanes w).enqueued := by simp [hlane]
  exact absurd (hall _ hrefused) (by simp)

/-- No framed pair is lost, at any state of a run, exactly if every {lit}`enqueue` of
the run finds room in its queue. -/
theorem conserved_iff_queues_have_room (threads : Nat) (garbage : Nat → Fin 101 → Obj)
    (acts : List (Action σ μ)) :
    Always (step threads) Conserved (start garbage) acts ↔
      EachStep (step threads) HasRoom (start garbage) acts := by
  constructor
  · intro halways
    exact eachStep_of_always (fun _ _ _ => step_inv)
      (fun _ _ _ h hstep hcons => hasRoom_of_conserved h hstep hcons)
      (start_inv garbage) halways
  · intro hroom
    have hlocal : ∀ (s : State σ μ) a s', (Inv s ∧ NoneRefused s) → HasRoom s a →
        step threads s a = some s' → Inv s' ∧ NoneRefused s' := by
      intro s a s' h hok hstep
      exact ⟨step_inv h.1 hstep, step_noneRefused h.1 hok hstep h.2⟩
    have hP : ∀ s : State σ μ, (Inv s ∧ NoneRefused s) → Conserved s := by
      intro s h w hidle
      exact (h.1.conserved_iff hidle).mpr (h.2 w)
    exact always_of_eachStep hlocal hP ⟨start_inv garbage, by simp [NoneRefused, start]⟩ hroom

/-! ## A burst of packets -/

/-- Left alone for {lit}`n` steps, the worker brings its lane and the pool to the
given state. -/
def Alone (threads w n : Nat) (s : State σ μ) (pool : AtomicAlloc) (l : Lane σ μ) : Prop :=
  ∃ s', run (step threads) s (List.replicate n (.worker w)) = some s' ∧
    s'.msgPool = pool ∧ s'.lanes w = l ∧ s'.app = s.app

/-- One step. -/
theorem Alone.one (threads : Nat) {w : Nat} {s s' : State σ μ} (h : s.workerStep w = some s')
    (happ : s'.app = s.app) : Alone threads w 1 s s'.msgPool (s'.lanes w) := by
  have hrun : run (step threads) s (List.replicate 1 (.worker w)) = some s' := by
    simp [run_cons, step, h]
  exact ⟨s', hrun, rfl, rfl, happ⟩

/-- Some steps after others. -/
theorem Alone.trans {threads w m n : Nat} {s : State σ μ} {pool pool' : AtomicAlloc}
    {l l' : Lane σ μ} (h : Alone threads w m s pool l)
    (hrest : ∀ t : State σ μ, t.msgPool = pool → t.lanes w = l →
      Alone threads w n t pool' l') : Alone threads w (m + n) s pool' l' := by
  rcases h with ⟨t, hrun, hpool, hlane, happ⟩
  rcases hrest t hpool hlane with ⟨s', hrun', hpool', hlane', happ'⟩
  refine ⟨s', ?_, hpool', hlane', happ'.trans happ⟩
  rw [List.replicate_add, run_append, hrun, Option.bind_some, hrun']

/-- A worker alone in {lit}`msgPool.acquire()`. -/
theorem alone_acquire (threads : Nat) {w : Nat} {pair : σ × μ} {pool : AtomicAlloc}
    {pItem : Option Obj} (n : Nat) (s : State σ μ) (pc : AllocPc)
    (hpc : (s.lanes w).pc = .acquire pc pair)
    (halloc : alloc n s.msgPool pc = some (pool, pItem)) :
    Alone threads w n s pool { s.lanes w with pc := .setSession pItem pair } := by
  induction n generalizing s pc with
  | zero => simp [alloc] at halloc
  | succ n ih =>
      have hstep : s.workerStep w = some (s.acquireStep w pc pair) := by
        simp [State.workerStep, hpc]
      rw [alloc] at halloc
      rw [Nat.add_comm]
      cases hr : s.msgPool.allocStep pc with
      | mk pool' r =>
          rw [hr] at halloc
          cases r with
          | running pc' =>
              apply (Alone.one threads hstep rfl).trans
              intro t hpool hlane
              have hlane' : t.lanes w = { s.lanes w with pc := .acquire pc' pair } := by
                rw [hlane]
                simp [State.acquireStep, hr, afterAlloc]
              have hpool' : t.msgPool = pool' := by
                rw [hpool]
                simp [State.acquireStep, State.setLane, hr]
              have hnext := ih t pc' (by rw [hlane']) (hpool' ▸ halloc)
              rw [hlane'] at hnext
              exact hnext
          | returned pItem' =>
              simp only at halloc
              split at halloc
              · rename_i hn
                cases halloc
                subst hn
                have hone := Alone.one threads hstep rfl
                simpa [State.acquireStep, State.setLane, hr, afterAlloc] using hone
              · contradiction

/-- A worker alone fills its package. -/
theorem alone_fill (threads : Nat) {w : Nat} {o : Obj} {pair : σ × μ} (s : State σ μ)
    (hpc : (s.lanes w).pc = .setSession (some o) pair) :
    Alone threads w 2 s s.msgPool
      { s.lanes w with pc := .enqueue .loadWrite o pair } := by
  have hstep : s.workerStep w = some (s.setSessionStep w o pair) := by
    simp [State.workerStep, hpc]
  refine Alone.trans (m := 1) (n := 1) (Alone.one threads hstep rfl) ?_
  intro t hpool hlane
  have hpc' : (t.lanes w).pc = .setMessage o pair := by
    simp [hlane, State.setSessionStep]
  have hstep' : t.workerStep w = some (t.setMessageStep w o pair) := by
    simp [State.workerStep, hpc']
  have hone := Alone.one threads hstep' rfl
  simpa [State.setMessageStep, State.setSessionStep, State.setLane, hpool, hlane] using hone

/-- A worker alone takes one step of {lit}`enqueue`. -/
theorem alone_enqueueStep (threads : Nat) {w : Nat} {pc : EnqueuePc 100} {o : Obj} {pair : σ × μ}
    (s : State σ μ) (hpc : (s.lanes w).pc = .enqueue pc o pair) :
    Alone threads w 1 s s.msgPool ((s.lanes w).enqueueStep pc o pair) := by
  have hstep : s.workerStep w =
      some (s.setLane w ((s.lanes w).enqueueStep pc o pair)) := by
    simp [State.workerStep, hpc]
  have hone := Alone.one threads hstep rfl
  rwa [State.setLane_lanes_self] at hone

/-- A worker alone in an {lit}`enqueue` that is accepted. -/
theorem alone_enqueue_accepted (threads : Nat) {w : Nat} {o : Obj} {pair : σ × μ} (s : State σ μ)
    (hpc : (s.lanes w).pc = .enqueue .loadWrite o pair)
    (hroom : (s.lanes w).msgQueue.contents.length < 100) :
    ∃ q : MsgQueue, q.contents = (s.lanes w).msgQueue.contents ++ [o] ∧
      Alone threads w 4 s s.msgPool
        { s.lanes w with
          msgQueue := q
          pc := .idle
          enqueued := (s.lanes w).enqueued ++ [(pair, true)] } := by
  have hnext : next (s.lanes w).msgQueue.writeIndex ≠ (s.lanes w).msgQueue.readIndex := by
    rw [ne_eq, ← SpscQueue.length_contents_eq_iff]
    omega
  have happend := contents_next_write
    (Function.update (s.lanes w).msgQueue.records (s.lanes w).msgQueue.writeIndex o) hnext
  rw [Function.update_self, contents_update_write] at happend
  refine ⟨⟨Function.update (s.lanes w).msgQueue.records (s.lanes w).msgQueue.writeIndex o,
    (s.lanes w).msgQueue.readIndex, next (s.lanes w).msgQueue.writeIndex⟩, happend, ?_⟩
  refine Alone.trans (m := 1) (n := 3) (alone_enqueueStep threads s hpc) ?_
  intro t₁ hpool₁ hlane₁
  have hpc₁ : (t₁.lanes w).pc =
      .enqueue (.loadRead (s.lanes w).msgQueue.writeIndex) o pair := by
    rw [hlane₁]
    rfl
  refine Alone.trans (m := 1) (n := 2) (alone_enqueueStep threads t₁ hpc₁) ?_
  intro t₂ hpool₂ hlane₂
  have hpc₂ : (t₂.lanes w).pc =
      .enqueue (.storeRecord (s.lanes w).msgQueue.writeIndex) o pair := by
    rw [hlane₂, hlane₁]
    simp [Lane.enqueueStep, SpscQueue.enqueueStep, hnext, afterEnqueue]
  refine Alone.trans (m := 1) (n := 1) (alone_enqueueStep threads t₂ hpc₂) ?_
  intro t₃ hpool₃ hlane₃
  have hpc₃ : (t₃.lanes w).pc =
      .enqueue (.storeWrite (s.lanes w).msgQueue.writeIndex) o pair := by
    rw [hlane₃]
    rfl
  have hlast := alone_enqueueStep threads t₃ hpc₃
  rw [hpool₃, hpool₂, hpool₁, hlane₃, hlane₂, hlane₁] at hlast
  simpa [Lane.enqueueStep, SpscQueue.enqueueStep, hnext, afterEnqueue, enqueueResult]
    using hlast

/-- A worker alone in an {lit}`enqueue` that is refused. -/
theorem alone_enqueue_refused (threads : Nat) {w : Nat} {o : Obj} {pair : σ × μ} (s : State σ μ)
    (hpc : (s.lanes w).pc = .enqueue .loadWrite o pair)
    (hfull : (s.lanes w).msgQueue.contents.length = 100) :
    Alone threads w 2 s s.msgPool
      { s.lanes w with
        pc := .idle
        enqueued := (s.lanes w).enqueued ++ [(pair, false)] } := by
  have hnext : next (s.lanes w).msgQueue.writeIndex = (s.lanes w).msgQueue.readIndex :=
    (SpscQueue.length_contents_eq_iff _).mp hfull
  refine Alone.trans (m := 1) (n := 1) (alone_enqueueStep threads s hpc) ?_
  intro t hpool hlane
  have hpc' : (t.lanes w).pc =
      .enqueue (.loadRead (s.lanes w).msgQueue.writeIndex) o pair := by
    rw [hlane]
    rfl
  have hlast := alone_enqueueStep threads t hpc'
  rw [hpool, hlane] at hlast
  simpa [Lane.enqueueStep, SpscQueue.enqueueStep, hnext, afterEnqueue, enqueueResult]
    using hlast

/-- A worker alone, with nothing in the pool, takes a framed packet to
{lit}`enqueue`. -/
theorem alone_to_enqueue (threads : Nat) {w : Nat} {pair : σ × μ} (s : State σ μ)
    (hpc : (s.lanes w).pc = .acquire .test pair) (hpool : s.msgPool.objList = []) :
    ∃ o, Alone threads w 47 s ⟨[], s.msgPool.created + 20⟩
      { s.lanes w with pc := .enqueue .loadWrite o pair } := by
  have halloc : alloc 45 s.msgPool .test =
      some (⟨[], s.msgPool.created + 20⟩, some (s.msgPool.created + 19)) := by
    rw [show s.msgPool = ⟨[], s.msgPool.created⟩ by rw [← hpool]]
    exact alloc_empty s.msgPool.created
  refine ⟨s.msgPool.created + 19, ?_⟩
  refine Alone.trans (m := 45) (n := 2) (alone_acquire threads 45 s .test hpc halloc) ?_
  intro t hpool' hlane
  have hpc' : (t.lanes w).pc = .setSession (some (s.msgPool.created + 19)) pair := by
    rw [hlane]
  have hfill := alone_fill threads t hpc'
  rw [hpool', hlane] at hfill
  exact hfill

/-- One worker has framed {lit}`framed` packets, {lit}`queued` of which are in its
queue; the application thread has not started. -/
structure Burst (framed queued : Nat) (s : State Nat Nat) : Prop where
  idle : (s.lanes 0).pc = .idle
  pool : s.msgPool.objList = []
  app : s.app = .next 0
  framed_length : (s.lanes 0).framed.length = framed
  queued_length : (s.lanes 0).msgQueue.contents.length = queued
  delivered : (s.lanes 0).delivered = []

/-- The first worker frames packet {lit}`k` and takes {lit}`n` steps. -/
def burstActs (k n : Nat) : List (Action Nat Nat) :=
  .frame 0 (0, k) :: List.replicate n (.worker 0)

/-- The worker frames a packet and takes it to {lit}`enqueue`. -/
theorem Burst.frame {k queued : Nat} {s : State Nat Nat} (h : Burst k queued s) :
    ∃ t o, run (step 1) s (burstActs k 47) = some t ∧ t.msgPool.objList = [] ∧
      t.app = .next 0 ∧
      t.lanes 0 = { s.lanes 0 with
        pc := .enqueue .loadWrite o (0, k)
        framed := (s.lanes 0).framed ++ [(0, k)] } := by
  have hframe : step 1 s (.frame 0 (0, k)) = some (s.frame 0 (0, k)) := by
    simp [step, h.idle]
  have hpc : ((s.frame 0 (0, k)).lanes 0).pc = .acquire .test (0, k) := by
    simp [State.frame]
  rcases alone_to_enqueue 1 (s.frame 0 (0, k)) hpc h.pool with
    ⟨o, t, hrun, hpool, hlane, happ⟩
  refine ⟨t, o, ?_, ?_, ?_, ?_⟩
  · rw [burstActs, run_cons, hframe, Option.bind_some, hrun]
  · rw [hpool]
  · rw [happ]
    exact h.app
  · rw [hlane]
    simp [State.frame]

/-- More steps of the worker. -/
theorem run_burstActs {k m n : Nat} {s t t' : State Nat Nat}
    (hrun : run (step 1) s (burstActs k m) = some t)
    (hrun' : run (step 1) t (List.replicate n (.worker 0)) = some t') :
    run (step 1) s (burstActs k (m + n)) = some t' := by
  have hacts : burstActs k (m + n) = burstActs k m ++ List.replicate n (.worker 0) := by
    rw [burstActs, burstActs, List.replicate_add, List.cons_append]
  rw [hacts, run_append, hrun, Option.bind_some, hrun']

/-- A packet that finds room. -/
theorem Burst.accept {k queued : Nat} {s : State Nat Nat} (h : Burst k queued s)
    (hroom : queued < 100) :
    ∃ s', run (step 1) s (burstActs k 51) = some s' ∧ Burst (k + 1) (queued + 1) s' := by
  rcases h.frame with ⟨t, o, hrun, hpool, happ, hlane⟩
  have hpc : (t.lanes 0).pc = .enqueue .loadWrite o (0, k) := by rw [hlane]
  have hlength : (t.lanes 0).msgQueue.contents.length < 100 := by
    rw [hlane]
    exact h.queued_length ▸ hroom
  rcases alone_enqueue_accepted 1 t hpc hlength with
    ⟨q, hq, t', hrun', hpool', hlane', happ'⟩
  refine ⟨t', run_burstActs hrun hrun', ?_⟩
  constructor
  · rw [hlane']
  · rw [hpool', hpool]
  · rw [happ', happ]
  · simp [hlane', hlane, h.framed_length]
  · simp [hlane', hq, hlane, h.queued_length]
  · simp [hlane', hlane, h.delivered]

/-- A packet that finds the queue full. -/
theorem Burst.refuse {k : Nat} {s : State Nat Nat} (h : Burst k 100 s) :
    ∃ s', run (step 1) s (burstActs k 49) = some s' ∧ Burst (k + 1) 100 s' := by
  rcases h.frame with ⟨t, o, hrun, hpool, happ, hlane⟩
  have hpc : (t.lanes 0).pc = .enqueue .loadWrite o (0, k) := by rw [hlane]
  have hlength : (t.lanes 0).msgQueue.contents.length = 100 := by
    rw [hlane]
    exact h.queued_length
  rcases alone_enqueue_refused 1 t hpc hlength with ⟨t', hrun', hpool', hlane', happ'⟩
  refine ⟨t', run_burstActs hrun hrun', ?_⟩
  constructor
  · rw [hlane']
  · rw [hpool', hpool]
  · rw [happ', happ]
  · simp [hlane', hlane, h.framed_length]
  · simp [hlane', hlane, h.queued_length]
  · simp [hlane', hlane, h.delivered]

/-- The queue takes the first hundred packets. -/
theorem burst_start (garbage : Nat → Fin 101 → Obj) (k : Nat) (hk : k ≤ 100) :
    ∃ s, run (step 1) (start garbage)
        ((List.range k).flatMap fun j => burstActs j 51) = some s ∧ Burst k k s := by
  induction k with
  | zero =>
      refine ⟨start garbage, rfl, ?_⟩
      constructor <;> simp [start, AtomicAlloc.create]
  | succ k ih =>
      rcases ih (by omega) with ⟨s, hrun, hburst⟩
      rcases hburst.accept (by omega) with ⟨s', hrun', hburst'⟩
      refine ⟨s', ?_, hburst'⟩
      rw [List.range_succ, List.flatMap_append, run_append, hrun, Option.bind_some]
      simpa using hrun'

/-- One worker frames 101 packets before the application thread takes a step.  Its
queue takes a hundred of them; the last one is neither delivered nor queued, although
the worker is done with it. -/
theorem full_queue_loses_packet :
    ∃ s : State Nat Nat,
      run (step 1) (start fun _ _ => 0)
        (((List.range 100).flatMap fun k => burstActs k 51) ++ burstActs 100 49) = some s ∧
      (s.lanes 0).pc = .idle ∧ (s.lanes 0).framed.length = 101 ∧
      (s.lanes 0).delivered = [] ∧ (s.undelivered 0).length = 100 ∧ ¬Conserved s := by
  rcases burst_start (fun _ _ => 0) 100 (le_refl 100) with ⟨s, hrun, hburst⟩
  rcases hburst.refuse with ⟨s', hrun', hburst'⟩
  have hlength : (s'.undelivered 0).length = 100 := by
    simp [State.undelivered, hburst'.app, AppPc.inHand, hburst'.queued_length]
  refine ⟨s', ?_, hburst'.idle, hburst'.framed_length, hburst'.delivered, hlength, ?_⟩
  · rw [run_append, hrun, Option.bind_some, hrun']
  · intro hcons
    have hcount := congrArg List.length (hcons 0 hburst'.idle)
    simp [hburst'.delivered, hburst'.framed_length, hlength] at hcount

end AppThread
end TinyNet
