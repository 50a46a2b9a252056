import TinyNet.AppThread.Handoff
import TinyNet.Library.Ownership

/-!
# The invariant of the hand-off

Every package is in one place at a time: in the free list, with one worker, in one
queue, or with the application thread.  So nobody writes to a package while it waits
in a queue, and the queues carry the pairs that the workers put into them.

Main results:

- Theorem {lit}`step_inv`: every step of every thread keeps the invariant.
- Theorem {lit}`run_inv`: it holds after every interleaving.
- Theorem {lit}`step_outstanding`: only framing adds to the pairs that may still be
  delivered.
-/

namespace TinyNet
namespace AppThread

open Library.Ownership
open Library.StepSystem
open AtomicAlloc
open SpscQueue

variable {σ μ : Type}

/-- What a worker in hand-off knows about its package and its queue. -/
def WorkerOk (heap : Obj → MsgPackage σ μ) (q : MsgQueue) : WorkerPc σ μ → Prop
  | .setMessage pMsgPkg pair => (heap pMsgPkg).session = some pair.1
  | .enqueue pc pMsgPkg pair => pc.Valid q pMsgPkg ∧ heap pMsgPkg = .filled pair
  | _ => True

/-- What the application thread knows about the queue it is at; it does not crash. -/
def AppOk (lanes : Nat → Lane σ μ) : AppPc → Prop
  | .tryDequeue i pc => pc.Valid (lanes i).msgQueue
  | .crashed => False
  | _ => True

/-- The books of one worker: every framed pair was enqueued or is in hand-off, and
the pairs delivered, in hand and in the queue are the pairs accepted, in order. -/
structure LaneOk (heap : Obj → MsgPackage σ μ) (hand : List Obj) (l : Lane σ μ) :
    Prop where
  worker : WorkerOk heap l.msgQueue l.pc
  framed_eq : l.framed = l.enqueued.map (·.1) ++ l.pc.inFlight
  delivery : l.delivered.map .filled ++ (hand ++ l.msgQueue.contents).map heap =
    l.accepted.map .filled

/-- The invariant of the hand-off. -/
structure Inv (s : State σ μ) : Prop where
  separated : Separated s.owns (· < s.msgPool.created)
  app : AppOk s.lanes s.app
  lane : ∀ w, LaneOk s.heap (s.app.inHand w) (s.lanes w)

/-- The invariant holds before any packet. -/
theorem start_inv (garbage : Nat → Fin 101 → Obj) : Inv (start garbage : State σ μ) := by
  have howns : ∀ p, (start garbage : State σ μ).owns p = [] := by
    intro p
    cases p with
    | free => rfl
    | worker w => rfl
    | queue w => exact create_contents (garbage w)
    | app => rfl
  constructor
  · constructor
    · intro p
      simp [howns]
    · intro p q o hp
      simp [howns] at hp
    · intro p o hp
      simp [howns] at hp
  · trivial
  · intro w
    constructor
    · trivial
    · rfl
    · simp [start, AppPc.inHand, Lane.accepted]

theorem filled_injective : Function.Injective (MsgPackage.filled : σ × μ → _) := by
  rintro ⟨a, b⟩ ⟨c, d⟩ h
  simpa [MsgPackage.filled] using h

/-! ## Places -/

/-- What is in hand is held. -/
theorem AppPc.mem_holds_of_inHand {app : AppPc} {w : Nat} {o : Obj}
    (h : o ∈ app.inHand w) : o ∈ app.holds := by
  cases app with
  | onMessage i pMsgPkg =>
      rw [inHand] at h
      split at h
      · exact h
      · simp at h
  | next i => simp [inHand] at h
  | isEmpty i pc => simp [inHand] at h
  | tryDequeue i pc => simp [inHand] at h
  | release i pMsgPkg => simp [inHand] at h
  | crashed => simp [inHand] at h

/-- A worker's package is in no queue. -/
theorem Inv.not_mem_queue {s : State σ μ} (h : Inv s) {w : Nat} {o : Obj}
    (ho : o ∈ (s.lanes w).pc.holds) (v : Nat) : o ∉ (s.lanes v).msgQueue.contents := by
  intro hqueue
  cases h.separated.eq_of_mem (.worker w) (.queue v) o ho hqueue

/-- A worker's package is not with the application thread. -/
theorem Inv.not_mem_app {s : State σ μ} (h : Inv s) {w : Nat} {o : Obj}
    (ho : o ∈ (s.lanes w).pc.holds) : o ∉ s.app.holds := by
  intro happ
  cases h.separated.eq_of_mem (.worker w) .app o ho happ

/-- A worker's package is with no other worker. -/
theorem Inv.not_mem_worker {s : State σ μ} (h : Inv s) {v w : Nat} (hvw : v ≠ w) {o : Obj}
    (ho : o ∈ (s.lanes w).pc.holds) : o ∉ (s.lanes v).pc.holds := by
  intro hv
  cases h.separated.eq_of_mem (.worker w) (.worker v) o ho hv
  exact hvw rfl

/-- A worker's package is not under way to the application thread. -/
theorem Inv.not_mem_underway {s : State σ μ} (h : Inv s) {w : Nat} {o : Obj}
    (ho : o ∈ (s.lanes w).pc.holds) (v : Nat) :
    o ∉ s.app.inHand v ++ (s.lanes v).msgQueue.contents := by
  intro hmem
  rcases List.mem_append.mp hmem with hhand | hqueue
  · exact h.not_mem_app ho (AppPc.mem_holds_of_inHand hhand)
  · exact h.not_mem_queue ho v hqueue

/-- What holds where a worker stands. -/
theorem Inv.worker_at {s : State σ μ} (h : Inv s) {w : Nat} {pc : WorkerPc σ μ}
    (hpc : (s.lanes w).pc = pc) : WorkerOk s.heap (s.lanes w).msgQueue pc :=
  hpc ▸ (h.lane w).worker

/-- What the places hold after one worker's lane has changed. -/
theorem owns_setLane (s : State σ μ) (w : Nat) (l : Lane σ μ) :
    (s.setLane w l).owns =
      Function.update (Function.update s.owns (.worker w) l.pc.holds) (.queue w)
        l.msgQueue.contents := by
  funext p
  cases p with
  | free => simp [State.owns, State.setLane]
  | app => simp [State.owns, State.setLane]
  | worker v =>
      by_cases hv : v = w
      · subst hv
        simp [State.owns, State.setLane]
      · simp [State.owns, State.setLane, hv]
  | queue v =>
      by_cases hv : v = w
      · subst hv
        simp [State.owns, State.setLane]
      · simp [State.owns, State.setLane, hv]

/-- A lane that keeps its packages changes nothing. -/
theorem owns_setLane_of_eq {s : State σ μ} {w : Nat} {l : Lane σ μ}
    (hholds : l.pc.holds = (s.lanes w).pc.holds)
    (hqueue : l.msgQueue.contents = (s.lanes w).msgQueue.contents) :
    (s.setLane w l).owns = s.owns := by
  have hworker : s.owns (.worker w) = l.pc.holds := hholds.symm
  have hcontents : s.owns (.queue w) = l.msgQueue.contents := hqueue.symm
  rw [owns_setLane, ← hworker, Function.update_eq_self, ← hcontents,
    Function.update_eq_self]

/-- What the places hold after the application thread has moved. -/
theorem owns_setApp (s : State σ μ) (app : AppPc) :
    State.owns { s with app := app } = Function.update s.owns .app app.holds := by
  funext p
  cases p <;> simp [State.owns]

/-- What the places hold after the pool has changed. -/
theorem owns_setPool (s : State σ μ) (msgPool : AtomicAlloc) :
    State.owns { s with msgPool := msgPool } =
      Function.update s.owns .free msgPool.objList := by
  funext p
  cases p <;> simp [State.owns]

/-! ## One lane at a time -/

/-- What a worker knows depends on its own package and on its queue: other packages
may be written to, and the consumer may take from the queue. -/
theorem WorkerOk.congr {heap heap' : Obj → MsgPackage σ μ} {q q' : MsgQueue}
    {pc : WorkerPc σ μ} (h : WorkerOk heap q pc)
    (hheap : ∀ o ∈ pc.holds, heap' o = heap o)
    (hprod : ∀ (ppc : EnqueuePc 100) (o : Obj), ppc.Valid q o → ppc.Valid q' o) :
    WorkerOk heap' q' pc := by
  cases pc with
  | setMessage pMsgPkg pair =>
      have hsame := hheap pMsgPkg (List.mem_singleton_self _)
      rw [WorkerOk] at h ⊢
      rw [hsame, h]
  | enqueue pc pMsgPkg pair =>
      have hsame := hheap pMsgPkg (List.mem_singleton_self _)
      exact ⟨hprod pc pMsgPkg h.1, hsame.trans h.2⟩
  | idle => trivial
  | acquire pc pair => trivial
  | setSession pMsgPkg pair => trivial
  | crashed pair => trivial

/-- A lane only depends on the packages that are under way in it. -/
theorem LaneOk.congr_heap {heap heap' : Obj → MsgPackage σ μ} {hand : List Obj}
    {l : Lane σ μ} (h : LaneOk heap hand l) (hholds : ∀ o ∈ l.pc.holds, heap' o = heap o)
    (hunderway : ∀ o ∈ hand ++ l.msgQueue.contents, heap' o = heap o) :
    LaneOk heap' hand l := by
  constructor
  · exact h.worker.congr hholds (fun _ _ hvalid => hvalid)
  · exact h.framed_eq
  · rw [← h.delivery, List.map_congr_left hunderway]

/-- A step of one worker: its own lane stays right, the consumer's knowledge of its
queue stays right, and it writes to no package of another lane. -/
theorem Inv.update_lane {s s' : State σ μ} (h : Inv s) {w : Nat} {l : Lane σ μ}
    (hlanes : s'.lanes = Function.update s.lanes w l) (happ : s'.app = s.app)
    (hsep : Separated s'.owns (· < s'.msgPool.created))
    (hcons : ∀ cpc : TryDequeuePc 100 Obj, cpc.Valid (s.lanes w).msgQueue →
      cpc.Valid l.msgQueue)
    (hheap : ∀ o, o ∉ (s.lanes w).pc.holds → s'.heap o = s.heap o)
    (hlane : LaneOk s'.heap (s.app.inHand w) l) : Inv s' := by
  constructor
  · exact hsep
  · have hok := h.app
    rw [happ, hlanes]
    cases hpc : s.app with
    | tryDequeue i cpc =>
        rw [hpc, AppOk] at hok
        rw [AppOk]
        by_cases hi : i = w
        · subst hi
          rw [Function.update_self]
          exact hcons cpc hok
        · rw [Function.update_of_ne hi]
          exact hok
    | crashed => rw [hpc] at hok; exact hok
    | next i => trivial
    | isEmpty i cpc => trivial
    | onMessage i pMsgPkg => trivial
    | release i pMsgPkg => trivial
  · intro v
    rw [happ, hlanes]
    by_cases hv : v = w
    · subst hv
      rw [Function.update_self]
      exact hlane
    · rw [Function.update_of_ne hv]
      apply (h.lane v).congr_heap
      · intro o ho
        exact hheap o fun hown => h.not_mem_worker hv hown ho
      · intro o ho
        exact hheap o fun hown => h.not_mem_underway hown v ho

/-! ## Steps of a worker -/

/-- A worker starts a hand-off. -/
theorem frame_inv {s : State σ μ} (h : Inv s) {w : Nat} (hidle : (s.lanes w).pc = .idle)
    (pair : σ × μ) : Inv (s.frame w pair) := by
  have howns : (s.frame w pair).owns = s.owns :=
    owns_setLane_of_eq (by simp [hidle, WorkerPc.holds, AllocPc.holds]) rfl
  refine h.update_lane rfl rfl ?_ ?_ ?_ ?_
  · rw [howns]
    exact h.separated
  · exact fun _ hvalid => hvalid
  · exact fun _ _ => rfl
  · have hlane := h.lane w
    constructor
    · trivial
    · simp [hlane.framed_eq, hidle, WorkerPc.inFlight]
    · exact hlane.delivery

/-- The worker's place after a step of {lit}`alloc` holds what {lit}`alloc` holds. -/
theorem holds_afterAlloc (pair : σ × μ) (r : Progress AllocPc (Option Obj)) :
    (afterAlloc pair r).holds = progressHolds r := by
  cases r <;> rfl

theorem workerOk_afterAlloc (heap : Obj → MsgPackage σ μ) (q : MsgQueue) (pair : σ × μ)
    (r : Progress AllocPc (Option Obj)) : WorkerOk heap q (afterAlloc pair r) := by
  cases r <;> trivial

/-- A worker in {lit}`msgPool.acquire()`. -/
theorem acquireStep_inv {s : State σ μ} (h : Inv s) {w : Nat} {pc : AllocPc}
    {pair : σ × μ} (hpc : (s.lanes w).pc = .acquire pc pair) :
    Inv (s.acquireStep w pc pair) := by
  have hheld : s.owns (.worker w) = pc.holds := by
    simp [State.owns, hpc, WorkerPc.holds]
  have howns : (s.acquireStep w pc pair).owns =
      Function.update (Function.update s.owns .free (s.msgPool.allocStep pc).1.objList)
        (.worker w) (progressHolds (s.msgPool.allocStep pc).2) := by
    rw [State.acquireStep, owns_setLane, owns_setPool, holds_afterAlloc]
    apply Function.update_eq_self_iff.mpr
    simp [State.owns]
  refine h.update_lane rfl rfl ?_ ?_ ?_ ?_
  · rw [howns]
    exact separated_allocStep h.separated (by simp) rfl hheld
  · exact fun _ hvalid => hvalid
  · exact fun _ _ => rfl
  · have hlane := h.lane w
    constructor
    · exact workerOk_afterAlloc _ _ _ _
    · rw [inFlight_afterAlloc, hlane.framed_eq, hpc]
      rfl
    · exact hlane.delivery

/-- A worker writes a field of its package, or finds that it has none. -/
theorem write_inv {s : State σ μ} (h : Inv s) {w : Nat} {heap : Obj → MsgPackage σ μ}
    {pc : WorkerPc σ μ} (hholds : pc.holds = (s.lanes w).pc.holds)
    (hflight : pc.inFlight = (s.lanes w).pc.inFlight)
    (hheap : ∀ o, o ∉ (s.lanes w).pc.holds → heap o = s.heap o)
    (hworker : WorkerOk heap (s.lanes w).msgQueue pc) :
    Inv ({ s with heap := heap }.setLane w { s.lanes w with pc := pc }) := by
  have howns : ({ s with heap := heap }.setLane w { s.lanes w with pc := pc }).owns =
      s.owns :=
    owns_setLane_of_eq hholds rfl
  refine h.update_lane rfl rfl ?_ ?_ hheap ?_
  · rw [howns]
    exact h.separated
  · exact fun _ hvalid => hvalid
  · have hlane := h.lane w
    constructor
    · exact hworker
    · rw [hflight]
      exact hlane.framed_eq
    · have hsame : (s.app.inHand w ++ (s.lanes w).msgQueue.contents).map heap =
          (s.app.inHand w ++ (s.lanes w).msgQueue.contents).map s.heap := by
        apply List.map_congr_left
        intro o ho
        exact hheap o fun hown => h.not_mem_underway hown w ho
      have hdelivery := hlane.delivery
      rw [← hsame] at hdelivery
      exact hdelivery

/-- Writing to the only package that is held changes no other. -/
theorem update_of_not_mem_singleton (heap : Obj → MsgPackage σ μ) {pMsgPkg : Obj}
    (x : MsgPackage σ μ) {held : List Obj} (hheld : held = [pMsgPkg]) (o : Obj)
    (ho : o ∉ held) : Function.update heap pMsgPkg x o = heap o := by
  apply Function.update_of_ne
  simpa [hheld] using ho

/-- {lit}`pMsgPkg->session = pSession`. -/
theorem setSessionStep_inv {s : State σ μ} (h : Inv s) {w : Nat} {pMsgPkg : Obj}
    {pair : σ × μ} (hpc : (s.lanes w).pc = .setSession (some pMsgPkg) pair) :
    Inv (s.setSessionStep w pMsgPkg pair) := by
  have hheld : (s.lanes w).pc.holds = [pMsgPkg] := by
    rw [hpc]
    rfl
  refine write_inv h hheld.symm ?_ (update_of_not_mem_singleton _ _ hheld) ?_
  · rw [hpc]
    rfl
  · rw [WorkerOk, Function.update_self]

/-- {lit}`pMsgPkg->message = pMsg`. -/
theorem setMessageStep_inv {s : State σ μ} (h : Inv s) {w : Nat} {pMsgPkg : Obj}
    {pair : σ × μ} (hpc : (s.lanes w).pc = .setMessage pMsgPkg pair) :
    Inv (s.setMessageStep w pMsgPkg pair) := by
  have hheld : (s.lanes w).pc.holds = [pMsgPkg] := by
    rw [hpc]
    rfl
  have hsession : (s.heap pMsgPkg).session = some pair.1 := h.worker_at hpc
  have hfilled : { s.heap pMsgPkg with message := some pair.2 } = .filled pair := by
    rw [MsgPackage.filled, ← hsession]
  refine write_inv h hheld.symm ?_ (update_of_not_mem_singleton _ _ hheld) ?_
  · rw [hpc]
    rfl
  · rw [WorkerOk, Function.update_self]
    exact ⟨trivial, hfilled⟩

/-- A worker whose {lit}`acquire` returned null. -/
theorem crash_inv {s : State σ μ} (h : Inv s) {w : Nat} {pair : σ × μ}
    (hpc : (s.lanes w).pc = .setSession none pair) :
    Inv (s.setLane w { s.lanes w with pc := .crashed pair }) := by
  refine write_inv h ?_ ?_ (fun _ _ => rfl) trivial
  · rw [hpc]
    rfl
  · rw [hpc]
    rfl

/-- What the places hold after a step of {lit}`enqueue` stays separated: a package
that is accepted goes to the queue, and one that is refused is forgotten. -/
theorem enqueueStep_separated {s : State σ μ} (h : Inv s) {w : Nat} {pc : EnqueuePc 100}
    {pMsgPkg : Obj} {pair : σ × μ} (hpc : (s.lanes w).pc = .enqueue pc pMsgPkg pair)
    (heffect : EnqueueEffect (s.lanes w).msgQueue
      ((s.lanes w).msgQueue.enqueueStep pMsgPkg pc).1 pMsgPkg
      ((s.lanes w).msgQueue.enqueueStep pMsgPkg pc).2) :
    Separated (s.setLane w ((s.lanes w).enqueueStep pc pMsgPkg pair)).owns
      (· < s.msgPool.created) := by
  have hheld : (s.lanes w).pc.holds = [pMsgPkg] := by
    rw [hpc]
    rfl
  cases hr : ((s.lanes w).msgQueue.enqueueStep pMsgPkg pc).2 with
  | running pc' =>
      rw [hr] at heffect
      rw [owns_setLane_of_eq]
      · exact h.separated
      · simp [Lane.enqueueStep, hr, hpc, afterEnqueue, WorkerPc.holds]
      · exact heffect.2
  | returned ok =>
      rw [hr] at heffect
      have hidle : ((s.lanes w).enqueueStep pc pMsgPkg pair).pc.holds = [] := by
        simp [Lane.enqueueStep, hr, afterEnqueue, WorkerPc.holds]
      cases ok with
      | true =>
          have happend : ((s.lanes w).enqueueStep pc pMsgPkg pair).msgQueue.contents =
              (s.lanes w).msgQueue.contents ++ [pMsgPkg] := heffect
          refine h.separated.transfer (p := .worker w) (q := .queue w) (by simp) ?_ ?_
          · rw [owns_setLane, happend, hidle]
            simpa [State.owns, hheld] using (List.perm_append_singleton _ _).subperm
          · intro p hworker hqueue
            rw [owns_setLane, Function.update_of_ne hqueue, Function.update_of_ne hworker]
      | false =>
          have hsame : ((s.lanes w).enqueueStep pc pMsgPkg pair).msgQueue =
              (s.lanes w).msgQueue := heffect.1
          refine h.separated.shrink (p := .worker w) ?_ ?_
          · rw [owns_setLane, hidle]
            simp
          · intro p hworker
            rw [owns_setLane, hsame]
            by_cases hqueue : p = .queue w
            · rw [hqueue, Function.update_self]
              rfl
            · rw [Function.update_of_ne hqueue, Function.update_of_ne hworker]

/-- A step of {lit}`enqueue` keeps the worker's books. -/
theorem enqueueStep_laneOk {heap : Obj → MsgPackage σ μ} {hand : List Obj} {l : Lane σ μ}
    (h : LaneOk heap hand l) {pc : EnqueuePc 100} {pMsgPkg : Obj} {pair : σ × μ}
    (hpc : l.pc = .enqueue pc pMsgPkg pair) :
    LaneOk heap hand (l.enqueueStep pc pMsgPkg pair) := by
  have hworker := h.worker
  have hframed := h.framed_eq
  have hdelivery := h.delivery
  rw [hpc] at hworker hframed
  rcases hworker with ⟨hvalid, hfilled⟩
  have heffect := enqueueStep_spec hvalid
  cases hr : (l.msgQueue.enqueueStep pMsgPkg pc).2 with
  | running pc' =>
      rw [hr] at heffect
      rcases heffect with ⟨hvalid', hsame⟩
      constructor
      · simp only [Lane.enqueueStep, hr, afterEnqueue]
        exact ⟨hvalid', hfilled⟩
      · simpa [Lane.enqueueStep, hr, afterEnqueue, enqueueResult, WorkerPc.inFlight]
          using hframed
      · simpa [Lane.enqueueStep, hr, hsame, enqueueResult, Lane.accepted] using hdelivery
  | returned ok =>
      rw [hr] at heffect
      constructor
      · simp only [Lane.enqueueStep, hr, afterEnqueue]
        trivial
      · simpa [Lane.enqueueStep, hr, afterEnqueue, enqueueResult, WorkerPc.inFlight]
          using hframed
      · cases ok with
        | true =>
            have happend : (l.msgQueue.enqueueStep pMsgPkg pc).1.contents =
                l.msgQueue.contents ++ [pMsgPkg] := heffect
            have haccepted : (l.enqueueStep pc pMsgPkg pair).accepted =
                l.accepted ++ [pair] := by
              simp [Lane.enqueueStep, hr, enqueueResult, Lane.accepted]
            rw [haccepted]
            simp [← hdelivery, Lane.enqueueStep, happend, hfilled]
        | false =>
            have hsame : (l.msgQueue.enqueueStep pMsgPkg pc).1 = l.msgQueue := heffect.1
            have haccepted : (l.enqueueStep pc pMsgPkg pair).accepted = l.accepted := by
              simp [Lane.enqueueStep, hr, enqueueResult, Lane.accepted]
            rw [haccepted, ← hdelivery]
            simp [Lane.enqueueStep, hsame]

/-- A worker in {lit}`pMsgQueue->enqueue(pMsgPkg)`. -/
theorem enqueueStep_inv {s : State σ μ} (h : Inv s) {w : Nat} {pc : EnqueuePc 100}
    {pMsgPkg : Obj} {pair : σ × μ} (hpc : (s.lanes w).pc = .enqueue pc pMsgPkg pair) :
    Inv (s.setLane w ((s.lanes w).enqueueStep pc pMsgPkg pair)) := by
  have hvalid : pc.Valid (s.lanes w).msgQueue pMsgPkg := (h.worker_at hpc).1
  refine h.update_lane rfl rfl ?_ ?_ (fun _ _ => rfl) ?_
  · exact enqueueStep_separated h hpc (enqueueStep_spec hvalid)
  · exact fun _ hcons => enqueueStep_consumer hvalid hcons
  · exact enqueueStep_laneOk (h.lane w) hpc

/-! ## Steps of the application thread -/

/-- The application thread moves on with the same packages. -/
theorem Inv.set_app {s : State σ μ} (h : Inv s) {app : AppPc}
    (hholds : app.holds = s.app.holds) (hhand : ∀ w, app.inHand w = s.app.inHand w)
    (hok : AppOk s.lanes app) : Inv { s with app := app } := by
  have howns : State.owns { s with app := app } = s.owns := by
    rw [owns_setApp]
    exact Function.update_eq_self_iff.mpr hholds
  constructor
  · rw [howns]
    exact h.separated
  · exact hok
  · intro w
    rw [hhand w]
    exact h.lane w

/-- Dequeuing takes the oldest package of the queue in hand. -/
theorem dequeue_inv {s : State σ μ} (h : Inv s) {i : Nat} {q : MsgQueue} {pMsgPkg : Obj}
    (hholds : s.app.holds = []) (hhand : ∀ w, s.app.inHand w = [])
    (hcontents : (s.lanes i).msgQueue.contents = pMsgPkg :: q.contents)
    (hprod : ∀ (ppc : EnqueuePc 100) (o : Obj), ppc.Valid (s.lanes i).msgQueue o →
      ppc.Valid q o) :
    Inv ({ s with app := .onMessage i pMsgPkg }.setLane i
      { s.lanes i with msgQueue := q }) := by
  have howns : ({ s with app := .onMessage i pMsgPkg }.setLane i
      { s.lanes i with msgQueue := q }).owns =
      Function.update (Function.update s.owns .app [pMsgPkg]) (.queue i) q.contents := by
    rw [owns_setLane, owns_setApp]
    congr 1
    apply Function.update_eq_self_iff.mpr
    simp [State.owns]
  constructor
  · refine h.separated.transfer (p := .queue i) (q := .app) (by simp) ?_ ?_
    · rw [howns]
      simpa [State.owns, hholds, hcontents] using (List.perm_append_singleton _ _).subperm
    · intro p hqueue happ
      rw [howns, Function.update_of_ne hqueue, Function.update_of_ne happ]
  · trivial
  · intro w
    have hlane := h.lane w
    rw [hhand w] at hlane
    by_cases hw : w = i
    · subst hw
      have hdelivery := hlane.delivery
      rw [hcontents] at hdelivery
      constructor
      · simp only [State.setLane, Function.update_self]
        exact hlane.worker.congr (fun _ _ => rfl) hprod
      · simpa [State.setLane] using hlane.framed_eq
      · simpa [State.setLane, AppPc.inHand, Lane.accepted] using hdelivery
    · simpa [State.setLane, hw, AppPc.inHand] using hlane

/-- A lane replaced by itself. -/
theorem setLane_msgQueue_self (s : State σ μ) (i : Nat) :
    s.setLane i { s.lanes i with msgQueue := (s.lanes i).msgQueue } = s := by
  simp [State.setLane]

/-- A step of {lit}`try_dequeue`. -/
theorem tryDequeueStep_inv {s : State σ μ} (h : Inv s) {i : Nat} {pc : TryDequeuePc 100 Obj}
    (hpc : s.app = .tryDequeue i pc) : Inv (s.tryDequeueStep i pc) := by
  have hvalid : pc.Valid (s.lanes i).msgQueue := by
    have happ := h.app
    rw [hpc] at happ
    exact happ
  have hholds : s.app.holds = [] := by
    rw [hpc]
    rfl
  have hhand : ∀ w, s.app.inHand w = [] := by
    intro w
    rw [hpc]
    rfl
  have heffect := tryDequeueStep_spec hvalid
  unfold State.tryDequeueStep
  cases hr : ((s.lanes i).msgQueue.tryDequeueStep pc).2 with
  | running pc' =>
      rw [hr] at heffect
      rcases heffect with ⟨hvalid', hsame⟩
      rw [hsame] at hvalid' ⊢
      rw [setLane_msgQueue_self { s with app := afterTryDequeue i (.running pc') } i]
      exact h.set_app hholds.symm (fun w => (hhand w).symm) hvalid'
  | returned record =>
      rw [hr] at heffect
      cases record with
      | none =>
          have hsame : ((s.lanes i).msgQueue.tryDequeueStep pc).1 = (s.lanes i).msgQueue :=
            heffect
          rw [hsame,
            setLane_msgQueue_self { s with app := afterTryDequeue i (.returned none) } i]
          exact h.set_app hholds.symm (fun w => (hhand w).symm) trivial
      | some pMsgPkg =>
          exact dequeue_inv h hholds hhand heffect
            fun _ _ hprod => tryDequeueStep_producer hvalid hprod

/-- A package in hand carries a pair, and it is the next one to be delivered. -/
theorem Inv.heap_onMessage {s : State σ μ} (h : Inv s) {i : Nat} {pMsgPkg : Obj}
    (hpc : s.app = .onMessage i pMsgPkg) : ∃ pair, s.heap pMsgPkg = .filled pair := by
  have hdelivery := (h.lane i).delivery
  have hmem : s.heap pMsgPkg ∈ (s.lanes i).accepted.map MsgPackage.filled := by
    rw [← hdelivery, hpc]
    simp [AppPc.inHand]
  rcases List.mem_map.mp hmem with ⟨pair, -, hpair⟩
  exact ⟨pair, hpair.symm⟩

/-- {lit}`on_message` gets the pair in hand, and does not crash. -/
theorem onMessageStep_eq {s : State σ μ} {i : Nat} {pMsgPkg : Obj} {pair : σ × μ}
    (hpair : s.heap pMsgPkg = .filled pair) :
    s.onMessageStep i pMsgPkg =
      { s with app := .release i pMsgPkg }.setLane i
        { s.lanes i with delivered := (s.lanes i).delivered ++ [pair] } := by
  simp [State.onMessageStep, hpair, MsgPackage.filled]

/-- The call of {lit}`on_message`. -/
theorem onMessageStep_inv {s : State σ μ} (h : Inv s) {i : Nat} {pMsgPkg : Obj}
    (hpc : s.app = .onMessage i pMsgPkg) : Inv (s.onMessageStep i pMsgPkg) := by
  rcases h.heap_onMessage hpc with ⟨pair, hpair⟩
  rw [onMessageStep_eq hpair]
  constructor
  · have hlanes : ({ s with app := .release i pMsgPkg }.setLane i
        { s.lanes i with delivered := (s.lanes i).delivered ++ [pair] }).owns =
        State.owns { s with app := .release i pMsgPkg } :=
      owns_setLane_of_eq rfl rfl
    have happ : State.owns { s with app := .release i pMsgPkg } = s.owns := by
      rw [owns_setApp]
      apply Function.update_eq_self_iff.mpr
      rw [State.owns, hpc]
      rfl
    rw [hlanes, happ]
    exact h.separated
  · trivial
  · intro w
    have hlane := h.lane w
    rw [hpc] at hlane
    by_cases hw : w = i
    · subst hw
      have hdelivery := hlane.delivery
      constructor
      · simpa [State.setLane] using hlane.worker
      · simpa [State.setLane] using hlane.framed_eq
      · simpa [State.setLane, AppPc.inHand, hpair, Lane.accepted] using hdelivery
    · simpa [State.setLane, hw, AppPc.inHand] using hlane

/-- {lit}`msgPool.release(pMsgPkg)`. -/
theorem releaseStep_inv {s : State σ μ} (h : Inv s) {i : Nat} {pMsgPkg : Obj}
    (hpc : s.app = .release i pMsgPkg) : Inv (s.releaseStep i pMsgPkg) := by
  have howns : (s.releaseStep i pMsgPkg).owns =
      Function.update (Function.update s.owns .app []) .free
        (pMsgPkg :: s.msgPool.objList) := by
    have happ := owns_setApp s (.next (i + 1))
    have hpool := owns_setPool { s with app := .next (i + 1) } (s.msgPool.release pMsgPkg)
    rw [happ] at hpool
    exact hpool
  constructor
  · refine h.separated.transfer (p := .free) (q := .app) (by simp) ?_ ?_
    · rw [howns]
      simpa [State.owns, hpc, AppPc.holds] using
        (List.perm_append_singleton pMsgPkg s.msgPool.objList).symm.subperm
    · intro p hfree happ
      rw [howns, Function.update_of_ne hfree, Function.update_of_ne happ]
  · trivial
  · intro w
    have hlane := h.lane w
    rw [hpc] at hlane
    exact hlane

/-- The application thread goes on to the next queue. -/
theorem next_inv {threads : Nat} {readFirst : Bool} {s : State σ μ} (h : Inv s) {i : Nat}
    (hpc : s.app = .next i) :
    Inv { s with
      app := if i < threads then .isEmpty i (.start readFirst) else .next 0 } := by
  apply h.set_app
  · rw [hpc]
    split <;> rfl
  · intro w
    rw [hpc]
    split <;> rfl
  · split <;> trivial

/-- A step of {lit}`isEmpty`. -/
theorem isEmptyStep_inv {s : State σ μ} (h : Inv s) {i : Nat} {pc : IsEmptyPc 100}
    (hpc : s.app = .isEmpty i pc) :
    Inv { s with app := afterIsEmpty i ((s.lanes i).msgQueue.isEmptyStep pc) } := by
  have hcases : ∀ r, (afterIsEmpty i r).holds = [] ∧
      (∀ w, (afterIsEmpty i r).inHand w = []) ∧ AppOk s.lanes (afterIsEmpty i r) := by
    intro r
    rcases r with pc' | empty
    · exact ⟨rfl, fun _ => rfl, trivial⟩
    · cases empty <;> exact ⟨rfl, fun _ => rfl, trivial⟩
  rcases hcases ((s.lanes i).msgQueue.isEmptyStep pc) with ⟨hholds, hhand, hok⟩
  apply h.set_app
  · rw [hholds, hpc]
    rfl
  · intro w
    rw [hhand, hpc]
    rfl
  · exact hok

/-! ## Runs -/

/-- Every step of every thread keeps the invariant. -/
theorem step_inv {threads : Nat} {s s' : State σ μ} {a : Action σ μ} (h : Inv s)
    (hstep : step threads s a = some s') : Inv s' := by
  cases step_cases hstep with
  | frame w pair hlt hpc => exact frame_inv h hpc pair
  | acquire w pc pair hpc => exact acquireStep_inv h hpc
  | crash w pair hpc => exact crash_inv h hpc
  | setSession w pMsgPkg pair hpc => exact setSessionStep_inv h hpc
  | setMessage w pMsgPkg pair hpc => exact setMessageStep_inv h hpc
  | enqueue w pc pMsgPkg pair hpc => exact enqueueStep_inv h hpc
  | next readFirst i hpc => exact next_inv h hpc
  | isEmpty readFirst i pc hpc => exact isEmptyStep_inv h hpc
  | tryDequeue readFirst i pc hpc => exact tryDequeueStep_inv h hpc
  | onMessage readFirst i pMsgPkg hpc => exact onMessageStep_inv h hpc
  | release readFirst i pMsgPkg hpc => exact releaseStep_inv h hpc

/-- The invariant holds after every interleaving. -/
theorem run_inv {threads : Nat} {garbage : Nat → Fin 101 → Obj} {acts : List (Action σ μ)}
    {s : State σ μ} (hrun : run (step threads) (start garbage) acts = some s) : Inv s :=
  run_invariant (fun _ _ _ => step_inv) (start_inv garbage) hrun

/-! ## Outstanding pairs -/

/-- The packages under way carry the pending pairs. -/
theorem Inv.undelivered_eq {s : State σ μ} (h : Inv s) (w : Nat) :
    s.undelivered w = (s.lanes w).pending.map .filled := by
  have hdelivery : (s.lanes w).delivered.map .filled ++ s.undelivered w =
      (s.lanes w).accepted.map .filled := (h.lane w).delivery
  have hdrop := congrArg (List.drop (s.lanes w).delivered.length) hdelivery
  rw [List.drop_left' (by simp)] at hdrop
  rw [hdrop, Lane.pending, List.map_drop]

/-- The pair that {lit}`on_message` gets was pending. -/
theorem Inv.mem_pending_of_onMessage {s : State σ μ} (h : Inv s) {i : Nat} {pMsgPkg : Obj}
    (hpc : s.app = .onMessage i pMsgPkg) {pair : σ × μ}
    (hpair : s.heap pMsgPkg = .filled pair) : pair ∈ (s.lanes i).pending := by
  have hmem : MsgPackage.filled pair ∈ s.undelivered i := by
    simp [State.undelivered, hpc, AppPc.inHand, hpair]
  rw [h.undelivered_eq, List.mem_map] at hmem
  rcases hmem with ⟨pair', hpending, heq⟩
  exact filled_injective heq ▸ hpending

/-- A pair enters the hand-off by being framed. -/
theorem step_inFlight {threads : Nat} {s s' : State σ μ} {a : Action σ μ}
    (h : step threads s a = some s') {w : Nat} {pair : σ × μ}
    (hpair : pair ∈ (s'.lanes w).pc.inFlight) :
    pair ∈ (s.lanes w).pc.inFlight ∨ a = .frame w pair := by
  cases step_lane h w with
  | quiet henqueued hdelivered hflight =>
      rw [hflight] at hpair
      exact Or.inl hpair
  | frame pair' hidle henqueued hdelivered hflight =>
      rw [hflight, List.mem_singleton] at hpair
      exact Or.inr (hpair ▸ rfl)
  | enqueue pc pMsgPkg pair' hpc heq =>
      rw [heq] at hpair
      rw [hpc]
      cases hr : ((s.lanes w).msgQueue.enqueueStep pMsgPkg pc).2 with
      | running pc' =>
          simp only [Lane.enqueueStep, hr, afterEnqueue, WorkerPc.inFlight] at hpair
          exact Or.inl hpair
      | returned ok =>
          simp [Lane.enqueueStep, hr, afterEnqueue, WorkerPc.inFlight] at hpair
  | deliver readFirst pair' henqueued hdelivered hflight =>
      rw [hflight] at hpair
      exact Or.inl hpair

/-- A pair becomes pending by being handed over. -/
theorem step_pending {threads : Nat} {s s' : State σ μ} {a : Action σ μ}
    (h : step threads s a = some s') {w : Nat} {pair : σ × μ}
    (hpair : pair ∈ (s'.lanes w).pending) : pair ∈ (s.lanes w).outstanding := by
  unfold Lane.outstanding
  unfold Lane.pending Lane.accepted at hpair ⊢
  cases step_lane h w with
  | quiet henqueued hdelivered =>
      rw [henqueued, hdelivered] at hpair
      exact List.mem_append_left _ hpair
  | frame pair' hidle henqueued hdelivered =>
      rw [henqueued, hdelivered] at hpair
      exact List.mem_append_left _ hpair
  | enqueue pc pMsgPkg pair' hpc heq =>
      have hold : pair ∈ (((s.lanes w).enqueued.filter (·.2)).map (·.1)).drop
          (s.lanes w).delivered.length ∨ pair = pair' := by
        rw [heq, Lane.enqueueStep, List.filter_append, List.map_append,
          List.drop_append] at hpair
        rcases List.mem_append.mp hpair with hpending | hnew
        · exact Or.inl hpending
        · right
          have hresult := List.mem_of_mem_drop hnew
          cases hr : ((s.lanes w).msgQueue.enqueueStep pMsgPkg pc).2 with
          | running pc' => simp [hr, enqueueResult] at hresult
          | returned ok => cases ok <;> simp_all [enqueueResult]
      rw [hpc]
      rcases hold with hpending | rfl
      · exact List.mem_append_left _ hpending
      · exact List.mem_append_right _ (List.mem_singleton_self _)
  | deliver readFirst pair' henqueued hdelivered =>
      rw [henqueued, hdelivered, List.length_append, ← List.drop_drop] at hpair
      exact List.mem_append_left _ (List.mem_of_mem_drop hpair)

/-- A pair becomes outstanding by being framed. -/
theorem step_outstanding {threads : Nat} {s s' : State σ μ} {a : Action σ μ}
    (h : step threads s a = some s') {w : Nat} {pair : σ × μ}
    (hpair : pair ∈ (s'.lanes w).outstanding) :
    pair ∈ (s.lanes w).outstanding ∨ a = .frame w pair := by
  rcases List.mem_append.mp hpair with hpending | hflight
  · exact Or.inl (step_pending h hpending)
  · rcases step_inFlight h hflight with hold | hframe
    · exact Or.inl (List.mem_append_right _ hold)
    · exact Or.inr hframe

/-- No pair becomes outstanding in a step that frames none. -/
theorem step_outstanding_of_ne_frame {threads : Nat} {s s' : State σ μ} {a : Action σ μ}
    (h : step threads s a = some s') {w : Nat} {pair : σ × μ} (hframe : a ≠ .frame w pair)
    (hpair : pair ∈ (s'.lanes w).outstanding) : pair ∈ (s.lanes w).outstanding := by
  rcases step_outstanding h hpair with hold | hnew
  · exact hold
  · exact absurd hnew hframe

/-- No pair becomes outstanding for an index that no worker has. -/
theorem step_outstanding_of_le {threads : Nat} {s s' : State σ μ} {a : Action σ μ}
    (h : step threads s a = some s') {w : Nat} (hw : threads ≤ w) {pair : σ × μ}
    (hpair : pair ∈ (s'.lanes w).outstanding) : pair ∈ (s.lanes w).outstanding := by
  refine step_outstanding_of_ne_frame h ?_ hpair
  rintro rfl
  cases step_cases h with
  | frame _ _ hlt _ => exact absurd hlt (Nat.not_lt.mpr hw)

end AppThread
end TinyNet
