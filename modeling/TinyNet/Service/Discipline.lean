import TinyNet.Library.StepSystem
import TinyNet.Service.Sharing

/-!
# One owner per session, one producer per queue

With one service of a session type, the scheduler stays as the service's start left it.
This file adds to what holds of sessions and workers in general that the epoll
descriptors of one start are different, so that a session belongs to exactly one worker,
and derives who works on a session and at which end of a message queue.

Main results:

- Theorem {lit}`serviceStep_inv`: what every step of a single service keeps.
- Theorem {lit}`single_owner`: every session has one worker, every message queue one
  producer and one consumer, and a worker's queue exists as long as the worker does.
-/

namespace TinyNet
namespace Service
namespace Workers

open Library.DescriptorTable
open Library.StepSystem

/-! ## The discipline -/

/-- Each session is registered with exactly one entry of {lit}`procFds`, which is that of
exactly one worker thread, and no other thread works on the session; each queue has one
producer and one consumer; the queue of a worker exists. -/
structure Disciplined (s : State) : Prop where
  owner : ∀ k, k < s.created → ∃ i, i < MAX_THREAD ∧
    (∀ j, j < MAX_THREAD → (s.scheder.procFds j = (s.sessions k).procFd ↔ j = i)) ∧
    ∃ t, t < (s.services 0).procThreads ∧
      (∀ t', t' < (s.services 0).procThreads →
        (((s.services 0).workers t').procIdx = i ↔ t' = t)) ∧
      ∀ x thread op, .session x thread op k ∈ s.log → thread = .worker t
  producer : ∀ q, ∃ t, ∀ x thread, .produce x thread q ∈ s.log →
    thread = .worker t ∧ t < (s.services 0).procThreads ∧
      ((s.services 0).workers t).procIdx = q
  consumer : ∀ x thread q, .consume x thread q ∈ s.log → thread = .app
  queue : ∀ t, t < (s.services 0).procThreads →
    ((s.services 0).workers t).procIdx < (s.services 0).msgQueues

/-- An operation was done by the thread that it should be done by. -/
def EventOk (s : State) : Event → Prop
  | .session _ thread _ k => k < s.created ∧ ∃ t, t < (s.services 0).procThreads ∧
      thread = .worker t ∧ s.scheder.procFds t = (s.sessions k).procFd
  | .produce _ thread q => q < (s.services 0).procThreads ∧ thread = .worker q
  | .consume _ thread _ => thread = .app

/-- The epoll descriptors made so far are different, and open as long as more are being
made. -/
structure Distinct (s : State) : Prop where
  injective : ∀ i j, (s.services 0).pc.made i = true → (s.services 0).pc.made j = true →
    s.scheder.procFds i = s.scheder.procFds j → i = j
  isOpen : ∀ k, (s.services 0).pc = .procCreate k → ∀ i, i < k →
    s.kernel.isOpen (s.scheder.procFds i) = true

/-- What holds in every run of a single service. -/
structure Inv (props : Properties) (s : State) : Prop where
  wired : AllWired (fun _ => props) s
  owned : Owned s
  intact : (s.services 0).pc ≠ .idle → (s.services 0).intact = true
  service : ∀ k, k < s.created → (s.sessions k).service = 0
  distinct : Distinct s
  handling : ∀ t k, t < (s.services 0).procThreads →
    ((s.services 0).workers t).handling = some k →
    k < s.created ∧ ((s.services 0).workers t).procFd = some (s.sessions k).procFd
  log : ∀ e ∈ s.log, EventOk s e

theorem start_inv (props : Properties) (others : Int → Bool) : Inv props (start others) where
  wired := start_wired _ others
  owned := start_owned others
  intact h := absurd rfl h
  service k hk := by simp [start] at hk
  distinct := by constructor <;> simp [start, Pc.made]
  handling t k ht := by simp [start] at ht
  log e he := by simp [start] at he

section Inv

variable {props : Properties} {s s' : State}

/-- A service that has threads is past the first steps of its start. -/
theorem Inv.intact_of_lt (h : Inv props s) {t : Nat} (ht : t < (s.services 0).procThreads) :
    (s.services 0).intact = true := by
  apply h.intact
  intro hpc
  have hcounted := (h.wired 0).counted
  simp only [Counted, hpc] at hcounted
  omega

/-- The descriptors of the workers are those of the scheduler. -/
theorem Inv.procFds_eq (h : Inv props s) {t : Nat} (ht : t < (s.services 0).procThreads) :
    s.scheder.procFds t = (s.services 0).ownFds t :=
  (h.wired 0).procFds_eq (h.intact_of_lt ht) ht

theorem Inv.lt_maxThread (h : Inv props s) {t : Nat} (ht : t < (s.services 0).procThreads) :
    t < MAX_THREAD := by
  have hrange := workerCount_range props.threads
  have hcounted := (h.wired 0).counted
  unfold Counted at hcounted
  cases hpc : (s.services 0).pc <;> simp only [hpc] at hcounted <;> omega

/-- There is no session before the start has ended. -/
theorem Inv.serving (h : Inv props s) {k : Nat} (hk : k < s.created) :
    (s.services 0).pc = .serving := by
  have hserving := h.owned.serving k hk
  rwa [h.service k hk] at hserving

/-- A session is registered with the descriptor of a worker. -/
theorem Inv.session_worker (h : Inv props s) {k : Nat} (hk : k < s.created) :
    ∃ t, t < (s.services 0).procThreads ∧ s.scheder.procFds t = (s.sessions k).procFd := by
  rcases h.owned.session k hk with ⟨t, ht, hfd⟩
  rw [h.service k hk] at ht hfd
  exact ⟨t, ht, (h.procFds_eq ht).trans hfd.symm⟩

theorem Inv.disciplined (h : Inv props s) : Disciplined s where
  owner k hk := by
    rcases h.session_worker hk with ⟨t, ht, hfd⟩
    have hmade : ∀ j, j < MAX_THREAD → (s.services 0).pc.made j = true := by
      intro j hj
      simpa [h.serving hk, Pc.made] using hj
    have hinj : ∀ j, j < MAX_THREAD → (s.scheder.procFds j = (s.sessions k).procFd ↔ j = t) := by
      intro j hj
      rw [← hfd]
      constructor
      · exact h.distinct.injective j t (hmade j hj) (hmade t (h.lt_maxThread ht))
      · rintro rfl
        rfl
    refine ⟨t, h.lt_maxThread ht, hinj, t, ht, ?_, ?_⟩
    · intro t' ht'
      rw [(h.wired 0).procIdx t' ht']
    · intro x thread op hmem
      rcases h.log _ hmem with ⟨-, t', ht', rfl, hfd'⟩
      rw [(hinj t' (h.lt_maxThread ht')).mp hfd']
  producer q := by
    refine ⟨q, ?_⟩
    intro x thread hmem
    rcases h.log _ hmem with ⟨hq, rfl⟩
    exact ⟨rfl, hq, (h.wired 0).procIdx q hq⟩
  consumer x thread q hmem := h.log _ hmem
  queue t ht := by
    rw [(h.wired 0).procIdx t ht]
    exact (h.wired 0).queue_lt ht

/-! ## The start -/

/-- What a step of the start leaves alone. -/
structure MainFrame (s s' : State) : Prop where
  sessions : s'.sessions = s.sessions
  created : s'.created = s.created
  log : s'.log = s.log
  procThreads : (s.services 0).procThreads ≤ (s'.services 0).procThreads
  handling : ∀ t k, t < (s'.services 0).procThreads →
    ((s'.services 0).workers t).handling = some k →
    t < (s.services 0).procThreads ∧ ((s.services 0).workers t).handling = some k

theorem mainFrame_setService {svc : TCPService}
    (hthreads : svc.procThreads = (s.services 0).procThreads)
    (hworkers : svc.workers = (s.services 0).workers) : MainFrame s (s.setService 0 svc) := by
  constructor <;> simp_all [State.setService]

theorem mainFrame_writeScheder {kernel : Table} {scheder : Scheduler} {svc : TCPService}
    (hthreads : svc.procThreads = (s.services 0).procThreads)
    (hworkers : svc.workers = (s.services 0).workers) :
    MainFrame s ({ s with kernel := kernel }.writeScheder 0 scheder svc) := by
  constructor <;> simp_all [State.writeScheder]

theorem mainStep_frame {ret : Option Int} (hstep : s.mainStep props 0 ret = some s') :
    MainFrame s s' := by
  cases mainStep_cases hstep with
  | idle _ | restarted _ _ | queue _ _ | app _ => exact mainFrame_setService rfl rfl
  | epollFails _ | epollMade _ _ _ _ | procFails _ _ | procMade _ _ _ _ _ | counts _ =>
      exact mainFrame_writeScheder rfl rfl
  | thread i _ =>
      refine ⟨rfl, rfl, rfl, by simp [State.setService], ?_⟩
      intro t k ht hk
      simp only [State.setService, Function.update_self] at ht hk
      rcases eq_or_ne t (s.services 0).procThreads with rfl | hne
      · simp at hk
      · rw [Function.update_of_ne hne] at hk
        exact ⟨by omega, hk⟩

/-- The scheduler stays with the only service. -/
theorem mainStep_intact {ret : Option Int}
    (h : (s.services 0).pc ≠ .idle → (s.services 0).intact = true)
    (hstep : s.mainStep props 0 ret = some s') : (s'.services 0).intact = true := by
  cases mainStep_cases hstep with
  | idle _ => simp [State.setService]
  | restarted hpc _ | queue _ hpc | thread _ hpc | app hpc =>
      simpa [State.setService] using h (by simp [hpc])
  | epollFails hpc | epollMade _ _ hpc _ | procFails _ hpc | procMade _ _ _ hpc _ | counts hpc =>
      simpa [State.writeScheder] using h (by simp [hpc])

/-- A step of the start that makes no descriptor. -/
theorem Distinct.of_made (h : Distinct s) (hfds : s'.scheder.procFds = s.scheder.procFds)
    (hmade : ∀ i, (s'.services 0).pc.made i = true → (s.services 0).pc.made i = true)
    (hpc : ∀ k, (s'.services 0).pc ≠ .procCreate k) : Distinct s' := by
  constructor
  · intro i j hi hj
    rw [hfds]
    exact h.injective i j (hmade i hi) (hmade j hj)
  · exact fun k hk => absurd hk (hpc k)

/-- A service of which no descriptor has been made yet, or will be used. -/
theorem distinct_of_none (hmade : ∀ i, (s.services 0).pc.made i = false) : Distinct s := by
  constructor
  · intro i j hi
    rw [hmade] at hi
    contradiction
  · intro k hk i hi
    have hfalse := hmade i
    simp only [hk, Pc.made, decide_eq_false_iff_not] at hfalse
    contradiction

/-- The next epoll descriptor is different from the ones before, which are open. -/
theorem procMade_distinct {k : Nat} {fd : Int} {kernel : Table} (h : Distinct s)
    (hpc : (s.services 0).pc = .procCreate k) (hkernel : s.kernel.handOut fd = some kernel) :
    Distinct ({ s with kernel := kernel }.writeScheder 0
      { s.scheder with procFds := Function.update s.scheder.procFds k fd }
      { s.services 0 with
        ownFds := Function.update (s.services 0).ownFds k fd
        pc := if k + 1 < MAX_THREAD then .procCreate (k + 1) else .processor }) := by
  rcases Table.handOut_eq_some hkernel with ⟨-, hclosed, rfl⟩
  have hne : ∀ i, i < k → s.scheder.procFds i ≠ fd := by
    rintro i hi rfl
    rw [h.isOpen k hpc i hi] at hclosed
    contradiction
  have hmade : ∀ i, i < k → (s.services 0).pc.made i = true := by
    intro i hi
    simpa [hpc, Pc.made] using hi
  -- what is made after the step, with the new descriptor last
  have hle : ∀ i, Pc.made i (if k + 1 < MAX_THREAD then .procCreate (k + 1) else .processor) =
      true → i < k + 1 := by
    intro i hi
    split_ifs at hi <;> simp only [Pc.made, decide_eq_true_iff] at hi <;> omega
  constructor
  · intro i j hi hj heq
    have hi' : i < k + 1 := hle i (by simpa [State.writeScheder] using hi)
    have hj' : j < k + 1 := hle j (by simpa [State.writeScheder] using hj)
    simp only [State.writeScheder] at heq
    rcases eq_or_ne i k with rfl | hik
    · rcases eq_or_ne j i with rfl | hjk
      · rfl
      · rw [Function.update_self, Function.update_of_ne hjk] at heq
        exact absurd heq.symm (hne j (by omega))
    · rcases eq_or_ne j k with rfl | hjk
      · rw [Function.update_self, Function.update_of_ne hik] at heq
        exact absurd heq (hne i (by omega))
      · rw [Function.update_of_ne hik, Function.update_of_ne hjk] at heq
        exact h.injective i j (hmade i (by omega)) (hmade j (by omega)) heq
  · intro k' hk' i hi
    have hk : k' = k + 1 := by
      simp only [State.writeScheder, if_true] at hk'
      split_ifs at hk'
      exact (Pc.procCreate.inj hk').symm
    simp only [State.writeScheder]
    rcases eq_or_ne i k with rfl | hik
    · simp
    · rw [Function.update_of_ne hik, Function.update_of_ne (hne i (by omega))]
      exact h.isOpen k hpc i (by omega)

theorem nextThread_ne_procCreate (props : Properties) (i k : Nat) :
    State.nextThread props i ≠ .procCreate k := by
  unfold State.nextThread
  split_ifs <;> simp

/-- The start of the threads makes no descriptor. -/
theorem Distinct.nextThread (h : Distinct s) (props : Properties) (i : Nat)
    (hfds : s'.scheder.procFds = s.scheder.procFds)
    (hmade : ∀ j, j < MAX_THREAD → (s.services 0).pc.made j = true)
    (hpc : (s'.services 0).pc = State.nextThread props i) : Distinct s' := by
  refine h.of_made hfds ?_ ?_
  · intro j hj
    rw [hpc, made_nextThread, decide_eq_true_iff] at hj
    exact hmade j hj
  · intro k
    rw [hpc]
    exact nextThread_ne_procCreate props i k

theorem mainStep_distinct {ret : Option Int} (h : Distinct s)
    (hstep : s.mainStep props 0 ret = some s') : Distinct s' := by
  cases mainStep_cases hstep with
  | idle _ => exact distinct_of_none (by simp [State.setService, Pc.made])
  | epollFails _ | epollMade _ _ _ _ | procFails _ _ =>
      exact distinct_of_none (by simp [State.writeScheder, Pc.made])
  | procMade k fd kernel hpc hkernel => exact procMade_distinct h hpc hkernel
  | restarted hpc _ | queue _ hpc | app hpc =>
      exact h.of_made rfl (by simp [State.setService, hpc, Pc.made]) (by simp [State.setService])
  | counts hpc =>
      exact h.nextThread props 0 rfl (by simp [hpc, Pc.made]) (by simp [State.writeScheder])
  | thread i hpc =>
      exact h.nextThread props (i + 1) rfl (by simp [hpc, Pc.made]) (by simp [State.setService])

theorem mainStep_inv {ret : Option Int} (h : Inv props s)
    (hstep : s.mainStep props 0 ret = some s') : Inv props s' := by
  have hframe := mainStep_frame hstep
  have hnone : s.created = 0 := by
    by_contra hne
    have hserving := h.serving (show 0 < s.created by omega)
    rw [State.mainStep, hserving] at hstep
    contradiction
  have hwired : s.mainStep ((fun _ => props) 0) 0 ret = some s' := hstep
  refine ⟨mainStep_wired h.wired hwired, mainStep_owned h.wired h.owned hwired,
    fun _ => mainStep_intact h.intact hstep, ?_, mainStep_distinct h.distinct hstep, ?_, ?_⟩
  · rw [hframe.created, hnone]
    exact fun k hk => by omega
  · intro t k ht hk
    rcases hframe.handling t k ht hk with ⟨ht', hk'⟩
    have hlt := (h.handling t k ht' hk').1
    omega
  · rw [hframe.log]
    intro e he
    have hok := h.log e he
    cases e with
    | session x thread op k =>
        have hlt : k < s.created := hok.1
        omega
    | produce x thread q =>
        exact ⟨lt_of_lt_of_le hok.1 hframe.procThreads, hok.2⟩
    | consume x thread q => exact hok

/-! ## Sessions and workers -/

/-- What was said of an operation stays true as sessions are added and workers go on. -/
theorem EventOk.mono {e : Event} (h : EventOk s e)
    (hthreads : (s'.services 0).procThreads = (s.services 0).procThreads)
    (hscheder : s'.scheder = s.scheder) (hcreated : s.created ≤ s'.created)
    (hprocFd : ∀ k, k < s.created → (s'.sessions k).procFd = (s.sessions k).procFd) :
    EventOk s' e := by
  cases e with
  | session x thread op k =>
      rcases h with ⟨hk, t, ht, hthread, hfd⟩
      refine ⟨by omega, t, by omega, hthread, ?_⟩
      rw [hscheder, hprocFd k hk]
      exact hfd
  | produce x thread q => exact ⟨by rw [hthreads]; exact h.1, h.2⟩
  | consume x thread q => exact h

/-- A worker, and with it possibly the sessions and the kernel's table, goes on. -/
theorem Inv.setWorker (h : Inv props s) {t : Nat} {worker : Worker} {sessions : Nat → Session}
    {kernel : Table} (ht : t < (s.services 0).procThreads)
    (hwired : AllWired (fun _ => props) (s.setWorker 0 t worker))
    (howned : Owned { s.setWorker 0 t worker with sessions := sessions, kernel := kernel })
    (hsessions : Fewer s.sessions sessions)
    (hhandling : ∀ k, worker.handling = some k →
      k < s.created ∧ worker.procFd = some (s.sessions k).procFd) :
    Inv props { s.setWorker 0 t worker with sessions := sessions, kernel := kernel } := by
  have hsvc : (s.setWorker 0 t worker).services 0 =
      { s.services 0 with workers := Function.update (s.services 0).workers t worker } := by
    simp [State.setWorker, State.setService]
  have hstarted : ∀ k, (s.services 0).pc ≠ .procCreate k := by
    intro k hpc
    have hcounted := (h.wired 0).counted
    simp only [Counted, hpc] at hcounted
    omega
  refine ⟨hwired, howned, ?_, ?_, ?_, ?_, ?_⟩
  · simpa [hsvc] using h.intact
  · intro k hk
    show (sessions k).service = 0
    rw [hsessions.service]
    exact h.service k hk
  · exact h.distinct.of_made rfl (by simp [hsvc]) (by simpa [hsvc] using hstarted)
  · intro t' k ht' hk
    simp only [hsvc] at ht' hk ⊢
    show k < s.created ∧ (Function.update (s.services 0).workers t worker t').procFd =
      some (sessions k).procFd
    rw [hsessions.procFd]
    rcases eq_or_ne t' t with rfl | hne
    · rw [Function.update_self] at hk ⊢
      exact hhandling k hk
    · rw [Function.update_of_ne hne] at hk ⊢
      exact h.handling t' k ht' hk
  · intro e he
    exact (h.log e he).mono (by simp [hsvc]) rfl le_rfl fun k _ => hsessions.procFd k

theorem push_inv (h : Inv props s) {fd : Int} {kernel : Table}
    (hpc : (s.services 0).pc = .serving)
    (howned : Owned { s with
      kernel := kernel
      sessions := Function.update s.sessions s.created
        { service := 0, fd := fd, procFd := s.scheder.procFds (s.scheder.procIdx fd)
          registered := true }
      created := s.created + 1 }) :
    Inv props { s with
      kernel := kernel
      sessions := Function.update s.sessions s.created
        { service := 0, fd := fd, procFd := s.scheder.procFds (s.scheder.procIdx fd)
          registered := true }
      created := s.created + 1 } := by
  have hold : ∀ k, k < s.created → ∀ session : Session,
      Function.update s.sessions s.created session k = s.sessions k :=
    fun k hk _ => Function.update_of_ne (by omega) ..
  refine ⟨h.wired, howned, h.intact, ?_, ⟨h.distinct.injective, ?_⟩, ?_, ?_⟩
  · intro k hk
    have hk' : k < s.created + 1 := hk
    rcases eq_or_ne k s.created with rfl | hne
    · simp
    · simpa [Function.update_of_ne hne] using h.service k (by omega)
  · intro k hk
    rw [show (s.services 0).pc = .procCreate k from hk] at hpc
    contradiction
  · intro t k ht hk
    have hhandling := h.handling t k ht hk
    refine ⟨Nat.lt_succ_of_lt hhandling.1, ?_⟩
    simpa only [hold k hhandling.1] using hhandling.2
  · intro e he
    refine (h.log e he).mono rfl rfl (Nat.le_succ _) ?_
    intro k hk
    simp only [hold k hk]

theorem Inv.append_log (h : Inv props s) {events : List Event}
    (hevents : ∀ e ∈ events, EventOk s e) : Inv props { s with log := s.log ++ events } where
  wired := h.wired
  owned := ⟨h.owned.worker, h.owned.serving, h.owned.session⟩
  intact := h.intact
  service := h.service
  distinct := ⟨h.distinct.injective, h.distinct.isOpen⟩
  handling := h.handling
  log e he := by
    rcases List.mem_append.mp he with hold | hnew
    · exact (h.log e hold).mono rfl rfl le_rfl fun _ _ => rfl
    · exact (hevents e hnew).mono rfl rfl le_rfl fun _ _ => rfl

/-- A worker that handles an event does so for a session of its own. -/
theorem work_eventOk (h : Inv props s) {t k : Nat} {op : Op}
    (ht : t < (s.services 0).procThreads)
    (hk : ((s.services 0).workers t).handling = some k) {e : Event}
    (he : e = .session 0 (.worker t) op k ∨
      e = .produce 0 (.worker t) ((s.services 0).workers t).procIdx) : EventOk s e := by
  rcases h.handling t k ht hk with ⟨hlt, hfd⟩
  rcases he with rfl | rfl
  · refine ⟨hlt, t, ht, rfl, ?_⟩
    rw [h.procFds_eq ht]
    exact (h.owned.worker 0 t _ ht hfd).symm
  · rw [(h.wired 0).procIdx t ht]
    exact ⟨ht, rfl⟩

/-- Every step of a single service keeps the invariant. -/
theorem serviceStep_inv {a : Act} (h : Inv props s)
    (hstep : serviceStep props 0 s a = some s') : Inv props s' := by
  have hunshared : unshared s (0, a) = true := by
    cases serviceStep_cases hstep with
    | push fd kernel hpc _ => exact h.intact (by simp [hpc])
    | readProcFd t ht _ => exact h.intact_of_lt ht
    | main ret _ _ => rfl
    | epollWait t k _ _ _ _ => rfl
    | work t k op events _ _ _ => rfl
    | finish t k op sessions kernel _ _ _ _ => rfl
    | dequeue q => rfl
  have hstep' : serviceStep ((fun _ => props) 0) 0 s a = some s' := hstep
  have hwired := serviceStep_wired h.wired hstep'
  have howned := serviceStep_owned h.wired h.owned hunshared hstep'
  have hsame : Fewer s.sessions s.sessions := .refl _
  cases serviceStep_cases hstep with
  | main ret _ hmain => exact mainStep_inv h hmain
  | push fd kernel hpc _ => exact push_inv h hpc howned
  | readProcFd t ht hnone =>
      refine h.setWorker ht hwired howned hsame ?_
      intro k hk
      have hfd := (h.handling t k ht hk).2
      rw [hnone] at hfd
      contradiction
  | epollWait t k ht hk _ hfd =>
      refine h.setWorker ht hwired howned hsame ?_
      rintro k' heq
      obtain rfl := Option.some.inj heq
      exact ⟨hk, hfd⟩
  | work t k op events ht hk hevents =>
      exact h.append_log fun e he => work_eventOk h ht hk (hevents e he)
  | finish t k op sessions kernel ht _ hsessions _ =>
      refine h.setWorker ht hwired howned hsessions ?_
      exact fun k hk => absurd hk (by simp)
  | dequeue q => exact h.append_log (by simp [EventOk])

end Inv

/-- In every run of a single service every session has one worker, every message queue
has one producer and one consumer, and the queue of a worker exists. -/
theorem single_owner (props : Properties) (others : Int → Bool) (acts : List Act) :
    Always (serviceStep props 0) Disciplined (start others) acts :=
  always_of_invariant (fun _ _ _ h hstep => serviceStep_inv h hstep) (fun _ h => h.disciplined)
    (start_inv props others) acts

/-- With two workers a session with an odd descriptor is the second one's. -/
example : (run (serviceStep { threads := 2, app_run := true } 0) fresh
    (List.flatten
      [[.main none], (List.range (MAX_THREAD + 1)).map (fun k => .main (some (k : Int))),
        List.replicate 6 (.main none),
        [.readProcFd 1, .push 201, .epollWait 1 0, .work 1 .recv, .work 1 .enqueue,
          .dequeue 1]])).map (·.log) =
    some [.session 0 (.worker 1) .recv 0, .session 0 (.worker 1) .enqueue 0,
      .produce 0 (.worker 1) 1, .consume 0 .app 1] := by
  decide +kernel

end Workers
end Service
end TinyNet
