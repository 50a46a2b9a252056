import TinyNet.Library.StepSystem
import TinyNet.Service.Sharing

/-!
# Services keep to their own workers

The epoll descriptors that the starts of different services make are different, and stay
open.  So workers and sessions that keep to the descriptors of their own service are
apart from those of every other: no worker polls for, or handles, the sessions of another
service.

Main results:

- Theorem {lit}`serviceStep_apart`: steps that read the scheduler only while it is theirs
  keep the descriptors of services and sessions apart.
- Theorem {lit}`served_by_own_worker`: in runs of such steps every session is registered
  with a worker of its own service, and no worker of another polls or handles it.
- Theorem {lit}`served_by_other_service`: a session of one service that is registered
  with the worker of another.
-/

namespace TinyNet
namespace Service
namespace Workers

open Library.DescriptorTable
open Library.StepSystem

/-- Every session is registered with the epoll descriptor that the start of its own service
made for one of its workers, which polls that descriptor and no other; and no worker of
another service polls it or handles an event of the session. -/
structure Served (s : State) : Prop where
  own : ∀ k, k < s.created → ∃ t, t < (s.services (s.sessions k).service).procThreads ∧
    (s.sessions k).procFd = (s.services (s.sessions k).service).ownFds t ∧
    ∀ fd, ((s.services (s.sessions k).service).workers t).procFd = some fd →
      fd = (s.sessions k).procFd
  other : ∀ k x t, k < s.created → t < (s.services x).procThreads →
    x ≠ (s.sessions k).service →
    ((s.services x).workers t).procFd ≠ some (s.sessions k).procFd ∧
      ((s.services x).workers t).handling ≠ some k

/-! ## Descriptors are kept apart -/

namespace State

/-- The start of the service {lit}`x` has made the epoll descriptor for its worker
{lit}`i`. -/
def Made (s : State) (x i : Nat) (fd : Int) : Prop :=
  (s.services x).pc.made i = true ∧ (s.services x).ownFds i = fd

/-- The worker {lit}`t` of the service {lit}`x` handles an event of the session. -/
def Handles (s : State) (x t k : Nat) : Prop :=
  t < (s.services x).procThreads ∧ ((s.services x).workers t).handling = some k

/-- The session is in an epoll set or in the hands of a worker. -/
def Live (s : State) (k : Nat) : Prop :=
  k < s.created ∧ ((s.sessions k).registered = true ∨ ∃ x t, s.Handles x t k)

end State

/-- The epoll descriptors of all services are open and different from one another and from
those of the sessions; a worker handles events of its own descriptor. -/
structure Apart (s : State) : Prop where
  isOpen : ∀ x i fd, s.Made x i fd → s.kernel.isOpen fd = true
  made : ∀ x y i j fd, s.Made x i fd → s.Made y j fd → x = y ∧ i = j
  handling : ∀ x t k, s.Handles x t k →
    k < s.created ∧ ((s.services x).workers t).procFd = some (s.sessions k).procFd
  session : ∀ k, s.Live k →
    s.kernel.isOpen (s.sessions k).fd = true ∧ ∀ x i, ¬s.Made x i (s.sessions k).fd
  single : ∀ k k', s.Live k → s.Live k' → (s.sessions k).fd = (s.sessions k').fd → k = k'

section Apart

variable {cfg : Nat → Properties} {s s' : State} {x t : Nat}

theorem start_apart (others : Int → Bool) : Apart (start others) := by
  constructor <;> simp [start, State.Made, State.Handles, State.Live, Pc.made]

/-- A worker polls a descriptor that the start of its service made. -/
theorem Owned.made (hwired : AllWired cfg s) (h : Owned s) {fd : Int}
    (ht : t < (s.services x).procThreads)
    (hfd : ((s.services x).workers t).procFd = some fd) : s.Made x t fd :=
  ⟨(hwired x).made_of_lt ht, (h.worker x t fd ht hfd).symm⟩

theorem Apart.served (hwired : AllWired cfg s) (howned : Owned s) (h : Apart s) :
    Served s where
  own k hk := by
    rcases howned.session k hk with ⟨t, ht, hfd⟩
    refine ⟨t, ht, hfd, ?_⟩
    intro fd hpolled
    rw [hfd]
    exact howned.worker _ t fd ht hpolled
  other k x t hk ht hx := by
    have hpolled : ((s.services x).workers t).procFd ≠ some (s.sessions k).procFd := by
      intro hfd
      rcases howned.session k hk with ⟨t', ht', hfd'⟩
      have hown : s.Made (s.sessions k).service t' (s.sessions k).procFd :=
        ⟨(hwired _).made_of_lt ht', hfd'.symm⟩
      exact hx (h.made _ _ _ _ _ (howned.made hwired ht hfd) hown).1
    exact ⟨hpolled, fun hk' => hpolled (h.handling x t k ⟨ht, hk'⟩).2⟩

/-- No two workers handle events of one session. -/
theorem Apart.handles_unique (hwired : AllWired cfg s) (howned : Owned s) (h : Apart s)
    {x' t' k : Nat} (hk : s.Handles x t k) (hk' : s.Handles x' t' k) : x = x' ∧ t = t' :=
  h.made _ _ _ _ _ (howned.made hwired hk.1 (h.handling x t k hk).2)
    (howned.made hwired hk'.1 (h.handling x' t' k hk').2)

/-- A step that makes no descriptor, hands no event to a worker, and closes none that is in
use after it. -/
theorem Apart.mono (h : Apart s)
    (hopen : ∀ fd, s.kernel.isOpen fd = true → s'.kernel.isOpen fd = true ∨
      ((∀ x i, ¬s.Made x i fd) ∧ ∀ k, s'.Live k → (s.sessions k).fd ≠ fd))
    (hmade : ∀ x i fd, s'.Made x i fd → s.Made x i fd)
    (hhandles : ∀ x t k, s'.Handles x t k → s.Handles x t k ∧
      ((s'.services x).workers t).procFd = ((s.services x).workers t).procFd)
    (hsessions : Fewer s.sessions s'.sessions) (hcreated : s'.created = s.created) :
    Apart s' := by
  have hlive : ∀ k, s'.Live k → s.Live k := by
    rintro k ⟨hk, hregistered | ⟨x, t, hk'⟩⟩
    · exact ⟨hcreated ▸ hk, Or.inl (hsessions.registered k hregistered)⟩
    · exact ⟨hcreated ▸ hk, Or.inr ⟨x, t, (hhandles x t k hk').1⟩⟩
  constructor
  · intro x i fd hfd
    have hold := hmade x i fd hfd
    exact (hopen fd (h.isOpen x i fd hold)).resolve_right fun hunused => hunused.1 x i hold
  · exact fun x y i j fd hx hy => h.made x y i j fd (hmade _ _ _ hx) (hmade _ _ _ hy)
  · intro x t k hk
    rcases hhandles x t k hk with ⟨hold, hfd⟩
    rw [hcreated, hfd, hsessions.procFd]
    exact h.handling x t k hold
  · intro k hk
    rcases h.session k (hlive k hk) with ⟨hfd, hne⟩
    rw [hsessions.fd]
    refine ⟨(hopen _ hfd).resolve_right fun hunused => hunused.2 k hk rfl, ?_⟩
    exact fun x i hi => hne x i (hmade x i _ hi)
  · intro k k' hk hk'
    rw [hsessions.fd, hsessions.fd]
    exact h.single k k' (hlive k hk) (hlive k' hk')

/-! ## The start -/

/-- The services other than the one that takes a step. -/
def Others (s s' : State) (x : Nat) : Prop :=
  ∀ y, y ≠ x → (s'.services y).pc = (s.services y).pc ∧
    (s'.services y).ownFds = (s.services y).ownFds ∧
    (s'.services y).procThreads = (s.services y).procThreads ∧
    (s'.services y).workers = (s.services y).workers

theorem others_setService (s : State) (x : Nat) (svc : TCPService) :
    Others s (s.setService x svc) x := by
  intro y hne
  simp [State.setService, Function.update_of_ne hne]

theorem others_writeScheder (s : State) (x : Nat) (scheder : Scheduler) (svc : TCPService) :
    Others s (s.writeScheder x scheder svc) x := by
  intro y hne
  simp [State.writeScheder, hne]

theorem Others.made {y i : Nat} {fd : Int} (h : Others s s' x) (hne : y ≠ x) :
    s'.Made y i fd ↔ s.Made y i fd := by
  rw [State.Made, State.Made, (h y hne).1, (h y hne).2.1]

theorem Others.handles {y k : Nat} (h : Others s s' x) (hne : y ≠ x) :
    s'.Handles y t k ↔ s.Handles y t k := by
  rw [State.Handles, State.Handles, (h y hne).2.2.1, (h y hne).2.2.2]

/-- The descriptors open after a step of the start are those open before, and possibly a new
one. -/
theorem isOpen_of_handOut {kernel kernel' : Table} {fd : Int}
    (hkernel : kernel.handOut fd = some kernel') {fd' : Int} (hopen : kernel.isOpen fd' = true) :
    kernel'.isOpen fd' = true := by
  rcases Table.handOut_eq_some hkernel with ⟨-, hclosed, rfl⟩
  have hne : fd' ≠ fd := by
    rintro rfl
    rw [hopen] at hclosed
    contradiction
  exact (Function.update_of_ne hne ..).trans hopen

/-- A step of the start that makes no descriptor for a worker. -/
theorem Apart.of_main (h : Apart s) (hother : Others s s' x)
    (hopen : ∀ fd, s.kernel.isOpen fd = true → s'.kernel.isOpen fd = true)
    (hmade : ∀ i, (s'.services x).pc.made i = true → (s.services x).pc.made i = true)
    (hfds : (s'.services x).ownFds = (s.services x).ownFds)
    (hworkers : ∀ t k, s'.Handles x t k → s.Handles x t k ∧
      ((s'.services x).workers t).procFd = ((s.services x).workers t).procFd)
    (hsessions : s'.sessions = s.sessions) (hcreated : s'.created = s.created) : Apart s' := by
  refine h.mono (fun fd hfd => Or.inl (hopen fd hfd)) ?_ ?_ (hsessions ▸ .refl _) hcreated
  · intro y i fd hfd
    rcases eq_or_ne y x with rfl | hne
    · exact ⟨hmade i hfd.1, hfds ▸ hfd.2⟩
    · exact (hother.made hne).mp hfd
  · intro y t k hk
    rcases eq_or_ne y x with rfl | hne
    · exact hworkers t k hk
    · exact ⟨(hother.handles hne).mp hk, by rw [(hother y hne).2.2.2]⟩

/-- A step that makes one descriptor, which is not open before, and changes nothing else. -/
theorem Apart.grow {k : Nat} {fd : Int} (h : Apart s) (hclosed : s.kernel.isOpen fd = false)
    (hnew : s'.kernel.isOpen fd = true)
    (hopen : ∀ fd', s.kernel.isOpen fd' = true → s'.kernel.isOpen fd' = true)
    (hmade : ∀ y i fd', s'.Made y i fd' → s.Made y i fd' ∨ (y = x ∧ i = k ∧ fd' = fd))
    (hhandles : ∀ y t k', s'.Handles y t k' ↔ s.Handles y t k')
    (hworkers : ∀ y, (s'.services y).workers = (s.services y).workers)
    (hsessions : s'.sessions = s.sessions) (hcreated : s'.created = s.created) : Apart s' := by
  have hnot : ∀ y i, ¬s.Made y i fd := by
    intro y i hfd
    rw [h.isOpen y i fd hfd] at hclosed
    contradiction
  have hlive : ∀ k', s'.Live k' → s.Live k' := by
    intro k' hk'
    simpa only [State.Live, hsessions, hcreated, hhandles] using hk'
  constructor
  · intro y i fd' hfd
    rcases hmade y i fd' hfd with hold | ⟨-, -, rfl⟩
    · exact hopen fd' (h.isOpen y i fd' hold)
    · exact hnew
  · intro y z i j fd' hy hz
    rcases hmade y i fd' hy with hy | ⟨rfl, rfl, rfl⟩
    · rcases hmade z j fd' hz with hz | ⟨-, -, rfl⟩
      · exact h.made y z i j fd' hy hz
      · exact absurd hy (hnot y i)
    · rcases hmade z j _ hz with hz | ⟨rfl, rfl, -⟩
      · exact absurd hz (hnot z j)
      · exact ⟨rfl, rfl⟩
  · intro y t k' hk'
    rw [hcreated, hsessions, hworkers]
    exact h.handling y t k' ((hhandles y t k').mp hk')
  · intro k' hk'
    rcases h.session k' (hlive k' hk') with ⟨hfd, hne⟩
    rw [hsessions]
    refine ⟨hopen _ hfd, ?_⟩
    intro y i hi
    rcases hmade y i _ hi with hold | ⟨-, -, heq⟩
    · exact hne y i hold
    · rw [heq, hclosed] at hfd
      contradiction
  · intro k' k'' hk' hk''
    rw [hsessions]
    exact h.single k' k'' (hlive k' hk') (hlive k'' hk'')

/-- The start makes the next descriptor. -/
theorem procMade_apart {k : Nat} {fd : Int} {kernel : Table} (h : Apart s)
    (hpc : (s.services x).pc = .procCreate k) (hkernel : s.kernel.handOut fd = some kernel) :
    Apart ({ s with kernel := kernel }.writeScheder x
      { s.scheder with procFds := Function.update s.scheder.procFds k fd }
      { s.services x with
        ownFds := Function.update (s.services x).ownFds k fd
        pc := if k + 1 < MAX_THREAD then .procCreate (k + 1) else .processor }) := by
  generalize hs' : State.writeScheder _ _ _ _ = s'
  have hother : Others s s' x := by
    rw [← hs']
    exact others_writeScheder { s with kernel := kernel } x _ _
  obtain ⟨hkernel', hsessions, hcreated⟩ :
      s'.kernel = kernel ∧ s'.sessions = s.sessions ∧ s'.created = s.created := by
    rw [← hs']
    exact ⟨rfl, rfl, rfl⟩
  rcases Table.handOut_eq_some hkernel with ⟨-, hclosed, hnew⟩
  refine h.grow (x := x) (k := k) hclosed ?_ ?_ ?_ ?_ ?_ hsessions hcreated
  · rw [hkernel', hnew]
    exact Function.update_self ..
  · rw [hkernel']
    exact fun fd' => isOpen_of_handOut hkernel
  · -- the descriptors made after the step are those made before and the new one
    intro y i fd' hfd
    rcases eq_or_ne y x with rfl | hne
    · rw [← hs'] at hfd
      simp only [State.Made, State.writeScheder, if_true] at hfd
      rcases hfd with ⟨hi, hfd⟩
      rcases eq_or_ne i k with rfl | hik
      · rw [Function.update_self] at hfd
        exact Or.inr ⟨rfl, rfl, hfd.symm⟩
      · rw [Function.update_of_ne hik] at hfd
        refine Or.inl ⟨?_, hfd⟩
        rw [hpc]
        split_ifs at hi <;> simp only [Pc.made, decide_eq_true_iff] at hi ⊢ <;> omega
    · exact Or.inl ((hother.made hne).mp hfd)
  · intro y t k'
    rcases eq_or_ne y x with rfl | hne
    · rw [← hs']
      simp [State.Handles, State.writeScheder]
    · exact hother.handles hne
  · intro y
    rcases eq_or_ne y x with rfl | hne
    · rw [← hs']
      simp [State.writeScheder]
    · exact (hother y hne).2.2.2

theorem mainStep_apart {ret : Option Int} (h : Apart s)
    (hstep : s.mainStep (cfg x) x ret = some s') : Apart s' := by
  -- most steps of the start leave the workers, and what they handle, as they are
  have hset : ∀ {svc : TCPService}, (∀ i, svc.pc.made i = true → (s.services x).pc.made i = true) →
      svc.ownFds = (s.services x).ownFds → svc.procThreads = (s.services x).procThreads →
      svc.workers = (s.services x).workers → Apart (s.setService x svc) := by
    intro svc hmade hfds hthreads hworkers
    refine h.of_main (others_setService s x svc) (fun _ => id) ?_ ?_ ?_ rfl rfl
    · simpa [State.setService] using hmade
    · simpa [State.setService] using hfds
    · simp [State.Handles, State.setService, hthreads, hworkers]
  have hwrite : ∀ {kernel : Table} {scheder : Scheduler} {svc : TCPService},
      (∀ fd, s.kernel.isOpen fd = true → kernel.isOpen fd = true) →
      (∀ i, svc.pc.made i = true → (s.services x).pc.made i = true) →
      svc.ownFds = (s.services x).ownFds → svc.procThreads = (s.services x).procThreads →
      svc.workers = (s.services x).workers →
      Apart ({ s with kernel := kernel }.writeScheder x scheder svc) := by
    intro kernel scheder svc hopen hmade hfds hthreads hworkers
    refine h.of_main (x := x) (others_writeScheder { s with kernel := kernel } x scheder svc)
      hopen ?_ ?_ ?_ rfl rfl
    · simpa [State.writeScheder] using hmade
    · simpa [State.writeScheder] using hfds
    · simp [State.Handles, State.writeScheder, hthreads, hworkers]
  cases mainStep_cases hstep with
  | idle hpc => exact hset (by simp [Pc.made]) rfl rfl rfl
  | restarted hpc _ | queue _ hpc | app hpc => exact hset (by simp [hpc, Pc.made]) rfl rfl rfl
  | epollFails hpc | procFails _ hpc =>
      exact hwrite (fun _ => id) (by simp [Pc.made]) rfl rfl rfl
  | epollMade fd kernel hpc hkernel =>
      exact hwrite (fun _ => isOpen_of_handOut hkernel) (by simp [Pc.made]) rfl rfl rfl
  | procMade k fd kernel hpc hkernel => exact procMade_apart h hpc hkernel
  | counts hpc =>
      refine hwrite (fun _ => id) ?_ rfl rfl rfl
      simp only [made_nextThread, hpc]
      exact fun _ => id
  | thread i hpc =>
      refine h.of_main (others_setService s x _) (fun _ => id) ?_ ?_ ?_ rfl rfl
      · simp only [State.setService, Function.update_self, made_nextThread, hpc]
        exact fun _ => id
      · simp [State.setService]
      · -- the new worker handles nothing
        rintro t k ⟨ht, hk⟩
        simp only [State.setService, Function.update_self] at ht hk ⊢
        rcases eq_or_ne t (s.services x).procThreads with rfl | hne
        · simp at hk
        · rw [Function.update_of_ne hne] at hk ⊢
          exact ⟨⟨by omega, hk⟩, rfl⟩

/-! ## Sessions and workers -/

@[simp]
theorem made_setWorker (worker : Worker) (y i : Nat) (fd : Int) :
    (s.setWorker x t worker).Made y i fd ↔ s.Made y i fd := by
  rcases eq_or_ne y x with rfl | hne
  · simp [State.Made, State.setWorker, State.setService]
  · exact (others_setService s x _).made hne

/-- What the workers handle after one of them has gone on. -/
theorem handles_setWorker {worker : Worker} {y t' k : Nat}
    (h : (s.setWorker x t worker).Handles y t' k) :
    (y = x ∧ t' = t ∧ worker.handling = some k) ∨
      ((y, t') ≠ (x, t) ∧ s.Handles y t' k) := by
  rcases eq_or_ne y x with rfl | hne
  · rcases h with ⟨ht', hk⟩
    simp only [State.setWorker, State.setService, Function.update_self] at ht' hk
    rcases eq_or_ne t' t with rfl | hne
    · rw [Function.update_self] at hk
      exact Or.inl ⟨rfl, rfl, hk⟩
    · rw [Function.update_of_ne hne] at hk
      exact Or.inr ⟨by simp [hne], ht', hk⟩
  · exact Or.inr ⟨by simp [hne], ((others_setService s x _).handles hne).mp h⟩

theorem workers_setWorker {worker : Worker} {y t' : Nat} (hne : (y, t') ≠ (x, t)) :
    ((s.setWorker x t worker).services y).workers t' = (s.services y).workers t' := by
  rcases eq_or_ne y x with rfl | hy
  · have ht : t' ≠ t := by
      rintro rfl
      exact hne rfl
    simp [State.setWorker, State.setService, Function.update_of_ne ht]
  · rw [State.setWorker, (others_setService s x _ y hy).2.2.2]

@[simp]
theorem setWorker_self (worker : Worker) :
    ((s.setWorker x t worker).services x).workers t = worker := by
  simp [State.setWorker, State.setService]

/-- A new session has a descriptor of its own. -/
theorem push_apart {fd : Int} {kernel : Table} {session : Session} (h : Apart s)
    (hkernel : s.kernel.handOut fd = some kernel) (hfd : session.fd = fd) :
    Apart
      { s with
        kernel := kernel
        sessions := Function.update s.sessions s.created session
        created := s.created + 1 } := by
  rcases Table.handOut_eq_some hkernel with ⟨-, hclosed, hnew⟩
  have hold : ∀ k, k < s.created →
      Function.update s.sessions s.created session k = s.sessions k :=
    fun k hk => Function.update_of_ne hk.ne ..
  have hhandles : ∀ y t k, s.Handles y t k → k < s.created :=
    fun y t k hk => (h.handling y t k hk).1
  -- a session that is live after the step was live before, or is the new one
  have hlive : ∀ k, State.Live { s with
      kernel := kernel
      sessions := Function.update s.sessions s.created session
      created := s.created + 1 } k → s.Live k ∨ k = s.created := by
    rintro k ⟨hk, hreg⟩
    rcases Nat.lt_succ_iff_lt_or_eq.mp hk with hlt | heq
    · simp only [hold k hlt] at hreg
      exact Or.inl ⟨hlt, hreg⟩
    · exact Or.inr heq
  have hfresh : ∀ k, s.Live k → (s.sessions k).fd ≠ fd := by
    rintro k hk rfl
    rw [(h.session k hk).1] at hclosed
    contradiction
  constructor
  · exact fun y i fd' hfd' => isOpen_of_handOut hkernel (h.isOpen y i fd' hfd')
  · exact h.made
  · intro y t k hk
    have hlt := hhandles y t k hk
    simp only [hold k hlt]
    exact ⟨Nat.lt_succ_of_lt hlt, (h.handling y t k hk).2⟩
  · intro k hk
    rcases hlive k hk with hk | rfl
    · simp only [hold k hk.1]
      exact ⟨isOpen_of_handOut hkernel (h.session k hk).1, (h.session k hk).2⟩
    · simp only [Function.update_self, hfd]
      refine ⟨by rw [hnew]; exact Function.update_self .., ?_⟩
      intro y i hi
      rw [h.isOpen y i fd hi] at hclosed
      contradiction
  · intro k k' hk hk' heq
    rcases hlive k hk with hk | rfl <;> rcases hlive k' hk' with hk' | rfl
    · simp only [hold k hk.1, hold k' hk'.1] at heq
      exact h.single k k' hk hk' heq
    · simp only [hold k hk.1, Function.update_self, hfd] at heq
      exact absurd heq (hfresh k hk)
    · simp only [hold k' hk'.1, Function.update_self, hfd] at heq
      exact absurd heq.symm (hfresh k' hk')
    · rfl

/-- A worker takes an event of a session that is registered with its descriptor. -/
theorem epollWait_apart {k : Nat} (h : Apart s) (hk : k < s.created)
    (hregistered : (s.sessions k).registered = true)
    (hfd : ((s.services x).workers t).procFd = some (s.sessions k).procFd) :
    Apart (s.setWorker x t { (s.services x).workers t with handling := some k }) := by
  have hlive : ∀ k', State.Live (s.setWorker x t
      { (s.services x).workers t with handling := some k }) k' → s.Live k' := by
    rintro k' ⟨hk', hreg | ⟨y, t', hhandles⟩⟩
    · exact ⟨hk', Or.inl hreg⟩
    · rcases handles_setWorker hhandles with ⟨-, -, heq⟩ | ⟨-, hold⟩
      · obtain rfl := Option.some.inj heq
        exact ⟨hk, Or.inl hregistered⟩
      · exact ⟨hk', Or.inr ⟨y, t', hold⟩⟩
  constructor
  · intro y i fd hi
    exact h.isOpen y i fd ((made_setWorker ..).mp hi)
  · intro y z i j fd hy hz
    exact h.made y z i j fd ((made_setWorker ..).mp hy) ((made_setWorker ..).mp hz)
  · intro y t' k' hk'
    rcases handles_setWorker hk' with ⟨rfl, rfl, heq⟩ | ⟨hne, hold⟩
    · obtain rfl := Option.some.inj heq
      rw [setWorker_self]
      exact ⟨hk, hfd⟩
    · rw [workers_setWorker hne]
      exact h.handling y t' k' hold
  · intro k' hk'
    refine ⟨(h.session k' (hlive k' hk')).1, ?_⟩
    intro y i hi
    exact (h.session k' (hlive k' hk')).2 y i ((made_setWorker ..).mp hi)
  · exact fun k' k'' hk' hk'' => h.single k' k'' (hlive k' hk') (hlive k'' hk'')

/-- A worker is done with an event.  If it closes the session's descriptor, nobody else has
the session, and nothing else is open there. -/
theorem finish_apart {k : Nat} {sessions : Nat → Session} {kernel : Table}
    (hwired : AllWired cfg s) (howned : Owned s) (h : Apart s) (hk : s.Handles x t k)
    (hsessions : Fewer s.sessions sessions)
    (hkernel : kernel = s.kernel ∨
      kernel = s.kernel.close (s.sessions k).fd ∧ (sessions k).registered = false) :
    Apart
      { s.setWorker x t { (s.services x).workers t with handling := none } with
        sessions := sessions, kernel := kernel } := by
  generalize hs' : State.mk _ _ _ _ _ _ = s'
  obtain ⟨hkernel', hservices, hsessions', hcreated⟩ : s'.kernel = kernel ∧
      s'.services =
        (s.setWorker x t { (s.services x).workers t with handling := none }).services ∧
      s'.sessions = sessions ∧ s'.created = s.created := by
    rw [← hs']
    exact ⟨rfl, rfl, rfl, rfl⟩
  -- the others handle what they handled
  have hothers : ∀ y t' k', s'.Handles y t' k' →
      (y, t') ≠ (x, t) ∧ s.Handles y t' k' := by
    intro y t' k' hk'
    simp only [State.Handles, hservices] at hk'
    rcases handles_setWorker hk' with ⟨-, -, heq⟩ | hold
    · contradiction
    · exact hold
  refine h.mono ?_ ?_ ?_ (hsessions' ▸ hsessions) hcreated
  · intro fd hfd
    rcases hkernel with rfl | ⟨rfl, hgone⟩
    · exact Or.inl (hkernel' ▸ hfd)
    rcases eq_or_ne fd (s.sessions k).fd with rfl | hne
    · have hlive : s.Live k := ⟨(h.handling x t k hk).1, Or.inr ⟨x, t, hk⟩⟩
      refine Or.inr ⟨(h.session k hlive).2, ?_⟩
      rintro k' ⟨hk', hreg | ⟨y, t', hhandles⟩⟩ heq
      · rw [hsessions'] at hreg
        have hold : s.Live k' := ⟨hcreated ▸ hk', Or.inl (hsessions.registered k' hreg)⟩
        obtain rfl := h.single k' k hold hlive heq
        rw [hgone] at hreg
        contradiction
      · rcases hothers y t' k' hhandles with ⟨hne, hold⟩
        obtain rfl := h.single k' k ⟨hcreated ▸ hk', Or.inr ⟨y, t', hold⟩⟩ hlive heq
        rcases h.handles_unique hwired howned hold hk with ⟨rfl, rfl⟩
        exact hne rfl
    · rw [hkernel']
      exact Or.inl ((Function.update_of_ne hne ..).trans hfd)
  · intro y i fd hi
    simp only [State.Made, hservices] at hi
    exact (made_setWorker ..).mp hi
  · intro y t' k' hk'
    rcases hothers y t' k' hk' with ⟨hne, hold⟩
    rw [hservices, workers_setWorker hne]
    exact ⟨hold, rfl⟩

/-- Steps that read the scheduler only while it is theirs keep the descriptors of services
and sessions apart. -/
theorem serviceStep_apart {a : Act} (hwired : AllWired cfg s) (howned : Owned s) (h : Apart s)
    (hstep : serviceStep (cfg x) x s a = some s') : Apart s' := by
  cases serviceStep_cases hstep with
  | main ret _ hmain => exact mainStep_apart h hmain
  | push fd kernel _ hkernel => exact push_apart h hkernel rfl
  | readProcFd t ht hnone =>
      refine h.mono (fun _ => Or.inl) (fun y i fd => (made_setWorker ..).mp) ?_ (.refl _) rfl
      intro y t' k hk
      rcases handles_setWorker hk with ⟨rfl, rfl, heq⟩ | ⟨hne, hold⟩
      · -- a worker that has not read its descriptor handles nothing
        have hfd := (h.handling y t' k ⟨ht, heq⟩).2
        rw [hnone] at hfd
        contradiction
      · exact ⟨hold, by rw [workers_setWorker hne]⟩
  | epollWait t k ht hk hregistered hfd => exact epollWait_apart h hk hregistered hfd
  | work t k op events _ _ _ =>
      exact h.mono (fun _ => Or.inl) (fun _ _ _ => id) (fun _ _ _ hk => ⟨hk, rfl⟩) (.refl _) rfl
  | finish t k op sessions kernel ht hk hsessions hkernel =>
      exact finish_apart hwired howned h ⟨ht, hk⟩ hsessions hkernel
  | dequeue q =>
      exact h.mono (fun _ => Or.inl) (fun _ _ _ => id) (fun _ _ _ hk => ⟨hk, rfl⟩) (.refl _) rfl

end Apart

/-! ## Runs -/

/-- As long as services read the scheduler only while it is theirs, every session is
registered with a worker of its own service, and no worker of another service polls or
handles it. -/
theorem served_by_own_worker (cfg : Nat → Properties) (others : Int → Bool)
    (acts : List (Nat × Act))
    (hunshared : EachStep (step cfg) (fun s a => unshared s a = true) (start others) acts) :
    Always (step cfg) Served (start others) acts := by
  have hstart : AllWired cfg (start others) ∧ Owned (start others) ∧ Apart (start others) :=
    ⟨start_wired cfg others, start_owned others, start_apart others⟩
  have hserved : ∀ s, AllWired cfg s ∧ Owned s ∧ Apart s → Served s :=
    fun _ h => h.2.2.served h.1 h.2.1
  refine always_of_eachStep ?_ hserved hstart hunshared
  rintro s ⟨x, a⟩ s' ⟨hwired, howned, hapart⟩ hok hstep
  exact ⟨serviceStep_wired hwired hstep, serviceStep_owned hwired howned hok hstep,
    serviceStep_apart hwired howned hapart hstep⟩

/-- The service {lit}`x` is started with one worker, which reads its descriptor; the
kernel hands out {lit}`first` and the numbers after it. -/
def starts (x first : Nat) : List (Nat × Act) :=
  [(x, .main none)] ++
    (List.range (MAX_THREAD + 1)).map (fun k => (x, .main (some ((first + k : Nat) : Int)))) ++
    [(x, .main none), (x, .main none), (x, .main none), (x, .main none), (x, .readProcFd 0)]

/-- Services with one worker. -/
def oneThread : Nat → Properties :=
  fun _ => { threads := 1, app_run := false }

/-- A session of the first service, and one of the second after its start; each is handled by
the worker of its service. -/
def oneAfterTheOther : List (Nat × Act) :=
  starts 0 0 ++ [(0, .push 200)] ++ starts 1 51 ++
    [(1, .push 201), (0, .epollWait 0 0), (1, .epollWait 0 1)]

theorem served_oneAfterTheOther :
    Always (step oneThread) Served fresh oneAfterTheOther ∧
      (run (step oneThread) fresh oneAfterTheOther).map
        (fun s => [((s.sessions 0).procFd, ((s.services 0).workers 0).handling),
          ((s.sessions 1).procFd, ((s.services 1).workers 0).handling)]) =
        some [(1, some 0), (52, some 1)] := by
  refine ⟨served_by_own_worker _ _ _ ?_, by decide +kernel⟩
  exact eachStep_of_checkSteps (fun s a h => h) (by decide +kernel)

/-- Once a second service has been started, a session of the first is registered with
the second one's worker. -/
theorem served_by_other_service :
    ∃ s, run (step oneThread) fresh (starts 0 0 ++ starts 1 51 ++ [(0, .push 200)]) = some s ∧
      (s.sessions 0).service = 0 ∧ (s.sessions 0).procFd = 52 ∧
      ((s.services 1).workers 0).procFd = some 52 ∧ ¬Served s := by
  have hrun : (run (step oneThread) fresh (starts 0 0 ++ starts 1 51 ++ [(0, .push 200)])).map
      (fun s => ([s.created, (s.sessions 0).service, (s.services 1).procThreads],
        (s.sessions 0).procFd, ((s.services 1).workers 0).procFd)) =
      some ([1, 0, 1], 52, some 52) := by
    decide +kernel
  rcases Option.map_eq_some_iff.mp hrun with ⟨s, hs, heq⟩
  simp only [Prod.mk.injEq, List.cons.injEq, and_true] at heq
  rcases heq with ⟨⟨hcreated, hservice, hthreads⟩, hprocFd, hother⟩
  refine ⟨s, hs, hservice, hprocFd, hother, ?_⟩
  intro hserved
  have hapart := (hserved.other 0 1 0 (by omega) (by omega) (by omega)).1
  rw [hprocFd] at hapart
  exact hapart hother

end Workers
end Service
end TinyNet
