import TinyNet.Service.Workers

/-!
# Services that share a scheduler

A session is served by the workers that poll the epoll descriptor it was registered
with.  This file says when these are workers of the service that made the session, whose
factory, configuration and event handler it needs.

Main results:

- Theorem {lit}`serviceStep_owned`: steps that read the scheduler only while it is theirs
  keep workers and sessions on the descriptors of their own service.
-/

namespace TinyNet
namespace Service
namespace Workers

open Library.DescriptorTable

/-- The condition on the steps that read the scheduler: no other service of the type has
written to it since the service's own start began. -/
def unshared (s : State) (a : Nat × Act) : Bool :=
  match a.2 with
  | .push _ => (s.services a.1).intact
  | .readProcFd _ => (s.services a.1).intact
  | _ => true

/-! ## Workers and sessions have the descriptors of their own service -/

/-- Workers poll, and sessions are registered with, the descriptors that the start of
their own service made. -/
structure Owned (s : State) : Prop where
  worker : ∀ x t fd, t < (s.services x).procThreads →
    ((s.services x).workers t).procFd = some fd → fd = (s.services x).ownFds t
  serving : ∀ k, k < s.created → (s.services (s.sessions k).service).pc = .serving
  session : ∀ k, k < s.created → ∃ t, t < (s.services (s.sessions k).service).procThreads ∧
    (s.sessions k).procFd = (s.services (s.sessions k).service).ownFds t

theorem start_owned (others : Int → Bool) : Owned (start others) := by
  constructor <;> simp [start]

/-- A service with the threads of another time, all of them with the same descriptors. -/
structure Continues (svc svc' : TCPService) : Prop where
  procThreads : svc'.procThreads = svc.procThreads
  workers : ∀ t, t < svc.procThreads → (svc'.workers t).procFd = (svc.workers t).procFd
  ownFds : svc'.ownFds = svc.ownFds
  pc : svc'.pc = svc.pc

/-- A service in its start has no session, so that only its threads matter. -/
theorem Owned.of_start {s s' : State} {x : Nat} (h : Owned s)
    (hpc : (s.services x).pc ≠ .serving)
    (hx : ∀ t fd, t < (s'.services x).procThreads →
      ((s'.services x).workers t).procFd = some fd → fd = (s'.services x).ownFds t)
    (hother : ∀ y, y ≠ x → Continues (s.services y) (s'.services y))
    (hsessions : s'.sessions = s.sessions) (hcreated : s'.created = s.created) : Owned s' := by
  have hservice : ∀ k, k < s.created →
      Continues (s.services (s.sessions k).service) (s'.services (s.sessions k).service) := by
    intro k hk
    apply hother
    intro heq
    have hserving := h.serving k hk
    rw [heq] at hserving
    exact hpc hserving
  constructor
  · intro y t fd ht hfd
    rcases eq_or_ne y x with rfl | hne
    · exact hx t fd ht hfd
    · have hy := hother y hne
      rw [hy.procThreads] at ht
      rw [hy.workers t ht] at hfd
      rw [hy.ownFds]
      exact h.worker y t fd ht hfd
  · rw [hsessions, hcreated]
    intro k hk
    rw [(hservice k hk).pc]
    exact h.serving k hk
  · rw [hsessions, hcreated]
    intro k hk
    rw [(hservice k hk).procThreads, (hservice k hk).ownFds]
    exact h.session k hk

theorem continues_setService {s : State} {x y : Nat} (svc : TCPService) (hne : y ≠ x) :
    Continues (s.services y) ((s.setService x svc).services y) := by
  have heq : (s.setService x svc).services y = s.services y := Function.update_of_ne hne ..
  rw [heq]
  exact ⟨rfl, fun _ _ => rfl, rfl, rfl⟩

theorem continues_writeScheder {s : State} {x y : Nat} (scheder : Scheduler) (svc : TCPService)
    (hne : y ≠ x) : Continues (s.services y) ((s.writeScheder x scheder svc).services y) := by
  have heq : (s.writeScheder x scheder svc).services y =
      { s.services y with intact := false } := if_neg hne
  rw [heq]
  exact ⟨rfl, fun _ _ => rfl, rfl, rfl⟩

theorem Owned.setKernel {s : State} (h : Owned s) (kernel : Table) :
    Owned { s with kernel := kernel } :=
  ⟨h.worker, h.serving, h.session⟩

theorem setService_owned {s : State} {x : Nat} {svc : TCPService} (h : Owned s)
    (hpc : (s.services x).pc ≠ .serving)
    (hx : ∀ t fd, t < svc.procThreads → (svc.workers t).procFd = some fd → fd = svc.ownFds t) :
    Owned (s.setService x svc) := by
  refine h.of_start hpc ?_ (fun y hne => continues_setService svc hne) rfl rfl
  simpa [State.setService] using hx

theorem writeScheder_owned {s : State} {x : Nat} {scheder : Scheduler} {svc : TCPService}
    (h : Owned s) (hpc : (s.services x).pc ≠ .serving)
    (hx : ∀ t fd, t < svc.procThreads → (svc.workers t).procFd = some fd → fd = svc.ownFds t) :
    Owned (s.writeScheder x scheder svc) := by
  refine h.of_start hpc ?_ (fun y hne => continues_writeScheder scheder svc hne) rfl rfl
  simpa [State.writeScheder] using hx

theorem mainStep_owned {cfg : Nat → Properties} {s s' : State} {x : Nat} {ret : Option Int}
    (hwired : AllWired cfg s) (h : Owned s) (hstep : s.mainStep (cfg x) x ret = some s') :
    Owned s' := by
  cases mainStep_cases hstep with
  | idle hpc | restarted hpc _ | queue i hpc | app hpc =>
      exact setService_owned h (by simp [hpc]) (h.worker x)
  | epollFails hpc | procFails k hpc | counts hpc =>
      exact writeScheder_owned h (by simp [hpc]) (h.worker x)
  | epollMade fd kernel hpc _ =>
      exact writeScheder_owned (h.setKernel kernel) (by simp [hpc]) (h.worker x)
  | procMade k fd kernel hpc _ =>
      have hcounted := (hwired x).counted
      simp only [Counted, hpc] at hcounted
      refine writeScheder_owned (h.setKernel kernel) (by simp [hpc]) ?_
      -- no worker has been started that could have read a descriptor
      intro t fd' ht
      simp [hcounted.1] at ht
  | thread i hpc =>
      refine setService_owned h (by simp [hpc]) ?_
      intro t fd ht hfd
      have hle : t < (s.services x).procThreads + 1 := ht
      rcases eq_or_ne t (s.services x).procThreads with rfl | hne
      · simp at hfd
      · simp only [Function.update_of_ne hne] at hfd
        exact h.worker x t fd (by omega) hfd

/-- A worker goes on with a descriptor of its own service. -/
theorem setWorker_owned {s : State} {x t : Nat} {worker : Worker} (h : Owned s)
    (hworker : ∀ fd, worker.procFd = some fd → fd = (s.services x).ownFds t) :
    Owned (s.setWorker x t worker) := by
  have hservice : ∀ y, ((s.setWorker x t worker).services y).procThreads =
      (s.services y).procThreads ∧ ((s.setWorker x t worker).services y).ownFds =
      (s.services y).ownFds ∧ ((s.setWorker x t worker).services y).pc = (s.services y).pc := by
    intro y
    rcases eq_or_ne y x with rfl | hne
    · simp [State.setWorker, State.setService]
    · simp [State.setWorker, State.setService, Function.update_of_ne hne]
  constructor
  · intro y t' fd ht' hfd
    rw [(hservice y).2.1]
    rw [(hservice y).1] at ht'
    rcases eq_or_ne y x with rfl | hne
    · simp only [State.setWorker, State.setService, Function.update_self] at hfd
      rcases eq_or_ne t' t with rfl | hne'
      · rw [Function.update_self] at hfd
        exact hworker fd hfd
      · rw [Function.update_of_ne hne'] at hfd
        exact h.worker y t' fd ht' hfd
    · simp only [State.setWorker, State.setService, Function.update_of_ne hne] at hfd
      exact h.worker y t' fd ht' hfd
  · intro k hk
    rw [(hservice _).2.2]
    exact h.serving k hk
  · intro k hk
    rw [(hservice _).1, (hservice _).2.1]
    exact h.session k hk

theorem Owned.fewer {s : State} (h : Owned s) {sessions : Nat → Session} (kernel : Table)
    (hsessions : Fewer s.sessions sessions) :
    Owned { s with sessions := sessions, kernel := kernel } where
  worker := h.worker
  serving k hk := by
    show (s.services (sessions k).service).pc = .serving
    rw [hsessions.service]
    exact h.serving k hk
  session k hk := by
    show ∃ t, t < (s.services (sessions k).service).procThreads ∧
      (sessions k).procFd = (s.services (sessions k).service).ownFds t
    rw [hsessions.service, hsessions.procFd]
    exact h.session k hk

/-- A service whose scheduler is intact reads its own descriptors. -/
theorem Wired.procFds_eq {threads : Int} {scheder : Scheduler} {svc : TCPService}
    (h : Wired threads scheder svc) (hintact : svc.intact = true) {t : Nat}
    (ht : t < svc.procThreads) : scheder.procFds t = svc.ownFds t :=
  h.fds hintact t (h.made_of_lt ht)

/-- A service whose scheduler is intact chooses one of its own workers. -/
theorem Wired.procIdx_lt {threads : Int} {scheder : Scheduler} {svc : TCPService}
    (h : Wired threads scheder svc) (hintact : svc.intact = true) (hpc : svc.pc = .serving)
    (fd : Int) : scheder.procIdx fd < svc.procThreads := by
  have hrange := workerCount_range threads
  have hcount := h.count hintact (by simp [hpc, Pc.counted])
  have hlt := scheder.procIdx_range fd (by omega)
  have hcounted := h.counted
  simp only [Counted, hpc] at hcounted
  omega

theorem push_owned {cfg : Nat → Properties} {s : State} {x : Nat} {fd : Int} (kernel : Table)
    (hwired : AllWired cfg s) (h : Owned s) (hpc : (s.services x).pc = .serving)
    (hintact : (s.services x).intact = true) :
    Owned
      { s with
        kernel := kernel
        sessions := Function.update s.sessions s.created
          { service := x, fd := fd, procFd := s.scheder.procFds (s.scheder.procIdx fd)
            registered := true }
        created := s.created + 1 } := by
  have hlt := (hwired x).procIdx_lt hintact hpc fd
  constructor
  · exact h.worker
  · intro k hk
    have hk' : k < s.created + 1 := hk
    rcases eq_or_ne k s.created with rfl | hne
    · simpa using hpc
    · simpa [Function.update_of_ne hne] using h.serving k (by omega)
  · intro k hk
    have hk' : k < s.created + 1 := hk
    rcases eq_or_ne k s.created with rfl | hne
    · simp only [Function.update_self]
      exact ⟨_, hlt, (hwired x).procFds_eq hintact hlt⟩
    · simpa [Function.update_of_ne hne] using h.session k (by omega)

/-- Steps that read the scheduler only while it is theirs keep workers and sessions on
the descriptors of their own service. -/
theorem serviceStep_owned {cfg : Nat → Properties} {s s' : State} {x : Nat} {a : Act}
    (hwired : AllWired cfg s) (h : Owned s) (hunshared : unshared s (x, a) = true)
    (hstep : serviceStep (cfg x) x s a = some s') : Owned s' := by
  cases serviceStep_cases hstep with
  | main ret _ hmain => exact mainStep_owned hwired h hmain
  | push fd kernel hpc _ => exact push_owned kernel hwired h hpc hunshared
  | readProcFd t ht _ =>
      apply setWorker_owned h
      rintro fd heq
      obtain rfl := Option.some.inj heq
      rw [(hwired x).procIdx t ht]
      exact (hwired x).procFds_eq hunshared ht
  | epollWait t k ht _ _ _ => exact setWorker_owned h (h.worker x t · ht)
  | work t k op events _ _ _ => exact ⟨h.worker, h.serving, h.session⟩
  | finish t k op sessions kernel ht _ hsessions _ =>
      have hworker : Owned (s.setWorker x t
          { (s.services x).workers t with handling := none }) :=
        setWorker_owned h (h.worker x t · ht)
      exact hworker.fewer kernel hsessions
  | dequeue q => exact ⟨h.worker, h.serving, h.session⟩

end Workers
end Service
end TinyNet
