import TinyNet.Service.Scheduler

/-!
# The workers of the kqueue backend

On kqueue three places decide which worker serves a session: {lit}`Processor::start`
bounds the number of workers, {lit}`Scheduler::push` takes the descriptor modulo the
scheduler's count, and {lit}`Listener::run` takes it modulo the configured count.  The
first is written as a chained comparison, which compares a truth value with
{lit}`MAX_THREAD` and never bounds anything.  So the three agree, and are in range as long
as no more threads are configured than {lit}`procFds` has entries for.

Main results:

- Theorem {lit}`clampThreads_eq`: the chained comparison changes nothing.
- Theorem {lit}`assigned_iff`: the indices are in range, agree, and belong to a started
  worker exactly if at most {lit}`MAX_THREAD` threads are configured.
- Theorem {lit}`session_served`: then a session is registered with the kqueue that a
  started worker waits for.
- Theorem {lit}`fifty_one_threads`: a configuration with an index out of range.
-/

namespace TinyNet
namespace Kqueue
namespace Workers

open Service (MAX_THREAD normalizeThreads)

/-- {lit}`Scheduler<T>`. -/
structure Scheduler where
  threads : Int
  procFds : Nat → Int

/-- {lit}`procFds[procIdx]`; no result outside the array. -/
def Scheduler.procFd (s : Scheduler) (procIdx : Int) : Option Int :=
  if 0 ≤ procIdx ∧ procIdx < MAX_THREAD then some (s.procFds procIdx.toNat) else none

/-- The index of a session's worker in {lit}`Scheduler::push`. -/
def Scheduler.procIdx (s : Scheduler) (fd : Int) : Int :=
  fd.tmod s.threads

/-- {lit}`Listener`, with the configuration that it was started with. -/
structure Listener where
  threads : Int

/-- The index of an accepted session's worker in {lit}`Listener::run`. -/
def Listener.procIdx (l : Listener) (cfd : Int) : Int :=
  cfd.tmod l.threads

/-- {lit}`config.threads > threads > MAX_THREAD ? MAX_THREAD : config.threads` in
{lit}`Processor::start`.  The comparison on the left is 0 or 1, and its second operand is
the variable that is being initialised. -/
def clampThreads (config threads : Int) : Int :=
  if (if config > threads then (1 : Int) else 0) > MAX_THREAD then MAX_THREAD else config

/-- The indices that the loop of {lit}`Processor::start` gives to {lit}`run`. -/
def runThreads (threads : Int) : List Int :=
  (List.range threads.toNat).map Int.ofNat

/-- A service that was started. -/
structure Started where
  scheder : Scheduler
  workers : List Int
  listener : Listener

/-- {lit}`TCPService::start` with the configured number of threads, the kqueues that
{lit}`Scheduler::start` has created, and the value of an uninitialised variable. -/
def start (threads : Int) (procFds : Nat → Int) (garbage : Int) : Started where
  scheder := { threads := clampThreads (normalizeThreads threads) garbage, procFds := procFds }
  workers := runThreads (clampThreads (normalizeThreads threads) garbage)
  listener := { threads := normalizeThreads threads }

/-- What is expected of the assignment of a descriptor to a worker. -/
structure Assigned (s : Started) (fd : Int) : Prop where
  push_lt : s.scheder.procIdx fd < MAX_THREAD
  listener_lt : s.listener.procIdx fd < MAX_THREAD
  workers_lt : ∀ index ∈ s.workers, index < MAX_THREAD
  agree : s.scheder.procIdx fd = s.listener.procIdx fd
  started : s.scheder.procIdx fd ∈ s.workers

/-- The chained comparison changes nothing, whatever the uninitialised variable holds. -/
theorem clampThreads_eq (config threads : Int) : clampThreads config threads = config := by
  unfold clampThreads MAX_THREAD
  split_ifs <;> omega

theorem one_le_normalizeThreads (threads : Int) : 1 ≤ normalizeThreads threads := by
  unfold normalizeThreads
  split <;> omega

/-- The workers are numbered from zero. -/
theorem mem_runThreads {threads index : Int} :
    index ∈ runThreads threads ↔ 0 ≤ index ∧ index < threads := by
  simp only [runThreads, List.mem_map, List.mem_range]
  constructor
  · rintro ⟨i, hi, rfl⟩
    simp only [Int.ofNat_eq_natCast]
    omega
  · rintro ⟨hnonneg, hlt⟩
    exact ⟨index.toNat, by omega, Int.toNat_of_nonneg hnonneg⟩

/-- The remainder of a descriptor is the index of a worker. -/
theorem tmod_mem_runThreads {threads : Int} (h : 1 ≤ threads) (fd : Nat) :
    (fd : Int).tmod threads ∈ runThreads threads := by
  rw [mem_runThreads]
  exact ⟨Int.tmod_nonneg threads (Int.natCast_nonneg fd), Int.tmod_lt_of_pos fd (by omega)⟩

/-- As many threads as {lit}`procFds` has entries, or fewer, are assigned well. -/
theorem assigned_of_le {threads : Int} (h : threads ≤ MAX_THREAD) (procFds : Nat → Int)
    (garbage : Int) (fd : Nat) : Assigned (start threads procFds garbage) fd := by
  have hnormal : normalizeThreads threads ≤ MAX_THREAD := by
    unfold normalizeThreads MAX_THREAD at *
    split <;> omega
  have hmem := tmod_mem_runThreads (one_le_normalizeThreads threads) fd
  have hlt := (mem_runThreads.mp hmem).2
  constructor
  · show (fd : Int).tmod (clampThreads (normalizeThreads threads) garbage) < _
    rw [clampThreads_eq]
    omega
  · show (fd : Int).tmod (normalizeThreads threads) < _
    omega
  · intro index hindex
    rw [start, clampThreads_eq, mem_runThreads] at hindex
    omega
  · simp only [start, Scheduler.procIdx, Listener.procIdx, clampThreads_eq]
  · simpa only [start, Scheduler.procIdx, clampThreads_eq] using hmem

/-- For every configured number of threads and every descriptor, all indices are in range
and agree, and the worker was started, exactly if the number of threads is at most
{lit}`MAX_THREAD`. -/
theorem assigned_iff (threads garbage : Int) (procFds : Nat → Int) (fd : Nat) :
    Assigned (start threads procFds garbage) fd ↔ threads ≤ MAX_THREAD := by
  constructor
  · intro h
    by_contra hgt
    -- the worker behind the last kqueue was started
    have hworker : ((MAX_THREAD : Nat) : Int) ∈ (start threads procFds garbage).workers := by
      rw [start, clampThreads_eq, mem_runThreads]
      unfold normalizeThreads
      split <;> omega
    exact absurd (h.workers_lt _ hworker) (lt_irrefl _)
  · intro hle
    exact assigned_of_le hle procFds garbage fd

/-- With at most {lit}`MAX_THREAD` threads, the kqueue that a session is registered with
is one that a started worker waits for. -/
theorem session_served {threads : Int} (h : threads ≤ MAX_THREAD) (procFds : Nat → Int)
    (garbage : Int) (fd : Nat) :
    ∃ index ∈ (start threads procFds garbage).workers, ∃ procFd,
      (start threads procFds garbage).scheder.procFd index = some procFd ∧
      (start threads procFds garbage).scheder.procFd
        ((start threads procFds garbage).listener.procIdx fd) = some procFd := by
  have hassigned := assigned_of_le h procFds garbage fd
  have hnonneg : 0 ≤ (start threads procFds garbage).scheder.procIdx fd :=
    Int.tmod_nonneg _ (Int.natCast_nonneg fd)
  have hread : (start threads procFds garbage).scheder.procFd
      ((start threads procFds garbage).scheder.procIdx fd) =
        some (procFds ((start threads procFds garbage).scheder.procIdx fd).toNat) := by
    rw [Scheduler.procFd, if_pos ⟨hnonneg, hassigned.push_lt⟩]
    rfl
  exact ⟨_, hassigned.started, _, hread, hassigned.agree ▸ hread⟩

/-- With 51 threads, the session of descriptor 50 is assigned to a worker whose kqueue
lies behind the end of {lit}`procFds`. -/
theorem fifty_one_threads :
    (start 51 (fun _ => 7) 0).listener.procIdx 50 = 50 ∧
      50 ∈ (start 51 (fun _ => 7) 0).workers ∧
      (start 51 (fun _ => 7) 0).scheder.procFd 50 = none ∧
      ¬Assigned (start 51 (fun _ => 7) 0) 50 := by
  refine ⟨by decide, by decide, by decide, ?_⟩
  intro h
  have hlt := h.push_lt
  revert hlt
  decide

end Workers
end Kqueue
end TinyNet
