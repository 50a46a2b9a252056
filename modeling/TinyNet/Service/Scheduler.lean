import TinyNet.Library.MachineInt

/-!
# The scheduler of the epoll backend

{lit}`Scheduler<T>` holds one epoll descriptor for the listeners and one for each possible
worker.  A new session is given to the worker whose index is the session's descriptor
modulo the number of workers.  This file embeds that choice and the two places that
adjust the configured number of threads.

Main results:

- Theorem {lit}`workerCount_range`: there is at least one worker, and there are no more
  than the scheduler has epoll descriptors for.
- Theorem {lit}`Scheduler.procIdx_range`: the index chosen for a session is that of a
  worker.
-/

namespace TinyNet
namespace Service

open Library.MachineInt

/-- {lit}`MAX_THREAD` of {lit}`plat.h`. -/
def MAX_THREAD : Nat := 50

/-- {lit}`Scheduler<T>`. -/
structure Scheduler where
  epollFd : Int
  procFds : Nat → Int
  threads : Int

/-- The adjustment in {lit}`TCPService::start`. -/
def normalizeThreads (threads : Int) : Int :=
  if threads ≤ 0 then 1 else threads

/-- The adjustment in {lit}`Processor::start`. -/
def clampThreads (threads : Int) : Int :=
  if threads > MAX_THREAD then MAX_THREAD else threads

/-- The number of workers that a service with {lit}`config.threads` starts. -/
def workerCount (threads : Int) : Int :=
  clampThreads (normalizeThreads threads)

/-- The index of a session's worker in {lit}`Scheduler::push`: {lit}`fd % threads`, which
C++ evaluates in unsigned arithmetic. -/
def Scheduler.procIdx (s : Scheduler) (fd : Int) : Nat :=
  (toU32 fd % s.threads).toNat

theorem workerCount_range (threads : Int) :
    1 ≤ workerCount threads ∧ workerCount threads ≤ MAX_THREAD := by
  unfold workerCount clampThreads normalizeThreads MAX_THREAD
  split_ifs <;> omega

theorem Scheduler.procIdx_range (s : Scheduler) (fd : Int) (h : 1 ≤ s.threads) :
    (s.procIdx fd : Int) < s.threads := by
  have hnonneg := Int.emod_nonneg (toU32 fd) (b := s.threads) (by omega)
  have hlt := Int.emod_lt_of_pos (toU32 fd) (b := s.threads) (by omega)
  unfold Scheduler.procIdx
  omega

end Service
end TinyNet
