import TinyNet.Library.StepSystem
import TinyNet.MpmcQueue.Invariant

/-!
# The bounded queue counts in words

The queue counts in a {lit}`size_t`, which wraps around, where the algorithm counts without a
bound.  Positions only grow, and a sequence number is at most one round ahead of them.  So as
long as fewer elements are enqueued than half the range of a word, less one round, every sum
and difference that the queue computes is exact, and its steps are those of the algorithm.

Main results:

- Theorem {lit}`step_word_eq`: a step of the queue is one of the algorithm.
- Theorem {lit}`run_inv`: every run of the queue from its construction keeps the invariant of
  the algorithm.
-/

namespace TinyNet
namespace MpmcQueue

open Library.MachineInt (Arithmetic unbounded_add word_add_of_lt word_dif_of_lt)
open Library.RingBuffer (exists_window)
open Library.StepSystem

variable {α : Type}

/-- The elements enqueued so far and another round are less than half the range of a word of
{lit}`w` bits. -/
def Fits (w n : Nat) (s : State α) : Prop :=
  2 * (s.enqueued.length + n) < 2 ^ w

section

variable {w n : Nat} {s s' : State α}

/-- No sequence number is more than a round ahead of the elements. -/
theorem Ring.sequence_le (h : Ring n s) (p : Nat) :
    (s.queue.cell p).sequence ≤ s.queue.enqueuePos + n := by
  have htwo := h.two_le
  have hfirst : p % n < n := Nat.mod_lt p (by omega)
  rw [← h.cell_congr (Nat.mod_mod p n)]
  rcases lt_or_ge (p % n) s.queue.enqueuePos with hlt | hge
  · rcases exists_window (m := n) (by omega) hlt with ⟨q, hle, hq, hwindow, hmod⟩
    rw [h.cell_congr hmod.symm]
    cases h.cell q hq hwindow with
    | writing hseq => omega
    | full hseq => omega
    | reading hseq => omega
    | free hseq => omega
  · rw [h.fresh (p % n) hge hfirst]
    omega

theorem Ring.fits (h : Ring n s) (hfits : Fits w n s) :
    2 * (s.queue.enqueuePos + n) < 2 ^ w := by
  rw [← h.length_enqueued]
  exact hfits

/-- A producer compares its position with a sequence number as the algorithm does. -/
theorem Ring.afterEnqueueSeq_eq (h : Ring n s) (hfits : Fits w n s) {pos : Nat} (data : α)
    (hpos : pos ≤ s.queue.enqueuePos) :
    afterEnqueueSeq (.word w) (s.queue.cell pos).sequence data pos =
      afterEnqueueSeq .unbounded (s.queue.cell pos).sequence data pos := by
  have hrange := h.fits hfits
  have hseq := h.sequence_le pos
  rw [afterEnqueueSeq, word_dif_of_lt (by omega) (by omega), afterEnqueueSeq]

/-- So does a consumer. -/
theorem Ring.afterDequeueSeq_eq (h : Ring n s) (hfits : Fits w n s) {pos : Nat}
    (hpos : pos ≤ s.queue.dequeuePos) :
    (afterDequeueSeq (.word w) (s.queue.cell pos).sequence pos : Pc α) =
      afterDequeueSeq .unbounded (s.queue.cell pos).sequence pos := by
  have hrange := h.fits hfits
  have hseq := h.sequence_le pos
  have hle := h.le
  have htwo := h.two_le
  rw [afterDequeueSeq, word_add_of_lt (by omega),
    word_dif_of_lt (by omega) (by rw [unbounded_add]; omega), afterDequeueSeq]

/-- What a thread has taken is in range. -/
theorem Ring.threadStep_word_eq (h : Ring n s) (hfits : Fits w n s) (t : Nat)
    (spurious : Bool) : threadStep (.word w) s t spurious =
      threadStep .unbounded s t spurious := by
  have hrange := h.fits hfits
  have htwo := h.two_le
  have hle := h.le
  have hknown := h.pc t
  cases hpc : s.threads t with
  | enqueueSeq data pos =>
      rw [hpc] at hknown
      simp only [threadStep, hpc, h.afterEnqueueSeq_eq hfits data hknown]
  | enqueueCas data pos =>
      simp only [threadStep, hpc]
      split
      · rename_i hcas
        rw [word_add_of_lt (by omega)]
      · rfl
  | enqueuePublish pos =>
      rw [hpc] at hknown
      have hlt := hknown.2.1
      simp only [threadStep, hpc]
      rw [word_add_of_lt (by omega)]
  | dequeueSeq pos =>
      rw [hpc] at hknown
      simp only [threadStep, hpc, h.afterDequeueSeq_eq hfits hknown]
  | dequeueCas pos =>
      simp only [threadStep, hpc]
      split
      · rename_i hcas
        rw [word_add_of_lt (by omega)]
      · rfl
  | dequeueRelease pos data =>
      rw [hpc] at hknown
      have hlt := hknown.1
      have hmask := h.mask_succ
      simp only [threadStep, hpc]
      rw [word_add_of_lt (a := pos) (by omega),
        word_add_of_lt (by rw [unbounded_add]; omega)]
  | idle | enqueueLoad | enqueueWrite | dequeueLoad | dequeueRead =>
      simp only [threadStep, hpc]

/-- As long as the elements fit, a step of the queue is one of the algorithm. -/
theorem step_word_eq (h : Ring n s) (hfits : Fits w n s) (a : Action α) :
    step (.word w) s a = step .unbounded s a := by
  cases a with
  | enqueue t data => rfl
  | dequeue t => rfl
  | thread t spurious => exact h.threadStep_word_eq hfits t spurious

end

/-- Nothing that was enqueued is forgotten. -/
theorem length_enqueued_le {A : Arithmetic} {s s' : State α} {a : Action α}
    (hstep : step A s a = some s') : s.enqueued.length ≤ s'.enqueued.length := by
  have hcall : ∀ {t pc}, call s t pc = some s' → s.enqueued.length ≤ s'.enqueued.length := by
    intro t pc hcall
    unfold call at hcall
    split at hcall
    · cases hcall
      exact le_rfl
    · contradiction
  cases a with
  | enqueue t data => exact hcall hstep
  | dequeue t => exact hcall hstep
  | thread t spurious =>
      simp only [step, threadStep] at hstep
      split at hstep
      case h_1 => contradiction
      case h_4 data pos _ =>
        split at hstep
        · cases hstep
          show s.enqueued.length ≤ (s.enqueued ++ [data]).length
          simp
        · cases hstep
          exact le_rfl
      case h_9 =>
        split at hstep
        · cases hstep
          exact le_rfl
        · cases hstep
          exact le_rfl
      all_goals
        cases hstep
        exact le_rfl

/-- Every run of the queue from its construction keeps the invariant, as long as the elements
fit. -/
theorem run_inv {w k : Nat} {garbage : Nat → α} {acts : List (Action α)} {s : State α}
    (hrun : run (step (.word w)) (State.start (2 ^ (k + 1)) garbage) acts = some s)
    (hfits : Fits w (2 ^ (k + 1)) s) : Inv (2 ^ (k + 1)) s := by
  -- elements are only added, so what fits at the end fits at every step before
  have hstep : ∀ (t : State α) (a : Action α) (t' : State α),
      (Fits w (2 ^ (k + 1)) t → Inv (2 ^ (k + 1)) t) → step (.word w) t a = some t' →
      Fits w (2 ^ (k + 1)) t' → Inv (2 ^ (k + 1)) t' := by
    intro t a t' ht hstep hfits'
    have hle := length_enqueued_le hstep
    have hfits : Fits w (2 ^ (k + 1)) t := by
      unfold Fits at hfits' ⊢
      omega
    rw [step_word_eq (ht hfits).ring hfits] at hstep
    exact step_inv (ht hfits) hstep
  exact run_invariant hstep (fun _ => ⟨start_ring k garbage, start_log _ garbage⟩) hrun hfits

end MpmcQueue
end TinyNet
