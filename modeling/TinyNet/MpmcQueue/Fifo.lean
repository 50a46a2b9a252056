import TinyNet.MpmcQueue.Words

/-!
# The bounded queue is first in, first out

What the queue is for: the consumer that takes a position gets what the producer of that
position has put there, every position is taken once, no more than {lit}`buffer_size`
elements are in the queue, no two threads are at the data of one cell, and a call returns
false only for a reason.  All of this is about a {lit}`size_t` of any width {lit}`w`, and
about runs that enqueue less than half its range: once positions come round again, a thread
that was held up before its compare-and-swap for a whole turn cannot tell.

Main results:

- Theorem {lit}`dequeue_fifo`: every result of {lit}`dequeue` is the element of its
  position; positions are dequeued once each, and none is skipped.
- Theorem {lit}`cell_exclusive`: no two threads are at the data of one cell.
- Theorem {lit}`refusals_justified`: {lit}`enqueue` returns false only when every cell is
  taken, and {lit}`dequeue` only when the next element has not been published.
-/

namespace TinyNet
namespace MpmcQueue

open Library.Holders
open Library.MachineInt (unbounded_add unbounded_dif)
open Library.RingBuffer (window_inj exists_window)
open Library.StepSystem

variable {α : Type}

/-! ## Results -/

/-- In every run of any number of threads on a queue of {lit}`2 ^ (k + 1)` cells, as long as
the elements enqueued fit into a word: the {lit}`dequeue` that took a position returned the
element enqueued at that position; no position was returned twice; every position below
{lit}`dequeue_pos_` was returned or is being read, and if none is being read, the results
are exactly the first elements enqueued; and there are never more elements in the queue than
cells. -/
theorem dequeue_fifo {w k : Nat} {garbage : Nat → α} {acts : List (Action α)} {s : State α}
    (hrun : run (step (.word w)) (State.start (2 ^ (k + 1)) garbage) acts = some s)
    (hfits : Fits w (2 ^ (k + 1)) s) :
    (∀ e, e ∈ s.dequeued → s.enqueued[e.1]? = some e.2) ∧
      (s.dequeued.map Prod.fst).Nodup ∧
      (∀ p, p < s.queue.dequeuePos →
        p ∈ s.dequeued.map Prod.fst ∨ Held Pc.reading s.threads p) ∧
      ((∀ t, (s.threads t).reading = none) → ∀ (p : Nat) (x : α),
        (p, x) ∈ s.dequeued ↔ p < s.queue.dequeuePos ∧ s.enqueued[p]? = some x) ∧
      s.enqueued.length = s.queue.enqueuePos ∧
      s.queue.dequeuePos ≤ s.queue.enqueuePos ∧
      s.queue.enqueuePos ≤ s.queue.dequeuePos + 2 ^ (k + 1) := by
  have h := run_inv hrun hfits
  refine ⟨fun e he => (h.log.value e he).2, h.log.nodup, h.log.complete, ?_,
    h.ring.length_enqueued, h.ring.le, h.ring.le_add⟩
  intro hnone p x
  constructor
  · intro hmem
    exact h.log.value (p, x) hmem
  · rintro ⟨hlt, hx⟩
    rcases h.log.complete p hlt with hmem | ⟨t, ht⟩
    · rcases List.mem_map.mp hmem with ⟨e, he, rfl⟩
      have hvalue := (h.log.value e he).2
      rw [hx] at hvalue
      cases hvalue
      exact he
    · rw [hnone t] at ht
      contradiction

/-- One thread enqueues and another dequeues, on two cells. -/
def handover : List (Action Nat) :=
  [.enqueue 0 7, .thread 0 false, .thread 0 false, .thread 0 true, .thread 0 false,
    .thread 0 false, .thread 0 false, .thread 0 false, .dequeue 1, .thread 1 false,
    .thread 1 false, .thread 1 false, .thread 1 false, .thread 1 false]

theorem dequeue_fifo_handover :
    ∃ s, run (step (.word 64)) (State.start 2 fun _ => 0) handover = some s ∧
      s.dequeued = [(0, 7)] ∧ s.enqueued[0]? = some 7 := by
  have hmap : (run (step (.word 64)) (State.start 2 fun _ => 0) handover).map
      (fun s => (s.dequeued, s.enqueued)) = some ([(0, 7)], [7]) := by
    decide
  rcases Option.map_eq_some_iff.mp hmap with ⟨s, hs, heq⟩
  simp only [Prod.mk.injEq] at heq
  have hfits : Fits 64 2 s := by simp [Fits, heq.2]
  exact ⟨s, hs, heq.1, (dequeue_fifo (k := 0) hs hfits).1 (0, 7) (by simp [heq.1])⟩

/-- The position whose cell a thread has to itself. -/
def Pc.accessing (pc : Pc α) : Option Nat :=
  pc.writing.or pc.reading

/-- No two threads are ever at the data of one cell, as long as the elements enqueued fit
into a word. -/
theorem cell_exclusive {w k : Nat} {garbage : Nat → α} {acts : List (Action α)} {s : State α}
    (hrun : run (step (.word w)) (State.start (2 ^ (k + 1)) garbage) acts = some s)
    (hfits : Fits w (2 ^ (k + 1)) s) {t t' p p' : Nat} (ht : t ≠ t')
    (hp : (s.threads t).accessing = some p) (hp' : (s.threads t').accessing = some p') :
    s.queue.slot p ≠ s.queue.slot p' := by
  have h := (run_inv hrun hfits).ring
  have hadd := h.le_add
  have hle := h.le
  rw [h.slot_eq, h.slot_eq]
  intro hmod
  rw [Pc.accessing, Option.or_eq_some_iff] at hp hp'
  rcases hp with hp | ⟨-, hp⟩ <;> rcases hp' with hp' | ⟨-, hp'⟩
  · rcases h.of_writing hp with ⟨hlo, hhi, -⟩
    rcases h.of_writing hp' with ⟨hlo', hhi', -⟩
    obtain rfl := window_inj hhi (by omega) hhi' (by omega) hmod
    exact ht (h.writer t t' p hp hp')
  · rcases h.of_writing hp with ⟨hlo, hhi, -⟩
    rcases h.of_reading hp' with ⟨hlo', hhi', -⟩
    have heq := window_inj hhi (by omega) (by omega) hhi' hmod
    omega
  · rcases h.of_reading hp with ⟨hlo, hhi, -⟩
    rcases h.of_writing hp' with ⟨hlo', hhi', -⟩
    have heq := window_inj (by omega) hhi hhi' (by omega) hmod
    omega
  · rcases h.of_reading hp with ⟨hlo, hhi, -⟩
    rcases h.of_reading hp' with ⟨hlo', hhi', -⟩
    obtain rfl := window_inj (by omega) hhi (by omega) hhi' hmod
    exact ht (h.reader t t' p hp hp')

/-- Two producers have taken a position each. -/
theorem cell_exclusive_two_producers :
    ∃ s, run (step (.word 64)) (State.start 2 fun _ => 0)
        [.enqueue 0 7, .thread 0 false, .thread 0 false, .thread 0 false, .enqueue 1 8,
          .thread 1 false, .thread 1 false, .thread 1 false] = some s ∧
      s.queue.slot 0 ≠ s.queue.slot 1 := by
  have hmap : (run (step (.word 64)) (State.start 2 fun _ => 0)
      [.enqueue 0 7, .thread 0 false, .thread 0 false, .thread 0 false, .enqueue 1 8,
        .thread 1 false, .thread 1 false, .thread 1 false]).map
        (fun s => ((s.threads 0).accessing, (s.threads 1).accessing, s.enqueued)) =
      some (some 0, some 1, [7, 8]) := by
    decide
  rcases Option.map_eq_some_iff.mp hmap with ⟨s, hs, heq⟩
  simp only [Prod.mk.injEq] at heq
  have hfits : Fits 64 2 s := by simp [Fits, heq.2.2]
  exact ⟨s, hs, cell_exclusive (k := 0) hs hfits Nat.zero_ne_one heq.1 heq.2.1⟩

/-! ## Refusals -/

namespace Ring

variable {n : Nat} {s : State α}

/-- The sequence number of a cell is never behind a position that was enqueued, and is ahead
of one that was dequeued. -/
theorem le_sequence (h : Ring n s) {p : Nat} (hp : p < s.queue.enqueuePos) :
    p ≤ (s.queue.cell p).sequence ∧
      (p < s.queue.dequeuePos → p < (s.queue.cell p).sequence) := by
  have htwo := h.two_le
  rcases exists_window (m := n) (by omega) hp with ⟨q, hle, hlt, hwindow, hmod⟩
  rw [h.cell_congr hmod.symm]
  cases h.cell q hlt hwindow with
  | writing hseq => omega
  | full hseq => omega
  | reading hseq => omega
  | free hseq => omega

/-- A producer that finds a sequence number behind its position has the next position, and
the element one round before it is in the queue or being read. -/
theorem enqueue_refused (h : Ring n s) {pos : Nat} (hpos : pos ≤ s.queue.enqueuePos)
    (hseq : (s.queue.cell pos).sequence < pos) :
    s.queue.enqueuePos = s.queue.dequeuePos + n ∨
      Held Pc.reading s.threads (s.queue.enqueuePos - n) := by
  have hadd := h.le_add
  have heq : pos = s.queue.enqueuePos := by
    by_contra hne
    have hle := (h.le_sequence (p := pos) (by omega)).1
    omega
  rw [heq] at hseq
  have hn : n ≤ s.queue.enqueuePos := by
    by_contra hfirst
    have hfresh := h.fresh s.queue.enqueuePos le_rfl (by omega)
    omega
  have htwo := h.two_le
  have hcell := h.cell_congr (Nat.mod_eq_sub_mod hn).symm
  cases h.cell (s.queue.enqueuePos - n) (by omega) (by omega) with
  | writing hseq' hle => left; omega
  | full hseq' hle => left; omega
  | reading hseq' hlt hheld => exact Or.inr hheld
  | free hseq' hlt => rw [hcell] at hseq'; omega

/-- A consumer that finds a sequence number behind its position has the next position, and
its element has not been enqueued or is being written. -/
theorem dequeue_refused (h : Ring n s) {pos : Nat} (hpos : pos ≤ s.queue.dequeuePos)
    (hseq : (s.queue.cell pos).sequence < pos + 1) :
    s.queue.dequeuePos = s.queue.enqueuePos ∨
      Held Pc.writing s.threads s.queue.dequeuePos := by
  have hle := h.le
  have heq : pos = s.queue.dequeuePos := by
    by_contra hne
    have hlt := (h.le_sequence (p := pos) (by omega)).2 (by omega)
    omega
  rw [heq] at hseq
  rcases hle.eq_or_lt with hempty | hlt
  · exact Or.inl hempty
  · cases h.cell s.queue.dequeuePos hlt h.le_add with
    | writing hseq' hle' hheld => exact Or.inr hheld
    | full hseq' => omega
    | reading hseq' hlt' => omega
    | free hseq' hlt' => omega

end Ring

/-- A call returns false for a reason, as long as the elements enqueued fit into a word.  When
{lit}`enqueue` does, all cells are taken: the queue is full, or the oldest element is still
being read.  When {lit}`dequeue` does, there is nothing to take: the queue is empty, or its
first element is still being written. -/
theorem refusals_justified {w k : Nat} {garbage : Nat → α} {acts : List (Action α)}
    {s : State α}
    (hrun : run (step (.word w)) (State.start (2 ^ (k + 1)) garbage) acts = some s)
    (hfits : Fits w (2 ^ (k + 1)) s) (t : Nat) :
    (∀ data pos, s.threads t = .enqueueSeq data pos →
      afterEnqueueSeq (.word w) (s.queue.cell pos).sequence data pos = .idle →
        s.queue.enqueuePos = s.queue.dequeuePos + 2 ^ (k + 1) ∨
          Held Pc.reading s.threads (s.queue.enqueuePos - 2 ^ (k + 1))) ∧
    (∀ pos, s.threads t = .dequeueSeq pos →
      afterDequeueSeq (.word w) (s.queue.cell pos).sequence pos = (.idle : Pc α) →
        s.queue.dequeuePos = s.queue.enqueuePos ∨
          Held Pc.writing s.threads s.queue.dequeuePos) := by
  have h := (run_inv hrun hfits).ring
  have hknown := h.pc t
  constructor
  · intro data pos hpc hfalse
    rw [hpc] at hknown
    rw [h.afterEnqueueSeq_eq hfits data hknown, afterEnqueueSeq_eq_idle_iff,
      unbounded_dif] at hfalse
    exact h.enqueue_refused hknown (by omega)
  · intro pos hpc hfalse
    rw [hpc] at hknown
    rw [h.afterDequeueSeq_eq hfits hknown, afterDequeueSeq_eq_idle_iff, unbounded_dif,
      unbounded_add] at hfalse
    exact h.dequeue_refused hknown (by omega)

/-- A producer fills two cells, and comes back with a third element. -/
def fills : List (Action Nat) :=
  [.enqueue 0 7, .thread 0 false, .thread 0 false, .thread 0 false, .thread 0 false,
    .thread 0 false, .enqueue 0 8, .thread 0 false, .thread 0 false, .thread 0 false,
    .thread 0 false, .thread 0 false, .enqueue 0 9, .thread 0 false]

/-- It is refused; then a consumer takes both elements, and comes back for a third. -/
def drains : List (Action Nat) :=
  [.thread 0 false, .dequeue 1, .thread 1 false, .thread 1 false, .thread 1 false,
    .thread 1 false, .thread 1 false, .dequeue 1, .thread 1 false, .thread 1 false,
    .thread 1 false, .thread 1 false, .thread 1 false, .dequeue 1, .thread 1 false]

/-- The producer finds the queue full, and the consumer finds it empty after two elements have
gone through. -/
theorem refusals_justified_fills_drains :
    ∃ s s', run (step (.word 64)) (State.start 2 fun _ => 0) fills = some s ∧
      s.threads 0 = .enqueueSeq 9 2 ∧
      (s.queue.enqueuePos = s.queue.dequeuePos + 2 ∨
        Held Pc.reading s.threads (s.queue.enqueuePos - 2)) ∧
      run (step (.word 64)) (State.start 2 fun _ => 0) (fills ++ drains) = some s' ∧
      s'.dequeued = [(0, 7), (1, 8)] ∧ s'.threads 1 = .dequeueSeq 2 ∧
      (s'.queue.dequeuePos = s'.queue.enqueuePos ∨
        Held Pc.writing s'.threads s'.queue.dequeuePos) := by
  have hfull : (run (step (.word 64)) (State.start 2 fun _ => 0) fills).map
      (fun s => (s.threads 0, (s.queue.cell 2).sequence, s.enqueued)) =
      some (.enqueueSeq 9 2, 1, [7, 8]) := by
    decide
  have hempty : (run (step (.word 64)) (State.start 2 fun _ => 0) (fills ++ drains)).map
      (fun s => (s.threads 1, (s.queue.cell 2).sequence, s.enqueued, s.dequeued)) =
      some (.dequeueSeq 2, 2, [7, 8], [(0, 7), (1, 8)]) := by
    decide
  rcases Option.map_eq_some_iff.mp hfull with ⟨s, hs, heq⟩
  rcases Option.map_eq_some_iff.mp hempty with ⟨s', hs', heq'⟩
  simp only [Prod.mk.injEq] at heq heq'
  have hfits : Fits 64 2 s := by simp [Fits, heq.2.2]
  have hfits' : Fits 64 2 s' := by simp [Fits, heq'.2.2.1]
  have hrefused := (refusals_justified (k := 0) hs hfits 0).1 9 2 heq.1
    (by rw [heq.2.1]; decide)
  have hrefused' := (refusals_justified (k := 0) hs' hfits' 1).2 2 heq'.1
    (by rw [heq'.2.1]; decide)
  exact ⟨s, s', hs, heq.1, hrefused, hs', heq'.2.2.2, heq'.1, hrefused'⟩

end MpmcQueue
end TinyNet
