import TinyNet.Library.Holders
import TinyNet.Library.RingBuffer
import TinyNet.MpmcQueue.Model

/-!
# Whose turn it is at a cell

For a buffer whose size is a power of two and at least two, which the constructor asserts,
the sequence number of a cell tells in which of four states its position is: being
written, full, being read, or free for the next round.  What a thread has read of a cell
before its compare-and-swap may be out of date, but not if that succeeds.  This file is about
the algorithm, which counts without a bound.

Main results:

- Theorem {lit}`step_inv`: every step keeps the cells, the threads and the results in
  order.
-/

namespace TinyNet
namespace MpmcQueue

open Library.Holders
open Library.MachineInt (Arithmetic unbounded_add unbounded_dif)
open Library.RingBuffer (mod_ne window_inj)

variable {α : Type}

/-! ## The invariant -/

/-- The state of the cell of a position among the last {lit}`n` that were enqueued:
being written, full, being read, or free for the next round. -/
inductive CellOk (n : Nat) (s : State α) (p : Nat) : Prop
  | writing (hseq : (s.queue.cell p).sequence = p) (hle : s.queue.dequeuePos ≤ p)
      (hheld : Held Pc.writing s.threads p)
  | full (hseq : (s.queue.cell p).sequence = p + 1) (hle : s.queue.dequeuePos ≤ p)
      (hdata : s.enqueued[p]? = some (s.queue.cell p).data)
  | reading (hseq : (s.queue.cell p).sequence = p + 1) (hlt : p < s.queue.dequeuePos)
      (hheld : Held Pc.reading s.threads p)
  | free (hseq : (s.queue.cell p).sequence = p + n) (hlt : p < s.queue.dequeuePos)

/-- What a thread knows.  Before its compare-and-swap it knows the sequence number of the
cell only as long as nobody else has taken the position. -/
def PcOk (n : Nat) (s : State α) : Pc α → Prop
  | .enqueueSeq _ pos => pos ≤ s.queue.enqueuePos
  | .enqueueCas _ pos =>
      pos < s.queue.enqueuePos ∨
        (pos = s.queue.enqueuePos ∧ (s.queue.cell pos).sequence = pos)
  | .enqueueWrite data pos =>
      s.queue.dequeuePos ≤ pos ∧ pos < s.queue.enqueuePos ∧
        (s.queue.cell pos).sequence = pos ∧ s.enqueued[pos]? = some data
  | .enqueuePublish pos =>
      s.queue.dequeuePos ≤ pos ∧ pos < s.queue.enqueuePos ∧
        (s.queue.cell pos).sequence = pos ∧
        s.enqueued[pos]? = some (s.queue.cell pos).data
  | .dequeueSeq pos => pos ≤ s.queue.dequeuePos
  | .dequeueCas pos =>
      pos < s.queue.dequeuePos ∨
        (pos = s.queue.dequeuePos ∧ (s.queue.cell pos).sequence = pos + 1)
  | .dequeueRead pos =>
      pos < s.queue.dequeuePos ∧ s.queue.enqueuePos ≤ pos + n ∧
        (s.queue.cell pos).sequence = pos + 1 ∧
        s.enqueued[pos]? = some (s.queue.cell pos).data
  | .dequeueRelease pos data =>
      pos < s.queue.dequeuePos ∧ s.queue.enqueuePos ≤ pos + n ∧
        (s.queue.cell pos).sequence = pos + 1 ∧ s.enqueued[pos]? = some data
  | _ => True

/-- What holds of the cells and the threads between any two steps, for a buffer of
{lit}`n` cells. -/
structure Ring (n : Nat) (s : State α) : Prop where
  two_le : 2 ≤ n
  slot_eq : ∀ p, s.queue.slot p = p % n
  mask_succ : s.queue.bufferMask + 1 = n
  le : s.queue.dequeuePos ≤ s.queue.enqueuePos
  le_add : s.queue.enqueuePos ≤ s.queue.dequeuePos + n
  length_enqueued : s.enqueued.length = s.queue.enqueuePos
  fresh : ∀ p, s.queue.enqueuePos ≤ p → p < n → (s.queue.cell p).sequence = p
  cell : ∀ p, p < s.queue.enqueuePos → s.queue.enqueuePos ≤ p + n → CellOk n s p
  pc : ∀ t, PcOk n s (s.threads t)
  writer : Exclusive Pc.writing s.threads
  reader : Exclusive Pc.reading s.threads

/-- What holds of the results between any two steps: they are right, no position has two,
and the positions without one are still being read. -/
structure Log (s : State α) : Prop where
  value : ∀ e, e ∈ s.dequeued → e.1 < s.queue.dequeuePos ∧ s.enqueued[e.1]? = some e.2
  nodup : (s.dequeued.map Prod.fst).Nodup
  pending : ∀ p, Held Pc.reading s.threads p → p ∉ s.dequeued.map Prod.fst
  complete : ∀ p, p < s.queue.dequeuePos →
    p ∈ s.dequeued.map Prod.fst ∨ Held Pc.reading s.threads p

theorem start_ring (k : Nat) (garbage : Nat → α) :
    Ring (2 ^ (k + 1)) (State.start (2 ^ (k + 1)) garbage) := by
  have hpos : 0 < 2 ^ (k + 1) := Nat.two_pow_pos _
  have htwo : 2 ≤ 2 ^ (k + 1) := by
    rw [Nat.pow_succ]
    have := Nat.two_pow_pos k
    omega
  have hslot : ∀ p, (Queue.create (2 ^ (k + 1)) garbage).slot p = p % 2 ^ (k + 1) :=
    fun p => Nat.and_two_pow_sub_one_eq_mod p (k + 1)
  refine ⟨htwo, hslot, Nat.sub_add_cancel hpos, le_rfl, Nat.zero_le _, rfl, ?_, ?_,
    fun _ => trivial, exclusive_const rfl, exclusive_const rfl⟩
  · intro p _ hp
    show (Queue.create (2 ^ (k + 1)) garbage).slot p = p
    rw [hslot, Nat.mod_eq_of_lt hp]
  · intro p hp
    exact absurd hp (Nat.not_lt_zero p)

theorem start_log (bufferSize : Nat) (garbage : Nat → α) :
    Log (State.start bufferSize garbage) :=
  ⟨nofun, List.nodup_nil, nofun, nofun⟩

/-- What the other threads know when a producer takes a position. -/
theorem PcOk.takeEnqueue {n : Nat} {s : State α} {pc : Pc α} {data : α} (h : PcOk n s pc)
    (hold : ∀ (p : Nat) (x : α), s.enqueued[p]? = some x →
      (s.enqueued ++ [data])[p]? = some x)
    (hother : ∀ p, (s.queue.cell p).sequence = p + 1 → s.queue.enqueuePos ≠ p + n) :
    PcOk n (s.takeEnqueue data (s.queue.enqueuePos + 1)) pc := by
  cases pc with
  | enqueueSeq data' pos => exact Nat.le_succ_of_le h
  | enqueueCas data' pos =>
      left
      rcases h with hlt | ⟨rfl, -⟩
      · exact Nat.lt_succ_of_lt hlt
      · exact Nat.lt_succ_self _
  | enqueueWrite data' pos =>
      exact ⟨h.1, Nat.lt_succ_of_lt h.2.1, h.2.2.1, hold _ _ h.2.2.2⟩
  | enqueuePublish pos =>
      exact ⟨h.1, Nat.lt_succ_of_lt h.2.1, h.2.2.1, hold _ _ h.2.2.2⟩
  | dequeueRead pos =>
      exact ⟨h.1, Nat.succ_le_of_lt (lt_of_le_of_ne h.2.1 (hother _ h.2.2.1)), h.2.2.1,
        hold _ _ h.2.2.2⟩
  | dequeueRelease pos data' =>
      exact ⟨h.1, Nat.succ_le_of_lt (lt_of_le_of_ne h.2.1 (hother _ h.2.2.1)), h.2.2.1,
        hold _ _ h.2.2.2⟩
  | _ => exact h

/-- What the other threads know when a consumer takes a position. -/
theorem PcOk.takeDequeue {n : Nat} {s : State α} {pc : Pc α} (h : PcOk n s pc)
    (hwritten : ∀ p, (s.queue.cell p).sequence = p → s.queue.dequeuePos ≤ p →
      s.queue.dequeuePos + 1 ≤ p) :
    PcOk n (s.takeDequeue (s.queue.dequeuePos + 1)) pc := by
  cases pc with
  | enqueueWrite data' pos => exact ⟨hwritten pos h.2.2.1 h.1, h.2⟩
  | enqueuePublish pos => exact ⟨hwritten pos h.2.2.1 h.1, h.2⟩
  | dequeueSeq pos => exact Nat.le_succ_of_le h
  | dequeueCas pos =>
      left
      rcases h with hlt | ⟨rfl, -⟩
      · exact Nat.lt_succ_of_lt hlt
      · exact Nat.lt_succ_self _
  | dequeueRead pos => exact ⟨Nat.lt_succ_of_lt h.1, h.2⟩
  | dequeueRelease pos data' => exact ⟨Nat.lt_succ_of_lt h.1, h.2⟩
  | _ => exact h

/-- What the other threads know when a producer writes its data: nothing about that
cell. -/
theorem PcOk.writeData {n : Nat} {s : State α} {pos : Nat} {data : α} {pc : Pc α}
    (h : PcOk n s pc)
    (hseq : ∀ p, ((s.writeData pos data).queue.cell p).sequence = (s.queue.cell p).sequence)
    (hdata : ∀ p, pc.writing = some p ∨ pc.reading = some p →
      ((s.writeData pos data).queue.cell p).data = (s.queue.cell p).data) :
    PcOk n (s.writeData pos data) pc := by
  cases pc with
  | enqueueCas data' p => exact h.imp_right fun h => ⟨h.1, (hseq p).trans h.2⟩
  | enqueueWrite data' p => exact ⟨h.1, h.2.1, (hseq p).trans h.2.2.1, h.2.2.2⟩
  | enqueuePublish p =>
      exact ⟨h.1, h.2.1, (hseq p).trans h.2.2.1, by rw [hdata p (Or.inl rfl)]; exact h.2.2.2⟩
  | dequeueCas p => exact h.imp_right fun h => ⟨h.1, (hseq p).trans h.2⟩
  | dequeueRead p =>
      exact ⟨h.1, h.2.1, (hseq p).trans h.2.2.1, by rw [hdata p (Or.inr rfl)]; exact h.2.2.2⟩
  | dequeueRelease p data' => exact ⟨h.1, h.2.1, (hseq p).trans h.2.2.1, h.2.2.2⟩
  | _ => exact h

/-- What the other threads know when a sequence number is stored: nothing about that
cell. -/
theorem PcOk.storeSequence {n : Nat} {s : State α} {pos sequence : Nat} {pc : Pc α}
    (h : PcOk n s pc)
    (hdata : ∀ p, ((s.storeSequence pos sequence).queue.cell p).data = (s.queue.cell p).data)
    (hseq : ∀ p, pc.writing = some p ∨ pc.reading = some p ∨
        (p = s.queue.enqueuePos ∧ (s.queue.cell p).sequence = p) ∨
        (p = s.queue.dequeuePos ∧ (s.queue.cell p).sequence = p + 1) →
      ((s.storeSequence pos sequence).queue.cell p).sequence = (s.queue.cell p).sequence) :
    PcOk n (s.storeSequence pos sequence) pc := by
  cases pc with
  | enqueueCas data' p =>
      exact h.imp_right fun h => ⟨h.1, (hseq p (Or.inr (Or.inr (Or.inl h)))).trans h.2⟩
  | enqueueWrite data' p =>
      exact ⟨h.1, h.2.1, (hseq p (Or.inl rfl)).trans h.2.2.1, h.2.2.2⟩
  | enqueuePublish p =>
      exact ⟨h.1, h.2.1, (hseq p (Or.inl rfl)).trans h.2.2.1, by rw [hdata]; exact h.2.2.2⟩
  | dequeueCas p =>
      exact h.imp_right fun h => ⟨h.1, (hseq p (Or.inr (Or.inr (Or.inr h)))).trans h.2⟩
  | dequeueRead p =>
      exact ⟨h.1, h.2.1, (hseq p (Or.inr (Or.inl rfl))).trans h.2.2.1, by
        rw [hdata]; exact h.2.2.2⟩
  | dequeueRelease p data' =>
      exact ⟨h.1, h.2.1, (hseq p (Or.inr (Or.inl rfl))).trans h.2.2.1, h.2.2.2⟩
  | _ => exact h

namespace Ring

variable {n : Nat} {s : State α}

/-- The cell of a position, after another was written. -/
theorem cell_setCell (h : Ring n s) (p pos : Nat) (c : Cell α) :
    (s.queue.setCell pos c).cell p = if p % n = pos % n then c else s.queue.cell p := by
  show Function.update s.queue.buffer (s.queue.slot pos) c (s.queue.slot p) = _
  rw [h.slot_eq, h.slot_eq, Function.update_apply]
  split
  · rfl
  · rw [Queue.cell, h.slot_eq]

/-- Positions with one cell have the same cell. -/
theorem cell_congr (h : Ring n s) {p q : Nat} (hpq : p % n = q % n) :
    s.queue.cell p = s.queue.cell q := by
  rw [Queue.cell, Queue.cell, h.slot_eq, h.slot_eq, hpq]

/-- What is known of a position that a producer holds. -/
theorem of_writing (h : Ring n s) {t p : Nat} (hp : (s.threads t).writing = some p) :
    s.queue.dequeuePos ≤ p ∧ p < s.queue.enqueuePos ∧ (s.queue.cell p).sequence = p := by
  have hknown := h.pc t
  cases hpc : s.threads t <;> rw [hpc] at hp hknown <;> cases hp
  · exact ⟨hknown.1, hknown.2.1, hknown.2.2.1⟩
  · exact ⟨hknown.1, hknown.2.1, hknown.2.2.1⟩

/-- What is known of a position that a consumer holds. -/
theorem of_reading (h : Ring n s) {t p : Nat} (hp : (s.threads t).reading = some p) :
    p < s.queue.dequeuePos ∧ s.queue.enqueuePos ≤ p + n ∧
      (s.queue.cell p).sequence = p + 1 := by
  have hknown := h.pc t
  cases hpc : s.threads t <;> rw [hpc] at hp hknown <;> cases hp
  · exact ⟨hknown.1, hknown.2.1, hknown.2.2.1⟩
  · exact ⟨hknown.1, hknown.2.1, hknown.2.2.1⟩

/-- A step that only moves a thread on, to a place that holds the same position. -/
theorem move (h : Ring n s) {t : Nat} {pc : Pc α} (hpc : PcOk n s pc)
    (hwriting : pc.writing = (s.threads t).writing)
    (hreading : pc.reading = (s.threads t).reading) : Ring n (s.goto t pc) := by
  refine ⟨h.two_le, h.slot_eq, h.mask_succ, h.le, h.le_add, h.length_enqueued, h.fresh, ?_,
    (Function.forall_update_iff _ _).mpr ⟨hpc, fun t' _ => h.pc t'⟩, ?_, ?_⟩
  · intro p hp hpn
    cases h.cell p hp hpn with
    | writing hseq hle hheld => exact .writing hseq hle (hheld.update hwriting.trans)
    | full hseq hle hdata => exact .full hseq hle hdata
    | reading hseq hlt hheld => exact .reading hseq hlt (hheld.update hreading.trans)
    | free hseq hlt => exact .free hseq hlt
  · exact h.writer.update fun p hp => Or.inl (hwriting ▸ hp)
  · exact h.reader.update fun p hp => Or.inl (hreading ▸ hp)

/-! ## Taking a position -/

/-- A producer that finds its turn finds the cell released by the round before. -/
theorem enqueue_room (h : Ring n s)
    (hseq : (s.queue.cell s.queue.enqueuePos).sequence = s.queue.enqueuePos) :
    s.queue.enqueuePos < s.queue.dequeuePos + n := by
  have htwo := h.two_le
  by_contra hfull
  have hn : n ≤ s.queue.enqueuePos := by omega
  have hcell := h.cell_congr (Nat.mod_eq_sub_mod hn).symm
  cases h.cell (s.queue.enqueuePos - n) (by omega) (by omega) with
  | writing hseq' => rw [hcell] at hseq'; omega
  | full hseq' => rw [hcell] at hseq'; omega
  | reading hseq' => rw [hcell] at hseq'; omega
  | free hseq' hlt => omega

/-- The compare-and-swap of {lit}`enqueue` succeeds. -/
theorem takeEnqueue (h : Ring n s) {t : Nat} {data : α}
    (hpc : s.threads t = .enqueueCas data s.queue.enqueuePos) :
    Ring n ((s.takeEnqueue data (s.queue.enqueuePos + 1)).goto t
      (.enqueueWrite data s.queue.enqueuePos)) := by
  have htwo := h.two_le
  have hlen := h.length_enqueued
  have hle := h.le
  have hseq : (s.queue.cell s.queue.enqueuePos).sequence = s.queue.enqueuePos := by
    have hknown := h.pc t
    rw [hpc] at hknown
    rcases hknown with hlt | ⟨-, hseq⟩
    · omega
    · exact hseq
  have hroom := h.enqueue_room hseq
  -- the cell was released, so nobody is at the position one round before
  have hother : ∀ p, (s.queue.cell p).sequence = p + 1 → s.queue.enqueuePos ≠ p + n := by
    intro p hp heq
    have hcell := h.cell_congr (p := s.queue.enqueuePos) (q := p)
      (by rw [heq, Nat.add_mod_right])
    rw [hcell] at hseq
    omega
  have hold : ∀ (p : Nat) (x : α), s.enqueued[p]? = some x →
      (s.enqueued ++ [data])[p]? = some x := by
    intro p x hx
    rw [List.getElem?_append_left (List.getElem?_eq_some_iff.mp hx).1, hx]
  have hfree : ¬ Held Pc.writing s.threads s.queue.enqueuePos := by
    rintro ⟨t', ht'⟩
    exact absurd (h.of_writing ht').2.1 (lt_irrefl _)
  refine ⟨h.two_le, h.slot_eq, h.mask_succ, ?_, ?_, ?_, ?_, ?_, ?_, ?_, ?_⟩
  · show s.queue.dequeuePos ≤ s.queue.enqueuePos + 1
    omega
  · show s.queue.enqueuePos + 1 ≤ s.queue.dequeuePos + n
    omega
  · show (s.enqueued ++ [data]).length = s.queue.enqueuePos + 1
    rw [List.length_append, hlen, List.length_singleton]
  · intro p hp hpn
    have hp : s.queue.enqueuePos + 1 ≤ p := hp
    exact h.fresh p (by omega) hpn
  · intro p hp hpn
    have hp : p < s.queue.enqueuePos + 1 := hp
    have hpn : s.queue.enqueuePos + 1 ≤ p + n := hpn
    rcases Nat.lt_succ_iff_lt_or_eq.mp hp with hlt | rfl
    · cases h.cell p hlt (by omega) with
      | writing hseq hle hheld =>
          refine .writing hseq hle (hheld.update ?_)
          rw [hpc]
          exact nofun
      | full hseq hle hdata => exact .full hseq hle (hold _ _ hdata)
      | reading hseq hlt hheld =>
          refine .reading hseq hlt (hheld.update ?_)
          rw [hpc]
          exact nofun
      | free hseq hlt => exact .free hseq hlt
    · exact .writing hseq hle (held_update_self _ _ rfl)
  · refine (Function.forall_update_iff _ _).mpr ⟨?_, ?_⟩
    · exact ⟨hle, Nat.lt_succ_self _, hseq, by
        show (s.enqueued ++ [data])[s.queue.enqueuePos]? = some data
        rw [← hlen, List.getElem?_concat_length]⟩
    · exact fun t' _ => (h.pc t').takeEnqueue hold hother
  · exact h.writer.update fun p hp => by
      cases hp
      exact Or.inr hfree
  · exact h.reader.update nofun

/-- A consumer that finds its turn finds the next element published. -/
theorem dequeue_full (h : Ring n s)
    (hseq : (s.queue.cell s.queue.dequeuePos).sequence = s.queue.dequeuePos + 1) :
    s.queue.dequeuePos < s.queue.enqueuePos ∧
      s.enqueued[s.queue.dequeuePos]? = some (s.queue.cell s.queue.dequeuePos).data := by
  have htwo := h.two_le
  have hle := h.le
  have hadd := h.le_add
  have hlt : s.queue.dequeuePos < s.queue.enqueuePos := by
    by_contra hempty
    have heq : s.queue.dequeuePos = s.queue.enqueuePos := by omega
    rw [heq] at hseq
    rcases lt_or_ge s.queue.enqueuePos n with hfirst | hn
    · have hfresh := h.fresh s.queue.enqueuePos le_rfl hfirst
      omega
    · have hcell := h.cell_congr (Nat.mod_eq_sub_mod hn).symm
      cases h.cell (s.queue.enqueuePos - n) (by omega) (by omega) with
      | writing hseq' => rw [hcell] at hseq'; omega
      | full hseq' => rw [hcell] at hseq'; omega
      | reading hseq' => rw [hcell] at hseq'; omega
      | free hseq' => rw [hcell] at hseq'; omega
  refine ⟨hlt, ?_⟩
  cases h.cell s.queue.dequeuePos hlt hadd with
  | writing hseq' => omega
  | full hseq' hle hdata => exact hdata
  | reading hseq' hlt' => omega
  | free hseq' hlt' => omega

/-- The compare-and-swap of {lit}`dequeue` succeeds. -/
theorem takeDequeue (h : Ring n s) {t : Nat}
    (hpc : s.threads t = .dequeueCas s.queue.dequeuePos) :
    Ring n ((s.takeDequeue (s.queue.dequeuePos + 1)).goto t
      (.dequeueRead s.queue.dequeuePos)) := by
  have hle := h.le
  have hadd := h.le_add
  have hseq : (s.queue.cell s.queue.dequeuePos).sequence = s.queue.dequeuePos + 1 := by
    have hknown := h.pc t
    rw [hpc] at hknown
    rcases hknown with hlt | ⟨-, hseq⟩
    · omega
    · exact hseq
  rcases h.dequeue_full hseq with ⟨hlt, hdata⟩
  -- the position is published, so nobody is writing it
  have hwritten : ∀ p, (s.queue.cell p).sequence = p → s.queue.dequeuePos ≤ p →
      s.queue.dequeuePos + 1 ≤ p := by
    intro p hp hle
    refine Nat.succ_le_of_lt (lt_of_le_of_ne hle ?_)
    rintro rfl
    omega
  have hfree : ¬ Held Pc.reading s.threads s.queue.dequeuePos := by
    rintro ⟨t', ht'⟩
    exact absurd (h.of_reading ht').1 (lt_irrefl _)
  have hkeep : ∀ p, (s.threads t).reading = some p →
      (Pc.dequeueRead s.queue.dequeuePos : Pc α).reading = some p := by
    rw [hpc]
    exact nofun
  refine ⟨h.two_le, h.slot_eq, h.mask_succ, ?_, ?_, h.length_enqueued, h.fresh, ?_, ?_, ?_, ?_⟩
  · show s.queue.dequeuePos + 1 ≤ s.queue.enqueuePos
    omega
  · show s.queue.enqueuePos ≤ s.queue.dequeuePos + 1 + n
    omega
  · intro p hp hpn
    cases h.cell p hp hpn with
    | writing hseq' hle' hheld =>
        refine .writing hseq' (hwritten p hseq' hle') (hheld.update ?_)
        rw [hpc]
        exact nofun
    | full hseq' hle' hdata' =>
        rcases hle'.lt_or_eq with hlt' | rfl
        · exact .full hseq' hlt' hdata'
        · exact .reading hseq' (Nat.lt_succ_self _) (held_update_self _ _ rfl)
    | reading hseq' hlt' hheld =>
        exact .reading hseq' (Nat.lt_succ_of_lt hlt') (hheld.update (hkeep p))
    | free hseq' hlt' => exact .free hseq' (Nat.lt_succ_of_lt hlt')
  · exact (Function.forall_update_iff _ _).mpr ⟨⟨Nat.lt_succ_self _, hadd, hseq, hdata⟩,
      fun t' _ => (h.pc t').takeDequeue hwritten⟩
  · exact h.writer.update nofun
  · exact h.reader.update fun p hp => by
      cases hp
      exact Or.inr hfree

/-! ## The cell of a position -/

theorem writeData_sequence (h : Ring n s) (pos : Nat) (data : α) (p : Nat) :
    ((s.writeData pos data).queue.cell p).sequence = (s.queue.cell p).sequence := by
  show ((s.queue.setCell pos _).cell p).sequence = _
  rw [h.cell_setCell]
  split
  · rename_i hmod
    rw [h.cell_congr hmod]
  · rfl

theorem writeData_data (h : Ring n s) (pos : Nat) (data : α) (p : Nat) :
    ((s.writeData pos data).queue.cell p).data =
      if p % n = pos % n then data else (s.queue.cell p).data := by
  show ((s.queue.setCell pos _).cell p).data = _
  rw [h.cell_setCell]
  split <;> rfl

theorem storeSequence_data (h : Ring n s) (pos sequence p : Nat) :
    ((s.storeSequence pos sequence).queue.cell p).data = (s.queue.cell p).data := by
  show ((s.queue.setCell pos _).cell p).data = _
  rw [h.cell_setCell]
  split
  · rename_i hmod
    rw [h.cell_congr hmod]
  · rfl

theorem storeSequence_sequence (h : Ring n s) (pos sequence p : Nat) :
    ((s.storeSequence pos sequence).queue.cell p).sequence =
      if p % n = pos % n then sequence else (s.queue.cell p).sequence := by
  show ((s.queue.setCell pos _).cell p).sequence = _
  rw [h.cell_setCell]
  split <;> rfl

/-- A producer writes its data. -/
theorem writeData (h : Ring n s) {t pos : Nat} {data : α}
    (hpc : s.threads t = .enqueueWrite data pos) :
    Ring n ((s.writeData pos data).goto t (.enqueuePublish pos)) := by
  have hadd := h.le_add
  have hle := h.le
  have hholds : (s.threads t).writing = some pos := by rw [hpc]; rfl
  rcases h.of_writing hholds with ⟨hlo, hhi, hseq⟩
  have hvalue : s.enqueued[pos]? = some data := by
    have hknown := h.pc t
    rw [hpc] at hknown
    exact hknown.2.2.2
  -- no other thread is at this cell
  have hother : ∀ t' p, t' ≠ t →
      (s.threads t').writing = some p ∨ (s.threads t').reading = some p → p % n ≠ pos % n := by
    rintro t' p ht (hp | hp) hmod
    · rcases h.of_writing hp with ⟨hplo, hphi, -⟩
      have heq := window_inj hphi (by omega) hhi (by omega) hmod
      exact ht (h.writer t' t pos (heq ▸ hp) hholds)
    · rcases h.of_reading hp with ⟨hplo, hphi, -⟩
      have heq := window_inj (by omega) hphi hhi (by omega) hmod
      omega
  have hwseq := h.writeData_sequence pos data
  have hwdata := h.writeData_data pos data
  refine ⟨h.two_le, h.slot_eq, h.mask_succ, hle, hadd, h.length_enqueued, ?_, ?_, ?_, ?_, ?_⟩
  · intro p hp hpn
    exact (hwseq p).trans (h.fresh p hp hpn)
  · intro p (hp : p < s.queue.enqueuePos) (hpn : s.queue.enqueuePos ≤ p + n)
    cases h.cell p hp hpn with
    | writing hseq' hle' hheld =>
        refine .writing ((hwseq p).trans hseq') hle' (hheld.update ?_)
        rw [hpc]
        exact id
    | full hseq' hle' hdata =>
        refine .full ((hwseq p).trans hseq') hle' ?_
        have hne : p % n ≠ pos % n := by
          intro hmod
          have heq := window_inj hp hpn hhi (by omega) hmod
          rw [heq] at hseq'
          omega
        show s.enqueued[p]? = some ((s.writeData pos data).queue.cell p).data
        rw [hwdata, if_neg hne]
        exact hdata
    | reading hseq' hlt hheld =>
        refine .reading ((hwseq p).trans hseq') hlt (hheld.update ?_)
        rw [hpc]
        exact nofun
    | free hseq' hlt => exact .free ((hwseq p).trans hseq') hlt
  · refine (Function.forall_update_iff _ _).mpr
      ⟨⟨hlo, hhi, (hwseq pos).trans hseq, ?_⟩, ?_⟩
    · show s.enqueued[pos]? = some ((s.writeData pos data).queue.cell pos).data
      rw [hwdata, if_pos rfl]
      exact hvalue
    · intro t' ht
      refine (h.pc t').writeData hwseq fun p hp => ?_
      rw [hwdata, if_neg (hother t' p ht hp)]
  · refine h.writer.update fun p hp => Or.inl ?_
    rw [hpc]
    exact hp
  · exact h.reader.update nofun

/-- A sequence number is stored by the thread that holds the position, which lets it go.  If
no other thread knows anything of the cell, it is enough to look at the cell itself. -/
theorem store (h : Ring n s) {t pos sequence : Nat}
    (hhi : pos < s.queue.enqueuePos) (hwindow : s.queue.enqueuePos ≤ pos + n)
    (hother : ∀ t' p, t' ≠ t → (s.threads t').writing = some p ∨
      (s.threads t').reading = some p ∨
      (p = s.queue.enqueuePos ∧ (s.queue.cell p).sequence = p) ∨
      (p = s.queue.dequeuePos ∧ (s.queue.cell p).sequence = p + 1) → p % n ≠ pos % n)
    (hwriting : ∀ p, (s.threads t).writing = some p → p = pos)
    (hreading : ∀ p, (s.threads t).reading = some p → p = pos)
    (hcell : CellOk n ((s.storeSequence pos sequence).goto t .idle) pos) :
    Ring n ((s.storeSequence pos sequence).goto t .idle) := by
  have hsdata := h.storeSequence_data pos sequence
  have hkeep : ∀ p, p % n ≠ pos % n →
      ((s.storeSequence pos sequence).queue.cell p).sequence =
        (s.queue.cell p).sequence := by
    intro p hne
    rw [h.storeSequence_sequence, if_neg hne]
  refine ⟨h.two_le, h.slot_eq, h.mask_succ, h.le, h.le_add, h.length_enqueued, ?_, ?_, ?_,
    h.writer.update nofun, h.reader.update nofun⟩
  · intro p (hp : s.queue.enqueuePos ≤ p) hpn
    exact (hkeep p (mod_ne (m := n) (by omega) (by omega)).symm).trans (h.fresh p hp hpn)
  · intro p (hp : p < s.queue.enqueuePos) (hpn : s.queue.enqueuePos ≤ p + n)
    by_cases hmod : p % n = pos % n
    · obtain rfl := window_inj hp hpn hhi hwindow hmod
      exact hcell
    · have hne : p ≠ pos := fun heq => hmod (by rw [heq])
      cases h.cell p hp hpn with
      | writing hseq hle hheld =>
          exact .writing ((hkeep p hmod).trans hseq) hle
            (hheld.update fun hp => absurd (hwriting p hp) hne)
      | full hseq hle hdata =>
          refine .full ((hkeep p hmod).trans hseq) hle ?_
          show s.enqueued[p]? = some ((s.storeSequence pos sequence).queue.cell p).data
          rw [hsdata]
          exact hdata
      | reading hseq hlt hheld =>
          exact .reading ((hkeep p hmod).trans hseq) hlt
            (hheld.update fun hp => absurd (hreading p hp) hne)
      | free hseq hlt => exact .free ((hkeep p hmod).trans hseq) hlt
  · refine (Function.forall_update_iff _ _).mpr ⟨trivial, fun t' ht => ?_⟩
    exact (h.pc t').storeSequence hsdata fun p hp => hkeep p (hother t' p ht hp)

/-- A producer publishes its position. -/
theorem publish (h : Ring n s) {t pos : Nat} (hpc : s.threads t = .enqueuePublish pos) :
    Ring n ((s.storeSequence pos (pos + 1)).goto t .idle) := by
  have htwo := h.two_le
  have hadd := h.le_add
  have hle := h.le
  have hholds : (s.threads t).writing = some pos := by rw [hpc]; rfl
  rcases h.of_writing hholds with ⟨hlo, hhi, hseq⟩
  have hvalue : s.enqueued[pos]? = some (s.queue.cell pos).data := by
    have hknown := h.pc t
    rw [hpc] at hknown
    exact hknown.2.2.2
  refine h.store hhi (by omega) ?_ ?_ ?_ (.full ?_ hlo ?_)
  · rintro t' p ht (hp | hp | ⟨rfl, hp⟩ | ⟨rfl, hp⟩) hmod
    · rcases h.of_writing hp with ⟨hplo, hphi, -⟩
      have heq := window_inj hphi (by omega) hhi (by omega) hmod
      exact ht (h.writer t' t pos (heq ▸ hp) hholds)
    · rcases h.of_reading hp with ⟨hplo, hphi, -⟩
      have heq := window_inj (by omega) hphi hhi (by omega) hmod
      omega
    · rw [h.cell_congr hmod, hseq] at hp
      omega
    · rw [h.cell_congr hmod, hseq] at hp
      exact mod_ne (by omega) (by omega) hmod
  · intro p hp
    rw [hholds] at hp
    exact (Option.some.inj hp).symm
  · rw [hpc]
    exact nofun
  · show ((s.storeSequence pos (pos + 1)).queue.cell pos).sequence = pos + 1
    rw [h.storeSequence_sequence, if_pos rfl]
  · show s.enqueued[pos]? = some ((s.storeSequence pos (pos + 1)).queue.cell pos).data
    rw [h.storeSequence_data]
    exact hvalue

/-- A consumer releases its position. -/
theorem release (h : Ring n s) {t pos : Nat} {data : α}
    (hpc : s.threads t = .dequeueRelease pos data) :
    Ring n ((s.storeSequence pos (pos + n)).goto t .idle) := by
  have htwo := h.two_le
  have hadd := h.le_add
  have hle := h.le
  have hholds : (s.threads t).reading = some pos := by rw [hpc]; rfl
  rcases h.of_reading hholds with ⟨hlo, hhi, hseq⟩
  refine h.store (by omega) hhi ?_ ?_ ?_ (.free ?_ hlo)
  · rintro t' p ht (hp | hp | ⟨rfl, hp⟩ | ⟨rfl, hp⟩) hmod
    · rcases h.of_writing hp with ⟨hplo, hphi, -⟩
      have heq := window_inj hphi (by omega) (by omega) hhi hmod
      omega
    · rcases h.of_reading hp with ⟨hplo, hphi, -⟩
      have heq := window_inj (by omega) hphi (by omega) hhi hmod
      exact ht (h.reader t' t pos (heq ▸ hp) hholds)
    · rw [h.cell_congr hmod, hseq] at hp
      exact mod_ne (by omega) (by omega) hmod.symm
    · rw [h.cell_congr hmod, hseq] at hp
      omega
  · rw [hpc]
    exact nofun
  · intro p hp
    rw [hholds] at hp
    exact (Option.some.inj hp).symm
  · show ((s.storeSequence pos (pos + n)).queue.cell pos).sequence = pos + n
    rw [h.storeSequence_sequence, if_pos rfl]

/-- Results do not matter to the cells. -/
theorem logDequeue (h : Ring n s) (pos : Nat) (data : α) : Ring n (s.logDequeue pos data) := by
  refine ⟨h.two_le, h.slot_eq, h.mask_succ, h.le, h.le_add, h.length_enqueued, h.fresh, ?_,
    h.pc, h.writer, h.reader⟩
  intro p hp hpn
  cases h.cell p hp hpn with
  | writing hseq hle hheld => exact .writing hseq hle hheld
  | full hseq hle hdata => exact .full hseq hle hdata
  | reading hseq hlt hheld => exact .reading hseq hlt hheld
  | free hseq hlt => exact .free hseq hlt

end Ring

/-! ## The results -/

namespace Log

variable {n : Nat} {s s' : State α}

/-- A step that neither takes nor releases a position for reading. -/
theorem frame (h : Log s) (hdequeued : s'.dequeued = s.dequeued)
    (hpos : s'.queue.dequeuePos = s.queue.dequeuePos)
    (hvalue : ∀ (p : Nat) (x : α), s.enqueued[p]? = some x → s'.enqueued[p]? = some x)
    (hheld : ∀ p, Held Pc.reading s'.threads p ↔ Held Pc.reading s.threads p) : Log s' := by
  refine ⟨?_, ?_, ?_, ?_⟩
  · intro e he
    rw [hdequeued] at he
    rw [hpos]
    exact ⟨(h.value e he).1, hvalue _ _ (h.value e he).2⟩
  · rw [hdequeued]
    exact h.nodup
  · intro p hp
    rw [hdequeued]
    exact h.pending p ((hheld p).mp hp)
  · intro p hp
    rw [hpos] at hp
    rw [hdequeued, hheld]
    exact h.complete p hp

/-- A consumer takes a position. -/
theorem take (h : Log s) {t : Nat} (hidle : (s.threads t).reading = none) :
    Log ((s.takeDequeue (s.queue.dequeuePos + 1)).goto t
      (.dequeueRead s.queue.dequeuePos)) := by
  have hkeep : ∀ p, (s.threads t).reading = some p →
      (Pc.dequeueRead s.queue.dequeuePos : Pc α).reading = some p := by
    rw [hidle]
    exact nofun
  refine ⟨?_, h.nodup, ?_, ?_⟩
  · intro e he
    exact ⟨Nat.lt_succ_of_lt (h.value e he).1, (h.value e he).2⟩
  · intro p hheld hmem
    rcases hheld.of_update with hp | ⟨t', -, hp⟩
    · cases hp
      rcases List.mem_map.mp hmem with ⟨e, he, heq⟩
      have hlt := (h.value e he).1
      omega
    · exact h.pending p ⟨t', hp⟩ hmem
  · intro p hp
    rcases Nat.lt_succ_iff_lt_or_eq.mp hp with hlt | rfl
    · exact (h.complete p hlt).imp_right fun hheld => hheld.update (hkeep p)
    · exact Or.inr (held_update_self _ _ rfl)

/-- A consumer returns the element of the position that it holds. -/
theorem release (h : Log s) (hring : Ring n s) {t pos sequence : Nat} {data : α}
    (hpc : s.threads t = .dequeueRelease pos data) :
    Log (((s.storeSequence pos sequence).logDequeue pos data).goto t .idle) := by
  have hknown := hring.pc t
  rw [hpc] at hknown
  have hholds : (s.threads t).reading = some pos := by rw [hpc]; rfl
  have hpending := h.pending pos ⟨t, hholds⟩
  have hmem : ∀ p, p ∈ (s.dequeued ++ [(pos, data)]).map Prod.fst ↔
      p ∈ s.dequeued.map Prod.fst ∨ p = pos := by
    simp
  refine ⟨?_, ?_, ?_, ?_⟩
  · intro e he
    rcases List.mem_append.mp he with hmem | hmem
    · exact h.value e hmem
    · obtain rfl := List.mem_singleton.mp hmem
      exact ⟨hknown.1, hknown.2.2.2⟩
  · show ((s.dequeued ++ [(pos, data)]).map Prod.fst).Nodup
    rw [List.map_append, List.map_singleton, List.nodup_append]
    refine ⟨h.nodup, List.nodup_singleton _, ?_⟩
    intro p hp q hq heq
    obtain rfl := List.mem_singleton.mp hq
    exact hpending (heq ▸ hp)
  · intro p hheld hlogged
    rcases hheld.of_update with hp | ⟨t', ht, hp⟩
    · contradiction
    · rcases (hmem p).mp hlogged with hold | rfl
      · exact h.pending p ⟨t', hp⟩ hold
      · exact ht (hring.reader t' t _ hp hholds)
  · intro p hp
    rcases h.complete p hp with hold | hheld
    · exact Or.inl ((hmem p).mpr (Or.inl hold))
    · by_cases hpos : p = pos
      · exact Or.inl ((hmem p).mpr (Or.inr hpos))
      · refine Or.inr (hheld.update ?_)
        rw [hholds]
        intro heq
        exact absurd (Option.some.inj heq).symm hpos

end Log

/-! ## Every step -/

/-- What holds between any two steps. -/
structure Inv (n : Nat) (s : State α) : Prop where
  ring : Ring n s
  log : Log s

namespace Inv

variable {n : Nat} {s s' : State α}

/-- A step that only moves a thread on. -/
theorem move (h : Inv n s) {t : Nat} {pc : Pc α} (hpc : PcOk n s pc)
    (hwriting : pc.writing = (s.threads t).writing)
    (hreading : pc.reading = (s.threads t).reading) : Inv n (s.goto t pc) :=
  ⟨h.ring.move hpc hwriting hreading,
    h.log.frame rfl rfl (fun _ _ => id) (held_update_iff hreading)⟩

theorem afterEnqueueSeq (h : Inv n s) {t pos : Nat} {data : α}
    (hpc : s.threads t = .enqueueSeq data pos) :
    Inv n (s.goto t (afterEnqueueSeq .unbounded (s.queue.cell pos).sequence data pos)) := by
  have hknown := h.ring.pc t
  rw [hpc] at hknown
  unfold MpmcQueue.afterEnqueueSeq
  dsimp only
  split
  · rename_i hdif
    rw [unbounded_dif] at hdif
    have hseq : (s.queue.cell pos).sequence = pos := by omega
    refine h.move ?_ (by rw [hpc]; rfl) (by rw [hpc]; rfl)
    exact (Nat.lt_or_eq_of_le hknown).imp_right fun heq => ⟨heq, hseq⟩
  · split
    · exact h.move trivial (by rw [hpc]; rfl) (by rw [hpc]; rfl)
    · exact h.move trivial (by rw [hpc]; rfl) (by rw [hpc]; rfl)

theorem afterDequeueSeq (h : Inv n s) {t pos : Nat} (hpc : s.threads t = .dequeueSeq pos) :
    Inv n (s.goto t (afterDequeueSeq .unbounded (s.queue.cell pos).sequence pos)) := by
  have hknown := h.ring.pc t
  rw [hpc] at hknown
  unfold MpmcQueue.afterDequeueSeq
  dsimp only
  split
  · rename_i hdif
    rw [unbounded_dif, unbounded_add] at hdif
    have hseq : (s.queue.cell pos).sequence = pos + 1 := by omega
    refine h.move ?_ (by rw [hpc]; rfl) (by rw [hpc]; rfl)
    exact (Nat.lt_or_eq_of_le hknown).imp_right fun heq => ⟨heq, hseq⟩
  · split
    · exact h.move trivial (by rw [hpc]; rfl) (by rw [hpc]; rfl)
    · exact h.move trivial (by rw [hpc]; rfl) (by rw [hpc]; rfl)

/-- A step of a thread. -/
theorem threadStep (h : Inv n s) {t : Nat} {spurious : Bool}
    (hstep : threadStep .unbounded s t spurious = some s') : Inv n s' := by
  have hknown := h.ring.pc t
  cases hpc : s.threads t with
  | idle => simp [MpmcQueue.threadStep, hpc] at hstep
  | enqueueLoad data =>
      simp only [MpmcQueue.threadStep, hpc, Option.some.injEq] at hstep
      subst hstep
      exact h.move le_rfl (by rw [hpc]; rfl) (by rw [hpc]; rfl)
  | enqueueSeq data pos =>
      simp only [MpmcQueue.threadStep, hpc, Option.some.injEq] at hstep
      subst hstep
      exact h.afterEnqueueSeq hpc
  | enqueueCas data pos =>
      simp only [MpmcQueue.threadStep, hpc] at hstep
      split at hstep
      · rename_i hcas
        obtain rfl := hcas.1
        simp only [Option.some.injEq] at hstep
        subst hstep
        refine ⟨h.ring.takeEnqueue hpc, h.log.frame rfl rfl ?_ (held_update_iff ?_)⟩
        · intro p x hx
          show (s.enqueued ++ [data])[p]? = some x
          rw [List.getElem?_append_left (List.getElem?_eq_some_iff.mp hx).1, hx]
        · show _ = (s.threads t).reading
          rw [hpc]
          rfl
      · simp only [Option.some.injEq] at hstep
        subst hstep
        exact h.move le_rfl (by rw [hpc]; rfl) (by rw [hpc]; rfl)
  | enqueueWrite data pos =>
      simp only [MpmcQueue.threadStep, hpc, Option.some.injEq] at hstep
      subst hstep
      refine ⟨h.ring.writeData hpc, h.log.frame rfl rfl (fun _ _ => id) (held_update_iff ?_)⟩
      show _ = (s.threads t).reading
      rw [hpc]
      rfl
  | enqueuePublish pos =>
      simp only [MpmcQueue.threadStep, hpc, Option.some.injEq] at hstep
      subst hstep
      refine ⟨h.ring.publish hpc, h.log.frame rfl rfl (fun _ _ => id) (held_update_iff ?_)⟩
      show _ = (s.threads t).reading
      rw [hpc]
      rfl
  | dequeueLoad =>
      simp only [MpmcQueue.threadStep, hpc, Option.some.injEq] at hstep
      subst hstep
      exact h.move le_rfl (by rw [hpc]; rfl) (by rw [hpc]; rfl)
  | dequeueSeq pos =>
      simp only [MpmcQueue.threadStep, hpc, Option.some.injEq] at hstep
      subst hstep
      exact h.afterDequeueSeq hpc
  | dequeueCas pos =>
      simp only [MpmcQueue.threadStep, hpc] at hstep
      split at hstep
      · rename_i hcas
        obtain rfl := hcas.1
        simp only [Option.some.injEq] at hstep
        subst hstep
        exact ⟨h.ring.takeDequeue hpc, h.log.take (by rw [hpc]; rfl)⟩
      · simp only [Option.some.injEq] at hstep
        subst hstep
        exact h.move le_rfl (by rw [hpc]; rfl) (by rw [hpc]; rfl)
  | dequeueRead pos =>
      simp only [MpmcQueue.threadStep, hpc, Option.some.injEq] at hstep
      subst hstep
      rw [hpc] at hknown
      exact h.move hknown (by rw [hpc]; rfl) (by rw [hpc]; rfl)
  | dequeueRelease pos data =>
      simp only [MpmcQueue.threadStep, hpc, Option.some.injEq] at hstep
      subst hstep
      have hround : Arithmetic.unbounded.add (Arithmetic.unbounded.add pos s.queue.bufferMask)
          1 = pos + n := by
        rw [unbounded_add, unbounded_add, ← h.ring.mask_succ, Nat.add_assoc]
      rw [hround]
      exact ⟨(h.ring.release hpc).logDequeue pos data, h.log.release h.ring hpc⟩

/-- A call by an idle thread. -/
theorem call (h : Inv n s) {t : Nat} (pc : Pc α) (hpc : PcOk n s pc)
    (hwriting : pc.writing = none) (hreading : pc.reading = none)
    (hstep : call s t pc = some s') : Inv n s' := by
  unfold MpmcQueue.call at hstep
  split at hstep
  · rename_i hidle
    cases hstep
    exact h.move hpc (by rw [hidle, hwriting]; rfl) (by rw [hidle, hreading]; rfl)
  · contradiction

end Inv

/-- Every step keeps the invariant. -/
theorem step_inv {n : Nat} {s s' : State α} {a : Action α} (h : Inv n s)
    (hstep : step .unbounded s a = some s') : Inv n s' := by
  cases a with
  | enqueue t data => exact h.call (.enqueueLoad data) trivial rfl rfl hstep
  | dequeue t => exact h.call .dequeueLoad trivial rfl rfl hstep
  | thread t spurious => exact h.threadStep hstep

end MpmcQueue
end TinyNet
