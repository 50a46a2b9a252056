import TinyNet.Epoll.WriteInterest
import TinyNet.Kqueue.SendQueue

/-!
# The two implementations of {lit}`async_send`

The epoll backend sends through {lit}`SendBuffer`, which sets its indices back to zero
when everything was sent; the kqueue backend has its own queue, which moves its bytes to
the front only when it needs the room.  This file gives both the same calls and the same
results of {lit}`::send` and says when they tell the application the same and pass the
same bytes on.

Both refuse data that fills the room behind their tail exactly, and their tails differ;
that is the only difference.

Main results:

- Theorem {lit}`step_agrees`: one step keeps the two in agreement exactly if it is not
  such a call.
- Theorem {lit}`agree_iff_same_room`: the same for whole runs.
- Theorem {lit}`drained_queue_refuses`: a call that the epoll backend accepts and the
  kqueue backend refuses.
-/

namespace TinyNet
namespace Kqueue
namespace Agreement

open Library.FixedBuffer
open Library.MachineInt
open Library.StepSystem
open Epoll.WriteInterest (RET_OK RET_ERR)

variable {N : BufferSize}

/-- The send half of a session on each backend, with what the application was told and
what was passed to {lit}`::send`. -/
structure Pair (N : BufferSize) where
  epoll : SendBuffer N
  kqueue : SendQueue N
  epollRets : List Int
  kqueueRets : List Int
  epollData : List (List UInt8)
  kqueueData : List (List UInt8)
deriving DecidableEq

/-- A call of {lit}`async_send`, or a write event with the result of {lit}`::send`. -/
inductive Action where
  | asyncSend (pData : List UInt8)
  | writeReady (ret : Int)
deriving DecidableEq

/-- Two sessions as their constructors leave them. -/
def start (garbage garbage' : Buf UInt8 N.val) : Pair N where
  epoll := .create garbage
  kqueue := .create garbage'
  epollRets := []
  kqueueRets := []
  epollData := []
  kqueueData := []

/-- The return value of {lit}`async_send`. -/
def retOf (ok : Bool) : Int :=
  if ok then RET_OK else RET_ERR

/-- {lit}`async_send` on both backends. -/
def asyncSend (p : Pair N) (pData : List UInt8) : Option (Pair N) := do
  let r ← p.epoll.push pData
  let r' ← p.kqueue.asyncSend pData
  some
    { p with
      epoll := r.1
      kqueue := r'.1
      epollRets := p.epollRets ++ [retOf r.2]
      kqueueRets := p.kqueueRets ++ [retOf r'.2] }

/-- A write event on both backends, with the same result of {lit}`::send`. -/
def writeReady (p : Pair N) (ret : Int) : Option (Pair N) := do
  let data ← p.epoll.handlerRange p.epoll.snapshot
  let r ← p.epoll.pop fun _ => ret
  let data' ← p.kqueue.sendRange
  some
    { p with
      epoll := r.1
      kqueue := p.kqueue.sent ret
      epollData := p.epollData ++ [data]
      kqueueData := p.kqueueData ++ [data'] }

/-- One step of both.  {lit}`::send` returns -1 or at most the number of bytes that it
was given. -/
def step (p : Pair N) : Action → Option (Pair N)
  | .asyncSend pData => asyncSend p pData
  | .writeReady ret =>
      if -1 ≤ ret ∧ ret ≤ p.epoll.pending.length ∧ ret ≤ p.kqueue.pending.length then
        writeReady p ret
      else none

/-- The application was told the same, and the same bytes were passed to {lit}`::send`. -/
structure Agree (p : Pair N) : Prop where
  rets : p.epollRets = p.kqueueRets
  data : p.epollData = p.kqueueData

/-- The condition on a call: if the data fits, it fills the room behind the tail exactly
on both backends or on neither. -/
def SameRoom (p : Pair N) (a : Action) : Prop :=
  ∀ pData, a = .asyncSend pData → (pData.length : Int) < N.val - p.epoll.pending.length →
    ((pData.length : Int) = N.val - p.epoll.dataTail ↔
      (pData.length : Int) = N.val - p.kqueue.sndBufTail)

/-! ## One step -/

/-- The indices of both are in range. -/
structure InRange (p : Pair N) : Prop where
  epoll : p.epoll.InRange
  kqueue : p.kqueue.InRange

/-- The two agree, and have the same bytes to send. -/
structure Matched (p : Pair N) : Prop where
  agree : Agree p
  pending : p.epoll.pending = p.kqueue.pending

theorem retOf_injective {ok ok' : Bool} : retOf ok = retOf ok' ↔ ok = ok' := by
  cases ok <;> cases ok' <;> decide

/-- What a step does to the two backends. -/
inductive StepCase (p : Pair N) : Action → Pair N → Prop where
  | asyncSend (pData : List UInt8) (b : SendBuffer N) (q : SendQueue N) (ok ok' : Bool)
      (hRange : b.InRange) (hRange' : q.InRange)
      (hok : ok = true ↔ (pData.length : Int) < N.val - p.epoll.pending.length ∧
        (pData.length : Int) ≠ N.val - p.epoll.dataTail)
      (hok' : ok' = true ↔ (pData.length : Int) < N.val - p.kqueue.pending.length ∧
        (pData.length : Int) ≠ N.val - p.kqueue.sndBufTail)
      (hpending : b.pending = if ok then p.epoll.pending ++ pData else p.epoll.pending)
      (hpending' : q.pending = if ok' then p.kqueue.pending ++ pData else p.kqueue.pending) :
      StepCase p (.asyncSend pData)
        { p with
          epoll := b
          kqueue := q
          epollRets := p.epollRets ++ [retOf ok]
          kqueueRets := p.kqueueRets ++ [retOf ok'] }
  | writeReady (ret : Int) (b : SendBuffer N) (q : SendQueue N) (hRange : b.InRange)
      (hRange' : q.InRange) (hpending : b.pending = p.epoll.pending.drop ret.toNat)
      (hpending' : q.pending = p.kqueue.pending.drop ret.toNat) :
      StepCase p (.writeReady ret)
        { p with
          epoll := b
          kqueue := q
          epollData := p.epollData ++ [p.epoll.pending]
          kqueueData := p.kqueueData ++ [p.kqueue.pending] }

theorem step_cases {p p' : Pair N} {a : Action} (h : InRange p) (hstep : step p a = some p') :
    StepCase p a p' := by
  cases a with
  | asyncSend pData =>
      rcases SendBuffer.push_accepts h.epoll pData with ⟨b, ok, hpush, hRange, hok, hpending⟩
      rcases SendQueue.asyncSend_spec h.kqueue pData with
        ⟨q, ok', hsend, hRange', hok', hpending'⟩
      have heq : step p (.asyncSend pData) = some
          { p with
            epoll := b
            kqueue := q
            epollRets := p.epollRets ++ [retOf ok]
            kqueueRets := p.kqueueRets ++ [retOf ok'] } := by
        simp [step, asyncSend, hpush, hsend]
      rw [heq] at hstep
      obtain rfl := Option.some.inj hstep
      exact .asyncSend pData b q ok ok' hRange hRange' hok hok' hpending hpending'
  | writeReady ret =>
      simp only [step, Option.ite_none_right_eq_some] at hstep
      rcases hstep with ⟨⟨-, hle, hle'⟩, hwrite⟩
      rcases @SendBuffer.pop_spec N p.epoll h.epoll (fun _ => ret) hle with
        ⟨hdata, b, ok, hpop, hRange, -, hpending⟩
      rcases SendQueue.sent_spec h.kqueue hle' with ⟨hRange', hpending'⟩
      have heq : writeReady p ret = some
          { p with
            epoll := b
            kqueue := p.kqueue.sent ret
            epollData := p.epollData ++ [p.epoll.pending]
            kqueueData := p.kqueueData ++ [p.kqueue.pending] } := by
        simp [writeReady, hdata, hpop, SendQueue.sendRange_spec h.kqueue]
      rw [heq] at hwrite
      obtain rfl := Option.some.inj hwrite
      exact .writeReady ret b _ hRange hRange' hpending hpending'

theorem step_inRange {p p' : Pair N} {a : Action} (h : InRange p)
    (hstep : step p a = some p') : InRange p' := by
  cases step_cases h hstep with
  | asyncSend pData b q ok ok' hRange hRange' _ _ _ _ => exact ⟨hRange, hRange'⟩
  | writeReady ret b q hRange hRange' _ _ => exact ⟨hRange, hRange'⟩

/-- Backends that have once disagreed do not come to agree. -/
theorem agree_of_step {p p' : Pair N} {a : Action} (h : InRange p)
    (hstep : step p a = some p') (hagree : Agree p') : Agree p := by
  cases step_cases h hstep with
  | asyncSend pData b q ok ok' _ _ _ _ _ _ =>
      exact ⟨(List.append_singleton_inj.mp hagree.rets).1, hagree.data⟩
  | writeReady ret b q _ _ _ _ =>
      exact ⟨hagree.rets, (List.append_singleton_inj.mp hagree.data).1⟩

/-- Two backends with the same bytes to send decide alike on a call exactly if it does not
fill the room of only one of them. -/
theorem sameRoom_asyncSend_iff {p : Pair N} {pData : List UInt8} :
    SameRoom p (.asyncSend pData) ↔
      (((pData.length : Int) < N.val - p.epoll.pending.length ∧
          (pData.length : Int) ≠ N.val - p.epoll.dataTail) ↔
        ((pData.length : Int) < N.val - p.epoll.pending.length ∧
          (pData.length : Int) ≠ N.val - p.kqueue.sndBufTail)) := by
  constructor
  · intro hroom
    constructor
    · rintro ⟨hfits, hne⟩
      exact ⟨hfits, fun hfull => hne ((hroom pData rfl hfits).mpr hfull)⟩
    · rintro ⟨hfits, hne⟩
      exact ⟨hfits, fun hfull => hne ((hroom pData rfl hfits).mp hfull)⟩
  · rintro hiff pData' hpData hfits
    obtain rfl := Action.asyncSend.inj hpData
    constructor
    · intro hfull
      by_contra hnot
      exact (hiff.mpr ⟨hfits, hnot⟩).2 hfull
    · intro hfull
      by_contra hnot
      exact (hiff.mp ⟨hfits, hnot⟩).2 hfull

/-- One step keeps two backends that match in agreement exactly if it is no call that
fills the room of only one of them. -/
theorem step_agrees {p p' : Pair N} {a : Action} (h : InRange p) (hmatched : Matched p)
    (hstep : step p a = some p') :
    (Agree p' ↔ SameRoom p a) ∧ (Agree p' → p'.epoll.pending = p'.kqueue.pending) := by
  have heq := hmatched.pending
  cases step_cases h hstep with
  | asyncSend pData b q ok ok' _ _ hok hok' hpending hpending' =>
      have hsame : Agree { p with
          epoll := b
          kqueue := q
          epollRets := p.epollRets ++ [retOf ok]
          kqueueRets := p.kqueueRets ++ [retOf ok'] } ↔ ok = ok' := by
        rw [← retOf_injective]
        constructor
        · exact fun hagree => (List.append_singleton_inj.mp hagree.rets).2
        · intro hret
          exact ⟨List.append_singleton_inj.mpr ⟨hmatched.agree.rets, hret⟩, hmatched.agree.data⟩
      rw [← heq] at hok' hpending'
      constructor
      · rw [hsame, Bool.eq_iff_iff, hok, hok', sameRoom_asyncSend_iff]
      · intro hagree
        obtain rfl := hsame.mp hagree
        show b.pending = q.pending
        rw [hpending, hpending']
  | writeReady ret b q _ _ hpending hpending' =>
      refine ⟨⟨fun _ pData hpData => absurd hpData (by simp), fun _ => ?_⟩, fun _ => ?_⟩
      · exact ⟨hmatched.agree.rets,
          List.append_singleton_inj.mpr ⟨hmatched.agree.data, hmatched.pending⟩⟩
      · show b.pending = q.pending
        rw [hpending, hpending', heq]

/-! ## Whole runs -/

/-- What holds in every run: as long as the backends have agreed, they match. -/
structure Inv (p : Pair N) : Prop where
  inRange : InRange p
  pending : Agree p → p.epoll.pending = p.kqueue.pending

theorem Inv.matched {p : Pair N} (h : Inv p) (hagree : Agree p) : Matched p :=
  ⟨hagree, h.pending hagree⟩

theorem start_inv (garbage garbage' : Buf UInt8 N.val) : Inv (start garbage garbage') where
  inRange := ⟨SendBuffer.create_inRange garbage, SendQueue.create_inRange garbage'⟩
  pending _ := by simp [start]

theorem step_inv {p p' : Pair N} {a : Action} (h : Inv p) (hstep : step p a = some p') :
    Inv p' where
  inRange := step_inRange h.inRange hstep
  pending hagree :=
    (step_agrees h.inRange (h.matched (agree_of_step h.inRange hstep hagree)) hstep).2 hagree

/-- The two backends accept the same calls and pass the same bytes to {lit}`::send` in
exactly those runs in which no accepted size fills the room of only one of them. -/
theorem agree_iff_same_room (garbage garbage' : Buf UInt8 N.val) (acts : List Action) :
    Always step Agree (start garbage garbage') acts ↔
      EachStep step SameRoom (start garbage garbage') acts := by
  constructor
  · intro halways
    refine eachStep_of_always (fun _ _ _ h hstep => step_inv h hstep) ?_
      (start_inv garbage garbage') halways
    intro p a p' h hstep hagree
    have hmatched := h.matched (agree_of_step h.inRange hstep hagree)
    exact (step_agrees h.inRange hmatched hstep).1.mp hagree
  · intro hroom
    have hstart : Inv (start garbage garbage') ∧ Agree (start garbage garbage') :=
      ⟨start_inv garbage garbage', rfl, rfl⟩
    have hagree : ∀ p : Pair N, Inv p ∧ Agree p → Agree p := fun _ h => h.2
    refine always_of_eachStep ?_ hagree hstart hroom
    rintro p a p' ⟨h, hagree⟩ hok hstep
    exact ⟨step_inv h hstep, (step_agrees h.inRange (h.matched hagree) hstep).1.mpr hok⟩

/-- Two bytes are sent through a buffer of four, and two more are to be sent: the epoll
backend starts again at the front, the kqueue backend finds its room filled exactly. -/
theorem drained_queue_refuses :
    ∃ p, run step (start (N := four) (.replicate 4 9) (.replicate 4 9))
        [.asyncSend [1, 2], .writeReady 2, .asyncSend [3, 4]] = some p ∧
      p.epollRets = [RET_OK, RET_OK] ∧ p.kqueueRets = [RET_OK, RET_ERR] ∧ ¬Agree p := by
  have hrun : (run step (start (N := four) (.replicate 4 9) (.replicate 4 9))
      [.asyncSend [1, 2], .writeReady 2, .asyncSend [3, 4]]).map
        (fun p => (p.epollRets, p.kqueueRets)) = some ([0, 0], [0, -1]) := by
    decide
  rcases Option.map_eq_some_iff.mp hrun with ⟨p, hp, heq⟩
  rw [Prod.mk.injEq] at heq
  refine ⟨p, hp, heq.1, heq.2, ?_⟩
  intro hagree
  have hrets := hagree.rets
  rw [heq.1, heq.2] at hrets
  contradiction

end Agreement
end Kqueue
end TinyNet
