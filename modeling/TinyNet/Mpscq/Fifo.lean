import TinyNet.Mpscq.Invariant

/-!
# What the intrusive queue promises its callers

Main results:

- Theorem {lit}`pop_fifo`: the nodes that have been pushed and not popped are linked from
  {lit}`tail` to {lit}`head`, and nodes are popped in the order of the exchanges.
- Theorem {lit}`pop_hands_over`: a popped node is free, and nobody touches a free node.
- Theorem {lit}`pop_null_of_quiet`: {lit}`mpscq_pop` returns null for a queue with nodes in it
  only if a push was between its exchange and its link during the call.
-/

namespace TinyNet
namespace Mpscq

open Library
open Library.Holders
open Library.LinkedList (Chain)
open Library.StepSystem

variable {k : Nat} {next : Nat → Option Nat}

/-! ## The order of the nodes -/

/-- Along every run there is a list of nodes from {lit}`tail` to {lit}`head`, none of them
twice: each points to the one behind it, or a call of {lit}`mpscq_push` is about to make it
do so; if none is, a walk along {lit}`next` from {lit}`tail` meets exactly these.  Without
{lit}`stub` they are the nodes that were pushed and have not been popped, in the order of
the exchanges; and the nodes popped come before them. -/
theorem pop_fifo {acts : List (Action k)} {s : State k}
    (hrun : run step (create next) acts = some s) :
    (∃ nodes : List Nat, nodes.head? = some s.tail ∧ nodes.getLast? = some s.head ∧
      DeferredLinks s.next s.Pending nodes ∧
      ((∀ a b, ¬s.Pending a b) → Chain s.next (some s.tail) nodes) ∧
      nodes.filter (· ≠ stub) = s.queued) ∧
    s.pushed = s.popped ++ s.queued ∧ s.queued.Nodup := by
  rcases run_inv hrun with ⟨nodes, h⟩
  have hwalk : (∀ a b, ¬s.Pending a b) → Chain s.next (some s.tail) nodes := by
    intro hquiet
    rw [← h.front]
    exact h.links.chain hquiet
  refine ⟨⟨nodes, h.front, h.last, h.links, hwalk, h.queued_eq.symm⟩, ?_⟩
  rw [h.queued_eq]
  exact ⟨h.log, h.links.nodup.filter _⟩

/-- Two producers push, the second before the first has made its link; then the consumer
goes past {lit}`stub` and takes the first node. -/
def twoPushes : List (Action 2) :=
  [.push 0 5, .pushStep (some 0), .pushStep (some 0), .push 1 6, .pushStep (some 1),
    .pushStep (some 1), .pushStep (some 1), .pushStep (some 0), .pop, .popStep]

/-- After that a third node is pushed, as far as the exchange: it is behind {lit}`tail`, which
does not point to it yet. -/
theorem pop_fifo_twoPushes :
    ∃ s, run step (create fun _ => none) (twoPushes ++
        [.popStep, .push 0 7, .pushStep (some 0), .pushStep (some 0)]) = some s ∧
      s.popped = [5] ∧ s.tail = 6 ∧ s.head = 7 ∧ s.next 6 = none ∧
      (∃ nodes : List Nat, nodes.head? = some 6 ∧ nodes.getLast? = some 7 ∧
        nodes.filter (· ≠ stub) = [6, 7]) ∧
      s.pushed = [5] ++ [6, 7] := by
  have hrun : (run step (create fun _ => none) (twoPushes ++
      [.popStep, .push 0 7, .pushStep (some 0), .pushStep (some 0)])).map
      (fun s => (s.popped, s.queued, s.tail, s.head, s.next 6)) =
      some ([5], [6, 7], 6, 7, none) := by
    decide
  rcases Option.map_eq_some_iff.mp hrun with ⟨s, hs, heq⟩
  simp only [Prod.mk.injEq] at heq
  rcases heq with ⟨hpopped, hqueued, htail, hhead, hnext⟩
  rcases pop_fifo hs with ⟨⟨nodes, hfirst, hlast, -, -, hnodes⟩, hlog, -⟩
  rw [htail] at hfirst
  rw [hhead] at hlast
  rw [hqueued] at hnodes
  rw [hpopped, hqueued] at hlog
  exact ⟨s, hs, hpopped, htail, hhead, hnext, ⟨nodes, hfirst, hlast, hnodes⟩, hlog⟩

/-! ## Who may touch a node -/

/-- The node whose {lit}`next` a call of {lit}`mpscq_push` is about to write. -/
def Push.writes : Push → Option Nat
  | .clear n => some n
  | .link prev _ => some prev
  | _ => none

namespace Shape

variable {s s' : State k} {nodes : List Nat}

/-- A node of the list is {lit}`stub` or in the queue. -/
theorem not_free (h : Shape s nodes) {n : Nat} (hn : n ∈ nodes) : ¬ s.Free n := by
  rintro ⟨hstub, hqueued, -⟩
  apply hqueued
  rw [h.queued_eq, List.mem_filter]
  exact ⟨hn, by simpa using hstub⟩

/-- A free node is not written. -/
theorem writes_ne (h : Shape s nodes) {n : Nat} (hfree : s.Free n) (c : Caller k) :
    (s.pushes c).writes ≠ some n := by
  intro hwrites
  cases hpc : s.pushes c with
  | idle => rw [hpc] at hwrites; contradiction
  | clear m =>
      rw [hpc] at hwrites
      exact hfree.2.2 c (by rw [hpc]; exact hwrites)
  | exchange m => rw [hpc] at hwrites; contradiction
  | link prev m =>
      rw [hpc] at hwrites
      obtain rfl : prev = n := Option.some.inj hwrites
      have hin := (h.links.pending prev m ⟨c, by rw [hpc]; rfl⟩).1
      exact h.not_free (hin.subset List.mem_cons_self) hfree

/-- The node that {lit}`mpscq_pop` returns is free from then on. -/
theorem free_returnTail {n : Nat} (h : Shape s nodes) (hnext : s.next s.tail = some n)
    (hstub : s.tail ≠ stub) (hinner : s.pushes none = .idle) :
    (s.returnTail n).Free s.tail := by
  rcases h.eq_of_next hnext with ⟨rest, rfl⟩
  have hnodup := h.links.nodup
  have hnot : s.tail ∉ n :: rest := (List.nodup_cons.mp hnodup).1
  have hafter : Shape (s.returnTail n) (n :: rest) :=
    h.moveTail hnext hinner (by simp [hstub])
  refine ⟨hstub, ?_, ?_⟩
  · rw [hafter.queued_eq]
    exact fun hmem => hnot (List.mem_of_mem_filter hmem)
  · intro c hc
    have hpush := h.push c
    have hc' : (s.pushes c).node = some s.tail := hc
    cases hpc : s.pushes c with
    | idle => rw [hpc] at hc'; contradiction
    | clear m =>
        rw [hpc] at hc' hpush
        obtain rfl : m = s.tail := Option.some.inj hc'
        exact hpush.2 List.mem_cons_self
    | exchange m =>
        rw [hpc] at hc' hpush
        obtain rfl : m = s.tail := Option.some.inj hc'
        exact hpush.2.1 List.mem_cons_self
    | link prev m =>
        rw [hpc] at hc'
        obtain rfl : m = s.tail := Option.some.inj hc'
        -- its own link is pending in the rest of the list, where the node is not
        have hin := (hafter.links.pending prev s.tail ⟨c, by
          show (s.pushes c).linking = _
          rw [hpc]
          rfl⟩).1
        exact hnot (hin.subset (by simp))

/-- A walk that stops at {lit}`tail` with no link pending is at the last node. -/
theorem eq_singleton_of_next (h : Shape s nodes) (hnext : s.next s.tail = none)
    (hpending : ∀ b, ¬ s.Pending s.tail b) : nodes = [s.tail] := by
  cases hnodes : nodes with
  | nil =>
      have hfront := h.front
      rw [hnodes] at hfront
      contradiction
  | cons x rest =>
      have hfront := h.front
      have hlinks := h.links
      rw [hnodes] at hfront hlinks
      obtain rfl : x = s.tail := Option.some.inj hfront
      rcases hlinks.front_none hnext with rfl | ⟨b, hb⟩
      · rfl
      · exact absurd hb (hpending b)

end Shape

/-- Along every run, a node that {lit}`mpscq_pop` returns may be pushed again at once, and a
node that may be pushed is neither {lit}`head` nor {lit}`tail` nor about to be written by
anybody: it is its owner's alone. -/
theorem pop_hands_over {acts : List (Action k)} {s : State k}
    (hrun : run step (create next) acts = some s) :
    (∀ s' n, step s .popStep = some s' → s'.popped = s.popped ++ [n] → s'.Free n) ∧
    ∀ n, s.Free n → s.tail ≠ n ∧ s.head ≠ n ∧ ∀ c, (s.pushes c).writes ≠ some n := by
  rcases run_inv hrun with ⟨nodes, h⟩
  constructor
  · intro s' n hstep hpopped
    have hsame : s'.popped ≠ s.popped := by simp [hpopped]
    cases popStep_effect hstep with
    | null => exact absurd rfl hsame
    | overtaken => exact absurd rfl hsame
    | skip => exact absurd rfl hsame
    | last => exact absurd rfl hsame
    | push => exact absurd rfl hsame
    | node hpc hnext =>
        obtain rfl : s.tail = n := by simpa [State.returnTail] using hpopped
        rcases h.returns hpc with ⟨hstub, hinner⟩
        exact h.free_returnTail hnext hstub hinner
  · intro n hfree
    refine ⟨?_, ?_, h.writes_ne hfree⟩
    · rintro rfl
      exact h.not_free (List.mem_of_mem_head? h.front) hfree
    · rintro rfl
      exact h.not_free (List.mem_of_getLast? h.last) hfree

theorem pop_hands_over_twoPushes :
    ∃ s s', run step (create fun _ => none) twoPushes = some s ∧
      step s .popStep = some s' ∧ s'.popped = [5] ∧ s'.Free 5 := by
  have hrun : (run step (create fun _ => none) twoPushes).map (fun s =>
      (s.popped, (step s .popStep).map State.popped)) = some ([], some [5]) := by
    decide
  rcases Option.map_eq_some_iff.mp hrun with ⟨s, hs, heq⟩
  simp only [Prod.mk.injEq] at heq
  rcases Option.map_eq_some_iff.mp heq.2 with ⟨s', hs', hpopped⟩
  refine ⟨s, s', hs, hs', hpopped, (pop_hands_over hs).1 s' 5 hs' ?_⟩
  rw [hpopped, heq.1]
  rfl

/-! ## When the queue looks empty -/

/-- No producer is between its exchange and its link. -/
def State.Quiet (s : State k) : Prop :=
  ∀ t : Fin k, (s.pushes (some t)).linking = none

instance (s : State k) : Decidable s.Quiet :=
  inferInstanceAs (Decidable (∀ _, _))

/-- In a quiet state only the consumer's own link can be pending. -/
theorem State.Quiet.not_pending {s : State k} (hquiet : s.Quiet)
    (hinner : s.pushes none = .idle) (a b : Nat) : ¬ s.Pending a b := by
  rintro ⟨c, hc⟩
  cases c with
  | none =>
      rw [hinner] at hc
      contradiction
  | some t =>
      rw [hquiet t] at hc
      contradiction

/-- The consumer that is about to compare {lit}`tail` with {lit}`head` will find them
equal. -/
def State.Settled (s : State k) : Prop :=
  s.pop = .loadHead → s.tail = s.head

/-- A push of a producer leaves the comparison alone unless it exchanges {lit}`head`, which
is not quiet. -/
theorem pushStep_settled {s s' : State k} {c : Caller k} (hinv : Inv s) (h : s.Settled)
    (hquiet : s'.Quiet) (hstep : pushStep s c = some s') : s'.Settled := by
  rcases hinv with ⟨nodes, hshape⟩
  unfold pushStep at hstep
  cases hpc : s.pushes c with
  | idle => simp [hpc] at hstep
  | clear n =>
      simp only [hpc, Option.some.injEq] at hstep
      exact hstep ▸ h
  | exchange n =>
      simp only [hpc, Option.some.injEq] at hstep
      intro hpop
      have hpop' : s.pop = .loadHead := by
        rw [← hstep] at hpop
        exact hpop
      exfalso
      cases c with
      | none =>
          have hinner := hshape.pop
          rw [hpop', hpc] at hinner
          exact absurd hinner.1 nofun
      | some t =>
          have hlink := hquiet t
          rw [← hstep] at hlink
          simp [Push.linking] at hlink
  | link prev n =>
      simp only [hpc, Option.some.injEq] at hstep
      exact hstep ▸ h

/-- A step between quiet states keeps the comparison settled. -/
theorem step_settled {s s' : State k} {a : Action k} (hinv : Inv s) (h : s.Settled)
    (hquiet : s.Quiet) (hquiet' : s'.Quiet) (hstep : step s a = some s') : s'.Settled := by
  cases a with
  | push t n =>
      by_cases hcall : s.pushes (some t) = .idle ∧ s.Free n
      · simp only [step, if_pos hcall, Option.some.injEq] at hstep
        exact hstep ▸ h
      · simp [step, if_neg hcall] at hstep
  | pop =>
      cases hpc : s.pop <;> simp only [step, hpc, reduceCtorEq] at hstep
      cases hstep
      intro hlast
      cases hlast
  | pushStep c => exact pushStep_settled hinv h hquiet' hstep
  | popStep =>
      rcases hinv with ⟨nodes, hshape⟩
      have hpop := hshape.pop
      cases popStep_effect hstep with
      | null => intro hlast; cases hlast
      | overtaken => intro hlast; cases hlast
      | skip => intro hlast; cases hlast
      | push => intro hlast; cases hlast
      | node => intro hlast; cases hlast
      | last hpc hnext =>
          intro _
          have hinner : s.pushes none = .idle := by
            rcases hpc with ⟨hpc, -⟩ | hpc
            · rw [hpc] at hpop
              exact hpop
            · rw [hpc] at hpop
              exact hpop.1
          have hnodes := hshape.eq_singleton_of_next hnext fun b =>
            hquiet.not_pending hinner _ b
          have hlast := hshape.last
          rw [hnodes] at hlast
          exact Option.some.inj hlast

/-- If from the start of a call of {lit}`mpscq_pop` on no producer is ever between its
exchange and its link, the call returns null only if every node pushed has been popped. -/
theorem pop_null_of_quiet {before acts : List (Action k)} {s₀ s s' : State k}
    (hbefore : run step (create next) before = some s₀) (hidle : s₀.pop = .idle)
    (hrun : run step s₀ acts = some s) (hquiet : Always step State.Quiet s₀ acts)
    (hstep : step s .popStep = some s') (hend : s'.pop = .idle)
    (hnull : s'.popped = s.popped) : s.pushed = s.popped := by
  have hkeep : ∀ (t : State k) (a : Action k) (t' : State k), (Inv t ∧ t.Settled) →
      t.Quiet → t'.Quiet → step t a = some t' → Inv t' ∧ t'.Settled :=
    fun t a t' ht hq hq' hstep' =>
      ⟨step_inv ht.1 hstep', step_settled ht.1 ht.2 hq hq' hstep'⟩
  have hstart : Inv s₀ ∧ s₀.Settled := by
    refine ⟨run_inv hbefore, fun hpc => ?_⟩
    rw [hidle] at hpc
    contradiction
  rcases run_invariant_of_always hkeep hstart hquiet hrun with ⟨⟨nodes, h⟩, hsettled⟩
  have hq : s.Quiet := hquiet acts s (List.prefix_refl _) hrun
  have hpop := h.pop
  cases popStep_effect hstep with
  | null hpc hnext =>
      rcases hpc with ⟨hpc, hstub⟩ | ⟨hpc, hinner⟩
      · rw [hpc] at hpop
        have hnodes := h.eq_singleton_of_next hnext fun b => hq.not_pending hpop _ b
        rw [h.log, hnodes, hstub]
        simp
      · -- {lit}`stub` is behind {lit}`tail`, so the link is made
        rw [hpc] at hpop
        have hnodes := h.eq_singleton_of_next hnext fun b => hq.not_pending hinner _ b
        have hmem := hpop.2.1 hinner
        rw [hnodes, List.mem_singleton] at hmem
        exact absurd hmem.symm hpop.1
  | overtaken hpc hne => exact absurd (hsettled hpc) hne
  | skip => contradiction
  | last => contradiction
  | push => contradiction
  | node => simp [State.returnTail] at hnull

/-- Both nodes are popped, the second after {lit}`stub` has been pushed behind it. -/
def drained : List (Action 2) :=
  twoPushes ++ [.popStep, .pop, .popStep, .popStep, .pushStep none, .pushStep none,
    .pushStep none, .popStep]

/-- Two nodes were pushed and popped; the next call returns null. -/
theorem pop_null_of_quiet_drained :
    ∃ s₀ s s' : State 2, run step (create fun _ => none) drained = some s₀ ∧
      run step s₀ [.pop] = some s ∧ step s .popStep = some s' ∧ s'.pop = .idle ∧
      s.popped = [5, 6] ∧ s.pushed = s.popped := by
  have hbefore : (run step (create fun _ => none) drained).map (fun s₀ =>
      (s₀.pop, checkAlways step (fun s => decide s.Quiet) s₀ [.pop])) =
      some (.idle, true) := by
    decide
  have hcall : (run step (create fun _ => none) drained).map (fun s₀ =>
      (run step s₀ [.pop]).map fun s =>
        (s.popped, (step s .popStep).map fun s' => (s'.pop, s'.popped))) =
      some (some ([5, 6], some (.idle, [5, 6]))) := by
    decide
  rcases Option.map_eq_some_iff.mp hbefore with ⟨s₀, hs₀, heq₀⟩
  rw [hs₀, Option.map_some, Option.some.injEq] at hcall
  simp only [Prod.mk.injEq] at heq₀
  rcases Option.map_eq_some_iff.mp hcall with ⟨s, hs, heq⟩
  simp only [Prod.mk.injEq] at heq
  rcases Option.map_eq_some_iff.mp heq.2 with ⟨s', hs', heq'⟩
  simp only [Prod.mk.injEq] at heq'
  have hquiet : Always step State.Quiet s₀ [.pop] :=
    always_of_checkAlways (fun _ h => of_decide_eq_true h) heq₀.2
  have hnull : s'.popped = s.popped := heq'.2.trans heq.1.symm
  exact ⟨s₀, s, s', hs₀, hs, hs', heq'.1, heq.1,
    pop_null_of_quiet hs₀ heq₀.1 hs hquiet hs' heq'.1 hnull⟩

/-- Without that, null may be returned although a push has returned: the second one here,
while the first is before its link. -/
example : ((run step (create fun _ => none) [.push 0 5, .pushStep (some 0), .pushStep (some 0),
    .push 1 6, .pushStep (some 1), .pushStep (some 1), .pushStep (some 1), .pop, .popStep]).map
      fun s => (s.pop, s.popped, s.queued, s.pushes (some (1 : Fin 2)))) =
    some (.idle, [], [5, 6], .idle) := by
  decide

end Mpscq
end TinyNet
