import Mathlib.Tactic

/-!
# Partial step functions and their runs

A system is given by a partial step function on states and actions; an action
without a result is not enabled.  A run is a list of actions.  This file states
what holds at every state of a run and at every step of a run, and the induction
rules that derive the one from the other.

Main results:

- Theorem {lit}`run_invariant`: what every step preserves holds after every run.
- Theorem {lit}`always_of_invariant`: what follows from such an invariant holds at
  every state of a run.
- Theorem {lit}`exists_run`: if every step succeeds and preserves the invariant, so
  does every run.
- Theorem {lit}`exists_run_replicate`: an action that brings a measure down is taken until
  the system is done.
- Theorem {lit}`always_of_eachStep`: if only some steps preserve a property, the
  property holds along the runs that take only those steps.
- Theorem {lit}`eachStep_of_always`: conversely, a property observed along a
  whole run constrains each step of it.
- Theorem {lit}`run_simulation`: if every step is matched by the events that it makes
  visible, every run is matched by its trace.
-/

namespace Library
namespace StepSystem

universe u v w x

variable {S : Type u} {A : Type v} (step : S → A → Option S)

/-- Where a call that takes several steps has got to: its next program point, or
its result. -/
inductive Progress (P : Type u) (R : Type v) where
  | running (pc : P)
  | returned (r : R)
deriving DecidableEq

/-- Take the actions of a list one after another. -/
def run : S → List A → Option S
  | s, [] => some s
  | s, a :: as => (step s a).bind fun s' => run s' as

/-- The property holds at every state that the run passes, its start included. -/
def Always (P : S → Prop) (s : S) (as : List A) : Prop :=
  ∀ pre t, pre <+: as → run step s pre = some t → P t

/-- The condition holds at every step that the run takes. -/
def EachStep (ok : S → A → Prop) (s : S) (as : List A) : Prop :=
  ∀ pre a t t', pre ++ [a] <+: as → run step s pre = some t →
    step t a = some t' → ok t a

@[simp]
theorem run_nil (s : S) : run step s [] = some s :=
  rfl

theorem run_cons (s : S) (a : A) (as : List A) :
    run step s (a :: as) = (step s a).bind fun s' => run step s' as :=
  rfl

/-- A run over a concatenation is a run after a run. -/
theorem run_append (s : S) (as bs : List A) :
    run step s (as ++ bs) = (run step s as).bind fun t => run step t bs := by
  induction as generalizing s with
  | nil => rfl
  | cons a as ih =>
      simp only [List.cons_append, run_cons]
      cases step s a with
      | none => rfl
      | some s' => exact ih s'

/-- A run that ends with one more action. -/
theorem run_concat (s : S) (as : List A) (a : A) :
    run step s (as ++ [a]) = (run step s as).bind fun t => step t a := by
  rw [run_append]
  congr 1
  funext t
  rw [run_cons]
  cases step t a <;> rfl

variable {step}

/-- An invariant of every step holds after every run. -/
theorem run_invariant {Inv : S → Prop}
    (hstep : ∀ s a s', Inv s → step s a = some s' → Inv s') {s t : S} {as : List A}
    (hs : Inv s) (hrun : run step s as = some t) : Inv t := by
  induction as generalizing s with
  | nil =>
      obtain rfl := Option.some.inj hrun
      exact hs
  | cons a as ih =>
      rw [run_cons, Option.bind_eq_some_iff] at hrun
      rcases hrun with ⟨s', hs', hrest⟩
      exact ih (hstep s a s' hs hs') hrest

/-- A property that follows from an invariant of every step holds at every state of
every run. -/
theorem always_of_invariant {Inv P : S → Prop}
    (hstep : ∀ s a s', Inv s → step s a = some s' → Inv s') (hP : ∀ s, Inv s → P s)
    {s : S} (hs : Inv s) (as : List A) : Always step P s as :=
  fun _ _ _ hrun => hP _ (run_invariant hstep hs hrun)

/-- If every step from an invariant state succeeds and keeps the invariant, every run
succeeds and keeps it. -/
theorem exists_run {Inv : S → Prop}
    (hstep : ∀ s a, Inv s → ∃ s', step s a = some s' ∧ Inv s') {s : S} (hs : Inv s)
    (as : List A) : ∃ t, run step s as = some t ∧ Inv t := by
  induction as generalizing s with
  | nil => exact ⟨s, rfl, hs⟩
  | cons a as ih =>
      rcases hstep s a hs with ⟨s', hs', hinv⟩
      rcases ih hinv with ⟨t, ht, hinv'⟩
      refine ⟨t, ?_, hinv'⟩
      rw [run_cons, hs', Option.bind_some, ht]

/-- If one action succeeds, keeps the invariant and brings a measure down until the system is
done, then taking it again and again gets there. -/
theorem exists_run_replicate {Inv Done : S → Prop} {a : A} (measure : S → Nat)
    (hstep : ∀ s, Inv s → Done s ∨
      ∃ s', step s a = some s' ∧ Inv s' ∧ measure s' < measure s) {s : S} (hs : Inv s) :
    ∃ n t, run step s (List.replicate n a) = some t ∧ Inv t ∧ Done t := by
  induction hm : measure s using Nat.strong_induction_on generalizing s with
  | _ m ih =>
      subst hm
      rcases hstep s hs with hdone | ⟨s', hs', hinv, hlt⟩
      · exact ⟨0, s, rfl, hs, hdone⟩
      · rcases ih _ hlt hinv rfl with ⟨n, t, ht, hend⟩
        refine ⟨n + 1, t, ?_, hend⟩
        rw [List.replicate_succ, run_cons, hs', Option.bind_some, ht]

/-- The steps of a prefix are steps of the whole run. -/
theorem EachStep.mono {ok : S → A → Prop} {s : S} {as bs : List A}
    (h : EachStep step ok s bs) (hbs : as <+: bs) : EachStep step ok s as :=
  fun pre a t t' hpre => h pre a t t' (hpre.trans hbs)

/-- A run that takes no step meets every condition. -/
theorem EachStep.nil (ok : S → A → Prop) (s : S) : EachStep step ok s [] := by
  intro pre a t t' hpre
  simp at hpre

/-- A run meets a condition if its first step and the rest do. -/
theorem EachStep.of_cons {ok : S → A → Prop} {s s' : S} {a : A} {as : List A}
    (hs' : step s a = some s') (hfirst : ok s a) (hrest : EachStep step ok s' as) :
    EachStep step ok s (a :: as) := by
  intro pre b t t' hpre hrun hstep
  cases pre with
  | nil =>
      cases hrun
      have hb : b = a := by simpa using hpre
      rwa [hb]
  | cons c pre =>
      rw [List.cons_append, List.cons_prefix_cons] at hpre
      rcases hpre with ⟨rfl, hpre⟩
      rw [run_cons, hs', Option.bind_some] at hrun
      exact hrest pre b t t' hpre hrun hstep

/-- A condition that all actions of a run meet holds at every step. -/
theorem EachStep.of_forall_mem {ok : A → Prop} {as : List A} (h : ∀ a, a ∈ as → ok a)
    (s : S) : EachStep step (fun _ a => ok a) s as := by
  intro pre a t t' hpre _ _
  exact h a (hpre.subset (by simp))

/-- Check a decidable condition at every step of a run. -/
def checkSteps (step : S → A → Option S) (ok : S → A → Bool) : S → List A → Bool
  | _, [] => true
  | s, a :: as =>
      match step s a with
      | none => true
      | some s' => ok s a && checkSteps step ok s' as

/-- A condition that was checked at every step holds at every step. -/
theorem eachStep_of_checkSteps {ok : S → A → Prop} {check : S → A → Bool}
    (hcheck : ∀ s a, check s a = true → ok s a) {s : S} {as : List A}
    (h : checkSteps step check s as = true) : EachStep step ok s as := by
  induction as generalizing s with
  | nil => exact EachStep.nil ok s
  | cons a as ih =>
      rw [checkSteps] at h
      cases hs : step s a with
      | none =>
          intro pre b t t' hpre hrun hstep
          cases pre with
          | nil =>
              cases hrun
              have hb : b = a := by simpa using hpre
              rw [hb, hs] at hstep
              contradiction
          | cons c pre =>
              rw [List.cons_append, List.cons_prefix_cons] at hpre
              rcases hpre with ⟨rfl, -⟩
              rw [run_cons, hs] at hrun
              contradiction
      | some s' =>
          rw [hs, Bool.and_eq_true] at h
          exact EachStep.of_cons hs (hcheck s a h.1) (ih h.2)

/-- Check a decidable property at every state of a run. -/
def checkAlways (step : S → A → Option S) (P : S → Bool) : S → List A → Bool
  | s, [] => P s
  | s, a :: as =>
      P s &&
        match step s a with
        | none => true
        | some s' => checkAlways step P s' as

/-- A property that was checked at every state holds at every state. -/
theorem always_of_checkAlways {P : S → Prop} {check : S → Bool}
    (hcheck : ∀ s, check s = true → P s) {s : S} {as : List A}
    (h : checkAlways step check s as = true) : Always step P s as := by
  induction as generalizing s with
  | nil =>
      intro pre t hpre hrun
      obtain rfl := List.prefix_nil.mp hpre
      obtain rfl := Option.some.inj hrun
      exact hcheck s h
  | cons a as ih =>
      rw [checkAlways, Bool.and_eq_true] at h
      intro pre t hpre hrun
      cases pre with
      | nil =>
          obtain rfl := Option.some.inj hrun
          exact hcheck s h.1
      | cons b pre =>
          rw [List.cons_prefix_cons] at hpre
          rcases hpre with ⟨rfl, hpre⟩
          rw [run_cons, Option.bind_eq_some_iff] at hrun
          rcases hrun with ⟨s', hs', hrest⟩
          have hlater := h.2
          rw [hs'] at hlater
          exact ih hlater pre t hpre hrest

/-- The first step of a run, and the steps of the rest. -/
theorem EachStep.cons {ok : S → A → Prop} {s s' : S} {a : A} {as : List A}
    (h : EachStep step ok s (a :: as)) (hs' : step s a = some s') :
    ok s a ∧ EachStep step ok s' as := by
  constructor
  · exact h [] a s s' (by simp) rfl hs'
  · intro pre b t t' hpre hrun hstep
    apply h (a :: pre) b t t' _ _ hstep
    · simpa using hpre
    · rw [run_cons, hs']
      exact hrun

/-- An invariant of the steps that meet a condition holds after every run whose
steps all meet it. -/
theorem run_invariant_of_eachStep {ok : S → A → Prop} {Inv : S → Prop}
    (hstep : ∀ s a s', Inv s → ok s a → step s a = some s' → Inv s') {s t : S}
    {as : List A} (hs : Inv s) (hok : EachStep step ok s as)
    (hrun : run step s as = some t) : Inv t := by
  induction as generalizing s with
  | nil =>
      obtain rfl := Option.some.inj hrun
      exact hs
  | cons a as ih =>
      rw [run_cons, Option.bind_eq_some_iff] at hrun
      rcases hrun with ⟨s', hs', hrest⟩
      rcases hok.cons hs' with ⟨hfirst, hlater⟩
      exact ih (hstep s a s' hs hfirst hs') hlater hrest

/-- A property that follows from an invariant of the steps meeting a condition
holds at every state of every run whose steps all meet it. -/
theorem always_of_eachStep {ok : S → A → Prop} {Inv P : S → Prop}
    (hstep : ∀ s a s', Inv s → ok s a → step s a = some s' → Inv s')
    (hP : ∀ s, Inv s → P s) {s : S} {as : List A} (hs : Inv s)
    (hok : EachStep step ok s as) : Always step P s as :=
  fun _ _ hpre hrun =>
    hP _ (run_invariant_of_eachStep hstep hs (hok.mono hpre) hrun)

/-- An invariant of the steps between states with a property holds after every run that
has the property everywhere. -/
theorem run_invariant_of_always {Inv P : S → Prop}
    (hstep : ∀ s a s', Inv s → P s → P s' → step s a = some s' → Inv s') {s t : S}
    {as : List A} (hs : Inv s) (hP : Always step P s as) (hrun : run step s as = some t) :
    Inv t := by
  have hok : EachStep step (fun s a => P s ∧ ∀ s', step s a = some s' → P s') s as := by
    intro pre a u u' hpre hu _
    refine ⟨hP pre u ((List.prefix_append _ _).trans hpre) hu, fun s' hs' => ?_⟩
    apply hP (pre ++ [a]) s' hpre
    rw [run_concat, hu]
    exact hs'
  refine run_invariant_of_eachStep ?_ hs hok hrun
  intro s a s' hs hboth hs'
  exact hstep s a s' hs hboth.1 (hboth.2 s' hs') hs'

/-- If a property after a step implies a condition on that step, a run that has
the property everywhere meets the condition at every step. -/
theorem eachStep_of_always {ok : S → A → Prop} {Inv P : S → Prop}
    (hinv : ∀ s a s', Inv s → step s a = some s' → Inv s')
    (hok : ∀ s a s', Inv s → step s a = some s' → P s' → ok s a) {s : S}
    {as : List A} (hs : Inv s) (hP : Always step P s as) : EachStep step ok s as := by
  intro pre a t t' hpre hrun hstep
  apply hok t a t' (run_invariant hinv hs hrun) hstep
  apply hP (pre ++ [a]) t' hpre
  rw [run_concat, hrun]
  exact hstep

/-! ## Simulation -/

variable {T : Type w} {E : Type x} {specStep : T → E → Option T} {event : S → A → Option E}

/-- The events that the steps of a run make visible. -/
def trace (step : S → A → Option S) (event : S → A → Option E) : S → List A → List E
  | _, [] => []
  | s, a :: as =>
      match step s a with
      | none => []
      | some s' => (event s a).toList ++ trace step event s' as

/-- If the specification follows every step, by the event of the step or by nothing, it
follows every run by its trace. -/
theorem run_simulation {R : S → T → Prop}
    (hstep : ∀ s c a s', R s c → step s a = some s' →
      ∃ c', run specStep c (event s a).toList = some c' ∧ R s' c')
    {s t : S} {c : T} {as : List A} (hs : R s c) (hrun : run step s as = some t) :
    ∃ c', run specStep c (trace step event s as) = some c' ∧ R t c' := by
  induction as generalizing s c with
  | nil =>
      obtain rfl := Option.some.inj hrun
      exact ⟨c, rfl, hs⟩
  | cons a as ih =>
      rw [run_cons, Option.bind_eq_some_iff] at hrun
      rcases hrun with ⟨s', hs', hrest⟩
      rcases hstep s c a s' hs hs' with ⟨c₁, hc₁, hs₁⟩
      rcases ih hs₁ hrest with ⟨c', hc', ht⟩
      refine ⟨c', ?_, ht⟩
      rw [trace, hs', run_append, hc₁]
      exact hc'

end StepSystem
end Library
