import TinyNet.Library.DeferredLinks
import TinyNet.Library.Holders
import TinyNet.Mpscq.Model

/-!
# The nodes between tail and head

The nodes of the queue stand in the order in which {lit}`head` was exchanged for them, from
{lit}`tail` to {lit}`head`; each points to the one behind it, or a call of
{lit}`mpscq_push` is about to make it do so.  Without {lit}`stub` they are the nodes pushed
and not yet popped.

Main results:

- Theorem {lit}`step_inv`: every step keeps the nodes in order.
- Theorem {lit}`run_inv`: so does every run from a new queue.
-/

namespace TinyNet
namespace Mpscq

open Library
open Library.Holders
open Library.StepSystem

variable {k : Nat}

/-! ## The invariant -/

/-- The link that a call of {lit}`mpscq_push` is about to make. -/
def Push.linking : Push → Option (Nat × Nat)
  | .link prev n => some (prev, n)
  | _ => none

/-- A link of the queue is about to be made. -/
def State.Pending (s : State k) (a b : Nat) : Prop :=
  Held Push.linking s.pushes (a, b)

/-- What a call of {lit}`mpscq_push` knows of its node; {lit}`stub` is pushed by
{lit}`mpscq_pop` only. -/
def PushOk (next : Nat → Option Nat) (nodes : List Nat) (c : Caller k) : Push → Prop
  | .idle => True
  | .clear n => (n = stub → c = none) ∧ n ∉ nodes
  | .exchange n => (n = stub → c = none) ∧ n ∉ nodes ∧ next n = none
  | .link _ n => n = stub → c = none

/-- What {lit}`mpscq_pop` knows: when it is past {lit}`stub`, and how far its own push of
{lit}`stub` is. -/
def PopOk (tail : Nat) (inner : Push) (nodes : List Nat) : Pop → Prop
  | .idle => inner = .idle
  | .loadNext => inner = .idle
  | .loadSecond => inner = .idle ∧ tail ≠ stub
  | .loadHead => inner = .idle ∧ tail ≠ stub
  | .loadLast =>
      tail ≠ stub ∧ (inner = .idle → stub ∈ nodes) ∧ ∀ n, inner.node = some n → n = stub

/-- The order of the nodes, and what each thread knows of it. -/
structure Shape (s : State k) (nodes : List Nat) : Prop where
  front : nodes.head? = some s.tail
  last : nodes.getLast? = some s.head
  links : DeferredLinks s.next s.Pending nodes
  log : s.pushed = s.popped ++ nodes.filter (· ≠ stub)
  exclusive : Exclusive Push.node s.pushes
  push : ∀ c, PushOk s.next nodes c (s.pushes c)
  pop : PopOk s.tail (s.pushes none) nodes s.pop

/-- What holds between any two steps. -/
def Inv (s : State k) : Prop :=
  ∃ nodes, Shape s nodes

theorem create_inv (next : Nat → Option Nat) : Inv (create (k := k) next) := by
  refine ⟨[stub], rfl, rfl, ?_, rfl, exclusive_const rfl, fun _ => trivial, rfl⟩
  apply DeferredLinks.singleton
  · exact Function.update_self (β := fun _ => Option Nat) stub none next
  · rintro x y ⟨c, hc⟩
    contradiction

/-! ## The steps of the consumer -/

/-- What a step of {lit}`mpscq_pop` does. -/
inductive PopEffect (s : State k) : State k → Prop
  | null (hpc : (s.pop = .loadNext ∧ s.tail = stub) ∨
        (s.pop = .loadLast ∧ s.pushes none = .idle))
      (hnext : s.next s.tail = none) : PopEffect s s.returnNull
  | overtaken (hpc : s.pop = .loadHead) (hne : s.tail ≠ s.head) : PopEffect s s.returnNull
  | skip (hpc : s.pop = .loadNext) (hstub : s.tail = stub) {n : Nat}
      (hnext : s.next s.tail = some n) : PopEffect s { s with tail := n, pop := .loadSecond }
  | last (hpc : (s.pop = .loadNext ∧ s.tail ≠ stub) ∨ s.pop = .loadSecond)
      (hnext : s.next s.tail = none) : PopEffect s { s with pop := .loadHead }
  | push (hpc : s.pop = .loadHead) (hlast : s.tail = s.head) :
      PopEffect s { s with
        pushes := Function.update s.pushes none (.clear stub)
        pop := .loadLast }
  | node (hpc : (s.pop = .loadNext ∧ s.tail ≠ stub) ∨ s.pop = .loadSecond ∨
        (s.pop = .loadLast ∧ s.pushes none = .idle))
      {n : Nat} (hnext : s.next s.tail = some n) : PopEffect s (s.returnTail n)

theorem popStep_effect {s s' : State k} (hstep : popStep s = some s') : PopEffect s s' := by
  unfold popStep at hstep
  cases hpc : s.pop with
  | idle => simp [hpc] at hstep
  | loadNext =>
      simp only [hpc] at hstep
      by_cases hstub : s.tail = stub
      · rw [if_pos hstub] at hstep
        cases hnext : s.next s.tail with
        | none =>
            simp only [hnext, Option.some.injEq] at hstep
            exact hstep ▸ .null (.inl ⟨hpc, hstub⟩) hnext
        | some n =>
            simp only [hnext, Option.some.injEq] at hstep
            exact hstep ▸ .skip hpc hstub hnext
      · rw [if_neg hstub] at hstep
        cases hnext : s.next s.tail with
        | none =>
            simp only [hnext, Option.some.injEq] at hstep
            exact hstep ▸ .last (.inl ⟨hpc, hstub⟩) hnext
        | some n =>
            simp only [hnext, Option.some.injEq] at hstep
            exact hstep ▸ .node (.inl ⟨hpc, hstub⟩) hnext
  | loadSecond =>
      simp only [hpc] at hstep
      cases hnext : s.next s.tail with
      | none =>
          simp only [hnext, Option.some.injEq] at hstep
          exact hstep ▸ .last (.inr hpc) hnext
      | some n =>
          simp only [hnext, Option.some.injEq] at hstep
          exact hstep ▸ .node (.inr (.inl hpc)) hnext
  | loadHead =>
      simp only [hpc] at hstep
      by_cases hlast : s.tail = s.head
      · rw [if_neg (not_not.mpr hlast), Option.some.injEq] at hstep
        exact hstep ▸ .push hpc hlast
      · rw [if_pos hlast, Option.some.injEq] at hstep
        exact hstep ▸ .overtaken hpc hlast
  | loadLast =>
      simp only [hpc] at hstep
      by_cases hinner : s.pushes none = .idle
      · rw [if_neg (not_not.mpr hinner)] at hstep
        cases hnext : s.next s.tail with
        | none =>
            simp only [hnext, Option.some.injEq] at hstep
            exact hstep ▸ .null (.inr ⟨hpc, hinner⟩) hnext
        | some n =>
            simp only [hnext, Option.some.injEq] at hstep
            exact hstep ▸ .node (.inr (.inr ⟨hpc, hinner⟩)) hnext
      · rw [if_pos hinner] at hstep
        contradiction

/-! ## What the others know -/

/-- A caller keeps what it knows if its node stays out of the queue and stays cleared. -/
theorem PushOk.mono {next next' : Nat → Option Nat} {nodes nodes' : List Nat} {c : Caller k}
    {pc : Push} (h : PushOk next nodes c pc)
    (hnodes : ∀ n, pc.node = some n → n ∉ nodes → n ∉ nodes')
    (hnext : ∀ n, n ∉ nodes → next n = none → next' n = none) : PushOk next' nodes' c pc := by
  cases pc with
  | idle => trivial
  | clear n => exact ⟨h.1, hnodes n rfl h.2⟩
  | exchange n => exact ⟨h.1, hnodes n rfl h.2.1, hnext n h.2.1 h.2.2⟩
  | link prev n => exact h

/-- {lit}`mpscq_pop` keeps what it knows when a call of {lit}`mpscq_push`, be it its own,
goes on. -/
theorem PopOk.update {tail : Nat} {pushes : Caller k → Push} {nodes nodes' : List Nat}
    {pop : Pop} {c : Caller k} {pc : Push} (h : PopOk tail (pushes none) nodes pop)
    (hbusy : pushes c ≠ .idle) (hnodes : nodes ⊆ nodes')
    (hdone : pc = .idle → ∀ n, (pushes c).node = some n → n ∈ nodes')
    (hnode : ∀ n, pc.node = some n → (pushes c).node = some n) :
    PopOk tail (Function.update pushes c pc none) nodes' pop := by
  by_cases hc : none = c
  · subst hc
    rw [Function.update_self]
    cases pop with
    | loadLast =>
        refine ⟨h.1, fun hidle => ?_, fun n hn => h.2.2 n (hnode n hn)⟩
        cases hpc : pushes none with
        | idle => exact absurd hpc hbusy
        | clear n => exact h.2.2 n (by rw [hpc]; rfl) ▸ hdone hidle n (by rw [hpc]; rfl)
        | exchange n => exact h.2.2 n (by rw [hpc]; rfl) ▸ hdone hidle n (by rw [hpc]; rfl)
        | link prev n => exact h.2.2 n (by rw [hpc]; rfl) ▸ hdone hidle n (by rw [hpc]; rfl)
    | idle => exact absurd h hbusy
    | loadNext => exact absurd h hbusy
    | loadSecond => exact absurd h.1 hbusy
    | loadHead => exact absurd h.1 hbusy
  · rw [Function.update_of_ne hc]
    cases pop with
    | loadLast => exact ⟨h.1, fun hidle => hnodes (h.2.1 hidle), h.2.2⟩
    | idle => exact h
    | loadNext => exact h
    | loadSecond => exact h
    | loadHead => exact h

namespace Shape

variable {s s' : State k} {nodes : List Nat} {c : Caller k}

/-- The nodes that are in the queue. -/
theorem queued_eq (h : Shape s nodes) : s.queued = nodes.filter (· ≠ stub) := by
  rw [State.queued, h.log, List.drop_left]

/-- Another caller has another node in hand. -/
theorem node_ne (h : Shape s nodes) {c' : Caller k} {n n' : Nat} (hc : c' ≠ c)
    (hn : (s.pushes c).node = some n) (hn' : (s.pushes c').node = some n') : n' ≠ n := by
  rintro rfl
  exact hc (h.exclusive c' c n' hn' hn)

/-! ## The producers -/

/-- A producer calls {lit}`mpscq_push` with a free node. -/
theorem call (h : Shape s nodes) {t : Fin k} {n : Nat} (hidle : s.pushes (some t) = .idle)
    (hfree : s.Free n) :
    Shape { s with pushes := Function.update s.pushes (some t) (.clear n) } nodes := by
  rcases hfree with ⟨hstub, hqueued, hhand⟩
  have hnot : n ∉ nodes := by
    intro hmem
    apply hqueued
    rw [h.queued_eq, List.mem_filter]
    exact ⟨hmem, by simpa using hstub⟩
  have hpending : ∀ x y,
      Held Push.linking (Function.update s.pushes (some t) (.clear n)) (x, y) ↔
        s.Pending x y :=
    fun x y => held_update_iff (by rw [hidle]; rfl) (x, y)
  refine ⟨h.front, h.last, h.links.congr (fun _ _ => rfl) hpending, h.log, ?_, ?_, ?_⟩
  · apply h.exclusive.update
    intro m hm
    obtain rfl : n = m := Option.some.inj hm
    exact Or.inr fun ⟨c, hc⟩ => hhand c hc
  · exact (Function.forall_update_iff _ _).mpr
      ⟨⟨fun heq => absurd heq hstub, hnot⟩, fun c _ => h.push c⟩
  · have hinner : Function.update s.pushes (some t) (.clear n) none = s.pushes none :=
      Function.update_of_ne (by simp) _ _
    show PopOk s.tail (Function.update s.pushes (some t) (.clear n) none) nodes s.pop
    rw [hinner]
    exact h.pop

/-- {lit}`n->next = 0`. -/
theorem clear (h : Shape s nodes) {n : Nat} (hpc : s.pushes c = .clear n) :
    Shape { s with
      next := Function.update s.next n none
      pushes := Function.update s.pushes c (.exchange n) } nodes := by
  have hpush := h.push c
  rw [hpc] at hpush
  have hpending : ∀ x y,
      Held Push.linking (Function.update s.pushes c (.exchange n)) (x, y) ↔ s.Pending x y :=
    fun x y => held_update_iff (by rw [hpc]; rfl) (x, y)
  refine ⟨h.front, h.last, ?_, h.log, ?_, ?_, ?_⟩
  · refine h.links.congr (fun x hx => ?_) hpending
    exact Function.update_of_ne (ne_of_mem_of_not_mem hx hpush.2) _ _
  · exact h.exclusive.update fun m hm => Or.inl (by rw [hpc]; exact hm)
  · refine (Function.forall_update_iff _ _).mpr
      ⟨⟨hpush.1, hpush.2, Function.update_self _ _ _⟩, fun c' _ => ?_⟩
    refine (h.push c').mono (fun _ _ hm => hm) fun m _ hm => ?_
    by_cases hmn : m = n
    · rw [hmn]
      exact Function.update_self _ _ _
    · exact (Function.update_of_ne hmn _ _).trans hm
  · exact h.pop.update (by rw [hpc]; nofun) (List.Subset.refl _) nofun
      fun m hm => by rw [hpc]; exact hm

/-- {lit}`XCHG(&self->head, n)`. -/
theorem exchange (h : Shape s nodes) {n : Nat} (hpc : s.pushes c = .exchange n) :
    Shape { s with
      head := n
      pushes := Function.update s.pushes c (.link s.head n)
      pushed := if n = stub then s.pushed else s.pushed ++ [n] } (nodes ++ [n]) := by
  have hpush := h.push c
  rw [hpc] at hpush
  have hpending : ∀ x y,
      Held Push.linking (Function.update s.pushes c (.link s.head n)) (x, y) ↔
        s.Pending x y ∨ (x = s.head ∧ y = n) := by
    intro x y
    constructor
    · intro hheld
      rcases hheld.of_update with hnew | ⟨c', -, hc'⟩
      · right
        simpa [Push.linking, eq_comm] using hnew
      · exact Or.inl ⟨c', hc'⟩
    · rintro (hold | ⟨rfl, rfl⟩)
      · refine hold.update fun hlink => ?_
        rw [hpc] at hlink
        contradiction
      · exact held_update_self s.pushes c rfl
  refine ⟨?_, ?_, ?_, ?_, ?_, ?_, ?_⟩
  · rw [List.head?_append, h.front]
    rfl
  · rw [List.getLast?_concat]
  · exact h.links.concat h.last hpush.2.1 hpush.2.2 hpending
  · rw [List.filter_append, ← List.append_assoc, ← h.log]
    by_cases hn : n = stub <;> simp [hn]
  · exact h.exclusive.update fun m hm => Or.inl (by rw [hpc]; exact hm)
  · refine (Function.forall_update_iff _ _).mpr ⟨hpush.1, fun c' hc => ?_⟩
    refine (h.push c').mono (fun m hm hnot => ?_) fun _ _ hm => hm
    have hne : m ≠ n := h.node_ne hc (by rw [hpc]; rfl) hm
    simp [hnot, hne]
  · exact h.pop.update (by rw [hpc]; nofun) (List.subset_append_left _ _) nofun
      fun m hm => by rw [hpc]; exact hm

/-- {lit}`prev->next = n`. -/
theorem link (h : Shape s nodes) {prev n : Nat} (hpc : s.pushes c = .link prev n) :
    Shape { s with
      next := Function.update s.next prev (some n)
      pushes := Function.update s.pushes c .idle } nodes := by
  have hlink : s.Pending prev n := ⟨c, by rw [hpc]; rfl⟩
  have hin := (h.links.pending prev n hlink).1
  have hpending : ∀ x y,
      Held Push.linking (Function.update s.pushes c .idle) (x, y) ↔
        s.Pending x y ∧ x ≠ prev := by
    intro x y
    constructor
    · intro hheld
      rcases hheld.of_update with hnew | ⟨c', hc, hc'⟩
      · contradiction
      · refine ⟨⟨c', hc'⟩, ?_⟩
        -- two links from one node would be one link, and its node in two hands
        rintro rfl
        have hy := infix_pair_unique h.links.nodup (h.links.pending x y ⟨c', hc'⟩).1 hin
        have hnode : (s.pushes c').node = some y := by
          cases hpc' : s.pushes c' with
          | link a b =>
              rw [hpc'] at hc'
              simp only [Push.linking, Option.some.injEq, Prod.mk.injEq] at hc'
              rw [← hc'.2]
              rfl
          | idle => rw [hpc'] at hc'; contradiction
          | clear m => rw [hpc'] at hc'; contradiction
          | exchange m => rw [hpc'] at hc'; contradiction
        exact h.node_ne hc (by rw [hpc]; rfl) hnode hy
    · rintro ⟨hold, hne⟩
      refine hold.update fun hlink' => ?_
      rw [hpc] at hlink'
      simp only [Push.linking, Option.some.injEq, Prod.mk.injEq] at hlink'
      exact absurd hlink'.1.symm hne
  refine ⟨h.front, h.last, h.links.connect hlink hpending, h.log, ?_, ?_, ?_⟩
  · exact h.exclusive.update nofun
  · refine (Function.forall_update_iff _ _).mpr ⟨trivial, fun c' _ => ?_⟩
    refine (h.push c').mono (fun _ _ hm => hm) fun m hnot hm => ?_
    have hne : m ≠ prev := (ne_of_mem_of_not_mem (hin.subset List.mem_cons_self) hnot).symm
    exact (Function.update_of_ne hne _ _).trans hm
  · refine h.pop.update (by rw [hpc]; nofun) (List.Subset.refl _) (fun _ m hm => ?_) nofun
    rw [hpc] at hm
    obtain rfl : n = m := Option.some.inj hm
    exact hin.subset (by simp)

/-- Every step of {lit}`mpscq_push` keeps the nodes in order. -/
theorem pushStep (h : Shape s nodes) (hstep : Mpscq.pushStep s c = some s') : Inv s' := by
  unfold Mpscq.pushStep at hstep
  cases hpc : s.pushes c with
  | idle => simp [hpc] at hstep
  | clear n =>
      simp only [hpc, Option.some.injEq] at hstep
      exact ⟨nodes, hstep ▸ h.clear hpc⟩
  | exchange n =>
      simp only [hpc, Option.some.injEq] at hstep
      exact ⟨nodes ++ [n], hstep ▸ h.exchange hpc⟩
  | link prev n =>
      simp only [hpc, Option.some.injEq] at hstep
      exact ⟨nodes, hstep ▸ h.link hpc⟩

/-! ## The consumer -/

/-- The consumer goes on without a store. -/
theorem movePop (h : Shape s nodes) {pc : Pop} (hpc : PopOk s.tail (s.pushes none) nodes pc) :
    Shape { s with pop := pc } nodes :=
  ⟨h.front, h.last, h.links, h.log, h.exclusive, h.push, hpc⟩

/-- What is behind {lit}`tail` if its link is made. -/
theorem eq_of_next (h : Shape s nodes) {n : Nat} (hnext : s.next s.tail = some n) :
    ∃ rest, nodes = s.tail :: n :: rest := by
  cases hnodes : nodes with
  | nil =>
      have hfront := h.front
      rw [hnodes] at hfront
      contradiction
  | cons x l =>
      have hfront := h.front
      rw [hnodes] at hfront
      obtain rfl : x = s.tail := Option.some.inj hfront
      have hlinks := h.links
      rw [hnodes] at hlinks
      rcases hlinks.front_some hnext with ⟨rest, rfl⟩
      exact ⟨rest, rfl⟩

/-- The consumer goes on along the link of {lit}`tail`. -/
theorem moveTail {n : Nat} {rest : List Nat} (h : Shape s (s.tail :: n :: rest))
    (hnext : s.next s.tail = some n) {pc : Pop} {popped : List Nat}
    (hpc : PopOk n (s.pushes none) (n :: rest) pc)
    (hlog : s.popped ++ [s.tail].filter (· ≠ stub) = popped) :
    Shape { s with tail := n, pop := pc, popped := popped } (n :: rest) := by
  refine ⟨rfl, ?_, h.links.advance (by rw [hnext]; nofun), ?_, h.exclusive, ?_, hpc⟩
  · have hlast := h.last
    rw [List.getLast?_cons_cons] at hlast
    exact hlast
  · show s.pushed = popped ++ _
    rw [h.log, ← hlog, List.append_assoc, ← List.filter_append]
    rfl
  · intro c
    exact (h.push c).mono (fun _ _ hnot hm => hnot (List.mem_cons_of_mem _ hm))
      fun _ _ hm => hm

/-- {lit}`mpscq_pop` returns a node only when it is past {lit}`stub` and not in its own
push. -/
theorem returns (h : Shape s nodes)
    (hpc : (s.pop = .loadNext ∧ s.tail ≠ stub) ∨ s.pop = .loadSecond ∨
      (s.pop = .loadLast ∧ s.pushes none = .idle)) :
    s.tail ≠ stub ∧ s.pushes none = .idle := by
  have hpop := h.pop
  rcases hpc with ⟨hpc, hstub⟩ | hpc | ⟨hpc, hinner⟩
  · rw [hpc] at hpop
    exact ⟨hstub, hpop⟩
  · rw [hpc] at hpop
    exact ⟨hpop.2, hpop.1⟩
  · rw [hpc] at hpop
    exact ⟨hpop.1, hinner⟩

/-- The consumer returns {lit}`tail`. -/
theorem returnTail (h : Shape s nodes) {n : Nat} (hnext : s.next s.tail = some n)
    (hstub : s.tail ≠ stub) (hinner : s.pushes none = .idle) :
    Inv (s.returnTail n) := by
  rcases h.eq_of_next hnext with ⟨rest, rfl⟩
  exact ⟨n :: rest, h.moveTail hnext hinner (by simp [hstub])⟩

/-- The consumer goes past {lit}`stub`. -/
theorem skipStub (h : Shape s nodes) {n : Nat} (hnext : s.next s.tail = some n)
    (hstub : s.tail = stub) (hinner : s.pushes none = .idle) :
    Inv { s with tail := n, pop := .loadSecond } := by
  rcases h.eq_of_next hnext with ⟨rest, rfl⟩
  have hne : n ≠ stub := by
    rintro rfl
    have hnodup := h.links.nodup
    rw [hstub] at hnodup
    simp at hnodup
  exact ⟨n :: rest, h.moveTail hnext ⟨hinner, hne⟩ (by simp [hstub])⟩

/-- {lit}`tail` is the last node if it is {lit}`head`. -/
theorem eq_singleton (h : Shape s nodes) (hlast : s.tail = s.head) : nodes = [s.tail] := by
  cases hnodes : nodes with
  | nil =>
      have hfront := h.front
      rw [hnodes] at hfront
      contradiction
  | cons x rest =>
      have hfront := h.front
      have hend := h.last
      have hnodup := h.links.nodup
      rw [hnodes] at hfront hend hnodup
      obtain rfl : x = s.tail := Option.some.inj hfront
      cases rest with
      | nil => rfl
      | cons y rest =>
          rw [List.getLast?_cons_cons, ← hlast] at hend
          exact absurd (List.mem_of_getLast? hend) (List.nodup_cons.mp hnodup).1

/-- The consumer has come to the last node and pushes {lit}`stub`. -/
theorem startPush (h : Shape s nodes) (hlast : s.tail = s.head) (hstub : s.tail ≠ stub)
    (hinner : s.pushes none = .idle) :
    Shape { s with
      pushes := Function.update s.pushes none (.clear stub)
      pop := .loadLast } nodes := by
  have hpending : ∀ x y,
      Held Push.linking (Function.update s.pushes none (.clear stub)) (x, y) ↔
        s.Pending x y :=
    fun x y => held_update_iff (by rw [hinner]; rfl) (x, y)
  refine ⟨h.front, h.last, h.links.congr (fun _ _ => rfl) hpending, h.log, ?_, ?_, ?_⟩
  · apply h.exclusive.update
    intro m hm
    obtain rfl : stub = m := Option.some.inj hm
    right
    rintro ⟨c, hc⟩
    -- nobody else pushes {lit}`stub`
    have hpush := h.push c
    cases hpc : s.pushes c with
    | idle => rw [hpc] at hc; contradiction
    | clear n =>
        rw [hpc] at hc hpush
        rw [hpush.1 (Option.some.inj hc), hinner] at hpc
        contradiction
    | exchange n =>
        rw [hpc] at hc hpush
        rw [hpush.1 (Option.some.inj hc), hinner] at hpc
        contradiction
    | link prev n =>
        rw [hpc] at hc hpush
        rw [hpush (Option.some.inj hc), hinner] at hpc
        contradiction
  · refine (Function.forall_update_iff _ _).mpr ⟨⟨fun _ => rfl, ?_⟩, fun c _ => h.push c⟩
    rw [h.eq_singleton hlast]
    simpa using Ne.symm hstub
  · show PopOk s.tail (Function.update s.pushes none (.clear stub) none) nodes .loadLast
    rw [Function.update_self]
    exact ⟨hstub, nofun, fun n hn => (Option.some.inj hn).symm⟩

/-- Every step of {lit}`mpscq_pop` keeps the nodes in order. -/
theorem popStep (h : Shape s nodes) (hstep : Mpscq.popStep s = some s') : Inv s' := by
  have hpop := h.pop
  cases popStep_effect hstep with
  | null hpc _ =>
      refine ⟨nodes, h.movePop ?_⟩
      rcases hpc with ⟨hpc, -⟩ | ⟨-, hinner⟩
      · rw [hpc] at hpop
        exact hpop
      · exact hinner
  | overtaken hpc _ =>
      rw [hpc] at hpop
      exact ⟨nodes, h.movePop hpop.1⟩
  | skip hpc hstub hnext =>
      rw [hpc] at hpop
      exact h.skipStub hnext hstub hpop
  | last hpc _ =>
      refine ⟨nodes, h.movePop ?_⟩
      rcases hpc with ⟨hpc, hstub⟩ | hpc
      · rw [hpc] at hpop
        exact ⟨hpop, hstub⟩
      · rw [hpc] at hpop
        exact hpop
  | push hpc hlast =>
      rw [hpc] at hpop
      exact ⟨nodes, h.startPush hlast hpop.2 hpop.1⟩
  | node hpc hnext =>
      rcases h.returns hpc with ⟨hstub, hinner⟩
      exact h.returnTail hnext hstub hinner

end Shape

/-! ## Steps and runs -/

/-- Every step keeps the invariant. -/
theorem step_inv {s s' : State k} {a : Action k} (h : Inv s) (hstep : step s a = some s') :
    Inv s' := by
  rcases h with ⟨nodes, h⟩
  cases a with
  | push t n =>
      by_cases hcall : s.pushes (some t) = .idle ∧ s.Free n
      · simp only [step, if_pos hcall, Option.some.injEq] at hstep
        exact hstep ▸ ⟨nodes, h.call hcall.1 hcall.2⟩
      · simp [step, if_neg hcall] at hstep
  | pop =>
      have hpop := h.pop
      cases hpc : s.pop <;> simp only [step, hpc, reduceCtorEq] at hstep
      rw [hpc] at hpop
      cases hstep
      exact ⟨nodes, h.movePop hpop⟩
  | pushStep c => exact h.pushStep hstep
  | popStep => exact h.popStep hstep

/-- Every run from a new queue keeps the invariant. -/
theorem run_inv {next : Nat → Option Nat} {acts : List (Action k)} {s : State k}
    (hrun : run step (create next) acts = some s) : Inv s :=
  run_invariant (fun _ _ _ => step_inv) (create_inv next) hrun

end Mpscq
end TinyNet
