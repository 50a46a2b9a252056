import TinyNet.AppThread.ObjectPool
import TinyNet.Library.LinkedList
import TinyNet.Library.Ownership
import TinyNet.ObjectPool.LinkedList

/-!
# The linked list refines a list with atomic operations

As its callers see it, an {lit}`AtomicLinkedList` is a list of values.  {lit}`insertHead`
puts a value in front.  {lit}`sweep` takes the whole list and visits what it has taken from
tail to head.  This file relates the nodes to that list: the wrappers that exist are either
in the chain of the head or belong to one thread, which is inserting one or has taken them.

That an address is used again between a load of the head and the exchange does no harm:
the exchange succeeds only if the head is what the wrapper's hook points to.

Main results:

- Theorem {lit}`run_refines`: after every run of the threads the nodes represent what the list
  with atomic operations has after the events of the run.
- Theorem {lit}`advance_enabled`: no thread ever follows a pointer to a deleted wrapper.
- Theorem {lit}`allocStep_list`: {lit}`alloc` uses the list by these operations.
-/

namespace TinyNet
namespace AtomicLinkedList

open Library.LinkedList
open Library.Ownership
open Library.StepSystem

universe u

variable {A : Type u} {n : Nat}

/-! ## The list as its callers see it -/

/-- The list, head first, and for each thread what it has taken and not yet visited. -/
structure Spec (n : Nat) (A : Type u) where
  items : List A
  taken : Fin n → List A

namespace Spec

/-- The empty list. -/
def start : Spec n A where
  items := []
  taken _ := []

variable [DecidableEq A]

/-- An event, as one atomic step. -/
def step (c : Spec n A) : Event n A → Option (Spec n A)
  | .insert _ data => some { c with items := data :: c.items }
  | .take i =>
      if c.items ≠ [] ∧ c.taken i = [] then
        some { items := [], taken := Function.update c.taken i c.items.reverse }
      else none
  | .visit i data =>
      if (c.taken i).head? = some data then
        some { c with taken := Function.update c.taken i (c.taken i).tail }
      else none

theorem step_take {c : Spec n A} {i : Fin n} (hitems : c.items ≠ []) (htaken : c.taken i = []) :
    c.step (.take i) =
      some { items := [], taken := Function.update c.taken i c.items.reverse } :=
  if_pos ⟨hitems, htaken⟩

theorem step_visit {c : Spec n A} {i : Fin n} {data : A} {rest : List A}
    (htaken : c.taken i = data :: rest) :
    c.step (.visit i data) = some { c with taken := Function.update c.taken i rest } := by
  simp [step, htaken]

/-- How often a value is in the list or in the hands of a thread. -/
def count (c : Spec n A) (x : A) : Nat :=
  c.items.count x + ∑ i, (c.taken i).count x

end Spec

/-- The value that an event inserts. -/
def inserted : Event n A → Option A
  | .insert _ data => some data
  | .take _ => none
  | .visit _ _ => none

/-- The value that an event visits. -/
def visited : Event n A → Option A
  | .insert _ _ => none
  | .take _ => none
  | .visit _ data => some data

section Conservation

variable [DecidableEq A]

/-- The sum over the threads when one of them changes. -/
theorem sum_count_update (taken : Fin n → List A) (i : Fin n) (l : List A) (x : A) :
    ∑ j, (Function.update taken i l j).count x + (taken i).count x =
      ∑ j, (taken j).count x + l.count x := by
  have hnew := Finset.add_sum_erase Finset.univ
    (fun j => (Function.update taken i l j).count x) (Finset.mem_univ i)
  have hold := Finset.add_sum_erase Finset.univ
    (fun j => (taken j).count x) (Finset.mem_univ i)
  have hothers : ∑ j ∈ Finset.univ.erase i, (Function.update taken i l j).count x =
      ∑ j ∈ Finset.univ.erase i, (taken j).count x := by
    apply Finset.sum_congr rfl
    intro j hj
    rw [Function.update_of_ne (Finset.ne_of_mem_erase hj)]
  rw [Function.update_self] at hnew
  omega

/-- An event adds what it inserts and removes what it visits. -/
theorem Spec.step_count {c c' : Spec n A} {e : Event n A} (h : c.step e = some c') (x : A) :
    c'.count x + (visited e).toList.count x = c.count x + (inserted e).toList.count x := by
  cases e with
  | insert i data =>
      cases h
      simp only [Spec.count, visited, inserted, Option.toList_none, Option.toList_some,
        List.count_cons, List.count_nil]
      omega
  | take i =>
      simp only [Spec.step, Option.ite_none_right_eq_some, Option.some.injEq] at h
      rcases h with ⟨⟨-, htaken⟩, rfl⟩
      have hsum := sum_count_update c.taken i c.items.reverse x
      rw [htaken, List.count_nil, List.count_reverse] at hsum
      simp only [Spec.count, visited, inserted, Option.toList_none, List.count_nil]
      omega
  | visit i data =>
      simp only [Spec.step, Option.ite_none_right_eq_some, Option.some.injEq] at h
      rcases h with ⟨hhead, rfl⟩
      have hcons : c.taken i = data :: (c.taken i).tail :=
        List.eq_cons_of_mem_head? hhead
      have hsum := sum_count_update c.taken i (c.taken i).tail x
      have hcount := congrArg (List.count x) hcons
      rw [List.count_cons] at hcount
      simp only [Spec.count, visited, inserted, Option.toList_none, Option.toList_some,
        List.count_cons, List.count_nil]
      omega

/-- The values that the first of a list of events or actions adds. -/
theorem count_filterMap_cons {E : Type*} (f : E → Option A) (e : E) (es : List E) (x : A) :
    ((e :: es).filterMap f).count x = (f e).toList.count x + (es.filterMap f).count x := by
  rw [List.filterMap_cons]
  cases f e with
  | none => simp
  | some y => simp [List.count_cons, Nat.add_comm]

/-- A run adds what it inserts and removes what it visits. -/
theorem Spec.run_count {c c' : Spec n A} {es : List (Event n A)}
    (h : run Spec.step c es = some c') (x : A) :
    c'.count x + (es.filterMap visited).count x =
      c.count x + (es.filterMap inserted).count x := by
  induction es generalizing c with
  | nil =>
      cases h
      rfl
  | cons e es ih =>
      rw [run_cons, Option.bind_eq_some_iff] at h
      rcases h with ⟨c₁, hc₁, hrest⟩
      have hfirst := Spec.step_count hc₁ x
      have hlater := ih hrest
      rw [count_filterMap_cons, count_filterMap_cons]
      omega

end Conservation

/-! ## The nodes behind it -/

/-- {lit}`next(t)`. -/
def next (heap : Nat → Option (Wrapper A)) (t : Nat) : Option Nat :=
  (heap t).bind Wrapper.next

/-- {lit}`wrapper->data`. -/
def data (heap : Nat → Option (Wrapper A)) (t : Nat) : Option A :=
  (heap t).map Wrapper.data

/-- The wrappers have the values. -/
def Carries (heap : Nat → Option (Wrapper A)) (l : List Nat) (xs : List A) : Prop :=
  l.map (data heap) = xs.map some

/-- What a thread's place says of the wrappers that belong to it, and of the values that it
has still to visit. -/
def PcInv (heap : Nat → Option (Wrapper A)) : ThreadPc → List Nat → List A → Prop
  | .idle, l, xs => l = [] ∧ xs = []
  | .load t, l, xs => l = [t] ∧ xs = []
  | .link t _, l, xs => l = [t] ∧ xs = []
  | .compareExchange t oldHead, l, xs => l = [t] ∧ xs = [] ∧ next heap t = oldHead
  | .exchange, l, xs => l = [] ∧ xs = []
  | .reverse head rhead, l, xs =>
      (∃ a b, Chain (next heap) head a ∧ Chain (next heap) rhead b ∧ l = a.reverse ++ b) ∧
        Carries heap l xs
  | .unlinkAll head, l, xs => Chain (next heap) head l ∧ Carries heap l xs

/-- The wrappers are divided between the list and the threads, and carry the values that
the specification has there. -/
structure Refines (s : State n A) (c : Spec n A) (owns : Option (Fin n) → List Nat) :
    Prop where
  separated : Separated owns fun t => (s.heap t).isSome
  chain : Chain (next s.heap) s.head (owns none)
  carries : Carries s.heap (owns none) c.items
  pcs : ∀ i, PcInv s.heap (s.pcs i) (owns (some i)) (c.taken i)

section Heap

variable {heap heap' : Nat → Option (Wrapper A)} {l : List Nat} {xs : List A}

@[simp]
theorem next_update_self (heap : Nat → Option (Wrapper A)) (t : Nat) (w : Wrapper A) :
    next (Function.update heap t (some w)) t = w.next := by
  simp [next]

theorem next_update_of_ne {t y : Nat} (h : y ≠ t) (w : Option (Wrapper A)) :
    next (Function.update heap t w) y = next heap y := by
  simp [next, h]

/-- An assignment to {lit}`next` leaves the values. -/
theorem data_update {t : Nat} {w w' : Wrapper A} (hw : heap t = some w)
    (hdata : w'.data = w.data) (y : Nat) :
    data (Function.update heap t (some w')) y = data heap y := by
  by_cases hy : y = t
  · rw [hy]
    simp [data, hw, hdata]
  · simp [data, hy]

theorem Carries.cons {t : Nat} {x : A} (h : Carries heap l xs) (ht : data heap t = some x) :
    Carries heap (t :: l) (x :: xs) := by
  rw [Carries, List.map_cons, List.map_cons, ht, h]

@[simp]
theorem carries_nil_left : Carries heap [] xs ↔ xs = [] := by
  rw [Carries, List.map_nil, eq_comm, List.map_eq_nil_iff]

@[simp]
theorem carries_nil_right : Carries heap l [] ↔ l = [] := by
  rw [Carries, List.map_nil, List.map_eq_nil_iff]

theorem Carries.congr (h : Carries heap l xs) (hdata : ∀ t ∈ l, data heap' t = data heap t) :
    Carries heap' l xs := by
  rw [Carries, List.map_congr_left hdata]
  exact h

theorem chain_congr {head : Option Nat} (h : Chain (next heap) head l)
    (hheap : ∀ t ∈ l, heap' t = heap t) : Chain (next heap') head l :=
  h.congr fun t ht => congrArg (Option.bind · Wrapper.next) (hheap t ht)

theorem carries_congr (h : Carries heap l xs) (hheap : ∀ t ∈ l, heap' t = heap t) :
    Carries heap' l xs :=
  h.congr fun t ht => congrArg (Option.map Wrapper.data) (hheap t ht)

/-- What a thread knows depends on its own wrappers only. -/
theorem PcInv.congr {pc : ThreadPc} (h : PcInv heap pc l xs)
    (hheap : ∀ t ∈ l, heap' t = heap t) : PcInv heap' pc l xs := by
  cases pc with
  | idle => exact h
  | load t => exact h
  | link t oldHead => exact h
  | compareExchange t oldHead =>
      rcases h with ⟨rfl, hxs, hnext⟩
      refine ⟨rfl, hxs, ?_⟩
      rw [next, hheap t List.mem_cons_self]
      exact hnext
  | exchange => exact h
  | reverse head rhead =>
      rcases h with ⟨⟨a, b, ha, hb, rfl⟩, hcarries⟩
      refine ⟨⟨a, b, chain_congr ha ?_, chain_congr hb ?_, rfl⟩, carries_congr hcarries hheap⟩
      · exact fun t ht => hheap t (List.mem_append_left b (List.mem_reverse.mpr ht))
      · exact fun t ht => hheap t (List.mem_append_right a.reverse ht)
  | unlinkAll head => exact ⟨chain_congr h.1 hheap, carries_congr h.2 hheap⟩

/-- Linking the new wrapper. -/
theorem PcInv.link {t : Nat} {oldHead : Option Nat} (h : PcInv heap (.link t oldHead) l xs)
    (w : Wrapper A) :
    PcInv (Function.update heap t (some { w with next := oldHead }))
      (.compareExchange t oldHead) l xs :=
  ⟨h.1, h.2, next_update_self heap t _⟩

/-- A round of {lit}`reverse` moves a wrapper from one chain to the other. -/
theorem PcInv.reverse {t : Nat} {rhead : Option Nat} {w : Wrapper A}
    (h : PcInv heap (.reverse (some t) rhead) l xs) (hnodup : l.Nodup)
    (hw : heap t = some w) :
    PcInv (Function.update heap t (some { w with next := rhead }))
      (.reverse w.next (some t)) l xs := by
  rcases h with ⟨⟨a, b, ha, hb, rfl⟩, hcarries⟩
  cases ha with
  | @cons _ a rest =>
      have hl : (t :: a).reverse ++ b = a.reverse ++ (t :: b) := by simp
      rw [hl] at hnodup hcarries ⊢
      rw [List.nodup_middle, List.nodup_cons, List.mem_append, List.mem_reverse,
        not_or] at hnodup
      have hrest : Chain (next heap) w.next a := by
        have hnext : next heap t = w.next := by simp [next, hw]
        rwa [← hnext]
      refine ⟨⟨a, t :: b, hrest.congr ?_, hb.push (next_update_self heap t _) ?_, rfl⟩, ?_⟩
      · intro y hy
        exact next_update_of_ne (ne_of_mem_of_not_mem hy hnodup.1.1) _
      · intro y hy
        exact next_update_of_ne (ne_of_mem_of_not_mem hy hnodup.1.2) _
      · apply hcarries.congr
        intro y _
        exact data_update hw (by rfl) y

/-- A round of {lit}`unlinkAll` leaves the rest of its chain. -/
theorem PcInv.unlink {t : Nat} {w : Wrapper A} (h : PcInv heap (.unlinkAll (some t)) l xs)
    (hw : heap t = some w) :
    ∃ l' xs', l = t :: l' ∧ xs = w.data :: xs' ∧ PcInv heap (.unlinkAll w.next) l' xs' := by
  rcases h with ⟨hchain, hcarries⟩
  have hnext : next heap t = w.next := by simp [next, hw]
  cases hchain with
  | @cons _ l' rest =>
      rw [hnext] at rest
      cases xs with
      | nil => simp at hcarries
      | cons x xs' =>
          simp only [Carries, List.map_cons, List.cons.injEq, data, hw, Option.map_some,
            Option.some.injEq] at hcarries
          rcases hcarries with ⟨rfl, hcarries⟩
          exact ⟨l', xs', rfl, rfl, rest, hcarries⟩

end Heap

namespace Refines

variable {s s' : State n A} {c c' : Spec n A} {owns owns' : Option (Fin n) → List Nat}
variable {i : Fin n} {t : Nat} {pc : ThreadPc}

/-- A step of one thread that writes its own wrappers only leaves what the others know. -/
theorem of_local (h : Refines s c owns)
    (hsep : Separated owns' fun t => (s'.heap t).isSome)
    (hheap : ∀ t, t ∉ owns (some i) → (s.heap t).isSome → s'.heap t = s.heap t)
    (hpcs : ∀ j, j ≠ i → s'.pcs j = s.pcs j)
    (howns : ∀ j, j ≠ i → owns' (some j) = owns (some j))
    (htaken : ∀ j, j ≠ i → c'.taken j = c.taken j)
    (hchain : Chain (next s'.heap) s'.head (owns' none))
    (hcarries : Carries s'.heap (owns' none) c'.items)
    (hpc : PcInv s'.heap (s'.pcs i) (owns' (some i)) (c'.taken i)) : Refines s' c' owns' := by
  refine ⟨hsep, hchain, hcarries, ?_⟩
  intro j
  by_cases hj : j = i
  · rw [hj]
    exact hpc
  · rw [hpcs j hj, howns j hj, htaken j hj]
    apply (h.pcs j).congr
    intro t ht
    apply hheap t _ (h.separated.used_of_mem (some j) t ht)
    intro hti
    have hij := h.separated.eq_of_mem (some j) (some i) t ht hti
    exact hj (Option.some.inj hij)

/-- Such a step that does not touch the list leaves it as well. -/
theorem of_private (h : Refines s c owns)
    (hsep : Separated owns' fun t => (s'.heap t).isSome)
    (hheap : ∀ t, t ∉ owns (some i) → (s.heap t).isSome → s'.heap t = s.heap t)
    (hpcs : ∀ j, j ≠ i → s'.pcs j = s.pcs j)
    (howns : ∀ p, p ≠ some i → owns' p = owns p)
    (htaken : ∀ j, j ≠ i → c'.taken j = c.taken j)
    (hhead : s'.head = s.head) (hitems : c'.items = c.items)
    (hpc : PcInv s'.heap (s'.pcs i) (owns' (some i)) (c'.taken i)) : Refines s' c' owns' := by
  have hlist : owns' none = owns none := howns none (by simp)
  have hkept : ∀ t ∈ owns none, s'.heap t = s.heap t := by
    intro t ht
    apply hheap t _ (h.separated.used_of_mem none t ht)
    intro hti
    have hne := h.separated.eq_of_mem none (some i) t ht hti
    cases hne
  apply h.of_local hsep hheap hpcs _ htaken _ _ hpc
  · intro j hj
    exact howns (some j) (by simpa using hj)
  · rw [hlist, hhead]
    exact chain_congr h.chain hkept
  · rw [hlist, hitems]
    exact carries_congr h.carries hkept

/-- A thread moves on. -/
theorem setPc (h : Refines s c owns) (hpc : PcInv s.heap pc (owns (some i)) (c.taken i)) :
    Refines (s.setPc i pc) c owns := by
  refine h.of_private (i := i) h.separated (fun _ _ _ => rfl) ?_ (fun _ _ => rfl)
    (fun _ _ => rfl) rfl rfl ?_
  · intro j hj
    exact Function.update_of_ne hj _ _
  · simpa [State.setPc] using hpc

/-- A thread writes a wrapper of its own. -/
theorem setWrapper (h : Refines s c owns) {w : Wrapper A} (ht : t ∈ owns (some i))
    (hpc : PcInv (Function.update s.heap t (some w)) pc (owns (some i)) (c.taken i)) :
    Refines ((s.setWrapper t (some w)).setPc i pc) c owns := by
  have hused : ∀ p y, y ∈ owns p → (s.heap y).isSome →
      (Function.update s.heap t (some w) y).isSome := by
    intro p y _ hy
    by_cases hyt : y = t
    · rw [hyt, Function.update_self]
      rfl
    · rwa [Function.update_of_ne hyt]
  refine h.of_private (i := i) (h.separated.mono (fun p => List.Sublist.refl (owns p)) hused)
    ?_ ?_ (fun _ _ => rfl) (fun _ _ => rfl) rfl rfl ?_
  · intro y hy _
    exact Function.update_of_ne (ne_of_mem_of_not_mem ht hy).symm _ _
  · intro j hj
    exact Function.update_of_ne hj _ _
  · simpa [State.setPc, State.setWrapper] using hpc

/-- {lit}`make_unique<Wrapper>` in {lit}`insertHead`. -/
theorem create (h : Refines s c owns) (hpc : s.pcs i = .idle) (hfresh : s.heap t = none)
    (w : Wrapper A) :
    Refines ((s.setWrapper t (some w)).setPc i (.load t)) c
      (Function.update owns (some i) [t]) := by
  have hidle := h.pcs i
  rw [hpc] at hidle
  have hother : ∀ p, p ≠ some i → Function.update owns (some i) [t] p = owns p :=
    fun p hp => Function.update_of_ne hp _ _
  have hne : ∀ y, (s.heap y).isSome → y ≠ t := by
    rintro y hy rfl
    simp [hfresh] at hy
  have hsep : Separated (Function.update owns (some i) [t])
      fun y => (Function.update s.heap t (some w) y).isSome := by
    apply h.separated.insert (p := some i) (x := t) _ _ _ _ hother
    · simp [hfresh]
    · simp
    · intro y hy
      rwa [Function.update_of_ne (hne y hy)]
    · rw [hidle.1, Function.update_self]
  refine h.of_private (i := i) hsep ?_ ?_ hother (fun _ _ => rfl) rfl rfl ?_
  · intro y _ hy
    exact Function.update_of_ne (hne y hy) _ _
  · intro j hj
    exact Function.update_of_ne hj _ _
  · simpa [State.setPc, PcInv] using hidle.2

variable [DecidableEq A]

/-- The exchange that succeeds inserts the value. -/
theorem insert (h : Refines s c owns) (hpc : s.pcs i = .compareExchange t s.head) :
    ∃ c', run Spec.step c ((s.heap t).map fun w => Event.insert i w.data).toList = some c' ∧
      ∃ owns', Refines ((s.setHead (some t)).setPc i .idle) c' owns' := by
  have hown := h.pcs i
  rw [hpc] at hown
  rcases hown with ⟨hl, htaken, hnext⟩
  have hmem : t ∈ owns (some i) := by simp [hl]
  rcases Option.isSome_iff_exists.mp (h.separated.used_of_mem _ t hmem) with ⟨w, hw⟩
  rw [hw]
  let owns' := Function.update (Function.update owns (some i) []) none (t :: owns none)
  have hnone : owns' none = t :: owns none := Function.update_self _ _ _
  have hsome : owns' (some i) = [] := by simp [owns']
  have hother : ∀ p, p ≠ none → p ≠ some i → owns' p = owns p := by
    intro p hp hpi
    simp [owns', hp, hpi]
  refine ⟨{ c with items := w.data :: c.items }, rfl, owns', ?_⟩
  refine h.of_local (i := i) ?_ (fun _ _ _ => rfl) ?_ ?_ (fun _ _ => rfl) ?_ ?_ ?_
  · apply h.separated.transfer (p := none) (q := some i) (by simp) _ hother
    rw [hnone, hsome, hl, List.append_nil]
    exact (List.perm_append_singleton t (owns none)).symm.subperm
  · intro j hj
    exact Function.update_of_ne hj _ _
  · intro j hj
    exact hother (some j) (by simp) (by simpa using hj)
  · rw [hnone]
    exact h.chain.push hnext fun _ _ => rfl
  · rw [hnone]
    exact h.carries.cons (by simp [data, hw])
  · rw [hsome]
    simpa [State.setPc, PcInv] using htaken

/-- The exchange for null takes the list. -/
theorem take (h : Refines s c owns) (hpc : s.pcs i = .exchange) (hne : s.head ≠ none) :
    ∃ c', run Spec.step c [.take i] = some c' ∧
      ∃ owns', Refines ((s.setHead none).setPc i (.reverse s.head none)) c' owns' := by
  have hown := h.pcs i
  rw [hpc] at hown
  rcases hown with ⟨hl, htaken⟩
  have hitems : c.items ≠ [] := by
    intro hitems
    have hcarries := h.carries
    rw [hitems, carries_nil_right] at hcarries
    rw [h.chain.head_eq, hcarries] at hne
    exact hne rfl
  let owns' := Function.update (Function.update owns (some i) (owns none).reverse) none []
  have hnone : owns' none = [] := Function.update_self _ _ _
  have hsome : owns' (some i) = (owns none).reverse := by simp [owns']
  have hother : ∀ p, p ≠ none → p ≠ some i → owns' p = owns p := by
    intro p hp hpi
    simp [owns', hp, hpi]
  refine ⟨{ items := [], taken := Function.update c.taken i c.items.reverse }, ?_, owns', ?_⟩
  · rw [run_cons, Spec.step_take hitems htaken]
    rfl
  refine h.of_local (i := i) ?_ (fun _ _ _ => rfl) ?_ ?_ ?_ ?_ ?_ ?_
  · apply h.separated.transfer (p := none) (q := some i) (by simp) _ hother
    rw [hnone, hsome, hl, List.nil_append, List.append_nil]
    exact (List.reverse_perm (owns none)).subperm
  · intro j hj
    exact Function.update_of_ne hj _ _
  · intro j hj
    exact hother (some j) (by simp) (by simpa using hj)
  · intro j hj
    exact Function.update_of_ne hj _ _
  · rw [hnone]
    exact .nil
  · rw [hnone]
    rfl
  · rw [hsome]
    simp only [State.setPc, State.setHead, Function.update_self, PcInv]
    refine ⟨⟨owns none, [], h.chain, .nil, by simp⟩, ?_⟩
    rw [Carries, List.map_reverse, List.map_reverse, h.carries]

/-- A round of {lit}`unlinkAll` visits the value of its wrapper and deletes the wrapper. -/
theorem visit (h : Refines s c owns) {w : Wrapper A} (hpc : s.pcs i = .unlinkAll (some t))
    (hw : s.heap t = some w) :
    ∃ c', run Spec.step c [.visit i w.data] = some c' ∧
      ∃ owns', Refines (s.unlink i t w) c' owns' := by
  have hown := h.pcs i
  rw [hpc] at hown
  rcases hown.unlink hw with ⟨l, xs, hl, hxs, hrest⟩
  have hnodup := h.separated.nodup (some i)
  rw [hl, List.nodup_cons] at hnodup
  have hkept : ∀ y, y ≠ t → (s.unlink i t w).heap y = s.heap y :=
    fun y hy => Function.update_of_ne hy _ _
  have hother : ∀ p, p ≠ some i → Function.update owns (some i) l p = owns p :=
    fun p hp => Function.update_of_ne hp _ _
  refine ⟨{ c with taken := Function.update c.taken i xs }, ?_,
    Function.update owns (some i) l, ?_⟩
  · rw [run_cons, Spec.step_visit hxs]
    rfl
  refine h.of_private (i := i) ?_ ?_ ?_ hother ?_ rfl rfl ?_
  · apply h.separated.release (p := some i) (x := t)
    · rw [hl, Function.update_self]
    · intro p hp
      rw [hother p hp]
    · intro y hy hused
      rwa [hkept y hy]
  · intro y hy _
    apply hkept y
    rintro rfl
    simp [hl] at hy
  · intro j hj
    exact Function.update_of_ne hj _ _
  · intro j hj
    exact Function.update_of_ne hj _ _
  · rw [Function.update_self]
    simp only [State.unlink, State.setPc, Function.update_self]
    exact hrest.congr fun y hy => hkept y (ne_of_mem_of_not_mem hy hnodup.1)

end Refines

/-! ## Whole runs -/

theorem start_refines : Refines (start : State n A) Spec.start fun _ => [] where
  separated := ⟨fun _ => List.nodup_nil, by simp, by simp⟩
  chain := .nil
  carries := rfl
  pcs _ := ⟨rfl, rfl⟩

/-- A step is followed by the specification with the event that it makes visible. -/
theorem step_refines [DecidableEq A] {s s' : State n A} {c : Spec n A} {a : Action n A}
    (h : ∃ owns, Refines s c owns) (hstep : step s a = some s') :
    ∃ c', run Spec.step c (event s a).toList = some c' ∧ ∃ owns, Refines s' c' owns := by
  rcases h with ⟨owns, h⟩
  have hcase := step_cases hstep
  generalize event s a = e at hcase ⊢
  cases hcase with
  | insertHead i data t pc_eq fresh => exact ⟨c, rfl, _, h.create pc_eq fresh _⟩
  | sweep i pc_eq =>
      have hown := h.pcs i
      rw [pc_eq] at hown
      exact ⟨c, rfl, owns, h.setPc hown⟩
  | load i _ t pc_eq =>
      have hown := h.pcs i
      rw [pc_eq] at hown
      exact ⟨c, rfl, owns, h.setPc hown⟩
  | link i _ t oldHead w pc_eq heap_eq =>
      have hown := h.pcs i
      rw [pc_eq] at hown
      have hmem : t ∈ owns (some i) := by simp [hown.1]
      exact ⟨c, rfl, owns, h.setWrapper hmem (hown.link w)⟩
  | insert i _ t pc_eq => exact h.insert pc_eq
  | retry i _ t oldHead pc_eq =>
      have hown := h.pcs i
      rw [pc_eq] at hown
      exact ⟨c, rfl, owns, h.setPc ⟨hown.1, hown.2.1⟩⟩
  | take i _ pc_eq ne => exact h.take pc_eq ne
  | finish i _ pc_eq =>
      have hown := h.pcs i
      rw [pc_eq] at hown
      exact ⟨c, rfl, owns, h.setPc hown⟩
  | reverse i _ t rhead w pc_eq heap_eq =>
      have hown := h.pcs i
      rw [pc_eq] at hown
      have hmem : t ∈ owns (some i) := by
        rcases hown.1 with ⟨a, b, ha, -, hl⟩
        cases ha
        simp [hl]
      exact ⟨c, rfl, owns,
        h.setWrapper hmem (hown.reverse (h.separated.nodup (some i)) heap_eq)⟩
  | reversed i _ rhead pc_eq =>
      have hown := h.pcs i
      rw [pc_eq] at hown
      rcases hown with ⟨⟨a, b, ha, hb, hl⟩, hcarries⟩
      cases ha
      rw [List.reverse_nil, List.nil_append] at hl
      refine ⟨c, rfl, owns, h.setPc ⟨?_, hcarries⟩⟩
      rwa [hl]
  | visit i _ t w pc_eq heap_eq => exact h.visit pc_eq heap_eq
  | visited i _ pc_eq =>
      have hown := h.pcs i
      rw [pc_eq] at hown
      rcases hown with ⟨hchain, hcarries⟩
      generalize hl : owns (some i) = l at hchain hcarries
      cases hchain
      exact ⟨c, rfl, owns, h.setPc ⟨hl, carries_nil_left.mp hcarries⟩⟩

/-- After every run the nodes represent what the list with atomic operations has after the
events of the run. -/
theorem run_refines [DecidableEq A] {as : List (Action n A)} {s : State n A}
    (h : run step start as = some s) :
    ∃ c, run Spec.step Spec.start (trace step event start as) = some c ∧
      ∃ owns, Refines s c owns :=
  run_simulation (fun _ _ _ _ => step_refines) ⟨_, start_refines⟩ h

/-- The head is null exactly if the list is empty. -/
theorem Refines.head_eq_none_iff {s : State n A} {c : Spec n A}
    {owns : Option (Fin n) → List Nat} (h : Refines s c owns) :
    s.head = none ↔ c.items = [] := by
  have hcarries := h.carries
  constructor
  · intro hhead
    have hchain := h.chain
    rw [hhead] at hchain
    rwa [hchain.unique .nil, carries_nil_left] at hcarries
  · intro hitems
    rw [hitems, carries_nil_right] at hcarries
    rw [h.chain.head_eq, hcarries]
    rfl

/-- A thread outside of the list has visited all that it took. -/
theorem Refines.taken_eq_nil {s : State n A} {c : Spec n A}
    {owns : Option (Fin n) → List Nat} (h : Refines s c owns) {i : Fin n}
    (hidle : s.pcs i = .idle) : c.taken i = [] := by
  have hown := h.pcs i
  rw [hidle] at hown
  exact hown.2

/-- One thread inserts a value, and another one sweeps the list. -/
def insertThenSweep (i j : Fin n) : List (Action n Nat) :=
  .insertHead i 7 0 :: List.replicate 3 (.advance i false) ++
    .sweep j :: List.replicate 6 (.advance j false)

/-- A wrapper that belongs to a thread has not been deleted. -/
theorem Refines.exists_wrapper {s : State n A} {c : Spec n A}
    {owns : Option (Fin n) → List Nat} (h : Refines s c owns) {i : Fin n} {t : Nat}
    (ht : t ∈ owns (some i)) : ∃ w, s.heap t = some w :=
  Option.isSome_iff_exists.mp (h.separated.used_of_mem (some i) t ht)

/-- A thread that is in a call can go on: it follows no pointer to a deleted wrapper. -/
theorem advance_enabled [DecidableEq A] {as : List (Action n A)} {s : State n A}
    (h : run step start as = some s) {i : Fin n} (hpc : s.pcs i ≠ .idle) (spurious : Bool) :
    ∃ s', step s (.advance i spurious) = some s' := by
  rcases run_refines h with ⟨c, -, owns, hrefines⟩
  have hown := hrefines.pcs i
  rw [step, State.advance]
  generalize s.pcs i = pc at hpc hown
  cases pc with
  | idle => contradiction
  | load t => exact ⟨_, rfl⟩
  | link t oldHead =>
      rcases hrefines.exists_wrapper (i := i) (t := t) (by simp [hown.1]) with ⟨w, hw⟩
      simp [hw]
  | compareExchange t oldHead =>
      dsimp only
      split <;> exact ⟨_, rfl⟩
  | exchange =>
      dsimp only
      split <;> exact ⟨_, rfl⟩
  | reverse head rhead =>
      cases head with
      | none => exact ⟨_, rfl⟩
      | some t =>
          rcases hown.1 with ⟨a, b, ha, -, hl⟩
          cases ha
          rcases hrefines.exists_wrapper (i := i) (t := t) (by simp [hl]) with ⟨w, hw⟩
          simp [hw]
  | unlinkAll head =>
      cases head with
      | none => exact ⟨_, rfl⟩
      | some t =>
          have hhead := hown.1.head_eq
          have hmem : t ∈ owns (some i) := List.mem_of_mem_head? hhead.symm
          rcases hrefines.exists_wrapper hmem with ⟨w, hw⟩
          simp [hw]

/-- Thread 1 is to visit the node that it took. -/
theorem advance_enabled_insertThenSweep :
    ∃ s, run step start ((insertThenSweep (0 : Fin 2) 1).take 8) = some s ∧
      s.pcs 1 = .unlinkAll (some 0) ∧ ∃ s', step s (.advance 1 false) = some s' := by
  have hrun : run step start ((insertThenSweep (0 : Fin 2) 1).take 8) = some _ := rfl
  exact ⟨_, hrun, rfl, advance_enabled hrun (by decide) false⟩

/-! ## The free list of the pool -/

open AtomicAlloc

/-- What a step of {lit}`alloc` does to the free list. -/
def allocEvent (a : AtomicAlloc) (i : Fin n) : AllocPc → Option (Event n Obj)
  | .test => none
  | .refill k => if k < 20 then some (.insert i a.created) else none
  | .exchange _ => if a.objList = [] then none else some (.take i)
  | .visit [] _ => none
  | .visit (pObj :: _) _ => some (.visit i pObj)

/-- What a thread in {lit}`alloc` has still to visit. -/
def unvisited : Progress AllocPc (Option Obj) → List Obj
  | .running (.visit rest _) => rest
  | .running _ => []
  | .returned _ => []

/-- A step of {lit}`alloc` uses the free list by the operations that {lit}`insertHead` and
{lit}`sweep` have. -/
theorem allocStep_list {a : AtomicAlloc} {c : Spec n Obj} {i : Fin n} {pc : AllocPc}
    (hitems : c.items = a.objList) (htaken : c.taken i = unvisited (.running pc)) :
    ∃ c', run Spec.step c (allocEvent a i pc).toList = some c' ∧
      c'.items = (a.allocStep pc).1.objList ∧
      c'.taken i = unvisited (a.allocStep pc).2 ∧
      ∀ j, j ≠ i → c'.taken j = c.taken j := by
  cases pc with
  | test =>
      refine ⟨c, rfl, ?_⟩
      rw [allocStep]
      split <;> exact ⟨hitems, htaken, fun _ _ => rfl⟩
  | refill k =>
      rw [allocStep, allocEvent]
      split
      · exact ⟨{ c with items := a.created :: c.items }, rfl,
          congrArg (a.created :: ·) hitems, htaken, fun _ _ => rfl⟩
      · exact ⟨c, rfl, hitems, htaken, fun _ _ => rfl⟩
  | exchange pItem =>
      rw [allocStep, allocEvent]
      split
      · exact ⟨c, rfl, hitems, htaken, fun _ _ => rfl⟩
      · rename_i hne
        refine ⟨{ items := [], taken := Function.update c.taken i c.items.reverse }, ?_, rfl,
          ?_, ?_⟩
        · rw [Option.toList_some, run_cons, Spec.step_take (hitems ▸ hne) htaken]
          rfl
        · exact (Function.update_self _ _ _).trans (congrArg List.reverse hitems)
        · intro j hj
          exact Function.update_of_ne hj _ _
  | visit rest pItem =>
      cases rest with
      | nil => exact ⟨c, rfl, hitems, htaken, fun _ _ => rfl⟩
      | cons pObj rest =>
          have hrest : c.taken i = pObj :: rest := htaken
          refine ⟨{ c with taken := Function.update c.taken i rest }, ?_, hitems, ?_, ?_⟩
          · rw [allocEvent, Option.toList_some, run_cons, Spec.step_visit hrest]
            rfl
          · exact Function.update_self _ _ _
          · intro j hj
            exact Function.update_of_ne hj _ _

end AtomicLinkedList
end TinyNet
