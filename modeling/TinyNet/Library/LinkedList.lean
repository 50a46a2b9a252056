import Mathlib.Tactic

/-!
# Singly linked lists in a heap of nodes

Nodes are linked by a function {lit}`next`, which has a successor or null for each node.
A chain is the list of nodes met from a head until null.  This file gives the rules under
which an assignment to {lit}`next` changes the chain of a head.

Main results:

- Theorem {lit}`Chain.unique`: a head has at most one chain.
- Theorem {lit}`Chain.nodup`: a chain that ends visits no node twice.
- Theorem {lit}`Chain.congr`: a chain depends on the successors of its own nodes only.
- Theorem {lit}`Chain.next_eq`: the successor of a node is the node behind it.
- Theorems {lit}`Chain.push` and {lit}`Chain.concat`: a node linked in front of the head
  starts the chain, and one linked behind the last node ends it.
-/

namespace Library
namespace LinkedList

universe u

variable {A : Type u}

/-- The nodes met from a head along {lit}`next` until null. -/
inductive Chain (next : A → Option A) : Option A → List A → Prop where
  | nil : Chain next none []
  | cons {x : A} {l : List A} (rest : Chain next (next x) l) : Chain next (some x) (x :: l)

namespace Chain

variable {next next' : A → Option A} {head : Option A} {l l' : List A}

/-- A head has at most one chain. -/
theorem unique (h : Chain next head l) (h' : Chain next head l') : l = l' := by
  induction h generalizing l' with
  | nil =>
      cases h'
      rfl
  | cons _ ih =>
      cases h' with
      | cons rest' => rw [ih rest']

/-- Each node of a chain is the head of a chain that is no longer. -/
theorem exists_of_mem (h : Chain next head l) {x : A} (hx : x ∈ l) :
    ∃ r, Chain next (some x) r ∧ r.length ≤ l.length := by
  induction h with
  | nil => simp at hx
  | @cons y l rest ih =>
      rcases List.mem_cons.mp hx with rfl | hx
      · exact ⟨x :: l, .cons rest, le_rfl⟩
      · rcases ih hx with ⟨r, hr, hlength⟩
        exact ⟨r, hr, hlength.trans (by simp)⟩

/-- A chain that ends visits no node twice. -/
theorem nodup (h : Chain next head l) : l.Nodup := by
  induction h with
  | nil => exact List.nodup_nil
  | @cons x l rest ih =>
      refine List.nodup_cons.mpr ⟨?_, ih⟩
      intro hx
      rcases rest.exists_of_mem hx with ⟨r, hr, hlength⟩
      rw [hr.unique (.cons rest)] at hlength
      simp at hlength

/-- A chain depends on the successors of its own nodes only. -/
theorem congr (h : Chain next head l) (hnext : ∀ x ∈ l, next' x = next x) :
    Chain next' head l := by
  induction h with
  | nil => exact .nil
  | @cons x l _ ih =>
      have hx := hnext x List.mem_cons_self
      have hrest := ih fun y hy => hnext y (List.mem_cons_of_mem x hy)
      rw [← hx] at hrest
      exact .cons hrest

/-- A node that is linked in front of the head starts the chain. -/
theorem push {x : A} (h : Chain next head l) (hx : next' x = head)
    (hnext : ∀ y ∈ l, next' y = next y) : Chain next' (some x) (x :: l) := by
  apply Chain.cons
  rw [hx]
  exact h.congr hnext

/-- The head is the first node of its chain. -/
theorem head_eq (h : Chain next head l) : head = l.head? := by
  cases h <;> rfl

/-- What follows the first node is the chain of its successor. -/
theorem rest {x : A} (h : Chain next head (x :: l)) : Chain next (next x) l := by
  cases h with
  | cons rest => exact rest

/-- From each node on, a chain is the chain of that node. -/
theorem of_append {x : A} (h : Chain next head (l ++ x :: l')) :
    Chain next (some x) (x :: l') := by
  induction l generalizing head with
  | nil => exact .cons h.rest
  | cons y l ih => exact ih h.rest

/-- The successor of a node is the node behind it in the chain. -/
theorem next_eq {x : A} (h : Chain next head (l ++ x :: l')) : next x = l'.head? :=
  h.of_append.rest.head_eq

/-- A node that is linked behind the last one, and has no successor, ends the chain. -/
theorem concat {t x : A} (h : Chain next head (l ++ [t])) (ht : next' t = some x)
    (hx : next' x = none) (hnext : ∀ y ∈ l, next' y = next y) :
    Chain next' head (l ++ [t, x]) := by
  induction l generalizing head with
  | nil =>
      have hlast : Chain next' (some x) [x] := by
        apply Chain.cons
        rw [hx]
        exact .nil
      cases h with
      | cons _ =>
          apply Chain.cons
          rw [ht]
          exact hlast
  | cons y l ih =>
      cases h with
      | cons rest =>
          have hrest := ih rest fun z hz => hnext z (List.mem_cons_of_mem y hz)
          apply Chain.cons
          rw [hnext y List.mem_cons_self]
          exact hrest

end Chain
end LinkedList
end Library
