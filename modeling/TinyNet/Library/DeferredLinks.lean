import Mathlib.Data.List.Infix
import Mathlib.Logic.Function.Basic
import Mathlib.Tactic
import TinyNet.Library.LinkedList

/-!
# Linked lists whose links are made later

A node may take its place at the end of a linked list before the node in front of it is made
to point to it.  Until then the link is pending, and a walk along {lit}`next` stops there
although the list goes on.  This file gives the rules under which nodes are appended, pending
links are made, and the list is shortened from the front.

Main results:

- Theorem {lit}`DeferredLinks.concat`: a node is appended and its link is pending.
- Theorem {lit}`DeferredLinks.connect`: a pending link is made.
- Theorem {lit}`DeferredLinks.advance`: the first node is dropped along its link.
- Theorem {lit}`DeferredLinks.front_none`: a walk that stops at the first node is at the end
  of the list or at a pending link.
- Theorem {lit}`DeferredLinks.chain`: without pending links a walk meets all nodes of the
  list.
-/

namespace Library

universe u

variable {A : Type u}

/-- In a list without repetition a node has one neighbour behind it. -/
theorem infix_pair_unique {l : List A} {a b b' : A} (hnodup : l.Nodup) (h : [a, b] <:+: l)
    (h' : [a, b'] <:+: l) : b = b' := by
  induction l with
  | nil => simp at h
  | cons x l ih =>
      rcases List.nodup_cons.mp hnodup with ⟨hx, hnodup'⟩
      -- the pair stands at the front for both or for neither
      have hfront : ∀ {c : A}, [a, c] <:+: l → a ≠ x := by
        rintro c hc rfl
        exact hx (hc.subset List.mem_cons_self)
      rcases List.infix_cons_iff.mp h with hpre | hrest
      · rcases List.infix_cons_iff.mp h' with hpre' | hrest'
        · rw [List.cons_prefix_cons] at hpre hpre'
          have heq := (List.prefix_of_prefix_length_le hpre.2 hpre'.2 le_rfl).eq_of_length rfl
          exact List.singleton_inj.mp heq
        · exact absurd (List.cons_prefix_cons.mp hpre).1 (hfront hrest')
      · rcases List.infix_cons_iff.mp h' with hpre' | hrest'
        · exact absurd (List.cons_prefix_cons.mp hpre').1 (hfront hrest)
        · exact ih hnodup' hrest hrest'

/-- The nodes of a list in order; each points to the one behind it, or does not yet. -/
structure DeferredLinks (next : A → Option A) (pending : A → A → Prop) (nodes : List A) :
    Prop where
  nodup : nodes.Nodup
  linked : ∀ a b, [a, b] <:+: nodes → next a = some b ∨ pending a b
  pending : ∀ a b, pending a b → [a, b] <:+: nodes ∧ next a = none
  last : ∀ a, nodes.getLast? = some a → next a = none

namespace DeferredLinks

variable {next next' : A → Option A} {pending pending' : A → A → Prop} {nodes : List A}

/-- One node, which points nowhere. -/
theorem singleton {a : A} (hnext : next a = none) (hpending : ∀ x y, ¬ pending x y) :
    DeferredLinks next pending [a] := by
  refine ⟨List.nodup_singleton a, ?_, fun x y h => absurd h (hpending x y), ?_⟩
  · intro x y h
    have hlength := h.length_le
    simp at hlength
  · intro x hx
    obtain rfl : a = x := by simpa using hx
    exact hnext

/-- Only the links of the nodes in the list matter. -/
theorem congr (h : DeferredLinks next pending nodes) (hnext : ∀ x ∈ nodes, next' x = next x)
    (hpending : ∀ x y, pending' x y ↔ pending x y) : DeferredLinks next' pending' nodes := by
  refine ⟨h.nodup, ?_, ?_, ?_⟩
  · intro a b hab
    rw [hnext a (hab.subset List.mem_cons_self), hpending]
    exact h.linked a b hab
  · intro a b hab
    rcases h.pending a b ((hpending a b).mp hab) with ⟨hin, hnone⟩
    rw [hnext a (hin.subset List.mem_cons_self)]
    exact ⟨hin, hnone⟩
  · intro a ha
    rw [hnext a (List.mem_of_getLast? ha)]
    exact h.last a ha

/-- A node with a pending link is not the last one. -/
theorem ne_last (h : DeferredLinks next pending nodes) {a b x : A} (hab : [a, b] <:+: nodes)
    (hx : nodes.getLast? = some x) : a ≠ x := by
  rintro rfl
  rcases hab with ⟨l, r, rfl⟩
  have hnodup := h.nodup
  have hmem : a ∈ b :: r := by
    have hlast : (b :: r).getLast? = some a := by simpa using hx
    exact List.mem_of_getLast? hlast
  simp only [List.append_assoc, List.cons_append, List.nil_append] at hnodup
  exact (List.nodup_cons.mp (List.nodup_append.mp hnodup).2.1).1 hmem

/-- A new node is appended and its link is pending. -/
theorem concat (h : DeferredLinks next pending nodes) {a n : A}
    (ha : nodes.getLast? = some a) (hn : n ∉ nodes) (hnext : next n = none)
    (hpending : ∀ x y, pending' x y ↔ pending x y ∨ (x = a ∧ y = n)) :
    DeferredLinks next pending' (nodes ++ [n]) := by
  have hold : ∀ {x y : A}, [x, y] <:+: nodes → [x, y] <:+: nodes ++ [n] :=
    fun hxy => hxy.trans (List.infix_append [] nodes [n])
  rcases List.getLast?_eq_some_iff.mp ha with ⟨front, hfront⟩
  have hpair : [a, n] <:+: nodes ++ [n] := ⟨front, [], by rw [hfront]; simp⟩
  have hnodup : (nodes ++ [n]).Nodup := by
    rw [List.nodup_append]
    refine ⟨h.nodup, List.nodup_singleton n, ?_⟩
    rintro x hx y hy rfl
    rw [List.mem_singleton] at hy
    exact hn (hy ▸ hx)
  refine ⟨hnodup, ?_, ?_, ?_⟩
  · intro x y hxy
    rw [hpending]
    rcases List.infix_concat_iff.mp hxy with hend | hin
    · right
      right
      -- the pair at the end is the old last node and the new one
      rw [hfront, List.append_assoc] at hend
      have heq := (List.suffix_of_suffix_length_le hend (List.suffix_append front [a, n])
        le_rfl).eq_of_length rfl
      simpa using heq
    · rw [← or_assoc]
      exact Or.inl (h.linked x y hin)
  · intro x y hxy
    rcases (hpending x y).mp hxy with hold' | ⟨rfl, rfl⟩
    · exact ⟨hold (h.pending x y hold').1, (h.pending x y hold').2⟩
    · exact ⟨hpair, h.last _ ha⟩
  · intro x hx
    rw [List.getLast?_concat, Option.some.injEq] at hx
    rw [← hx]
    exact hnext

/-- The first node is dropped along its link. -/
theorem advance {a b : A} {rest : List A} (h : DeferredLinks next pending (a :: b :: rest))
    (hnext : next a ≠ none) : DeferredLinks next pending (b :: rest) := by
  refine ⟨(List.nodup_cons.mp h.nodup).2, ?_, ?_, ?_⟩
  · intro x y hxy
    exact h.linked x y (hxy.trans (List.suffix_cons a _).isInfix)
  · intro x y hxy
    rcases h.pending x y hxy with ⟨hin, hnone⟩
    refine ⟨?_, hnone⟩
    rcases List.infix_cons_iff.mp hin with hpre | hrest
    · rw [(List.cons_prefix_cons.mp hpre).1] at hnone
      exact absurd hnone hnext
    · exact hrest
  · intro x hx
    exact h.last x (by rw [List.getLast?_cons_cons]; exact hx)

/-- A walk that goes on from the first node goes to the second. -/
theorem front_some {a n : A} {rest : List A} (h : DeferredLinks next pending (a :: rest))
    (hnext : next a = some n) : ∃ rest', rest = n :: rest' := by
  cases rest with
  | nil =>
      rw [h.last a rfl] at hnext
      contradiction
  | cons b rest =>
      have hin : [a, b] <:+: a :: b :: rest := ⟨[], rest, rfl⟩
      rcases h.linked a b hin with hb | hb
      · rw [hnext, Option.some.injEq] at hb
        exact ⟨rest, by rw [hb]⟩
      · rw [(h.pending a b hb).2] at hnext
        contradiction

/-- A walk that stops at the first node is at the end of the list or at a pending link. -/
theorem front_none {a : A} {rest : List A} (h : DeferredLinks next pending (a :: rest))
    (hnext : next a = none) : rest = [] ∨ ∃ b, pending a b := by
  cases rest with
  | nil => exact Or.inl rfl
  | cons b rest =>
      have hin : [a, b] <:+: a :: b :: rest := ⟨[], rest, rfl⟩
      rcases h.linked a b hin with hb | hb
      · rw [hnext] at hb
        contradiction
      · exact Or.inr ⟨b, hb⟩

/-- Without pending links a walk from the first node meets all nodes of the list. -/
theorem chain (h : DeferredLinks next pending nodes) (hquiet : ∀ a b, ¬ pending a b) :
    LinkedList.Chain next nodes.head? nodes := by
  induction nodes with
  | nil => exact .nil
  | cons a rest ih =>
      apply LinkedList.Chain.cons
      cases rest with
      | nil =>
          rw [h.last a rfl]
          exact .nil
      | cons b rest =>
          have hnext : next a = some b :=
            (h.linked a b ⟨[], rest, rfl⟩).resolve_right (hquiet a b)
          rw [hnext]
          exact ih (h.advance (by simp [hnext]))

variable [DecidableEq A]

/-- A pending link is made. -/
theorem connect (h : DeferredLinks next pending nodes) {a b : A} (hab : pending a b)
    (hpending : ∀ x y, pending' x y ↔ pending x y ∧ x ≠ a) :
    DeferredLinks (Function.update next a (some b)) pending' nodes := by
  have hin := (h.pending a b hab).1
  refine ⟨h.nodup, ?_, ?_, ?_⟩
  · intro x y hxy
    by_cases hx : x = a
    · subst hx
      rw [Function.update_self, infix_pair_unique h.nodup hxy hin]
      exact Or.inl rfl
    · rw [Function.update_of_ne hx, hpending]
      exact (h.linked x y hxy).imp_right fun hp => ⟨hp, hx⟩
  · intro x y hxy
    rcases (hpending x y).mp hxy with ⟨hp, hx⟩
    rw [Function.update_of_ne hx]
    exact h.pending x y hp
  · intro x hx
    rw [Function.update_of_ne (h.ne_last hin hx).symm]
    exact h.last x hx

end DeferredLinks
end Library
