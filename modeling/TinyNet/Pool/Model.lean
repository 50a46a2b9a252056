import TinyNet.Library.LinkedList
import TinyNet.Library.MachineInt

/-!
# The pool of elements

This file embeds {lit}`Pool<T>` of {lit}`libs/pool.h`, a free list that runs through the
elements themselves: {lit}`m_head` is the next element to be acquired, {lit}`m_tail` the
element behind which released and new ones are linked, and an element that was acquired
keeps its {lit}`next`.  An element is the address at which {lit}`new` created it; nothing
is ever deleted, so the addresses are numbered in the order of creation.

{lit}`inflate` moves {lit}`m_tail` only.  When {lit}`acquire` has taken the last element,
it calls {lit}`inflate`, which links the new elements behind the element just taken, and
{lit}`m_head` stays null.

Main results:

- Theorem {lit}`inflateRounds_chain`: on a list that is not empty, {lit}`inflate` appends
  new elements.
- Theorem {lit}`inflateRounds_head`: it never gives {lit}`m_head` a value.
- Theorem {lit}`construct_spec`: the list of a new pool.
-/

namespace TinyNet

open Library.LinkedList
open Library.MachineInt

/-- The data members of {lit}`class Pool<T>`, the {lit}`next` of each element, and the
number of elements created. -/
structure Pool where
  next : Nat → Option Nat
  head : Option Nat
  tail : Option Nat
  grow : Int
  created : Nat

namespace Pool

/-- One round of the loop of {lit}`inflate`. -/
def inflateRound (p : Pool) : Pool :=
  match p.tail with
  | none => p
  | some pTmp =>
      { p with
        next := Function.update (Function.update p.next p.created none) pTmp (some p.created)
        tail := some p.created
        created := p.created + 1 }

/-- The given number of rounds. -/
def inflateRounds : Nat → Pool → Pool
  | 0, p => p
  | k + 1, p => inflateRounds k p.inflateRound

/-- {lit}`inflate(m_grow)`.  A negative {lit}`m_grow` is converted to a size that the
counter, an {lit}`int`, does not reach before it overflows. -/
def inflate (p : Pool) : Option Pool :=
  if 0 ≤ p.grow then some (inflateRounds p.grow.toNat p) else none

/-- A pool with the one element that the constructor creates, before it calls
{lit}`inflate`. -/
def single (grow : Int) : Pool where
  next _ := none
  head := some 0
  tail := some 0
  grow := grow
  created := 1

/-- {lit}`Pool(size, grow)`; {lit}`m_grow` is an {lit}`int`. -/
def construct (grow : Nat) : Option Pool :=
  (single (toI32 grow)).inflate

/-- {lit}`acquire()`; no result if its assertion fails. -/
def acquire (p : Pool) : Option (Pool × Nat) :=
  match p.head with
  | none => none
  | some pItem =>
      match p.next pItem with
      | none => ({ p with head := none }.inflate).map fun p => (p, pItem)
      | some next => some ({ p with head := some next }, pItem)

/-- {lit}`release(pElem)`; no result if its assertion fails. -/
def release (p : Pool) (pElem : Nat) : Option Pool :=
  match p.tail with
  | none => none
  | some tail =>
      some
        { p with
          next := Function.update (Function.update p.next tail (some pElem)) pElem none
          tail := some pElem }

/-! ## Inflating -/

/-- {lit}`inflate` never gives {lit}`m_head` a value. -/
theorem inflateRounds_head (k : Nat) (p : Pool) : (inflateRounds k p).head = p.head := by
  induction k generalizing p with
  | zero => rfl
  | succ k ih =>
      rw [inflateRounds, ih, inflateRound]
      split <;> rfl

theorem inflate_head {p p' : Pool} (h : p.inflate = some p') : p'.head = p.head := by
  rw [inflate, Option.ite_none_right_eq_some] at h
  obtain rfl := Option.some.inj h.2
  exact inflateRounds_head _ p

/-- The chain from {lit}`m_head` is a list that ends at {lit}`m_tail`. -/
structure Linked (p : Pool) (l : List Nat) (t : Nat) : Prop where
  chain : Chain p.next p.head (l ++ [t])
  tail : p.tail = some t

/-- A round links one new element behind the last. -/
theorem inflateRound_chain {p : Pool} {l : List Nat} {t : Nat} (h : p.Linked l t)
    (hlt : ∀ e ∈ l ++ [t], e < p.created) :
    p.inflateRound.Linked (l ++ [t]) p.created ∧ p.inflateRound.created = p.created + 1 ∧
      p.inflateRound.grow = p.grow := by
  have hround : p.inflateRound =
      { p with
        next := Function.update (Function.update p.next p.created none) t (some p.created)
        tail := some p.created
        created := p.created + 1 } := by
    rw [inflateRound, h.tail]
  have htail : t < p.created := hlt t (by simp)
  have hnodup := List.nodup_append'.mp h.chain.nodup
  have hchain : Chain (Function.update (Function.update p.next p.created none) t
      (some p.created)) p.head (l ++ [t, p.created]) := by
    apply h.chain.concat
    · rw [Function.update_self]
    · rw [Function.update_of_ne (by omega), Function.update_self]
    · intro e he
      have helt : e < p.created := hlt e (List.mem_append_left _ he)
      have hne : e ≠ t := by
        rintro rfl
        exact hnodup.2.2 he (by simp)
      rw [Function.update_of_ne hne, Function.update_of_ne (by omega)]
  rw [hround]
  refine ⟨⟨?_, rfl⟩, rfl, rfl⟩
  rw [List.append_assoc]
  exact hchain

/-- On a list that is not empty, {lit}`inflate` appends the new elements. -/
theorem inflateRounds_chain (k : Nat) {p : Pool} {l : List Nat} {t : Nat} (h : p.Linked l t)
    (hlt : ∀ e ∈ l ++ [t], e < p.created) :
    ∃ l' t', (inflateRounds k p).Linked l' t' ∧
      l' ++ [t'] = l ++ [t] ++ (List.range k).map (p.created + ·) ∧
      (inflateRounds k p).created = p.created + k ∧ (inflateRounds k p).grow = p.grow := by
  induction k generalizing p l t with
  | zero => exact ⟨l, t, h, by simp, rfl, rfl⟩
  | succ k ih =>
      rcases inflateRound_chain h hlt with ⟨hlinked, hcreated, hgrow⟩
      have hlt' : ∀ e ∈ l ++ [t] ++ [p.created], e < p.inflateRound.created := by
        intro e he
        rw [hcreated]
        rcases List.mem_append.mp he with he | he
        · exact Nat.lt_succ_of_lt (hlt e he)
        · rw [List.mem_singleton.mp he]
          exact Nat.lt_succ_self _
      rcases ih hlinked hlt' with ⟨l', t', hlinked', heq, hcreated', hgrow'⟩
      refine ⟨l', t', hlinked', ?_, ?_, ?_⟩
      · rw [heq, hcreated, List.range_succ_eq_map]
        simp [Nat.add_assoc, Nat.add_comm 1]
      · rw [inflateRounds, hcreated', hcreated]
        omega
      · rw [inflateRounds, hgrow', hgrow]

/-- A new pool has one element more than it grows by, all of them in its list. -/
theorem construct_spec {grow : Nat} (h : 0 ≤ toI32 grow) :
    ∃ p l t, construct grow = some p ∧ p.Linked l t ∧ l ++ [t] = List.range p.created ∧
      (p.created : Int) = toI32 grow + 1 ∧ p.grow = toI32 grow := by
  have hsingle : (single (toI32 grow)).Linked [] 0 := ⟨.cons .nil, rfl⟩
  rcases inflateRounds_chain (toI32 grow).toNat hsingle (by simp [single]) with
    ⟨l, t, hlinked, heq, hcreated, hgrow⟩
  refine ⟨_, l, t, ?_, hlinked, ?_, ?_, hgrow⟩
  · rw [construct, inflate, if_pos]
    · rfl
    · exact h
  · rw [heq, hcreated]
    have hone : (single (toI32 grow)).created = 1 := rfl
    rw [hone, List.range_add]
    rfl
  · rw [hcreated]
    show ((1 + (toI32 grow).toNat : Nat) : Int) = toI32 grow + 1
    omega

end Pool
end TinyNet
