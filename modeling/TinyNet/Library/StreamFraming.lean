import Mathlib.Tactic

/-!
# Framing a stream into packets

A framing function looks at the bytes at hand and answers how many of them form
the first packet, or zero if no packet is complete.  The greedy parse cuts
packets off the front until no packet is complete.  For a framing function whose
positive answers depend only on the packet itself, parsing a stream piece by
piece is the same as parsing it at once.

Main results:

- Theorem {lit}`greedy_append`: the parse of a concatenation continues from the
  leftover of the first part.
- Theorem {lit}`foldl_feed`: feeding pieces one by one gives the one-shot parse
  of their concatenation.
- Theorem {lit}`greedy_flatten`: a stream of whole packets is parsed into these.
- Theorem {lit}`greedy_leftover_lt`: the leftover is shorter than any length from
  which on a packet is always found.
-/

namespace Library
namespace StreamFraming

universe u

variable {α : Type u}

/-- Cut packets off the front of the data as long as the framing function finds
one; the result is the packets and the leftover. -/
def greedy (cut : List α → Nat) (d : List α) : List (List α) × List α :=
  if 0 < cut d ∧ cut d ≤ d.length then
    (d.take (cut d) :: (greedy cut (d.drop (cut d))).1,
      (greedy cut (d.drop (cut d))).2)
  else ([], d)
termination_by d.length
decreasing_by
  all_goals
    rw [List.length_drop]
    omega

/-- A framing function never claims more than it is given, and a positive answer
depends only on the bytes of the packet found. -/
structure PrefixStable (cut : List α → Nat) : Prop where
  le_length : ∀ d, cut d ≤ d.length
  stable : ∀ d x, 0 < cut d → cut (d.take (cut d) ++ x) = cut d

/-- The data is one packet, no more and no less. -/
def WholePacket (cut : List α → Nat) (d : List α) : Prop :=
  0 < d.length ∧ cut d = d.length

/-- Parse one more piece of a stream after the packets and leftover so far. -/
def feed (cut : List α → Nat) (st : List (List α) × List α) (piece : List α) :
    List (List α) × List α :=
  (st.1 ++ (greedy cut (st.2 ++ piece)).1, (greedy cut (st.2 ++ piece)).2)

/-- The positions that are reached by cutting complete packets off the front. -/
inductive Boundary (cut : List α → Nat) (d : List α) : Nat → Prop
  | start : Boundary cut d 0
  | next {p : Nat} (h : Boundary cut d p) (hpos : 0 < cut (d.drop p))
      (hle : p + cut (d.drop p) ≤ d.length) : Boundary cut d (p + cut (d.drop p))

/-- The parse when a packet is found. -/
theorem greedy_of_pos {cut : List α → Nat} {d : List α} (hpos : 0 < cut d)
    (hle : cut d ≤ d.length) :
    greedy cut d =
      (d.take (cut d) :: (greedy cut (d.drop (cut d))).1,
        (greedy cut (d.drop (cut d))).2) := by
  rw [greedy, if_pos ⟨hpos, hle⟩]

/-- The parse when no packet is found. -/
theorem greedy_of_zero {cut : List α → Nat} {d : List α} (hzero : cut d = 0) :
    greedy cut d = ([], d) := by
  rw [greedy, if_neg (by omega)]

namespace PrefixStable

variable {cut : List α → Nat}

/-- More data behind a complete packet does not change where it ends. -/
theorem cut_append (h : PrefixStable cut) {d : List α} (hpos : 0 < cut d)
    (x : List α) : cut (d ++ x) = cut d := by
  have hstable := h.stable d (d.drop (cut d) ++ x) hpos
  rwa [← List.append_assoc, List.take_append_drop] at hstable

/-- The parse of a concatenation continues from the leftover of its first part. -/
theorem greedy_append (h : PrefixStable cut) (d e : List α) :
    greedy cut (d ++ e) = feed cut (greedy cut d) e := by
  induction d using greedy.induct cut with
  | case1 d hd ih =>
      rcases hd with ⟨hpos, hle⟩
      have hcut := h.cut_append hpos e
      rw [greedy_of_pos hpos hle, greedy_of_pos (by omega) (h.le_length _), hcut,
        List.take_append_of_le_length hle, List.drop_append_of_le_length hle, ih]
      rfl
  | case2 d hd =>
      have hzero : cut d = 0 := by
        have hle := h.le_length d
        omega
      rw [greedy_of_zero hzero]
      rfl

/-- Feeding the pieces of a stream one by one is the one-shot parse. -/
theorem foldl_feed (h : PrefixStable cut) (d : List α) (pieces : List (List α)) :
    pieces.foldl (feed cut) (greedy cut d) = greedy cut (d ++ pieces.flatten) := by
  induction pieces generalizing d with
  | nil => simp
  | cons piece pieces ih =>
      rw [List.foldl_cons, ← h.greedy_append, ih, List.flatten_cons, List.append_assoc]

/-- The packets found so far stay the first ones when more of the stream arrives. -/
theorem greedy_packets_prefix (h : PrefixStable cut) (d e : List α) :
    (greedy cut d).1 <+: (greedy cut (d ++ e)).1 := by
  rw [h.greedy_append]
  exact List.prefix_append _ _

/-- Nothing is parsed out of an empty stream. -/
theorem greedy_nil (h : PrefixStable cut) : greedy cut ([] : List α) = ([], []) := by
  apply greedy_of_zero
  have hle := h.le_length []
  simpa using hle

/-- A stream made of whole packets is parsed into these packets, with nothing left. -/
theorem greedy_flatten (h : PrefixStable cut) {packets : List (List α)}
    (hwhole : ∀ p ∈ packets, WholePacket cut p) :
    greedy cut packets.flatten = (packets, []) := by
  induction packets with
  | nil => exact h.greedy_nil
  | cons p ps ih =>
      rcases hwhole p List.mem_cons_self with ⟨hpos, hcut⟩
      have hfirst : cut (p ++ ps.flatten) = p.length := by
        rw [h.cut_append (by omega), hcut]
      have hrest := ih fun q hq => hwhole q (List.mem_cons_of_mem p hq)
      rw [List.flatten_cons, greedy_of_pos (by omega) (h.le_length _), hfirst,
        List.take_left, List.drop_left, hrest]

end PrefixStable

/-- No packet is complete in the leftover. -/
theorem cut_greedy_leftover {cut : List α → Nat} (hle : ∀ d, cut d ≤ d.length)
    (d : List α) : cut (greedy cut d).2 = 0 := by
  induction d using greedy.induct cut with
  | case1 d h ih =>
      rw [greedy_of_pos h.1 h.2]
      exact ih
  | case2 d h =>
      have hd := hle d
      rw [greedy, if_neg h]
      show cut d = 0
      omega

/-- If data of some length always holds a packet, the leftover is shorter. -/
theorem greedy_leftover_lt {cut : List α → Nat} {n : Nat}
    (hle : ∀ d, cut d ≤ d.length) (hfull : ∀ d, n ≤ d.length → 0 < cut d)
    (d : List α) : (greedy cut d).2.length < n := by
  by_contra hge
  have hpos := hfull (greedy cut d).2 (by omega)
  have hzero := cut_greedy_leftover hle d
  omega

end StreamFraming
end Library
