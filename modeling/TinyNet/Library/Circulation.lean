import Mathlib.Data.List.Rotate
import Mathlib.Tactic

/-!
# A word that goes round in a ring

The letters of a word go round in a ring past an observer, who notes each letter that
passes.  What the observer has noted is the word repeated from its beginning, and what is
in the ring is the word turned by the number of letters noted.

Main results:

- Theorem {lit}`Circulates.start`: at first the ring is the word.
- Theorem {lit}`Circulates.turn`: letters that pass the observer go to the end of the
  ring.
-/

namespace Library
namespace Circulation

universe u

variable {α : Type u}

/-- The ring is the word turned by what was seen, and what was seen is the word
repeated. -/
structure Circulates (word seen ring : List α) : Prop where
  ring_eq : ring = word.rotate seen.length
  seen_eq : ∀ i, i < seen.length → seen[i]? = word[i % word.length]?

namespace Circulates

variable {word seen front back : List α}

theorem start (word : List α) : Circulates word [] word :=
  ⟨by simp, by simp⟩

/-- The ring holds every letter of the word. -/
theorem length_eq {ring : List α} (h : Circulates word seen ring) :
    ring.length = word.length := by
  rw [h.ring_eq, List.length_rotate]

/-- The first letters of the ring pass the observer. -/
theorem turn (h : Circulates word seen (front ++ back)) :
    Circulates word (seen ++ front) (back ++ front) := by
  constructor
  · calc back ++ front
        = (front ++ back).rotate front.length := (List.rotate_append_length_eq _ _).symm
      _ = word.rotate (seen ++ front).length := by
          rw [h.ring_eq, List.rotate_rotate, List.length_append]
  · intro i hi
    rcases lt_or_ge i seen.length with hlt | hge
    · rw [List.getElem?_append_left hlt]
      exact h.seen_eq i hlt
    · have hlen := h.length_eq
      rw [List.length_append] at hi hlen
      have hfront : i - seen.length < front.length := by omega
      calc (seen ++ front)[i]?
          = (front ++ back)[i - seen.length]? := by
            rw [List.getElem?_append_right hge, List.getElem?_append_left hfront]
        _ = word[(i - seen.length + seen.length) % word.length]? := by
            rw [h.ring_eq, List.getElem?_rotate (by omega)]
        _ = word[i % word.length]? := by rw [Nat.sub_add_cancel hge]

end Circulates
end Circulation
end Library
