import Mathlib.Tactic

/-!
# Fixed-width integer conversions

C programs mix signed and unsigned 32-bit integers in one comparison.  This file
gives the two conversions as functions on mathematical integers, together with
the range conditions under which a conversion is the identity.  It also gives the sums and
signed differences of unsigned words, for programs that count in a word and compare counts
by the sign of their difference.

Main results:

- Theorems {lit}`toU32_of_range` and {lit}`toI32_of_range`: a value inside the
  target range is not changed by the conversion.
- Theorem {lit}`toU32_add_of_range`: an unsigned sum is exact when the
  mathematical sum is in range.
- Theorems {lit}`word_add_of_lt` and {lit}`word_dif_of_lt`: sums and differences of words
  are exact as long as nothing reaches half the range.
-/

namespace Library
namespace MachineInt

/-- The value of an integer after conversion to a 32-bit unsigned type. -/
def toU32 (z : Int) : Int :=
  z % 4294967296

/-- The value of an integer after conversion to a 32-bit signed type. -/
def toI32 (z : Int) : Int :=
  (z + 2147483648) % 4294967296 - 2147483648

/-- Conversion to unsigned keeps a value that is already in the unsigned range. -/
theorem toU32_of_range {z : Int} (hlo : 0 ≤ z) (hhi : z < 4294967296) :
    toU32 z = z := by
  unfold toU32
  omega

/-- Conversion to signed keeps a value that is already in the signed range. -/
theorem toI32_of_range {z : Int} (hlo : -2147483648 ≤ z) (hhi : z < 2147483648) :
    toI32 z = z := by
  unfold toI32
  omega

/-- A sum of two nonnegative signed values never wraps as an unsigned sum. -/
theorem toU32_add_of_range {x y : Int} (hx : 0 ≤ x) (hxhi : x < 2147483648)
    (hy : 0 ≤ y) (hyhi : y < 2147483648) :
    toU32 (x + y) = x + y :=
  toU32_of_range (by omega) (by omega)

/-- The length of a buffer given as an {lit}`int` template argument: positive and
representable as a 32-bit signed integer. -/
structure BufferSize where
  val : Nat
  one_le : 1 ≤ val
  lt_int : val < 2147483648
deriving DecidableEq

/-- A size of four, for small runs. -/
def four : BufferSize := ⟨4, by decide, by decide⟩

/-! ## Words -/

/-- How a program adds to a count and compares two counts. -/
structure Arithmetic where
  add : Nat → Nat → Nat
  dif : Nat → Nat → Int

/-- Counts in an unsigned word of {lit}`w` bits, compared by the signed difference: both wrap
around. -/
def Arithmetic.word (w : Nat) : Arithmetic where
  add a b := (a + b) % 2 ^ w
  dif a b := ((a : Int) - b).bmod (2 ^ w)

/-- Counts without a bound. -/
def Arithmetic.unbounded : Arithmetic where
  add a b := a + b
  dif a b := a - b

@[simp]
theorem unbounded_add (a b : Nat) : Arithmetic.unbounded.add a b = a + b :=
  rfl

@[simp]
theorem unbounded_dif (a b : Nat) : Arithmetic.unbounded.dif a b = a - b :=
  rfl

theorem word_add_of_lt {w a b : Nat} (h : a + b < 2 ^ w) :
    (Arithmetic.word w).add a b = Arithmetic.unbounded.add a b :=
  Nat.mod_eq_of_lt h

theorem word_dif_of_lt {w a b : Nat} (ha : 2 * a < 2 ^ w) (hb : 2 * b < 2 ^ w) :
    (Arithmetic.word w).dif a b = Arithmetic.unbounded.dif a b := by
  refine Int.bmod_eq_of_le ?_ ?_ <;> omega

end MachineInt
end Library
