import Mathlib.Tactic

/-!
# Fixed-size buffers

A buffer is a block of cells whose number never changes.  Reading, writing and
moving a range are partial: they have no result when the range leaves the
buffer, so that a program which only runs successfully has stayed in bounds.

Main results:

- Theorem {lit}`range_append`: adjacent ranges concatenate.
- Theorems {lit}`write_range_self`, {lit}`write_range_of_le` and
  {lit}`write_range_of_ge`: what a write puts into its own range and what it
  leaves alone.
- Theorems {lit}`write_behind` and {lit}`move_to_front`: a window of cells grows by the
  data written behind it, and keeps its contents when it is moved to the front.
- Theorem {lit}`write_restore`: a write can be undone.
- Theorem {lit}`move_range_self`: an overlapping move carries the old contents of
  the source range to the destination range.
-/

namespace Library
namespace FixedBuffer

universe u

/-- A block of exactly {lit}`n` cells. -/
@[ext]
structure Buf (α : Type u) (n : Nat) where
  cells : List α
  length_cells : cells.length = n
deriving DecidableEq

namespace Buf

variable {α : Type u} {n : Nat}

/-- A block of equal cells. -/
def replicate (n : Nat) (x : α) : Buf α n :=
  ⟨List.replicate n x, List.length_replicate⟩

/-- The contents of the cells with index from {lit}`lo` up to {lit}`hi`, exclusive. -/
def range (b : Buf α n) (lo hi : Int) : List α :=
  (b.cells.drop lo.toNat).take (hi - lo).toNat

/-- Read {lit}`len` cells from {lit}`src` on; no result outside the buffer. -/
def read (b : Buf α n) (src len : Int) : Option (List α) :=
  if 0 ≤ src ∧ 0 ≤ len ∧ src + len ≤ n then some (b.range src (src + len)) else none

/-- Overwrite the cells from {lit}`dst` on; no result outside the buffer. -/
def write (b : Buf α n) (dst : Int) (data : List α) : Option (Buf α n) :=
  if h : 0 ≤ dst ∧ dst + data.length ≤ n then
    some
      { cells := b.cells.take dst.toNat ++ data ++ b.cells.drop (dst.toNat + data.length)
        length_cells := by
          have hlen := b.length_cells
          simp only [List.length_append, List.length_take, List.length_drop]
          omega }
  else none

/-- Copy {lit}`len` cells from {lit}`src` to {lit}`dst`; the ranges may overlap. -/
def move (b : Buf α n) (dst src len : Int) : Option (Buf α n) :=
  (b.read src len).bind (b.write dst)

/-! ## Ranges -/

/-- An in-bounds range has as many cells as its indices span. -/
theorem length_range {b : Buf α n} {lo hi : Int} (hlo : 0 ≤ lo) (hle : lo ≤ hi)
    (hhi : hi ≤ n) : (b.range lo hi).length = (hi - lo).toNat := by
  have hlen := b.length_cells
  simp only [range, List.length_take, List.length_drop]
  omega

/-- A range whose end is not after its start is empty. -/
@[simp]
theorem range_self (b : Buf α n) (lo : Int) : b.range lo lo = [] := by
  simp [range]

/-- Cell lookup inside a range. -/
theorem getElem?_range (b : Buf α n) (lo hi : Int) (k : Nat) :
    (b.range lo hi)[k]? = if lo + k < hi then b.cells[lo.toNat + k]? else none := by
  simp only [range, List.getElem?_take, List.getElem?_drop]
  have hiff : k < (hi - lo).toNat ↔ lo + k < hi := by omega
  simp only [hiff]

/-- Adjacent ranges concatenate to the range they cover. -/
theorem range_append (b : Buf α n) {lo mid hi : Int} (hlo : 0 ≤ lo) (hmid : lo ≤ mid)
    (hhi : mid ≤ hi) : b.range lo mid ++ b.range mid hi = b.range lo hi := by
  have hdrop : b.cells.drop mid.toNat =
      (b.cells.drop lo.toNat).drop (mid - lo).toNat := by
    rw [List.drop_drop]
    congr 1
    omega
  have hsplit : (hi - lo).toNat = (mid - lo).toNat + (hi - mid).toNat := by
    omega
  rw [range, range, range, hdrop, hsplit, List.take_add]

/-- A prefix of a range is a range. -/
theorem take_range (b : Buf α n) {lo hi : Int} {k : Nat} (hk : lo + k ≤ hi) :
    (b.range lo hi).take k = b.range lo (lo + k) := by
  simp only [range, List.take_take]
  congr 1
  omega

/-- Dropping a prefix of a range leaves a range. -/
theorem drop_range (b : Buf α n) {lo hi : Int} {k : Nat} (hlo : 0 ≤ lo) :
    (b.range lo hi).drop k = b.range (lo + k) hi := by
  simp only [range, List.drop_take, List.drop_drop]
  have hsub : (hi - lo).toNat - k = (hi - (lo + k)).toNat := by omega
  have hadd : lo.toNat + k = (lo + k).toNat := by omega
  rw [hsub, hadd]

/-! ## Reading -/

/-- A read inside the buffer returns the range. -/
theorem read_eq_some {b : Buf α n} {src len : Int} (hsrc : 0 ≤ src) (hlen : 0 ≤ len)
    (hle : src + len ≤ n) : b.read src len = some (b.range src (src + len)) := by
  simp [read, hsrc, hlen, hle]

/-! ## Writing -/

/-- A write inside the buffer succeeds. -/
theorem write_isSome (b : Buf α n) (dst : Int) (data : List α) (hdst : 0 ≤ dst)
    (hle : dst + data.length ≤ n) : ∃ b', b.write dst data = some b' := by
  exact ⟨_, dif_pos ⟨hdst, hle⟩⟩

/-- A successful write was in bounds. -/
theorem write_bounds {b b' : Buf α n} {dst : Int} {data : List α}
    (h : b.write dst data = some b') : 0 ≤ dst ∧ dst + data.length ≤ n := by
  unfold write at h
  split at h
  · assumption
  · contradiction

/-- The cells after a write, index by index. -/
theorem getElem?_write {b b' : Buf α n} {dst : Int} {data : List α}
    (h : b.write dst data = some b') (i : Nat) :
    b'.cells[i]? =
      if i < dst.toNat then b.cells[i]?
      else if i < dst.toNat + data.length then data[i - dst.toNat]?
      else b.cells[i]? := by
  have hb := write_bounds h
  have hlen := b.length_cells
  rw [write, dif_pos hb] at h
  obtain rfl := Option.some.inj h
  have htake : (b.cells.take dst.toNat).length = dst.toNat := by
    rw [List.length_take]
    omega
  simp only [List.append_assoc, List.getElem?_append, htake, List.getElem?_drop]
  split
  · rename_i hi
    rw [List.getElem?_take, if_pos hi]
  · rename_i hi
    split
    · rename_i hdata
      rw [if_pos (by omega)]
    · rename_i hdata
      rw [if_neg (by omega)]
      congr 1
      omega

/-- A write puts its data into the range it covers. -/
theorem write_range_self {b b' : Buf α n} {dst : Int} {data : List α}
    (h : b.write dst data = some b') : b'.range dst (dst + data.length) = data := by
  have hb := write_bounds h
  apply List.ext_getElem?
  intro k
  rw [getElem?_range b', getElem?_write h]
  by_cases hk : k < data.length
  · rw [if_pos (by omega), if_neg (by omega), if_pos (by omega)]
    congr 1
    omega
  · rw [if_neg (by omega), List.getElem?_eq_none (by omega)]

/-- A write leaves every range before it alone. -/
theorem write_range_of_le {b b' : Buf α n} {dst lo hi : Int} {data : List α}
    (h : b.write dst data = some b') (hlo : 0 ≤ lo) (hhi : hi ≤ dst) :
    b'.range lo hi = b.range lo hi := by
  apply List.ext_getElem?
  intro k
  rw [getElem?_range b', getElem?_range b, getElem?_write h]
  by_cases hk : lo + k < hi
  · rw [if_pos hk, if_pos hk, if_pos (by omega)]
  · rw [if_neg hk, if_neg hk]

/-- A write leaves every range after it alone. -/
theorem write_range_of_ge {b b' : Buf α n} {dst lo hi : Int} {data : List α}
    (h : b.write dst data = some b') (hlo : dst + data.length ≤ lo) :
    b'.range lo hi = b.range lo hi := by
  have hb := write_bounds h
  apply List.ext_getElem?
  intro k
  rw [getElem?_range b', getElem?_range b, getElem?_write h]
  by_cases hk : lo + k < hi
  · rw [if_pos hk, if_pos hk, if_neg (by omega), if_neg (by omega)]
  · rw [if_neg hk, if_neg hk]

/-- A write leaves every range alone that it does not meet. -/
theorem write_range_of_disjoint {b b' : Buf α n} {dst lo hi : Int} {data : List α}
    (h : b.write dst data = some b') (hlo : 0 ≤ lo)
    (hdisjoint : hi ≤ dst ∨ dst + data.length ≤ lo) : b'.range lo hi = b.range lo hi := by
  rcases hdisjoint with hbefore | hafter
  · exact write_range_of_le h hlo hbefore
  · exact write_range_of_ge h hafter

/-- A write of one cell can be read back. -/
theorem write_singleton_cell {b b' : Buf α n} {dst : Int} {x : α}
    (h : b.write dst [x] = some b') : b'.cells[dst.toNat]? = some x := by
  rw [getElem?_write h]
  simp

/-- Data written right behind a range extends the range by the data. -/
theorem write_behind (b : Buf α n) {lo hi : Int} (data : List α) (hlo : 0 ≤ lo) (hle : lo ≤ hi)
    (hfit : hi + data.length ≤ n) :
    ∃ b', b.write hi data = some b' ∧ b'.range lo (hi + data.length) = b.range lo hi ++ data := by
  rcases write_isSome b hi data (by omega) hfit with ⟨b', hb'⟩
  refine ⟨b', hb', ?_⟩
  rw [← b'.range_append hlo hle (by omega), write_range_self hb',
    write_range_of_le hb' hlo le_rfl]

/-- Writing back what a write has covered restores the buffer. -/
theorem write_restore {b b' : Buf α n} {dst : Int} {data : List α}
    (h : b.write dst data = some b') :
    b'.write dst (b.range dst (dst + data.length)) = some b := by
  have hb := write_bounds h
  have hlen := length_range (b := b) hb.1 (by omega) hb.2
  rcases write_isSome b' dst (b.range dst (dst + data.length)) hb.1 (by omega) with
    ⟨b'', hb''⟩
  have hcells : b''.cells = b.cells := by
    apply List.ext_getElem?
    intro i
    rw [getElem?_write hb'', getElem?_write h, getElem?_range, hlen]
    by_cases hbefore : i < dst.toNat
    · rw [if_pos hbefore, if_pos hbefore]
    · by_cases hinside : i < dst.toNat + data.length
      · rw [if_neg hbefore, if_pos (by omega), if_pos (by omega)]
        congr 1
        omega
      · rw [if_neg hbefore, if_neg (by omega), if_neg hbefore, if_neg hinside]
  rw [hb'']
  cases b''
  cases b
  simp_all

/-! ## Moving -/

/-- A move inside the buffer succeeds. -/
theorem move_isSome (b : Buf α n) (dst src len : Int) (hdst : 0 ≤ dst)
    (hsrc : 0 ≤ src) (hlen : 0 ≤ len) (hdstLe : dst + len ≤ n) (hsrcLe : src + len ≤ n) :
    ∃ b', b.move dst src len = some b' := by
  rw [move, read_eq_some hsrc hlen hsrcLe]
  apply write_isSome _ _ _ hdst
  rw [length_range hsrc (by omega) hsrcLe]
  omega

/-- A move puts the old source range into the destination range. -/
theorem move_range_self {b b' : Buf α n} {dst src len : Int}
    (h : b.move dst src len = some b') :
    b'.range dst (dst + len) = b.range src (src + len) := by
  unfold move read at h
  split at h
  · rename_i hb
    have hself := write_range_self h
    rw [length_range hb.1 (by omega) hb.2.2] at hself
    rwa [show ((src + len - src).toNat : Int) = len by omega] at hself
  · contradiction

/-- A range that is moved to the front is found there. -/
theorem move_to_front (b : Buf α n) {lo hi : Int} (hlo : 0 ≤ lo) (hle : lo ≤ hi) (hhi : hi ≤ n) :
    ∃ b', b.move 0 lo (hi - lo) = some b' ∧ b'.range 0 (hi - lo) = b.range lo hi := by
  rcases move_isSome b 0 lo (hi - lo) le_rfl hlo (by omega) (by omega) (by omega) with ⟨b', hb'⟩
  have hself := move_range_self hb'
  rw [zero_add, show lo + (hi - lo) = hi by omega] at hself
  exact ⟨b', hb', hself⟩

/-- A move leaves every range alone that its destination does not meet. -/
theorem move_range_of_disjoint {b b' : Buf α n} {dst src len lo hi : Int}
    (h : b.move dst src len = some b') (hlo : 0 ≤ lo)
    (hdisjoint : hi ≤ dst ∨ dst + len ≤ lo) : b'.range lo hi = b.range lo hi := by
  unfold move read at h
  split at h
  · rename_i hb
    apply write_range_of_disjoint h hlo
    rw [length_range hb.1 (by omega) hb.2.2]
    omega
  · contradiction

end Buf
end FixedBuffer
end Library
