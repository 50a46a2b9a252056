import Mathlib.Tactic

/-!
# Circular buffers

A circular buffer of {lit}`n + 1` cells is described by the index of the next cell
to read and the index of the next cell to write.  One cell stays unused, so equal
indices mean an empty buffer and a write index just behind the read index means a
full one.

Main results:

- Theorem {lit}`contents_next_write`: advancing the write index appends the cell it
  passes.
- Theorem {lit}`contents_next_read`: advancing the read index drops the cell it
  passes.
- Theorem {lit}`contents_update_write`: the cell at the write index is not part of
  the contents.
- Theorems {lit}`window_inj` and {lit}`exists_window`: of unbounded positions that share the
  cells round by round, the last ones have one cell each, and every cell.
-/

namespace Library
namespace RingBuffer

universe u

variable {α : Type u} {n : Nat}

/-- The index after {lit}`i`, going round at the end. -/
def next (i : Fin (n + 1)) : Fin (n + 1) :=
  if h : i.val + 1 = n + 1 then 0 else ⟨i.val + 1, by omega⟩

/-- The index {lit}`k` cells after {lit}`i`. -/
def slot (i : Fin (n + 1)) (k : Nat) : Fin (n + 1) :=
  ⟨(i.val + k) % (n + 1), Nat.mod_lt _ (by omega)⟩

/-- The number of cells from the read index up to the write index. -/
def count (r w : Fin (n + 1)) : Nat :=
  if r.val ≤ w.val then w.val - r.val else w.val + (n + 1) - r.val

/-- The cells from the read index up to the write index, oldest first. -/
def contents (cells : Fin (n + 1) → α) (r w : Fin (n + 1)) : List α :=
  (List.range (count r w)).map fun k => cells (slot r k)

/-! ## Indices -/

theorem val_next (i : Fin (n + 1)) :
    (next i).val = if i.val + 1 = n + 1 then 0 else i.val + 1 := by
  unfold next
  split <;> simp_all

theorem next_injective : Function.Injective (next : Fin (n + 1) → Fin (n + 1)) := by
  intro i j h
  have hval : (next i).val = (next j).val := by rw [h]
  have hi := i.isLt
  have hj := j.isLt
  rw [val_next, val_next] at hval
  apply Fin.ext
  split at hval <;> split at hval <;> omega

theorem count_le (r w : Fin (n + 1)) : count r w ≤ n := by
  have hr := r.isLt
  have hw := w.isLt
  unfold count
  split <;> omega

theorem count_eq_zero_iff (r w : Fin (n + 1)) : count r w = 0 ↔ r = w := by
  have hr := r.isLt
  have hw := w.isLt
  rw [Fin.ext_iff]
  unfold count
  split <;> omega

/-- The buffer is full when the write index is just behind the read index. -/
theorem count_eq_iff_full (r w : Fin (n + 1)) : count r w = n ↔ next w = r := by
  have hr := r.isLt
  have hw := w.isLt
  rw [Fin.ext_iff, val_next]
  unfold count
  split <;> split <;> omega

theorem count_next_write {r w : Fin (n + 1)} (h : next w ≠ r) :
    count r (next w) = count r w + 1 := by
  have hr := r.isLt
  have hw := w.isLt
  have hne : (next w).val ≠ r.val := fun heq => h (Fin.ext heq)
  unfold count
  rw [val_next] at hne ⊢
  split_ifs at hne ⊢ <;> omega

theorem count_next_read {r w : Fin (n + 1)} (h : r ≠ w) :
    count r w = count (next r) w + 1 := by
  have hr := r.isLt
  have hw := w.isLt
  have hne : r.val ≠ w.val := fun heq => h (Fin.ext heq)
  unfold count
  rw [val_next]
  split_ifs <;> omega

@[simp]
theorem slot_zero (i : Fin (n + 1)) : slot i 0 = i := by
  apply Fin.ext
  simp [slot, Nat.mod_eq_of_lt i.isLt]

theorem slot_succ (i : Fin (n + 1)) (k : Nat) : slot i (k + 1) = slot (next i) k := by
  have hi := i.isLt
  apply Fin.ext
  simp only [slot, val_next]
  split
  · rw [show i.val + (k + 1) = (0 + k) + (n + 1) by omega, Nat.add_mod_right]
  · rw [show i.val + (k + 1) = i.val + 1 + k by omega]

/-- The write index is as far behind the read index as there are cells between. -/
theorem slot_count (r w : Fin (n + 1)) : slot r (count r w) = w := by
  have hr := r.isLt
  have hw := w.isLt
  apply Fin.ext
  simp only [slot, count]
  split
  · rw [show r.val + (w.val - r.val) = w.val by omega, Nat.mod_eq_of_lt hw]
  · rw [show r.val + (w.val + (n + 1) - r.val) = w.val + (n + 1) by omega,
      Nat.add_mod_right, Nat.mod_eq_of_lt hw]

/-- Cells before the write index are different from the one at it. -/
theorem slot_ne_write {r w : Fin (n + 1)} {k : Nat} (hk : k < count r w) :
    slot r k ≠ w := by
  have hr := r.isLt
  have hw := w.isLt
  intro heq
  have hval : (r.val + k) % (n + 1) = w.val := congrArg Fin.val heq
  unfold count at hk
  by_cases hlt : r.val + k < n + 1
  · rw [Nat.mod_eq_of_lt hlt] at hval
    split at hk <;> omega
  · rw [Nat.mod_eq_sub_mod (by omega), Nat.mod_eq_of_lt (by split at hk <;> omega)] at hval
    split at hk <;> omega

/-! ## Contents -/

@[simp]
theorem length_contents (cells : Fin (n + 1) → α) (r w : Fin (n + 1)) :
    (contents cells r w).length = count r w := by
  simp [contents]

theorem contents_eq_nil_iff (cells : Fin (n + 1) → α) (r w : Fin (n + 1)) :
    contents cells r w = [] ↔ r = w := by
  rw [← List.length_eq_zero_iff, length_contents, count_eq_zero_iff]

/-- Advancing the write index of a buffer that is not full appends a cell. -/
theorem contents_next_write (cells : Fin (n + 1) → α) {r w : Fin (n + 1)}
    (h : next w ≠ r) : contents cells r (next w) = contents cells r w ++ [cells w] := by
  rw [contents, contents, count_next_write h, List.range_succ, List.map_append,
    List.map_singleton, slot_count]

/-- Advancing the read index of a buffer that is not empty drops a cell. -/
theorem contents_next_read (cells : Fin (n + 1) → α) {r w : Fin (n + 1)} (h : r ≠ w) :
    contents cells r w = cells r :: contents cells (next r) w := by
  rw [contents, contents, count_next_read h, List.range_succ_eq_map, List.map_cons,
    List.map_map, slot_zero]
  simp [Function.comp_def, slot_succ]

/-- The cell at the write index can be overwritten. -/
theorem contents_update_write (cells : Fin (n + 1) → α) (r w : Fin (n + 1)) (x : α) :
    contents (Function.update cells w x) r w = contents cells r w := by
  apply List.map_congr_left
  intro k hk
  exact Function.update_of_ne (slot_ne_write (List.mem_range.mp hk)) x cells

/-! ## Unbounded positions -/

/-- Positions less than a round apart have different cells. -/
theorem mod_ne {m p q : Nat} (hlt : p < q) (hnear : q < p + m) : p % m ≠ q % m := by
  intro heq
  have hdvd : m ∣ q - p := (Nat.modEq_iff_dvd' hlt.le).mp heq
  have hle := Nat.le_of_dvd (by omega) hdvd
  omega

/-- Among the last {lit}`m` positions, different ones have different cells. -/
theorem window_inj {m stop p q : Nat} (hp : p < stop) (hpm : stop ≤ p + m) (hq : q < stop)
    (hqm : stop ≤ q + m) (hpq : p % m = q % m) : p = q := by
  rcases Nat.lt_trichotomy p q with hlt | heq | hgt
  · exact absurd hpq (mod_ne hlt (by omega))
  · exact heq
  · exact absurd hpq.symm (mod_ne hgt (by omega))

/-- Every cell that was used has a position among the last {lit}`m`. -/
theorem exists_window {m stop p : Nat} (hm : 0 < m) (hp : p < stop) :
    ∃ q, p ≤ q ∧ q < stop ∧ stop ≤ q + m ∧ q % m = p % m := by
  by_cases hnear : stop ≤ p + m
  · exact ⟨p, le_rfl, hp, hnear, rfl⟩
  · have hlater : p + m < stop := by omega
    rcases exists_window hm hlater with ⟨q, hle, hlt, hwindow, hmod⟩
    exact ⟨q, by omega, hlt, hwindow, by rw [hmod, Nat.add_mod_right]⟩
termination_by stop - p

end RingBuffer
end Library
