import Mathlib

/-!
# Linear memory as a list of cells

Half-open ranges of a block of cells (`slice`), copying a block over a range
(`overwrite`) and resizing the block (`resize`), stated through the
decomposition `front ++ data ++ tail`: every range is the middle part of such
a decomposition (`exists_split`), and reading or overwriting the middle part
leaves the other two alone.
-/

namespace Ham.Lib

variable {α : Type*}

/-- The cells of the half-open range `[first, last)`. -/
def slice (mem : List α) (first last : Nat) : List α := (mem.drop first).take (last - first)

/-- `data` copied over the cells from `pos` on. -/
def overwrite (mem : List α) (pos : Nat) (data : List α) : List α :=
  mem.take pos ++ data ++ mem.drop (pos + data.length)

/-- The block cut or filled up to `n` cells. -/
def resize (fill : α) (mem : List α) (n : Nat) : List α :=
  mem.take n ++ List.replicate (n - mem.length) fill

theorem length_slice {mem : List α} {first last : Nat} (h : last ≤ mem.length) :
    (slice mem first last).length = last - first := by
  simp only [slice, List.length_take, List.length_drop]
  omega

/-- A valid range is the middle part of a decomposition of the block. -/
theorem exists_split {mem : List α} {first last : Nat} (hle : first ≤ last)
    (hlast : last ≤ mem.length) :
    ∃ front tail, mem = front ++ slice mem first last ++ tail ∧ front.length = first := by
  refine ⟨mem.take first, mem.drop last, ?_, by simp; omega⟩
  have hlast' : mem.drop last = (mem.drop first).drop (last - first) := by
    rw [List.drop_drop]
    congr 1
    omega
  rw [slice, hlast', List.append_assoc, List.take_append_drop, List.take_append_drop]

/-- Reading the middle part. -/
theorem slice_middle (front data tail : List α) :
    slice (front ++ data ++ tail) front.length (front.length + data.length) = data := by
  simp [slice]

/-- Overwriting the middle part by a block of its own size. -/
theorem overwrite_middle (front tail : List α) {old data : List α}
    (h : old.length = data.length) :
    overwrite (front ++ old ++ tail) front.length data = front ++ data ++ tail := by
  have htail : (front ++ old ++ tail).drop (front.length + data.length) = tail := by
    rw [← h, ← List.length_append, List.drop_left]
  rw [overwrite, htail]
  simp

/-- A growing resize keeps the cells and adds filler behind them. -/
theorem resize_of_le (fill : α) {mem : List α} {n : Nat} (h : mem.length ≤ n) :
    resize fill mem n = mem ++ List.replicate (n - mem.length) fill := by
  rw [resize, List.take_of_length_le h]

end Ham.Lib
