/-
**An output stream buffer with a high-water mark.**

The buffer of an output-only string stream: `put` overwrites from the current position and extends
the data where it runs past the end, `rewind` moves the position back to the start, and the data
read back is everything up to the furthest position ever written. Rewinding therefore does not
forget what lies beyond the next write:

* `data_rewind_puts`: after a rewind and writes `xs`, the data is `xs` followed by what the old data
  had from `xs.length` on;
* `data_rewind_puts_eq_iff`: it is `xs` alone exactly when the old data was no longer than `xs`.
-/

import Mathlib.Data.List.Basic

universe u

/-- The data written so far and the position of the next write, which never lies past the data. -/
structure OutputBuffer (α : Type u) where
  data : List α
  pos : Nat
  pos_le : pos ≤ data.length

namespace OutputBuffer

variable {α : Type u}

/-- A new, empty buffer. -/
def empty : OutputBuffer α := ⟨[], 0, Nat.le_refl 0⟩

/-- Move the position to the start; the data stays. -/
def rewind (buffer : OutputBuffer α) : OutputBuffer α := ⟨buffer.data, 0, Nat.zero_le _⟩

/-- Write `xs` at the position. -/
def put (buffer : OutputBuffer α) (xs : List α) : OutputBuffer α where
  data := buffer.data.take buffer.pos ++ xs ++ buffer.data.drop (buffer.pos + xs.length)
  pos := buffer.pos + xs.length
  pos_le := by
    have := buffer.pos_le
    simp only [List.length_append, List.length_take, List.length_drop]
    omega

/-- Write the pieces one after the other. -/
def puts (buffer : OutputBuffer α) (pieces : List (List α)) : OutputBuffer α :=
  pieces.foldl put buffer

@[simp] theorem rewind_data (buffer : OutputBuffer α) : buffer.rewind.data = buffer.data := rfl

@[simp] theorem rewind_pos (buffer : OutputBuffer α) : buffer.rewind.pos = 0 := rfl

theorem ext {first second : OutputBuffer α} (data : first.data = second.data)
    (pos : first.pos = second.pos) : first = second := by
  cases first
  cases second
  cases data
  cases pos
  rfl

theorem put_nil (buffer : OutputBuffer α) : buffer.put [] = buffer :=
  ext (by simp [put]) rfl

/-- **Two writes are one write.** -/
theorem put_put (buffer : OutputBuffer α) (xs ys : List α) :
    (buffer.put xs).put ys = buffer.put (xs ++ ys) := by
  have inside := buffer.pos_le
  refine ext ?_ (by simp [put, Nat.add_assoc])
  have kept : (buffer.data.take buffer.pos ++ xs).length = buffer.pos + xs.length := by
    simp [List.length_take, Nat.min_eq_left inside]
  simp only [put]
  rw [List.take_left' kept, List.append_assoc (buffer.data.take buffer.pos) xs ys,
    Nat.add_assoc buffer.pos, List.drop_append, kept, List.drop_drop,
    List.drop_eq_nil_of_le (by omega), List.nil_append, List.length_append]
  congr 2
  omega

theorem puts_eq_put (buffer : OutputBuffer α) (pieces : List (List α)) :
    buffer.puts pieces = buffer.put pieces.flatten := by
  induction pieces generalizing buffer with
  | nil => simp [puts, put_nil]
  | cons piece rest ih =>
    show (buffer.put piece).puts rest = _
    rw [ih, put_put, List.flatten_cons]

/-- **What a rewind leaves behind.** -/
theorem data_rewind_puts (buffer : OutputBuffer α) (pieces : List (List α)) :
    (buffer.rewind.puts pieces).data =
      pieces.flatten ++ buffer.data.drop pieces.flatten.length := by
  rw [puts_eq_put]
  simp [put]

theorem data_empty_puts (pieces : List (List α)) :
    ((empty : OutputBuffer α).rewind.puts pieces).data = pieces.flatten := by
  rw [data_rewind_puts]
  simp [empty]

/-- The rewritten data is what was written exactly when nothing longer had been there. -/
theorem data_rewind_puts_eq_iff (buffer : OutputBuffer α) (pieces : List (List α)) :
    (buffer.rewind.puts pieces).data = pieces.flatten ↔
      buffer.data.length ≤ pieces.flatten.length := by
  rw [data_rewind_puts, List.append_right_eq_self, List.drop_eq_nil_iff]

end OutputBuffer
