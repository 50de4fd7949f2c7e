/-
**A list read through a bounded buffer.**

A buffer is filled, the segments in it are taken, and what is unfinished is moved to its start before it
is filled again. The buffer's contents after each filling are the `windows` of the list. Where a window
holds no separator there is no room for more, and the reading ends.

* `segments_length`: a segment and its separator fit into the list;
* `windows_segments`: **the segments of the windows are those before the first that does not fit** into
  a window with its separator.
-/

import Apib.Library.Segments
import Mathlib.Data.List.TakeWhile

namespace Windows

open Segments

variable {α : Type*} {isSep : α → Bool} {size : Nat}

/-- What the buffer holds after each filling. -/
def windows (isSep : α → Bool) (size : Nat) (items : List α) : List (List α) :=
  let kept := (unfinished isSep (items.take size)).length
  if size < items.length ∧ kept < size then
    items.take size :: windows isSep size (items.drop (size - kept))
  else [items.take size]
termination_by items.length
decreasing_by
  rw [List.length_drop]
  omega

/-- There is always a first window. -/
theorem windows_eq (items : List α) :
    windows isSep size items = items.take size ::
      if size < items.length ∧ (unfinished isSep (items.take size)).length < size then
        windows isSep size (items.drop (size - (unfinished isSep (items.take size)).length))
      else [] := by
  rw [windows]
  split <;> rfl

theorem windows_nil : windows isSep size [] = [[]] := by
  rw [windows_eq, if_neg (by simp), List.take_nil]

/-- The segments before the first that does not fit. -/
def fitting (isSep : α → Bool) (size : Nat) (items : List α) : List (List α) :=
  (segments isSep items).takeWhile fun run => run.length < size

/-- **What a window leaves unfinished is the start of the next one.** -/
theorem drop_kept {items : List α} (full : size ≤ items.length) :
    items.drop (size - (unfinished isSep (items.take size)).length) =
      unfinished isSep (items.take size) ++ items.drop size := by
  obtain ⟨before, whole⟩ := @unfinished_suffix _ isSep (items.take size)
  have length : size - (unfinished isSep (items.take size)).length = before.length := by
    have total := congrArg List.length whole
    rw [List.length_append, List.length_take] at total
    omega
  have parts : items = before ++ (unfinished isSep (items.take size) ++ items.drop size) := by
    rw [← List.append_assoc, whole, List.take_append_drop]
  rw [length]
  conv => lhs; rw [parts]
  exact List.drop_left

/-- A segment and its separator fit into the list. -/
theorem segments_length {run : List α} {items : List α} (member : run ∈ segments isSep items) :
    run.length < items.length := by
  induction items using List.reverseRecOn with
  | nil => simp [segments] at member
  | append_singleton items last ih =>
    rw [segments_append, List.mem_append] at member
    rw [List.length_append, List.length_singleton]
    rcases member with early | late
    · exact Nat.lt_succ_of_lt (ih early)
    · have free := @unfinished_free _ isSep items
      have within := (@unfinished_suffix _ isSep items).length_le
      by_cases sep : isSep last = true
      · rw [segments_run free sep []] at late
        have same : run = unfinished isSep items := by
          split at late
          · simp [segments] at late
          · simpa [segments] using late
        rw [same]
        omega
      · have free' : ∀ item ∈ unfinished isSep items ++ [last], isSep item = false := by
          intro item member
          rcases List.mem_append.mp member with old | new
          · exact free item old
          · rw [List.mem_singleton.mp new]
            simpa using sep
        rw [segments_of_free free'] at late
        cases late

/-- After a run without separators, the first segment is at least as long. -/
theorem fitting_of_free {run : List α} (free : ∀ item ∈ run, isSep item = false)
    (large : size ≤ run.length) (rest : List α) : fitting isSep size (run ++ rest) = [] := by
  have first_long : ∀ first others, first.length ≥ size →
      (first :: others : List (List α)).takeWhile (fun run => run.length < size) = [] := by
    intro first others long
    rw [List.takeWhile_cons_of_neg]
    simpa using long
  unfold fitting
  rcases @cases_run _ isSep rest with free' | ⟨more, seps, later, rfl, free', cuts, some_sep, _⟩
  · have all_free : ∀ item ∈ run ++ rest, isSep item = false := by
      intro item member
      exact (List.mem_append.mp member).elim (free item) (free' item)
    rw [segments_of_free all_free, List.takeWhile_nil]
  · obtain ⟨sep, seps, rfl⟩ := List.exists_cons_of_ne_nil some_sep
    have all_free : ∀ item ∈ run ++ more, isSep item = false := by
      intro item member
      exact (List.mem_append.mp member).elim (free item) (free' item)
    rw [List.cons_append, ← List.append_assoc, segments_run all_free (cuts sep (by simp))]
    split
    · next empty =>
      have none_fits : size = 0 := by
        rw [List.append_eq_nil_iff] at empty
        rw [empty.1] at large
        exact Nat.le_zero.mp large
      rw [List.nil_append]
      cases segments isSep (seps ++ later) with
      | nil => rfl
      | cons first others => exact first_long first others (by omega)
    · exact first_long _ _ (by rw [List.length_append]; omega)

/-- The segments of a list no longer than the buffer all fit. -/
theorem fits_of_length {items : List α} (short : items.length ≤ size) :
    ∀ run ∈ segments isSep items, (decide (run.length < size)) = true :=
  fun _ member => decide_eq_true (Nat.lt_of_lt_of_le (segments_length member) short)

/-- **The segments of the windows** are those before the first that does not fit. -/
theorem windows_segments (items : List α) :
    (windows isSep size items).flatMap (segments isSep) = fitting isSep size items := by
  induction items using windows.induct isSep size with
  | case1 items kept more ih =>
    have full : (items.take size).length = size := by
      rw [List.length_take]
      omega
    have next := @drop_kept _ isSep _ _ (Nat.le_of_lt more.1)
    have whole : segments isSep items = segments isSep (items.take size) ++
        segments isSep (items.drop (size - kept)) := by
      rw [next, ← segments_append, List.take_append_drop]
    rw [windows, if_pos more, List.flatMap_cons, ih, fitting, fitting, whole,
      List.takeWhile_append_of_pos (fits_of_length (Nat.le_of_eq full))]
  | case2 items kept last =>
    rw [windows, if_neg last, List.flatMap_cons, List.flatMap_nil, List.append_nil]
    by_cases short : items.length ≤ size
    · rw [List.take_of_length_le short, fitting, List.takeWhile_eq_self_iff.mpr (fits_of_length short)]
    · -- the window has no separator
      have unfinished_all : unfinished isSep (items.take size) = items.take size := by
        apply (@unfinished_suffix _ isSep (items.take size)).eq_of_length_le
        rw [List.length_take]
        omega
      have free : ∀ item ∈ items.take size, isSep item = false :=
        unfinished_all ▸ @unfinished_free _ isSep (items.take size)
      have large : size ≤ (items.take size).length := by
        rw [List.length_take]
        omega
      have none_fits := fitting_of_free free large (items.drop size)
      rw [List.take_append_drop] at none_fits
      rw [none_fits, segments_of_free free]

end Windows
