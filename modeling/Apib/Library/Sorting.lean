/-
**Sorting with a comparison.**

A sort is given a strict comparison and leaves a permutation in which no element stands behind one that
it is before. Nothing else is promised; elements that are not before each other may stand either way.

* `IsSort.unique`: with a strict total order there is one such permutation, and permutations of each
  other have the same.
* `mergeSort_isSort`: merge sort is such a sort.
* `countP_lt_getElem_le`: in a sorted list, no more elements are below the one at a place than stand
  before the place.
-/

import Mathlib.Order.Lattice

namespace Sorting

variable {α : Type} {before : α → α → Bool}

/-- A strict total order. -/
structure StrictTotal (before : α → α → Bool) : Prop where
  asymm : ∀ a b, before a b = true → before b a = false
  trans : ∀ a b c, before a b = true → before b c = true → before a c = true
  connected : ∀ a b, before a b = false → before b a = false → a = b

/-- What a sort of a list leaves. -/
structure IsSort (before : α → α → Bool) (list sorted : List α) : Prop where
  perm : sorted.Perm list
  ordered : sorted.Pairwise fun a b => before b a = false

/-- What is not after the next is not after what comes later. -/
theorem StrictTotal.le_trans (strict : StrictTotal before) (a b c : α) (first : before b a = false)
    (second : before c b = false) : before c a = false := by
  rw [← Bool.not_eq_true]
  intro after
  by_cases same : a = b
  · rw [same, second] at after
    cases after
  · -- a stands before b, so c does
    have less : before a b = true := by
      rw [← Bool.not_eq_false]
      exact fun more => same (strict.connected a b more first)
    rw [strict.trans c a b after less] at second
    cases second

/-- **The sorts of permutations are the same list.** -/
theorem IsSort.unique (strict : StrictTotal before) {list other sorted resorted : List α}
    (first : IsSort before list sorted) (second : IsSort before other resorted) (perm : list.Perm other) :
    sorted = resorted := by
  refine List.Perm.eq_of_pairwise (fun a b _ _ first second => strict.connected a b second first)
    first.ordered second.ordered ?_
  exact (first.perm.trans perm).trans second.perm.symm

theorem mergeSort_isSort (strict : StrictTotal before) (list : List α) :
    IsSort before list (list.mergeSort fun a b => !before b a) := by
  refine ⟨List.mergeSort_perm _ _, ?_⟩
  have ordered : (list.mergeSort fun a b => !before b a).Pairwise fun a b => !before b a :=
    List.pairwise_mergeSort (fun a b c first second => ?_) (fun a b => ?_) list
  · exact ordered.imp fun le => Bool.not_eq_true' _ ▸ le
  · simp only [Bool.not_eq_true'] at first second ⊢
    exact strict.le_trans a b c first second
  · cases less : before b a with
    | false => rfl
    | true => simp [strict.asymm b a less]

/-! ### Sorted lists of a linear order -/

section Ranks

variable [LinearOrder α] {sorted list : List α}

theorem lt_strict : StrictTotal fun a b : α => decide (a < b) where
  asymm a b less := by
    simp only [decide_eq_true_eq, decide_eq_false_iff_not] at less ⊢
    exact lt_asymm less
  trans a b c first second := by
    simp only [decide_eq_true_eq] at first second ⊢
    exact lt_trans first second
  connected a b first second := by
    simp only [decide_eq_false_iff_not, not_lt] at first second
    exact le_antisymm second first

/-- Merge sort without a comparison sorts by `<`. -/
theorem mergeSort_lt (list : List α) : IsSort (fun a b => decide (a < b)) list list.mergeSort := by
  have same : (fun a b : α => decide (a ≤ b)) = fun a b => !decide (b < a) := by
    funext a b
    rw [← decide_not]
    simp only [not_lt]
  have sort := mergeSort_isSort lt_strict list
  rwa [← same] at sort

theorem IsSort.le_ordered (sort : IsSort (fun a b => decide (a < b)) list sorted) :
    sorted.Pairwise (· ≤ ·) :=
  sort.ordered.imp fun {a b} not_below => by simpa using not_below

theorem getElem_mono (ordered : sorted.Pairwise (· ≤ ·)) {i j : Nat} (le : i ≤ j)
    (inside : j < sorted.length) : sorted[i] ≤ sorted[j] := by
  rcases Nat.eq_or_lt_of_le le with rfl | less
  · exact le_refl _
  · exact List.pairwise_iff_getElem.mp ordered i j (by omega) inside less

/-- **No more elements are below the one at a place** than stand before the place. -/
theorem countP_lt_getElem_le (ordered : sorted.Pairwise (· ≤ ·)) {k : Nat} (inside : k < sorted.length) :
    (sorted.countP fun x => decide (x < sorted[k])) ≤ k := by
  have later : ((sorted.drop k).countP fun x => decide (x < sorted[k])) = 0 := by
    refine List.countP_eq_zero.mpr fun x member => ?_
    obtain ⟨i, below, rfl⟩ := List.mem_iff_getElem.mp member
    rw [List.length_drop] at below
    simpa using getElem_mono ordered (Nat.le_add_right k i) (by omega)
  have split : (sorted.take k ++ sorted.drop k).countP (fun x => decide (x < sorted[k])) = _ :=
    List.countP_append
  rw [List.take_append_drop, later] at split
  have most := List.countP_le_length (p := fun x => decide (x < sorted[k])) (l := sorted.take k)
  rw [List.length_take] at most
  omega

end Ranks

end Sorting
