/-
**Counting over a list.**

The sum of a count over the things of a list, as things are added and changed.

* `tally_set`: a thing that is changed changes the sum by as much as its own count;
* `tally_modify`: by nothing, if its count stays;
* `tally_eq_zero`: where no count is negative, the sum is 0 exactly if every count is.
-/

import Mathlib.Algebra.Order.BigOperators.Group.List
import Mathlib.Algebra.Order.Ring.Int

namespace Tally

variable {α : Type*} {f : α → Int} {list : List α}

/-- The sum of a count. -/
def tally (f : α → Int) (list : List α) : Int := (list.map f).sum

@[simp] theorem tally_nil : tally f [] = 0 := rfl

@[simp] theorem tally_cons (a : α) : tally f (a :: list) = f a + tally f list := by
  simp [tally]

@[simp] theorem tally_append (more : List α) : tally f (list ++ more) = tally f list + tally f more := by
  simp [tally]

/-- **One thing changed.** -/
theorem tally_set {place : Nat} {before after : α} (found : list[place]? = some before) :
    tally f (list.set place after) = tally f list - f before + f after := by
  induction list generalizing place with
  | nil => simp at found
  | cons a list ih =>
    cases place with
    | zero =>
      cases found
      rw [List.set_cons_zero, tally_cons, tally_cons]
      omega
    | succ place =>
      rw [List.set_cons_succ, tally_cons, tally_cons, ih (by simpa using found)]
      omega

/-- One thing changed, but not what it counts. -/
theorem tally_modify {g : α → α} (same : ∀ a, f (g a) = f a) (place : Nat) :
    tally f (list.modify place g) = tally f list := by
  induction list generalizing place with
  | nil => cases place <;> rfl
  | cons a list ih =>
    cases place with
    | zero => simp [same]
    | succ place => simp [ih]

theorem tally_nonneg (positive : ∀ a, 0 ≤ f a) : 0 ≤ tally f list := by
  induction list with
  | nil => exact Int.le_refl 0
  | cons a list ih =>
    have first := positive a
    rw [tally_cons]
    omega

/-- **Nothing is counted** exactly if no thing counts. -/
theorem tally_eq_zero (positive : ∀ a, 0 ≤ f a) : tally f list = 0 ↔ ∀ a ∈ list, f a = 0 := by
  induction list with
  | nil => simp
  | cons a list ih =>
    have first := positive a
    have rest : 0 ≤ tally f list := tally_nonneg positive
    rw [tally_cons, List.forall_mem_cons, ← ih]
    omega

end Tally
