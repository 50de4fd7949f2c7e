/-
**Interleavings.**

What several parties do, in the order in which it happens, each step with its party. Nothing is said about
the order between parties.

* `part`: the steps of one party, in order;
* `sum_countP_part`: **what is counted over all steps is counted party by party**.
-/

import Mathlib.Algebra.BigOperators.Group.Finset.Piecewise
import Mathlib.Data.Fintype.BigOperators

namespace Interleaving

variable {κ α : Type*} [DecidableEq κ]

/-- The steps of one party. -/
def part (k : κ) (steps : List (κ × α)) : List α :=
  steps.filterMap fun step => if step.1 = k then some step.2 else none

section Part

variable {k : κ} {steps more : List (κ × α)}

@[simp] theorem part_nil : part k ([] : List (κ × α)) = [] := rfl

@[simp] theorem part_append : part k (steps ++ more) = part k steps ++ part k more :=
  List.filterMap_append

theorem part_cons (step : κ × α) :
    part k (step :: steps) = (if step.1 = k then [step.2] else []) ++ part k steps := by
  by_cases own : step.1 = k <;> simp [part, own]

end Part

variable [Fintype κ]

/-- **What is counted over all steps is counted party by party.** -/
theorem sum_countP_part (p : α → Bool) (steps : List (κ × α)) :
    steps.countP (fun step => p step.2) = ∑ k, (part k steps).countP p := by
  induction steps with
  | nil => simp
  | cons step rest ih =>
    have each : ∀ k, (part k (step :: rest)).countP p =
        (if step.1 = k then (if p step.2 then 1 else 0) else 0) + (part k rest).countP p := by
      intro k
      rw [part_cons, List.countP_append]
      by_cases own : step.1 = k <;> simp [own]
    simp only [each, Finset.sum_add_distrib]
    rw [Finset.sum_ite_eq, if_pos (Finset.mem_univ _), List.countP_cons, ih, Nat.add_comm]

end Interleaving
