/-
**The variance of a list.**

The mean square about a point is the variance and the square of the distance of the point to the mean.

* `meanSquare_eq`: so a point other than the mean gives more than the variance, by as much;
* `meanSquare_shift`, `mean_shift`: the list and the point can be moved together.
-/

import Mathlib.Algebra.BigOperators.Group.List.Lemmas
import Mathlib.Algebra.BigOperators.Ring.List
import Mathlib.Algebra.CharZero.Defs
import Mathlib.Algebra.Field.Basic
import Mathlib.Tactic.FieldSimp
import Mathlib.Tactic.Ring

namespace Variance

variable {K : Type} [Field K]

/-- The mean of a list. -/
def mean (xs : List K) : K := xs.sum / xs.length

/-- The mean of the squared distances to a point. -/
def meanSquare (c : K) (xs : List K) : K := (xs.map fun x => (x - c) ^ 2).sum / xs.length

/-- **The variance**: the mean square about the mean. -/
def variance (xs : List K) : K := meanSquare (mean xs) xs

/-- A loop that adds up is a sum. -/
theorem foldl_add {α : Type} (f : α → K) (xs : List α) (start : K) :
    xs.foldl (fun sum x => sum + f x) start = start + (xs.map f).sum := by
  induction xs generalizing start with
  | nil => simp
  | cons x xs ih => rw [List.foldl_cons, ih, List.map_cons, List.sum_cons, add_assoc]

/-- The squared distances to a point, by those to another. -/
theorem sum_square (c a : K) (xs : List K) :
    (xs.map fun x => (x - c) ^ 2).sum =
      (xs.map fun x => (x - a) ^ 2).sum + 2 * (a - c) * (xs.sum - xs.length * a) +
        xs.length * (a - c) ^ 2 := by
  induction xs with
  | nil => simp
  | cons x xs ih =>
    simp only [List.map_cons, List.sum_cons, List.length_cons, Nat.cast_add, Nat.cast_one, ih]
    ring

theorem meanSquare_shift (c d : K) : meanSquare (c + d) (xs.map (· + d)) = meanSquare c xs := by
  have moved : ((xs.map (· + d)).map fun x => (x - (c + d)) ^ 2) = xs.map fun x => (x - c) ^ 2 := by
    rw [List.map_map]
    refine List.map_congr_left fun x _ => ?_
    show (x + d - (c + d)) ^ 2 = (x - c) ^ 2
    ring
  rw [meanSquare, moved, List.length_map, meanSquare]

section NonEmpty

variable [CharZero K] {xs : List K}

/-- **The mean square about a point** is the variance and the square of the distance to the mean. -/
theorem meanSquare_eq (some_value : xs ≠ []) (c : K) :
    meanSquare c xs = variance xs + (mean xs - c) ^ 2 := by
  have positive : (xs.length : K) ≠ 0 := by simpa using some_value
  have centred : xs.sum - xs.length * mean xs = 0 := by
    rw [mean, mul_div_cancel₀ _ positive, sub_self]
  rw [variance, meanSquare, meanSquare, sum_square c (mean xs), centred]
  field_simp
  ring

theorem mean_shift (some_value : xs ≠ []) (d : K) : mean (xs.map (· + d)) = mean xs + d := by
  have positive : (xs.length : K) ≠ 0 := by simpa using some_value
  have shifted : (xs.map (· + d)).sum = xs.sum + xs.length * d := by
    simp [List.sum_map_add]
  rw [mean, mean, shifted, List.length_map]
  field_simp

theorem variance_shift (some_value : xs ≠ []) (d : K) : variance (xs.map (· + d)) = variance xs := by
  rw [variance, mean_shift some_value, meanSquare_shift, variance]

/-- Equal values have no variance. -/
theorem variance_constant {value : K} (some_value : xs ≠ []) (equal : ∀ x ∈ xs, x = value) :
    mean xs = value ∧ variance xs = 0 := by
  have positive : (xs.length : K) ≠ 0 := by simpa using some_value
  have same := List.eq_replicate_of_mem equal
  have centre : mean xs = value := by
    rw [mean, same, List.sum_replicate, List.length_replicate, nsmul_eq_mul]
    field_simp
  refine ⟨centre, ?_⟩
  have none_apart : (xs.map fun x => (x - value) ^ 2).sum = 0 := by
    refine List.sum_eq_zero fun square member => ?_
    obtain ⟨x, here, rfl⟩ := List.mem_map.mp member
    rw [equal x here]
    ring
  rw [variance, centre, meanSquare, none_apart, zero_div]

end NonEmpty

end Variance
