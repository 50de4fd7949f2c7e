/-
**Dealing things out in turn.**

Things numbered from 0 go to `k` places in turn, number `i` to place `i % k`. Each thing weighs `q`, and
the first `r` of them weigh one more.

* `dealt_eq`: the places up to the remainder get one more thing than the others;
* `sum_dealt`: all things are dealt out;
* `weighed_eq`: so the weight at a place is that of its things and of its heavier things;
* `level_iff`: **the weights are level**, within one, exactly if at most one thing's weight is left over.
-/

import Mathlib.Data.Int.CardIntervalMod

namespace Dealing

/-- The number of things that a place gets of the first `count`. -/
def dealt (k count place : Nat) : Nat := count / k + if place < count % k then 1 else 0

/-- The weight that a place gets. -/
def weighed (k count q r place : Nat) : Nat :=
  ((List.range count).map fun i => if i % k = place then q + (if i < r then 1 else 0) else 0).sum

section Dealt

variable {k count place : Nat}

theorem dealt_le (k count place : Nat) : dealt k count place ≤ count / k + 1 := by
  unfold dealt
  split <;> omega

theorem le_dealt (k count place : Nat) : count / k ≤ dealt k count place := Nat.le_add_right _ _

/-- The last place gets no thing that is left over. -/
theorem dealt_last (positive : 0 < k) : dealt k count (k - 1) = count / k := by
  have small := Nat.mod_lt count positive
  rw [dealt, if_neg (by omega)]
  rfl

/-- The first place gets a thing that is left over. -/
theorem dealt_first (uneven : ¬ k ∣ count) : dealt k count 0 = count / k + 1 := by
  have some_left : count % k ≠ 0 := fun zero => uneven (Nat.dvd_of_mod_eq_zero zero)
  rw [dealt, if_pos (by omega)]

theorem dealt_of_dvd (even : k ∣ count) : dealt k count place = count / k := by
  rw [dealt, Nat.mod_eq_zero_of_dvd even, if_neg (Nat.not_lt_zero place)]
  rfl

/-- **The number of things at a place**, counted. -/
theorem dealt_eq (inside : place < k) :
    dealt k count place = ((List.range count).countP fun i => i % k == place) := by
  have positive : 0 < k := by omega
  have counted := Nat.count_modEq_card count positive place
  rw [Nat.mod_eq_of_lt inside] at counted
  rw [dealt, ← counted, Nat.count]
  refine List.countP_congr fun i _ => ?_
  simp [Nat.ModEq, Nat.mod_eq_of_lt inside]

end Dealt

section Weighed

variable {k count q r place : Nat}

theorem sum_indicator (count : Nat) (p : Nat → Bool) (q : Nat) :
    ((List.range count).map fun i => if p i then q else 0).sum = q * (List.range count).countP p := by
  induction count with
  | zero => rfl
  | succ count ih =>
    rw [List.range_succ, List.map_append, List.sum_append, ih, List.countP_append, Nat.mul_add]
    cases p count <;> simp

/-- The first `r` of so many, counted. -/
theorem countP_range_lt {k r : Nat} (fewer : r ≤ k) : ((List.range k).countP fun i => i < r) = r := by
  induction fewer with
  | refl =>
    rw [List.countP_eq_length.mpr fun i member => by simpa using List.mem_range.mp member, List.length_range]
  | step fewer ih =>
    rw [List.range_succ, List.countP_append, ih]
    simpa using fewer

/-- **All things are dealt out.** -/
theorem sum_dealt {k : Nat} (positive : 0 < k) (count : Nat) :
    ((List.range k).map (dealt k count)).sum = count := by
  have small := Nat.mod_lt count positive
  have extra : ((List.range k).map fun place => if place < count % k then 1 else 0).sum = count % k := by
    have counted := sum_indicator k (fun place => place < count % k) 1
    rw [countP_range_lt small.le, Nat.one_mul] at counted
    simpa using counted
  calc ((List.range k).map (dealt k count)).sum
      = ((List.range k).map fun _ => count / k).sum +
          ((List.range k).map fun place => if place < count % k then 1 else 0).sum := List.sum_map_add
    _ = k * (count / k) + count % k := by rw [extra]; simp
    _ = count := Nat.div_add_mod count k

/-- **The weight at a place**, from the things and the heavier things that it gets. -/
theorem weighed_eq (inside : place < k) (fewer : r ≤ count) :
    weighed k count q r place = q * dealt k count place + dealt k r place := by
  have heavier : ((List.range count).map fun i => if i % k == place && i < r then 1 else 0).sum =
      dealt k r place := by
    rw [sum_indicator count (fun i => i % k == place && i < r) 1, Nat.one_mul, dealt_eq inside,
      ← List.countP_filter]
    congr 1
    induction fewer with
    | refl => exact List.filter_eq_self.mpr fun i member => by simpa using List.mem_range.mp member
    | step fewer ih =>
      rw [List.range_succ, List.filter_append, ih]
      simpa using fewer
  rw [dealt_eq inside, ← sum_indicator, ← heavier, weighed, ← List.sum_map_add]
  congr 1
  refine List.map_congr_left fun i _ => ?_
  by_cases here : i % k = place <;> by_cases heavy : i < r <;> simp [here, heavy]

/-- **The weights are level** exactly if at most one thing's weight is left over: the things go up in
whole rounds, or the heavier ones do and a thing weighs no more than 1. -/
theorem level_iff (positive : 0 < k) (some_weight : 0 < q) (fewer : r ≤ count) :
    (∀ a < k, ∀ b < k, weighed k count q r a ≤ weighed k count q r b + 1) ↔
      k ∣ count ∨ q = 1 ∧ k ∣ r := by
  constructor
  · intro level
    by_contra uneven
    obtain ⟨uneven_things, uneven_heavier⟩ := not_or.mp uneven
    have extreme := level 0 positive (k - 1) (by omega)
    rw [weighed_eq positive fewer, weighed_eq (by omega) fewer, dealt_first uneven_things,
      dealt_last positive, dealt_last positive, Nat.mul_add, Nat.mul_one] at extreme
    by_cases even_heavier : k ∣ r
    · rw [dealt_of_dvd even_heavier] at extreme
      exact uneven_heavier ⟨by omega, even_heavier⟩
    · rw [dealt_first even_heavier] at extreme
      omega
  · intro even a inside_a b inside_b
    rw [weighed_eq inside_a fewer, weighed_eq inside_b fewer]
    rcases even with things | ⟨rfl, heavier⟩
    · have most := dealt_le k r a
      have least := le_dealt k r b
      rw [dealt_of_dvd things, dealt_of_dvd things]
      omega
    · have most := dealt_le k count a
      have least := le_dealt k count b
      rw [dealt_of_dvd heavier, dealt_of_dvd heavier]
      omega

end Weighed

end Dealing
