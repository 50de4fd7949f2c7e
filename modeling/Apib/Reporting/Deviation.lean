/-
**The deviation of the latencies.**

`getLatencyStdDev` takes the squared distances to the average, in milliseconds, but the average is
converted to an `unsigned long` first, so the distances are taken to a whole millisecond.

* `latencyVariance_eq`: what the root is taken of is the variance and the square of what the mean is
  above a whole millisecond;
* `deviation_iff`: **it is the variance**, up to the rounding of the mean to nanoseconds, exactly where
  that mean is a whole number of milliseconds; so it is 0 for equal latencies only if they are whole
  milliseconds, and adding to all latencies leaves it alone only if whole milliseconds are added.
-/

import Mathlib.Tactic.Linarith
import Apib.Library.Variance
import Apib.Reporting.Latencies

namespace Apib

open Variance

/-- The latencies can be added up. -/
def Summable (latencies : List Int) : Prop := ∀ k, InInt64 (latencies.take k).sum

/-- The mean in whole nanoseconds. -/
def meanLatency (latencies : List Int) : Int := latencies.sum.tdiv latencies.length

/-- **The variance in milliseconds**, about the mean rounded to nanoseconds. -/
def dueVariance (latencies : List Int) : ℚ :=
  meanSquare (milliseconds (meanLatency latencies)) (latencies.map milliseconds)

/-! ### Adding up -/

theorem accumulate_fits {latencies : List Int} {start : Int}
    (fits : ∀ k, InInt64 (start + (latencies.take k).sum)) :
    accumulate start latencies = some (start + latencies.sum) := by
  induction latencies generalizing start with
  | nil => simp [accumulate]
  | cons l latencies ih =>
    have first : InInt64 (start + l) := by simpa using fits 1
    have later : ∀ k, InInt64 (start + l + (latencies.take k).sum) := by
      intro k
      simpa [add_assoc] using fits (k + 1)
    rw [accumulate, if_pos first, ih later, List.sum_cons, add_assoc]

theorem fits_of_accumulate {latencies : List Int} {start total : Int} (inside : InInt64 start)
    (added : accumulate start latencies = some total) :
    ∀ k, InInt64 (start + (latencies.take k).sum) := by
  induction latencies generalizing start with
  | nil => simpa using inside
  | cons l latencies ih =>
    rw [accumulate] at added
    split at added
    · next first =>
      have later := ih first added
      intro k
      cases k with
      | zero => simpa using inside
      | succ k => simpa [add_assoc] using later k
    · cases added

theorem getAverageLatency_eq {latencies : List Int} (some_latency : latencies ≠ []) :
    (Summable latencies → getAverageLatency latencies = some (meanLatency latencies)) ∧
      (¬ Summable latencies → getAverageLatency latencies = none) := by
  rw [getAverageLatency, if_neg some_latency]
  constructor
  · intro fits
    have added : accumulate 0 latencies = some (0 + latencies.sum) :=
      accumulate_fits fun k => by
        rw [zero_add]
        exact fits k
    rw [added, zero_add]
    rfl
  · intro leaves
    cases added : accumulate 0 latencies with
    | none => rfl
    | some total =>
      have fits := fits_of_accumulate (by decide) added
      exact absurd (fun k => by simpa using fits k) leaves

/-! ### Milliseconds -/

theorem sum_milliseconds (latencies : List Int) :
    (latencies.map milliseconds).sum = milliseconds latencies.sum := by
  induction latencies with
  | nil => simp [milliseconds]
  | cons l latencies ih =>
    rw [List.map_cons, List.sum_cons, ih, List.sum_cons]
    unfold milliseconds
    push_cast
    ring

theorem map_milliseconds_shift (latencies : List Int) (d : Int) :
    (latencies.map (· + d)).map milliseconds = (latencies.map milliseconds).map (· + milliseconds d) := by
  rw [List.map_map, List.map_map]
  refine List.map_congr_left fun l _ => ?_
  show milliseconds (l + d) = milliseconds l + milliseconds d
  unfold milliseconds
  push_cast
  ring

theorem floor_milliseconds (t : Int) : ⌊milliseconds t⌋ = t / 1000000 := by
  have floor := Rat.floor_intCast_div_natCast t 1000000
  push_cast at floor
  exact floor

theorem mean_milliseconds (latencies : List Int) :
    mean (latencies.map milliseconds) = latencies.sum / (latencies.length * 1000000 : Nat) := by
  rw [mean, sum_milliseconds, List.length_map, milliseconds]
  push_cast
  rw [div_div, mul_comm]

theorem meanLatency_eq {latencies : List Int} (positive : 0 ≤ latencies.sum) :
    meanLatency latencies = latencies.sum / latencies.length := Int.tdiv_eq_ediv_of_nonneg positive

/-- The mean in milliseconds, and the one that is rounded to nanoseconds, have the same whole part. -/
theorem floor_mean {latencies : List Int} (positive : 0 ≤ latencies.sum) :
    ⌊mean (latencies.map milliseconds)⌋ = meanLatency latencies / 1000000 := by
  rw [mean_milliseconds, Rat.floor_intCast_div_natCast, meanLatency_eq positive,
    Int.ediv_ediv_of_nonneg (Int.natCast_nonneg _)]
  push_cast
  rfl

/-- A sum below zero has a mean that is not above. -/
theorem meanLatency_nonpos {latencies : List Int} (negative : latencies.sum ≤ 0) :
    meanLatency latencies ≤ 0 := by
  have opposite : 0 ≤ (-latencies.sum).tdiv latencies.length :=
    Int.tdiv_nonneg (by omega) (Int.natCast_nonneg _)
  rw [Int.neg_tdiv] at opposite
  unfold meanLatency
  omega

theorem meanLatency_lt {latencies : List Int} (fits : Summable latencies) :
    meanLatency latencies < 2 ^ 63 := by
  rcases le_total 0 latencies.sum with positive | negative
  · have total := fits latencies.length
    rw [List.take_length] at total
    have smaller : meanLatency latencies ≤ latencies.sum := Int.tdiv_le_self _ positive
    exact lt_of_le_of_lt smaller total.2
  · have below := meanLatency_nonpos negative
    omega

/-- The whole number of milliseconds that the distances are taken to. -/
theorem toUnsignedLong_milliseconds {t : Int} (above : -1000000 < t) (inside : t < 2 ^ 63) :
    toUnsignedLong (milliseconds t) = some (t / 1000000).toNat := by
  have low : -1 < milliseconds t := by
    have cast : (-1000000 : ℚ) < t := by exact_mod_cast above
    unfold milliseconds
    linarith
  have high : milliseconds t < 2 ^ 64 := by
    have cast : (t : ℚ) < 2 ^ 63 := by exact_mod_cast inside
    unfold milliseconds
    linarith
  rw [toUnsignedLong, if_pos ⟨low, high⟩, floor_milliseconds]

theorem toUnsignedLong_negative {t : Int} (below : t ≤ -1000000) : toUnsignedLong (milliseconds t) = none := by
  refine if_neg fun inside => ?_
  have cast : (t : ℚ) ≤ -1000000 := by exact_mod_cast below
  have low := inside.1
  unfold milliseconds at low
  linarith

/-- What the root is taken of. -/
theorem latencyVariance_eq {latencies : List Int} (some_latency : latencies ≠ [])
    (fits : Summable latencies) :
    latencyVariance latencies = (toUnsignedLong (milliseconds (meanLatency latencies))).map fun avg : Nat =>
      variance (latencies.map milliseconds) + (mean (latencies.map milliseconds) - (avg : ℚ)) ^ 2 := by
  have some_mapped : latencies.map milliseconds ≠ [] := by simpa using some_latency
  rw [latencyVariance, if_neg some_latency, (getAverageLatency_eq some_latency).1 fits, Option.bind_some]
  congr 1
  funext avg
  rw [← meanSquare_eq some_mapped, meanSquare, foldl_add, zero_add, List.map_map, List.length_map]
  rfl

/-- Latencies that are not negative in all are held against the whole part of their mean. -/
theorem latencyVariance_positive {latencies : List Int} (some_latency : latencies ≠ [])
    (fits : Summable latencies) (positive : 0 ≤ latencies.sum) :
    latencyVariance latencies =
      some (variance (latencies.map milliseconds) + Int.fract (mean (latencies.map milliseconds)) ^ 2) := by
  have mean_positive : 0 ≤ meanLatency latencies := by
    rw [meanLatency_eq positive]
    exact Int.ediv_nonneg positive (Int.natCast_nonneg _)
  have whole : ((meanLatency latencies / 1000000).toNat : ℚ) = ⌊mean (latencies.map milliseconds)⌋ := by
    rw [floor_mean positive]
    exact_mod_cast Int.toNat_of_nonneg (by omega)
  rw [latencyVariance_eq some_latency fits,
    toUnsignedLong_milliseconds (by omega) (meanLatency_lt fits), Option.map_some, whole, Int.fract]

theorem dueVariance_eq {latencies : List Int} (some_latency : latencies ≠ []) :
    dueVariance latencies = variance (latencies.map milliseconds) +
      (mean (latencies.map milliseconds) - milliseconds (meanLatency latencies)) ^ 2 :=
  meanSquare_eq (by simpa using some_latency) _

/-! ### When it is the variance -/

theorem whole_iff (t : Int) : milliseconds t = ⌊milliseconds t⌋ ↔ 1000000 ∣ t := by
  rw [floor_milliseconds, milliseconds, div_eq_iff (by norm_num)]
  constructor
  · intro same
    have exact_product : t = t / 1000000 * 1000000 := by exact_mod_cast same
    exact ⟨t / 1000000, by omega⟩
  · intro whole
    exact_mod_cast (Int.ediv_mul_cancel whole).symm

/-- What rounding the mean leaves over. -/
theorem mean_apart {latencies : List Int} (some_latency : latencies ≠ []) :
    mean (latencies.map milliseconds) - milliseconds (meanLatency latencies) =
      (latencies.sum.tmod latencies.length : Int) / (latencies.length * 1000000) := by
  have size : (latencies.length : ℚ) ≠ 0 := by simpa using some_latency
  have division := congrArg (Int.cast : Int → ℚ) (Int.mul_tdiv_add_tmod latencies.sum latencies.length)
  rw [Int.cast_add, Int.cast_mul, Int.cast_natCast, ← meanLatency] at division
  rw [mean_milliseconds, milliseconds, ← division, Nat.cast_mul]
  field_simp
  push_cast
  ring

/-- The mean is rounded towards zero. -/
theorem rounded_mean {latencies : List Int} (some_latency : latencies ≠ []) :
    (0 ≤ latencies.sum → milliseconds (meanLatency latencies) ≤ mean (latencies.map milliseconds)) ∧
      (latencies.sum ≤ 0 → mean (latencies.map milliseconds) ≤ milliseconds (meanLatency latencies)) := by
  have apart := mean_apart some_latency
  have divisor : (0 : ℚ) ≤ latencies.length * 1000000 := by positivity
  constructor
  · intro positive
    have rest : (0 : ℚ) ≤ (latencies.sum.tmod latencies.length : Int) := by
      exact_mod_cast Int.tmod_nonneg latencies.length positive
    have grown := div_nonneg rest divisor
    linarith
  · intro negative
    have opposite := Int.tmod_nonneg latencies.length (show 0 ≤ -latencies.sum by omega)
    rw [Int.neg_tmod] at opposite
    have rest : ((latencies.sum.tmod latencies.length : Int) : ℚ) ≤ 0 := by
      exact_mod_cast Int.nonpos_of_neg_nonneg opposite
    have shrunk := div_nonpos_of_nonpos_of_nonneg rest divisor
    linarith

theorem deviation_positive {latencies : List Int} (some_latency : latencies ≠ []) (fits : Summable latencies)
    (positive : 0 ≤ latencies.sum) :
    latencyVariance latencies = some (dueVariance latencies) ↔ 1000000 ∣ meanLatency latencies := by
  have floors : ⌊mean (latencies.map milliseconds)⌋ = ⌊milliseconds (meanLatency latencies)⌋ := by
    rw [floor_mean positive, floor_milliseconds]
  have rounded := (rounded_mean some_latency).1 positive
  have floor_le : (⌊milliseconds (meanLatency latencies)⌋ : ℚ) ≤ milliseconds (meanLatency latencies) :=
    Int.floor_le _
  rw [latencyVariance_positive some_latency fits positive, dueVariance_eq some_latency, Option.some_inj,
    add_right_inj, Int.fract, floors, sq_eq_sq₀ (by linarith) (by linarith), sub_right_inj, ← whole_iff,
    eq_comm]

/-- A mean below zero is not converted as it is, if at all. -/
theorem deviation_negative {latencies : List Int} (some_latency : latencies ≠ []) (fits : Summable latencies)
    (negative : meanLatency latencies < 0) : latencyVariance latencies ≠ some (dueVariance latencies) := by
  intro same
  rw [latencyVariance_eq some_latency fits] at same
  by_cases below : meanLatency latencies ≤ -1000000
  · rw [toUnsignedLong_negative below] at same
    cases same
  · rw [toUnsignedLong_milliseconds (by omega) (meanLatency_lt fits), Option.map_some,
      Int.toNat_of_nonpos (by omega), Option.some_inj, dueVariance_eq some_latency, add_right_inj] at same
    have rounded := (rounded_mean some_latency).2 (by
      rcases le_total latencies.sum 0 with down | up
      · exact down
      · have quotient := meanLatency_eq up
        have sign := Int.ediv_nonneg up (Int.natCast_nonneg latencies.length)
        omega)
    have cast : ((meanLatency latencies : Int) : ℚ) < 0 := by exact_mod_cast negative
    have rounded_negative : milliseconds (meanLatency latencies) < 0 := div_neg_of_neg_of_pos cast (by norm_num)
    push_cast at same
    nlinarith

/-- Sums that leave the range give no deviation. -/
theorem latencyVariance_none {latencies : List Int} (some_latency : latencies ≠ [])
    (leaves : ¬ Summable latencies) : latencyVariance latencies = none := by
  rw [latencyVariance, if_neg some_latency, (getAverageLatency_eq some_latency).2 leaves]
  rfl

theorem variance_due_iff {latencies : List Int} (some_latency : latencies ≠ []) :
    latencyVariance latencies = some (dueVariance latencies) ↔
      Summable latencies ∧ 0 ≤ meanLatency latencies ∧ 1000000 ∣ meanLatency latencies := by
  by_cases fits : Summable latencies
  · rcases le_or_gt 0 latencies.sum with positive | negative
    · have mean_positive : 0 ≤ meanLatency latencies := by
        rw [meanLatency_eq positive]
        exact Int.ediv_nonneg positive (Int.natCast_nonneg _)
      rw [deviation_positive some_latency fits positive]
      exact ⟨fun whole => ⟨fits, mean_positive, whole⟩, fun due => due.2.2⟩
    · rcases lt_or_eq_of_le (meanLatency_nonpos negative.le) with below | zero
      · exact iff_of_false (deviation_negative some_latency fits below) fun due => by omega
      · refine iff_of_true ?_ ⟨fits, zero.ge, zero ▸ dvd_zero _⟩
        rw [latencyVariance_eq some_latency fits, dueVariance_eq some_latency, zero,
          toUnsignedLong_milliseconds (by omega) (by omega)]
        simp [milliseconds]
  · rw [latencyVariance_none some_latency fits]
    exact iff_of_false (fun same => by cases same) fun due => fits due.1

/-- The variance about the rounded mean is less than a square nanosecond above the variance. -/
theorem dueVariance_near {latencies : List Int} (some_latency : latencies ≠ []) :
    variance (latencies.map milliseconds) ≤ dueVariance latencies ∧
      dueVariance latencies < variance (latencies.map milliseconds) + milliseconds 1 ^ 2 := by
  have size : (0 : Int) < latencies.length := by exact_mod_cast List.length_pos_iff.mpr some_latency
  have size_cast : (0 : ℚ) < latencies.length := by exact_mod_cast size
  have above : ((latencies.sum.tmod latencies.length : Int) : ℚ) < latencies.length := by
    exact_mod_cast Int.tmod_lt_of_pos latencies.sum size
  have below : -(latencies.length : ℚ) < (latencies.sum.tmod latencies.length : Int) := by
    exact_mod_cast Int.lt_tmod_of_pos latencies.sum size
  have nanosecond : milliseconds 1 = latencies.length / (latencies.length * 1000000) := by
    rw [milliseconds]
    field_simp
    norm_num
  rw [dueVariance_eq some_latency, mean_apart some_latency, nanosecond]
  refine ⟨le_add_of_nonneg_right (sq_nonneg _), add_lt_add_right (sq_lt_sq' ?_ ?_) _⟩
  · rw [← neg_div]
    exact div_lt_div_of_pos_right below (by positivity)
  · exact div_lt_div_of_pos_right above (by positivity)

/-- Equal latencies have their value as the mean, and no variance. -/
theorem dueVariance_constant {latencies : List Int} (some_latency : latencies ≠ []) {value : Int}
    (equal : ∀ l ∈ latencies, l = value) : meanLatency latencies = value ∧ dueVariance latencies = 0 := by
  have size : 0 < latencies.length := List.length_pos_iff.mpr some_latency
  have same := List.eq_replicate_of_mem equal
  have centre : meanLatency latencies = value := by
    rw [meanLatency, same, List.sum_replicate, List.length_replicate, nsmul_eq_mul]
    exact Int.mul_tdiv_cancel_left _ (by omega)
  have some_mapped : latencies.map milliseconds ≠ [] := by simpa using some_latency
  have mapped_equal : ∀ x ∈ latencies.map milliseconds, x = milliseconds value := by
    intro x member
    obtain ⟨l, here, rfl⟩ := List.mem_map.mp member
    rw [equal l here]
  obtain ⟨mapped_mean, mapped_variance⟩ := variance_constant some_mapped mapped_equal
  refine ⟨centre, ?_⟩
  rw [dueVariance_eq some_latency, mapped_mean, mapped_variance, centre]
  ring

theorem shift_iff {latencies : List Int} (some_latency : latencies ≠ []) (d : Int)
    (fits : Summable latencies) (shifted_fits : Summable (latencies.map (· + d)))
    (positive : 0 ≤ latencies.sum) (shifted_positive : 0 ≤ (latencies.map (· + d)).sum) :
    latencyVariance (latencies.map (· + d)) = latencyVariance latencies ↔ 1000000 ∣ d := by
  have some_mapped : latencies.map milliseconds ≠ [] := by simpa using some_latency
  rw [latencyVariance_positive some_latency fits positive,
    latencyVariance_positive (by simpa using some_latency) shifted_fits shifted_positive,
    map_milliseconds_shift, variance_shift some_mapped, mean_shift some_mapped, Option.some_inj,
    add_right_inj, sq_eq_sq₀ (Int.fract_nonneg _) (Int.fract_nonneg _), Int.fract_eq_fract, ← whole_iff]
  constructor
  · rintro ⟨z, moved⟩
    have integer : milliseconds d = z := by linarith
    rw [integer, Int.floor_intCast]
  · intro integer
    exact ⟨_, by rw [← integer]; ring⟩

/-- **The deviation is that of the latencies**, up to the rounding of the mean, exactly where their mean
in nanoseconds is a whole number of milliseconds; equal latencies have none, and adding to all leaves it
alone, for whole milliseconds. -/
theorem deviation_iff (latencies : List Int) (some_latency : latencies ≠ []) :
    (latencyVariance latencies = some (dueVariance latencies) ↔
      Summable latencies ∧ 0 ≤ meanLatency latencies ∧ 1000000 ∣ meanLatency latencies) ∧
    (variance (latencies.map milliseconds) ≤ dueVariance latencies ∧
      dueVariance latencies < variance (latencies.map milliseconds) + milliseconds 1 ^ 2) ∧
    (∀ value, (∀ l ∈ latencies, l = value) →
      (latencyVariance latencies = some 0 ↔ Summable latencies ∧ 0 ≤ value ∧ 1000000 ∣ value)) ∧
    ∀ d, Summable latencies → Summable (latencies.map (· + d)) → 0 ≤ latencies.sum →
      0 ≤ (latencies.map (· + d)).sum →
        (latencyVariance (latencies.map (· + d)) = latencyVariance latencies ↔ 1000000 ∣ d) := by
  refine ⟨variance_due_iff some_latency, dueVariance_near some_latency, fun value equal => ?_,
    fun d => shift_iff some_latency d⟩
  obtain ⟨centre, none_due⟩ := dueVariance_constant some_latency equal
  rw [← centre, ← none_due]
  exact variance_due_iff some_latency

/-- Two latencies with a mean of two milliseconds. -/
theorem deviation_example : latencyVariance [1000000, 3000000] = some (dueVariance [1000000, 3000000]) := by
  refine ((deviation_iff [1000000, 3000000] (by decide)).1).mpr ⟨fun k => ?_, by decide, by decide⟩
  match k with
  | 0 => decide
  | 1 => decide
  | k + 2 =>
    rw [List.take_of_length_le (by simp)]
    decide

/-- **Half a millisecond, always, has a deviation.** -/
theorem half_millisecond : latencyVariance [500000, 500000] ≠ some (dueVariance [500000, 500000]) ∧
    latencyVariance [500000, 500000] = some (1 / 4) := by
  refine ⟨fun same => ?_, by decide +kernel⟩
  obtain ⟨-, -, whole⟩ := (variance_due_iff (by decide)).mp same
  revert whole
  decide

end Apib
