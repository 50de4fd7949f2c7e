/-
**Percentiles of the latencies.**

The report sorts the latencies of all threads and intervals and takes those at 101 places.

* `allLatencies_isSort`: what is sorted is a sort of what was recorded, and there is one;
* `Percentiles`: what the values at the places are among the recorded latencies;
* `percentiles_sound`: **they depend on which latencies were recorded, and how often, and on nothing
  else**.
-/

import Apib.Reporting.Latencies

namespace Apib

open Sorting

/-- **The percentiles of latencies**: every index is inside and its value one of the latencies; the values
grow with the percentage, from the smallest latency to the largest; and below the value at `percent` are
at most so many percent of the latencies. -/
structure Percentiles (latencies : List Int) (r : BenchmarkResults) : Prop where
  index : ∀ percent < 100, latencyIndex latencies.length percent < latencies.length
  value : ∀ percent ≤ 100, ∃ latency ∈ latencies, r.rawLatency percent = some latency
  monotone : ∀ p q, p ≤ q → q ≤ 100 → ∀ first second,
    r.rawLatency p = some first → r.rawLatency q = some second → first ≤ second
  minimum : ∀ first, r.rawLatency 0 = some first → ∀ latency ∈ latencies, first ≤ latency
  maximum : ∀ last, r.rawLatency 100 = some last → ∀ latency ∈ latencies, latency ≤ last
  below : ∀ percent < 100, ∀ value, r.rawLatency percent = some value →
    100 * (latencies.countP fun latency => decide (latency < value)) ≤ latencies.length * percent

/-! ### Places -/

/-- The place that a percentage is taken from. -/
def latencyPlace (size percent : Nat) : Nat := if percent = 100 then size - 1 else latencyIndex size percent

theorem latencyIndex_lt {size percent : Nat} (positive : 0 < size) (less : percent < 100) :
    latencyIndex size percent < size :=
  Nat.div_lt_of_lt_mul (by
    rw [Nat.mul_comm]
    exact Nat.mul_lt_mul_of_pos_right less positive)

theorem latencyPlace_lt {size percent : Nat} (positive : 0 < size) (most : percent ≤ 100) :
    latencyPlace size percent < size := by
  unfold latencyPlace
  split
  · omega
  · exact latencyIndex_lt positive (by omega)

theorem latencyPlace_mono {size p q : Nat} (positive : 0 < size) (le : p ≤ q) (most : q ≤ 100) :
    latencyPlace size p ≤ latencyPlace size q := by
  have inside := latencyPlace_lt positive (le.trans most)
  by_cases last : q = 100
  · subst last
    rw [latencyPlace.eq_def size 100, if_pos rfl]
    omega
  · rw [latencyPlace, latencyPlace, if_neg last, if_neg (by omega)]
    exact Nat.div_le_div_right (Nat.mul_le_mul_left size le)

/-- What `getLatencyPercent` reads of latencies. -/
theorem getLatencyPercent_eq {latencies : List Int} (some_latency : latencies ≠ []) (percent : Nat) :
    getLatencyPercent latencies percent = latencies[latencyPlace latencies.length percent]? := by
  rw [getLatencyPercent, if_neg some_latency, latencyPlace]
  split
  · rfl
  · rfl

/-! ### Values -/

/-- The percentiles of what is sorted for a report. -/
theorem percentiles_of_sort {latencies : List Int} {r : BenchmarkResults} (some_latency : latencies ≠ [])
    (sort : IsSort (fun a b => decide (a < b)) latencies r.allLatencies) : Percentiles latencies r := by
  have ordered := sort.le_ordered
  have size := sort.perm.length_eq
  have positive : 0 < latencies.length := List.length_pos_iff.mpr some_latency
  have some_sorted : r.allLatencies ≠ [] := List.length_pos_iff.mp (by omega)
  have inside {percent : Nat} (most : percent ≤ 100) :
      latencyPlace r.allLatencies.length percent < r.allLatencies.length :=
    latencyPlace_lt (by omega) most
  have read (percent : Nat) :
      r.rawLatency percent = r.allLatencies[latencyPlace r.allLatencies.length percent]? :=
    getLatencyPercent_eq some_sorted percent
  refine ⟨fun percent less => latencyIndex_lt positive less, fun percent most => ?_,
    fun p q le most first second first_read second_read => ?_, fun first first_read latency member => ?_,
    fun last last_read latency member => ?_, fun percent less value value_read => ?_⟩
  · rw [read, List.getElem?_eq_getElem (inside most)]
    exact ⟨_, sort.perm.mem_iff.mp (List.getElem_mem _), rfl⟩
  · rw [read] at first_read second_read
    obtain ⟨_, rfl⟩ := List.getElem?_eq_some_iff.mp first_read
    obtain ⟨below, rfl⟩ := List.getElem?_eq_some_iff.mp second_read
    exact getElem_mono ordered (latencyPlace_mono (by omega) le most) below
  · rw [read] at first_read
    obtain ⟨_, rfl⟩ := List.getElem?_eq_some_iff.mp first_read
    obtain ⟨i, below, rfl⟩ := List.mem_iff_getElem.mp (sort.perm.mem_iff.mpr member)
    have lowest : latencyPlace r.allLatencies.length 0 ≤ i := by simp [latencyPlace, latencyIndex]
    exact getElem_mono ordered lowest below
  · rw [read] at last_read
    obtain ⟨here, rfl⟩ := List.getElem?_eq_some_iff.mp last_read
    obtain ⟨i, below, rfl⟩ := List.mem_iff_getElem.mp (sort.perm.mem_iff.mpr member)
    have highest : i ≤ latencyPlace r.allLatencies.length 100 := by
      rw [latencyPlace, if_pos rfl]
      omega
    exact getElem_mono ordered highest here
  · rw [read] at value_read
    obtain ⟨here, rfl⟩ := List.getElem?_eq_some_iff.mp value_read
    have few := countP_lt_getElem_le ordered here
    have place : latencyPlace r.allLatencies.length percent = r.allLatencies.length * percent / 100 := by
      rw [latencyPlace, if_neg (by omega), latencyIndex]
    rw [← sort.perm.countP_eq, ← size]
    omega

namespace Benchmark

variable {n m : Nat}

theorem allLatencies_isSort (b : Benchmark n) (start stop : Int) (ops : List (Op n)) :
    IsSort (fun a b => decide (a < b)) (recorded ops) (b.measure start stop ops).1.allLatencies :=
  ⟨allLatencies_perm b start stop ops, (mergeSort_lt _).ordered⟩

/-- **The percentiles and the average depend on the recorded latencies alone**, however they were spread
over threads and intervals, and the percentiles are what their name says. -/
theorem percentiles_sound (b : Benchmark n) (c : Benchmark m) (start stop start' stop' : Int)
    (ops : List (Op n)) (ops' : List (Op m)) (some_latency : recorded ops ≠ [])
    (perm : (recorded ops).Perm (recorded ops')) :
    Percentiles (recorded ops) (b.measure start stop ops).1 ∧
      (b.measure start stop ops).1.averageLatency = (c.measure start' stop' ops').1.averageLatency ∧
      ∀ percent, (b.measure start stop ops).1.rawLatency percent =
        (c.measure start' stop' ops').1.rawLatency percent := by
  have sort := allLatencies_isSort b start stop ops
  have same := sort.unique lt_strict (allLatencies_isSort c start' stop' ops') perm
  refine ⟨percentiles_of_sort some_latency sort, ?_, fun percent => ?_⟩
  · rw [BenchmarkResults.averageLatency, same]
    rfl
  · rw [BenchmarkResults.rawLatency, same]
    rfl

theorem percentiles_example :
    Percentiles [5, 7, 5] (({} : Benchmark 2).measure 0 20
      [.recordResult 0 200 5, .reportIntervalResults 10, .recordResult 1 404 7, .recordResult 0 200 5]).1 :=
  (percentiles_sound ({} : Benchmark 2) ({} : Benchmark 1) 0 20 0 30
    [.recordResult 0 200 5, .reportIntervalResults 10, .recordResult 1 404 7, .recordResult 0 200 5]
    [.recordResult 0 200 7, .recordResult 0 200 5, .recordResult 0 200 5] (by decide) (by decide)).1

end Benchmark

end Apib
