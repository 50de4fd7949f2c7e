/-
**What is reported of the latencies.**

`apib_reporting.cc`, the average, the percentiles and the deviation, and `Milliseconds` of
`apib_time.cc`. A `double` is a rational number and arithmetic on it is exact; what the code converts to
an integer is cut off. Adding up latencies that leave the range of `int64_t` on the way is undefined, and
so is a conversion to a type that the number does not fit in; then there is no result.

* `allLatencies_perm`: what is sorted for the report is what was recorded.
-/

import Mathlib.Algebra.Order.Floor.Ring
import Mathlib.Data.Rat.Floor
import Apib.Library.Sorting
import Apib.Reporting.Conservation

namespace Apib

/-- The numbers of type `int64_t`. -/
def InInt64 (n : Int) : Prop := -2 ^ 63 ≤ n ∧ n < 2 ^ 63

instance (n : Int) : Decidable (InInt64 n) := inferInstanceAs (Decidable (_ ∧ _))

/-- The call `std::accumulate` from a sum on. -/
def accumulate (sum : Int) : List Int → Option Int
  | [] => some sum
  | l :: rest => if InInt64 (sum + l) then accumulate (sum + l) rest else none

/-- The function `Milliseconds`. -/
def milliseconds (t : Int) : ℚ := t / 1000000

/-- The conversion of a `double` to `unsigned long`. -/
def toUnsignedLong (d : ℚ) : Option Nat := if -1 < d ∧ d < 2 ^ 64 then some ⌊d⌋.toNat else none

/-- The index into `latencies` in `getLatencyPercent`. -/
def latencyIndex (size percent : Nat) : Nat := size * percent / 100

/-- The function `getLatencyPercent`; no result where the index is out of bounds. -/
def getLatencyPercent (latencies : List Int) (percent : Nat) : Option Int :=
  if latencies = [] then some 0
  else if percent = 100 then latencies[latencies.length - 1]?
  else latencies[latencyIndex latencies.length percent]?

/-- The function `getAverageLatency`. -/
def getAverageLatency (latencies : List Int) : Option Int :=
  if latencies = [] then some 0
  else (accumulate 0 latencies).map fun sum => sum.tdiv latencies.length

/-- What the function `getLatencyStdDev` takes the square root of. -/
def latencyVariance (latencies : List Int) : Option ℚ :=
  if latencies = [] then some 0
  else
    (getAverageLatency latencies).bind fun average =>
      (toUnsignedLong (milliseconds average)).map fun avg : Nat =>
        latencies.foldl (fun differences l => differences + (milliseconds l - (avg : ℚ)) ^ 2) 0 /
          latencies.length

namespace BenchmarkResults

/-- The average latency. -/
def averageLatency (r : BenchmarkResults) : Option ℚ :=
  (getAverageLatency r.allLatencies).map milliseconds

/-- An element of `latencies`, before it is converted to milliseconds. -/
def rawLatency (r : BenchmarkResults) (percent : Nat) : Option Int :=
  getLatencyPercent r.allLatencies percent

end BenchmarkResults

namespace Benchmark

variable {n : Nat}

/-- The latency that a step records. -/
def Op.latency : Op n → Option Int
  | .recordResult _ _ latency => some latency
  | _ => none

/-- The latencies that a benchmark records. -/
def recorded (ops : List (Op n)) : List Int := ops.filterMap Op.latency

/-- How often a latency was recorded. -/
def latencyCount (value : Int) : Measure n where
  of := fun c => c.latencies.count value
  adds := fun op => op.latency.toList.count value
  empty := rfl
  result := fun thread statusCode latency c => by
    unfold Counters.recordResult Counters.count Counters.push
    split <;> simp [Op.latency]
  read := fun _ _ _ => rfl
  written := fun _ _ _ => rfl
  socketError := rfl
  connectionOpen := rfl
  interval := fun _ => rfl

theorem count_recorded (value : Int) (ops : List (Op n)) :
    (recorded ops).count value = (ops.map (latencyCount value).adds).sum := by
  induction ops with
  | nil => rfl
  | cons op ops ih =>
    rw [List.map_cons, List.sum_cons, ← ih]
    cases op with
    | recordResult thread statusCode latency =>
      simp [recorded, latencyCount, Op.latency, List.count_cons, Nat.add_comm]
    | _ => simp [recorded, latencyCount, Op.latency, List.filterMap_cons]

/-- **What is sorted for the report is what was recorded**, whatever happened before. -/
theorem allLatencies_perm (b : Benchmark n) (start stop : Int) (ops : List (Op n)) :
    (b.measure start stop ops).1.allLatencies.Perm (recorded ops) := by
  refine (List.mergeSort_perm _ _).trans (List.perm_iff_count.mpr fun value => ?_)
  obtain ⟨-, -, accumulated⟩ := recordStart_rest (b := b) true start
  have counters := recordStart_counters (b := b) true start
  have nothing : (b.recordStart true start).weigh (latencyCount (n := n) value).of = 0 := by
    simp [weigh, live, counters, accumulated, (latencyCount (n := n) value).empty]
  have weight := weigh_recordStop (b := ((b.recordStart true start).run ops).1) (latencyCount value) stop
  rw [weigh_run, nothing, Nat.zero_add, ← count_recorded] at weight
  rw [List.count_flatMap]
  exact weight

end Benchmark

end Apib
