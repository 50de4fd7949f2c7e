/-
**What came before `RecordStart` has no part in the results.**

The warm-up of a benchmark is a history of calls of any kind, other benchmarks among them. Of all that
it leaves behind, `RecordStart` keeps the time of the last `RecordStop` only, which the next one
overwrites.

* `recordStart_forgets`: two states are the same after `RecordStart`, up to that time;
* `call_alike`: a call does the same to both and returns the same interval results;
* `warm_up_forgotten`: **so the results do not depend on the warm-up**.

The values of `double` type in the results are computed from the others.
-/

import Apib.Reporting.Conservation

namespace Apib

namespace Benchmark

variable {n : Nat}

/-! ### Histories -/

/-- A call of a recording or a reporting function. -/
inductive Call (n : Nat)
  | op (op : Op n)
  | recordStart (startReporting : Bool) (now : Int)
  | recordStop (now : Int)
  deriving DecidableEq, Repr

/-- One call, with what an interval report returns. -/
def call (b : Benchmark n) : Call n → Benchmark n × Option BenchmarkIntervalResults
  | .op op => b.step op
  | .recordStart startReporting now => (b.recordStart startReporting now, none)
  | .recordStop now => (b.recordStop now, none)

/-- Calls one after the other, with what the interval reports return. -/
def calls (b : Benchmark n) (history : List (Call n)) : Benchmark n × List BenchmarkIntervalResults :=
  history.foldl (fun x c => ((x.1.call c).1, x.2 ++ (x.1.call c).2.toList)) (b, [])

/-- What is reported of the calls between `RecordStart(true, threads)` and `RecordStop(threads)`, after
a warm-up. -/
def reported (warmUp : List (Call n)) (start : Int) (later : List (Call n)) (stop : Int) :
    BenchmarkResults × List BenchmarkIntervalResults :=
  let b := (({} : Benchmark n).calls warmUp).1
  let x := (b.recordStart true start).calls later
  ((x.1.recordStop stop).reportResults, x.2)

/-! ### States that are alike -/

/-- The same state, up to the time of the last `RecordStop`. -/
def Alike (b b' : Benchmark n) : Prop := ∃ time, b' = { b with stopTime := time }

namespace Alike

variable {b b' : Benchmark n}

theorem refl (b : Benchmark n) : b.Alike b := ⟨b.stopTime, rfl⟩

theorem exchangeCounters (alike : b.Alike b') (thread : Fin n) :
    (b.exchangeCounters thread).Alike (b'.exchangeCounters thread) := by
  obtain ⟨time, rfl⟩ := alike
  exact ⟨time, rfl⟩

theorem record (alike : b.Alike b') (thread : Fin n) (change : Counters → Counters) :
    (b.record thread change).Alike (b'.record thread change) := by
  obtain ⟨time, rfl⟩ := alike
  exact ⟨time, rfl⟩

theorem collect (alike : b.Alike b') (thread : Fin n) :
    (b.collect thread).Alike (b'.collect thread) := by
  obtain ⟨time, rfl⟩ := alike
  exact ⟨time, rfl⟩

/-- The loop of an interval report. -/
theorem collectInterval (alike : b.Alike b') :
    ((List.finRange n).foldl Benchmark.collectInterval (b, {})).1.Alike
        ((List.finRange n).foldl Benchmark.collectInterval (b', {})).1 ∧
      ((List.finRange n).foldl Benchmark.collectInterval (b, {})).2 =
        ((List.finRange n).foldl Benchmark.collectInterval (b', {})).2 := by
  refine List.foldl_rel
    (r := fun x x' : Benchmark n × Interval => x.1.Alike x'.1 ∧ x.2 = x'.2) ⟨alike, rfl⟩ ?_
  rintro thread - ⟨c, interval⟩ ⟨c', interval'⟩ ⟨⟨time, equal⟩, same⟩
  obtain rfl : c' = _ := equal
  obtain rfl : interval = interval' := same
  exact ⟨⟨time, rfl⟩, rfl⟩

/-- Everything that `ReportIntervalResults` returns and leaves is the same. -/
theorem reportIntervalResults (alike : b.Alike b') (now : Int) :
    (b.reportIntervalResults now).1.Alike (b'.reportIntervalResults now).1 ∧
      (b.reportIntervalResults now).2 = (b'.reportIntervalResults now).2 := by
  have loop := alike.collectInterval
  obtain ⟨time, rfl⟩ := alike
  unfold Benchmark.reportIntervalResults
  generalize (List.finRange n).foldl Benchmark.collectInterval (b, {}) = x at loop ⊢
  generalize (List.finRange n).foldl Benchmark.collectInterval _ = x' at loop ⊢
  obtain ⟨⟨time', left⟩, counts⟩ := loop
  dsimp only
  rw [left, counts]
  exact ⟨⟨time', rfl⟩, rfl⟩

/-- `RecordStop` sets the time by which two such states differ. -/
theorem recordStop (alike : b.Alike b') (now : Int) : b.recordStop now = b'.recordStop now := by
  have loop : ((List.finRange n).foldl Benchmark.collect { b with shared.reporting := false }).Alike
      ((List.finRange n).foldl Benchmark.collect { b' with shared.reporting := false }) := by
    refine List.foldl_rel (r := Alike) ?_ fun thread _ c c' before => before.collect thread
    obtain ⟨time, rfl⟩ := alike
    exact ⟨time, rfl⟩
  obtain ⟨time, left⟩ := loop
  unfold Benchmark.recordStop
  dsimp only
  rw [left]

end Alike

/-! ### A benchmark begins -/

/-- `RecordStart` leaves the time of the last `RecordStop` alone. -/
theorem recordStart_stopTime (startReporting : Bool) (now : Int) (b : Benchmark n) :
    (b.recordStart startReporting now).stopTime = b.stopTime :=
  loop_keeps (P := fun c : Benchmark n => c.stopTime = b.stopTime)
    (fun c thread before => show (c.exchangeCounters thread).stopTime = _ from before)
    (List.finRange n) rfl

/-- **`RecordStart` resets everything else**: any state becomes the one that it makes of a new
benchmark. -/
theorem recordStart_eq (startReporting : Bool) (now : Int) (b : Benchmark n) :
    b.recordStart startReporting now =
      { shared := ⟨startReporting, 0, 0⟩
        startTime := now
        stopTime := b.stopTime
        intervalStartTime := now } := by
  obtain ⟨shared, totals, accumulated⟩ := recordStart_rest (b := b) startReporting now
  have counters := recordStart_counters (b := b) startReporting now
  have stopTime := recordStart_stopTime startReporting now b
  have times : (b.recordStart startReporting now).startTime = now ∧
      (b.recordStart startReporting now).intervalStartTime = now := ⟨rfl, rfl⟩
  generalize b.recordStart startReporting now = s at *
  obtain ⟨_, _, _, _, _, _, _⟩ := s
  obtain ⟨startTime, intervalStartTime⟩ := times
  dsimp only at *
  subst shared totals accumulated counters stopTime startTime intervalStartTime
  rfl

/-- Whatever the states before `RecordStart`, they are alike after it. -/
theorem recordStart_forgets (startReporting : Bool) (now : Int) (b b' : Benchmark n) :
    (b.recordStart startReporting now).Alike (b'.recordStart startReporting now) := by
  rw [recordStart_eq, recordStart_eq]
  exact ⟨b'.stopTime, rfl⟩

/-! ### Two runs -/

namespace Alike

variable {b b' : Benchmark n}

theorem step (alike : b.Alike b') (op : Op n) :
    (b.step op).1.Alike (b'.step op).1 ∧ (b.step op).2 = (b'.step op).2 := by
  cases op with
  | recordResult thread statusCode latency => exact ⟨alike.record _ _, rfl⟩
  | recordRead thread count => exact ⟨alike.record _ _, rfl⟩
  | recordWrite thread count => exact ⟨alike.record _ _, rfl⟩
  | recordSocketError =>
    obtain ⟨time, rfl⟩ := alike
    refine ⟨?_, rfl⟩
    simp only [Benchmark.step]
    split
    · exact ⟨time, rfl⟩
    · exact ⟨time, rfl⟩
  | recordConnectionOpen =>
    obtain ⟨time, rfl⟩ := alike
    refine ⟨?_, rfl⟩
    simp only [Benchmark.step]
    split
    · exact ⟨time, rfl⟩
    · exact ⟨time, rfl⟩
  | reportIntervalResults now =>
    obtain ⟨left, returned⟩ := alike.reportIntervalResults now
    exact ⟨left, congrArg some returned⟩

/-- A call does the same to states that are alike. -/
theorem call (alike : b.Alike b') (c : Call n) :
    (b.call c).1.Alike (b'.call c).1 ∧ (b.call c).2 = (b'.call c).2 := by
  cases c with
  | op op => exact alike.step op
  | recordStart startReporting now => exact ⟨recordStart_forgets _ _ _ _, rfl⟩
  | recordStop now =>
    have same := alike.recordStop now
    refine ⟨?_, rfl⟩
    change (b.recordStop now).Alike (b'.recordStop now)
    rw [same]
    exact .refl _

theorem calls (alike : b.Alike b') (history : List (Call n)) :
    (b.calls history).1.Alike (b'.calls history).1 ∧
      (b.calls history).2 = (b'.calls history).2 := by
  refine List.foldl_rel
    (r := fun x x' : Benchmark n × List BenchmarkIntervalResults => x.1.Alike x'.1 ∧ x.2 = x'.2)
    ⟨alike, rfl⟩ ?_
  rintro c - x x' ⟨states, outputs⟩
  obtain ⟨left, returned⟩ := states.call c
  exact ⟨left, by rw [outputs, returned]⟩

end Alike

/-- **Warm-up does not leak**: the results and the interval results are the same after any two
warm-ups. -/
theorem warm_up_forgotten (first second later : List (Call n)) (start stop : Int) :
    reported first start later stop = reported second start later stop := by
  have begun := recordStart_forgets true start (({} : Benchmark n).calls first).1
    (({} : Benchmark n).calls second).1
  obtain ⟨left, intervals⟩ := begun.calls later
  unfold reported
  dsimp only
  rw [left.recordStop stop, intervals]

end Benchmark

end Apib
