/-
**Counting results.**

`apib_reporting.cc` with the counters of the threads (`apib_iothread.cc`), every call one step. Each
thread counts in an object of its own, which reporting exchanges for a new one and adds to its totals.

* Counts are kept as they are and narrowed where a result is returned: `int32` and `int64` are the
  conversions to those types, which wrap around. Wrapping on the way gives the same.
* Times are in nanoseconds, before their conversion to seconds; the values of `double` type that are
  computed from counts and times are left out.
* CPU and memory samples, and the monitors they are read from, have no part in the counts.
-/

import Apib.IOThread.Callbacks
import Mathlib.Logic.Function.Basic

namespace Apib

/-- Conversion to `int32_t`. -/
def int32 (n : Int) : Int := n.bmod (2 ^ 32)

/-- Conversion to `int64_t`. -/
def int64 (n : Int) : Int := n.bmod (2 ^ 64)

/-! ### The counters of a thread -/

namespace Counters

/-- The increment in `recordResult`. -/
def count (statusCode : Int) (c : Counters) : Counters :=
  if 200 ≤ statusCode ∧ statusCode < 300 then
    { c with successfulRequests := c.successfulRequests + 1 }
  else { c with failedRequests := c.failedRequests + 1 }

/-- The `push_back` in `recordResult`. -/
def push (latency : Int) (c : Counters) : Counters := { c with latencies := c.latencies ++ [latency] }

/-- The method `IOThread::recordResult` on the counters of its thread. -/
def recordResult (statusCode latency : Int) (c : Counters) : Counters :=
  (c.count statusCode).push latency

/-- The method `IOThread::recordRead`. -/
def recordRead (count : Nat) (c : Counters) : Counters := { c with bytesRead := c.bytesRead + count }

/-- The method `IOThread::recordWrite`. -/
def recordWrite (count : Nat) (c : Counters) : Counters :=
  { c with bytesWritten := c.bytesWritten + count }

end Counters

/-- A connection counts a result in the counters of its thread. -/
theorem Ctx.recordResult_counters (x : Ctx) (statusCode : Nat) (latency : Int) :
    (x.recordResult statusCode latency).t.counters = x.t.counters.recordResult statusCode latency := by
  simp only [Ctx.recordResult, Ctx.note, Counters.recordResult, Counters.count, Counters.push,
    Bool.and_eq_true, decide_eq_true_eq]
  by_cases success : 200 ≤ statusCode ∧ statusCode < 300
  · rw [if_pos success, if_pos (by omega)]
  · rw [if_neg success, if_neg (by omega)]

theorem Ctx.recordRead_counters (x : Ctx) (count : Nat) :
    (x.recordRead count).t.counters = x.t.counters.recordRead count := rfl

theorem Ctx.recordWrite_counters (x : Ctx) (count : Nat) :
    (x.recordWrite count).t.counters = x.t.counters.recordWrite count := rfl

/-! ### The totals -/

/-- The totals of a benchmark. -/
structure BenchmarkTotals where
  successfulRequests : Nat := 0
  unsuccessfulRequests : Nat := 0
  totalBytesSent : Nat := 0
  totalBytesReceived : Nat := 0
  deriving DecidableEq, Repr

namespace BenchmarkTotals

/-- The bytes of one thread. -/
def addBytes (c : Counters) (t : BenchmarkTotals) : BenchmarkTotals :=
  { t with
    totalBytesReceived := t.totalBytesReceived + c.bytesRead
    totalBytesSent := t.totalBytesSent + c.bytesWritten }

/-- So many requests. -/
def addRequests (successes failures : Nat) (t : BenchmarkTotals) : BenchmarkTotals :=
  { t with
    successfulRequests := t.successfulRequests + successes
    unsuccessfulRequests := t.unsuccessfulRequests + failures }

end BenchmarkTotals

/-- The variables of a benchmark over `n` threads, with the object that `counterPtr_` of each thread
points to. -/
structure Benchmark (n : Nat) where
  shared : Reporting := { reporting := false }
  totals : BenchmarkTotals := {}
  startTime : Int := 0
  stopTime : Int := 0
  intervalStartTime : Int := 0
  accumulatedResults : List Counters := []
  counters : Fin n → Counters := fun _ => {}

/-- What `ReportIntervalResults` returns. -/
structure BenchmarkIntervalResults where
  successfulRequests : Int
  intervalTime : Int
  elapsedTime : Int
  deriving DecidableEq, Repr

/-- What `ReportResults` returns; `allLatencies` is what the average and the percentiles are taken
of. -/
structure BenchmarkResults where
  completedRequests : Int
  successfulRequests : Int
  unsuccessfulRequests : Int
  socketErrors : Int
  connectionsOpened : Int
  totalBytesSent : Int
  totalBytesReceived : Int
  elapsedTime : Int
  allLatencies : List Int
  deriving DecidableEq, Repr

namespace Benchmark

variable {n : Nat}

/-- The method `IOThread::exchangeCounters`, without what it returns. -/
def exchangeCounters (thread : Fin n) (b : Benchmark n) : Benchmark n :=
  { b with counters := Function.update b.counters thread {} }

/-- The function `RecordStart`. -/
def recordStart (startReporting : Bool) (now : Int) (b : Benchmark n) : Benchmark n :=
  let b := { b with
    totals := {}
    shared.socketErrors := 0
    shared.connectionsOpened := 0
    accumulatedResults := [] }
  let b := (List.finRange n).foldl (fun b thread => b.exchangeCounters thread) b
  { b with shared.reporting := startReporting, startTime := now, intervalStartTime := now }

/-- A turn of the loop of `RecordStop`. -/
def collect (b : Benchmark n) (thread : Fin n) : Benchmark n :=
  let c := b.counters thread
  { b.exchangeCounters thread with
    totals := (b.totals.addBytes c).addRequests c.successfulRequests c.failedRequests
    accumulatedResults := b.accumulatedResults ++ [c] }

/-- The function `RecordStop`. -/
def recordStop (now : Int) (b : Benchmark n) : Benchmark n :=
  let b := { b with shared.reporting := false }
  let b := (List.finRange n).foldl collect b
  { b with stopTime := now }

/-- The local counts of `ReportIntervalResults`. -/
structure Interval where
  successes : Nat := 0
  failures : Nat := 0

/-- A turn of the loop of `ReportIntervalResults`. -/
def collectInterval (x : Benchmark n × Interval) (thread : Fin n) : Benchmark n × Interval :=
  let b := x.1
  let c := b.counters thread
  ({ b.exchangeCounters thread with
      totals := b.totals.addBytes c
      accumulatedResults := b.accumulatedResults ++ [c] },
    { successes := x.2.successes + c.successfulRequests
      failures := x.2.failures + c.failedRequests })

/-- The function `ReportIntervalResults`. -/
def reportIntervalResults (now : Int) (b : Benchmark n) : Benchmark n × BenchmarkIntervalResults :=
  let x := (List.finRange n).foldl collectInterval (b, {})
  let b := { x.1 with totals := x.1.totals.addRequests x.2.successes x.2.failures }
  ({ b with intervalStartTime := now },
    { successfulRequests := int32 x.2.successes
      intervalTime := now - b.intervalStartTime
      elapsedTime := now - b.startTime })

/-- The function `ReportResults`. -/
def reportResults (b : Benchmark n) : BenchmarkResults where
  completedRequests := int32 (b.totals.successfulRequests + b.totals.unsuccessfulRequests)
  successfulRequests := int32 b.totals.successfulRequests
  unsuccessfulRequests := int32 b.totals.unsuccessfulRequests
  socketErrors := int32 b.shared.socketErrors
  connectionsOpened := int32 b.shared.connectionsOpened
  totalBytesSent := int64 b.totals.totalBytesSent
  totalBytesReceived := int64 b.totals.totalBytesReceived
  elapsedTime := b.stopTime - b.startTime
  allLatencies := (b.accumulatedResults.flatMap Counters.latencies).mergeSort

/-! ### A benchmark -/

/-- A step of a benchmark between `RecordStart` and `RecordStop`. -/
inductive Op (n : Nat)
  | recordResult (thread : Fin n) (statusCode latency : Int)
  | recordRead (thread : Fin n) (count : Nat)
  | recordWrite (thread : Fin n) (count : Nat)
  | recordSocketError
  | recordConnectionOpen
  | reportIntervalResults (now : Int)
  deriving DecidableEq, Repr

/-- A thread counts something. -/
def record (thread : Fin n) (change : Counters → Counters) (b : Benchmark n) : Benchmark n :=
  { b with counters := Function.update b.counters thread (change (b.counters thread)) }

/-- One step, with what an interval report returns. -/
def step (b : Benchmark n) : Op n → Benchmark n × Option BenchmarkIntervalResults
  | .recordResult thread statusCode latency =>
    (b.record thread (Counters.recordResult statusCode latency), none)
  | .recordRead thread count => (b.record thread (Counters.recordRead count), none)
  | .recordWrite thread count => (b.record thread (Counters.recordWrite count), none)
  | .recordSocketError =>
    (if b.shared.reporting then
      { b with shared.socketErrors := b.shared.socketErrors + 1 }
    else b, none)
  | .recordConnectionOpen =>
    (if b.shared.reporting then
      { b with shared.connectionsOpened := b.shared.connectionsOpened + 1 }
    else b, none)
  | .reportIntervalResults now =>
    ((b.reportIntervalResults now).1, some (b.reportIntervalResults now).2)

/-- Steps one after the other, with what the interval reports return. -/
def run (b : Benchmark n) (ops : List (Op n)) : Benchmark n × List BenchmarkIntervalResults :=
  ops.foldl (fun x op => ((x.1.step op).1, x.2 ++ (x.1.step op).2.toList)) (b, [])

/-- A benchmark from `RecordStart(true, threads)` to `RecordStop(threads)` and `ReportResults`. -/
def measure (b : Benchmark n) (start stop : Int) (ops : List (Op n)) :
    BenchmarkResults × List BenchmarkIntervalResults :=
  let x := (b.recordStart true start).run ops
  ((x.1.recordStop stop).reportResults, x.2)

end Benchmark

end Apib
