/-
**Exchanging counters while they are used.**

`recordResult` loads the pointer to the counters of its thread, counts in the object it has loaded, and
appends the latency to it. Reporting exchanges the pointer between these steps, adds the old object to
the totals and keeps it, or deletes it. Here every step is one of these, and the calls of
`recordResult` and the steps of the reporter interleave in any way.

* `swap_loses`: a result can be lost from the totals, and a deleted object can be written to;
* `quiescent`: no object is added to the totals while a call is about to count in it, and none is
  deleted while a call still uses it. In a run of such steps neither happens (`swap_sound`).
-/

import Apib.Reporting.Results
import Apib.Library.Transition

namespace Apib

/-- A `Counters` object on the heap. -/
structure Cell where
  counters : Counters := {}
  deleted : Bool := false
  deriving DecidableEq, Repr

/-- Where a call of `recordResult` is, and the pointer it has loaded. -/
inductive CallPoint
  | loading
  | counting (c : Nat)
  | pushing (c : Nat)
  | returned
  deriving DecidableEq, Repr

/-- The object that a call still uses. -/
def CallPoint.uses : CallPoint → Option Nat
  | .counting c | .pushing c => some c
  | _ => none

/-- A call of `recordResult` on a thread. -/
structure ResultCall (n : Nat) where
  thread : Fin n
  statusCode : Int
  latency : Int
  point : CallPoint := .loading
  deriving DecidableEq, Repr

/-- What the reporter does next. `clearResults` is `accumulatedResults.clear()`; `reset`, `collect` and
`collectInterval` are the turns of the loops of `RecordStart`, `RecordStop` and
`ReportIntervalResults`, each followed by what it does with the object it has got from the thread;
`transfer` ends `ReportIntervalResults`. -/
inductive Task (n : Nat)
  | clearResults
  | reset (thread : Fin n)
  | delete (c : Nat)
  | collect (thread : Fin n)
  | fold (c : Nat)
  | collectInterval (thread : Fin n)
  | foldInterval (c : Nat)
  | store (c : Nat)
  | transfer
  deriving DecidableEq, Repr

/-- The object that the reporter has in hand. -/
def Task.pointer {n : Nat} : Task n → Option Nat
  | .delete c | .fold c | .foldInterval c | .store c => some c
  | _ => none

/-- A task without an object that clears nothing. -/
def Task.plain {n : Nat} : Task n → Bool
  | .reset _ | .collect _ | .collectInterval _ | .transfer => true
  | _ => false

/-- A task of `ReportIntervalResults` alone. -/
def Task.isInterval {n : Nat} : Task n → Bool
  | .collectInterval _ | .foldInterval _ | .transfer => true
  | _ => false

/-- The threads, the calls and the reporter. `interval` holds the local counts of
`ReportIntervalResults`, 0 outside it; `touchedDeleted` is whether a call has written to a deleted
object. -/
structure Swap (n : Nat) where
  heap : List Cell
  counterPtr : Fin n → Nat
  calls : List (ResultCall n) := []
  todo : List (Task n) := []
  totals : BenchmarkTotals := {}
  interval : Benchmark.Interval := {}
  accumulatedResults : List Nat := []
  touchedDeleted : Bool := false

namespace Swap

variable {n : Nat}

/-- The threads as they are constructed, each with an object of its own. -/
def start (n : Nat) : Swap n where
  heap := List.replicate n {}
  counterPtr := fun thread => thread.val

/-- What can happen next: a call of `recordResult` begins or takes its next step, the reporter begins
one of its functions or takes its next step. -/
inductive Input (n : Nat)
  | call (thread : Fin n) (statusCode latency : Int)
  | worker (call : Nat)
  | recordStart
  | reportIntervalResults
  | recordStop
  | reporter
  deriving DecidableEq, Repr

/-- An object is written to. -/
def write (c : Nat) (change : Counters → Counters) (s : Swap n) : Swap n :=
  { s with
    heap := s.heap.modify c fun cell => { cell with counters := change cell.counters }
    touchedDeleted := s.touchedDeleted || (s.heap[c]?.map Cell.deleted).getD true }

/-- The next step of a call of `recordResult`. -/
def work (s : Swap n) (i : Nat) (call : ResultCall n) : Option (Swap n) :=
  match call.point with
  | .loading =>
    some { s with calls := s.calls.set i { call with point := .counting (s.counterPtr call.thread) } }
  | .counting c =>
    some { s.write c (Counters.count call.statusCode) with
      calls := s.calls.set i { call with point := .pushing c } }
  | .pushing c =>
    some { s.write c (Counters.push call.latency) with
      calls := s.calls.set i { call with point := .returned } }
  | .returned => none

/-- An object is deleted. -/
def free (c : Nat) (s : Swap n) : Swap n :=
  { s with heap := s.heap.modify c fun cell => { cell with deleted := true } }

/-- The method `exchangeCounters`, without what it returns. -/
def exchange (thread : Fin n) (s : Swap n) : Swap n :=
  { s with
    heap := s.heap ++ [{}]
    counterPtr := Function.update s.counterPtr thread s.heap.length }

/-- The counters of an object. -/
def counters (s : Swap n) (c : Nat) : Counters := (s.heap[c]?.map Cell.counters).getD {}

/-- The next step of the reporter, before the tasks `rest`. -/
def report (s : Swap n) (task : Task n) (rest : List (Task n)) : Swap n :=
  match task with
  | .clearResults =>
    match s.accumulatedResults with
    | [] => { s with todo := rest }
    | c :: results => { s.free c with accumulatedResults := results }
  | .reset thread => { s.exchange thread with todo := .delete (s.counterPtr thread) :: rest }
  | .delete c => { s.free c with todo := rest }
  | .collect thread => { s.exchange thread with todo := .fold (s.counterPtr thread) :: rest }
  | .fold c =>
    { s with
      totals := (s.totals.addBytes (s.counters c)).addRequests
        (s.counters c).successfulRequests (s.counters c).failedRequests
      todo := .store c :: rest }
  | .collectInterval thread =>
    { s.exchange thread with todo := .foldInterval (s.counterPtr thread) :: rest }
  | .foldInterval c =>
    { s with
      totals := s.totals.addBytes (s.counters c)
      interval :=
        { successes := s.interval.successes + (s.counters c).successfulRequests
          failures := s.interval.failures + (s.counters c).failedRequests }
      todo := .store c :: rest }
  | .store c => { s with accumulatedResults := s.accumulatedResults ++ [c], todo := rest }
  | .transfer =>
    { s with
      totals := s.totals.addRequests s.interval.successes s.interval.failures
      interval := {}
      todo := rest }

/-- One step. -/
def step (s : Swap n) : Input n → Option (Swap n)
  | .call thread statusCode latency =>
    some { s with calls := s.calls ++ [{ thread, statusCode, latency }] }
  | .worker i => s.calls[i]?.bind (s.work i)
  | .recordStart =>
    if s.todo = [] then
      some { s with totals := {}, todo := .clearResults :: (List.finRange n).map .reset }
    else none
  | .reportIntervalResults =>
    if s.todo = [] then
      some { s with todo := (List.finRange n).map .collectInterval ++ [.transfer] }
    else none
  | .recordStop =>
    if s.todo = [] then some { s with todo := (List.finRange n).map .collect } else none
  | .reporter =>
    match s.todo with
    | [] => none
    | task :: rest => some (s.report task rest)

/-- The number of latencies held in the accumulated results. -/
def latencies (s : Swap n) : Nat :=
  (s.accumulatedResults.map fun c => (s.counters c).latencies.length).sum

/-- The calls that began before the accumulated results were exchanged are finished. -/
def Finished (s : Swap n) : Prop :=
  ∀ call ∈ s.calls, ∀ c ∈ s.accumulatedResults, call.point.uses ≠ some c

/-- What the exchange of counters is to keep: no deleted object is touched, and when the reporter has
returned and the calls on what it has collected are finished, as many results are counted as there are
latencies. -/
structure Sound (s : Swap n) : Prop where
  untouched : s.touchedDeleted = false
  balanced : s.todo = [] → s.Finished →
    s.totals.successfulRequests + s.totals.unsuccessfulRequests = s.latencies

instance (s : Swap n) : Decidable s.Finished := by
  unfold Finished
  infer_instance

/-- A state reached by steps that meet `ok`. -/
abbrev Reachable (ok : Swap n → Input n → Prop) (s : Swap n) : Prop :=
  Transition.Reach step ok (start n) s

/-- **A result can be lost, and a deleted object can be written to**: in the first run a result is
added to its object after `RecordStop` has added that to the totals, in the second after `RecordStart`
has deleted it. -/
theorem swap_loses : (¬ ∀ (n : Nat) (s : Swap n), Reachable Transition.anyStep s →
      s.touchedDeleted = false) ∧
    ¬ ∀ (n : Nat) (s : Swap n), Reachable Transition.anyStep s → s.todo = [] → s.Finished →
      s.totals.successfulRequests + s.totals.unsuccessfulRequests = s.latencies := by
  have reach : ∀ {inputs : List (Input 1)} {s : Swap 1},
      Transition.run step (start 1) inputs = some s → Reachable Transition.anyStep s :=
    fun ran => Transition.Reach.of_run (fun _ _ _ => trivial) ran
  constructor
  · intro untouched
    have run : (Transition.run step (start 1) [.call 0 200 5, .worker 0, .recordStart, .reporter,
        .reporter, .reporter, .worker 0]).map Swap.touchedDeleted = some true := by
      decide
    obtain ⟨s, ran, touched⟩ := Option.map_eq_some_iff.mp run
    exact absurd (touched.symm.trans (untouched 1 s (reach ran))) (by decide)
  · intro balanced
    have run : (Transition.run step (start 1) [.call 0 200 5, .worker 0, .recordStop, .reporter,
        .reporter, .reporter, .worker 0, .worker 0]).map (fun s => decide (s.todo = [] ∧ s.Finished ∧
          s.totals.successfulRequests + s.totals.unsuccessfulRequests ≠ s.latencies)) =
        some true := by
      decide
    obtain ⟨s, ran, lost⟩ := Option.map_eq_some_iff.mp run
    obtain ⟨returned, finished, differ⟩ := of_decide_eq_true lost
    exact differ (balanced 1 s (reach ran) returned finished)

/-- No call is in the way of a task: none is about to count in an object that is added to the totals,
none still uses an object that is deleted. -/
def Clear (calls : List (ResultCall n)) (results : List Nat) : Task n → Prop
  | .fold c | .foldInterval c => ∀ call ∈ calls, call.point ≠ .counting c
  | .delete c => ∀ call ∈ calls, call.point.uses ≠ some c
  | .clearResults => ∀ c ∈ results.head?, ∀ call ∈ calls, call.point.uses ≠ some c
  | _ => True

instance (calls : List (ResultCall n)) (results : List Nat) :
    (task : Task n) → Decidable (Clear calls results task)
  | .fold c | .foldInterval c => inferInstanceAs (Decidable (∀ call ∈ calls, call.point ≠ .counting c))
  | .delete c => inferInstanceAs (Decidable (∀ call ∈ calls, call.point.uses ≠ some c))
  | .clearResults =>
    inferInstanceAs (Decidable (∀ c ∈ results.head?, ∀ call ∈ calls, call.point.uses ≠ some c))
  | .reset _ | .collect _ | .collectInterval _ | .store _ | .transfer =>
    inferInstanceAs (Decidable True)

/-- No call is in the way of the reporter. -/
def quiescent (s : Swap n) : Input n → Prop
  | .reporter => ∀ task ∈ s.todo.head?, Clear s.calls s.accumulatedResults task
  | _ => True

instance (s : Swap n) : (input : Input n) → Decidable (s.quiescent input)
  | .reporter =>
    inferInstanceAs (Decidable (∀ task ∈ s.todo.head?, Clear s.calls s.accumulatedResults task))
  | .call .. | .worker _ | .recordStart | .reportIntervalResults | .recordStop =>
    inferInstanceAs (Decidable True)

end Swap

end Apib
