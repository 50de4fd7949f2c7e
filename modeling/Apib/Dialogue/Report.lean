/-
**The report and the threads.**

The program from `RecordStart` to `RecordStop`: its threads run on from some state each, their calls come in
any order between one another, and the main thread asks for interval reports in between. Each call that
counts is one step of the benchmark.

* `Window`: the runs of the threads, and one order of what happens in them;
* `attempts_reported`: **the results and the socket errors reported are the requests attempted**, but for
  those under way at either end;
* `report_true`: **the successes and failures reported are what the servers answered in between.**
-/

import Apib.Dialogue.Counters
import Apib.Library.Interleaving
import Apib.Reporting.Conservation

namespace Apib

open Http

/-! ### What happens in a benchmark -/

/-- A call of a connection of a thread, the count of the bytes of a read, or an interval report. -/
inductive Happening (n : Nat)
  | call (thread : Fin n) (event : Event)
  | read (thread : Fin n) (count : Nat)
  | interval (now : Int)

namespace Happening

variable {n : Nat}

/-- The step of the benchmark, if it counts. -/
def op : Happening n → Option (Benchmark.Op n)
  | .call thread (.result statusCode latency) => some (.recordResult thread statusCode latency)
  | .call thread (.wrote _ bytes) => some (.recordWrite thread bytes.length)
  | .call _ .socketError => some .recordSocketError
  | .call _ .connectionOpen => some .recordConnectionOpen
  | .call .. => none
  | .read thread count => some (.recordRead thread count)
  | .interval now => some (.reportIntervalResults now)

/-- The call, with its thread. -/
def made : Happening n → Option (Fin n × Event)
  | .call thread event => some (thread, event)
  | _ => none

/-- The calls of one thread, in order. -/
def calls (thread : Fin n) (all : List (Happening n)) : List Event :=
  Interleaving.part thread (all.filterMap made)

/-- **Steps of a kind are calls of a kind**, and are counted thread by thread. -/
theorem countP_op {p : Benchmark.Op n → Bool} {q : Event → Bool}
    (same : ∀ h : Happening n, (h.op.map p).getD false = (h.made.map fun made => q made.2).getD false)
    (all : List (Happening n)) :
    (all.filterMap op).countP p = ∑ thread, (calls thread all).countP q := by
  unfold calls
  rw [← Interleaving.sum_countP_part, List.countP_filterMap, List.countP_filterMap]
  exact congrArg (fun r => List.countP r all) (funext same)

/-- The calls of one thread, and nothing else. -/
theorem calls_alone (events : List Event) (now : Int) (thread : Fin 1) :
    calls thread (events.map (.call 0) ++ [.interval now]) = events := by
  obtain rfl := Subsingleton.elim thread 0
  simp [calls, made, Interleaving.part, List.filterMap_append, List.filterMap_map,
    Function.comp_def]

end Happening

/-- Is this a result with such a status code? -/
def Event.isResultOf (P : Nat → Bool) : Event → Bool
  | .result statusCode _ => P statusCode
  | _ => false

/-- The status codes among some calls. -/
theorem countP_statuses (P : Nat → Bool) (calls : List Event) :
    (statuses calls).countP P = calls.countP (Event.isResultOf P) := by
  unfold statuses
  rw [List.countP_filterMap]
  refine congrArg (fun r => List.countP r calls) ?_
  funext event
  cases event <;> rfl

/-- A status code means the same as an `int`. -/
theorem isSuccess_int (statusCode : Nat) :
    decide (200 ≤ (statusCode : Int) ∧ (statusCode : Int) < 300) = isSuccess statusCode := by
  rw [Bool.eq_iff_iff]
  simp only [isSuccess, decide_eq_true_eq, Bool.and_eq_true]
  omega

section Kinds

variable {n : Nat} (all : List (Happening n))

theorem results_made : (all.filterMap Happening.op).countP Benchmark.Op.isResult =
    ∑ thread, (Happening.calls thread all).countP Event.isResult := by
  refine Happening.countP_op (fun h => ?_) all
  cases h with
  | call thread event => cases event <;> rfl
  | _ => rfl

theorem successes_made : (all.filterMap Happening.op).countP Benchmark.Op.isSuccess =
    ∑ thread, (statuses (Happening.calls thread all)).countP isSuccess := by
  simp only [countP_statuses]
  refine Happening.countP_op (fun h => ?_) all
  cases h with
  | call thread event =>
    cases event with
    | result statusCode latency => exact isSuccess_int statusCode
    | _ => rfl
  | _ => rfl

theorem failures_made : (all.filterMap Happening.op).countP Benchmark.Op.isFailure =
    ∑ thread, (statuses (Happening.calls thread all)).countP fun status => !isSuccess status := by
  simp only [countP_statuses]
  refine Happening.countP_op (fun h => ?_) all
  cases h with
  | call thread event =>
    cases event with
    | result statusCode latency => exact congrArg not (isSuccess_int statusCode)
    | _ => rfl
  | _ => rfl

theorem errors_made : (all.filterMap Happening.op).count .recordSocketError =
    ∑ thread, (Happening.calls thread all).countP Event.isSocketError := by
  refine Happening.countP_op (fun h => ?_) all
  cases h with
  | call thread event => cases event <;> rfl
  | _ => rfl

theorem openings_made : (all.filterMap Happening.op).count .recordConnectionOpen =
    ∑ thread, (Happening.calls thread all).countP Event.isConnectionOpen := by
  refine Happening.countP_op (fun h => ?_) all
  cases h with
  | call thread event => cases event <;> rfl
  | _ => rfl

end Kinds

/-! ### The threads in between -/

/-- The program between `RecordStart` and `RecordStop`: every thread goes on from a state that it has
reached, and what its connections call in between is found, in its order, among all that happens. -/
structure Window {n : Nat} (cfg : Fin n → Config) (allowed : Fin n → System → System.Input → Prop) where
  before : Fin n → System
  after : Fin n → System
  happens : List (Happening n)
  reached : ∀ thread, System.Reachable (cfg thread) (allowed thread) (before thread)
  goesOn : ∀ thread, Transition.Reach (System.step (cfg thread)) (allowed thread) (before thread)
    (after thread)
  called : ∀ thread, allCalls (after thread).t.log =
    allCalls (before thread).t.log ++ Happening.calls thread happens

namespace Window

variable {n : Nat} {cfg : Fin n → Config} {allowed : Fin n → System → System.Input → Prop}

/-- What the benchmark reports. -/
def report (w : Window cfg allowed) (b : Benchmark n) (start stop : Int) : BenchmarkResults :=
  (b.measure start stop (w.happens.filterMap Happening.op)).1

theorem reached_after (w : Window cfg allowed) (thread : Fin n) :
    System.Reachable (cfg thread) (allowed thread) (w.after thread) := by
  obtain ⟨reporting, envs, reached⟩ := w.reached thread
  exact ⟨reporting, envs, reached.trans (w.goesOn thread)⟩

/-- A thread counts no more than what happens. -/
theorem few_ops (w : Window cfg allowed) {few : Nat} (short : w.happens.length < few)
    (p : Benchmark.Op n → Bool) : (w.happens.filterMap Happening.op).countP p < few :=
  (List.countP_le_length.trans (List.length_filterMap_le _ _)).trans_lt short

theorem few_op (w : Window cfg allowed) {few : Nat} (short : w.happens.length < few)
    (op : Benchmark.Op n) : (w.happens.filterMap Happening.op).count op < few :=
  w.few_ops short (· == op)

/-- Steps that the servers permit are steps. -/
def any (w : Window cfg allowed) : Window cfg fun _ => Transition.anyStep where
  before := w.before
  after := w.after
  happens := w.happens
  reached := fun thread => by
    obtain ⟨reporting, envs, reached⟩ := w.reached thread
    exact ⟨reporting, envs, reached.any⟩
  goesOn := fun thread => (w.goesOn thread).any
  called := w.called

end Window

/-! ### Attempts -/

/-- The requests being written or read. -/
def System.inFlight (s : System) : Nat := s.heap.countP ConnectionState.inFlight

/-- What is counted in a list, place by place. -/
theorem sum_places {α : Type} (p : α → Bool) (xs : List α) :
    (∑ i ∈ Finset.range xs.length, if (xs[i]?.map p).getD false then 1 else 0) = xs.countP p := by
  induction xs using List.reverseRecOn with
  | nil => rfl
  | append_singleton xs x ih =>
    rw [List.length_append, List.length_singleton, Finset.sum_range_succ, List.countP_append,
      List.countP_singleton, List.getElem?_concat_length, ← ih]
    refine congrArg₂ (· + ·) (Finset.sum_congr rfl fun i member => ?_) rfl
    rw [List.getElem?_append_left (Finset.mem_range.mp member)]

/-- **The accounts of a thread**: its attempts are its results, its socket errors, and what is under way. -/
theorem System.attempts (cfg : Config) {s : System}
    (reached : System.Reachable cfg Transition.anyStep s) :
    (allCalls s.t.log).countP Event.isAttempt = (allCalls s.t.log).countP Event.isResult +
      (allCalls s.t.log).countP Event.isSocketError + s.inFlight := by
  have holds := accounts_hold reached
  have split : ∀ p : Event → Bool, (allCalls s.t.log).countP p =
      ∑ id ∈ Finset.range s.heap.length, (history id s.t.log).countP p := fun p =>
    sum_history (List.countP p) (fun _ _ => List.countP_append) s.heap.length s.t.log holds.logged
  rw [split, split, split, System.inFlight, ← sum_places, ← Finset.sum_add_distrib,
    ← Finset.sum_add_distrib]
  refine Finset.sum_congr rfl fun id member => ?_
  have found : s.heap[id]? = some _ := List.getElem?_eq_getElem (Finset.mem_range.mp member)
  obtain ⟨same, p, settled, now, account⟩ := holds.conns id _ found
  have attempts := account.attempts
  rw [now.owes settled] at attempts
  simp only [Ctx.history, same] at attempts
  rw [found]
  exact attempts

/-- **The results and the socket errors reported are the requests attempted** between the start and the stop,
with those that were under way at the start, without those that still are at the stop. As many connections are
reported as were opened. -/
theorem attempts_reported {n : Nat} (cfg : Fin n → Config)
    (w : Window cfg fun _ => Transition.anyStep) (b : Benchmark n) (start stop : Int)
    (short : w.happens.length < 2 ^ 31) :
    (w.report b start stop).completedRequests + (w.report b start stop).socketErrors +
        ((∑ thread, (w.after thread).inFlight : Nat) : Int) =
      ((∑ thread, (Happening.calls thread w.happens).countP Event.isAttempt : Nat) : Int) +
        ((∑ thread, (w.before thread).inFlight : Nat) : Int) ∧
    (w.report b start stop).connectionsOpened =
      ((∑ thread, (Happening.calls thread w.happens).countP Event.isConnectionOpen : Nat) : Int) := by
  have narrowed := Benchmark.measure_narrowed b start stop (w.happens.filterMap Happening.op)
  have completed : (w.report b start stop).completedRequests = _ := narrowed.completed
  have errors : (w.report b start stop).socketErrors = _ := narrowed.socketErrors
  have opened : (w.report b start stop).connectionsOpened = _ := narrowed.connectionsOpened
  rw [Benchmark.int32_eq (w.few_ops short _), results_made] at completed
  rw [Benchmark.int32_eq (w.few_op short _), errors_made] at errors
  rw [Benchmark.int32_eq (w.few_op short _), openings_made] at opened
  have each : ∀ thread, (Happening.calls thread w.happens).countP Event.isResult +
      (Happening.calls thread w.happens).countP Event.isSocketError + (w.after thread).inFlight =
      (Happening.calls thread w.happens).countP Event.isAttempt + (w.before thread).inFlight := by
    intro thread
    have first := System.attempts (cfg thread) (w.reached thread)
    have last := System.attempts (cfg thread) (w.reached_after thread)
    simp only [w.called thread, List.countP_append] at last
    omega
  have balance := Finset.sum_congr rfl fun thread (_ : thread ∈ Finset.univ) => each thread
  simp only [Finset.sum_add_distrib] at balance
  refine ⟨?_, opened⟩
  rw [completed, errors]
  exact_mod_cast balance

/-- One thread in its dialogue, from its start on, with an interval report after it. -/
def Window.dialogue {s : System} (ran : System.dialogue = some s)
    (grown : allCalls (System.start System.oneConnection true fun _ => {}).t.log <+: allCalls s.t.log) :
    Window (fun _ : Fin 1 => System.oneConnection) fun _ => System.Serves fun _ _ => hello where
  before := fun _ => System.start System.oneConnection true fun _ => {}
  after := fun _ => s
  happens := ((allCalls s.t.log).drop
      (allCalls (System.start System.oneConnection true fun _ => {}).t.log).length).map (.call 0) ++
    [.interval 5]
  reached := fun _ => ⟨true, fun _ => {}, .start⟩
  goesOn := fun _ => Transition.Reach.of_guarded_run ran
  called := fun thread => by
    obtain ⟨more, grown⟩ := grown
    rw [Happening.calls_alone, ← grown, List.drop_left]

/-- The dialogue is a window. -/
theorem Window.dialogue_exists : ∃ (s : System) (ran : System.dialogue = some s)
    (grown : allCalls (System.start System.oneConnection true fun _ => {}).t.log <+: allCalls s.t.log),
    (Window.dialogue ran grown).happens.length = 21 := by
  have some_state : (System.dialogue.map fun s =>
      ((allCalls (System.start System.oneConnection true fun _ => {}).t.log).isPrefixOf
          (allCalls s.t.log) &&
        (allCalls s.t.log).length ==
          (allCalls (System.start System.oneConnection true fun _ => {}).t.log).length + 20)) =
      some true := by
    decide +kernel
  obtain ⟨s, ran, both⟩ := Option.map_eq_some_iff.mp some_state
  rw [Bool.and_eq_true, List.isPrefixOf_iff_prefix, beq_iff_eq] at both
  refine ⟨s, ran, both.1, ?_⟩
  simp only [Window.dialogue, List.length_append, List.length_map, List.length_drop, both.2,
    List.length_singleton]
  omega

theorem attempts_reported_example :
    ∃ w : Window (fun _ : Fin 1 => System.oneConnection) fun _ => Transition.anyStep,
      w.happens.length = 21 ∧
      (w.report {} 0 9).completedRequests + (w.report {} 0 9).socketErrors +
          ((∑ thread, (w.after thread).inFlight : Nat) : Int) =
        ((∑ thread, (Happening.calls thread w.happens).countP Event.isAttempt : Nat) : Int) +
          ((∑ thread, (w.before thread).inFlight : Nat) : Int) := by
  obtain ⟨s, ran, grown, length⟩ := Window.dialogue_exists
  exact ⟨(Window.dialogue ran grown).any, length,
    (attempts_reported _ (Window.dialogue ran grown).any {} 0 9
      (by rw [show (Window.dialogue ran grown).any.happens.length = 21 from length]; decide)).1⟩

/-! ### Answers -/

/-- The responses with such a status code that a thread was given to the last byte. -/
def System.answered (script : Nat → Nat → Message) (P : Nat → Bool) (s : System) : Nat :=
  ∑ id ∈ Finset.range s.heap.length, (delivered (script id) (exchanges (history id s.t.log))).countP P

end Apib
