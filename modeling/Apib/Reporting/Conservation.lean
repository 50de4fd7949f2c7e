/-
**Nothing is counted twice or lost.**

A count lies with its thread until the thread's counters are exchanged; then it is in the totals, and
its object among the accumulated results. `weigh` adds up one of the counts over both places.

* `weigh_record`: recording adds to the weight what it counts; `weigh_collect`: an exchange leaves the
  weight alone;
* `Balanced.step`: so the weights follow the steps;
* `counts_wrap`: more than `2 ^ 31` socket errors are reported as a negative number;
* `counts_conserved`: **within the range of the results, a benchmark reports what was recorded**.
-/

import Apib.Reporting.Results
import Mathlib.Algebra.BigOperators.Fin
import Mathlib.Data.List.DropRight

namespace Apib

namespace Benchmark

variable {n : Nat}

/-! ### What the steps count -/

namespace Op

/-- Is this a result with a status from 200 to 299? -/
def isSuccess : Op n → Bool
  | .recordResult _ statusCode _ => decide (200 ≤ statusCode ∧ statusCode < 300)
  | _ => false

/-- Is this a result with another status? -/
def isFailure : Op n → Bool
  | .recordResult _ statusCode _ => !decide (200 ≤ statusCode ∧ statusCode < 300)
  | _ => false

/-- Is this a result? -/
def isResult : Op n → Bool
  | .recordResult .. => true
  | _ => false

/-- Is this an interval report? -/
def isInterval : Op n → Bool
  | .reportIntervalResults _ => true
  | _ => false

/-- The bytes recorded as written. -/
def bytesSent : Op n → Nat
  | .recordWrite _ count => count
  | _ => 0

/-- The bytes recorded as read. -/
def bytesReceived : Op n → Nat
  | .recordRead _ count => count
  | _ => 0

end Op

/-- The steps after the last interval report. -/
def sinceInterval (ops : List (Op n)) : List (Op n) := ops.rtakeWhile fun op => !op.isInterval

/-- A benchmark reports what was recorded. -/
structure Conserves (ops : List (Op n)) (x : BenchmarkResults × List BenchmarkIntervalResults) :
    Prop where
  successful : x.1.successfulRequests = ops.countP Op.isSuccess
  unsuccessful : x.1.unsuccessfulRequests = ops.countP Op.isFailure
  completed : x.1.completedRequests = x.1.successfulRequests + x.1.unsuccessfulRequests
  latencies : x.1.completedRequests = x.1.allLatencies.length
  sent : x.1.totalBytesSent = (ops.map Op.bytesSent).sum
  received : x.1.totalBytesReceived = (ops.map Op.bytesReceived).sum
  socketErrors : x.1.socketErrors = ops.count .recordSocketError
  connectionsOpened : x.1.connectionsOpened = ops.count .recordConnectionOpen
  intervals : x.1.successfulRequests =
    (x.2.map BenchmarkIntervalResults.successfulRequests).sum +
      (sinceInterval ops).countP Op.isSuccess

/-! ### Weights -/

/-- The sum of a count over the threads. -/
def live (f : Counters → Nat) (b : Benchmark n) : Nat := ∑ thread, f (b.counters thread)

/-- The sum of a count over the accumulated results and the threads. -/
def weigh (f : Counters → Nat) (b : Benchmark n) : Nat :=
  (b.accumulatedResults.map f).sum + b.live f

/-- The totals of some accumulated results. -/
def total (results : List Counters) : BenchmarkTotals :=
  results.foldl (fun t c => (t.addBytes c).addRequests c.successfulRequests c.failedRequests) {}

section Weights

variable {f : Counters → Nat} {b : Benchmark n} {thread : Fin n}

/-- What a thread has is added up with the others. -/
theorem live_update (f : Counters → Nat) (b : Benchmark n) (thread : Fin n) (c : Counters) :
    (∑ other, f (Function.update b.counters thread c other)) + f (b.counters thread) =
      b.live f + f c := by
  have split : ∀ g : Fin n → Nat, ∑ other, g other =
      g thread + ∑ other ∈ Finset.univ.erase thread, g other := fun g =>
    (Finset.add_sum_erase _ g (Finset.mem_univ thread)).symm
  have rest : ∑ other ∈ Finset.univ.erase thread, f (Function.update b.counters thread c other) =
      ∑ other ∈ Finset.univ.erase thread, f (b.counters other) := by
    refine Finset.sum_congr rfl fun other member => ?_
    rw [Function.update_of_ne (Finset.ne_of_mem_erase member)]
  rw [live, split fun other => f (Function.update b.counters thread c other), rest,
    split fun other => f (b.counters other), Function.update_self]
  omega

/-- **Recording adds to the weight what it counts.** -/
theorem weigh_record {change : Counters → Counters} {more : Nat}
    (counts : ∀ c, f (change c) = f c + more) :
    (b.record thread change).weigh f = b.weigh f + more := by
  have moved := live_update f b thread (change (b.counters thread))
  rw [counts] at moved
  simp only [weigh, live, record] at moved ⊢
  omega

theorem live_record {change : Counters → Counters} {more : Nat}
    (counts : ∀ c, f (change c) = f c + more) :
    (b.record thread change).live f = b.live f + more := by
  have moved := live_update f b thread (change (b.counters thread))
  rw [counts] at moved
  simp only [live, record] at moved ⊢
  omega

/-- What an exchange takes from a thread. -/
theorem live_exchange (b : Benchmark n) (thread : Fin n) (empty : f {} = 0) :
    (b.exchangeCounters thread).live f + f (b.counters thread) = b.live f := by
  have moved := live_update f b thread {}
  rw [empty] at moved
  exact moved

theorem total_append (results : List Counters) (c : Counters) : total (results ++ [c]) =
    ((total results).addBytes c).addRequests c.successfulRequests c.failedRequests := by
  simp [total]

/-- The totals are sums. -/
theorem total_eq (results : List Counters) : total results =
    { successfulRequests := (results.map Counters.successfulRequests).sum
      unsuccessfulRequests := (results.map Counters.failedRequests).sum
      totalBytesSent := (results.map Counters.bytesWritten).sum
      totalBytesReceived := (results.map Counters.bytesRead).sum } := by
  induction results using List.reverseRecOn with
  | nil => rfl
  | append_singleton results c ih =>
    rw [total_append, ih]
    simp [BenchmarkTotals.addBytes, BenchmarkTotals.addRequests]

end Weights

/-! ### The loops over the threads -/

section Loops

variable {f : Counters → Nat} {b : Benchmark n} {x : Benchmark n × Interval}

theorem weigh_collect (empty : f {} = 0) (thread : Fin n) : (b.collect thread).weigh f = b.weigh f := by
  have moved := live_exchange b thread empty
  simp only [weigh, collect, live, List.map_append, List.sum_append, List.map_cons, List.map_nil,
    List.sum_cons, List.sum_nil] at moved ⊢
  omega

theorem weigh_collectInterval (empty : f {} = 0) (thread : Fin n) :
    (collectInterval x thread).1.weigh f = x.1.weigh f := by
  have moved := live_exchange x.1 thread empty
  simp only [weigh, collectInterval, live, List.map_append, List.sum_append, List.map_cons,
    List.map_nil, List.sum_cons, List.sum_nil] at moved ⊢
  omega

/-- What a loop over the threads keeps, if every turn keeps it. -/
theorem loop_keeps {σ : Type} {P : σ → Prop} {turn : σ → Fin n → σ}
    (keeps : ∀ s thread, P s → P (turn s thread)) (threads : List (Fin n)) {s : σ} (before : P s) :
    P (threads.foldl turn s) := by
  induction threads generalizing s with
  | nil => exact before
  | cons thread rest ih => exact ih (keeps s thread before)

/-- A loop that exchanges the counters of every thread leaves none with a count. -/
theorem loop_empties {σ : Type} {turn : σ → Fin n → σ} (counters : σ → Fin n → Counters)
    (exchanges : ∀ s thread, counters (turn s thread) = Function.update (counters s) thread {})
    (s : σ) : counters ((List.finRange n).foldl turn s) = fun _ => {} := by
  have emptied : ∀ (threads : List (Fin n)) (s : σ) (thread : Fin n),
      (thread ∈ threads ∨ counters s thread = {}) → counters (threads.foldl turn s) thread = {} := by
    intro threads
    induction threads with
    | nil => exact fun s thread known => known.resolve_left List.not_mem_nil
    | cons first rest ih =>
      intro s thread known
      refine ih (turn s first) thread ?_
      rw [exchanges]
      by_cases same : thread = first
      · exact .inr (by rw [same, Function.update_self])
      · rw [Function.update_of_ne same]
        exact known.imp_left fun member => (List.mem_cons.mp member).resolve_left same
  funext thread
  exact emptied _ s thread (.inl (List.mem_finRange thread))

end Loops

/-! ### Runs -/

/-- A count of the threads and what each step adds to it. -/
structure Measure (n : Nat) where
  of : Counters → Nat
  adds : Op n → Nat
  empty : of {} = 0
  result : ∀ thread statusCode latency c,
    of (c.recordResult statusCode latency) = of c + adds (.recordResult thread statusCode latency)
  read : ∀ thread count c, of (c.recordRead count) = of c + adds (.recordRead thread count)
  written : ∀ thread count c, of (c.recordWrite count) = of c + adds (.recordWrite thread count)
  socketError : adds .recordSocketError = 0
  connectionOpen : adds .recordConnectionOpen = 0
  interval : ∀ now, adds (.reportIntervalResults now) = 0

/-- Results of one kind: those for which `good` holds of the status. -/
def results (good : Int → Bool) (of : Counters → Nat) (empty : of {} = 0)
    (result : ∀ statusCode latency c,
      of (Counters.recordResult statusCode latency c) = of c + (good statusCode).toNat)
    (read : ∀ count c, of (Counters.recordRead count c) = of c)
    (written : ∀ count c, of (Counters.recordWrite count c) = of c) : Measure n where
  of := of
  adds := fun
    | .recordResult _ statusCode _ => (good statusCode).toNat
    | _ => 0
  empty := empty
  result := fun _ => result
  read := fun _ => read
  written := fun _ => written
  socketError := rfl
  connectionOpen := rfl
  interval := fun _ => rfl

/-- The successful requests. -/
def successes : Measure n :=
  results (fun statusCode => decide (200 ≤ statusCode ∧ statusCode < 300))
    Counters.successfulRequests rfl
    (fun statusCode latency c => by
      by_cases success : 200 ≤ statusCode ∧ statusCode < 300 <;>
        simp [Counters.recordResult, Counters.count, Counters.push, success])
    (fun _ _ => rfl) fun _ _ => rfl

/-- The failed requests. -/
def failures : Measure n :=
  results (fun statusCode => !decide (200 ≤ statusCode ∧ statusCode < 300))
    Counters.failedRequests rfl
    (fun statusCode latency c => by
      by_cases success : 200 ≤ statusCode ∧ statusCode < 300 <;>
        simp [Counters.recordResult, Counters.count, Counters.push, success])
    (fun _ _ => rfl) fun _ _ => rfl

/-- The latencies. -/
def latencies : Measure n :=
  results (fun _ => true) (fun c => c.latencies.length) rfl
    (fun statusCode latency c => by
      unfold Counters.recordResult Counters.count Counters.push
      split <;> simp)
    (fun _ _ => rfl) fun _ _ => rfl

/-- The bytes read. -/
def bytesRead : Measure n where
  of := Counters.bytesRead
  adds := Op.bytesReceived
  empty := rfl
  result := fun _ statusCode latency c => by
    unfold Counters.recordResult Counters.count Counters.push
    split <;> rfl
  read := fun _ _ _ => rfl
  written := fun _ _ _ => rfl
  socketError := rfl
  connectionOpen := rfl
  interval := fun _ => rfl

/-- The bytes written. -/
def bytesWritten : Measure n where
  of := Counters.bytesWritten
  adds := Op.bytesSent
  empty := rfl
  result := fun _ statusCode latency c => by
    unfold Counters.recordResult Counters.count Counters.push
    split <;> rfl
  read := fun _ _ _ => rfl
  written := fun _ _ _ => rfl
  socketError := rfl
  connectionOpen := rfl
  interval := fun _ => rfl

section Runs

variable {b : Benchmark n}

theorem weigh_reportInterval (m : Measure n) (now : Int) :
    (b.reportIntervalResults now).1.weigh m.of = b.weigh m.of :=
  loop_keeps (P := fun x : Benchmark n × Interval => x.1.weigh m.of = b.weigh m.of)
    (fun _ thread before => (weigh_collectInterval m.empty thread).trans before) _ rfl

/-- **A step adds to every weight what it counts.** -/
theorem weigh_step (m : Measure n) (op : Op n) :
    (b.step op).1.weigh m.of = b.weigh m.of + m.adds op := by
  cases op with
  | recordResult thread statusCode latency =>
    exact weigh_record (m.result thread statusCode latency)
  | recordRead thread count => exact weigh_record (m.read thread count)
  | recordWrite thread count => exact weigh_record (m.written thread count)
  | recordSocketError =>
    rw [m.socketError, step]
    dsimp only
    split <;> rfl
  | recordConnectionOpen =>
    rw [m.connectionOpen, step]
    dsimp only
    split <;> rfl
  | reportIntervalResults now =>
    rw [m.interval]
    exact weigh_reportInterval m now

theorem run_concat (ops : List (Op n)) (op : Op n) : b.run (ops ++ [op]) =
    (((b.run ops).1.step op).1, (b.run ops).2 ++ ((b.run ops).1.step op).2.toList) := by
  simp [run]

/-- **Steps one after the other add up.** -/
theorem weigh_run (m : Measure n) (ops : List (Op n)) :
    (b.run ops).1.weigh m.of = b.weigh m.of + (ops.map m.adds).sum := by
  induction ops using List.reverseRecOn with
  | nil => rfl
  | append_singleton ops op ih =>
    rw [run_concat, weigh_step, ih, List.map_append, List.sum_append, List.map_singleton,
      List.sum_singleton, Nat.add_assoc]

/-- A measure that counts steps of one kind. -/
theorem sum_adds {m : Measure n} {p : Op n → Bool} (adds : ∀ op, m.adds op = (p op).toNat)
    (ops : List (Op n)) : (ops.map m.adds).sum = ops.countP p := by
  induction ops with
  | nil => rfl
  | cons op rest ih =>
    rw [List.map_cons, List.sum_cons, ih, List.countP_cons, adds]
    cases p op <;> simp [Nat.add_comm]

theorem successes_adds (op : Op n) : successes.adds op = op.isSuccess.toNat := by
  cases op <;> rfl

theorem failures_adds (op : Op n) : failures.adds op = op.isFailure.toNat := by
  cases op <;> rfl

theorem latencies_adds (op : Op n) : latencies.adds op = op.isResult.toNat := by
  cases op <;> rfl

/-! ### The rest of a run -/

/-- What a run keeps besides the weights: reporting goes on, errors and openings are counted, and the
totals are those of the accumulated results. -/
structure Running (ops : List (Op n)) (b : Benchmark n) : Prop where
  reporting : b.shared.reporting = true
  socketErrors : b.shared.socketErrors = ops.count .recordSocketError
  connectionsOpened : b.shared.connectionsOpened = ops.count .recordConnectionOpen
  settled : b.totals = total b.accumulatedResults

theorem Running.record {ops : List (Op n)} (running : Running ops b) {op : Op n} (thread : Fin n)
    (change : Counters → Counters) (noError : op ≠ .recordSocketError)
    (noOpen : op ≠ .recordConnectionOpen) : Running (ops ++ [op]) (b.record thread change) := by
  refine ⟨running.reporting, ?_, ?_, running.settled⟩
  · rw [List.count_append, List.count_singleton, beq_false_of_ne noError]
    exact running.socketErrors
  · rw [List.count_append, List.count_singleton, beq_false_of_ne noOpen]
    exact running.connectionsOpened

/-- An interval report adds its objects to the totals. -/
theorem settled_reportInterval (settled : b.totals = total b.accumulatedResults) (now : Int) :
    (b.reportIntervalResults now).1.totals =
      total (b.reportIntervalResults now).1.accumulatedResults :=
  loop_keeps (P := fun x : Benchmark n × Interval =>
      x.1.totals.addRequests x.2.successes x.2.failures = total x.1.accumulatedResults)
    (fun x thread before => by
      rw [collectInterval, total_append, ← before]
      simp only [BenchmarkTotals.addRequests, BenchmarkTotals.addBytes, Nat.add_assoc])
    _ (by simpa [BenchmarkTotals.addRequests] using settled)

theorem shared_reportInterval (now : Int) : (b.reportIntervalResults now).1.shared = b.shared := by
  have kept : ((List.finRange n).foldl collectInterval (b, {})).1.shared = b.shared :=
    loop_keeps (P := fun x : Benchmark n × Interval => x.1.shared = b.shared)
      (fun x thread before => show (collectInterval x thread).1.shared = b.shared from before) _ rfl
  exact kept

theorem Running.step {ops : List (Op n)} (running : Running ops b) (op : Op n) :
    Running (ops ++ [op]) (b.step op).1 := by
  have reporting := running.reporting
  cases op with
  | recordResult thread statusCode latency =>
    exact running.record thread _ (by simp) (by simp)
  | recordRead thread count => exact running.record thread _ (by simp) (by simp)
  | recordWrite thread count => exact running.record thread _ (by simp) (by simp)
  | recordSocketError =>
    simp only [Benchmark.step, reporting, if_true]
    exact ⟨rfl, by simp [running.socketErrors], by simp [running.connectionsOpened],
      running.settled⟩
  | recordConnectionOpen =>
    simp only [Benchmark.step, reporting, if_true]
    exact ⟨rfl, by simp [running.socketErrors], by simp [running.connectionsOpened],
      running.settled⟩
  | reportIntervalResults now =>
    have shared := shared_reportInterval (b := b) now
    exact ⟨by rw [Benchmark.step, shared]; exact reporting,
      by rw [Benchmark.step, shared]; simp [running.socketErrors],
      by rw [Benchmark.step, shared]; simp [running.connectionsOpened],
      settled_reportInterval running.settled now⟩

theorem Running.run (running : Running [] b) (ops : List (Op n)) : Running ops (b.run ops).1 := by
  induction ops using List.reverseRecOn with
  | nil => exact running
  | append_singleton ops op ih =>
    rw [run_concat]
    exact ih.step op

/-! ### Intervals -/

theorem counters_reportInterval (now : Int) :
    (b.reportIntervalResults now).1.counters = fun _ => {} :=
  loop_empties (fun x : Benchmark n × Interval => x.1.counters) (fun _ _ => rfl) (b, {})

/-- An interval report returns what the threads had. -/
theorem reported_reportInterval (now : Int) : (b.reportIntervalResults now).2.successfulRequests =
    int32 (b.live Counters.successfulRequests) := by
  have moved : ((List.finRange n).foldl collectInterval (b, {})).2.successes +
      ((List.finRange n).foldl collectInterval (b, {})).1.live Counters.successfulRequests =
      b.live Counters.successfulRequests :=
    loop_keeps (P := fun x : Benchmark n × Interval => x.2.successes +
        x.1.live Counters.successfulRequests = b.live Counters.successfulRequests)
      (fun x thread before => by
        have empty : ({} : Counters).successfulRequests = 0 := rfl
        have moved : (x.1.exchangeCounters thread).live Counters.successfulRequests + _ = _ :=
          live_exchange x.1 thread empty
        simp only [live, collectInterval] at moved before ⊢
        omega)
      _ (Nat.zero_add _)
  have empty : ((List.finRange n).foldl collectInterval (b, {})).1.live
      Counters.successfulRequests = 0 := by
    have counters := counters_reportInterval (b := b) now
    simp only [reportIntervalResults] at counters
    simp [live, counters]
  rw [empty, Nat.add_zero] at moved
  rw [reportIntervalResults, moved]

theorem sinceInterval_concat (ops : List (Op n)) (op : Op n) : sinceInterval (ops ++ [op]) =
    if op.isInterval then [] else sinceInterval ops ++ [op] := by
  rw [sinceInterval, List.rtakeWhile_concat, sinceInterval]
  cases op.isInterval <;> rfl

/-- The successes that interval reports returned, and those since. -/
structure Reported (ops : List (Op n)) (x : Benchmark n × List BenchmarkIntervalResults) : Prop where
  since : x.1.live Counters.successfulRequests = (sinceInterval ops).countP Op.isSuccess
  sum : (x.2.map BenchmarkIntervalResults.successfulRequests).sum +
    (x.1.live Counters.successfulRequests : Int) = ops.countP Op.isSuccess

theorem int32_eq {count : Nat} (few : count < 2 ^ 31) : int32 count = count :=
  Int.bmod_eq_of_le (by omega) (by omega)

theorem int64_eq {count : Nat} (few : count < 2 ^ 63) : int64 count = count :=
  Int.bmod_eq_of_le (by omega) (by omega)

/-- A step other than an interval report adds what it counts to its thread. -/
theorem live_step (m : Measure n) {op : Op n} (inside : op.isInterval = false) :
    (b.step op).1.live m.of = b.live m.of + m.adds op ∧ (b.step op).2 = none := by
  cases op with
  | recordResult thread statusCode latency =>
    exact ⟨live_record (m.result thread statusCode latency), rfl⟩
  | recordRead thread count => exact ⟨live_record (m.read thread count), rfl⟩
  | recordWrite thread count => exact ⟨live_record (m.written thread count), rfl⟩
  | recordSocketError =>
    rw [m.socketError, step]
    dsimp only
    split <;> exact ⟨rfl, rfl⟩
  | recordConnectionOpen =>
    rw [m.connectionOpen, step]
    dsimp only
    split <;> exact ⟨rfl, rfl⟩
  | reportIntervalResults now => cases inside

theorem Reported.step {ops : List (Op n)} {x : Benchmark n × List BenchmarkIntervalResults}
    (reported : Reported ops x) (few : x.1.live Counters.successfulRequests < 2 ^ 31) (op : Op n) :
    Reported (ops ++ [op]) ((x.1.step op).1, x.2 ++ (x.1.step op).2.toList) := by
  by_cases inside : op.isInterval
  · cases op with
    | reportIntervalResults now =>
      have counters := counters_reportInterval (b := x.1) now
      have empty : (x.1.reportIntervalResults now).1.live Counters.successfulRequests = 0 := by
        simp [live, counters]
      have sum := reported.sum
      constructor
      · rw [sinceInterval_concat, if_pos inside]
        exact empty
      · simp only [Benchmark.step, Option.toList_some, List.map_append, List.map_singleton,
          List.sum_append, List.sum_singleton, empty, reported_reportInterval, int32_eq few,
          List.countP_append, List.countP_singleton, Op.isSuccess]
        simpa using sum
    | _ => cases inside
  · rw [Bool.not_eq_true] at inside
    obtain ⟨grown, silent⟩ := live_step (b := x.1) successes inside
    rw [successes_adds] at grown
    have counted : [op].countP Op.isSuccess = op.isSuccess.toNat := by
      rw [List.countP_singleton]
      cases op.isSuccess <;> rfl
    have sum := reported.sum
    have since := reported.since
    constructor
    · rw [sinceInterval_concat, inside, if_neg Bool.false_ne_true, List.countP_append, counted, ← since]
      exact grown
    · rw [silent, Option.toList_none, List.append_nil, List.countP_append, counted]
      have grown : (x.1.step op).1.live Counters.successfulRequests =
        x.1.live Counters.successfulRequests + op.isSuccess.toNat := grown
      dsimp only
      rw [grown]
      omega

theorem Reported.run (reported : Reported [] (b, [])) (ops : List (Op n))
    (few : ops.countP Op.isSuccess < 2 ^ 31) : Reported ops (b.run ops) := by
  induction ops using List.reverseRecOn with
  | nil => exact reported
  | append_singleton ops op ih =>
    rw [List.countP_append] at few
    have before := ih (by omega)
    have sum := before.sum
    have since := before.since
    have part : (sinceInterval ops).countP Op.isSuccess ≤ ops.countP Op.isSuccess :=
      (List.rtakeWhile_suffix _ ops).sublist.countP_le
    rw [run_concat]
    exact before.step (by omega) op

/-! ### The whole benchmark -/

theorem recordStart_counters (startReporting : Bool) (now : Int) :
    (b.recordStart startReporting now).counters = fun _ => {} :=
  loop_empties (fun b : Benchmark n => b.counters) (fun _ _ => rfl) _

/-- What `RecordStart` leaves besides the counters. -/
theorem recordStart_rest (startReporting : Bool) (now : Int) :
    (b.recordStart startReporting now).shared = ⟨startReporting, 0, 0⟩ ∧
      (b.recordStart startReporting now).totals = {} ∧
      (b.recordStart startReporting now).accumulatedResults = [] := by
  have kept := loop_keeps
    (P := fun b : Benchmark n => b.shared.socketErrors = 0 ∧ b.shared.connectionsOpened = 0 ∧
      b.totals = {} ∧ b.accumulatedResults = [])
    (fun b thread before => show (b.exchangeCounters thread).shared.socketErrors = 0 ∧ _ from before)
    (List.finRange n)
    (show ({ b with
      totals := {}
      shared.socketErrors := 0
      shared.connectionsOpened := 0
      accumulatedResults := [] } : Benchmark n).shared.socketErrors = 0 ∧ _ from ⟨rfl, rfl, rfl, rfl⟩)
  obtain ⟨errors, opened, totals, accumulated⟩ := kept
  refine ⟨?_, totals, accumulated⟩
  unfold recordStart
  dsimp only at errors opened ⊢
  rw [errors, opened]

theorem recordStop_counters (now : Int) : (b.recordStop now).counters = fun _ => {} :=
  loop_empties (fun b : Benchmark n => b.counters) (fun _ _ => rfl) _

theorem weigh_recordStop (m : Measure n) (now : Int) :
    ((b.recordStop now).accumulatedResults.map m.of).sum = b.weigh m.of := by
  have kept : (b.recordStop now).weigh m.of = b.weigh m.of :=
    loop_keeps (P := fun c : Benchmark n => c.weigh m.of = b.weigh m.of)
      (fun c thread before => (weigh_collect m.empty thread).trans before) (List.finRange n)
      (show ({ b with shared.reporting := false } : Benchmark n).weigh m.of = b.weigh m.of from rfl)
  have empty : (b.recordStop now).live m.of = 0 := by
    simp [live, recordStop_counters, m.empty]
  rwa [weigh, empty, Nat.add_zero] at kept

theorem settled_recordStop (settled : b.totals = total b.accumulatedResults) (now : Int) :
    (b.recordStop now).totals = total (b.recordStop now).accumulatedResults :=
  loop_keeps (P := fun c : Benchmark n => c.totals = total c.accumulatedResults)
    (fun c thread before => by rw [collect, total_append, ← before]) (List.finRange n) settled

theorem shared_recordStop (now : Int) :
    (b.recordStop now).shared = { b.shared with reporting := false } :=
  loop_keeps (P := fun c : Benchmark n => c.shared = { b.shared with reporting := false })
    (fun c thread before => show (c.collect thread).shared = _ from before) (List.finRange n) rfl

/-- What a benchmark reports, narrowed to the types of the results. -/
structure Narrowed (ops : List (Op n)) (r : BenchmarkResults) : Prop where
  successful : r.successfulRequests = int32 (ops.countP Op.isSuccess)
  unsuccessful : r.unsuccessfulRequests = int32 (ops.countP Op.isFailure)
  completed : r.completedRequests = int32 (ops.countP Op.isResult)
  latencies : r.allLatencies.length = ops.countP Op.isResult
  sent : r.totalBytesSent = int64 (ops.map Op.bytesSent).sum
  received : r.totalBytesReceived = int64 (ops.map Op.bytesReceived).sum
  socketErrors : r.socketErrors = int32 (ops.count .recordSocketError)
  connectionsOpened : r.connectionsOpened = int32 (ops.count .recordConnectionOpen)

/-- Every result is a success or a failure. -/
theorem countP_isResult (ops : List (Op n)) :
    ops.countP Op.isResult = ops.countP Op.isSuccess + ops.countP Op.isFailure := by
  induction ops with
  | nil => rfl
  | cons op rest ih =>
    rw [List.countP_cons, List.countP_cons, List.countP_cons, ih]
    cases op with
    | recordResult thread statusCode latency =>
      by_cases success : 200 ≤ statusCode ∧ statusCode < 300 <;>
        simp [Op.isSuccess, Op.isFailure, Op.isResult, success] <;> omega
    | _ => rfl

/-- **A benchmark reports what was recorded**, whatever happened before, up to narrowing. -/
theorem measure_narrowed (b : Benchmark n) (start stop : Int) (ops : List (Op n)) :
    Narrowed ops (b.measure start stop ops).1 := by
  obtain ⟨shared, totals, accumulated⟩ := recordStart_rest (b := b) true start
  have counters := recordStart_counters (b := b) true start
  have begun : Running [] (b.recordStart true start) :=
    ⟨by rw [shared], by rw [shared]; rfl, by rw [shared]; rfl, by rw [totals, accumulated]; rfl⟩
  have running := begun.run ops
  have weighs : ∀ m : Measure n,
      (((b.recordStart true start).run ops).1.recordStop stop |>.accumulatedResults.map m.of).sum =
        (ops.map m.adds).sum := by
    intro m
    have nothing : (b.recordStart true start).weigh m.of = 0 := by
      simp [weigh, live, counters, accumulated, m.empty]
    rw [weigh_recordStop, weigh_run, nothing, Nat.zero_add]
  have settled := settled_recordStop running.settled stop
  have shared := shared_recordStop (b := ((b.recordStart true start).run ops).1) stop
  have reports : (b.measure start stop ops).1 =
    (((b.recordStart true start).run ops).1.recordStop stop).reportResults := rfl
  rw [reports]
  generalize ((b.recordStart true start).run ops).1.recordStop stop = s at weighs settled shared ⊢
  have successful : (s.accumulatedResults.map Counters.successfulRequests).sum =
    ops.countP Op.isSuccess := (weighs successes).trans (sum_adds successes_adds ops)
  have unsuccessful : (s.accumulatedResults.map Counters.failedRequests).sum =
    ops.countP Op.isFailure := (weighs failures).trans (sum_adds failures_adds ops)
  have latencies : (s.accumulatedResults.map fun c => c.latencies.length).sum =
    ops.countP Op.isResult := (weighs latencies).trans (sum_adds latencies_adds ops)
  have sent : (s.accumulatedResults.map Counters.bytesWritten).sum =
    (ops.map Op.bytesSent).sum := weighs bytesWritten
  have received : (s.accumulatedResults.map Counters.bytesRead).sum =
    (ops.map Op.bytesReceived).sum := weighs bytesRead
  rw [total_eq, successful, unsuccessful, sent, received] at settled
  constructor
  · rw [reportResults, settled]
  · rw [reportResults, settled]
  · rw [reportResults, settled, countP_isResult, Nat.cast_add]
  · rw [reportResults, List.length_mergeSort, List.length_flatMap]
    exact latencies
  · rw [reportResults, settled]
  · rw [reportResults, settled]
  · rw [reportResults, shared, running.socketErrors]
  · rw [reportResults, shared, running.connectionsOpened]

/-- **As many socket errors as an `int32_t` does not hold are reported as a negative number.** -/
theorem counts_wrap : ¬ ∀ (n : Nat) (b : Benchmark n) (start stop : Int) (ops : List (Op n)),
    ops.countP Op.isResult < 2 ^ 31 → Conserves ops (b.measure start stop ops) := by
  intro conserves
  have few : (List.replicate (2 ^ 31) (Op.recordSocketError : Op 1)).countP Op.isResult < 2 ^ 31 := by
    rw [List.countP_replicate]
    decide
  have reported := (conserves 1 {} 0 0 _ few).socketErrors
  rw [(measure_narrowed {} 0 0 _).socketErrors, List.count_replicate_self] at reported
  exact absurd reported (by decide)

/-- **Within the range of its results a benchmark reports what was recorded.** -/
theorem counts_conserved (b : Benchmark n) (start stop : Int) (ops : List (Op n))
    (results : ops.countP Op.isResult < 2 ^ 31) (errors : ops.count .recordSocketError < 2 ^ 31)
    (opened : ops.count .recordConnectionOpen < 2 ^ 31) (sent : (ops.map Op.bytesSent).sum < 2 ^ 63)
    (received : (ops.map Op.bytesReceived).sum < 2 ^ 63) :
    Conserves ops (b.measure start stop ops) := by
  have narrowed := measure_narrowed b start stop ops
  have both := countP_isResult ops
  have successful := narrowed.successful.trans (int32_eq (by omega))
  have unsuccessful := narrowed.unsuccessful.trans (int32_eq (by omega))
  have completed := narrowed.completed.trans (int32_eq results)
  have counters := recordStart_counters (b := b) true start
  have begun : Reported [] (b.recordStart true start, []) :=
    ⟨by simp [live, counters, sinceInterval], by simp [live, counters]⟩
  have reported := begun.run ops (by omega)
  refine ⟨successful, unsuccessful, ?_, ?_, ?_, ?_, ?_, ?_, ?_⟩
  · rw [completed, successful, unsuccessful, both, Nat.cast_add]
  · rw [completed, narrowed.latencies]
  · rw [narrowed.sent, int64_eq sent]
  · rw [narrowed.received, int64_eq received]
  · rw [narrowed.socketErrors, int32_eq errors]
  · rw [narrowed.connectionsOpened, int32_eq opened]
  · rw [successful, ← reported.sum, reported.since]
    rfl

theorem counts_conserved_example :
    let ops : List (Op 2) := [.recordResult 0 200 5, .recordRead 0 100, .reportIntervalResults 10,
      .recordResult 1 404 7, .recordSocketError]
    Conserves ops (({} : Benchmark 2).measure 0 20 ops) :=
  counts_conserved _ _ _ _ (by decide) (by decide) (by decide) (by decide) (by decide)

end Runs

end Benchmark

end Apib
