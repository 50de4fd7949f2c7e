/-
**The counters and the servers.**

A thread counts the results of all its connections together. Where every connection is in a dialogue with
its server, the counts are those of the responses that the servers gave to the last byte, by their own
status codes.

* `Counted.move`: the counters are the numbers of the status codes recorded;
* `sum_history`: what is counted over all calls is counted connection by connection;
* `counters_true`: **the counters of a thread are what its servers said**.
-/

import Apib.Dialogue.Runs
import Apib.Runs.Accounting
import Mathlib.Algebra.BigOperators.Group.Finset.Piecewise

namespace Apib

open Http

/-- Is this the status code of a success? -/
def isSuccess (statusCode : Nat) : Bool := 200 ≤ statusCode && statusCode < 300

/-- The counters are the numbers of the status codes recorded. -/
structure Counted (t : IOThread) : Prop where
  successes : t.counters.successfulRequests = (statuses (allCalls t.log)).countP isSuccess
  failures : t.counters.failedRequests = (statuses (allCalls t.log)).countP fun s => !isSuccess s

section Counted

variable {cfg : Config} {gate : Gate} {p q : Point} {x y : Ctx}

/-- A result is counted. -/
theorem Counted.result {t t' : IOThread} (before : Counted t) (statusCode : Nat)
    (log : statuses (allCalls t'.log) = statuses (allCalls t.log) ++ [statusCode])
    (successes : t'.counters.successfulRequests =
      t.counters.successfulRequests + if isSuccess statusCode then 1 else 0)
    (failures : t'.counters.failedRequests =
      t.counters.failedRequests + if isSuccess statusCode then 0 else 1) : Counted t' := by
  constructor
  · rw [successes, before.successes, log, List.countP_append, List.countP_singleton]
  · rw [failures, before.failures, log, List.countP_append, List.countP_singleton]
    cases isSuccess statusCode <;> rfl

theorem Counted.move (before : Counted x.t) (move : Move cfg gate (p, x) (q, y)) : Counted y.t := by
  have recorded : ∀ env, (x.ioStop.answered env).t.counters.successfulRequests =
        x.t.counters.successfulRequests + (if isSuccess x.c.parser.statusCode then 1 else 0) ∧
      (x.ioStop.answered env).t.counters.failedRequests =
        x.t.counters.failedRequests + if isSuccess x.c.parser.statusCode then 0 else 1 := by
    intro env
    by_cases success : 200 ≤ x.c.parser.statusCode ∧ x.c.parser.statusCode < 300 <;>
      simp [isSuccess, success]
  cases move with
  | connect x y env caller isClosed connected =>
    rw [Ctx.connect_eq_ok connected]
    exact ⟨by simpa [statuses] using before.successes, by simpa [statuses] using before.failures⟩
  | leave x env | change x env | stay x env =>
    exact before.result x.c.parser.statusCode (by simp [statuses]) (recorded env).1 (recorded env).2
  | _ => exact ⟨by simpa [statuses] using before.successes, by simpa [statuses] using before.failures⟩

theorem Counted.threadMove {t t' : IOThread} (before : Counted t) (move : ThreadMove t t') :
    Counted t' := by
  obtain ⟨successes, failures⟩ := before
  cases move <;>
    exact ⟨by simpa [allCalls, statuses] using successes, by simpa [allCalls, statuses] using failures⟩

end Counted

/-- The counts as an invariant. -/
def resultCounts (cfg : Config) : Invariant cfg Gate.free where
  thread := Counted
  conn := fun _ _ => True
  move := fun move _ counted _ => ⟨counted.move move, trivial⟩
  elsewhere := fun _ _ _ => trivial
  born := fun _ _ _ _ => trivial
  removed := fun _ _ _ _ => trivial
  threadMove := fun move counted => counted.threadMove move

/-! ### Connection by connection -/

/-- **What is counted over all calls is counted connection by connection.** -/
theorem sum_history (count : List Event → Nat)
    (add : ∀ first second, count (first ++ second) = count first + count second) (n : Nat)
    (log : List Entry) (below : ∀ id event, Entry.conn id event ∈ log → id < n) :
    count (allCalls log) = ∑ id ∈ Finset.range n, count (history id log) := by
  have none_counted : count [] = 0 := by
    have twice := add [] []
    rw [List.append_nil] at twice
    omega
  induction log with
  | nil => simp [none_counted]
  | cons entry log ih =>
    have rest := ih fun id event member => below id event (List.mem_cons_of_mem _ member)
    cases entry with
    | conn owner event =>
      have inside := below owner event List.mem_cons_self
      have each : ∀ id, count (history id (.conn owner event :: log)) =
          (if id = owner then count [event] else 0) + count (history id log) := by
        intro id
        by_cases mine : id = owner
        · subst mine
          rw [history_conn, if_pos rfl, ← add, List.singleton_append]
        · have away : history id (.conn owner event :: log) = history id log := by
            simp [history, Ne.symm mine]
          rw [away, if_neg mine, Nat.zero_add]
      rw [allCalls_conn, ← List.singleton_append, add, rest]
      simp only [each, Finset.sum_add_distrib]
      rw [Finset.sum_ite_eq', if_pos (Finset.mem_range.mpr inside)]
    | stop | setConnections => exact rest

/-! ### What the servers said -/

/-- The status codes of the responses that the server gave to the last byte. -/
def delivered (script : Nat → Message) (past : List Exchange) : List Nat :=
  past.zipIdx.filterMap fun entry =>
    if entry.1.received = (script entry.2).bytes.length then some (script entry.2).head.status else none

theorem Told.delivered {script : Nat → Message} {past : List Exchange} (told : Told script past) :
    past.flatMap Exchange.results = delivered script past := by
  induction past using List.reverseRecOn with
  | nil => rfl
  | append_singleton past e ih =>
    obtain ⟨before, last⟩ := told_concat.mp told
    rw [List.flatMap_append, ih before, Apib.delivered, Apib.delivered, List.zipIdx_append,
      List.filterMap_append]
    congr 1
    simp only [List.flatMap_cons, List.flatMap_nil, List.append_nil, last.results, List.zipIdx_cons,
      List.zipIdx_nil, List.filterMap_cons, List.filterMap_nil, Nat.zero_add]
    split <;> simp_all

/-- The status codes recorded are those of the responses delivered. -/
theorem delivered_counted (cfg : Config) (script : Nat → Nat → Message)
    (wellFormed : ∀ id k, (script id k).WellFormed cfg.httpVerb)
    (agrees : ∀ id k, Parse.Agrees (script id k)) {s : System}
    (reached : System.Reachable cfg (System.Serves script) s) (P : Nat → Bool) :
    (statuses (allCalls s.t.log)).countP P = ∑ id ∈ Finset.range s.heap.length,
      (delivered (script id) (exchanges (history id s.t.log))).countP P := by
  have answers := Parse.answers_of_agrees cfg.parserStrict wellFormed agrees
  have everywhere := (dialogues cfg script answers).reachable reached
  rw [sum_history (fun calls => (statuses calls).countP P) (by simp) s.heap.length s.t.log
    everywhere.watchers.logged]
  refine Finset.sum_congr rfl fun id member => ?_
  obtain ⟨c, found⟩ : ∃ c, s.heap[id]? = some c :=
    ⟨_, List.getElem?_eq_getElem (Finset.mem_range.mp member)⟩
  obtain ⟨told, recorded, -, -⟩ := everywhere.conns id c found
  have same : c.id = id := (everywhere.watchers.conns id c found).id
  simp only [System.ctx, Ctx.history, same] at told recorded
  rw [recorded, told.delivered]

/-- **The counters of a thread are what its servers said**: a success for every response with a status code
from 200 to 299 that was given to the last byte, a failure for every other one, and nothing for a response
that broke off. -/
theorem counters_true (cfg : Config) (script : Nat → Nat → Message)
    (wellFormed : ∀ id k, (script id k).WellFormed cfg.httpVerb)
    (agrees : ∀ id k, Parse.Agrees (script id k)) (s : System)
    (reached : System.Reachable cfg (System.Serves script) s) :
    s.t.counters.successfulRequests = ∑ id ∈ Finset.range s.heap.length,
        (delivered (script id) (exchanges (history id s.t.log))).countP isSuccess ∧
      s.t.counters.failedRequests = ∑ id ∈ Finset.range s.heap.length,
        (delivered (script id) (exchanges (history id s.t.log))).countP fun status => !isSuccess status := by
  have each := delivered_counted cfg script wellFormed agrees reached
  have counted : Counted s.t := by
    obtain ⟨reporting, envs, reached⟩ := reached
    exact ((resultCounts cfg).reachable_any (fun _ => ⟨rfl, rfl⟩) ⟨reporting, envs, reached.any⟩).thread
  exact ⟨counted.successes.trans (each _), counted.failures.trans (each _)⟩

theorem counters_true_example : ∃ s, System.dialogue = some s ∧ s.t.counters.successfulRequests = 1 ∧
    s.t.counters.successfulRequests = ∑ id ∈ Finset.range s.heap.length,
      (delivered (fun _ => hello) (exchanges (history id s.t.log))).countP isSuccess := by
  have counted : (System.dialogue.map fun s => s.t.counters.successfulRequests) = some 1 := by
    decide +kernel
  obtain ⟨s, ran, one⟩ := Option.map_eq_some_iff.mp counted
  exact ⟨s, ran, one, (counters_true System.oneConnection (fun _ _ => hello) (fun _ _ => hello_wellFormed)
    (fun _ _ => hello_agrees) s (System.dialogue_reached ran)).1⟩

end Apib
