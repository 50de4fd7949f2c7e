/-
**No counters are lost in an exchange.**

What every step of a call and of the reporter keeps, as long as no call is in the way of the reporter.

* `Kept.work`, `Kept.report`, `Kept.step`: one step.
* `swap_sound`: in every run where no object is added to the totals while a call is about to count in
  it, and none is deleted while a call still uses it, no result is lost and no deleted object is touched.
-/

import Apib.Reporting.Owners

namespace Apib

namespace Swap

variable {n : Nat}

/-! ### What the steps keep -/

/-- The object that the reporter has in hand. -/
def held (s : Swap n) : List Nat := (s.todo.head?.bind Task.pointer).toList

/-- The objects whose results have been added to the totals, or to the local counts. -/
def folded (s : Swap n) : List Nat :=
  match s.todo.head? with
  | some .clearResults => []
  | some (.store c) => s.accumulatedResults ++ [c]
  | _ => s.accumulatedResults

/-- All that has been added up. -/
def counted (s : Swap n) : Nat :=
  s.totals.successfulRequests + s.totals.unsuccessfulRequests +
    (s.interval.successes + s.interval.failures)

/-- What the steps keep. -/
structure Kept (s : Swap n) : Prop where
  owns : Owns s.heap s.counterPtr s.calls (s.accumulatedResults ++ s.held)
  counts : Counts s.counters s.calls s.folded s.counted
  plain : ∀ task ∈ s.todo.tail, task.plain = true
  interval : s.todo.getLast? = some .transfer ∨
    s.interval = {} ∧ ∀ task ∈ s.todo, task.isInterval = false
  untouched : s.touchedDeleted = false

section Steps

variable {s next : Swap n} {task : Task n} {rest : List (Task n)}

theorem held_plain (plain : ∀ task ∈ s.todo, task.plain = true) : s.held = [] := by
  unfold held
  cases todo : s.todo with
  | nil => rfl
  | cons task rest =>
    have first := plain task (by simp [todo])
    cases task <;> first | rfl | cases first

theorem folded_plain (plain : ∀ task ∈ s.todo, task.plain = true) :
    s.folded = s.accumulatedResults := by
  unfold folded
  cases todo : s.todo with
  | nil => rfl
  | cons task rest =>
    have first := plain task (by simp [todo])
    cases task <;> first | rfl | cases first

theorem counters_free (c : Nat) : (s.free c).counters = s.counters := by
  funext other
  unfold counters free
  dsimp only
  rw [List.getElem?_modify]
  cases s.heap[other]? with
  | none => rfl
  | some cell =>
    by_cases same : c = other <;> simp [same]

theorem counters_exchange (thread : Fin n) : (s.exchange thread).counters = s.counters := by
  funext other
  unfold counters exchange
  dsimp only
  rcases Nat.lt_trichotomy other s.heap.length with below | rfl | above
  · rw [List.getElem?_append_left below]
  · rw [List.getElem?_concat_length, List.getElem?_eq_none (Nat.le_refl _)]
    rfl
  · rw [List.getElem?_eq_none (by simp; omega), List.getElem?_eq_none (by omega)]

theorem counters_write {c : Nat} (alive : Alive s.heap c) (change : Counters → Counters) :
    (s.write c change).counters = Function.update s.counters c (change (s.counters c)) := by
  obtain ⟨cell, found, _⟩ := alive
  funext other
  unfold counters write
  dsimp only
  rw [List.getElem?_modify]
  by_cases same : other = c
  · subst same
    rw [Function.update_self, found]
    simp
  · rw [Function.update_of_ne same]
    cases s.heap[other]? with
    | none => rfl
    | some cell => simp [Ne.symm same]

theorem touched_write {c : Nat} (alive : Alive s.heap c) (change : Counters → Counters) :
    (s.write c change).touchedDeleted = s.touchedDeleted := by
  obtain ⟨cell, found, undeleted⟩ := alive
  simp [write, found, undeleted]

/-- **A step of a call keeps everything in order.** -/
theorem Kept.work (kept : Kept s) {i : Nat} {call : ResultCall n} (found : s.calls[i]? = some call)
    (taken : s.work i call = some next) : Kept next := by
  obtain ⟨owns, counts, plain, interval, untouched⟩ := kept
  have member := List.mem_of_getElem? found
  have apart : ∀ thread, s.counterPtr thread ∉ s.folded := by
    intro thread inside
    refine owns.apart thread ?_
    unfold folded at inside
    unfold held
    split at inside
    · cases inside
    · next c first => rwa [first]
    · exact List.mem_append_left _ inside
  have still : ∀ {change : Counters → Counters} {c : Nat} {point : CallPoint},
      call.point.uses = some c → (∀ p, point.uses = some p → p = c) →
      Owns (s.write c change).heap s.counterPtr (s.calls.set i { call with point })
        (s.accumulatedResults ++ s.held) := by
    intro change c point same goes
    refine (owns.write c change).moved fun other called p holds => .inl ?_
    rcases mem_set called with rfl | old
    · exact ⟨call, member, goes p holds ▸ same⟩
    · exact ⟨other, old, holds⟩
  unfold Swap.work at taken
  split at taken
  · next loading =>
    cases taken
    refine ⟨owns.moved fun other called p holds => ?_, counts.load found loading (apart call.thread),
      plain, interval, untouched⟩
    rcases mem_set called with rfl | old
    · exact .inr ⟨call.thread, (Option.some.inj holds).symm⟩
    · exact .inl ⟨other, old, holds⟩
  · next c counting =>
    cases taken
    have alive := owns.used call member c (by rw [counting]; rfl)
    have after := counts.count found counting
    have untouched' := touched_write alive (Counters.count call.statusCode)
    rw [← counters_write alive (Counters.count call.statusCode)] at after
    exact ⟨still (by rw [counting]; rfl) fun p holds => (Option.some.inj holds).symm, after, plain,
      interval, untouched'.trans untouched⟩
  · next c pushing =>
    cases taken
    have alive := owns.used call member c (by rw [pushing]; rfl)
    have after := counts.push found pushing
    have untouched' := touched_write alive (Counters.push call.latency)
    rw [← counters_write alive (Counters.push call.latency)] at after
    refine ⟨still (by rw [pushing]; rfl) fun p holds => ?_, after, plain, interval,
      untouched'.trans untouched⟩
    cases holds
  · cases taken

/-! ### The tasks of the reporter -/

theorem Kept.counts_task (kept : Kept s) {results : List Nat} (same : s.folded = results) :
    Counts s.counters s.calls results s.counted := same ▸ kept.counts

section Tasks

variable (kept : Kept s) (todo : s.todo = task :: rest)

include kept todo

theorem Kept.owns_task : Owns s.heap s.counterPtr s.calls (s.accumulatedResults ++ task.pointer.toList) := by
  have owns := kept.owns
  rwa [held, todo] at owns

theorem Kept.plain_rest : ∀ task ∈ rest, task.plain = true := by
  have plain := kept.plain
  rwa [todo] at plain

theorem Kept.plain_later : ∀ task ∈ rest.tail, task.plain = true := fun task member =>
  kept.plain_rest todo task (List.mem_of_mem_tail member)

/-- Behind any other task, the local counts are in use up to `transfer`, or not at all. -/
theorem Kept.outside (other : Task.transfer ≠ task) : rest.getLast? = some .transfer ∨
    s.interval = {} ∧ task.isInterval = false ∧ ∀ task ∈ rest, task.isInterval = false := by
  have interval := kept.interval
  rw [todo] at interval
  refine interval.imp (fun last => ?_) fun outside => ⟨outside.1, outside.2 task List.mem_cons_self,
    fun later member => outside.2 later (List.mem_cons_of_mem task member)⟩
  rw [List.getLast?_cons] at last
  cases ends : rest.getLast? with
  | none => simp [ends, other.symm] at last
  | some final => rwa [ends] at last

theorem Kept.leaves (other : Task.transfer ≠ task) : rest.getLast? = some .transfer ∨
    s.interval = {} ∧ ∀ task ∈ rest, task.isInterval = false :=
  (kept.outside todo other).imp id fun outside => ⟨outside.1, outside.2.2⟩

/-- A task that another one takes the place of. -/
theorem Kept.becomes (new : Task n) (other : Task.transfer ≠ task)
    (same : task.isInterval = false → new.isInterval = false) :
    (new :: rest).getLast? = some .transfer ∨
      s.interval = {} ∧ ∀ task ∈ new :: rest, task.isInterval = false := by
  refine (kept.outside todo other).imp (fun last => by rw [List.getLast?_cons, last]; rfl) fun outside =>
    ⟨outside.1, fun later member => ?_⟩
  rcases List.mem_cons.mp member with rfl | member
  · exact same outside.2.1
  · exact outside.2.2 later member

end Tasks

/-- The next of the accumulated results is deleted, or there is none left. -/
theorem Kept.clearResults (kept : Kept s) (todo : s.todo = .clearResults :: rest)
    (quiet : Clear s.calls s.accumulatedResults .clearResults) : Kept (s.report .clearResults rest) := by
  have owns := kept.owns_task todo
  have counts : Counts s.counters s.calls [] s.counted := kept.counts_task (by simp [folded, todo])
  have plain := kept.plain_rest todo
  simp only [Task.pointer, Option.toList_none, List.append_nil] at owns
  cases results : s.accumulatedResults with
  | nil =>
    have next : s.report .clearResults rest = { s with todo := rest } := by
      simp [Swap.report, results]
    rw [next]
    refine ⟨?_, ?_, kept.plain_later todo, kept.leaves todo (by simp), kept.untouched⟩
    · rw [held_plain (s := { s with todo := rest }) plain, List.append_nil]
      exact owns
    · rw [folded_plain (s := { s with todo := rest }) plain]
      show Counts s.counters s.calls s.accumulatedResults s.counted
      rw [results]
      exact counts
  | cons c results' =>
    have next : s.report .clearResults rest = { s.free c with accumulatedResults := results' } := by
      simp [Swap.report, results]
    rw [results] at owns
    rw [next]
    refine ⟨?_, ?_, kept.plain, kept.interval, kept.untouched⟩
    · have nothing : held { s.free c with accumulatedResults := results' } = [] := by
        simp [held, free, todo, Task.pointer]
      rw [nothing, List.append_nil]
      exact owns.free (quiet c (by simp [results]))
    · have nothing : folded { s.free c with accumulatedResults := results' } = [] := by
        simp [folded, free, todo]
      rw [nothing]
      show Counts (s.free c).counters s.calls [] s.counted
      rw [counters_free]
      exact counts

/-- The local counts are added to the totals. -/
theorem Kept.transfer (kept : Kept s) (todo : s.todo = .transfer :: rest) :
    Kept (s.report .transfer rest) := by
  have owns := kept.owns_task todo
  have counts : Counts s.counters s.calls s.accumulatedResults s.counted :=
    kept.counts_task (by simp [folded, todo])
  have plain := kept.plain_rest todo
  have same : (s.report .transfer rest).counted = s.counted := by
    simp only [Swap.report, counted, BenchmarkTotals.addRequests]
    omega
  refine ⟨?_, ?_, kept.plain_later todo, ?_, kept.untouched⟩
  · rw [held_plain (s := s.report .transfer rest) plain]
    exact owns
  · rw [folded_plain (s := s.report .transfer rest) plain, same]
    exact counts
  · show rest.getLast? = some .transfer ∨ ({} : Benchmark.Interval) = {} ∧ _
    have interval := kept.interval
    rw [todo] at interval
    rcases interval with last | outside
    · rw [List.getLast?_cons] at last
      cases ends : rest.getLast? with
      | none =>
        rw [List.getLast?_eq_none_iff] at ends
        exact .inr ⟨rfl, by simp [Swap.report, ends]⟩
      | some final =>
        rw [ends] at last
        exact .inl last
    · exact absurd (outside.2 .transfer List.mem_cons_self) (by simp [Task.isInterval])

/-- **A step of the reporter keeps everything in order**, if no call is in its way. -/
theorem Kept.report (kept : Kept s) (todo : s.todo = task :: rest)
    (quiet : s.quiescent .reporter) : Kept (s.report task rest) := by
  have owns := kept.owns_task todo
  have plain := kept.plain_rest todo
  have after := kept.plain_later todo
  have untouched := kept.untouched
  have quiet : Clear s.calls s.accumulatedResults task := quiet task (by rw [todo]; rfl)
  cases task with
  | clearResults => exact kept.clearResults todo quiet
  | transfer => exact kept.transfer todo
  | reset thread | collect thread | collectInterval thread =>
    have counts : Counts s.counters s.calls s.accumulatedResults s.counted :=
      kept.counts_task (by simp [folded, todo])
    simp only [Task.pointer, Option.toList_none, List.append_nil] at owns
    refine ⟨owns.exchange thread, ?_, plain, kept.becomes todo _ (by simp) (fun same => same), untouched⟩
    show Counts (s.exchange thread).counters s.calls s.accumulatedResults s.counted
    rw [counters_exchange]
    exact counts
  | delete c =>
    have counts : Counts s.counters s.calls s.accumulatedResults s.counted :=
      kept.counts_task (by simp [folded, todo])
    have owns := owns.perm (List.perm_append_singleton c s.accumulatedResults)
    refine ⟨?_, ?_, after, kept.leaves todo (by simp), untouched⟩
    · rw [held_plain (s := s.report (.delete c) rest) plain, List.append_nil]
      exact owns.free quiet
    · rw [folded_plain (s := s.report (.delete c) rest) plain]
      show Counts (s.free c).counters s.calls s.accumulatedResults s.counted
      rw [counters_free]
      exact counts
  | fold c =>
    have counts : Counts s.counters s.calls s.accumulatedResults s.counted :=
      kept.counts_task (by simp [folded, todo])
    have grown : (s.report (.fold c) rest).counted = s.counted + requests (s.counters c) := by
      simp only [Swap.report, counted, BenchmarkTotals.addRequests, BenchmarkTotals.addBytes, requests]
      omega
    refine ⟨owns, ?_, plain, kept.becomes todo _ (by simp) (fun same => same), untouched⟩
    rw [grown]
    exact counts.fold quiet
  | foldInterval c =>
    have counts : Counts s.counters s.calls s.accumulatedResults s.counted :=
      kept.counts_task (by simp [folded, todo])
    have grown : (s.report (.foldInterval c) rest).counted = s.counted + requests (s.counters c) := by
      simp only [Swap.report, counted, BenchmarkTotals.addBytes, requests]
      omega
    refine ⟨owns, ?_, plain, ?_, untouched⟩
    · rw [grown]
      exact counts.fold quiet
    · -- the local counts are in use until `transfer`
      exact (kept.outside todo (by simp)).imp
        (fun last => by rw [Swap.report, List.getLast?_cons, last]; rfl)
        fun outside => by cases outside.2.1
  | store c =>
    have counts : Counts s.counters s.calls (s.accumulatedResults ++ [c]) s.counted :=
      kept.counts_task (by simp [folded, todo])
    refine ⟨?_, ?_, after, kept.leaves todo (by simp), untouched⟩
    · rw [held_plain (s := s.report (.store c) rest) plain, List.append_nil]
      exact owns
    · rw [folded_plain (s := s.report (.store c) rest) plain]
      exact counts

/-! ### Every step -/

/-- Where the reporter has returned, the local counts are not in use. -/
theorem Kept.interval_returned (kept : Kept s) (returned : s.todo = []) : s.interval = {} := by
  have interval := kept.interval
  rw [returned] at interval
  exact (interval.resolve_left (by simp)).1

/-- The reporter begins one of its functions. -/
theorem Kept.begin (kept : Kept s) (returned : s.todo = []) {tasks : List (Task n)}
    (plain : ∀ task ∈ tasks, task.plain = true)
    (ends : tasks.getLast? = some .transfer ∨ ∀ task ∈ tasks, task.isInterval = false) :
    Kept { s with todo := tasks } := by
  have nothing := kept.interval_returned returned
  obtain ⟨owns, counts, _, _, untouched⟩ := kept
  have before : ∀ task ∈ s.todo, task.plain = true := by simp [returned]
  rw [held_plain before] at owns
  rw [folded_plain before] at counts
  refine ⟨?_, ?_, fun task member => plain task (List.mem_of_mem_tail member),
    ends.imp id fun outside => ⟨nothing, outside⟩, untouched⟩
  · rw [held_plain (s := { s with todo := tasks }) plain]
    exact owns
  · rw [folded_plain (s := { s with todo := tasks }) plain]
    exact counts

/-- **A step that no call is in the way of keeps everything in order.** -/
theorem Kept.step (kept : Kept s) {input : Input n} (quiet : s.quiescent input)
    (taken : s.step input = some next) : Kept next := by
  cases input with
  | call thread statusCode latency =>
    cases taken
    obtain ⟨owns, counts, plain, interval, untouched⟩ := kept
    refine ⟨owns.moved fun call called c holds => ?_, counts.begin thread statusCode latency, plain,
      interval, untouched⟩
    rcases List.mem_append.mp called with old | new
    · exact .inl ⟨call, old, holds⟩
    · rw [List.mem_singleton.mp new] at holds
      cases holds
  | worker i =>
    obtain ⟨call, found, worked⟩ := Option.bind_eq_some_iff.mp taken
    exact kept.work found worked
  | recordStart =>
    simp only [Swap.step] at taken
    split at taken
    · next returned =>
      cases taken
      have nothing := kept.interval_returned returned
      obtain ⟨owns, counts, _, _, untouched⟩ := kept
      have before : ∀ task ∈ s.todo, task.plain = true := by simp [returned]
      rw [held_plain before] at owns
      refine ⟨owns, ⟨counts.balance, fun c member => absurd member (by simp [folded]), ?_⟩, ?_, .inr ⟨nothing, ?_⟩,
        untouched⟩
      · simp [counted, nothing, folded]
      · simp [Task.plain]
      · simp [Task.isInterval]
    · cases taken
  | reportIntervalResults =>
    simp only [Swap.step] at taken
    split at taken
    · next returned =>
      cases taken
      refine kept.begin returned (fun task member => ?_) (.inl (by simp))
      simp only [List.mem_append, List.mem_map, List.mem_singleton] at member
      rcases member with ⟨_, _, rfl⟩ | rfl <;> rfl
    · cases taken
  | recordStop =>
    simp only [Swap.step] at taken
    split at taken
    · next returned =>
      cases taken
      exact kept.begin returned (by simp [Task.plain]) (.inr (by simp [Task.isInterval]))
    · cases taken
  | reporter =>
    simp only [Swap.step] at taken
    split at taken
    · cases taken
    · next task rest todo =>
      cases taken
      exact kept.report todo quiet

theorem Kept.start (n : Nat) : Kept (start n) := by
  have alive : ∀ thread : Fin n, Alive (List.replicate n {}) thread.val := fun thread =>
    ⟨{}, by rw [List.getElem?_replicate, if_pos thread.isLt], rfl⟩
  have empty : ∀ c, (Swap.start n).counters c = {} := by
    intro c
    simp only [counters, Swap.start, List.getElem?_replicate]
    split <;> rfl
  refine ⟨⟨fun first second same => Fin.ext same, fun _ => by simp [Swap.start, held],
    by simp [Swap.start, held], alive, by simp [Swap.start, held], by simp [Swap.start]⟩,
    ⟨fun c => ?_, by simp [Swap.start], rfl⟩, by simp [Swap.start], .inr ⟨rfl, by simp [Swap.start]⟩,
    rfl⟩
  rw [empty]
  rfl

end Steps

/-- **No result is lost and no deleted object is touched** in any run whose steps are quiescent. -/
theorem swap_sound (n : Nat) (s : Swap n) (reached : Reachable quiescent s) : Sound s := by
  have kept : Kept s := reached.invariant (Kept.start n) fun state input next before quiet taken =>
    before.step quiet taken
  refine ⟨kept.untouched, fun returned finished => ?_⟩
  have counts := kept.counts
  rw [folded_plain (by simp [returned])] at counts
  have all := counts.finished finished
  rw [counted, kept.interval_returned returned] at all
  exact all

theorem swap_sound_example : ∃ s : Swap 1,
    Transition.run (Transition.guarded step quiescent) (start 1) [.call 0 200 5, .worker 0, .worker 0,
      .recordStop, .reporter, .reporter, .reporter, .worker 0] = some s ∧ Sound s := by
  have run : (Transition.run (Transition.guarded step quiescent) (start 1) [.call 0 200 5, .worker 0,
      .worker 0, .recordStop, .reporter, .reporter, .reporter, .worker 0]).isSome = true := by
    decide
  obtain ⟨s, ran⟩ := Option.isSome_iff_exists.mp run
  exact ⟨s, ran, swap_sound 1 s (Transition.Reach.of_guarded_run ran)⟩

end Swap

end Apib
