/-
**What happens after a stop.**

Once `STOP` has been handled, `recycle` and `CloseDone` look at the flag and start nothing more. A timer
that is pending then does not:

* `stop_overrun`: a connection that pauses between two requests when `STOP` is handled starts the next
  one when its timer fires;
* `stop_quiet`: in every run where no timer fires and no connection is made after a stop, no request is
  started after it.
-/

import Apib.Lifecycle.Invariant

namespace Apib

open Transition

/-- Does this line of the log start a request? -/
def Entry.begins : Entry → Bool
  | .conn _ event => event.begins
  | _ => false

/-- No request is started after a stop. -/
def StopsQuietly (log : List Entry) : Prop :=
  NeverAfter (fun entry => entry = .stop) (fun entry => entry.begins = true) log

instance (log : List Entry) : Decidable (StopsQuietly log) :=
  inferInstanceAs (Decidable (NeverAfter _ _ log))

/-- A thread with one connection that pauses for a second between its requests. -/
def pausing : Config := { System.oneConnection with thinkTime := 1000 }

/-- **A request can be started after a stop**: the pause of a connection ends after `STOP` has been
handled. -/
theorem stop_overrun : ¬ ∀ (cfg : Config) (s : System), System.Reachable cfg anyStep s →
    StopsQuietly s.t.log := by
  intro quiet
  have run : (System.after pausing [.write 0 [.ok (.ok 100)] {},
      .read 0 [.ok (.ok (ascii "HTTP/1.1 200 OK\r\nContent-Length: 0\r\n\r\n"))] {},
      .command (.stop 2), .async fun _ => {}, .timer 0 {}]).map
        (fun s => decide (StopsQuietly s.t.log)) = some false := by
    decide +kernel
  obtain ⟨s, ran, loud⟩ := Option.map_eq_some_iff.mp run
  exact of_decide_eq_false loud (quiet pausing s (System.reachable_any ran))

/-- No timer fires and no connection is made after a stop. -/
def pausesOnStop : Gate where
  fire := fun x => x.t.stopped = false
  start := fun stopped => stopped = false

/-! ### At each point -/

/-- What is known of a thread and its stop. -/
structure StopKnown (t : IOThread) : Prop where
  halts : t.stopped = true → t.keepRunning = 0
  noted : Entry.stop ∈ t.log → t.stopped = true
  quiet : StopsQuietly t.log

section Moves

variable {cfg : Config} {p q : Point} {x y : Ctx}

/-- A thread that keeps running has not been stopped. -/
theorem StopKnown.running {t : IOThread} (known : StopKnown t) (runs : t.shouldKeepRunning = true) :
    t.stopped = false := by
  cases stopped : t.stopped with
  | false => rfl
  | true => simp [IOThread.shouldKeepRunning, known.halts stopped] at runs

/-- More calls of a connection, which starts requests only before a stop. -/
theorem StopKnown.calls {t t' : IOThread} (known : StopKnown t) {id : Nat} {events : List Event}
    (log : t'.log = t.log ++ events.map (.conn id)) (keepRunning : t'.keepRunning = t.keepRunning)
    (stopped : t'.stopped = t.stopped)
    (early : ∀ event ∈ events, event.begins = true → t.stopped = false) : StopKnown t' := by
  obtain ⟨halts, noted, quiet⟩ := known
  refine ⟨by rwa [stopped, keepRunning], fun member => ?_, ?_⟩
  · rw [log, List.mem_append] at member
    rw [stopped]
    rcases member with old | new
    · exact noted old
    · simp at new
  · rw [log, StopsQuietly, neverAfter_append]
    refine ⟨quiet, .of_unstopped (by simp), ?_⟩
    rintro ⟨entry, member, rfl⟩ later after begins
    obtain ⟨event, called, rfl⟩ := List.mem_map.mp after
    exact absurd ((noted member).symm.trans (early event called begins)) (by decide)

/-- Requests are started only before a stop. -/
theorem starting_move (known : StopKnown x.t) (before : p.starting = true → x.t.stopped = false)
    (move : Move cfg pausesOnStop (p, x) (q, y)) : q.starting = true → y.t.stopped = false := by
  have frame := move.frame
  rw [frame.stopped]
  cases move with
  | start x env allowed => exact fun _ => allowed
  | fire x allowed => exact fun _ => allowed
  | reuse | connect => exact fun _ => before rfl
  | next x closeConn keeps =>
    simp only [Bool.or_eq_false_iff, Bool.not_eq_false'] at keeps
    exact fun _ => known.running keeps.2
  | reopen x goesOn =>
    simp only [Bool.or_eq_false_iff, Bool.not_eq_false'] at goesOn
    exact fun _ => known.running goesOn.2
  | turn p x asked phase => rcases phase with rfl | rfl | rfl <;> exact fun never => nomatch never
  | _ => exact fun never => nomatch never

theorem StopKnown.move (known : StopKnown x.t) (before : p.starting = true → x.t.stopped = false)
    (move : Move cfg pausesOnStop (p, x) (q, y)) : StopKnown y.t := by
  obtain ⟨events, calls, log⟩ := move.calls
  exact known.calls log move.frame.keepRunning move.frame.stopped
    fun event member begins => before (calls.starting member begins)

theorem StopKnown.threadMove {t t' : IOThread} (known : StopKnown t) (move : ThreadMove t t') :
    StopKnown t' := by
  obtain ⟨halts, noted, quiet⟩ := known
  have silent : ∀ {entry : Entry}, entry.begins = false → StopsQuietly (t.log ++ [entry]) :=
    fun silent => quiet.append_quiet (by simp [silent])
  cases move with
  | stop => exact ⟨fun _ => rfl, fun _ => rfl, silent rfl⟩
  | setConnections | remove => exact ⟨halts, fun member => noted (by simpa using member), silent rfl⟩
  | _ => exact ⟨halts, noted, quiet⟩

end Moves

/-! ### Over runs -/

/-- A quiet stop as an invariant. -/
def quietStop (cfg : Config) : Invariant cfg pausesOnStop where
  thread := StopKnown
  conn := fun p x => p.starting = true → x.t.stopped = false
  move := fun move _ known before => ⟨known.move before move, starting_move known before move⟩
  elsewhere := by
    intro p t t' c settled _ _ starting
    cases p <;> simp [Point.starting] at starting <;> cases settled
  born := fun _ _ _ _ never => nomatch never
  removed := by
    intro p x settled _ _ _ starting
    cases p <;> simp [Point.starting] at starting <;> cases settled
  threadMove := fun move known => known.threadMove move

/-- **After a stop no request is started**, in every run where no timer fires and no connection is made
after it. -/
theorem stop_quiet (cfg : Config) (s : System)
    (reached : System.Reachable cfg (pausesOnStop.permits cfg) s) : StopsQuietly s.t.log := by
  have initial : ∀ reporting, StopKnown (System.initial cfg reporting).t :=
    fun _ => ⟨fun never => (nomatch never), fun never => (nomatch never), .nil⟩
  exact ((quietStop cfg).reachable initial rfl reached).thread.quiet

theorem stop_quiet_example : ∃ s next,
    System.after pausing [.write 0 [.ok (.ok 10), .ok .needRead] {}, .command (.stop 2)] = some s ∧
      s.step pausing (.async fun _ => {}) = some next ∧ Entry.stop ∈ next.t.log ∧
      StopsQuietly next.t.log := by
  have run : (System.after pausing [.write 0 [.ok (.ok 10), .ok .needRead] {},
      .command (.stop 2)]).map (fun s => s.t.commands) = some [.stop 2] := by
    decide +kernel
  obtain ⟨s, ran, commands⟩ := Option.map_eq_some_iff.mp run
  have before := System.reachable_after (pausesOnStop.permits pausing)
    (by simp [Gate.permits, Gate.permitsCallback, pausesOnStop]) ran
  have allowed : pausesOnStop.permits pausing s (.async fun _ => {}) := by
    simp [Gate.permits, commands, Gate.permitsCommands]
  obtain ⟨reporting, envs, reached⟩ := before
  refine ⟨s, s.processCommands pausing fun _ => {}, ran, rfl, ?_, ?_⟩
  · simp [System.processCommands, commands, System.processCommand]
  · exact stop_quiet _ _ ⟨reporting, envs, .step reached allowed rfl⟩

end Apib
