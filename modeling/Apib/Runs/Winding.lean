/-
**How a thread winds down after a stop.**

`recycle` and `CloseDone` go on with a connection only while the thread keeps running, so after a `STOP`
nothing leads a connection back to the start of a request. What has started is not broken off, and a
connection that pauses, or that a later command makes, still sends a request of its own.

* `Since`: what a connection does on its way from one point to another without turning back;
* `winding`: every connection of a stopped thread does so, from where the stop has found it;
* `after_stop`: **so it sends one more request exactly if it was before the start of one and is not any
  more**, and never a second one.
-/

import Apib.Main.OneShot
import Apib.Runs.Stop

namespace Apib

open Ctx

/-! ### On the way -/

/-- **What a connection does from one point to another** without turning back: it makes the request
between them, if any, and does not end one more than once. -/
structure Since (p q : Point) (events : List Event) : Prop where
  onward : p.stage ≤ q.stage
  requests : min 1 p.stage + events.countP Event.isRequest = min 1 q.stage
  written : min 1 (p.stage - 1) + events.countP Event.isWritten ≤ min 1 (q.stage - 1)
  results : min 1 (p.stage - 2) + events.countP Event.isResult ≤ min 1 (q.stage - 2)

section Since

variable {cfg : Config} {gate : Gate} {p q r : Point} {x y : Ctx} {events more : List Event}

theorem Since.refl (p : Point) : Since p p [] :=
  ⟨Nat.le_refl _, rfl, Nat.le_refl _, Nat.le_refl _⟩

theorem Since.trans (first : Since p q events) (second : Since q r more) : Since p r (events ++ more) := by
  obtain ⟨onward, requests, written, results⟩ := first
  obtain ⟨onward', requests', written', results'⟩ := second
  constructor
  · exact onward.trans onward'
  all_goals rw [List.countP_append]
  · rw [← Nat.add_assoc, requests, requests']
  · exact (Nat.add_assoc _ _ _).symm.le.trans ((Nat.add_le_add_right written _).trans written')
  · exact (Nat.add_assoc _ _ _).symm.le.trans ((Nat.add_le_add_right results _).trans results')

/-- Calls that make no request and end none. -/
theorem Since.aside (since : Since p q events) (requests : more.countP Event.isRequest = 0)
    (written : more.countP Event.isWritten = 0) (results : more.countP Event.isResult = 0) :
    Since p q (events ++ more) := by
  refine since.trans ⟨Nat.le_refl _, ?_, ?_, ?_⟩
  · rw [requests, Nat.add_zero]
  · rw [written, Nat.add_zero]
  · rw [results, Nat.add_zero]

/-- The request is made on the way from before its start. -/
theorem Calls.request_made {needsOpen : Bool} (calls : Calls needsOpen p q events)
    (onward : p.stage ≤ q.stage) :
    min 1 p.stage + events.countP Event.isRequest = min 1 q.stage := by
  cases calls with
  | recycle closeConn q goesTo =>
    rcases goesTo with rfl | rfl | rfl | rfl
    · rfl
    · rfl
    · exact absurd onward (Nat.not_succ_le_zero 2)
    · exact absurd onward (Nat.not_succ_le_zero 2)
  | goOn q goesTo => rcases goesTo with rfl | rfl <;> exact absurd onward (Nat.not_succ_le_zero 2)
  | turn => rfl
  | _ => simp [List.countP_cons, Event.isRequest, Point.stage]

/-- **A move of a thread that has stopped.** -/
theorem Since.move (since : Since p q events) (halts : x.t.shouldKeepRunning = false)
    (move : Move cfg gate (q, x) (r, y)) :
    ∃ more, y.history = x.history ++ more ∧ Since p r (events ++ more) := by
  have onward := move.stage_le halts
  obtain ⟨more, calls, grown⟩ := move.history
  obtain ⟨_, written, results⟩ := calls.once onward
  exact ⟨more, grown, since.trans ⟨onward, calls.request_made onward, written, results⟩⟩

end Since

/-! ### Before the stop -/

/-- What every run keeps: a thread that has been stopped does not keep running, and a connection that
exists has made a call. -/
def everCalled (cfg : Config) : Invariant cfg Gate.free where
  thread := fun t => t.stopped = true → t.keepRunning = 0
  conn := fun p x => p = .born ∨ x.history ≠ []
  move := by
    intro p q x y move _ halts before
    have frame := move.frame
    obtain ⟨events, calls, grown⟩ := move.history
    refine ⟨by rwa [frame.stopped, frame.keepRunning], .inr ?_⟩
    rw [grown]
    intro silent
    obtain ⟨silent, none_called⟩ := List.append_eq_nil_iff.mp silent
    rcases before with rfl | some_call
    · cases calls with
      | start => cases none_called
      | turn _ phase => rcases phase with same | same | same <;> cases same
    · exact some_call silent
  elsewhere := by
    intro p t t' c settled before away
    rcases before with rfl | some_call
    · cases settled
    · refine .inr ?_
      rw [Ctx.history, away.history]
      exact some_call
  born := fun _ _ _ _ => .inl rfl
  removed := by
    intro p x settled _ before _
    refine .inr ?_
    rw [removed_history]
    exact List.append_ne_nil_of_right_ne_nil _ (List.cons_ne_nil _ _)
  threadMove := by
    intro t t' move halts
    cases move with
    | stop => exact fun _ => rfl
    | _ => exact halts

/-- The point of a connection, whether it exists yet or not. -/
def System.pointOf (s : System) (id : Nat) : Point :=
  match s.heap[id]? with
  | none => .born
  | some c => c.point

theorem System.pointOf_none {s : System} {id : Nat} (none_there : s.heap[id]? = none) :
    s.pointOf id = .born := by
  rw [pointOf, none_there]

theorem System.pointOf_some {s : System} {id : Nat} {c : ConnectionState} (found : s.heap[id]? = some c) :
    s.pointOf id = c.point := by
  rw [pointOf, found]

/-! ### After the stop -/

/-- A request, its response, and the pause behind it. -/
def onePause : List System.Input :=
  [.write 0 [.ok (.ok 100)] {},
    .read 0 [.ok (.ok (ascii "HTTP/1.1 200 OK\r\nContent-Length: 0\r\n\r\n"))] {}]

section Winding

variable {cfg : Config} {s : System}

/-- A log that goes on behind another. -/
def GoesOn (s : System) (log : List Entry) : Prop :=
  ∀ id, history id s.t.log <+: history id log

theorem GoesOn.append {log : List Entry} (goesOn : GoesOn s log) (more : List Entry) :
    GoesOn s (log ++ more) := by
  intro id
  rw [history_append]
  exact (goesOn id).trans (List.prefix_append _ _)

/-- **Winding down from a state**, as an invariant: the thread does not keep running, and every
connection has not turned back from where it was. -/
def winding (cfg : Config) (s : System)
    (known : ∀ id, history id s.t.log = [] → s.pointOf id = .born) : Invariant cfg Gate.free where
  thread := fun t => t.keepRunning = 0 ∧ GoesOn s t.log
  conn := fun p x => ∃ more, x.history = history x.c.id s.t.log ++ more ∧ Since (s.pointOf x.c.id) p more
  move := by
    rintro p q x y move - ⟨halts, goesOn⟩ ⟨before, grown, since⟩
    have frame := move.frame
    obtain ⟨events, log⟩ := frame.log
    obtain ⟨more, grown', since'⟩ := since.move (by simp [IOThread.shouldKeepRunning, halts]) move
    refine ⟨⟨frame.keepRunning.trans halts, log ▸ goesOn.append _⟩, before ++ more, ?_, ?_⟩
    · rw [grown', grown, frame.id, List.append_assoc]
    · rw [frame.id]
      exact since'
  elsewhere := by
    rintro p t t' c settled ⟨more, grown, since⟩ away
    exact ⟨more, away.history.trans grown, since⟩
  born := by
    rintro x ⟨halts, goesOn⟩ silent listed new
    have none_before : history x.c.id s.t.log = [] :=
      List.prefix_nil.mp (silent ▸ goesOn x.c.id)
    refine ⟨[], ?_, ?_⟩
    · rw [silent, none_before, List.append_nil]
    · rw [known _ none_before]
      exact .refl _
  removed := by
    rintro p x settled - ⟨more, grown, since⟩ -
    refine ⟨more ++ [.stopRunning], ?_, since.aside rfl rfl rfl⟩
    show x.removed.history = history x.c.id s.t.log ++ (more ++ [.stopRunning])
    rw [removed_history, grown, List.append_assoc]
  threadMove := by
    rintro t t' move ⟨halts, goesOn⟩
    cases move with
    | stop => exact ⟨rfl, goesOn.append _⟩
    | setConnections | remove => exact ⟨halts, goesOn.append _⟩
    | _ => exact ⟨halts, goesOn⟩

/-- The invariant holds where the winding down begins. -/
theorem Invariant.Holds.winding (holds : (everCalled cfg).Holds s) (stopped : s.t.stopped = true)
    (known : ∀ id, history id s.t.log = [] → s.pointOf id = .born) :
    (winding cfg s known).Holds s := by
  obtain ⟨halts, conns, logged, listed, once⟩ := holds
  refine ⟨⟨halts stopped, fun id => List.prefix_refl _⟩, fun id c found => ?_, logged, listed, once⟩
  obtain ⟨sameId, p, settled, now, _⟩ := conns id c found
  refine ⟨sameId, p, settled, now, [], (List.append_nil _).symm, ?_⟩
  have here : s.pointOf c.id = p := by
    rw [sameId, System.pointOf_some found]
    exact now.point_eq settled
  show Since (s.pointOf c.id) p []
  rw [here]
  exact .refl p

/-- A connection without a call does not exist. -/
theorem Invariant.Holds.unborn (holds : (everCalled cfg).Holds s) (id : Nat)
    (silent : history id s.t.log = []) : s.pointOf id = .born := by
  cases found : s.heap[id]? with
  | none => exact System.pointOf_none found
  | some c =>
    obtain ⟨sameId, p, settled, _, born | some_call⟩ := holds.conns id c found
    · subst born
      cases settled
    · have none_called : Ctx.history ⟨s.t, c⟩ = [] := by
        show history c.id s.t.log = []
        rw [sameId, silent]
      exact absurd none_called some_call

/-- **After a stop** a connection makes one more request exactly if the stop has found it before the
start of one, or it is made later, and it is not before it any more. It ends no more than that one, and
never turns back. -/
theorem after_stop (cfg : Config) (s last : System) (reached : System.Reachable cfg Transition.anyStep s)
    (stopped : s.t.stopped = true) (ran : Transition.Reach (System.step cfg) Transition.anyStep s last)
    (id : Nat) (c : ConnectionState) (found : last.heap[id]? = some c) :
    ∃ events, history id last.t.log = history id s.t.log ++ events ∧
      Since (s.pointOf id) c.point events := by
  have before : (everCalled cfg).Holds s :=
    (everCalled cfg).reachable_any (fun _ never => nomatch never) reached
  have holds : (winding cfg s before.unborn).Holds last :=
    ran.invariant (before.winding stopped before.unborn)
      fun state input next holds _ taken => holds.step input (Gate.free_permits cfg state input) taken
  obtain ⟨sameId, p, settled, now, events, grown, since⟩ := holds.conns id c found
  subst sameId
  have here : c.point = p := now.point_eq settled
  exact ⟨events, grown, here ▸ since⟩

/-- The stop finds a connection in its pause. -/
theorem after_stop_example : ∃ s last c,
    System.after pausing (onePause ++ [.command (.stop 2), .async fun _ => {}]) = some s ∧
      Transition.run (System.step pausing) s [.timer 0 {}] = some last ∧ last.heap[0]? = some c ∧
      s.pointOf 0 = .thinking ∧ c.point = .writing ∧
      ∃ events, history 0 last.t.log = history 0 s.t.log ++ events ∧
        Since (s.pointOf 0) c.point events := by
  have run : ((System.after pausing (onePause ++ [.command (.stop 2), .async fun _ => {}])).bind
      fun s => (Transition.run (System.step pausing) s [.timer 0 {}]).bind fun last =>
        last.heap[0]?.map fun c => (s.t.stopped, s.pointOf 0, c.point)) =
      some (true, .thinking, .writing) := by
    decide +kernel
  obtain ⟨s, ran, run⟩ := Option.bind_eq_some_iff.mp run
  obtain ⟨last, ran', run⟩ := Option.bind_eq_some_iff.mp run
  obtain ⟨c, found, same⟩ := Option.map_eq_some_iff.mp run
  obtain ⟨stopped, rest⟩ := Prod.mk.inj same
  obtain ⟨before, after⟩ := Prod.mk.inj rest
  exact ⟨s, last, c, ran, ran', found, before, after,
    after_stop pausing s last (System.reachable_any ran) stopped
      (Transition.Reach.of_run (fun _ _ _ => trivial) ran') 0 c found⟩

end Winding

end Apib
