/-
**What watches a connection at each point.**

`At p x` says which watcher is active when the connection of `x` is at point `p`: one watcher at each
point between callbacks except `finished`, none inside a callback. An active `io_` has the callback of
its phase, looks in the direction the last socket call asked for, and `backwardsIo_` says whether that
direction is against the phase's own.

* `Move.at_next`: every move goes from a context at its first point to one at its second;
* `At.point_eq`: the watchers tell the points between callbacks apart.
-/

import Apib.IOThread.Fields
import Apib.Lifecycle.Moves

namespace Apib

/-- The watcher `io_` alone is active, with this callback and in the direction asked for. -/
structure Watching (callback : IoCallback) (home : Direction) (x : Ctx) : Prop where
  io : x.c.io = ⟨callback, x.c.asked, true⟩
  backwards : x.c.backwardsIo = decide (x.c.asked ≠ home)
  noTimer : x.c.thinkTimer.active = false
  goesOn : x.c.finished = false

/-- No watcher is active. -/
structure Idle (x : Ctx) : Prop where
  noIo : x.c.io.active = false
  noTimer : x.c.thinkTimer.active = false
  goesOn : x.c.finished = false

/-- The timer alone is active. -/
structure Thinking (x : Ctx) : Prop where
  noIo : x.c.io.active = false
  timer : x.c.thinkTimer.active = true
  goesOn : x.c.finished = false

/-- No watcher will be active again. -/
structure Finished (x : Ctx) : Prop where
  noIo : x.c.io.active = false
  noTimer : x.c.thinkTimer.active = false
  stopped : x.c.finished = true

/-- The watchers of a connection at a point. -/
def At : Point → Ctx → Prop
  | .writing => Watching .writeReady .write
  | .reading => Watching .readReady .read
  | .closing => Watching .completeShutdown .read
  | .thinking => Thinking
  | .finished => Finished
  | _ => Idle

section Moves

variable {cfg : Config} {gate : Gate} {x y : Ctx}

theorem Watching.active {callback : IoCallback} {home : Direction} (watching : Watching callback home x) :
    x.c.io.active = true := by
  rw [watching.io]

/-- Turning the watcher around keeps it watching. -/
theorem Watching.turned {callback : IoCallback} {home : Direction}
    (watching : Watching callback home x) (asked : Direction) :
    Watching callback home (x.turned home asked) := by
  obtain ⟨io, backwards, noTimer, goesOn⟩ := watching
  unfold Ctx.turned
  simp only [Ctx.ask, backwards]
  split
  · refine ⟨?_, ?_, ?_, ?_⟩ <;> simp [Ctx.ioTurn_eq, io, noTimer, goesOn]
  · next same =>
    -- there are only two directions
    have unchanged : x.c.asked = asked := by
      revert same
      cases home <;> cases asked <;> cases x.c.asked <;> decide
    subst unchanged
    exact ⟨io, rfl, noTimer, goesOn⟩

theorem Idle.sendWrite (idle : Idle x) : Watching .writeReady .write x.sendWrite := by
  refine ⟨?_, ?_, ?_, ?_⟩ <;>
    simp [Ctx.sendWrite, Ctx.ioInit, Ctx.ioStart_eq, Ctx.ask, Ctx.note, idle.noTimer, idle.goesOn]

/-- **Every move keeps the watchers as the points have them.** -/
theorem Move.at_next {p q : Point} (move : Move cfg gate (p, x) (q, y)) (now : At p x) : At q y := by
  cases move with
  | start | reuse | next | reopen => exact ⟨now.noIo, now.noTimer, now.goesOn⟩
  | fire => exact ⟨now.noIo, rfl, now.goesOn⟩
  | connect x y env caller isClosed connected =>
    rw [Ctx.connect_eq_ok connected, Ctx.recordConnectionOpen_eq]
    exact ⟨now.noIo, now.noTimer, now.goesOn⟩
  | refuse =>
    rw [Ctx.recordSocketError_eq]
    exact ⟨now.noIo, rfl, now.goesOn⟩
  | send =>
    rw [Ctx.writeRequest_eq]
    exact Idle.sendWrite ⟨now.noIo, now.noTimer, now.goesOn⟩
  | write | misparse | parse => exact ⟨now.io, now.backwards, now.noTimer, now.goesOn⟩
  | written =>
    refine ⟨?_, ?_, ?_, ?_⟩ <;>
      simp [Ctx.writeDone, Ctx.sendRead, Ctx.ioInit, Ctx.ioStart_eq, Ctx.ioStop_eq, Ctx.ask, Ctx.note,
        now.noTimer, now.goesOn]
  | writeFailed | readFailed =>
    rw [Ctx.recordSocketError_eq, Ctx.ioStop_eq]
    exact ⟨rfl, now.noTimer, now.goesOn⟩
  | leave | change | stay =>
    rw [Ctx.ioStop_eq]
    exact ⟨rfl, now.noTimer, now.goesOn⟩
  | shut => exact ⟨now.noIo, now.noTimer, now.goesOn⟩
  | await =>
    refine ⟨?_, ?_, ?_, ?_⟩ <;>
      simp [Ctx.awaitShutdown, Ctx.ioInit, Ctx.ioStart_eq, Ctx.ask, now.noTimer, now.goesOn]
  | pause | rest => exact ⟨now.noIo, rfl, now.goesOn⟩
  | shutdown =>
    rw [Ctx.ioStop_eq]
    exact ⟨rfl, now.noTimer, now.goesOn⟩
  | finish => exact ⟨now.noIo, now.noTimer, rfl⟩
  | turn p x asked phase =>
    rcases phase with rfl | rfl | rfl <;> exact now.turned asked

end Moves

/-! ### Telling the points apart -/

/-- The point that the watchers show. -/
def ConnectionState.point (c : ConnectionState) : Point :=
  if c.io.active then
    match c.io.callback with
    | .writeReady => .writing
    | .readReady => .reading
    | .completeShutdown => .closing
  else if c.thinkTimer.active then .thinking
  else .finished

/-- **Between callbacks the watchers show the point.** -/
theorem At.point_eq {p : Point} {x : Ctx} (now : At p x) (settled : p.settled = true) :
    x.c.point = p := by
  unfold ConnectionState.point
  cases p with
  | writing | reading | closing => rw [if_pos now.active, now.io]
  | thinking => rw [if_neg (by simp [now.noIo]), if_pos now.timer]
  | finished => rw [if_neg (by simp [now.noIo]), if_neg (by simp [now.noTimer])]
  | _ => simp [Point.settled] at settled

/-- A timer is active at the point `thinking` only. -/
theorem At.of_timer {p : Point} {x : Ctx} (now : At p x) (settled : p.settled = true)
    (timer : x.c.thinkTimer.active = true) : p = .thinking := by
  cases p with
  | writing | reading | closing | finished => exact absurd timer (by simp [now.noTimer])
  | thinking => rfl
  | _ => cases settled

end Apib
