/-
**No connection is stalled and none is driven twice.**

Between callbacks every connection ever started has exactly one of: its `io_` watcher active, its
timer active, or an end that its own or the thread's stop brought about. An active `io_` looks in the
direction that the last socket operation asked for, and `backwardsIo_` tells whether that is against
the phase's own direction.
-/

import Apib.Lifecycle.Invariant

namespace Apib

/-- The direction of a phase's own I/O, by its callback. -/
def IoCallback.home : IoCallback → Direction
  | .writeReady => .write
  | .readReady | .completeShutdown => .read

/-- A connection is driven by exactly one watcher, or has come to its end. -/
structure DrivenOnce (t : IOThread) (c : ConnectionState) : Prop where
  one : [c.io.active, c.thinkTimer.active, c.finished].count true = 1
  direction : c.io.active = true →
    c.io.events = c.asked ∧ c.backwardsIo = decide (c.asked ≠ c.io.callback.home)
  ended : c.finished = true → c.keepRunning = false ∨ t.shouldKeepRunning = false

/-- A connection that has come to its end is not to run on, or its thread is not. -/
def endInvariant (cfg : Config) : Invariant cfg Gate.free where
  thread := fun _ => True
  conn := fun p x => p = .finished → x.c.keepRunning = false ∨ x.t.shouldKeepRunning = false
  move := by
    intro p q x y move _ _ _
    refine ⟨trivial, fun atEnd => ?_⟩
    cases move with
    | finish x stops =>
      rw [Bool.or_eq_true, Bool.not_eq_true', Bool.not_eq_true'] at stops
      exact stops
    | turn p x asked phase =>
      subst atEnd
      rcases phase with same | same | same <;> cases same
    | _ => cases atEnd
  elsewhere := by
    intro p t t' c _ conn away atEnd
    refine (conn atEnd).imp id fun stopped => ?_
    rcases away.running with ⟨same, _⟩ | ⟨zero, _⟩
    · simpa only [IOThread.shouldKeepRunning, same] using stopped
    · simp [IOThread.shouldKeepRunning, zero]
  born := fun _ _ _ _ atEnd => by cases atEnd
  removed := fun _ _ _ _ _ => .inl rfl
  threadMove := fun _ _ => trivial

/-- The watchers at a point between callbacks are one watcher, or the end. -/
theorem At.drivenOnce {p : Point} {t : IOThread} {c : ConnectionState} (now : At p ⟨t, c⟩)
    (settled : p.settled = true)
    (ended : p = .finished → c.keepRunning = false ∨ t.shouldKeepRunning = false) : DrivenOnce t c := by
  cases p with
  | writing | reading | closing =>
    have io := now.io
    have timer := now.noTimer
    have goesOn := now.goesOn
    have backwards := now.backwards
    dsimp only at io timer goesOn backwards
    exact ⟨by simp [io, timer, goesOn], fun _ => by simp [io, backwards, IoCallback.home],
      fun ended => absurd ended (by simp [goesOn])⟩
  | thinking =>
    have noIo := now.noIo
    have timer := now.timer
    have goesOn := now.goesOn
    dsimp only at noIo timer goesOn
    exact ⟨by simp [noIo, timer, goesOn], fun active => absurd active (by simp [noIo]),
      fun ended => absurd ended (by simp [goesOn])⟩
  | finished =>
    have noIo := now.noIo
    have timer := now.noTimer
    have stopped := now.stopped
    dsimp only at noIo timer stopped
    exact ⟨by simp [noIo, timer, stopped], fun active => absurd active (by simp [noIo]),
      fun _ => ended rfl⟩
  | _ => simp [Point.settled] at settled

/-- **Every connection is driven exactly once in every state of every run.** -/
theorem driven_once (cfg : Config) (s : System)
    (reached : System.Reachable cfg Transition.anyStep s) (id : Nat) (c : ConnectionState)
    (found : s.heap[id]? = some c) : DrivenOnce s.t c := by
  have holds := (endInvariant cfg).reachable_any (fun _ => trivial) reached
  obtain ⟨_, p, settled, now, ended⟩ := holds.conns id c found
  exact now.drivenOnce settled ended

theorem driven_once_example : ∃ s c,
    System.after System.oneConnection [.write 0 [.ok (.ok 10), .ok .needRead] {}] = some s ∧
      s.heap[0]? = some c ∧ DrivenOnce s.t c :=
  have ⟨s, c, ran, found⟩ := System.exists_after (by decide +kernel)
  ⟨s, c, ran, found, driven_once _ s (System.reachable_any ran) 0 c found⟩

end Apib
