/-
**Commands from another thread.**

`RequestStop` and `SetNumConnections` add a command to the queue of a thread and then call
`ev_async_send` on its `loop_` and `async_`, which the thread itself sets up after it has been spawned.
The steps of the thread and of the one that commands it interleave in any way.

Of libev it is assumed that a send on a started watcher makes its callback run once more. A send on a
watcher that has not been started does nothing that can be relied on.

* `wakeup_lost`: a stop that follows at once on `Start` uses a loop that does not exist yet, and a
  thread can wait for good with a command in its queue;
* `wakeup_sound`: in every run whose sends come between the start of the watcher and the end of the
  loop, no command is lost.
-/

import Apib.IOThread.State
import Apib.Library.Transition

namespace Apib

/-- How far a thread is in `threadLoop`: before `ev_loop_new`, `ev_async_init` and `ev_async_start`,
then with so many connections still to be opened, waiting in `ev_run`, in `processCommands`, and after
`ev_loop_destroy`. -/
inductive LoopPhase
  | spawned
  | created
  | initialised
  | opening (left : Nat)
  | waiting
  | processing
  | destroyed
  deriving DecidableEq, Repr

/-- Is `async_` started, and the loop not destroyed? -/
def LoopPhase.started : LoopPhase → Bool
  | .opening _ | .waiting | .processing => true
  | _ => false

/-- Are `loop_` and `async_` initialised, and the loop not destroyed? -/
def LoopPhase.usable : LoopPhase → Bool
  | .initialised | .opening _ | .waiting | .processing => true
  | _ => false

/-- A thread and the one that commands it. `sending` is whether a command has been added whose
`ev_async_send` is still to come, `pending` whether the callback of `async_` is still to run; `strayed`
is whether a send used a loop or a watcher that was not there, `added` and `handled` are the commands
added and taken so far. -/
structure Wakeup where
  phase : LoopPhase := .spawned
  commands : List Command := []
  sending : Bool := false
  pending : Bool := false
  stopped : Bool := false
  strayed : Bool := false
  added : List Command := []
  handled : List Command := []
  deriving DecidableEq, Repr

namespace Wakeup

/-- What can happen next: the commanding thread adds a command or sends the wake-up for it; the thread
sets up its loop, opens a connection, enters `ev_run`, is called back, takes a command or finds none,
and leaves `ev_run`. -/
inductive Input
  | add (cmd : Command)
  | send
  | create
  | init
  | start
  | open
  | run
  | wake
  | pop
  | leave
  deriving DecidableEq, Repr

/-- The call `ev_async_send`. -/
def asyncSend (s : Wakeup) : Wakeup :=
  { s with
    sending := false
    pending := s.pending || s.phase.started
    strayed := s.strayed || !s.phase.usable }

/-- The thread goes from one phase to the next. -/
def advance (before after : LoopPhase) (s : Wakeup) : Option Wakeup :=
  if s.phase = before then some { s with phase := after } else none

/-- One step, for a thread with so many connections; `oneShot` is whether `keepRunning` was set to end
`ev_run` without a stop. -/
def step (numConnections : Nat) (oneShot : Bool) (s : Wakeup) : Input → Option Wakeup
  | .add cmd =>
    if s.sending then none
    else some { s with commands := s.commands ++ [cmd], added := s.added ++ [cmd], sending := true }
  | .send => if s.sending then some s.asyncSend else none
  | .create => s.advance .spawned .created
  | .init => s.advance .created .initialised
  | .start => s.advance .initialised (.opening numConnections)
  | .open =>
    match s.phase with
    | .opening (left + 1) => some { s with phase := .opening left }
    | _ => none
  | .run => s.advance (.opening 0) .waiting
  | .wake =>
    if s.phase = .waiting ∧ s.pending then some { s with phase := .processing, pending := false }
    else none
  | .pop =>
    if s.phase = .processing then
      match s.commands with
      | [] => some { s with phase := .waiting }
      | cmd :: rest => some { s with
          commands := rest
          handled := s.handled ++ [cmd]
          stopped := s.stopped || match cmd with
            | .stop _ => true
            | .setConnections _ => false }
    else none
  | .leave =>
    if s.phase = .waiting ∧ (s.stopped ∨ oneShot) then some { s with phase := .destroyed } else none

/-- No send has used what was not there, the thread does not wait with a command and no wake-up to
come, and what has been added is handled in that order or in the queue. -/
structure Sound (s : Wakeup) : Prop where
  there : s.strayed = false
  awake : s.commands ≠ [] → s.phase = .waiting → s.pending = true ∨ s.sending = true
  kept : s.added = s.handled ++ s.commands

/-- A state reached by steps that meet `ok`. -/
abbrev Reachable (numConnections : Nat) (oneShot : Bool) (ok : Wakeup → Input → Prop) (s : Wakeup) :
    Prop :=
  Transition.Reach (step numConnections oneShot) ok {} s

/-- **A send can use a loop that is not there, and a command can be lost**: in the first run the stop
comes before the thread has done anything, in the second between `ev_async_init` and
`ev_async_start`. -/
theorem wakeup_lost : (¬ ∀ (numConnections : Nat) (oneShot : Bool) (s : Wakeup),
      Reachable numConnections oneShot Transition.anyStep s → s.strayed = false) ∧
    ¬ ∀ (numConnections : Nat) (oneShot : Bool) (s : Wakeup),
      Reachable numConnections oneShot Transition.anyStep s → s.commands ≠ [] → s.phase = .waiting →
        s.pending = true ∨ s.sending = true := by
  have reach : ∀ {inputs : List Input} {s : Wakeup},
      Transition.run (step 1 false) {} inputs = some s → Reachable 1 false Transition.anyStep s :=
    fun ran => Transition.Reach.of_run (fun _ _ _ => trivial) ran
  constructor
  · intro there
    have run : (Transition.run (step 1 false) {} [.add (.stop 2), .send]).map Wakeup.strayed =
        some true := by
      decide
    obtain ⟨s, ran, strayed⟩ := Option.map_eq_some_iff.mp run
    exact absurd (strayed.symm.trans (there 1 false s (reach ran))) (by decide)
  · intro awake
    have run : (Transition.run (step 1 false) {} [.create, .init, .add (.stop 2), .send, .start, .open,
        .run]).map (fun s => decide (s.commands ≠ [] ∧ s.phase = .waiting ∧
          ¬(s.pending = true ∨ s.sending = true))) = some true := by
      decide
    obtain ⟨s, ran, lost⟩ := Option.map_eq_some_iff.mp run
    obtain ⟨queued, waiting, silent⟩ := of_decide_eq_true lost
    exact silent (awake 1 false s (reach ran) queued waiting)

/-- A wake-up is sent only while the watcher is started. -/
def sendsStarted (s : Wakeup) : Input → Prop
  | .send => s.phase.started = true
  | _ => True

instance (s : Wakeup) : (input : Input) → Decidable (s.sendsStarted input)
  | .send => inferInstanceAs (Decidable (_ = _))
  | .add _ | .create | .init | .start | .open | .run | .wake | .pop | .leave =>
    inferInstanceAs (Decidable True)

/-- What the steps keep: while there are commands, the thread is about to look for them or will be told
to. -/
structure Kept (s : Wakeup) : Prop where
  there : s.strayed = false
  told : s.commands ≠ [] → s.pending = true ∨ s.sending = true ∨ s.phase = .processing
  kept : s.added = s.handled ++ s.commands

section Steps

variable {numConnections : Nat} {oneShot : Bool} {s next : Wakeup}

theorem usable_of_started {phase : LoopPhase} (started : phase.started = true) :
    phase.usable = true := by
  cases phase <;> first | rfl | cases started

/-- A thread that moves on outside `processCommands` forgets nothing. -/
theorem Kept.moves (kept : Kept s) (outside : s.phase ≠ .processing) (phase : LoopPhase) :
    Kept { s with phase } := by
  refine ⟨kept.there, fun queued => ?_, kept.kept⟩
  rcases kept.told queued with pending | sending | processing
  · exact .inl pending
  · exact .inr (.inl sending)
  · exact absurd processing outside

/-- **A send on a started watcher is heard.** -/
theorem Kept.send (kept : Kept s) (started : s.phase.started = true) : Kept s.asyncSend := by
  refine ⟨?_, fun _ => .inl ?_, kept.kept⟩
  · simp [asyncSend, kept.there, usable_of_started started]
  · simp [asyncSend, started]

/-- `processCommands` takes a command, or ends with none left. -/
theorem Kept.pop (kept : Kept s) (processing : s.phase = .processing)
    (taken : s.step numConnections oneShot .pop = some next) : Kept next := by
  simp only [step, if_pos processing] at taken
  cases commands : s.commands with
  | nil =>
    rw [commands] at taken
    cases taken
    exact ⟨kept.there, fun queued => absurd rfl queued, by rw [kept.kept, commands]⟩
  | cons cmd rest =>
    rw [commands] at taken
    cases taken
    refine ⟨kept.there, fun _ => .inr (.inr processing), ?_⟩
    rw [kept.kept, commands, List.append_assoc, List.singleton_append]

theorem Kept.advance (kept : Kept s) {before after : LoopPhase} (outside : before ≠ .processing)
    (taken : s.advance before after = some next) : Kept next := by
  unfold Wakeup.advance at taken
  split at taken
  · next phase =>
    cases taken
    exact kept.moves (phase ▸ outside) after
  · cases taken

/-- **Every step keeps commands and wake-ups together.** -/
theorem Kept.step (kept : Kept s) {input : Input} (allowed : s.sendsStarted input)
    (taken : s.step numConnections oneShot input = some next) : Kept next := by
  have whole := taken
  unfold Wakeup.step at taken
  split at taken
  · next cmd =>
    split at taken
    · cases taken
    · cases taken
      refine ⟨kept.there, fun _ => .inr (.inl rfl), ?_⟩
      rw [kept.kept, List.append_assoc]
  · split at taken
    · cases taken
      exact kept.send allowed
    · cases taken
  · exact kept.advance (by simp) taken
  · exact kept.advance (by simp) taken
  · exact kept.advance (by simp) taken
  · split at taken
    · next phase =>
      cases taken
      exact kept.moves (by simp [phase]) _
    · cases taken
  · exact kept.advance (by simp) taken
  · split at taken
    · cases taken
      exact ⟨kept.there, fun _ => .inr (.inr rfl), kept.kept⟩
    · cases taken
  · split at taken
    · next processing => exact kept.pop processing whole
    · cases taken
  · split at taken
    · next phase =>
      cases taken
      exact kept.moves (by simp [phase.1]) _
    · cases taken

end Steps

/-- **No command is lost** in any run whose sends come while the watcher is started. -/
theorem wakeup_sound (numConnections : Nat) (oneShot : Bool) (s : Wakeup)
    (reached : Reachable numConnections oneShot sendsStarted s) : Sound s := by
  have kept : Kept s := reached.invariant
    ⟨rfl, fun queued => absurd rfl queued, rfl⟩ fun state input next before allowed taken =>
      before.step allowed taken
  refine ⟨kept.there, fun queued waiting => ?_, kept.kept⟩
  rcases kept.told queued with pending | sending | processing
  · exact .inl pending
  · exact .inr sending
  · exact absurd (waiting.symm.trans processing) (by decide)

theorem wakeup_sound_example : ∃ s : Wakeup,
    Transition.run (Transition.guarded (step 1 false) sendsStarted) {} [.create, .add (.stop 2), .init,
      .start, .send, .open, .run, .wake, .pop, .pop, .leave] = some s ∧ Sound s := by
  have run : (Transition.run (Transition.guarded (step 1 false) sendsStarted) {} [.create,
      .add (.stop 2), .init, .start, .send, .open, .run, .wake, .pop, .pop, .leave]).isSome = true := by
    decide
  obtain ⟨s, ran⟩ := Option.isSome_iff_exists.mp run
  exact ⟨s, ran, wakeup_sound 1 false s (Transition.Reach.of_guarded_run ran)⟩

end Wakeup

end Apib
