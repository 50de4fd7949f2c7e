/-
**What connections keep between callbacks.**

Some properties hold of a connection between callbacks but not at every point inside one: the loops of
`readReady` and `writeReady` pass through states that no callback leaves behind. A `Resting` property
is given by what it says of a connection whose watcher has just been set up, and by what the two loops
keep of it until they pause.

* `Resting.callback`: every callback keeps the property;
* `Resting.reachable`: **it holds of every connection in every state of every run**;
* `Resting.reachable_with`: it may also be what an invariant needs for its gate.
-/

import Apib.Lifecycle.Invariant

namespace Apib

open Ctx

/-- A chain of moves that stays at a point keeps its watcher. -/
theorem At.stays {cfg : Config} {gate : Gate} {p : Point} {x y : Ctx} (now : At p x)
    (stays : Stays cfg gate p x y) : At p y :=
  Transition.closure_invariant (P := fun node : Point × Ctx => At node.1 node.2)
    (fun _ _ move => move.at_next) stays now

/-- A property of a connection between callbacks. -/
structure Resting (cfg : Config) where
  holds : ConnectionState → Prop
  idle : ∀ {c}, c.io.active = false → holds c
  closing : ∀ {c}, c.io.callback = .completeShutdown → holds c
  sent : ∀ (env : Env) (x : Ctx), holds ((x.writeRequest cfg env).sendWrite).c
  listening : ∀ (env : Env) (x : Ctx), holds (x.writeDone cfg env 0).c
  writing : ∀ {x y outs unused}, At .writing x → At .writing y → holds x.c →
    drain tryWrite x outs = .paused y unused → holds y.c
  reading : ∀ {x y outs unused}, At .reading x → At .reading y → holds x.c →
    drain (tryRead cfg) x outs = .paused y unused → holds y.c
  removed : ∀ {c}, holds c → holds { c with keepRunning := false }

namespace Resting

variable {cfg : Config} (resting : Resting cfg)

section Callbacks

variable {env : Env} {x y : Ctx}

/-! ### Functions that end with a new watcher or none -/

theorem connectAndSend (noIo : x.c.io.active = false) (caller : Caller) :
    resting.holds (x.connectAndSend cfg env caller).c := by
  unfold Ctx.connectAndSend
  dsimp only
  split
  · rcases connect_cases cfg env { x.note (.connectAndSend caller) with c.startTime := env.startTime }
      with failed | opened
    · rw [failed]
      exact resting.idle (by simp [noIo])
    · rw [opened]
      exact resting.sent env _
  · exact resting.sent env _

theorem closeDone (noIo : x.c.io.active = false) : resting.holds (x.closeDone cfg env).c := by
  unfold Ctx.closeDone
  split
  · exact resting.idle (by simp [noIo])
  · split
    · exact resting.idle (by simp [noIo])
    · exact resting.connectAndSend noIo _

theorem recycle (noIo : x.c.io.active = false) (closeConn : Bool) :
    resting.holds (x.recycle cfg env closeConn).c := by
  unfold Ctx.recycle Ctx.close
  split
  · split
    · exact resting.closeDone (by simp)
    · exact resting.closeDone noIo
    · exact resting.closeDone noIo
    · exact resting.closing (by simp)
    · exact resting.closing (by simp)
  · dsimp only
    split
    · exact resting.idle (by simp [noIo])
    · refine resting.connectAndSend ?_ _
      exact noIo

theorem writeDone (noIo : x.c.io.active = false) (err : Int) :
    resting.holds (x.writeDone cfg env err).c := by
  by_cases isError : err = 0
  · subst isError
    exact resting.listening env x
  · unfold Ctx.writeDone
    rw [if_pos isError]
    exact resting.recycle (by simp [noIo]) true

theorem readDone (noIo : x.c.io.active = false) (err : Int) :
    resting.holds (x.readDone cfg env err).c := by
  by_cases isError : err = 0
  · subst isError
    rw [readDone_zero]
    split
    · exact resting.recycle (by simp [noIo]) true
    · split
      · exact resting.recycle (by simp [noIo]) true
      · exact resting.recycle (by simp [noIo]) false
  · unfold Ctx.readDone
    rw [if_pos isError]
    exact resting.recycle (by simp [noIo]) true

theorem completeShutdown (now : At .closing x) (out : ReadOutcome) :
    resting.holds (x.completeShutdown cfg env out).c := by
  have io := now.io
  unfold Ctx.completeShutdown
  split
  · exact resting.closeDone (by simp)
  · exact resting.closeDone (by simp)
  · exact resting.closeDone (by simp)
  · refine resting.closing ?_
    dsimp only
    split <;> simp [io]
  · refine resting.closing ?_
    dsimp only
    split <;> simp [io]

/-! ### Callbacks -/

/-- **Every callback keeps the property.** -/
theorem callback {p : Point} {input : System.Input} (now : At p x) (settled : p.settled = true)
    (before : resting.holds x.c) (called : System.callback cfg x input = some y) :
    resting.holds y.c := by
  have point := now.point_eq settled
  unfold System.callback at called
  split at called
  · next id outs env =>
    split at called
    · next enabled =>
      rw [Bool.and_eq_true, beq_iff_eq] at enabled
      rw [ConnectionState.point, if_pos enabled.1, enabled.2] at point
      subst point
      have stays := drain_stays (tryWrite_follows cfg Gate.free) x outs
      rw [writeReady_eq] at called
      rcases returned_ending called with paused | ⟨last, err, done, rfl⟩
      · rw [paused] at stays
        exact resting.writing now (now.stays stays) before paused
      · rw [done] at stays
        obtain ⟨z, _, rfl, _⟩ := stays
        exact resting.writeDone (ioStop_noIo z) err
    · cases called
  · next id outs env =>
    split at called
    · next enabled =>
      rw [Bool.and_eq_true, beq_iff_eq] at enabled
      rw [ConnectionState.point, if_pos enabled.1, enabled.2] at point
      subst point
      have stays := drain_stays (tryRead_follows cfg Gate.free) x outs
      rw [readReady_eq] at called
      rcases returned_ending called with paused | ⟨last, err, done, rfl⟩
      · rw [paused] at stays
        exact resting.reading now (now.stays stays) before paused
      · rw [done] at stays
        obtain ⟨z, _, rfl, _⟩ := stays
        exact resting.readDone (ioStop_noIo z) err
    · cases called
  · split at called
    · next enabled =>
      rw [Bool.and_eq_true, beq_iff_eq] at enabled
      rw [ConnectionState.point, if_pos enabled.1, enabled.2] at point
      subst point
      cases called
      exact resting.completeShutdown now _
    · cases called
  · split at called
    · next enabled =>
      obtain rfl := now.of_timer settled enabled
      cases called
      refine resting.connectAndSend ?_ _
      exact now.noIo
    · cases called
  · cases called

end Callbacks

/-! ### Over runs -/

section Runs

variable {gate : Gate} {s next : System}

/-- The property holds of every connection. -/
def Everywhere (s : System) : Prop :=
  ∀ (id : Nat) (c : ConnectionState), s.heap[id]? = some c → resting.holds c

variable {resting}

theorem Everywhere.addConnections (everywhere : resting.Everywhere s) (envs : Nat → Env)
    (count : Nat) : resting.Everywhere (s.addConnections cfg envs count) := by
  induction count generalizing s with
  | zero => exact everywhere
  | succ count ih =>
    refine ih fun id c found => ?_
    rcases Nat.lt_trichotomy id s.heap.length with below | equal | above
    · simp only [System.addConnection, List.getElem?_append_left below] at found
      exact everywhere id c found
    · subst equal
      simp only [System.addConnection, List.getElem?_concat_length, Option.some.injEq] at found
      subst found
      refine resting.connectAndSend ?_ _
      rfl
    · rw [List.getElem?_eq_none (by simp [System.addConnection]; omega)] at found
      cases found

theorem Everywhere.removeConnections (everywhere : resting.Everywhere s) (count : Nat) :
    resting.Everywhere (s.removeConnections count) := by
  induction count generalizing s with
  | zero => exact everywhere
  | succ count ih =>
    refine ih ?_
    unfold System.removeConnection
    split
    · exact everywhere
    · next gone last =>
      intro id c found
      rw [List.getElem?_modify, Option.map_eq_map, Option.map_eq_some_iff] at found
      obtain ⟨old, found, rfl⟩ := found
      split
      · exact resting.removed (everywhere id old found)
      · exact everywhere id old found

theorem Everywhere.foldCommands (everywhere : resting.Everywhere s) (envs : Nat → Env)
    (commands : List Command) :
    resting.Everywhere (commands.foldl (System.processCommand cfg envs) s) := by
  induction commands generalizing s with
  | nil => exact everywhere
  | cons cmd rest ih =>
    refine ih ?_
    cases cmd with
    | stop => exact everywhere
    | setConnections count =>
      have logged : resting.Everywhere { s with
          t.log := s.t.log ++ [Entry.setConnections (System.toSize count)] } := everywhere
      simp only [System.processCommand, System.setNumConnections]
      split
      · exact logged.addConnections envs _
      · exact logged.removeConnections _

theorem Everywhere.step {inv : Invariant cfg gate} (holds : inv.Holds s)
    (everywhere : resting.Everywhere s) (input : System.Input)
    (taken : s.step cfg input = some next) : resting.Everywhere next := by
  have callback : ∀ id, (s.heap[id]?.bind fun c =>
      (System.callback cfg (s.ctx c) input).map (s.put id)) = some next →
      resting.Everywhere next := by
    intro id called other c' found'
    obtain ⟨c, found, mapped⟩ := Option.bind_eq_some_iff.mp called
    obtain ⟨y, answer, rfl⟩ := Option.map_eq_some_iff.mp mapped
    obtain ⟨_, p, settled, now, _⟩ := holds.conns id c found
    simp only [System.put] at found'
    by_cases mine : id = other
    · subst mine
      rw [List.getElem?_set_self (List.getElem?_eq_some_iff.mp found).1] at found'
      cases found'
      exact resting.callback now settled (everywhere id c found) answer
    · rw [List.getElem?_set_ne mine] at found'
      exact everywhere other c' found'
  cases input with
  | write id | read id | shutdown id | timer id => exact callback id taken
  | async envs =>
    cases taken
    exact Everywhere.foldCommands (s := { s with t.commands := [] }) everywhere envs _
  | command cmd =>
    cases taken
    exact everywhere
  | hardShutdown =>
    simp only [System.step] at taken
    split at taken
    · cases taken
      exact everywhere
    · cases taken

theorem Everywhere.start (reporting : Bool) (envs : Nat → Env) :
    resting.Everywhere (System.start cfg reporting envs) := by
  have initial : resting.Everywhere (System.initial cfg reporting) := fun id c found => by
    simp [System.initial] at found
  have connected : resting.Everywhere
      ((System.initial cfg reporting).addConnections cfg envs cfg.numConnections) :=
    initial.addConnections envs _
  unfold System.start
  dsimp only
  split <;> exact connected

/-- **The property goes along with an invariant**, where every step that the two allow is permitted. -/
theorem reachable_with (resting : Resting cfg) (inv : Invariant cfg gate)
    (initial : ∀ reporting, inv.thread (System.initial cfg reporting).t) (allowed : gate.start false)
    (permits : ∀ s input next, inv.Holds s → resting.Everywhere s → s.step cfg input = some next →
      gate.permits cfg s input)
    (reached : System.Reachable cfg Transition.anyStep s) : inv.Holds s ∧ resting.Everywhere s := by
  obtain ⟨reporting, envs, reached⟩ := reached
  exact reached.invariant (P := fun s => inv.Holds s ∧ resting.Everywhere s)
    ⟨Invariant.Holds.start initial allowed reporting envs, .start reporting envs⟩
    fun s input next before _ taken =>
      ⟨before.1.step input (permits s input next before.1 before.2 taken) taken,
        before.2.step before.1 input taken⟩

/-- **The property holds of every connection in every state of every run.** -/
theorem reachable (resting : Resting cfg) (s : System)
    (reached : System.Reachable cfg Transition.anyStep s) : resting.Everywhere s :=
  (resting.reachable_with (Invariant.watchers cfg) (fun _ => trivial) trivial
    (fun s input _ _ _ _ => Gate.free_permits cfg s input) reached).2

end Runs

end Resting

end Apib
