/-
**What is true of a connection and its calls between callbacks.**

A `Resting` property looks at a connection alone, and an `Invariant` holds at every point inside a
callback. What a connection has been told by its server is neither: it is about the calls so far, and the
bytes that a callback is given are known to be the server's only as a whole. A `Between` property is of a
connection with its history, and is shown of whole callbacks, of those that are `allowed`.

* `Between.step`: every allowed step keeps the property of every connection;
* `Between.reachable`: **it holds of every connection in every state of every allowed run**.
-/

import Apib.Lifecycle.Invariant

namespace Apib

open Ctx

/-- A property of a connection and its history between callbacks. -/
structure Between (cfg : Config) (allowed : Ctx → System.Input → Prop) where
  holds : Ctx → Prop
  elsewhere : ∀ {t t' c}, holds ⟨t, c⟩ → Elsewhere c.id t t' → holds ⟨t', c⟩
  born : ∀ {x : Ctx} (env : Env), x.history = [] → x.c = .new x.c.id x.c.index x.c.url →
    holds (x.startConnect cfg env)
  removed : ∀ {x : Ctx}, holds x → holds x.removed
  callback : ∀ {p x input y}, At p x → p.settled = true → holds x → allowed x input →
    System.callback cfg x input = some y → holds y

/-- Is a step allowed to the connection that it calls back? -/
def System.Allows (allowed : Ctx → Input → Prop) (s : System) (input : Input) : Prop :=
  match input with
  | .write id .. | .read id .. | .shutdown id .. | .timer id .. =>
    ∀ c, s.heap[id]? = some c → allowed (s.ctx c) input
  | .async _ | .command _ | .hardShutdown => True

instance System.Allows.decidable {allowed : Ctx → Input → Prop} [∀ x input, Decidable (allowed x input)]
    (s : System) (input : Input) : Decidable (s.Allows allowed input) :=
  have found (id : Nat) : Decidable (∀ c, s.heap[id]? = some c → allowed (s.ctx c) input) :=
    match s.heap[id]? with
    | none => .isTrue fun _ none_there => nomatch none_there
    | some c => decidable_of_iff (allowed (s.ctx c) input)
        ⟨fun holds _ same => Option.some.inj same ▸ holds, fun all => all c rfl⟩
  match input with
  | .write id .. | .read id .. | .shutdown id .. | .timer id .. => found id
  | .async _ | .command _ | .hardShutdown => .isTrue trivial

namespace Between

variable {cfg : Config} {allowed : Ctx → System.Input → Prop} (between : Between cfg allowed)

/-- The property holds of every connection, and the watchers are those of its point. -/
structure Everywhere (s : System) : Prop where
  watchers : (Invariant.watchers cfg).Holds s
  conns : ∀ (id : Nat) (c : ConnectionState), s.heap[id]? = some c → between.holds (s.ctx c)

variable {between} {s next : System}

/-! ### What happens elsewhere -/

/-- A change of the thread alone. -/
theorem Everywhere.threadMove (everywhere : between.Everywhere s) {t' : IOThread}
    (watchers : (Invariant.watchers cfg).Holds ⟨t', s.heap⟩) (away : ∀ id, Elsewhere id s.t t') :
    between.Everywhere ⟨t', s.heap⟩ :=
  ⟨watchers, fun id c found => between.elsewhere (everywhere.conns id c found) (away c.id)⟩

/-- **A callback** touches its own connection. -/
theorem Everywhere.put (everywhere : between.Everywhere s) {id : Nat} {c : ConnectionState} {y : Ctx}
    (found : s.heap[id]? = some c) (frame : Frame (s.ctx c) y)
    (watchers : (Invariant.watchers cfg).Holds (s.put id y)) (after : between.holds y) :
    between.Everywhere (s.put id y) := by
  refine ⟨watchers, fun other c' found' => ?_⟩
  simp only [System.put] at found'
  by_cases mine : id = other
  · subst mine
    rw [List.getElem?_set_self (List.getElem?_eq_some_iff.mp found).1] at found'
    cases found'
    exact after
  · rw [List.getElem?_set_ne mine] at found'
    have sameId : c.id = id := (everywhere.watchers.conns id c found).id
    have otherId : c'.id = other := (everywhere.watchers.conns other c' found').id
    refine between.elsewhere (everywhere.conns other c' found') (frame.elsewhere ?_)
    show c.id ≠ c'.id
    rw [sameId, otherId]
    exact mine

/-! ### Commands -/

theorem Everywhere.addConnection (everywhere : between.Everywhere s) (env : Env) :
    between.Everywhere (s.addConnection cfg env) := by
  have watchers := everywhere.watchers
  have unlogged : history s.heap.length s.t.log = [] :=
    history_eq_nil fun event member => absurd (watchers.logged _ _ member) (Nat.lt_irrefl _)
  have leads : Leads cfg Gate.free .born ⟨{ s.t with connections := s.t.connections ++ [s.heap.length] },
      .new s.heap.length s.t.connections.length (getNext cfg.urls cfg.some_url env.rand)⟩
      (Ctx.startConnect cfg env ⟨{ s.t with connections := s.t.connections ++ [s.heap.length] },
        .new s.heap.length s.t.connections.length (getNext cfg.urls cfg.some_url env.rand)⟩) :=
    startConnect_leads env trivial
  have frame := leads.frame
  refine ⟨watchers.addConnection env trivial, fun id c found => ?_⟩
  simp only [System.addConnection] at found
  rcases Nat.lt_trichotomy id s.heap.length with below | equal | above
  · rw [List.getElem?_append_left below] at found
    have sameId : c.id = id := (watchers.conns id c found).id
    have different : s.heap.length ≠ c.id := by
      rw [sameId]
      exact (Nat.ne_of_lt below).symm
    have away := frame.elsewhere different
    refine between.elsewhere (everywhere.conns id c found)
      ⟨away.history, away.listed.trans ?_, away.running⟩
    simp [different.symm]
  · subst equal
    rw [List.getElem?_concat_length] at found
    cases found
    exact between.born env unlogged rfl
  · rw [List.getElem?_eq_none (by simp; omega)] at found
    cases found

theorem Everywhere.addConnections (everywhere : between.Everywhere s) (envs : Nat → Env)
    (count : Nat) : between.Everywhere (s.addConnections cfg envs count) := by
  induction count generalizing s with
  | zero => exact everywhere
  | succ count ih => exact ih (everywhere.addConnection _)

theorem Everywhere.removeConnection (everywhere : between.Everywhere s) :
    between.Everywhere s.removeConnection := by
  have watchers := everywhere.watchers
  refine ⟨watchers.removeConnection, ?_⟩
  unfold System.removeConnection
  split
  · exact everywhere.conns
  · next gone last =>
    have split : s.t.connections = s.t.connections.dropLast ++ [gone] := by
      rw [List.dropLast_append_getLast? gone last]
    intro id c found
    by_cases mine : gone = id
    · subst mine
      rw [List.getElem?_modify_eq, Option.map_eq_map, Option.map_eq_some_iff] at found
      obtain ⟨old, found, rfl⟩ := found
      have sameId : old.id = gone := (watchers.conns gone old found).id
      have kept := between.removed (everywhere.conns gone old found)
      simpa only [System.ctx, Ctx.removed, sameId] using kept
    · rw [List.getElem?_modify_ne _ _ mine] at found
      have otherId : c.id = id := (watchers.conns id c found).id
      have different : gone ≠ c.id := by
        rw [otherId]
        exact mine
      refine between.elsewhere (everywhere.conns id c found)
        ⟨history_elsewhere different [.stopRunning], ?_, .inl ⟨rfl, rfl⟩⟩
      rw [split]
      simp [different.symm]

theorem Everywhere.removeConnections (everywhere : between.Everywhere s) (count : Nat) :
    between.Everywhere (s.removeConnections count) := by
  induction count generalizing s with
  | zero => exact everywhere
  | succ count ih => exact ih everywhere.removeConnection

theorem Everywhere.processCommand (everywhere : between.Everywhere s) (envs : Nat → Env)
    (cmd : Command) : between.Everywhere (s.processCommand cfg envs cmd) := by
  have watchers := everywhere.watchers.processCommand envs cmd fun _ _ _ => trivial
  cases cmd with
  | stop _ =>
    exact everywhere.threadMove watchers fun id => ⟨by simp, Iff.rfl, .inr ⟨rfl, rfl⟩⟩
  | setConnections count =>
    have logged : between.Everywhere { s with
        t.log := s.t.log ++ [Entry.setConnections (System.toSize count)] } :=
      everywhere.threadMove
        (everywhere.watchers.threadMove (.setConnections s.t (System.toSize count))
          (fun id => ⟨by simp, Iff.rfl, .inl ⟨rfl, rfl⟩⟩) (fun id event member => by simpa using member)
          rfl)
        fun id => ⟨by simp, Iff.rfl, .inl ⟨rfl, rfl⟩⟩
    simp only [System.processCommand, System.setNumConnections]
    split
    · exact logged.addConnections envs _
    · exact logged.removeConnections _

theorem Everywhere.foldCommands (everywhere : between.Everywhere s) (envs : Nat → Env)
    (commands : List Command) :
    between.Everywhere (commands.foldl (System.processCommand cfg envs) s) := by
  induction commands generalizing s with
  | nil => exact everywhere
  | cons cmd rest ih => exact ih (everywhere.processCommand envs cmd)

/-! ### Over runs -/

/-- **An allowed step keeps the property of every connection.** -/
theorem Everywhere.step (everywhere : between.Everywhere s) (input : System.Input)
    (permitted : s.Allows allowed input) (taken : s.step cfg input = some next) :
    between.Everywhere next := by
  have watchers := everywhere.watchers.step input (Gate.free_permits cfg s input) taken
  have callback : ∀ id, (∀ c, s.heap[id]? = some c → allowed (s.ctx c) input) →
      (s.heap[id]?.bind fun c => (System.callback cfg (s.ctx c) input).map (s.put id)) = some next →
      between.Everywhere next := by
    intro id permitted called
    obtain ⟨c, found, mapped⟩ := Option.bind_eq_some_iff.mp called
    obtain ⟨y, answer, rfl⟩ := Option.map_eq_some_iff.mp mapped
    obtain ⟨_, p, settled, now, _⟩ := everywhere.watchers.conns id c found
    have free : Gate.free.permitsCallback cfg (s.ctx c) input := by
      cases input <;> simp [Gate.permitsCallback, Gate.free]
    exact everywhere.put found (callback_leads now settled free answer).frame watchers
      (between.callback now settled (everywhere.conns id c found) (permitted c found) answer)
  cases input with
  | write id | read id | shutdown id | timer id => exact callback id permitted taken
  | async envs =>
    cases taken
    have took : between.Everywhere { s with t.commands := [] } :=
      everywhere.threadMove
        (everywhere.watchers.threadMove (.take s.t) (fun id => ⟨rfl, Iff.rfl, .inl ⟨rfl, rfl⟩⟩)
          (fun id event member => member) rfl)
        fun id => ⟨rfl, Iff.rfl, .inl ⟨rfl, rfl⟩⟩
    exact took.foldCommands envs _
  | command cmd =>
    cases taken
    exact everywhere.threadMove watchers fun id => ⟨rfl, Iff.rfl, .inl ⟨rfl, rfl⟩⟩
  | hardShutdown =>
    simp only [System.step] at taken
    split at taken
    · cases taken
      exact everywhere.threadMove watchers fun id => ⟨rfl, Iff.rfl, .inl ⟨rfl, rfl⟩⟩
    · cases taken

theorem Everywhere.start (reporting : Bool) (envs : Nat → Env) :
    between.Everywhere (System.start cfg reporting envs) := by
  have watchers : (Invariant.watchers cfg).Holds (System.start cfg reporting envs) :=
    Invariant.Holds.start (fun _ => trivial) trivial reporting envs
  have initial : between.Everywhere (System.initial cfg reporting) :=
    ⟨⟨trivial, fun id c found => by simp [System.initial] at found,
      fun id event member => by simp [System.initial] at member,
      fun id member => by simp [System.initial] at member, by simp [System.initial]⟩,
      fun id c found => by simp [System.initial] at found⟩
  have connected := initial.addConnections envs cfg.numConnections
  revert watchers
  unfold System.start
  dsimp only
  split
  · exact fun watchers => connected.threadMove watchers fun id => ⟨rfl, Iff.rfl, .inl ⟨rfl, rfl⟩⟩
  · exact fun _ => connected

/-- **The property holds of every connection in every state of every allowed run.** -/
theorem reachable (between : Between cfg allowed)
    (reached : System.Reachable cfg (System.Allows allowed) s) : between.Everywhere s := by
  obtain ⟨reporting, envs, reached⟩ := reached
  exact reached.invariant (Everywhere.start reporting envs)
    fun s input next before permitted taken => before.step input permitted taken

end Between

end Apib
