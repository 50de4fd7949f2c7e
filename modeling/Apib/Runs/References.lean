/-
**When the event loop ends.**

libev counts a reference for every active watcher, and `ev_run` returns when there is none. The thread
takes the reference of `async_` back and holds one of its own until a `STOP`; the reference of
`shutdownTimer_` is taken back too.

* `Move.balanced`: what a connection does changes the count as its own watchers do;
* `Balanced.step`: **so the count is that of the active watchers**, and of the thread's own reference;
* `loop_ends`: it is 0 exactly after a `STOP`, when every connection has finished.
-/

import Apib.Library.Tally
import Apib.Lifecycle.Invariant

namespace Apib

open Tally

/-- The references that the watchers of a connection hold. -/
def ConnectionState.watching (c : ConnectionState) : Int := refs c.io.active + refs c.thinkTimer.active

/-- The times that `STOP` was processed. -/
def stops (log : List Entry) : Int := log.count .stop

theorem refs_nonneg (active : Bool) : 0 ≤ refs active := by
  cases active <;> decide

theorem ConnectionState.watching_nonneg (c : ConnectionState) : 0 ≤ c.watching :=
  Int.add_nonneg (refs_nonneg _) (refs_nonneg _)

/-! ### One connection -/

section Moves

variable {cfg : Config} {gate : Gate} {p q : Point} {x y : Ctx}

/-- **A move changes the count** as it changes the watchers of its connection. -/
theorem Move.balanced (move : Move cfg gate (p, x) (q, y)) (now : At p x) :
    y.t.activeCnt - y.c.watching = x.t.activeCnt - x.c.watching := by
  cases move with
  | connect x y env caller isClosed connected =>
    rw [Ctx.connect_eq_ok connected]
    simp [ConnectionState.watching]
  | start | reuse | next | reopen | shut | finish => simp [ConnectionState.watching]
  | write | misparse | parse => simp [ConnectionState.watching]
  | fire =>
    simp [ConnectionState.watching, now.timer]
    omega
  | refuse | pause | rest => simp [ConnectionState.watching, now.noTimer]
  | send | await =>
    simp [ConnectionState.watching, now.noIo]
    omega
  | written | writeFailed | readFailed | leave | change | stay | shutdown =>
    simp [ConnectionState.watching, now.io]
    try omega
  | turn p x asked phase =>
    have active : x.c.io.active = true := by rcases phase with rfl | rfl | rfl <;> exact now.active
    simp [ConnectionState.watching, active]
    split <;> simp [active]

end Moves

/-! ### The whole thread -/

/-- The count is that of the watchers, and of a reference that each `STOP` takes one of. -/
def Balanced (own : Int) (s : System) : Prop :=
  s.t.activeCnt = tally ConnectionState.watching s.heap + own - stops s.t.log

section Steps

variable {cfg : Config} {own : Int} {s next : System}

/-- Calls of connections are no `STOP`. -/
theorem Frame.stops {x y : Ctx} (frame : Frame x y) : stops y.t.log = stops x.t.log := by
  obtain ⟨events, log⟩ := frame.log
  have none_here : (events.map (Entry.conn x.c.id)).count .stop = 0 := by
    rw [List.count_eq_zero]
    simp
  rw [log, Apib.stops, List.count_append, none_here]
  rfl

theorem Leads.balanced {gate : Gate} {p : Point} {x y : Ctx} (leads : Leads cfg gate p x y)
    (now : At p x) : y.t.activeCnt - y.c.watching = x.t.activeCnt - x.c.watching := by
  obtain ⟨q, _, moves⟩ := leads
  have both := Transition.closure_invariant
    (P := fun node : Point × Ctx => At node.1 node.2 ∧
      node.2.t.activeCnt - node.2.c.watching = x.t.activeCnt - x.c.watching)
    (fun _ _ move before => ⟨move.at_next before.1, (move.balanced before.1).trans before.2⟩)
    moves ⟨now, rfl⟩
  exact both.2

theorem Balanced.addConnection (balanced : Balanced own s) (env : Env) :
    Balanced own (s.addConnection cfg env) := by
  let born : Ctx := ⟨{ s.t with connections := s.t.connections ++ [s.heap.length] },
    .new s.heap.length s.t.connections.length (getNext cfg.urls cfg.some_url env.rand)⟩
  have leads : Leads cfg Gate.free .born born (born.startConnect cfg env) :=
    startConnect_leads env trivial
  have count : (born.startConnect cfg env).t.activeCnt - (born.startConnect cfg env).c.watching =
      s.t.activeCnt - 0 := leads.balanced ⟨rfl, rfl, rfl⟩
  have stopped : stops (born.startConnect cfg env).t.log = stops s.t.log := leads.frame.stops
  show (born.startConnect cfg env).t.activeCnt =
    tally ConnectionState.watching (s.heap ++ [(born.startConnect cfg env).c]) + own -
      stops (born.startConnect cfg env).t.log
  rw [tally_append, tally_cons, tally_nil]
  unfold Balanced at balanced
  omega

theorem Balanced.addConnections (balanced : Balanced own s) (envs : Nat → Env) (count : Nat) :
    Balanced own (s.addConnections cfg envs count) := by
  induction count generalizing s with
  | zero => exact balanced
  | succ count ih => exact ih (balanced.addConnection _)

theorem Balanced.removeConnection (balanced : Balanced own s) : Balanced own s.removeConnection := by
  unfold System.removeConnection
  split
  · exact balanced
  · next id last =>
    have silent : stops (s.t.log ++ [.conn id .stopRunning]) = stops s.t.log := by simp [stops]
    have same : tally ConnectionState.watching
        (s.heap.modify id fun c => { c with keepRunning := false }) =
          tally ConnectionState.watching s.heap :=
      tally_modify (g := fun c : ConnectionState => { c with keepRunning := false }) (fun _ => rfl) id
    unfold Balanced at *
    dsimp only
    rw [same, silent]
    exact balanced

theorem Balanced.removeConnections (balanced : Balanced own s) (count : Nat) :
    Balanced own (s.removeConnections count) := by
  induction count generalizing s with
  | zero => exact balanced
  | succ count ih => exact ih balanced.removeConnection

/-- **A command** changes the count as it changes the connections; `STOP` takes one reference. -/
theorem Balanced.processCommand (balanced : Balanced own s) (envs : Nat → Env) (cmd : Command) :
    Balanced own (s.processCommand cfg envs cmd) := by
  cases cmd with
  | stop timeoutSecs =>
    have one : stops (s.t.log ++ [.stop]) = stops s.t.log + 1 := by simp [stops]
    unfold Balanced at *
    simp only [System.processCommand, one]
    omega
  | setConnections count =>
    have logged : Balanced own { s with t.log := s.t.log ++ [Entry.setConnections (System.toSize count)] } := by
      have silent : stops (s.t.log ++ [Entry.setConnections (System.toSize count)]) = stops s.t.log := by
        simp [stops]
      unfold Balanced at *
      dsimp only
      rw [silent]
      exact balanced
    simp only [System.processCommand, System.setNumConnections]
    split
    · exact logged.addConnections envs _
    · exact logged.removeConnections _

theorem Balanced.processCommands (balanced : Balanced own s) (envs : Nat → Env) :
    Balanced own (s.processCommands cfg envs) := by
  have each : ∀ (commands : List Command) {s : System}, Balanced own s →
      Balanced own (commands.foldl (System.processCommand cfg envs) s) := by
    intro commands
    induction commands with
    | nil => exact fun balanced => balanced
    | cons cmd rest ih => exact fun balanced => ih (balanced.processCommand envs cmd)
  exact each s.t.commands balanced

/-- The shutdown timer does not fire. -/
def System.Unfired (_ : System) : System.Input → Prop
  | .hardShutdown => False
  | _ => True

/-- **A step keeps the balance.** -/
theorem Balanced.step (balanced : Balanced own s) (holds : (Invariant.watchers cfg).Holds s)
    (input : System.Input) (allowed : System.Unfired s input) (taken : s.step cfg input = some next) :
    Balanced own next := by
  have callback : ∀ id, (s.heap[id]?.bind fun c =>
      (System.callback cfg (s.ctx c) input).map (s.put id)) = some next → Balanced own next := by
    intro id called
    obtain ⟨c, y, p, found, now, leads, rfl⟩ := System.callback_taken holds called
    have count : y.t.activeCnt - y.c.watching = s.t.activeCnt - c.watching := leads.balanced now
    have stopped : stops y.t.log = stops s.t.log := leads.frame.stops
    show y.t.activeCnt = tally ConnectionState.watching (s.heap.set id y.c) + own - stops y.t.log
    rw [tally_set found]
    unfold Balanced at balanced
    omega
  cases input with
  | write id | read id | shutdown id | timer id => exact callback id taken
  | async envs =>
    cases taken
    exact balanced.processCommands envs
  | command cmd =>
    cases taken
    exact balanced
  | hardShutdown => exact absurd allowed id

theorem addConnections_keepRunning (envs : Nat → Env) (count : Nat) (s : System) :
    (s.addConnections cfg envs count).t.keepRunning = s.t.keepRunning := by
  induction count generalizing s with
  | zero => rfl
  | succ count ih =>
    obtain ⟨_, frame⟩ := Invariant.addConnection_frame cfg (envs s.heap.length) s
    exact (ih (s.addConnection cfg (envs s.heap.length))).trans frame.keepRunning

/-- In normal mode the thread starts with a reference of its own. -/
theorem Balanced.start (normal : 0 ≤ cfg.keepRunning) (reporting : Bool) (envs : Nat → Env) :
    Balanced 1 (System.start cfg reporting envs) := by
  have none_yet : Balanced 0 (System.initial cfg reporting) := rfl
  have added : Balanced 0 ((System.initial cfg reporting).addConnections cfg envs cfg.numConnections) :=
    none_yet.addConnections envs _
  have keeps : ((System.initial cfg reporting).addConnections cfg envs
      cfg.numConnections).t.keepRunning = 1 := by
    rw [addConnections_keepRunning, System.initial, if_neg (by omega)]
  unfold System.start
  dsimp only
  rw [if_pos (by omega)]
  unfold Balanced at added ⊢
  dsimp only
  omega

/-- **Between callbacks the count is balanced.** -/
theorem Balanced.reachable (normal : 0 ≤ cfg.keepRunning)
    (reached : System.Reachable cfg System.Unfired s) : Balanced 1 s := by
  obtain ⟨reporting, envs, reached⟩ := reached
  induction reached with
  | start => exact .start normal reporting envs
  | step before allowed taken ih =>
    exact ih.step (System.watchers_hold ⟨reporting, envs, before.any⟩) _ allowed taken

end Steps

/-- A connection that has settled watches for something until it has finished. -/
theorem At.watching {p : Point} {x : Ctx} (now : At p x) (settled : p.settled = true) :
    x.c.watching = 0 ↔ x.c.finished = true := by
  cases p with
  | writing | reading | closing =>
    simp [ConnectionState.watching, now.active, now.noTimer, now.goesOn, refs]
  | thinking => simp [ConnectionState.watching, now.noIo, now.timer, now.goesOn, refs]
  | finished => simp [ConnectionState.watching, now.noIo, now.noTimer, now.stopped, refs]
  | born | attempting | sending | recycling | closed => cases settled

/-- **The loop ends when the work is done.** -/
theorem loop_ends (cfg : Config) (normal : 0 ≤ cfg.keepRunning) (s : System)
    (reached : System.Reachable cfg System.Unfired s) (once : s.t.log.count .stop ≤ 1) :
    s.t.activeCnt = tally ConnectionState.watching s.heap + (if Entry.stop ∈ s.t.log then 0 else 1) ∧
      0 ≤ s.t.activeCnt ∧
      (s.t.activeCnt = 0 ↔ Entry.stop ∈ s.t.log ∧ ∀ c ∈ s.heap, c.finished = true) := by
  have balanced : s.t.activeCnt = tally ConnectionState.watching s.heap + 1 - s.t.log.count .stop :=
    Balanced.reachable normal reached
  have positive : 0 ≤ tally ConnectionState.watching s.heap :=
    tally_nonneg ConnectionState.watching_nonneg
  have finished : tally ConnectionState.watching s.heap = 0 ↔ ∀ c ∈ s.heap, c.finished = true := by
    obtain ⟨reporting, envs, ran⟩ := reached
    have holds := System.watchers_hold ⟨reporting, envs, ran.any⟩
    rw [tally_eq_zero ConnectionState.watching_nonneg]
    refine forall₂_congr fun c member => ?_
    obtain ⟨id, found⟩ := List.getElem?_of_mem member
    obtain ⟨_, p, settled, now, _⟩ := holds.conns id c found
    exact now.watching settled
  by_cases stopped : Entry.stop ∈ s.t.log
  · have one : s.t.log.count .stop = 1 := by
      have some_stop := List.count_pos_iff.mpr stopped
      omega
    rw [one] at balanced
    rw [if_pos stopped, ← finished]
    refine ⟨by omega, by omega, fun zero => ⟨stopped, by omega⟩, fun both => by omega⟩
  · have no_stop : s.t.log.count .stop = 0 := List.count_eq_zero.mpr stopped
    rw [no_stop] at balanced
    rw [if_neg stopped]
    exact ⟨by omega, by omega, fun zero => by omega, fun both => absurd both.1 stopped⟩

/-- A `STOP` while a request is written, and the response after it. -/
def stopInFlight : List System.Input :=
  [.command (.stop 10), .async fun _ => {}, .write 0 [.ok (.ok 100)] {},
    .read 0 [.ok (.ok (ascii "HTTP/1.1 200 OK\r\nContent-Length: 0\r\n\r\n"))] {}]

theorem loop_ends_example : ∃ s, System.after System.oneConnection stopInFlight = some s ∧
    s.t.activeCnt = 0 ∧ Entry.stop ∈ s.t.log ∧ ∀ c ∈ s.heap, c.finished = true := by
  have run : (System.after System.oneConnection stopInFlight).map
      (fun s => (s.t.log.count .stop, s.t.activeCnt)) = some (1, 0) := by
    decide +kernel
  obtain ⟨s, ran, counts⟩ := Option.map_eq_some_iff.mp run
  obtain ⟨one, zero⟩ := Prod.mk.inj counts
  have sent : ∀ input ∈ stopInFlight, ∀ state, System.Unfired state input := by
    simp [stopInFlight, System.Unfired]
  have ended := loop_ends System.oneConnection (by decide) s (System.reachable_after _ sent ran) (by omega)
  exact ⟨s, ran, zero, ended.2.2.mp zero⟩

end Apib
