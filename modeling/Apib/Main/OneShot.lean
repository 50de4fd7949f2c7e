/-
**One-shot mode.**

With `-1` the thread starts with `keepRunning` 0, so `recycle` always closes and `CloseDone` always ends
a connection. Only one thread is made, but it gets the connections that the division over all threads
gives the first of them.

* `OnceAt.move`: a connection goes through one request at most;
* `allCalls_countP`: what all connections do is what each of them does, added up;
* `one_shot_sound`: **so no connection starts a second request**, and where every thread would get one
  connection, there is one request in all.
-/

import Mathlib.Algebra.BigOperators.Group.Finset.Piecewise
import Mathlib.Algebra.Order.BigOperators.Group.Finset
import Apib.Main.Threads
import Apib.Runs.Accounting

namespace Apib

/-! ### Requests of a connection -/

/-- Is this the start of a request? -/
def Event.isRequest : Event → Bool
  | .request .. => true
  | _ => false

/-- Is this the end of writing a request, with all of it written? -/
def Event.isWritten : Event → Bool
  | .writeDone err => err == 0
  | _ => false

/-- How far a connection that makes one request has come with it: not started, writing, reading,
over. -/
def Point.stage : Point → Nat
  | .born | .attempting _ | .thinking | .sending => 0
  | .writing => 1
  | .reading => 2
  | .recycling _ | .closed | .closing | .finished => 3

/-- A connection makes one request. -/
structure OnceAt (p : Point) (x : Ctx) : Prop where
  requests : x.history.countP Event.isRequest ≤ min 1 p.stage
  written : x.history.countP Event.isWritten ≤ min 1 (p.stage - 1)
  results : x.history.countP Event.isResult ≤ min 1 (p.stage - 2)

section Moves

variable {cfg : Config} {gate : Gate} {p q : Point} {x y : Ctx}

/-- Where the thread does not keep running, nothing leads back to a start. -/
theorem Move.stage_le (halts : x.t.shouldKeepRunning = false) (move : Move cfg gate (p, x) (q, y)) :
    p.stage ≤ q.stage := by
  cases move with
  | pause x closeConn keeps | next x closeConn keeps => simp [halts] at keeps
  | rest x goesOn | reopen x goesOn => simp [halts] at goesOn
  | turn p x asked phase => exact Nat.le_refl _
  | _ => simp [Point.stage]

/-- What happens on the way is what the stages differ by. -/
theorem Calls.once {needsOpen : Bool} {events : List Event} (calls : Calls needsOpen p q events)
    (later : p.stage ≤ q.stage) :
    min 1 p.stage + events.countP Event.isRequest ≤ min 1 q.stage ∧
      min 1 (p.stage - 1) + events.countP Event.isWritten ≤ min 1 (q.stage - 1) ∧
      min 1 (p.stage - 2) + events.countP Event.isResult ≤ min 1 (q.stage - 2) := by
  cases calls with
  | recycle | goOn | turn =>
    simp only [List.countP_nil]
    omega
  | _ => simp [List.countP_cons, Event.isRequest, Event.isWritten, Event.isResult, Point.stage]

theorem OnceAt.move (before : OnceAt p x) (halts : x.t.shouldKeepRunning = false)
    (move : Move cfg gate (p, x) (q, y)) : OnceAt q y := by
  obtain ⟨requests, written, results⟩ := before
  obtain ⟨events, calls, grown⟩ := move.history
  obtain ⟨more_requests, more_written, more_results⟩ := calls.once (move.stage_le halts)
  refine ⟨?_, ?_, ?_⟩
  · rw [grown, List.countP_append]
    omega
  · rw [grown, List.countP_append]
    omega
  · rw [grown, List.countP_append]
    omega

end Moves

/-- One request each, as an invariant of a thread that was started not to keep running. -/
def once (cfg : Config) : Invariant cfg Gate.free where
  thread := fun t => t.keepRunning = 0
  conn := OnceAt
  move := by
    intro p q x y move _ halts before
    refine ⟨move.frame.keepRunning.trans halts, before.move ?_ move⟩
    simp [IOThread.shouldKeepRunning, halts]
  elsewhere := by
    intro p t t' c settled before away
    obtain ⟨requests, written, results⟩ := before
    simp only [Ctx.history] at requests written results
    exact ⟨by simpa only [Ctx.history, away.history] using requests,
      by simpa only [Ctx.history, away.history] using written,
      by simpa only [Ctx.history, away.history] using results⟩
  born := by
    intro x _ silent _ _
    exact ⟨by simp [silent], by simp [silent], by simp [silent]⟩
  removed := by
    intro p x settled _ before _
    obtain ⟨requests, written, results⟩ := before
    exact ⟨by simpa [List.countP_append, List.countP_cons, Event.isRequest] using requests,
      by simpa [List.countP_append, List.countP_cons, Event.isWritten] using written,
      by simpa [List.countP_append, List.countP_cons, Event.isResult] using results⟩
  threadMove := by
    intro t t' move halts
    cases move with
    | stop => rfl
    | _ => exact halts

/-! ### All connections together -/

theorem history_cons (id other : Nat) (event : Event) (log : List Entry) (p : Event → Bool) :
    (history id (.conn other event :: log)).countP p =
      (if other = id then if p event then 1 else 0 else 0) + (history id log).countP p := by
  by_cases mine : other = id
  · subst mine
    rw [history_conn, List.countP_cons, if_pos rfl, Nat.add_comm]
  · have skipped : history id (.conn other event :: log) = history id log := by
      simp [history, mine]
    rw [skipped, if_neg mine, Nat.zero_add]

/-- **What all connections do** is what each of them does, added up. -/
theorem allCalls_countP {log : List Entry} {count : Nat}
    (logged : ∀ id event, Entry.conn id event ∈ log → id < count) (p : Event → Bool) :
    (allCalls log).countP p = ∑ id ∈ Finset.range count, (history id log).countP p := by
  induction log with
  | nil => simp
  | cons entry log ih =>
    have rest := ih fun id event member => logged id event (List.mem_cons_of_mem _ member)
    cases entry with
    | conn id event =>
      have below : id ∈ Finset.range count := Finset.mem_range.mpr (logged id event List.mem_cons_self)
      simp only [history_cons, Finset.sum_add_distrib, Finset.sum_ite_eq, below, if_true]
      rw [allCalls_conn, List.countP_cons, rest, Nat.add_comm]
    | stop => exact rest
    | setConnections => exact rest

/-- Where each connection does something once at most, it is done no more often than there are
connections. -/
theorem allCalls_le {log : List Entry} {count : Nat}
    (logged : ∀ id event, Entry.conn id event ∈ log → id < count) {p : Event → Bool}
    (each : ∀ id < count, (history id log).countP p ≤ 1) : (allCalls log).countP p ≤ count := by
  rw [allCalls_countP logged p]
  calc ∑ id ∈ Finset.range count, (history id log).countP p
      ≤ ∑ _id ∈ Finset.range count, 1 :=
        Finset.sum_le_sum fun id member => each id (Finset.mem_range.mp member)
    _ = count := by simp

/-! ### The connections of a thread that is sent no command -/

namespace System

/-- No other thread sends a command. -/
def Uncommanded (_ : System) : Input → Prop
  | .command _ => False
  | _ => True

variable {cfg : Config} {s next : System}

theorem addConnections_heap (envs : Nat → Env) (count : Nat) (s : System) :
    (s.addConnections cfg envs count).heap.length = s.heap.length + count ∧
      (s.addConnections cfg envs count).t.commands = s.t.commands := by
  induction count generalizing s with
  | zero => exact ⟨rfl, rfl⟩
  | succ count ih =>
    obtain ⟨_, frame⟩ := Invariant.addConnection_frame cfg (envs s.heap.length) s
    obtain ⟨length, commands⟩ := ih (s.addConnection cfg (envs s.heap.length))
    have one : (s.addConnection cfg (envs s.heap.length)).heap.length = s.heap.length + 1 := by
      simp [addConnection]
    refine ⟨?_, commands.trans frame.commands⟩
    rw [addConnections, length, one]
    omega

/-- The connections that the thread started with are all it has. -/
structure Original (cfg : Config) (s : System) : Prop where
  count : s.heap.length = cfg.numConnections
  commands : s.t.commands = []

theorem Original.start (reporting : Bool) (envs : Nat → Env) : Original cfg (start cfg reporting envs) := by
  obtain ⟨length, commands⟩ := @addConnections_heap cfg envs cfg.numConnections
    (initial cfg reporting)
  have begun : Original cfg ((initial cfg reporting).addConnections cfg envs cfg.numConnections) :=
    ⟨by rw [length]; exact Nat.zero_add _, commands⟩
  unfold System.start
  dsimp only
  split
  · exact ⟨begun.count, begun.commands⟩
  · exact begun

theorem Original.step (original : Original cfg s) (holds : (Invariant.watchers cfg).Holds s)
    (input : Input) (allowed : Uncommanded s input) (taken : s.step cfg input = some next) :
    Original cfg next := by
  have callback : ∀ id, (s.heap[id]?.bind fun c =>
      (System.callback cfg (s.ctx c) input).map (s.put id)) = some next → Original cfg next := by
    intro id called
    obtain ⟨c, y, p, found, now, leads, rfl⟩ := callback_taken holds called
    have frame := leads.frame
    exact ⟨by simpa [put] using original.count, frame.commands.trans original.commands⟩
  cases input with
  | write id | read id | shutdown id | timer id => exact callback id taken
  | async envs =>
    cases taken
    rw [processCommands, original.commands]
    exact ⟨original.count, rfl⟩
  | command cmd => exact absurd allowed id
  | hardShutdown =>
    simp only [System.step] at taken
    split at taken
    · cases taken
      exact ⟨original.count, original.commands⟩
    · cases taken

theorem Original.reachable (reached : Reachable cfg Uncommanded s) : Original cfg s := by
  obtain ⟨reporting, envs, reached⟩ := reached
  induction reached with
  | start => exact .start reporting envs
  | step before allowed taken ih =>
    exact ih.step (watchers_hold ⟨reporting, envs, before.any⟩) _ allowed taken

end System

namespace Main

/-! ### Runs with `-1` -/

/-- Where every thread would get one connection, the thread that is made gets one. -/
theorem numConn_one {o : Options} (some_conn : 1 ≤ o.numConnections)
    (enough : o.clampThreads = o.numConnections) : (o.numConn 0).toNat = 1 := by
  have clamped : o.clampThreads = (o.numConnections.toNat : Int) := by omega
  rw [Options.numConn_eq clamped (by omega), Nat.div_self (by omega), Nat.mod_self]
  rfl

section OneShot

variable {o : Options} {s : System}

theorem once_holds (just_once : o.justOnce = true)
    (reached : System.Reachable (o.initializeThread 0) Transition.anyStep s) :
    (once (o.initializeThread 0)).Holds s := by
  refine (once (o.initializeThread 0)).reachable_any (fun reporting => ?_) reached
  show (System.initial (o.initializeThread 0) reporting).t.keepRunning = 0
  simp [System.initial, Options.initializeThread, just_once]

/-- What each connection does once at most. -/
theorem Holds.each (holds : (once (o.initializeThread 0)).Holds s) {id : Nat} (below : id < s.heap.length) :
    (history id s.t.log).countP Event.isRequest ≤ 1 ∧
      (history id s.t.log).countP Event.isWritten ≤ 1 ∧
      (history id s.t.log).countP Event.isResult ≤ 1 := by
  obtain ⟨same, _, _, _, requests, written, results⟩ :=
    holds.conns id s.heap[id] (List.getElem?_eq_getElem below)
  simp only [Ctx.history, same] at requests written results
  omega

end OneShot

/-- **One-shot mode**: no connection starts a second request, and where every thread would get one
connection, one request at most is written and one result recorded. -/
theorem one_shot_sound (o : Options) (just_once : o.justOnce = true) (some_conn : 1 ≤ o.numConnections)
    (s : System) (reached : System.Reachable (o.initializeThread 0) System.Uncommanded s) :
    (∀ id < s.heap.length, (history id s.t.log).countP Event.isRequest ≤ 1) ∧
      (o.clampThreads = o.numConnections →
        (allCalls s.t.log).countP Event.isWritten ≤ 1 ∧
          (allCalls s.t.log).countP Event.isResult ≤ 1) := by
  have original := System.Original.reachable reached
  obtain ⟨reporting, envs, ran⟩ := reached
  have holds := once_holds just_once ⟨reporting, envs, ran.any⟩
  refine ⟨fun id below => (Holds.each holds below).1, fun enough => ?_⟩
  have one : s.heap.length = 1 := original.count.trans (numConn_one some_conn enough)
  have written := allCalls_le holds.logged fun id below => (Holds.each holds below).2.1
  have results := allCalls_le holds.logged fun id below => (Holds.each holds below).2.2
  rw [one] at written results
  exact ⟨written, results⟩

/-- The options `-1 -c` and `-K`. -/
def justOnce (numConnections numThreads : Int) : Options where
  numConnections := numConnections
  numThreads := numThreads
  justOnce := true
  urls := System.oneConnection.urls
  some_url := System.oneConnection.some_url

/-- A whole request and its response on a connection. -/
def exchange (id : Nat) : List System.Input :=
  [.write id [.ok (.ok 100)] {},
    .read id [.ok (.ok (ascii "HTTP/1.1 200 OK\r\nContent-Length: 0\r\n\r\n"))] {}]

theorem one_shot_example : ∃ s,
    System.after ((justOnce 1 4).initializeThread 0) (exchange 0) = some s ∧
      (allCalls s.t.log).countP Event.isWritten ≤ 1 ∧ (allCalls s.t.log).countP Event.isResult ≤ 1 := by
  obtain ⟨s, ran⟩ := Option.isSome_iff_exists.mp (show (System.after
    ((justOnce 1 4).initializeThread 0) (exchange 0)).isSome = true by decide +kernel)
  have sent : ∀ input ∈ exchange 0, ∀ state, System.Uncommanded state input := by
    simp [exchange, System.Uncommanded]
  exact ⟨s, ran, (one_shot_sound (justOnce 1 4) rfl (by decide) s
    (System.reachable_after _ sent ran)).2 (by decide)⟩

/-- **`-1 -c 2 -K 1` sends two requests**: the one thread gets both connections. -/
theorem two_shots : ¬ ∀ (o : Options) (s : System), o.justOnce = true → 1 ≤ o.numConnections →
    System.Reachable (o.initializeThread 0) System.Uncommanded s →
      (allCalls s.t.log).countP Event.isWritten ≤ 1 := by
  intro single
  have run : (System.after ((justOnce 2 1).initializeThread 0) (exchange 0 ++ exchange 1)).map
      (fun s => (allCalls s.t.log).countP Event.isWritten) = some 2 := by
    decide +kernel
  obtain ⟨s, ran, two⟩ := Option.map_eq_some_iff.mp run
  have sent : ∀ input ∈ exchange 0 ++ exchange 1, ∀ state, System.Uncommanded state input := by
    simp [exchange, System.Uncommanded]
  have one := single (justOnce 2 1) s rfl (by decide) (System.reachable_after _ sent ran)
  omega

end Main

end Apib
