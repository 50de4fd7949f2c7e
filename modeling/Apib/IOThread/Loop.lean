/-
**The thread and its event loop.**

The rest of `apib_iothread.cc`: the commands a thread handles, the start of its loop, and one step of
the loop, the call of one callback of an active watcher. A `System` is a thread with every connection
it ever made, in order of creation: connections are removed from `connections_` but not freed.

A watcher may be called back whenever it is active, with any outcome of the socket calls in it; a call
that never returns is no step. Callbacks that are pending when `ev_break` is called still run, so
`broken` disables nothing.
-/

import Apib.IOThread.Callbacks
import Apib.Library.Transition
import Mathlib.Algebra.Group.Int.Defs

namespace Apib

/-- A thread and all its connections. -/
structure System where
  t : IOThread
  heap : List ConnectionState

namespace System

variable (cfg : Config)

/-! ### Commands -/

/-- A turn of the loop that makes a new connection: `new ConnectionState`, `push_back`,
`StartConnect`. -/
def addConnection (env : Env) (s : System) : System :=
  let id := s.heap.length
  let c := ConnectionState.new id s.t.connections.length (getNext cfg.urls cfg.some_url env.rand)
  let t := { s.t with connections := s.t.connections ++ [id] }
  let x := Ctx.startConnect cfg env ⟨t, c⟩
  ⟨x.t, s.heap ++ [x.c]⟩

/-- That loop, run `count` times; a connection's environment is found under its `id`. -/
def addConnections (envs : Nat → Env) : Nat → System → System
  | 0, s => s
  | count + 1, s => addConnections envs count (s.addConnection cfg (envs s.heap.length))

/-- A turn of the loop that removes the last connection: `stopRunning`, `pop_back`. -/
def removeConnection (s : System) : System :=
  match s.t.connections.getLast? with
  | none => s
  | some id =>
    { t := { s.t with
        connections := s.t.connections.dropLast
        log := s.t.log ++ [.conn id .stopRunning] }
      heap := s.heap.modify id fun c => { c with keepRunning := false } }

/-- That loop, run `count` times. -/
def removeConnections : Nat → System → System
  | 0, s => s
  | count + 1, s => removeConnections count s.removeConnection

/-- The method `setNumConnections`. -/
def setNumConnections (envs : Nat → Env) (newVal : Nat) (s : System) : System :=
  let s := { s with t.log := s.t.log ++ [Entry.setConnections newVal] }
  if newVal > s.t.connections.length then
    s.addConnections cfg envs (newVal - s.t.connections.length)
  else s.removeConnections (s.t.connections.length - newVal)

/-- An `int` passed as a `size_t`. -/
def toSize (n : Int) : Nat := (n % 2 ^ 64).toNat

/-- A turn of the loop of `processCommands`. -/
def processCommand (envs : Nat → Env) (s : System) : Command → System
  | .stop _ =>
    -- `ev_unref`, then a timer is started with an `ev_unref` of its own
    { s with t := { s.t with
        keepRunning := 0
        activeCnt := s.t.activeCnt - 1 + 1 - 1
        shutdownTimer := true
        stopped := true
        log := s.t.log ++ [.stop] } }
  | .setConnections count => s.setNumConnections cfg envs (toSize count)

/-- The callback `processCommands`. -/
def processCommands (envs : Nat → Env) (s : System) : System :=
  s.t.commands.foldl (processCommand cfg envs) { s with t.commands := [] }

/-! ### The loop -/

/-- The thread as `Start` leaves it, with its loop and `async_` set up and the counters of reporting
at 0. -/
def initial (reporting : Bool) : System where
  t := { keepRunning := if cfg.keepRunning < 0 then 0 else 1, reporting := { reporting } }
  heap := []

/-- The method `threadLoopBody` up to `ev_run`. -/
def start (reporting : Bool) (envs : Nat → Env) : System :=
  let s := (initial cfg reporting).addConnections cfg envs cfg.numConnections
  if s.t.keepRunning ≠ 0 then { s with t.activeCnt := s.t.activeCnt + 1 } else s

/-- What the loop can be woken by. -/
inductive Input
  | write (id : Nat) (outs : List WriteOutcome) (env : Env)
  | read (id : Nat) (outs : List ReadOutcome) (env : Env)
  | shutdown (id : Nat) (out : ReadOutcome) (env : Env)
  | timer (id : Nat) (env : Env)
  | async (envs : Nat → Env)
  | command (cmd : Command)
  | hardShutdown

/-- The context of a connection. -/
def ctx (s : System) (c : ConnectionState) : Ctx := ⟨s.t, c⟩

/-- The system after a callback of connection `id`. -/
def put (s : System) (id : Nat) (x : Ctx) : System := ⟨x.t, s.heap.set id x.c⟩

/-- A loop over socket calls that has returned and used all the outcomes given. -/
def returned {α : Type} : Ctx.Loop α → Option Ctx
  | .ended x [] => some x
  | _ => none

/-- One callback of a connection, if its watcher is active. -/
def callback (x : Ctx) : Input → Option Ctx
  | .write _ outs env =>
    if x.c.io.active && x.c.io.callback == .writeReady then returned (x.writeReady cfg env outs)
    else none
  | .read _ outs env =>
    if x.c.io.active && x.c.io.callback == .readReady then returned (x.readReady cfg env outs)
    else none
  | .shutdown _ out env =>
    if x.c.io.active && x.c.io.callback == .completeShutdown then
      some (x.completeShutdown cfg env out)
    else none
  | .timer _ env => if x.c.thinkTimer.active then some (x.thinkingDone cfg env) else none
  | _ => none

/-- One step: a callback, or a command sent by another thread. -/
def step (s : System) (input : Input) : Option System :=
  match input with
  | .write id .. | .read id .. | .shutdown id .. | .timer id .. =>
    s.heap[id]?.bind fun c => (callback cfg (s.ctx c) input).map (s.put id)
  | .async envs => some (s.processCommands cfg envs)
  | .command cmd => some { s with t.commands := s.t.commands ++ [cmd] }
  | .hardShutdown =>
    if s.t.shutdownTimer then
      some { s with t := { s.t with
        shutdownTimer := false, activeCnt := s.t.activeCnt - 1, broken := true } }
    else none

/-- The states of all runs of a thread whose steps meet `ok`. -/
abbrev Reachable (ok : System → Input → Prop) (s : System) : Prop :=
  ∃ reporting envs, Transition.Reach (step cfg) ok (start cfg reporting envs) s

/-! ### Small threads -/

/-- A URL on the local host. -/
def localUrl (path : String) (isSsl : Bool) : URLInfo where
  port := 8443
  isSsl := isSsl
  path := ascii path
  hostName := ascii "localhost"
  hostHeader := ascii "localhost:8443"
  addresses := [.inet 0 0x7f000001]

/-- A thread with one connection to one URL. -/
def oneConnection : Config where
  urls := [localUrl "/" false]
  some_url := List.cons_ne_nil _ _

/-- The state of a thread after some inputs, every callback with the environment it is given. -/
def after (cfg : Config) (inputs : List Input) : Option System :=
  Transition.run (step cfg) (start cfg true fun _ => {}) inputs

theorem reachable_after {cfg : Config} (ok : System → Input → Prop) {inputs : List Input} {s : System}
    (allowed : ∀ input ∈ inputs, ∀ state, ok state input) (ran : after cfg inputs = some s) :
    Reachable cfg ok s :=
  ⟨true, fun _ => {}, Transition.Reach.of_run allowed ran⟩

theorem reachable_any {cfg : Config} {inputs : List Input} {s : System}
    (ran : after cfg inputs = some s) : Reachable cfg Transition.anyStep s :=
  reachable_after _ (fun _ _ _ => trivial) ran

theorem exists_after {cfg : Config} {inputs : List Input} {id : Nat}
    (ran : ((after cfg inputs).bind fun s => s.heap[id]?).isSome = true) :
    ∃ s c, after cfg inputs = some s ∧ s.heap[id]? = some c := by
  obtain ⟨c, found⟩ := Option.isSome_iff_exists.mp ran
  obtain ⟨s, ran, found⟩ := Option.bind_eq_some_iff.mp found
  exact ⟨s, c, ran, found⟩

end System

end Apib
