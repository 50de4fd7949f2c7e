/-
**The threads that `main` starts.**

`apib_main.cc`, from the options to the settings of each thread. Settings that no thread's run depends
on are left out: durations, monitors, output and TLS.

* `numConn_eq`, `clampThreads_le`: with at least one connection, the connections are divided over at
  most as many threads.
-/

import Apib.IOThread.Loop

namespace Apib.Main

/-- The constant `KeepAliveAlways`. -/
def keepAliveAlways : Int := -1

/-- The options that `main` reads, with the contents of the file that `-f` names and the number of
CPUs. -/
structure Options where
  numConnections : Int := 1
  numThreads : Int := -1
  justOnce : Bool := false
  keepAlive : Int := keepAliveAlways
  verb : Bytes := []
  file : Option Bytes := none
  headers : List Bytes := []
  setHeaders : Nat := 0
  thinkTime : Nat := 0
  oauth : Bool := false
  cpuCount : Int := 1
  urls : List URLInfo
  some_url : urls ≠ []

namespace Options

variable (o : Options)

/-- The number of threads after `main` has clamped it. -/
def clampThreads : Int :=
  let numThreads := if o.numThreads < 1 then o.cpuCount else o.numThreads
  if numThreads > o.numConnections then o.numConnections else numThreads

/-- The connections of a thread, `numConn` in `initializeThread`. -/
def numConn (ix : Nat) : Int :=
  let numConn := o.numConnections.tdiv o.clampThreads
  if (ix : Int) < o.numConnections.tmod o.clampThreads then numConn + 1 else numConn

/-- The function `initializeThread`. -/
def initializeThread (ix : Nat) : Config where
  index := ix
  numConnections := (o.numConn ix).toNat
  httpVerb :=
    if o.verb = [] then
      if o.file.isNone then ascii "GET" else ascii "POST"
    else o.verb
  sendData := o.file.getD []
  oauth := o.oauth
  headers := some o.headers
  headersSet := o.setHeaders
  thinkTime := o.thinkTime
  noKeepAlive := o.keepAlive != keepAliveAlways
  keepRunning := if o.justOnce then -1 else 1
  urls := o.urls
  some_url := o.some_url

/-- The threads that are made, by their index. -/
def threadIndices : List Nat := if o.justOnce then [0] else List.range o.clampThreads.toNat

/-! ### The division of the connections -/

variable {o}

theorem clampThreads_le : o.clampThreads ≤ o.numConnections := by
  unfold clampThreads
  dsimp only
  split <;> omega

/-- There is a thread if there is a connection. -/
theorem clampThreads_pos (some_conn : 0 < o.numConnections) (some_cpu : 0 < o.cpuCount) :
    0 < o.clampThreads := by
  unfold clampThreads
  dsimp only
  split <;> split <;> omega

/-- With some threads, the connections are divided as natural numbers. -/
theorem numConn_eq {threads : Nat} (clamped : o.clampThreads = threads) (positive : 0 < threads) (ix : Nat) :
    (o.numConn ix).toNat = o.numConnections.toNat / threads +
      if ix < o.numConnections.toNat % threads then 1 else 0 := by
  have fewer : o.clampThreads ≤ o.numConnections := clampThreads_le
  obtain ⟨connections, equal⟩ := Int.eq_ofNat_of_zero_le (show 0 ≤ o.numConnections by omega)
  have quotient : (connections : Int).tdiv threads = (connections / threads : Nat) := rfl
  have remainder : (connections : Int).tmod threads = (connections % threads : Nat) := rfl
  simp only [numConn, clamped, equal, quotient, remainder, Int.toNat_natCast, Int.ofNat_lt]
  generalize connections / threads = share
  split <;> omega

end Options

end Apib.Main
