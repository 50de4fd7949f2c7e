/-
**The monitor sockets.**

`apib_reporting.cc`: `remoteCpuSocket` and `remote2CpuSocket`, from `RecordInit` to `EndReporting`, with
every outcome of the system calls. Between two operations other parts of the program open and close
descriptors of their own. What is reported, and the numbers read, are left out; so is the form of a
monitor's name, which decides only whether it is looked up.

`asserts` is whether `assert` is compiled in; where it is, a failed `socket` ends the program.
-/

import Apib.Library.Descriptors
import Apib.Library.Transition
import Apib.HttpParser.State

namespace Apib.Monitor

open Descriptors

/-- `remoteCpuSocket` with `remoteMonitorHost`, and `remote2CpuSocket` with `remote2MonitorHost`. -/
inductive Slot
  | remote
  | remote2
  deriving DecidableEq, Repr

/-- Who holds a descriptor: a monitor, with whether its connection has been made, or another part of
the program. -/
inductive Party
  | monitor (slot : Slot) (connected : Bool)
  | other
  deriving DecidableEq, Repr

/-- What becomes of a call of `connectMonitor`: the name has no port, it is not found, `socket` fails, or
it gives a number and `connect` succeeds or not. -/
inductive Attempt
  | invalid
  | lookupFailed
  | socketFailed
  | opened (fd : Int) (connected : Bool)
  deriving DecidableEq, Repr

/-- What becomes of a call of `getRemoteStat`. -/
inductive Exchange
  | writeFailed
  | readFailed
  | done
  deriving DecidableEq, Repr

/-- The sockets, the hosts and the kernel. -/
structure Monitors where
  kernel : Kernel Party
  fd : Slot → Int := fun _ => 0
  host : Slot → Bytes := fun _ => []

namespace Monitors

variable (asserts : Bool) (s : Monitors) (slot : Slot)

/-- The variable of a slot is set. -/
def setFd (fd : Int) : Monitors := { s with fd := Function.update s.fd slot fd }

/-- The function `connectMonitor`. The kernel gives a number that nobody holds. -/
def connectMonitor : Attempt → Option Monitors
  | .invalid | .lookupFailed => some s
  | .socketFailed =>
    -- `connect` and `close` then fail on -1
    if asserts then none else some (s.setFd slot (-1))
  | .opened fd connected =>
    if s.kernel.holder fd = none ∧ 0 ≤ fd ∧ (asserts → fd ≠ 0) then
      let opened := s.kernel.acquire (.monitor slot connected) fd
      let kernel := if connected then opened else opened.close (.monitor slot connected) fd
      some { s.setFd slot fd with kernel }
    else none

/-- The end of `getRemoteStat` on a failure. -/
def failure : Monitors :=
  { s.setFd slot 0 with kernel := s.kernel.close (.monitor slot true) (s.fd slot) }

/-- A `write` or `read` of `getRemoteStat`. -/
def useFd : Monitors := { s with kernel := s.kernel.use (.monitor slot true) (s.fd slot) }

/-- The function `getRemoteStat`. -/
def getRemoteStat : Exchange → Monitors
  | .writeFailed => (s.useFd slot).failure slot
  | .readFailed => ((s.useFd slot).useFd slot).failure slot
  | .done => (s.useFd slot).useFd slot

/-- What `RecordStart` does about a slot. -/
def startSlot (attempt : Attempt) (exchange : Exchange) : Option Monitors :=
  if s.host slot = [] then some s
  else if s.fd slot = 0 then s.connectMonitor asserts slot attempt
  else some (s.getRemoteStat slot exchange)

/-- What `SampleCPU`, `ReportInterval` and `RecordStop` do about a slot. -/
def statSlot (exchange : Exchange) : Monitors :=
  if s.fd slot ≠ 0 then s.getRemoteStat slot exchange else s

/-- What `EndReporting` does about a slot. -/
def endSlot : Monitors :=
  if s.fd slot ≠ 0 then { s with kernel := s.kernel.close (.monitor slot true) (s.fd slot) } else s

/-- A sample of both slots: `SampleCPU`, and the same lines in `ReportInterval`. -/
def sample (exchanges : Slot → Exchange) : Monitors :=
  (s.statSlot .remote (exchanges .remote)).statSlot .remote2 (exchanges .remote2)

/-- What can happen next: an operation with what becomes of its calls, or another part of the program
opens or closes a descriptor. -/
inductive Input
  | recordInit (monitorHost host2 : Bytes)
  | recordStart (attempts : Slot → Attempt) (exchanges : Slot → Exchange)
  | sampleCPU (exchanges : Slot → Exchange)
  | reportInterval (exchanges : Slot → Exchange)
  | recordStop (cpu mem : Slot → Exchange)
  | endReporting
  | otherOpens (fd : Int)
  | otherCloses (fd : Int)

/-- One operation. -/
def step (s : Monitors) : Input → Option Monitors
  | .recordInit monitorHost host2 =>
    some { s with host := fun slot => match slot with
      | .remote => monitorHost
      | .remote2 => host2 }
  | .recordStart attempts exchanges =>
    (s.startSlot asserts .remote (attempts .remote) (exchanges .remote)).bind fun s =>
      s.startSlot asserts .remote2 (attempts .remote2) (exchanges .remote2)
  | .sampleCPU exchanges => some (s.sample exchanges)
  | .reportInterval exchanges => some (s.sample exchanges)
  | .recordStop cpu mem => some ((s.sample cpu).sample mem)
  | .endReporting => some ((s.endSlot .remote).endSlot .remote2)
  | .otherOpens fd =>
    if s.kernel.holder fd = none ∧ 0 ≤ fd then
      some { s with kernel := s.kernel.acquire .other fd }
    else none
  | .otherCloses fd =>
    if s.kernel.holder fd = some .other then some { s with kernel := s.kernel.close .other fd }
    else none

end Monitors

end Apib.Monitor
