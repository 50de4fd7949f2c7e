/-
**The lives of `Socket` objects.**

`socket.cc` and `tlssocket.cc` as far as `fd_` goes: the constructors and destructors, `connect`,
`connectTLS`, `read`, `write` and `close`, in the order in which `ConnectionState` calls them. A socket
is connected once; when that fails it is destroyed; a socket that is closed is destroyed, after the
reads of a TLS shutdown if it asks for them; any socket may be destroyed at any time. Many sockets live
at once, and other parts of the program open and close descriptors in between.
-/

import Apib.Library.Descriptors
import Apib.Library.Transition
import Apib.Net.Socket

namespace Apib.Net

open Descriptors

/-- Who holds a descriptor: a socket object, or another part of the program. -/
inductive Party
  | socket (id : Nat)
  | other
  deriving DecidableEq, Repr

/-- The calls of `Socket::connect` that go to `fail` when they do not succeed; `connect` succeeds also
with `EINPROGRESS`. -/
inductive ConnectCall
  | noDelay
  | reuseAddr
  | linger
  | nonBlock
  | connect
  deriving DecidableEq, Repr

/-- What becomes of `Socket::connect`: `socket` fails, or gives a number, and then one of the calls
fails or none does. -/
inductive ConnectCalls
  | socketFailed
  | socket (fd : Int) (failed : Option ConnectCall)
  deriving DecidableEq, Repr

/-- How far a socket object is. -/
inductive LifePhase
  | absent
  | constructed
  | refused
  | connected
  | shutting
  | finished
  | destroyed
  deriving DecidableEq, Repr

/-- A `Socket` or a `TLSSocket`. -/
structure Object where
  tls : Bool := false
  fd : Int := 0
  phase : LifePhase := .absent
  deriving DecidableEq, Repr

/-- All socket objects, and the kernel. -/
structure Sockets where
  kernel : Kernel Party
  object : Nat → Object := fun _ => {}

namespace Sockets

variable (s : Sockets) (id : Nat)

/-- An object is changed. -/
def setObject (object : Object) : Sockets := { s with object := Function.update s.object id object }

/-- The method `Socket::connect`: whether it succeeds. The kernel gives a number that nobody holds. -/
def connect : ConnectCalls → Option (Bool × Sockets)
  | .socketFailed => some (false, s.setObject id { s.object id with fd := -1 })
  | .socket fd failed =>
    if s.kernel.holder fd = none ∧ 0 ≤ fd then
      let opened := s.kernel.acquire (.socket id) fd
      let s := s.setObject id { s.object id with fd }
      if fd ≤ 0 then some (false, { s with kernel := opened })
      else
        match failed with
        | some _ => some (false, { s with kernel := opened.close (.socket id) fd })
        | none => some (true, { s with kernel := opened })
    else none

/-- The method `TLSSocket::connectTLS`, with the success of the SSL calls after the connection. -/
def connectTLS (calls : ConnectCalls) (sslCalls : Bool) : Option (Bool × Sockets) :=
  (s.connect id calls).map fun (connected, s) => (connected && sslCalls, s)

/-- A read or write on the descriptor of an object, by the kernel or by OpenSSL. -/
def transfer : Sockets := { s with kernel := s.kernel.use (.socket id) (s.object id).fd }

/-- The method `Socket::close`, whatever `::close` answers. -/
def close : Sockets :=
  { s.setObject id { s.object id with fd := 0 } with
    kernel := s.kernel.close (.socket id) (s.object id).fd }

/-- The method `TLSSocket::close`, with what it gives. -/
def closeTLS (shutdown : SslShutdown) : CloseOutcome × Sockets :=
  let s := s.transfer id
  (tlsClose shutdown, if shutdown = .done then s.close id else s)

/-- The destructors. -/
def destroy : Sockets :=
  if (s.object id).fd ≠ 0 then
    { s with kernel := s.kernel.close (.socket id) (s.object id).fd }
  else s

/-- An object goes on to a phase. -/
def enter (phase : LifePhase) : Sockets := s.setObject id { s.object id with phase }

/-- Where `ConnectionState` goes with a socket when a close has been answered. -/
def afterClose : CloseOutcome → LifePhase
  | .ok .needRead | .ok .needWrite => .shutting
  | .ok (.ok _) | .ok .feof | .error _ => .finished

/-- Where it goes when a read of `completeShutdown` has been answered. -/
def afterShutdown : ReadOutcome → LifePhase
  | .ok .needRead | .ok .needWrite => .shutting
  | .ok (.ok _) | .ok .feof | .error _ => .finished

/-- What can happen next. -/
inductive Input
  | construct (id : Nat) (tls : Bool)
  | connect (id : Nat) (calls : ConnectCalls) (sslCalls : Bool)
  | read (id : Nat)
  | write (id : Nat)
  | close (id : Nat) (shutdown : SslShutdown)
  | completeShutdown (id : Nat) (read : SslRead)
  | destroy (id : Nat)
  | otherOpens (fd : Int)
  | otherCloses (fd : Int)

/-- One step. -/
def step (s : Sockets) : Input → Option Sockets
  | .construct id tls =>
    if (s.object id).phase = .absent then
      some (s.setObject id { tls, fd := 0, phase := .constructed })
    else none
  | .connect id calls sslCalls =>
    if (s.object id).phase = .constructed then
      let done := if (s.object id).tls then s.connectTLS id calls sslCalls else s.connect id calls
      done.map fun (connected, s) => s.enter id (if connected then .connected else .refused)
    else none
  | .read id | .write id =>
    if (s.object id).phase = .connected then some (s.transfer id) else none
  | .close id shutdown =>
    if (s.object id).phase = .connected then
      if (s.object id).tls then
        let (outcome, s) := s.closeTLS id shutdown
        some (s.enter id (afterClose outcome))
      else some ((s.close id).enter id .finished)
    else none
  | .completeShutdown id read =>
    if (s.object id).phase = .shutting then
      some ((s.transfer id).enter id (afterShutdown (tlsRead read)))
    else none
  | .destroy id =>
    if (s.object id).phase ≠ .absent ∧ (s.object id).phase ≠ .destroyed then
      some ((s.destroy id).enter id .destroyed)
    else none
  | .otherOpens fd =>
    if s.kernel.holder fd = none ∧ 0 ≤ fd then
      some { s with kernel := s.kernel.acquire .other fd }
    else none
  | .otherCloses fd =>
    if s.kernel.holder fd = some .other then some { s with kernel := s.kernel.close .other fd }
    else none

end Sockets

end Apib.Net
