/-
**The monitoring protocol.**

The client of `apib_reporting.cc` and the server of `apib_mon.cc` on one connected socket. The client
writes a command and then reads once; the server takes its input apart by lines and answers each line.
The channel keeps the order of the bytes of each direction and cuts them into reads in any way. There
are no transport errors: each write passes all its bytes on, and each read gives at least one.

The values that the server computes are arbitrary, one for each `CPU` or `MEM` command, and so is what
the memory holds behind the bytes that the client has read: `getRemoteStat` gives `strtod` a buffer
that it has not terminated.
-/

import Apib.Lines.Splitting
import Apib.Monitor.Number
import Apib.Library.Transition

namespace Apib.Monitor

open Lines Numerals

/-- The function `eqcase`. -/
def eqcase (s1 s2 : Bytes) : Bool := s1.length == s2.length && s1.map tolower == s2.map tolower

/-- The commands that `getRemoteStat` is called with. -/
inductive Stat
  | cpu
  | mem
  deriving DecidableEq, Repr

/-- `kCPUCmd` and `kMemCmd`. -/
def Stat.text : Stat → Bytes
  | .cpu => ascii "cpu\n"
  | .mem => ascii "mem\n"

/-! ### The server -/

/-- What a command comes to: the reply, whether the connection is to be closed, and which value was
computed for it. -/
structure Processed where
  reply : Bytes
  closeRequested : Bool := false
  computed : Option Stat := none
  deriving DecidableEq, Repr

/-- The method `MonServerConnection::processCommand`, with the value that `cpu_GetInterval` or
`cpu_GetMemoryUsage` would give. -/
def processCommand (cmd : Bytes) (usage : Usage) : Processed :=
  if eqcase cmd (ascii "HELLO") then { reply := ascii "Hi!\n" }
  else if eqcase cmd (ascii "CPU") then { reply := usage.text, computed := some .cpu }
  else if eqcase cmd (ascii "MEM") then { reply := usage.text, computed := some .mem }
  else if eqcase cmd (ascii "BYE") || eqcase cmd (ascii "QUIT") then
    { reply := ascii "BYE\n", closeRequested := true }
  else { reply := ascii "Invalid command\n" }

/-- Where `socketLoop` is: before `readFd`, in the loop over `next`, or after the socket is closed. -/
inductive ServerPhase
  | reading
  | taking
  | closed
  deriving DecidableEq, Repr

/-- A `MonServerConnection` in its `socketLoop`, with the values it has computed so far. -/
structure Server where
  line : LineState
  phase : ServerPhase := .reading
  computed : List (Stat × Usage) := []
  deriving DecidableEq, Repr

namespace Server

/-- The server reads some bytes. -/
def recv (server : Server) (bytes : Bytes) : Server :=
  { server with line := (server.line.readFd (.bytes bytes)).2, phase := .taking }

/-- One turn of the loop over `next`: a line is processed, or `consume` decides whether there is room
for another read. The reply comes with the server. -/
def take (server : Server) (usage : Usage) : Server × Bytes :=
  match server.line.next with
  | (true, line) =>
    let done := processCommand line.line usage
    ({ line
       phase := if done.closeRequested then .closed else .taking
       computed := server.computed ++ (done.computed.map (·, usage)).toList }, done.reply)
  | (false, line) =>
    let (room, line) := line.consume
    ({ server with line, phase := if room then .reading else .closed }, [])

end Server

/-- `READ_BUF_LEN`. -/
def readBufLen : Nat := 128

/-! ### The connection -/

/-- A client and a server, and the bytes on the way. `awaiting` is whether the client has written a
command and not yet read; `asked` are its commands and `returned` the results of its calls. -/
structure Link where
  server : Server
  toServer : Bytes := []
  toClient : Bytes := []
  awaiting : Bool := false
  asked : List Stat := []
  returned : List Double := []
  deriving DecidableEq, Repr

namespace Link

/-- What can happen next: `getRemoteStat` is called and writes its command, the server reads a number
of bytes, the server goes on with its loop, or the client's read gives a number of bytes, with what the
memory holds behind them. -/
inductive Input
  | call (stat : Stat)
  | recv (count : Nat)
  | take (usage : Usage)
  | result (count : Nat) (memory : Bytes)
  deriving DecidableEq, Repr

/-- A connection, with what `malloc` gives the server's buffer. -/
def init (memory : Bytes) : Link := { server := { line := LineState.new memory } }

/-- One step. -/
def step (link : Link) : Input → Option Link
  | .call stat =>
    if link.awaiting = false ∧ link.server.phase ≠ .closed then
      some { link with
        toServer := link.toServer ++ stat.text, awaiting := true, asked := link.asked ++ [stat] }
    else none
  | .recv count =>
    if link.server.phase = .reading ∧ count ≤ link.toServer.length ∧
        Fits link.server.line (link.toServer.take count) then
      some { link with
        server := link.server.recv (link.toServer.take count)
        toServer := link.toServer.drop count }
    else none
  | .take usage =>
    if link.server.phase = .taking then
      let (server, reply) := link.server.take usage
      some { link with server, toClient := link.toClient ++ reply }
    else none
  | .result count memory =>
    if link.awaiting ∧ 0 < count ∧ count ≤ link.toClient.length ∧ count ≤ 64 then
      some { link with
        toClient := link.toClient.drop count
        awaiting := false
        returned := link.returned ++ [strtod (link.toClient.take count ++ memory)] }
    else none

end Link

end Apib.Monitor
