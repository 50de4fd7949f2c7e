/-
**The state of an I/O thread and of its connections.**

The fields of `IOThread` and `ConnectionState` (`apib_iothread.h`), with the libev watchers they own.

* `Config` is what the creator of a thread sets and nothing changes afterwards, with the program's
  URL list; `IOThread` is what changes.
* `Env` is what one callback gets from outside the program: clock readings, the random draw, the
  OAuth line, and the results of `connect` and `close`. A callback uses each of them at most once.
* `ReadBuf` is the part of the read buffer before `readBufPos_`, which never fills the buffer. Each
  byte carries the socket it was read from.
* The log of a thread records the calls that the properties of a run are about. The log, `id`,
  `finished`, `asked` and `stopped` are read by no modelled function.
-/

import Apib.HttpParser.Reader
import Apib.Library.OutputBuffer
import Apib.Net.Socket

namespace Apib

/-! ### Settings and environment -/

namespace IOThread

/-- The constants for `headersSet`. -/
def kHostSet : Nat := 1 <<< 0

@[inherit_doc kHostSet] def kContentLengthSet : Nat := 1 <<< 1
@[inherit_doc kHostSet] def kContentTypeSet : Nat := 1 <<< 2
@[inherit_doc kHostSet] def kAuthorizationSet : Nat := 1 <<< 3
@[inherit_doc kHostSet] def kConnectionSet : Nat := 1 <<< 4
@[inherit_doc kHostSet] def kUserAgentSet : Nat := 1 <<< 5

end IOThread

/-- The settings of a thread. `oauth` is whether the pointer is set; `parserStrict` is how the
parser was compiled; `keepRunning` is the value before `Start`. -/
structure Config where
  index : Nat := 0
  numConnections : Nat := 1
  httpVerb : Bytes := ascii "GET"
  sendData : Bytes := []
  oauth : Bool := false
  headers : Option (List Bytes) := none
  headersSet : Nat := 0
  thinkTime : Nat := 0
  noKeepAlive : Bool := false
  keepRunning : Int := 0
  urls : List URLInfo
  some_url : urls ≠ []
  parserStrict : Bool := false

/-- What one callback is given by the rest of the world. -/
structure Env where
  startTime : Int := 0
  endTime : Int := 0
  rand : Nat := 0
  authHdr : Bytes := []
  connect : StatusOr Unit := .ok ()
  close : CloseOutcome := .ok (.ok ())

/-! ### Connections -/

/-- The direction of a watcher: `EV_READ` or `EV_WRITE`. -/
inductive Direction
  | read | write
  deriving DecidableEq, Repr

/-- The callbacks an `io_` watcher is initialised with. -/
inductive IoCallback
  | writeReady | readReady | completeShutdown
  deriving DecidableEq, Repr

/-- The watcher `io_`. -/
structure EvIo where
  callback : IoCallback := .writeReady
  events : Direction := .write
  active : Bool := false
  deriving DecidableEq, Repr

/-- The watcher `thinkTimer_`, with its delay in milliseconds. -/
structure EvTimer where
  delay : Nat := 0
  active : Bool := false
  deriving DecidableEq, Repr

/-- The size of the buffer to read from. -/
def kReadBufSize : Nat := 8192

/-- The delay after a failed connect, 0.25 seconds, in milliseconds. -/
def kConnectFailureDelay : Nat := 250

/-- A byte of the read buffer and the number of the socket it came from. -/
structure ReadByte where
  byte : UInt8
  source : Option Nat
  deriving DecidableEq, Repr

/-- The first `readBufPos_` bytes of `readBuf_`: there is always room to read more. -/
structure ReadBuf where
  bytes : List ReadByte
  room : bytes.length < kReadBufSize

/-- The buffer before anything is read. -/
def ReadBuf.empty : ReadBuf := ⟨[], by decide⟩

/-- The bytes without their sources. -/
def ReadBuf.data (buf : ReadBuf) : Bytes := buf.bytes.map ReadByte.byte

/-- The value `readBufPos_`. -/
def ReadBuf.pos (buf : ReadBuf) : Nat := buf.bytes.length

/-- A `ConnectionState`. `id` is its place among all the connections ever made by the thread. -/
structure ConnectionState where
  id : Nat
  index : Nat
  keepRunning : Bool := true
  socket : Option Socket := none
  backwardsIo : Bool := false
  io : EvIo := {}
  thinkTimer : EvTimer := {}
  url : URLRef
  writeDirty : Bool := true
  writeBuf : OutputBuffer UInt8 := .empty
  fullWrite : Bytes := []
  fullWritePos : Nat := 0
  readBuf : ReadBuf := .empty
  parser : HttpParser := {}
  readDone : Bool := false
  needsOpen : Bool := false
  startTime : Int := 0
  finished : Bool := false
  asked : Direction := .write

/-- The constructor. `url_` is null until `StartConnect`, which follows at once: it is given here the
URL that `StartConnect` draws. -/
def ConnectionState.new (id index : Nat) (url : URLRef) : ConnectionState :=
  { id, index, url }

/-! ### The thread -/

/-- Which function called `ConnectAndSend`. -/
inductive Caller
  | startConnect | thinkingDone | recycle | closeDone
  deriving DecidableEq, Repr

/-- The calls of a connection that are recorded. -/
inductive Event
  | connectAndSend (caller : Caller)
  | connected (socket : Socket) (readBufPos : Nat)
  | connectionOpen
  | socketError
  | request (url : URLRef) (authHdr bytes : Bytes)
  | sendWrite (url : URLRef) (socket : Option Socket)
  | wrote (socket : Option Socket) (bytes : Bytes)
  | writeDone (err : Int)
  | execute (socket : Option Socket) (sources : List (Option Nat))
  | readDone (err : Int)
  | result (statusCode : Nat) (latency : Int)
  | getNext (url : URLRef)
  | closeDone
  | stopRunning
  deriving DecidableEq, Repr

/-- A line of the log: a call of a connection, or a command handled by the thread. -/
inductive Entry
  | conn (id : Nat) (event : Event)
  | stop
  | setConnections (count : Nat)
  deriving DecidableEq, Repr

/-- A `Command`. -/
inductive Command
  | stop (timeoutSecs : Int)
  | setConnections (count : Int)
  deriving DecidableEq, Repr

/-- The performance `Counters` of a thread. -/
structure Counters where
  successfulRequests : Nat := 0
  failedRequests : Nat := 0
  bytesRead : Nat := 0
  bytesWritten : Nat := 0
  latencies : List Int := []
  deriving DecidableEq, Repr

/-- The variables of `apib_reporting.cc` that a thread writes. -/
structure Reporting where
  reporting : Bool := true
  socketErrors : Nat := 0
  connectionsOpened : Nat := 0
  deriving DecidableEq, Repr

/-- An `IOThread` while it runs. `activeCnt` is libev's count of references to the loop, `sockets`
the number of sockets opened so far; `broken` is set by `ev_break`. -/
structure IOThread where
  keepRunning : Int := 1
  connections : List Nat := []
  commands : List Command := []
  counters : Counters := {}
  reporting : Reporting := {}
  activeCnt : Int := 0
  shutdownTimer : Bool := false
  broken : Bool := false
  sockets : Nat := 0
  stopped : Bool := false
  log : List Entry := []
  deriving DecidableEq, Repr

/-- The method `shouldKeepRunning`. -/
def IOThread.shouldKeepRunning (t : IOThread) : Bool := t.keepRunning != 0

/-- A connection and the thread `t_` it belongs to, as one callback sees them. -/
structure Ctx where
  t : IOThread
  c : ConnectionState

end Apib
