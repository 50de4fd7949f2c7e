/-
**The control points of a connection and the moves between them.**

A connection between two callbacks writes, reads, waits for a shutdown, thinks, or is finished; inside
a callback it passes through further points, such as the entry of `recycle`. `Move` lists every way
from one point to the next, with what it does to the connection and its thread. The callbacks are
chains of moves (`Lifecycle/Paths.lean`), so what every move preserves, every run preserves
(`Lifecycle/Invariant.lean`).

A `Gate` restricts the moves where outside choices enter: the firing of a timer, the end of a read or
write phase, the start of a connection. With `Gate.free` nothing is restricted.
-/

import Apib.IOThread.Loop

namespace Apib

/-- Where a connection is. The last five points are those between callbacks. -/
inductive Point
  | born
  | attempting (caller : Caller)
  | sending
  | recycling (closeConn : Bool)
  | closed
  | writing
  | reading
  | closing
  | thinking
  | finished
  deriving DecidableEq, Repr

/-- Is this a point between callbacks? -/
def Point.settled : Point → Bool
  | .writing | .reading | .closing | .thinking | .finished => true
  | _ => false

/-- The direction in which a phase does its own I/O. -/
def Point.home : Point → Direction
  | .reading | .closing => .read
  | _ => .write

/-- What is allowed of the choices that come from outside. `start` is told whether the thread has
handled a stop. -/
structure Gate where
  fire : Ctx → Prop := fun _ => True
  writeDone : Env → Int → Ctx → Prop := fun _ _ _ => True
  readDone : Env → Int → Ctx → Prop := fun _ _ _ => True
  start : Bool → Prop := fun _ => True

/-- No restriction. -/
def Gate.free : Gate := {}

namespace Ctx

/-! ### The pieces between two points -/

/-- The start of `ConnectAndSend`. -/
def begun (env : Env) (caller : Caller) (x : Ctx) : Ctx :=
  { x.note (.connectAndSend caller) with c.startTime := env.startTime }

/-- The handling of `NEED_READ` and `NEED_WRITE`: turn the watcher around if it looks the other
way. -/
def turned (home asked : Direction) (x : Ctx) : Ctx :=
  let x := x.ask asked
  let backwards := decide (asked ≠ home)
  if x.c.backwardsIo ≠ backwards then { x with c.backwardsIo := backwards }.ioTurn asked else x

/-- The accounting of a write. -/
def accepted (wrote : Nat) (x : Ctx) : Ctx :=
  let chunk := (x.c.fullWrite.drop x.c.fullWritePos).take wrote
  let x := { x with c.fullWritePos := x.c.fullWritePos + chunk.length }
  (x.recordWrite chunk.length).note (.wrote x.c.socket chunk)

/-- A read and its parsing, without the handling of what is left in the buffer. -/
def parsed (cfg : Config) (data : Bytes) (x : Ctx) : Ctx :=
  let y := x.recordRead (min data.length (kReadBufSize - x.c.readBuf.pos))
  let fed := x.executed cfg data
  let y := { y with c.parser := fed.state.parser, c.readDone := fed.state.complete }
  y.note (.execute x.c.socket ((x.fillBuf data).map ReadByte.source))

/-- The start of `ReadDone` after a response: the result, and the next URL. -/
def answered (env : Env) (x : Ctx) : Ctx :=
  (x.note (.readDone 0)).recordResult x.c.parser.statusCode (env.endTime - x.c.startTime)

/-- The next URL drawn. -/
def drawn (cfg : Config) (env : Env) (x : Ctx) : Ctx :=
  let url := getNext cfg.urls cfg.some_url env.rand
  { x with c.url := url }.note (.getNext url)

/-- Will `ReadDone` close the socket? -/
def willClose (cfg : Config) (env : Env) (err : Int) (x : Ctx) : Bool :=
  decide (err ≠ 0) || !x.c.parser.shouldKeepAlive ||
    !isSameServer x.c.url.info (getNext cfg.urls cfg.some_url env.rand).info cfg.index ||
    cfg.noKeepAlive || !x.t.shouldKeepRunning

end Ctx

open Ctx

/-- **The moves of a connection.** -/
inductive Move (cfg : Config) (gate : Gate) : Point × Ctx → Point × Ctx → Prop
  /-- `StartConnect`. -/
  | start (x : Ctx) (env : Env) (allowed : gate.start x.t.stopped) :
      Move cfg gate (.born, x)
        (.attempting .startConnect, { x.drawn cfg env with c.needsOpen := true })
  /-- `thinkingDone`. -/
  | fire (x : Ctx) (allowed : gate.fire x) :
      Move cfg gate (.thinking, x) (.attempting .thinkingDone,
        { x with c.thinkTimer.active := false, t.activeCnt := x.t.activeCnt - 1 })
  /-- `ConnectAndSend` on a socket that is still open. -/
  | reuse (x : Ctx) (env : Env) (caller : Caller) (isOpen : x.c.needsOpen = false) :
      Move cfg gate (.attempting caller, x) (.sending, x.begun env caller)
  /-- `ConnectAndSend` after a successful `Connect`. -/
  | connect (x y : Ctx) (env : Env) (caller : Caller) (isClosed : x.c.needsOpen = true)
      (connected : (x.begun env caller).connect cfg env = (y, 0)) :
      Move cfg gate (.attempting caller, x) (.sending, y.recordConnectionOpen)
  /-- `ConnectAndSend` after a failed `Connect`. -/
  | refuse (x : Ctx) (env : Env) (caller : Caller) (isClosed : x.c.needsOpen = true) :
      Move cfg gate (.attempting caller, x)
        (.thinking, (x.begun env caller).recordSocketError.sendAfterDelay kConnectFailureDelay)
  /-- `writeRequest` and `SendWrite`. -/
  | send (x : Ctx) (env : Env) :
      Move cfg gate (.sending, x) (.writing, (x.writeRequest cfg env).sendWrite)
  /-- `singleWrite` accepting some bytes. -/
  | write (x : Ctx) (wrote : Nat) : Move cfg gate (.writing, x) (.writing, x.accepted wrote)
  /-- `WriteDone(0)`. -/
  | written (x : Ctx) (env : Env) (all : x.c.fullWritePos = x.c.fullWrite.length)
      (allowed : gate.writeDone env 0 x.ioStop) :
      Move cfg gate (.writing, x) (.reading, x.ioStop.writeDone cfg env 0)
  /-- `WriteDone(-1)`. -/
  | writeFailed (x : Ctx) (env : Env) (allowed : gate.writeDone env (-1) x.ioStop) :
      Move cfg gate (.writing, x)
        (.recycling true, (x.ioStop.note (.writeDone (-1))).recordSocketError)
  /-- `singleRead` parsing bytes, with a parse error. -/
  | misparse (x : Ctx) (data : Bytes) (bad : (x.executed cfg data).state.parser.errno ≠ .ok) :
      Move cfg gate (.reading, x) (.reading, x.parsed cfg data)
  /-- `singleRead` parsing bytes, without an error. -/
  | parse (x : Ctx) (data : Bytes) (clean : (x.executed cfg data).state.parser.errno = .ok) :
      Move cfg gate (.reading, x)
        (.reading, { x.parsed cfg data with c.readBuf := x.keepUnparsed cfg data clean })
  /-- `ReadDone` with an error. -/
  | readFailed (x : Ctx) (env : Env) (err : Int) (isError : err ≠ 0)
      (allowed : gate.readDone env err x.ioStop) :
      Move cfg gate (.reading, x) (.recycling true, (x.ioStop.note (.readDone err)).recordSocketError)
  /-- `ReadDone(0)` where the server wants no keep-alive. -/
  | leave (x : Ctx) (env : Env) (complete : x.c.readDone = true)
      (leaves : x.c.parser.shouldKeepAlive = false) (allowed : gate.readDone env 0 x.ioStop) :
      Move cfg gate (.reading, x) (.recycling true, x.ioStop.answered env)
  /-- `ReadDone(0)` where the next URL is on another server. -/
  | change (x : Ctx) (env : Env) (complete : x.c.readDone = true)
      (keeps : x.c.parser.shouldKeepAlive = true)
      (other : isSameServer x.c.url.info (getNext cfg.urls cfg.some_url env.rand).info cfg.index =
        false) (allowed : gate.readDone env 0 x.ioStop) :
      Move cfg gate (.reading, x) (.recycling true,
        { (x.ioStop.answered env).drawn cfg env with c.writeDirty := true })
  /-- `ReadDone(0)` where the next URL is on the same server. -/
  | stay (x : Ctx) (env : Env) (complete : x.c.readDone = true)
      (keeps : x.c.parser.shouldKeepAlive = true)
      (same : isSameServer x.c.url.info (getNext cfg.urls cfg.some_url env.rand).info cfg.index =
        true) (allowed : gate.readDone env 0 x.ioStop) :
      Move cfg gate (.reading, x) (.recycling false,
        { (x.ioStop.answered env).drawn cfg env with
          c.writeDirty := x.c.writeDirty ||
            decide ((getNext cfg.urls cfg.some_url env.rand).place ≠ x.c.url.place) })
  /-- `recycle` closing the socket at once. -/
  | shut (x : Ctx) (closeConn : Bool)
      (closes : (closeConn || cfg.noKeepAlive || !x.t.shouldKeepRunning) = true) :
      Move cfg gate (.recycling closeConn, x)
        (.closed, { x with c.needsOpen := true, c.socket := none })
  /-- `recycle` starting a shutdown. -/
  | await (x : Ctx) (closeConn : Bool) (asked : Direction)
      (closes : (closeConn || cfg.noKeepAlive || !x.t.shouldKeepRunning) = true) :
      Move cfg gate (.recycling closeConn, x) (.closing,
        { x with c.needsOpen := true }.awaitShutdown asked (decide (asked ≠ Direction.read)))
  /-- `recycle` keeping the socket, with a pause. -/
  | pause (x : Ctx) (closeConn : Bool)
      (keeps : (closeConn || cfg.noKeepAlive || !x.t.shouldKeepRunning) = false)
      (thinks : cfg.thinkTime > 0) :
      Move cfg gate (.recycling closeConn, x)
        (.thinking, { x with c.needsOpen := false }.sendAfterDelay cfg.thinkTime)
  /-- `recycle` keeping the socket, without a pause. -/
  | next (x : Ctx) (closeConn : Bool)
      (keeps : (closeConn || cfg.noKeepAlive || !x.t.shouldKeepRunning) = false)
      (hurries : cfg.thinkTime = 0) :
      Move cfg gate (.recycling closeConn, x)
        (.attempting .recycle, { x with c.needsOpen := false })
  /-- `completeShutdown` at its end. -/
  | shutdown (x : Ctx) :
      Move cfg gate (.closing, x) (.closed, { x.ioStop with c.socket := none })
  /-- `CloseDone` on a connection or thread that stops. -/
  | finish (x : Ctx) (stops : (!x.c.keepRunning || !x.t.shouldKeepRunning) = true) :
      Move cfg gate (.closed, x) (.finished, { x.note .closeDone with c.finished := true })
  /-- `CloseDone` with a pause. -/
  | rest (x : Ctx) (goesOn : (!x.c.keepRunning || !x.t.shouldKeepRunning) = false)
      (thinks : cfg.thinkTime > 0) :
      Move cfg gate (.closed, x) (.thinking, x.sendAfterDelay cfg.thinkTime)
  /-- `CloseDone` without a pause. -/
  | reopen (x : Ctx) (goesOn : (!x.c.keepRunning || !x.t.shouldKeepRunning) = false)
      (hurries : cfg.thinkTime = 0) :
      Move cfg gate (.closed, x) (.attempting .closeDone, x)
  /-- A socket call that would block. -/
  | turn (p : Point) (x : Ctx) (asked : Direction)
      (phase : p = .writing ∨ p = .reading ∨ p = .closing) :
      Move cfg gate (p, x) (p, x.turned p.home asked)

end Apib
