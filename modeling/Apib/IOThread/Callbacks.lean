/-
**The callbacks of a connection.**

`apib_io_basic.cc` and the `ConnectionState` part of `apib_iothread.cc`, function by function, in the
order in which they call one another: no call is recursive. Every call of another of these functions
is the last thing a function does, so each is a map on the pair of connection and thread.

The loops of `writeReady` and `readReady` are given the outcomes of the successive socket calls. A
count or a string longer than what was asked for is cut to it. `tryWrite` and `tryRead` are
`singleWrite` and `singleRead` up to the call of `WriteDone` or `ReadDone`.
-/

import Apib.IOThread.State

namespace Apib

namespace Ctx

/-- Record a call of this connection. -/
def note (x : Ctx) (event : Event) : Ctx := { x with t.log := x.t.log ++ [.conn x.c.id event] }

/-! ### Watchers -/

/-- The call `ev_io_init`, which also clears the active flag. -/
def ioInit (x : Ctx) (callback : IoCallback) (events : Direction) : Ctx :=
  { x with c.io := { callback, events, active := false } }

/-- The call `ev_io_start`. -/
def ioStart (x : Ctx) : Ctx :=
  if x.c.io.active then x else { x with c.io.active := true, t.activeCnt := x.t.activeCnt + 1 }

/-- The call `ev_io_stop`. -/
def ioStop (x : Ctx) : Ctx :=
  if x.c.io.active then { x with c.io.active := false, t.activeCnt := x.t.activeCnt - 1 } else x

/-- Stop the watcher, set it to another direction and start it again. -/
def ioTurn (x : Ctx) (events : Direction) : Ctx :=
  let x := x.ioStop
  { x with c.io.events := events }.ioStart

/-- Remember which direction the socket asked for. -/
def ask (x : Ctx) (direction : Direction) : Ctx := { x with c.asked := direction }

/-- The method `sendAfterDelay`, the delay in milliseconds. -/
def sendAfterDelay (x : Ctx) (delay : Nat) : Ctx :=
  let x := { x with c.thinkTimer := { delay, active := false } }
  { x with c.thinkTimer.active := true, t.activeCnt := x.t.activeCnt + 1 }

/-! ### Counting -/

/-- The function `RecordSocketError`. -/
def recordSocketError (x : Ctx) : Ctx :=
  let x := x.note .socketError
  if x.t.reporting.reporting then
    { x with t.reporting.socketErrors := x.t.reporting.socketErrors + 1 }
  else x

/-- The function `RecordConnectionOpen`. -/
def recordConnectionOpen (x : Ctx) : Ctx :=
  let x := x.note .connectionOpen
  if x.t.reporting.reporting then
    { x with t.reporting.connectionsOpened := x.t.reporting.connectionsOpened + 1 }
  else x

/-- The method `IOThread::recordResult`. -/
def recordResult (x : Ctx) (statusCode : Nat) (latency : Int) : Ctx :=
  let x := x.note (.result statusCode latency)
  let counters := x.t.counters
  { x with t.counters :=
    if 200 ≤ statusCode && statusCode < 300 then
      { counters with
        successfulRequests := counters.successfulRequests + 1
        latencies := counters.latencies ++ [latency] }
    else
      { counters with
        failedRequests := counters.failedRequests + 1
        latencies := counters.latencies ++ [latency] } }

/-- The method `IOThread::recordRead`. -/
def recordRead (x : Ctx) (count : Nat) : Ctx :=
  { x with t.counters.bytesRead := x.t.counters.bytesRead + count }

/-- The method `IOThread::recordWrite`. -/
def recordWrite (x : Ctx) (count : Nat) : Ctx :=
  { x with t.counters.bytesWritten := x.t.counters.bytesWritten + count }

end Ctx

/-! ### Starting a request -/

/-- The pieces that `writeRequest` streams into its buffer. -/
def requestPieces (cfg : Config) (url : URLInfo) (authHdr : Bytes) : List Bytes :=
  [cfg.httpVerb, ascii " ", url.path, ascii " HTTP/1.1\r\n"] ++
  (if cfg.headersSet &&& IOThread.kUserAgentSet = 0 then [ascii "User-Agent: apib\r\n"] else []) ++
  (if cfg.headersSet &&& IOThread.kHostSet = 0 then
    [ascii "Host: ", url.hostHeader, ascii "\r\n"] else []) ++
  (if cfg.sendData ≠ [] then
    (if cfg.headersSet &&& IOThread.kContentTypeSet = 0 then
      [ascii "Content-Type: text/plain\r\n"] else []) ++
    (if cfg.headersSet &&& IOThread.kContentLengthSet = 0 then
      [ascii "Content-Length: ", ascii (toString cfg.sendData.length), ascii "\r\n"] else [])
  else []) ++
  (if cfg.oauth then [authHdr, ascii "\r\n"] else []) ++
  (if cfg.noKeepAlive ∧ cfg.headersSet &&& IOThread.kConnectionSet = 0 then
    [ascii "Connection: close\r\n"] else []) ++
  (match cfg.headers with
    | none => []
    | some headers => headers.flatMap fun header => [header, ascii "\r\n"]) ++
  [ascii "\r\n"] ++
  (if cfg.sendData ≠ [] then [cfg.sendData] else [])

namespace Ctx

variable (cfg : Config) (env : Env)

/-- The method `writeRequest`. -/
def writeRequest (x : Ctx) : Ctx :=
  let x :=
    if !x.c.writeDirty && !cfg.oauth then { x with c.fullWritePos := 0 }
    else
      let writeBuf := x.c.writeBuf.rewind.puts (requestPieces cfg x.c.url.info env.authHdr)
      { x with
        c.writeBuf := writeBuf
        c.fullWrite := writeBuf.data
        c.fullWritePos := 0
        c.writeDirty := false }
  x.note (.request x.c.url env.authHdr (x.c.fullWrite.drop x.c.fullWritePos))

/-- The method `SendWrite`. -/
def sendWrite (x : Ctx) : Ctx :=
  let x := x.note (.sendWrite x.c.url x.c.socket)
  { x.ioInit .writeReady .write with c.backwardsIo := false }.ioStart.ask .write

/-- The method `Connect`: the context afterwards, and the code returned. -/
def connect (x : Ctx) : Ctx × Int :=
  let addr := x.c.url.info.address cfg.index
  if !addr.valid then (x, -1)
  else
    match env.connect with
    | .error _ => (x, -1)
    | .ok () =>
      let socket : Socket :=
        { id := x.t.sockets
          peer := addr
          tls := x.c.url.info.isSsl
          hostName := if x.c.url.info.isSsl then x.c.url.info.hostName else [] }
      ({ x with t.sockets := x.t.sockets + 1, c.socket := some socket }.note
        (.connected socket x.c.readBuf.pos), 0)

/-- The method `ConnectAndSend`. -/
def connectAndSend (caller : Caller) (x : Ctx) : Ctx :=
  let x := x.note (.connectAndSend caller)
  let x := { x with c.startTime := env.startTime }
  if x.c.needsOpen then
    match x.connect cfg env with
    | (x, err) =>
      if err = 0 then (x.recordConnectionOpen.writeRequest cfg env).sendWrite
      else x.recordSocketError.sendAfterDelay kConnectFailureDelay
  else (x.writeRequest cfg env).sendWrite

/-- The callback `thinkingDone` of the one-shot timer, which libev stops before the call. -/
def thinkingDone (x : Ctx) : Ctx :=
  { x with c.thinkTimer.active := false, t.activeCnt := x.t.activeCnt - 1 }.connectAndSend
    cfg env .thinkingDone

/-- The method `StartConnect`. -/
def startConnect (x : Ctx) : Ctx :=
  let url := getNext cfg.urls cfg.some_url env.rand
  let x := { x with c.url := url }.note (.getNext url)
  { x with c.needsOpen := true }.connectAndSend cfg env .startConnect

/-! ### Ending a request -/

/-- The method `CloseDone`. -/
def closeDone (x : Ctx) : Ctx :=
  if !x.c.keepRunning || !x.t.shouldKeepRunning then { x.note .closeDone with c.finished := true }
  else if cfg.thinkTime > 0 then x.sendAfterDelay cfg.thinkTime
  else x.connectAndSend cfg env .closeDone

/-- Wait for the rest of a shutdown. -/
def awaitShutdown (x : Ctx) (events : Direction) (backwards : Bool) : Ctx :=
  { (x.ioInit .completeShutdown events) with c.backwardsIo := backwards }.ioStart.ask events

/-- The method `Close`. -/
def close (x : Ctx) : Ctx :=
  match env.close with
  | .error _ => { x.ioStop with c.socket := none }.closeDone cfg env
  | .ok (.ok _) | .ok .feof => { x with c.socket := none }.closeDone cfg env
  | .ok .needRead => x.awaitShutdown .read false
  | .ok .needWrite => x.awaitShutdown .write true

/-- The callback `completeShutdown`, from the outcome of its read. -/
def completeShutdown (out : ReadOutcome) (x : Ctx) : Ctx :=
  match out with
  | .error _ | .ok (.ok _) | .ok .feof => { x.ioStop with c.socket := none }.closeDone cfg env
  | .ok .needRead =>
    let x := x.ask .read
    if x.c.backwardsIo then { x with c.backwardsIo := false }.ioTurn .read else x
  | .ok .needWrite =>
    let x := x.ask .write
    if !x.c.backwardsIo then { x with c.backwardsIo := true }.ioTurn .write else x

/-- The method `recycle`. -/
def recycle (closeConn : Bool) (x : Ctx) : Ctx :=
  if closeConn || cfg.noKeepAlive || !x.t.shouldKeepRunning then
    { x with c.needsOpen := true }.close cfg env
  else
    let x := { x with c.needsOpen := false }
    if cfg.thinkTime > 0 then x.sendAfterDelay cfg.thinkTime
    else x.connectAndSend cfg env .recycle

/-- The method `SendRead`. -/
def sendRead (x : Ctx) : Ctx :=
  { x.ioInit .readReady .read with c.backwardsIo := false }.ioStart.ask .read

/-- The method `WriteDone`. -/
def writeDone (err : Int) (x : Ctx) : Ctx :=
  let x := x.note (.writeDone err)
  if err ≠ 0 then x.recordSocketError.recycle cfg env true
  else { x with c.readDone := false, c.parser := HttpParser.init }.sendRead

/-- The method `ReadDone`. -/
def readDone (err : Int) (x : Ctx) : Ctx :=
  let x := x.note (.readDone err)
  if err ≠ 0 then x.recordSocketError.recycle cfg env true
  else
    let x := x.recordResult x.c.parser.statusCode (env.endTime - x.c.startTime)
    if !x.c.parser.shouldKeepAlive then x.recycle cfg env true
    else
      let oldUrl := x.c.url
      let url := getNext cfg.urls cfg.some_url env.rand
      let x := { x with c.url := url }.note (.getNext url)
      if !isSameServer oldUrl.info url.info cfg.index then
        { x with c.writeDirty := true }.recycle cfg env true
      else
        let x := if url.place ≠ oldUrl.place then { x with c.writeDirty := true } else x
        x.recycle cfg env false

/-! ### Writing and reading -/

/-- How `singleWrite` and `singleRead` end: they return a code, or call `WriteDone` or `ReadDone`
with an error and then return a code. -/
inductive Exit
  | returns (x : Ctx) (code : Int)
  | done (x : Ctx) (err code : Int)

/-- The method `singleWrite`, without its call of `WriteDone`. -/
def tryWrite (x : Ctx) (out : WriteOutcome) : Exit :=
  match out with
  | .error _ => .done x.ioStop (-1) (-1)
  | .ok (.ok wrote) =>
    let chunk := (x.c.fullWrite.drop x.c.fullWritePos).take wrote
    let x := { x with c.fullWritePos := x.c.fullWritePos + chunk.length }
    let x := (x.recordWrite chunk.length).note (.wrote x.c.socket chunk)
    if x.c.fullWritePos = x.c.fullWrite.length then .done x.ioStop 0 0 else .returns x 1
  | .ok .feof => .returns x 1
  | .ok .needWrite =>
    let x := x.ask .write
    .returns (if x.c.backwardsIo then { x with c.backwardsIo := false }.ioTurn .write else x) 0
  | .ok .needRead =>
    let x := x.ask .read
    .returns (if !x.c.backwardsIo then { x with c.backwardsIo := true }.ioTurn .read else x) 0

/-- The method `singleWrite`. -/
def singleWrite (x : Ctx) (out : WriteOutcome) : Ctx × Int :=
  match x.tryWrite out with
  | .returns x code => (x, code)
  | .done x err code => (x.writeDone cfg env err, code)

/-- The parser of the connection with its completion flag. -/
def parse (x : Ctx) : Parse := ⟨x.c.parser, x.c.readDone⟩

/-- The buffer after a read: what was left from before, then as much of `data` as fits. -/
def fillBuf (x : Ctx) (data : Bytes) : List ReadByte :=
  x.c.readBuf.bytes ++
    (data.take (kReadBufSize - x.c.readBuf.pos)).map fun byte => ⟨byte, x.c.socket.map Socket.id⟩

theorem fillBuf_length_le (x : Ctx) (data : Bytes) : (x.fillBuf data).length ≤ kReadBufSize := by
  have room := x.c.readBuf.room
  simp only [fillBuf, ReadBuf.pos, List.length_append, List.length_map, List.length_take]
  omega

/-- The call of `http_parser_execute` on the buffer after a read. -/
def executed (x : Ctx) (data : Bytes) : ByteMachine.Fed Parse UInt8 :=
  x.parse.execute cfg.parserStrict ((x.fillBuf data).map ReadByte.byte)

/-- The unparsed end of the buffer, moved down to its start. -/
def keepUnparsed (x : Ctx) (data : Bytes)
    (clean : (x.executed cfg data).state.parser.errno = .ok) : ReadBuf where
  bytes := (x.fillBuf data).drop ((x.fillBuf data).length - (x.executed cfg data).rest.length)
  room := by
    have less : (x.executed cfg data).rest.length < kReadBufSize :=
      Parse.execute_rest_lt clean (by rw [List.length_map]; exact x.fillBuf_length_le data) (by decide)
    rw [List.length_drop]
    omega

/-- The method `singleRead`, without its call of `ReadDone`. -/
def tryRead (x : Ctx) (out : ReadOutcome) : Exit :=
  match out with
  | .error _ => .done x.ioStop (-3) (-1)
  | .ok (.ok data) =>
    let y := x.recordRead (min data.length (kReadBufSize - x.c.readBuf.pos))
    let fed := x.executed cfg data
    let y := { y with c.parser := fed.state.parser, c.readDone := fed.state.complete }
    let y := y.note (.execute x.c.socket ((x.fillBuf data).map ReadByte.source))
    if clean : fed.state.parser.errno = .ok then
      let y := { y with c.readBuf := x.keepUnparsed cfg data clean }
      if y.c.readDone then .done y.ioStop 0 0 else .returns y 1
    else .done y.ioStop (-1) (-1)
  | .ok .feof => .done x.ioStop (if x.c.readDone then 0 else -2) 0
  | .ok .needRead =>
    let x := x.ask .read
    .returns (if x.c.backwardsIo then { x with c.backwardsIo := false }.ioTurn .read else x) 0
  | .ok .needWrite =>
    let x := x.ask .write
    .returns (if !x.c.backwardsIo then { x with c.backwardsIo := true }.ioTurn .write else x) 0

/-- The method `singleRead`. -/
def singleRead (x : Ctx) (out : ReadOutcome) : Ctx × Int :=
  match x.tryRead cfg out with
  | .returns x code => (x, code)
  | .done x err code => (x.readDone cfg env err, code)

/-- What a loop over socket calls comes to: it has returned and left some outcomes unused, or it has
used them all and still goes on. -/
inductive Loop (α : Type)
  | ended (x : Ctx) (unused : List α)
  | going (x : Ctx)

/-- The `for` loop of `writeReady` and `readReady`: it goes on while the code is positive. -/
def keepOn {α : Type} (single : Ctx → α → Ctx × Int) : Ctx → List α → Loop α
  | x, [] => .going x
  | x, out :: outs =>
    match single x out with
    | (x, code) => if code > 0 then keepOn single x outs else .ended x outs

/-- The callback `writeReady`. -/
def writeReady (x : Ctx) (outs : List WriteOutcome) : Loop WriteOutcome :=
  keepOn (singleWrite cfg env) x outs

/-- The callback `readReady`. -/
def readReady (x : Ctx) (outs : List ReadOutcome) : Loop ReadOutcome :=
  keepOn (singleRead cfg env) x outs

end Ctx

end Apib
