/-
**`http_parser_execute` on a response, byte by byte.**

One function for each state (or group of states with one body) of the big `switch`; a `goto reexecute`
is a call of the next state's function with the same byte. The source scans header names, header
values and bodies with inner loops over the rest of the buffer; those loops do to each byte what the
functions below do, and count the same number of header bytes by the end of the buffer.

`Parse` is the parser together with the flag its only callback sets: `on_message_complete` is
`ConnectionState::httpComplete`, which writes 1 into `readDone_` of the connection at `parser->data`.

`execute` is the whole call, the zero-length case included.
-/

import Apib.HttpParser.State
import Apib.Library.ByteMachine

namespace Apib

open ByteMachine

/-- The parser and the flag written by its `on_message_complete` callback. -/
structure Parse where
  parser : HttpParser
  complete : Bool
  deriving DecidableEq, Repr

namespace HttpParser

/-! ### Character classes -/

/-- Carriage return. -/
def CR : UInt8 := 13

/-- Line feed. -/
def LF : UInt8 := 10

/-- The macro `LOWER`. -/
def lower (b : UInt8) : UInt8 := b ||| 0x20

/-- The macro `IS_NUM`. -/
def isNum (b : UInt8) : Bool := chr '0' ≤ b && b ≤ chr '9'

/-- The table `tokens`: a token character in lower case, 0 for every other byte. -/
def tokens (b : UInt8) : UInt8 :=
  if chr 'A' ≤ b && b ≤ chr 'Z' then lower b
  else if (chr 'a' ≤ b && b ≤ chr 'z') || isNum b || (ascii " !#$%&'*+-.^_`|~").contains b then b
  else 0

/-- The macro `STRICT_TOKEN`. -/
def strictToken (b : UInt8) : UInt8 := if b == chr ' ' then 0 else tokens b

/-- The macro `TOKEN`. -/
def token (strict : Bool) (b : UInt8) : UInt8 := if strict then strictToken b else tokens b

/-- The macro `IS_HEADER_CHAR`. -/
def isHeaderChar (b : UInt8) : Bool := b == CR || b == LF || b == 9 || (31 < b && b != 127)

/-- The table `unhex`, with `none` for -1. -/
def unhex (b : UInt8) : Option Nat :=
  if isNum b then some (b.toNat - 48)
  else if chr 'A' ≤ b && b ≤ chr 'F' then some (b.toNat - 55)
  else if chr 'a' ≤ b && b ≤ chr 'f' then some (b.toNat - 87)
  else none

/-- How a byte continues the match of a keyword. -/
inductive WordMatch
  | miss | partly | whole
  deriving DecidableEq, Repr

/-- One step of matching `word` at `index`, as every `h_matching_...` state does it: past the word's
end the C string gives its terminating NUL. -/
def matchWord (word : Bytes) (index : Nat) (c : UInt8) : WordMatch :=
  if index > word.length || c != word.getD index 0 then .miss
  else if index + 1 == word.length then .whole
  else .partly

end HttpParser

namespace Parse

open HttpParser

/-- The macros `UPDATE_STATE` and `break`: the byte is consumed in a new state. -/
def goto (r : Parse) (state : State) : Verdict Parse :=
  .more { r with parser.state := state }

/-- The macro `SET_ERRNO` followed by `goto error`. -/
def fail (r : Parse) (errno : Errno) : Verdict Parse :=
  .stop { r with parser.errno := errno } false

/-- The pair `UPDATE_STATE(NEW_MESSAGE())` and `CALLBACK_NOTIFY(message_complete)`. -/
def completed (strict : Bool) (r : Parse) : Parse where
  parser := { r.parser with state := r.parser.newMessage strict }
  complete := true

/-! ### The end of a message and of the headers -/

/-- State `s_message_done`. -/
def onMessageDone (strict : Bool) (r : Parse) : Verdict Parse :=
  if r.parser.upgrade then .stop (r.completed strict) true else .more (r.completed strict)

/-- The variable `hasBody` of state `s_headers_done`. -/
def hasBody (r : Parse) : Bool :=
  r.parser.flags.chunked || (r.parser.contentLength > 0 && r.parser.contentLength != ullongMax)

/-- State `s_headers_done`. -/
def onHeadersDone (strict : Bool) (r : Parse) (ch : UInt8) : Verdict Parse :=
  if strict && ch != LF then r.fail .strict
  else
    let r := { r with parser.nread := 0 }
    if r.parser.upgrade && (r.parser.flags.skipbody || !r.hasBody) then
      -- the rest of the stream is in a different protocol
      .stop (r.completed strict) true
    else if r.parser.flags.skipbody then .more (r.completed strict)
    else if r.parser.flags.chunked then r.goto .chunkSizeStart
    else if r.parser.flags.transferEncoding then r.goto .bodyIdentityEof
    else if r.parser.contentLength == 0 then .more (r.completed strict)
    else if r.parser.contentLength != ullongMax then r.goto .bodyIdentity
    else if !r.parser.messageNeedsEof then .more (r.completed strict)
    else r.goto .bodyIdentityEof

/-- State `s_headers_almost_done`. -/
def onHeadersAlmostDone (strict : Bool) (r : Parse) (ch : UInt8) : Verdict Parse :=
  if strict && ch != LF then r.fail .strict
  else if r.parser.flags.trailing then
    onMessageDone strict { r with parser.state := .messageDone }
  else if r.parser.flags.transferEncoding && r.parser.flags.contentLength then
    r.fail .unexpectedContentLength
  else
    let upgrade := r.parser.flags.upgrade && r.parser.flags.connectionUpgrade &&
      r.parser.statusCode == 101
    onHeadersDone strict { r with parser.state := .headersDone, parser.upgrade := upgrade } ch

/-! ### Header names -/

/-- State `s_header_field_start`. -/
def onHeaderFieldStart (strict : Bool) (r : Parse) (ch : UInt8) : Verdict Parse :=
  if ch == CR then r.goto .headersAlmostDone
  else if ch == LF then
    onHeadersAlmostDone strict { r with parser.state := .headersAlmostDone } ch
  else
    let c := token strict ch
    if c == 0 then r.fail .invalidHeaderToken
    else
      let headerState : HeaderState :=
        if c == chr 'c' then .c
        else if c == chr 'p' then .matchingProxyConnection
        else if c == chr 't' then .matchingTransferEncoding
        else if c == chr 'u' then .matchingUpgrade
        else .general
      { r with parser.index := 0, parser.headerState := headerState }.goto .headerField

/-- One `h_matching_...` state of a header name: the whole word leads to `found`. -/
def matchName (r : Parse) (word : Bytes) (c : UInt8) (found : HeaderState) : Parse :=
  let index := r.parser.index + 1
  match matchWord word index c with
  | .miss => { r with parser.index := index, parser.headerState := .general }
  | .partly => { r with parser.index := index }
  | .whole => { r with parser.index := index, parser.headerState := found }

/-- The `switch` of state `s_header_field` on a token character `c = TOKEN(ch)`. -/
def headerNameChar (r : Parse) (ch c : UInt8) : Parse :=
  let index := r.parser.index + 1
  match r.parser.headerState with
  | .c => { r with
      parser.index := index, parser.headerState := if c == chr 'o' then .co else .general }
  | .co => { r with
      parser.index := index, parser.headerState := if c == chr 'n' then .con else .general }
  | .con => { r with
      parser.index := index
      parser.headerState :=
        if c == chr 'n' then .matchingConnection
        else if c == chr 't' then .matchingContentLength
        else .general }
  | .matchingConnection => r.matchName (ascii "connection") c .connection
  | .matchingProxyConnection => r.matchName (ascii "proxy-connection") c .connection
  | .matchingContentLength => r.matchName (ascii "content-length") c .contentLength
  | .matchingTransferEncoding =>
    let r := r.matchName (ascii "transfer-encoding") c .transferEncoding
    if r.parser.headerState == .transferEncoding then
      { r with parser.flags.transferEncoding := true }
    else r
  | .matchingUpgrade => r.matchName (ascii "upgrade") c .upgrade
  | .connection | .contentLength | .transferEncoding | .upgrade =>
    if ch != chr ' ' then { r with parser.headerState := .general } else r
  | _ => r

/-- State `s_header_field`. -/
def onHeaderField (strict : Bool) (r : Parse) (ch : UInt8) : Verdict Parse :=
  let c := token strict ch
  if c != 0 then .more (r.headerNameChar ch c)
  else if ch == chr ':' then r.goto .headerValueDiscardWs
  else r.fail .invalidHeaderToken

/-! ### Header values -/

/-- State `s_header_value_start`. -/
def onHeaderValueStart (r : Parse) (ch : UInt8) : Verdict Parse :=
  let r := { r with parser.state := .headerValue, parser.index := 0 }
  let c := lower ch
  match r.parser.headerState with
  | .upgrade => .more { r with parser.flags.upgrade := true, parser.headerState := .general }
  | .transferEncoding => .more { r with
      parser.headerState :=
        if c == chr 'c' then .matchingTransferEncodingChunked else .matchingTransferEncodingToken }
  | .matchingTransferEncodingTokenStart => .more r
  | .contentLength =>
    if !isNum ch then r.fail .invalidContentLength
    else if r.parser.flags.contentLength then r.fail .unexpectedContentLength
    else .more { r with
      parser.flags.contentLength := true
      parser.contentLength := ch.toNat - 48
      parser.headerState := .contentLengthNum }
  | .contentLengthWs => .more r
  | .connection => .more { r with
      parser.headerState :=
        if c == chr 'k' then .matchingConnectionKeepAlive
        else if c == chr 'c' then .matchingConnectionClose
        else if c == chr 'u' then .matchingConnectionUpgrade
        else .matchingConnectionToken }
  | .matchingConnectionTokenStart => .more r
  | _ => .more { r with parser.headerState := .general }

/-- One `h_matching_...` state of a header value. -/
def matchValue (r : Parse) (word : Bytes) (c : UInt8) (missed found : HeaderState) : Parse :=
  let index := r.parser.index + 1
  match matchWord word index c with
  | .miss => { r with parser.index := index, parser.headerState := missed }
  | .partly => { r with parser.index := index }
  | .whole => { r with parser.index := index, parser.headerState := found }

/-- A digit of a Content-Length value. -/
def contentLengthDigit (r : Parse) (ch : UInt8) : Verdict Parse :=
  if ch == chr ' ' then .more { r with parser.headerState := .contentLengthWs }
  else if !isNum ch then r.fail .invalidContentLength
  else if (ullongMax - 10) / 10 < r.parser.contentLength then r.fail .invalidContentLength
  else .more { r with
    parser.contentLength := r.parser.contentLength * 10 + (ch.toNat - 48)
    parser.headerState := .contentLengthNum }

/-- The flag a finished `Connection` or `Transfer-Encoding` token stands for. -/
def tokenFlag (r : Parse) : Parse :=
  match r.parser.headerState with
  | .connectionKeepAlive => { r with parser.flags.connectionKeepAlive := true }
  | .connectionClose => { r with parser.flags.connectionClose := true }
  | .transferEncodingChunked => { r with parser.flags.chunked := true }
  | .connectionUpgrade => { r with parser.flags.connectionUpgrade := true }
  | _ => r

/-- The `switch` of state `s_header_value` on a byte that does not end the line. -/
def headerValueChar (r : Parse) (ch : UInt8) : Verdict Parse :=
  let c := lower ch
  match r.parser.headerState with
  -- `assert(0)` in the source for the last two: `s_header_value_start` has left them
  | .general | .connection | .transferEncoding => .more r
  | .contentLength => if ch == chr ' ' then .more r else r.contentLengthDigit ch
  | .contentLengthNum => r.contentLengthDigit ch
  | .contentLengthWs => if ch == chr ' ' then .more r else r.fail .invalidContentLength
  | .matchingTransferEncodingTokenStart =>
    if c == chr 'c' then .more { r with parser.headerState := .matchingTransferEncodingChunked }
    else if strictToken c != 0 then
      .more { r with parser.headerState := .matchingTransferEncodingToken }
    else if c == chr ' ' || c == 9 then .more r
    else .more { r with parser.headerState := .general }
  | .matchingTransferEncodingChunked =>
    .more (r.matchValue (ascii "chunked") c .matchingTransferEncodingToken .transferEncodingChunked)
  | .matchingTransferEncodingToken =>
    if ch == chr ',' then .more { r with
      parser.headerState := .matchingTransferEncodingTokenStart, parser.index := 0 }
    else .more r
  | .matchingConnectionTokenStart =>
    if c == chr 'k' then .more { r with parser.headerState := .matchingConnectionKeepAlive }
    else if c == chr 'c' then .more { r with parser.headerState := .matchingConnectionClose }
    else if c == chr 'u' then .more { r with parser.headerState := .matchingConnectionUpgrade }
    else if strictToken c != 0 then .more { r with parser.headerState := .matchingConnectionToken }
    else if c == chr ' ' || c == 9 then .more r
    else .more { r with parser.headerState := .general }
  | .matchingConnectionKeepAlive =>
    .more (r.matchValue (ascii "keep-alive") c .matchingConnectionToken .connectionKeepAlive)
  | .matchingConnectionClose =>
    .more (r.matchValue (ascii "close") c .matchingConnectionToken .connectionClose)
  | .matchingConnectionUpgrade =>
    .more (r.matchValue (ascii "upgrade") c .matchingConnectionToken .connectionUpgrade)
  | .matchingConnectionToken =>
    if ch == chr ',' then .more { r with
      parser.headerState := .matchingConnectionTokenStart, parser.index := 0 }
    else .more r
  | .transferEncodingChunked =>
    if ch != chr ' ' then .more { r with parser.headerState := .matchingTransferEncodingToken }
    else .more r
  | .connectionKeepAlive | .connectionClose | .connectionUpgrade =>
    if ch == chr ',' then
      .more { r.tokenFlag with
        parser.headerState := .matchingConnectionTokenStart, parser.index := 0 }
    else if ch != chr ' ' then .more { r with parser.headerState := .matchingConnectionToken }
    else .more r
  | _ => .more { r with parser.headerState := .general }

/-- State `s_header_almost_done`. -/
def onHeaderAlmostDone (r : Parse) (ch : UInt8) : Verdict Parse :=
  if ch != LF then r.fail .lfExpected else r.goto .headerValueLws

/-- State `s_header_value`. -/
def onHeaderValue (r : Parse) (ch : UInt8) : Verdict Parse :=
  if ch == CR then r.goto .headerAlmostDone
  else if ch == LF then onHeaderAlmostDone { r with parser.state := .headerAlmostDone } ch
  else if !isHeaderChar ch then r.fail .invalidHeaderToken
  else r.headerValueChar ch

/-- State `s_header_value_lws`: a folded line goes on with the value, anything else ends it. -/
def onHeaderValueLws (strict : Bool) (r : Parse) (ch : UInt8) : Verdict Parse :=
  if ch == chr ' ' || ch == 9 then
    let r := if r.parser.headerState == .contentLengthNum then
      { r with parser.headerState := .contentLengthWs } else r
    onHeaderValueStart { r with parser.state := .headerValueStart } ch
  else onHeaderFieldStart strict { r.tokenFlag with parser.state := .headerFieldStart } ch

/-- State `s_header_value_discard_ws`. -/
def onHeaderValueDiscardWs (r : Parse) (ch : UInt8) : Verdict Parse :=
  if ch == chr ' ' || ch == 9 then .more r
  else if ch == CR then r.goto .headerValueDiscardWsAlmostDone
  else if ch == LF then r.goto .headerValueDiscardLws
  else onHeaderValueStart r ch

/-- State `s_header_value_discard_lws`: the value was empty. -/
def onHeaderValueDiscardLws (strict : Bool) (r : Parse) (ch : UInt8) : Verdict Parse :=
  if ch == chr ' ' || ch == 9 then r.goto .headerValueDiscardWs
  else if r.parser.headerState == .contentLength then r.fail .invalidContentLength
  else onHeaderFieldStart strict { r.tokenFlag with parser.state := .headerFieldStart } ch

/-! ### The status line -/

/-- State `s_start_res`. -/
def onStartRes (r : Parse) (ch : UInt8) : Verdict Parse :=
  if ch == CR || ch == LF then .more r
  else
    let r := { r with parser.flags := {}, parser.contentLength := ullongMax }
    if ch == chr 'H' then r.goto .resH else r.fail .invalidConstant

/-- A state that only expects one character, checked by `STRICT_CHECK`. -/
def expect (strict : Bool) (r : Parse) (ch expected : UInt8) (next : State) : Verdict Parse :=
  if strict && ch != expected then r.fail .strict else r.goto next

/-- State `s_res_first_status_code`. -/
def onFirstStatusCode (r : Parse) (ch : UInt8) : Verdict Parse :=
  if !isNum ch then (if ch == chr ' ' then .more r else r.fail .invalidStatus)
  else { r with parser.statusCode := ch.toNat - 48 }.goto .resStatusCode

/-- State `s_res_status`. -/
def onStatus (r : Parse) (ch : UInt8) : Verdict Parse :=
  if ch == CR then r.goto .resLineAlmostDone
  else if ch == LF then r.goto .headerFieldStart
  else .more r

/-- State `s_res_status_start`. -/
def onStatusStart (r : Parse) (ch : UInt8) : Verdict Parse :=
  let r := { r with parser.state := .resStatus, parser.index := 0 }
  if ch == CR || ch == LF then onStatus r ch else .more r

/-- State `s_res_status_code`. -/
def onStatusCode (r : Parse) (ch : UInt8) : Verdict Parse :=
  if !isNum ch then
    if ch == chr ' ' then r.goto .resStatusStart
    else if ch == CR || ch == LF then onStatusStart { r with parser.state := .resStatusStart } ch
    else r.fail .invalidStatus
  else
    let r := { r with parser.statusCode := r.parser.statusCode * 10 + (ch.toNat - 48) }
    if r.parser.statusCode > 999 then r.fail .invalidStatus else .more r

/-! ### Bodies -/

/-- State `s_body_identity`. -/
def onBodyIdentity (strict : Bool) (r : Parse) : Verdict Parse :=
  let r := { r with parser.contentLength := r.parser.contentLength - 1 }
  if r.parser.contentLength == 0 then
    onMessageDone strict { r with parser.state := .messageDone }
  else .more r

/-- State `s_chunk_size_start`. -/
def onChunkSizeStart (r : Parse) (ch : UInt8) : Verdict Parse :=
  match unhex ch with
  | none => r.fail .invalidChunkSize
  | some digit => { r with parser.contentLength := digit }.goto .chunkSize

/-- State `s_chunk_size`. -/
def onChunkSize (r : Parse) (ch : UInt8) : Verdict Parse :=
  if ch == CR then r.goto .chunkSizeAlmostDone
  else
    match unhex ch with
    | none =>
      if ch == chr ';' || ch == chr ' ' then r.goto .chunkParameters else r.fail .invalidChunkSize
    | some digit =>
      if (ullongMax - 16) / 16 < r.parser.contentLength then r.fail .invalidContentLength
      else .more { r with parser.contentLength := r.parser.contentLength * 16 + digit }

/-- State `s_chunk_size_almost_done`. -/
def onChunkSizeAlmostDone (strict : Bool) (r : Parse) (ch : UInt8) : Verdict Parse :=
  if strict && ch != LF then r.fail .strict
  else
    let r := { r with parser.nread := 0 }
    if r.parser.contentLength == 0 then
      { r with parser.flags.trailing := true }.goto .headerFieldStart
    else r.goto .chunkData

/-- State `s_chunk_data`. -/
def onChunkData (r : Parse) : Verdict Parse :=
  let r := { r with parser.contentLength := r.parser.contentLength - 1 }
  if r.parser.contentLength == 0 then r.goto .chunkDataAlmostDone else .more r

/-- State `s_chunk_data_done`. -/
def onChunkDataDone (strict : Bool) (r : Parse) (ch : UInt8) : Verdict Parse :=
  if strict && ch != LF then r.fail .strict
  else { r with parser.nread := 0 }.goto .chunkSizeStart

/-! ### One byte, and the whole call -/

/-- The `switch` on the state. -/
def onByte (strict : Bool) (r : Parse) (ch : UInt8) : Verdict Parse :=
  match r.parser.state with
  | .dead => if ch == CR || ch == LF then .more r else r.fail .closedConnection
  | .startRes => r.onStartRes ch
  | .resH => r.expect strict ch (chr 'T') .resHT
  | .resHT => r.expect strict ch (chr 'T') .resHTT
  | .resHTT => r.expect strict ch (chr 'P') .resHTTP
  | .resHTTP => r.expect strict ch (chr '/') .resHttpMajor
  | .resHttpMajor =>
    if !isNum ch then r.fail .invalidVersion
    else { r with parser.httpMajor := ch.toNat - 48 }.goto .resHttpDot
  | .resHttpDot => if ch != chr '.' then r.fail .invalidVersion else r.goto .resHttpMinor
  | .resHttpMinor =>
    if !isNum ch then r.fail .invalidVersion
    else { r with parser.httpMinor := ch.toNat - 48 }.goto .resHttpEnd
  | .resHttpEnd => if ch != chr ' ' then r.fail .invalidVersion else r.goto .resFirstStatusCode
  | .resFirstStatusCode => r.onFirstStatusCode ch
  | .resStatusCode => r.onStatusCode ch
  | .resStatusStart => r.onStatusStart ch
  | .resStatus => r.onStatus ch
  | .resLineAlmostDone => r.expect strict ch LF .headerFieldStart
  | .headerFieldStart => r.onHeaderFieldStart strict ch
  | .headerField => r.onHeaderField strict ch
  | .headerValueDiscardWs => r.onHeaderValueDiscardWs ch
  | .headerValueDiscardWsAlmostDone => r.expect strict ch LF .headerValueDiscardLws
  | .headerValueDiscardLws => r.onHeaderValueDiscardLws strict ch
  | .headerValueStart => r.onHeaderValueStart ch
  | .headerValue => r.onHeaderValue ch
  | .headerValueLws => r.onHeaderValueLws strict ch
  | .headerAlmostDone => r.onHeaderAlmostDone ch
  | .chunkSizeStart => r.onChunkSizeStart ch
  | .chunkSize => r.onChunkSize ch
  | .chunkParameters => if ch == CR then r.goto .chunkSizeAlmostDone else .more r
  | .chunkSizeAlmostDone => r.onChunkSizeAlmostDone strict ch
  | .headersAlmostDone => r.onHeadersAlmostDone strict ch
  | .headersDone => r.onHeadersDone strict ch
  | .chunkData => r.onChunkData
  | .chunkDataAlmostDone => r.expect strict ch CR .chunkDataDone
  | .chunkDataDone => r.onChunkDataDone strict ch
  | .bodyIdentity => r.onBodyIdentity strict
  | .bodyIdentityEof => .more r
  | .messageDone => r.onMessageDone strict

/-- One turn of the `for` loop: `COUNT_HEADER_SIZE(1)` in a header state, then the `switch`. -/
def stepByte (strict : Bool) (r : Parse) (ch : UInt8) : Verdict Parse :=
  if r.parser.state.parsingHeader then
    let r := { r with parser.nread := r.parser.nread + 1 }
    if r.parser.nread > maxHeaderSize then r.fail .headerOverflow else r.onByte strict ch
  else r.onByte strict ch

/-- The case `len == 0`: end of stream. -/
def atEof (r : Parse) : Parse :=
  match r.parser.state with
  | .bodyIdentityEof => { r with complete := true }
  | .dead | .startRes => r
  | _ => { r with parser.errno := .invalidEofState }

/-- The function `http_parser_execute`: the parser afterwards, and the bytes it did not parse. -/
def execute (strict : Bool) (r : Parse) (data : Bytes) : Fed Parse UInt8 :=
  if r.parser.errno ≠ .ok then ⟨r, data, true⟩
  else if data = [] then ⟨r.atEof, [], false⟩
  else feed (stepByte strict) r data

end Parse

end Apib
