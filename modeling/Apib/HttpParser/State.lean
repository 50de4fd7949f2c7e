/-
**The state of `http_parser` while it reads a response.**

`third_party/http_parser/http_parser.c`, for a parser set up by `http_parser_init(p, HTTP_RESPONSE)`
with `on_message_complete` as its only callback, as apib uses it. The request states, `method` (which
stays 0), `lenient_http_headers` (never set) and the data callbacks are left out. `strict` is the
macro `HTTP_PARSER_STRICT`: 0 in this repository's builds, 1 where it is left undefined.
-/

import Mathlib.Data.List.Basic

namespace Apib

/-- A string of bytes. -/
abbrev Bytes := List UInt8

/-- The byte of an ASCII character. -/
def chr (c : Char) : UInt8 := c.toNat.toUInt8

/-- The bytes of an ASCII string. -/
def ascii (text : String) : Bytes := text.toList.map chr

namespace HttpParser

/-- `enum state`, without the request states. -/
inductive State
  | dead | startRes
  | resH | resHT | resHTT | resHTTP | resHttpMajor | resHttpDot | resHttpMinor | resHttpEnd
  | resFirstStatusCode | resStatusCode | resStatusStart | resStatus | resLineAlmostDone
  | headerFieldStart | headerField | headerValueDiscardWs | headerValueDiscardWsAlmostDone
  | headerValueDiscardLws | headerValueStart | headerValue | headerValueLws | headerAlmostDone
  | chunkSizeStart | chunkSize | chunkParameters | chunkSizeAlmostDone
  | headersAlmostDone | headersDone
  | chunkData | chunkDataAlmostDone | chunkDataDone
  | bodyIdentity | bodyIdentityEof
  | messageDone
  deriving DecidableEq, Repr

/-- The macro `PARSING_HEADER`: everything up to `s_headers_done`. -/
def State.parsingHeader : State → Bool
  | .chunkData | .chunkDataAlmostDone | .chunkDataDone | .bodyIdentity | .bodyIdentityEof
  | .messageDone => false
  | _ => true

/-- `enum header_states`. -/
inductive HeaderState
  | general | c | co | con
  | matchingConnection | matchingProxyConnection | matchingContentLength
  | matchingTransferEncoding | matchingUpgrade
  | connection | contentLength | contentLengthNum | contentLengthWs | transferEncoding | upgrade
  | matchingTransferEncodingTokenStart | matchingTransferEncodingChunked
  | matchingTransferEncodingToken
  | matchingConnectionTokenStart | matchingConnectionKeepAlive | matchingConnectionClose
  | matchingConnectionUpgrade | matchingConnectionToken
  | transferEncodingChunked | connectionKeepAlive | connectionClose | connectionUpgrade
  deriving DecidableEq, Repr

/-- `enum http_errno`, the values a response can set. -/
inductive Errno
  | ok | invalidEofState | headerOverflow | closedConnection | invalidVersion | invalidStatus
  | lfExpected | invalidHeaderToken | invalidContentLength | unexpectedContentLength
  | invalidChunkSize | invalidConstant | strict
  deriving DecidableEq, Repr

/-- The bits of `flags`, and `F_TRANSFER_ENCODING` of `extra_flags`. -/
structure Flags where
  chunked : Bool := false
  connectionKeepAlive : Bool := false
  connectionClose : Bool := false
  connectionUpgrade : Bool := false
  trailing : Bool := false
  upgrade : Bool := false
  skipbody : Bool := false
  contentLength : Bool := false
  transferEncoding : Bool := false
  deriving DecidableEq, Repr

end HttpParser

open HttpParser in
/-- The C structure `http_parser`. -/
structure HttpParser where
  state : State := .startRes
  headerState : HeaderState := .general
  index : Nat := 0
  flags : Flags := {}
  nread : Nat := 0
  contentLength : Nat := 0
  httpMajor : Nat := 0
  httpMinor : Nat := 0
  statusCode : Nat := 0
  errno : Errno := .ok
  upgrade : Bool := false
  deriving DecidableEq, Repr

namespace HttpParser

/-- The call `http_parser_init(p, HTTP_RESPONSE)`: everything zero, in the start state. -/
def init : HttpParser := {}

/-- The value `ULLONG_MAX`, which stands for "no Content-Length seen". -/
def ullongMax : Nat := 18446744073709551615

/-- The limit `HTTP_MAX_HEADER_SIZE`. -/
def maxHeaderSize : Nat := 80 * 1024

/-- The function `http_message_needs_eof`: is the end of the message known only at end of stream? -/
def messageNeedsEof (p : HttpParser) : Bool :=
  if p.statusCode / 100 == 1 || p.statusCode == 204 || p.statusCode == 304 || p.flags.skipbody then
    false
  else if p.flags.transferEncoding && !p.flags.chunked then true
  else if p.flags.chunked || p.contentLength != ullongMax then false
  else true

/-- The function `http_should_keep_alive`. -/
def shouldKeepAlive (p : HttpParser) : Bool :=
  if p.httpMajor > 0 && p.httpMinor > 0 then
    if p.flags.connectionClose then false else !p.messageNeedsEof
  else if !p.flags.connectionKeepAlive then false
  else !p.messageNeedsEof

/-- The macro `NEW_MESSAGE()`. -/
def newMessage (strict : Bool) (p : HttpParser) : State :=
  if strict && !p.shouldKeepAlive then .dead else .startRes

end HttpParser

end Apib
