/-
**Sockets and their two transports.**

`socket.cc` and `tlssocket.cc`: how the result of a system call or of an OpenSSL call becomes the
status that the connection code looks at. A status carries what the call would leave in its output
parameter. `plainRead`, `tlsRead` and so on are the translations; the connection code itself is
written over the statuses, whatever socket they come from.
-/

import Apib.Net.Url

namespace Apib

/-- The `Status` codes of a failed socket call. -/
inductive StatusCode
  | socketError | tlsError
  deriving DecidableEq, Repr

/-- A `StatusOr`. -/
abbrev StatusOr (α : Type) := Except StatusCode α

/-- An `IOStatus`; `ok` comes with the output of the call. -/
inductive IOStatus (α : Type)
  | ok (output : α)
  | needRead
  | needWrite
  | feof
  deriving DecidableEq, Repr

/-- What `Socket::read` gives: the bytes stored in the buffer. -/
abbrev ReadOutcome := StatusOr (IOStatus Bytes)

/-- What `Socket::write` gives: the number of bytes accepted. -/
abbrev WriteOutcome := StatusOr (IOStatus Nat)

/-- What `Socket::close` gives. -/
abbrev CloseOutcome := StatusOr (IOStatus Unit)

/-- An open socket. `id` numbers the sockets in the order they were opened; the other fields are the
arguments of `connect` or `connectTLS`. -/
structure Socket where
  id : Nat
  peer : Address
  tls : Bool
  hostName : Bytes
  deriving DecidableEq, Repr

/-! ### Plain sockets -/

/-- The result of `::read`: a count of 0, here the empty string, is the end of the stream. -/
inductive SysRead
  | bytes (data : Bytes)
  | wouldBlock
  | failed
  deriving DecidableEq, Repr

/-- The method `Socket::read`. -/
def plainRead : SysRead → ReadOutcome
  | .bytes data => .ok (.ok data)
  | .wouldBlock => .ok .needRead
  | .failed => .error .socketError

/-- The result of `::write`. -/
inductive SysWrite
  | count (written : Nat)
  | wouldBlock
  | failed
  deriving DecidableEq, Repr

/-- The method `Socket::write`. -/
def plainWrite : SysWrite → WriteOutcome
  | .count written => .ok (.ok written)
  | .wouldBlock => .ok .needWrite
  | .failed => .error .socketError

/-- The method `Socket::close`, from the success of `::close`. -/
def plainClose (succeeded : Bool) : CloseOutcome :=
  if succeeded then .ok (.ok ()) else .error .socketError

/-! ### TLS sockets -/

/-- The result of `SSL_read`: data, or what `SSL_get_error` says; `syscall` comes with the flag
`SSL_SENT_SHUTDOWN`. -/
inductive SslRead
  | bytes (data : Bytes)
  | wantRead
  | wantWrite
  | zeroReturn
  | syscall (sentShutdown : Bool)
  | failed
  deriving DecidableEq, Repr

/-- The method `TLSSocket::read`. -/
def tlsRead : SslRead → ReadOutcome
  | .bytes data => .ok (.ok data)
  | .wantRead => .ok .needRead
  | .wantWrite => .ok .needWrite
  | .zeroReturn => .ok .feof
  | .syscall sentShutdown => if sentShutdown then .ok .feof else .error .tlsError
  | .failed => .error .tlsError

/-- The result of `SSL_write`. -/
inductive SslWrite
  | count (written : Nat)
  | wantRead
  | wantWrite
  | failed
  deriving DecidableEq, Repr

/-- The method `TLSSocket::write`. -/
def tlsWrite : SslWrite → WriteOutcome
  | .count written => .ok (.ok written)
  | .wantRead => .ok .needRead
  | .wantWrite => .ok .needWrite
  | .failed => .error .tlsError

/-- The result of `SSL_shutdown`: done, sent but not answered (with the `SSL_read` that follows), or
what `SSL_get_error` says. -/
inductive SslShutdown
  | done
  | sent (read : SslRead)
  | wantRead
  | wantWrite
  | failed
  deriving DecidableEq, Repr

/-- The method `TLSSocket::close`. -/
def tlsClose : SslShutdown → CloseOutcome
  | .done => .ok (.ok ())
  | .sent read =>
    match tlsRead read with
    | .ok (.ok _) => .ok (.ok ())
    | .ok .needRead => .ok .needRead
    | .ok .needWrite => .ok .needWrite
    | .ok .feof => .ok .feof
    | .error status => .error status
  | .wantRead => .ok .needRead
  | .wantWrite => .ok .needWrite
  | .failed => .error .tlsError

end Apib
