/-
**HTTP/1.1 responses.**

What a server may send: the head of a response, the framings of a body, and which of them a response to
a request with some verb has. This is the protocol's own account and names nothing of a parser.

* `Head`, `Body`, `Message`: responses as they are sent, with their bytes;
* `NoBody`: the responses that end with their head, whatever its fields say;
* `Message.Framed`: **the body that a response has**, on a connection that stays open.
-/

import Apib.HttpParser.State
import Apib.Library.Numerals

namespace Apib.Http

open Numerals

/-! ### Characters -/

/-- White space inside a line. -/
def isBlank (b : UInt8) : Bool := b == 32 || b == 9

/-- A byte that may stand in a reason or in the value of a field. -/
def isText (b : UInt8) : Bool := b == 9 || (32 ≤ b && b != 127)

/-- A letter, a digit or one of the marks that may stand in the name of a field. -/
def isTokenChar (b : UInt8) : Bool :=
  (97 ≤ tolower b && tolower b ≤ 122) || (48 ≤ b && b ≤ 57) || (ascii "!#$%&'*+-.^_`|~").contains b

/-- The end of a line. -/
def crlf : Bytes := [13, 10]

/-- A number in a base. -/
structure IsNumber (base : Nat) (digits : Bytes) (n : Nat) : Prop where
  some_digit : digits ≠ []
  digit : ∀ c ∈ digits, (digitOf base c).isSome
  value : number base digits = n

/-! ### Fields -/

/-- A header field; the value has the white space around it. -/
structure Field where
  name : Bytes
  value : Bytes
  deriving DecidableEq, Repr

namespace Field

variable (f : Field)

def bytes : Bytes := f.name ++ 58 :: f.value ++ crlf

/-- Does the field have this name? Upper and lower case are the same. -/
def Named (word : String) : Prop := f.name.map tolower = ascii word

instance (word : String) : Decidable (f.Named word) := inferInstanceAs (Decidable (_ = _))

/-- A field as it may be sent, without line folding. -/
structure Valid : Prop where
  some_name : f.name ≠ []
  name_token : ∀ b ∈ f.name, isTokenChar b = true
  value_text : ∀ b ∈ f.value, isText b = true

/-- The value is a decimal number. -/
def HasLength (n : Nat) : Prop :=
  ∃ before digits after, f.value = before ++ (digits ++ after) ∧ (∀ b ∈ before, isBlank b = true) ∧
    IsNumber 10 digits n ∧ ∀ b ∈ after, isBlank b = true

/-- The last of the codings listed in the value is `chunked`. -/
def EndsChunked : Prop :=
  ∃ listed before coding after, f.value = listed ++ before ++ coding ++ after ∧
    (listed = [] ∨ ∃ codings, listed = codings ++ [44]) ∧ (∀ b ∈ before, isBlank b = true) ∧
    coding.map tolower = ascii "chunked" ∧ ∀ b ∈ after, isBlank b = true

end Field

/-- Fields as they may be sent: a length is a number, is given once and not along with a coding. -/
structure ValidFields (fields : List Field) : Prop where
  valid : ∀ f ∈ fields, f.Valid
  length : ∀ f ∈ fields, f.Named "content-length" → ∃ n, f.HasLength n
  once : (fields.filter (·.Named "content-length")).length ≤ 1
  apart : (∃ f ∈ fields, f.Named "transfer-encoding") → ∀ f ∈ fields, ¬f.Named "content-length"

/-- Fields that say nothing of a body. -/
structure Bare (fields : List Field) : Prop where
  no_coding : ∀ f ∈ fields, ¬f.Named "transfer-encoding"
  no_length : ∀ f ∈ fields, ¬f.Named "content-length"

/-! ### Heads -/

/-- The status line and the fields of a response. -/
structure Head where
  digits : UInt8 × UInt8 × UInt8
  reason : Bytes
  fields : List Field
  deriving DecidableEq, Repr

namespace Head

variable (h : Head)

/-- The status code. -/
def status : Nat := number 10 [h.digits.1, h.digits.2.1, h.digits.2.2]

/-- The head without the last line feed. -/
def front : Bytes :=
  ascii "HTTP/1.1 " ++ [h.digits.1, h.digits.2.1, h.digits.2.2, 32] ++ h.reason ++ crlf ++
    h.fields.flatMap Field.bytes ++ [13]

def bytes : Bytes := h.front ++ [10]

structure Valid : Prop where
  status_digit : ∀ c ∈ [h.digits.1, h.digits.2.1, h.digits.2.2], (digitOf 10 c).isSome
  reason_text : ∀ b ∈ h.reason, isText b = true
  fields_valid : ValidFields h.fields

/-- An interim response: a head of class 1xx, which announces no body. -/
structure Interim : Prop where
  valid : h.Valid
  informational : h.status / 100 = 1
  bare : Bare h.fields

end Head

/-! ### Bodies -/

/-- A chunk: the digits of its size, the extensions on that line, and the data. -/
structure Chunk where
  size : Bytes
  ext : Bytes
  data : Bytes
  deriving DecidableEq, Repr

/-- Extensions begin with a semicolon. -/
structure ValidExt (ext : Bytes) : Prop where
  begun : ext = [] ∨ ∃ rest, ext = 59 :: rest
  text : ∀ b ∈ ext, isText b = true

namespace Chunk

variable (c : Chunk)

def bytes : Bytes := c.size ++ c.ext ++ crlf ++ c.data ++ crlf

structure Valid : Prop where
  size_number : IsNumber 16 c.size c.data.length
  some_data : c.data ≠ []
  ext_valid : ValidExt c.ext

end Chunk

/-- A body in chunks: the chunks, the line of the last one, and the fields that trail. -/
structure Chunked where
  chunks : List Chunk
  size : Bytes
  ext : Bytes
  trailer : List Field
  deriving DecidableEq, Repr

namespace Chunked

variable (c : Chunked)

/-- The last chunk and the trailer, without the last line feed. -/
def finish : Bytes := c.size ++ c.ext ++ crlf ++ c.trailer.flatMap Field.bytes ++ [13]

def bytes : Bytes := c.chunks.flatMap Chunk.bytes ++ c.finish ++ [10]

structure Valid : Prop where
  chunks_valid : ∀ chunk ∈ c.chunks, chunk.Valid
  size_zero : IsNumber 16 c.size 0
  ext_valid : ValidExt c.ext
  trailer_valid : ∀ f ∈ c.trailer, f.Valid
  trailer_bare : Bare c.trailer

end Chunked

/-- How the body of a response is sent. -/
inductive Body
  | none
  | whole (data : Bytes)
  | chunked (c : Chunked)
  deriving DecidableEq, Repr

namespace Body

def bytes : Body → Bytes
  | none => []
  | whole data => data
  | chunked c => c.bytes

def Valid : Body → Prop
  | chunked c => c.Valid
  | _ => True

end Body

/-! ### Responses -/

/-- A response ends with its head: to `HEAD`, of class 1xx, 204 or 304, or a 2xx to `CONNECT`. -/
def NoBody (verb : Bytes) (status : Nat) : Prop :=
  verb = ascii "HEAD" ∨ status / 100 = 1 ∨ status = 204 ∨ status = 304 ∨
    verb = ascii "CONNECT" ∧ status / 100 = 2

instance (verb : Bytes) (status : Nat) : Decidable (NoBody verb status) :=
  inferInstanceAs (Decidable (_ ∨ _))

/-- A final response. -/
structure Message where
  head : Head
  body : Body
  deriving DecidableEq, Repr

namespace Message

variable (verb : Bytes) (m : Message)

def bytes : Bytes := m.head.bytes ++ m.body.bytes

/-- **The body that a response has** where the connection stays open: none, or in chunks if that is the
last of its codings, or of the length that it gives. With 204, and with a 2xx to `CONNECT`, none is
announced either. -/
def Framed : Prop :=
  if NoBody verb m.head.status then
    m.body = .none ∧
      (m.head.status = 204 ∨ verb = ascii "CONNECT" ∧ m.head.status / 100 = 2 → Bare m.head.fields)
  else if ∃ f ∈ m.head.fields, f.Named "transfer-encoding" then
    (∃ f ∈ (m.head.fields.filter (·.Named "transfer-encoding")).getLast?, f.EndsChunked) ∧
      ∃ c, m.body = .chunked c
  else ∃ data, m.body = .whole data ∧ (∃ f ∈ m.head.fields, f.Named "content-length") ∧
    ∀ f ∈ m.head.fields, f.Named "content-length" → f.HasLength data.length

/-- A final response as a server may send it to a request with this verb. -/
structure WellFormed : Prop where
  head_valid : m.head.Valid
  final : 200 ≤ m.head.status
  body_valid : m.body.Valid
  framed : m.Framed verb

end Message

/-- What a server sends for one request: interim responses, and then the final one. -/
def sent (interim : List Head) (m : Message) : Bytes := interim.flatMap Head.bytes ++ m.bytes

end Apib.Http
