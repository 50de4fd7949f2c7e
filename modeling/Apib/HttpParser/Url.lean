/-
**`http_parser_parse_url`.**

`third_party/http_parser/http_parser.c`, for `is_connect` 0, as apib calls it. The position and the
length of a field are 16 bits wide. A field that is not in `field_set` has none of the two.
-/

import Apib.HttpParser.Execute
import Mathlib.Logic.Function.Basic

namespace Apib.HttpParser

/-! ### Character classes -/

/-- The macro `IS_ALPHA`. -/
def isAlpha (b : UInt8) : Bool := chr 'a' ≤ lower b && lower b ≤ chr 'z'

/-- The macro `IS_ALPHANUM`. -/
def isAlphaNum (b : UInt8) : Bool := isAlpha b || isNum b

/-- The macro `IS_HEX`. -/
def isHex (b : UInt8) : Bool := isNum b || (chr 'a' ≤ lower b && lower b ≤ chr 'f')

/-- The macro `IS_MARK`. -/
def isMark (b : UInt8) : Bool := (ascii "-_.!~*'()").contains b

/-- The macro `IS_USERINFO_CHAR`. -/
def isUserinfoChar (b : UInt8) : Bool := isAlphaNum b || isMark b || (ascii "%;:&=+$,").contains b

/-- The table `normal_url_char`. -/
def normalUrlChar (strict : Bool) (b : UInt8) : Bool :=
  (32 < b && b < 127 && b != chr '#' && b != chr '?') || (!strict && (b == 9 || b == 12))

/-- The macro `IS_URL_CHAR`. -/
def isUrlChar (strict : Bool) (b : UInt8) : Bool :=
  normalUrlChar strict b || (!strict && b &&& 0x80 != 0)

/-- The macro `IS_HOST_CHAR`. -/
def isHostChar (strict : Bool) (b : UInt8) : Bool :=
  isAlphaNum b || b == chr '.' || b == chr '-' || (!strict && b == chr '_')

/-! ### The fields of a URL -/

/-- `enum http_parser_url_fields`, without `UF_MAX`. -/
inductive UrlField
  | schema | host | port | path | query | fragment | userinfo
  deriving DecidableEq, Repr

/-- An entry of `field_data`. -/
structure FieldData where
  off : UInt16
  len : UInt16
  deriving DecidableEq, Repr

/-- A `struct http_parser_url`. -/
structure HttpParserUrl where
  port : UInt16 := 0
  fieldData : UrlField → Option FieldData := fun _ => none

namespace HttpParserUrl

/-- A field begins at a position, with so many characters. -/
def begin (field : UrlField) (off : Nat) (len : UInt16) (u : HttpParserUrl) : HttpParserUrl :=
  { u with fieldData := Function.update u.fieldData field (some ⟨off.toUInt16, len⟩) }

/-- A field has one more character. -/
def extend (field : UrlField) (u : HttpParserUrl) : HttpParserUrl :=
  { u with
    fieldData := Function.update u.fieldData field
      ((u.fieldData field).map fun data => { data with len := data.len + 1 }) }

/-- A field begins later than it did. -/
def moveTo (field : UrlField) (off : Nat) (u : HttpParserUrl) : HttpParserUrl :=
  { u with
    fieldData := Function.update u.fieldData field
      ((u.fieldData field).map fun data => { data with off := off.toUInt16 }) }

end HttpParserUrl

/-- The part of a string that `substr` gives for a field. -/
def FieldData.part (data : FieldData) (buf : Bytes) : Bytes :=
  (buf.drop data.off.toNat).take data.len.toNat

/-! ### The states of a URL -/

/-- `enum state`, the states of a URL. -/
inductive UrlState
  | dead | spacesBeforeUrl | schema | schemaSlash | schemaSlashSlash | serverStart | server
  | serverWithAt | path | queryStringStart | queryString | fragmentStart | fragment
  deriving DecidableEq, Repr

/-- The states `s_req_server_start` and `s_req_server`. -/
def onServer (ch : UInt8) : UrlState :=
  if ch == chr '/' then .path
  else if ch == chr '?' then .queryStringStart
  else if ch == chr '@' then .serverWithAt
  else if isUserinfoChar ch || ch == chr '[' || ch == chr ']' then .server
  else .dead

/-- The states of a query string. -/
def onQuery (strict : Bool) (ch : UInt8) : UrlState :=
  if isUrlChar strict ch then .queryString
  else if ch == chr '?' then .queryString
  else if ch == chr '#' then .fragmentStart
  else .dead

/-- The function `parse_url_char`. -/
def parseUrlChar (strict : Bool) (s : UrlState) (ch : UInt8) : UrlState :=
  if ch == chr ' ' || ch == CR || ch == LF then .dead
  else if strict && (ch == 9 || ch == 12) then .dead
  else
    match s with
    | .spacesBeforeUrl =>
      if ch == chr '/' || ch == chr '*' then .path else if isAlpha ch then .schema else .dead
    | .schema => if isAlpha ch then s else if ch == chr ':' then .schemaSlash else .dead
    | .schemaSlash => if ch == chr '/' then .schemaSlashSlash else .dead
    | .schemaSlashSlash => if ch == chr '/' then .serverStart else .dead
    | .serverWithAt => if ch == chr '@' then .dead else onServer ch
    | .serverStart => onServer ch
    | .server => onServer ch
    | .path =>
      if isUrlChar strict ch then s
      else if ch == chr '?' then .queryStringStart
      else if ch == chr '#' then .fragmentStart
      else .dead
    | .queryStringStart => onQuery strict ch
    | .queryString => onQuery strict ch
    | .fragmentStart =>
      if isUrlChar strict ch then .fragment
      else if ch == chr '?' then .fragment
      else if ch == chr '#' then s
      else .dead
    | .fragment => if isUrlChar strict ch || ch == chr '?' || ch == chr '#' then s else .dead
    | .dead => .dead

/-- The field that a state is in; none where the loop skips a delimiter. -/
def UrlState.field : UrlState → Option UrlField
  | .schema => some .schema
  | .server => some .host
  | .serverWithAt => some .host
  | .path => some .path
  | .queryString => some .query
  | .fragment => some .fragment
  | _ => none

/-- The variables of the loop in `http_parser_parse_url`. -/
structure UrlLoop where
  s : UrlState := .spacesBeforeUrl
  oldUf : Option UrlField := none
  foundAt : Bool := false
  u : HttpParserUrl := {}

/-- One turn of the loop. -/
def UrlLoop.turn (strict : Bool) (ix : Nat) (ch : UInt8) (x : UrlLoop) : Option UrlLoop :=
  let s := parseUrlChar strict x.s ch
  if s = .dead then none
  else
    let x := { x with s, foundAt := x.foundAt || s = .serverWithAt }
    match s.field with
    | none => some x
    | some uf =>
      if x.oldUf = some uf then some { x with u := x.u.extend uf }
      else some { x with u := x.u.begin uf ix 1, oldUf := some uf }

/-- The loop over the characters from position `ix` on. -/
def UrlLoop.run (strict : Bool) : Nat → Bytes → UrlLoop → Option UrlLoop
  | _, [], x => some x
  | ix, ch :: rest, x => (x.turn strict ix ch).bind (UrlLoop.run strict (ix + 1) rest)

/-! ### The states of a host -/

/-- `enum http_host_state`. -/
inductive HostState
  | dead | userinfoStart | userinfo | hostStart | v6Start | host | v6 | v6End | v6ZoneStart | v6Zone
  | portStart | port
  deriving DecidableEq, Repr

/-- The state `s_http_host_v6_end`. -/
def onV6End (ch : UInt8) : HostState := if ch == chr ':' then .portStart else .dead

/-- The state `s_http_host_v6_start`. -/
def onV6Start (ch : UInt8) : HostState :=
  if isHex ch || ch == chr ':' || ch == chr '.' then .v6 else .dead

/-- The state `s_http_host_v6_zone_start`. -/
def onV6ZoneStart (ch : UInt8) : HostState :=
  if isAlphaNum ch || (ascii "%.-_~").contains ch then .v6Zone else .dead

/-- The states of a user. -/
def onUserinfo (ch : UInt8) : HostState :=
  if ch == chr '@' then .hostStart else if isUserinfoChar ch then .userinfo else .dead

/-- The states of a port. -/
def onPort (ch : UInt8) : HostState := if isNum ch then .port else .dead

/-- The function `http_parse_host_char`. -/
def parseHostChar (strict : Bool) (s : HostState) (ch : UInt8) : HostState :=
  match s with
  | .userinfo => onUserinfo ch
  | .userinfoStart => onUserinfo ch
  | .hostStart =>
    if ch == chr '[' then .v6Start else if isHostChar strict ch then .host else .dead
  | .host => if isHostChar strict ch then .host else onV6End ch
  | .v6End => onV6End ch
  | .v6 =>
    if ch == chr ']' then .v6End
    else if isHex ch || ch == chr ':' || ch == chr '.' then .v6
    else if ch == chr '%' then .v6ZoneStart
    else .dead
  | .v6Start => onV6Start ch
  | .v6Zone => if ch == chr ']' then .v6End else onV6ZoneStart ch
  | .v6ZoneStart => onV6ZoneStart ch
  | .port => onPort ch
  | .portStart => onPort ch
  | .dead => .dead

/-- What a turn of the loop in `http_parse_host` writes down. -/
def noteHost (ix : Nat) (old new : HostState) (u : HttpParserUrl) : HttpParserUrl :=
  match new with
  | .host => ((if old = .host then u else u.moveTo .host ix)).extend .host
  | .v6 => ((if old = .v6 then u else u.moveTo .host ix)).extend .host
  | .v6ZoneStart => u.extend .host
  | .v6Zone => u.extend .host
  | .port => ((if old = .port then u else u.begin .port ix 0)).extend .port
  | .userinfo => ((if old = .userinfo then u else u.begin .userinfo ix 0)).extend .userinfo
  | _ => u

/-- The loop over the characters from position `ix` on. -/
def hostLoop (strict : Bool) : Nat → Bytes → HostState → HttpParserUrl → Option (HostState × HttpParserUrl)
  | _, [], s, u => some (s, u)
  | ix, ch :: rest, s, u =>
    let new := parseHostChar strict s ch
    if new = .dead then none else hostLoop strict (ix + 1) rest new (noteHost ix s new u)

/-- May a host end here? -/
def HostState.ends : HostState → Bool
  | .host | .v6End | .port | .dead => true
  | _ => false

/-- The function `http_parse_host`. -/
def parseHost (strict : Bool) (buf : Bytes) (data : FieldData) (foundAt : Bool) (u : HttpParserUrl) :
    Option HttpParserUrl :=
  let u := { u with
    fieldData := Function.update u.fieldData .host (some { data with len := 0 }) }
  let start := if foundAt then HostState.userinfoStart else .hostStart
  (hostLoop strict data.off.toNat (data.part buf) start u).bind fun x =>
    if x.1.ends then some x.2 else none

/-! ### The port -/

/-- The loop over the digits of a port. -/
def portLoop : Nat → Bytes → Option Nat
  | v, [] => some v
  | v, ch :: rest =>
    let v := v * 10 + (ch.toNat - 48)
    if v > 0xffff then none else portLoop v rest

/-- The end of `http_parser_parse_url`. -/
def parsePort (buf : Bytes) (u : HttpParserUrl) : Option HttpParserUrl :=
  match u.fieldData .port with
  | none => some u
  | some data => (portLoop 0 (data.part buf)).map fun v => { u with port := v.toUInt16 }

/-- The function `http_parser_parse_url`; no result where it returns an error. -/
def parseUrl (strict : Bool) (buf : Bytes) : Option HttpParserUrl :=
  if buf = [] then none
  else
    (UrlLoop.run strict 0 buf {}).bind fun x =>
      if (x.u.fieldData .schema).isSome ∧ (x.u.fieldData .host).isNone then none
      else
        ((x.u.fieldData .host).elim (some x.u) fun data => parseHost strict buf data x.foundAt x.u).bind
          (parsePort buf)

end Apib.HttpParser
