/-
**URLs from strings.**

The method `URLInfo::init` on a new object. What a host name is looked up as is a function of the name;
a failed lookup gives no addresses. A `Status` other than OK is a code and a message.
-/

import Apib.HttpParser.Url
import Apib.Library.Numerals
import Apib.Net.Url

namespace Apib.Net

open HttpParser

/-- A `Status` other than OK, with the codes that the initialisation of URLs gives. -/
inductive Status
  | invalidUrl (msg : Bytes)
  | ioError (msg : Bytes)
  deriving DecidableEq, Repr

/-- The function `urlPart` for a field that is set; the empty string otherwise. -/
def urlPart (pu : HttpParserUrl) (urlstr : Bytes) (field : UrlField) : Bytes :=
  (pu.fieldData field).elim [] (·.part urlstr)

/-- Is the field in `field_set`? -/
def isSet (pu : HttpParserUrl) (field : UrlField) : Bool := (pu.fieldData field).isSome

section Init

variable (strict : Bool) (lookup : Bytes → List Address)

/-- The method `URLInfo::init` from where the scheme is known. -/
def initParts (isSsl : Bool) (pu : HttpParserUrl) (urlstr : Bytes) : URLInfo :=
  let hostName := urlPart pu urlstr .host
  let port := if isSet pu .port then pu.port else if isSsl then 443 else 80
  let pathOnly := if isSet pu .path then urlPart pu urlstr .path else ascii "/"
  let query := urlPart pu urlstr .query
  { port
    isSsl
    path := pathOnly ++ (if isSet pu .query then 63 :: query else []) ++
      (if isSet pu .fragment then 35 :: urlPart pu urlstr .fragment else [])
    pathOnly
    query
    hostName
    hostHeader :=
      if (isSsl ∧ port = 443) ∨ (¬isSsl ∧ port = 80) then hostName
      else hostName ++ 58 :: Numerals.decimal port.toNat
    addresses := lookup hostName }

/-- The method `URLInfo::init`. -/
def init (urlstr : Bytes) : Except Status URLInfo :=
  match parseUrl strict urlstr with
  | none => .error (.invalidUrl urlstr)
  | some pu =>
    if !isSet pu .schema || !isSet pu .host then .error (.invalidUrl urlstr)
    else if urlPart pu urlstr .schema = ascii "http" then .ok (initParts lookup false pu urlstr)
    else if urlPart pu urlstr .schema = ascii "https" then .ok (initParts lookup true pu urlstr)
    else .error (.invalidUrl (ascii "Invalid scheme"))

end Init

end Apib.Net
