/-
**Signing requests.**

`apib_oauth.cc`: how strings are encoded and decoded, the base string that is signed, and the query
string and the header that carry the signature. A `char` is signed, the locale is C, and `StrSplit`
gives one empty piece for an empty string. `std::stoi` throws where it finds no digit; then there is no
result. HMAC-SHA1 with Base64 is a function of the key and the text.
-/

import Apib.Library.Numerals
import Apib.Net.Url

namespace Apib.OAuth

open Numerals

/-- An `OAuthInfo`. -/
structure OAuthInfo where
  consumerKey : Bytes := []
  consumerSecret : Bytes := []
  accessToken : Bytes := []
  tokenSecret : Bytes := []
  deriving DecidableEq, Repr

/-- A `Param`: a name and a value. -/
abbrev Param := Bytes × Bytes

/-! ### Encoding -/

/-- The function `isalnum`. -/
def isalnum (c : UInt8) : Bool := (48 ≤ c && c ≤ 57) || (65 ≤ c && c ≤ 90) || (97 ≤ c && c ≤ 122)

/-- A `char` as an `int`. -/
def charToInt (c : UInt8) : Int := if c < 128 then c.toNat else c.toNat - 256

/-- An `int` as `std::hex` and `std::uppercase` print it: 32 bits, two's complement, not padded. -/
def hexInt (n : Int) : Bytes := hexadecimal 8 (n % 4294967296).toNat

/-- One turn of the loop of `appendEncoded`. -/
def appendEncodedChar (c : UInt8) : Bytes :=
  if isalnum c || c == 45 || c == 46 || c == 95 || c == 126 then [c]
  else 37 :: hexInt (charToInt c)

/-- What the function `appendEncoded` appends; the function `reEncode`. -/
def appendEncoded (str : Bytes) : Bytes := str.flatMap appendEncodedChar

/-! ### Decoding -/

/-- The call `std::stoi(tmp, nullptr, 16)`. -/
def stoi16 (tmp : Bytes) : Option Int :=
  let (negative, digits) := scanSign ((tmp.takeWhile (· != 0)).dropWhile isspace)
  let body :=
    match digits with
    | 48 :: x :: d :: rest =>
      if tolower x = 120 ∧ (digitOf 16 d).isSome then d :: rest else digits
    | _ => digits
  let (value, count, _) := scanDigits 16 0 0 body
  if count = 0 then none else some (if negative then -(value : Int) else value)

/-- An `int` as a `char`. -/
def intToChar (n : Int) : UInt8 := UInt8.ofNat (n % 256).toNat

/-- The function `decode`. -/
def decode : Bytes → Option Bytes
  | [] => some []
  | [c] => if c = 37 then some [] else some [if c = 43 then 32 else c]
  | [c, d] =>
    if c = 37 then some []
    else (decode [d]).map ((if c = 43 then 32 else c) :: ·)
  | c :: x :: y :: rest =>
    if c = 37 then (stoi16 [x, y]).bind fun ch => (decode rest).map (intToChar ch :: ·)
    else (decode (x :: y :: rest)).map ((if c = 43 then 32 else c) :: ·)

/-- One turn of the loop of `readParams`. -/
def readParam (segment : Bytes) : Option Param :=
  match segment.splitOn 61 with
  | [] => none
  | [name] => (decode name).map (·, [])
  | name :: value :: _ => (decode name).bind fun name => (decode value).map (name, ·)

/-- What the function `readParams` appends. -/
def readParams (str : Bytes) : Option (List Param) := (str.splitOn 38).mapM readParam

/-! ### The base string -/

/-- The function `compareParam`. -/
def compareParam (p1 p2 : Param) : Bool :=
  if p1.1 < p2.1 then true
  else if p2.1 < p1.1 then false
  else p1.2 < p2.2

/-- The call of `std::sort` with `compareParam`. -/
def sortParams (params : List Param) : List Param := params.mergeSort fun p1 p2 => !compareParam p2 p1

/-- The loop that builds `finalParams`. -/
def finalParams : Bool → List Param → Bytes
  | _, [] => []
  | first, (name, value) :: rest =>
    (if first then [] else [38]) ++ name ++ 61 :: value ++ finalParams false rest

/-- The function `std::to_string`. -/
def toString (n : Int) : Bytes := if n < 0 then 45 :: decimal n.natAbs else decimal n.natAbs

/-- The parameters that `oauth_buildBaseString` adds to those of the request. -/
def oauthParams (timestamp : Int) (nonce : Bytes) (oauth : OAuthInfo) : List Param :=
  (if oauth.consumerKey = [] then [] else [(ascii "oauth_consumer_key", oauth.consumerKey)]) ++
    (if oauth.accessToken = [] then [] else [(ascii "oauth_token", oauth.accessToken)]) ++
    [(ascii "oauth_signature_method", ascii "HMAC-SHA1"), (ascii "oauth_nonce", nonce),
      (ascii "oauth_timestamp", toString timestamp)]

/-- The parameters that are signed. -/
def signedParams (url : URLInfo) (timestamp : Int) (nonce : Bytes) (sendData : Option Bytes)
    (oauth : OAuthInfo) : Option (List Param) :=
  (readParams url.query).bind fun query =>
    (sendData.elim (some []) readParams).map fun body =>
      query ++ body ++ oauthParams timestamp nonce oauth

/-- The normalized URL, before it is encoded. -/
def baseUrl (url : URLInfo) : Bytes :=
  (if url.isSsl then ascii "https" else ascii "http") ++ ascii "://" ++ url.hostHeader ++ url.pathOnly

/-- The function `oauth_buildBaseString`. -/
def buildBaseString (url : URLInfo) (method : Bytes) (timestamp : Int) (nonce : Bytes)
    (sendData : Option Bytes) (oauth : OAuthInfo) : Option Bytes :=
  (signedParams url timestamp nonce sendData oauth).map fun params =>
    let encoded := params.map fun param => (appendEncoded param.1, appendEncoded param.2)
    method ++ 38 :: appendEncoded (baseUrl url) ++
      38 :: appendEncoded (finalParams true (sortParams encoded))

/-! ### The signature and what carries it -/

section Signature

variable (hmac : Bytes → Bytes → Bytes)

/-- The function `oauth_generateHmac`, from the HMAC of a key and a text in Base64. -/
def generateHmac (base : Bytes) (oauth : OAuthInfo) : Bytes :=
  hmac (appendEncoded oauth.consumerSecret ++ 38 ::
    (if oauth.tokenSecret = [] then [] else oauth.tokenSecret)) base

/-- The function `makeNonce`, from the two numbers the generator gives. -/
def makeNonce (first second : Int) : Bytes := hexInt first ++ hexInt second

/-- The text that the function `oauth_MakeQueryString` writes. -/
def queryText (timestamp : Int) (nonce signature : Bytes) (oauth : OAuthInfo) : Bytes :=
  ascii "oauth_consumer_key=" ++ appendEncoded oauth.consumerKey ++
    (if oauth.accessToken = [] then []
      else ascii "&oauth_token=" ++ appendEncoded oauth.accessToken) ++
    ascii "&oauth_signature_method=HMAC-SHA1" ++
    ascii "&oauth_signature=" ++ appendEncoded signature ++
    ascii "&oauth_timestamp=" ++ toString timestamp ++ ascii "&oauth_nonce=" ++ nonce

/-- The function `oauth_MakeQueryString`, at a time and with the numbers the generator gives. -/
def makeQueryString (url : URLInfo) (method : Bytes) (timestamp first second : Int)
    (sendData : Option Bytes) (oauth : OAuthInfo) : Option Bytes :=
  let nonce := makeNonce first second
  (buildBaseString url method timestamp nonce sendData oauth).map fun base =>
    queryText timestamp nonce (generateHmac hmac base oauth) oauth

/-- The text that the function `oauth_MakeHeader` writes. -/
def headerText (realm : Bytes) (timestamp : Int) (nonce signature : Bytes) (oauth : OAuthInfo) : Bytes :=
  ascii "Authorization: OAuth realm=\"" ++ realm ++ ascii "\", oauth_consumer_key=\"" ++
    appendEncoded oauth.consumerKey ++
    (if oauth.accessToken = [] then []
      else ascii "\", oauth_token=\"" ++ appendEncoded oauth.accessToken) ++
    ascii "\", oauth_signature_method=\"HMAC-SHA1\", oauth_signature=\"" ++ appendEncoded signature ++
    ascii "\", oauth_timestamp=\"" ++ toString timestamp ++ ascii "\", oauth_nonce=\"" ++ nonce ++ [34]

/-- The function `oauth_MakeHeader`, at a time and with the numbers the generator gives. -/
def makeHeader (url : URLInfo) (realm method : Bytes) (timestamp first second : Int)
    (sendData : Option Bytes) (oauth : OAuthInfo) : Option Bytes :=
  let nonce := makeNonce first second
  (buildBaseString url method timestamp nonce sendData oauth).map fun base =>
    headerText realm timestamp nonce (generateHmac hmac base oauth) oauth

end Signature

end Apib.OAuth
