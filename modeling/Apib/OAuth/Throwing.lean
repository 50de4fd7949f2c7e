/-
**Signing that throws.**

The query of a URL may have any bytes behind a percent sign, and so may a form body. Where `std::stoi`
throws on them, nothing between `decode` and the thread's loop catches it.

* `signing_isSome`: a request is signed exactly if every name and every value is decoded;
* `decoding_iff`: **when decoding and signing return**, and that well-formed escapes are decoded exactly;
* `percent_thrown`: a URL that is accepted and cannot be signed.
-/

import Apib.Net.Init
import Apib.OAuth.Escapes
import Apib.OAuth.Signing

namespace Apib.OAuth

open Numerals PercentEncoding

/-- **A request is signed** exactly if every name and every value of its query and body is decoded. -/
theorem signing_isSome (url : URLInfo) (method : Bytes) (timestamp : Int) (nonce : Bytes)
    (sendData : Option Bytes) (oauth : OAuthInfo) :
    (buildBaseString url method timestamp nonce sendData oauth).isSome ↔
      ∀ segment ∈ formFields url sendData, Parses segment := by
  rw [buildBaseString_eq, Option.isSome_map, Traverse.mapM_isSome_iff]
  exact forall₂_congr fun segment _ => readParam_isSome segment

/-- **Decoding**: when it returns, when a request is signed, and that `decode` is form decoding where two
hexadecimal digits follow every percent sign. -/
theorem decoding_iff (text str : Bytes) (url : URLInfo) (method : Bytes) (timestamp : Int)
    (nonce : Bytes) (sendData : Option Bytes) (oauth : OAuthInfo) :
    ((decode text).isSome ↔ Decodes text) ∧
      ((readParams str).isSome ↔ ∀ segment ∈ str.splitOn 38, Parses segment) ∧
      ((buildBaseString url method timestamp nonce sendData oauth).isSome ↔
        ∀ segment ∈ formFields url sendData, Parses segment) ∧
      (WellEscaped text → decode text = some (formDecode text)) :=
  ⟨decode_isSome text, readParams_isSome str,
    signing_isSome url method timestamp nonce sendData oauth, decode_wellEscaped⟩

/-- The URL `http://localhost/?a=%zz`. -/
def brokenUrl : URLInfo :=
  { path := ascii "/?a=%zz", pathOnly := ascii "/", query := ascii "a=%zz", hostName := ascii "localhost",
    hostHeader := ascii "localhost", addresses := [.inet 0 2130706433] }

/-- An escape at the very end, decoded. -/
theorem decoding_example : decode (ascii "a+b%3D") = some (ascii "a b=") := by
  have exact := (decoding_iff (ascii "a+b%3D") [] brokenUrl [] 0 [] none {}).2.2.2
    ⟨by decide +kernel, trivial⟩
  rw [exact]
  decide +kernel

/-- This URL is accepted, and its requests cannot be signed. -/
theorem percent_thrown :
    Net.init false (fun _ => [.inet 0 2130706433]) (ascii "http://localhost/?a=%zz") = .ok brokenUrl ∧
      decode (ascii "%zz") = none ∧ readParams brokenUrl.query = none ∧
      buildBaseString brokenUrl (ascii "GET") 137131200 (ascii "7D8F3E4A") none {} = none := by
  have query : readParams brokenUrl.query = none := by decide +kernel
  refine ⟨by rfl, by decide +kernel, query, ?_⟩
  rw [buildBaseString, signedParams, query]
  rfl

end Apib.OAuth
