/-
**URLs put together again.**

A URL that is initialised, put together from its scheme, the `Host` header and the request target, and
initialised from that string.

* `pieces_of_init`, `init_pieces`: **what the initialisation has read** when it gives a URL, and what it
  gives for a URL in pieces;
* `round_trip_iff`: **the second URL is the first one exactly when the text in brackets, if there is
  any, has no colon and no percent sign**. The brackets are not put back.
-/

import Apib.HttpParser.UrlNormal
import Apib.Net.Init

namespace Apib.Net

open HttpParser

/-- The scheme of a URL. -/
def schemeOf (isSsl : Bool) : Bytes := if isSsl then ascii "https" else ascii "http"

/-- The port of a scheme. -/
def defaultPort (isSsl : Bool) : UInt16 := if isSsl then 443 else 80

/-- The string of a scheme, `://`, the `Host` header and the request target. -/
def putTogether (u : URLInfo) : Bytes := schemeOf u.isSsl ++ 58 :: 47 :: 47 :: (u.hostHeader ++ u.path)

/-- Two URLs are equal but for their addresses. -/
structure SameURL (u v : URLInfo) : Prop where
  isSsl : v.isSsl = u.isSsl
  hostName : v.hostName = u.hostName
  port : v.port = u.port
  hostHeader : v.hostHeader = u.hostHeader
  pathOnly : v.pathOnly = u.pathOnly
  query : v.query = u.query
  path : v.path = u.path

section RoundTrip

variable {strict : Bool} {lookup : Bytes → List Address}

/-- **The string put together is accepted** and gives the same URL. -/
def RoundTrip (strict : Bool) (lookup : Bytes → List Address) (u : URLInfo) : Prop :=
  ∃ v, init strict lookup (putTogether u) = .ok v ∧ SameURL u v

/-! ### What the initialisation gives -/

/-- The host as the `Host` header has it. -/
def headerOf (isSsl : Bool) (host : Bytes) (port : UInt16) : Bytes :=
  if port = defaultPort isSsl then host else host ++ 58 :: Numerals.decimal port.toNat

/-- The URL of a host, a port and a tail. -/
def urlOf (lookup : Bytes → List Address) (isSsl : Bool) (host : Bytes) (port : UInt16) (t : Tail strict) :
    URLInfo :=
  { port
    isSsl
    path := t.normal.render
    pathOnly := t.normal.path
    query := t.queryText
    hostName := host
    hostHeader := headerOf isSsl host port
    addresses := lookup host }

/-- The port of an authority: what its digits are read as, or that of the scheme. -/
def HasPort (a : Authority strict) (isSsl : Bool) (port : UInt16) : Prop :=
  a.port.elim (port = defaultPort isSsl) fun digits => portLoop 0 digits = some port.toNat

theorem HasPort.unique {a : Authority strict} {isSsl : Bool} {first second : UInt16}
    (has_first : HasPort a isSsl first) (has_second : HasPort a isSsl second) : first = second := by
  rw [HasPort] at has_first has_second
  cases port : a.port with
  | none =>
    rw [port] at has_first has_second
    exact has_first.trans has_second.symm
  | some digits =>
    rw [port, Option.elim_some] at has_first has_second
    exact UInt16.toNat_inj.mp (Option.some.inj (has_first.symm.trans has_second))

theorem urlOf_normal (isSsl : Bool) (host : Bytes) (port : UInt16) (t : Tail strict) :
    urlOf lookup isSsl host port t.normal = urlOf lookup isSsl host port t := by
  rw [urlOf, urlOf, Tail.normal_normal_render, Tail.normal_normal_path, Tail.normal_queryText]

/-- The header is put together with the port unless it is that of the scheme. -/
theorem headerOf_eq (isSsl : Bool) (host : Bytes) (port : UInt16) :
    (if (isSsl ∧ port = 443) ∨ (¬isSsl ∧ port = 80) then host
      else host ++ 58 :: Numerals.decimal port.toNat) = headerOf isSsl host port := by
  rw [headerOf]
  cases isSsl
  · simp [defaultPort]
  · simp [defaultPort]

section Parts

variable {p : Pieces strict} (fits : p.FitsIn 65536) {a : Authority strict}
variable (of_authority : p.authority = a.render)
include fits of_authority

/-- **The parts of a result.** -/
theorem initParts_eq {pu : HttpParserUrl} (parsed : Parsed p a pu) (isSsl : Bool) :
    ∃ port, HasPort a isSsl port ∧
      initParts lookup isSsl pu p.render = urlOf lookup isSsl a.host port p.tail := by
  have host : urlPart pu p.render .host = a.host := by
    rw [urlPart, parsed.host]
    exact p.part_host fits a of_authority
  have path : urlPart pu p.render .path = p.tail.path := by
    rw [urlPart, parsed.path, p.part_path fits]
  have query : urlPart pu p.render .query = p.tail.queryText := by
    rw [urlPart, parsed.query, p.part_query fits]
  have fragment : urlPart pu p.render .fragment = p.tail.fragmentText := by
    rw [urlPart, parsed.fragment, p.part_fragment fits]
  have path_set : isSet pu .path = decide (p.tail.path ≠ []) := by
    rw [isSet, parsed.path, isSome_noted]
  have query_set : isSet pu .query = decide (p.tail.queryText ≠ []) := by
    rw [isSet, parsed.query, isSome_noted]
  have fragment_set : isSet pu .fragment = decide (p.tail.fragmentText ≠ []) := by
    rw [isSet, parsed.fragment, isSome_noted]
  refine ⟨if isSet pu .port then pu.port else defaultPort isSsl, ?_, ?_⟩
  · rw [HasPort, isSet, parsed.port]
    cases port : a.port with
    | none => rfl
    | some digits => exact parsed.number digits port
  · rw [initParts, urlOf, ← headerOf_eq, Tail.normal_render, Tail.normal_path]
    simp only [host, path, query, fragment, path_set, query_set, fragment_set, decide_eq_true_eq, ne_eq,
      ite_not, defaultPort]
    rfl

omit of_authority in
/-- The initialisation, once the string is parsed. -/
theorem init_parsed {pu : HttpParserUrl} (result : parseUrl strict p.render = some pu) (parsed : Parsed p a pu) :
    init strict lookup p.render =
      if p.scheme = ascii "http" then .ok (initParts lookup false pu p.render)
      else if p.scheme = ascii "https" then .ok (initParts lookup true pu p.render)
      else .error (.invalidUrl (ascii "Invalid scheme")) := by
  have scheme : urlPart pu p.render .schema = p.scheme := by
    rw [urlPart, parsed.schema]
    exact p.part_schema fits
  have both : (!isSet pu .schema || !isSet pu .host) = false := by
    rw [isSet, isSet, parsed.schema, parsed.host]
    rfl
  rw [init, result]
  simp only [both, Bool.false_eq_true, if_false, scheme]

/-- **What the initialisation gives** for a URL in pieces. -/
theorem init_pieces {isSsl : Bool} (scheme : p.scheme = schemeOf isSsl)
    (user : a.user.isSome = p.authority.contains 64) {port : UInt16} (has_port : HasPort a isSsl port) :
    init strict lookup p.render = .ok (urlOf lookup isSsl a.host port p.tail) := by
  have number : ∀ digits, a.port = some digits → (portLoop 0 digits).isSome := by
    intro digits given
    rw [HasPort, given, Option.elim_some] at has_port
    rw [has_port]
    rfl
  obtain ⟨pu, result, parsed⟩ := parseUrl_parsed p fits a of_authority user number
  obtain ⟨other, has_other, parts⟩ := @initParts_eq strict lookup p fits a of_authority pu parsed isSsl
  rw [init_parsed fits result parsed, scheme]
  rw [has_other.unique has_port] at parts
  cases isSsl
  · rw [schemeOf, if_neg Bool.false_ne_true, if_pos rfl, parts]
  · have other_scheme : ascii "https" ≠ ascii "http" := by decide
    rw [schemeOf, if_pos rfl, if_neg other_scheme, if_pos rfl, parts]

end Parts

/-- **What the initialisation has read** when it gives a URL. -/
theorem pieces_of_init {p : Pieces strict} (fits : p.FitsIn 65536) {u : URLInfo}
    (accepted : init strict lookup p.render = .ok u) :
    ∃ (a : Authority strict) (isSsl : Bool) (port : UInt16), p.authority = a.render ∧
      p.scheme = schemeOf isSsl ∧ HasPort a isSsl port ∧ u = urlOf lookup isSsl a.host port p.tail := by
  cases result : parseUrl strict p.render with
  | none =>
    rw [init, result] at accepted
    cases accepted
  | some pu =>
    obtain ⟨a, of_authority, parsed⟩ := parsed_of_parseUrl p fits result
    rw [init_parsed fits result parsed] at accepted
    by_cases plain : p.scheme = ascii "http"
    · obtain ⟨port, has_port, parts⟩ := @initParts_eq strict lookup p fits a of_authority pu parsed false
      rw [if_pos plain] at accepted
      exact ⟨a, false, port, of_authority, plain, has_port, (Except.ok.inj accepted).symm.trans parts⟩
    · rw [if_neg plain] at accepted
      by_cases tls : p.scheme = ascii "https"
      · obtain ⟨port, has_port, parts⟩ := @initParts_eq strict lookup p fits a of_authority pu parsed true
        rw [if_pos tls] at accepted
        exact ⟨a, true, port, of_authority, tls, has_port, (Except.ok.inj accepted).symm.trans parts⟩
      · rw [if_neg tls] at accepted
        cases accepted

/-- A string that is accepted is a URL in pieces. -/
theorem exists_pieces_of_init {s : Bytes} {u : URLInfo} (accepted : init strict lookup s = .ok u) :
    ∃ p : Pieces strict, s = p.render := by
  cases result : parseUrl strict s with
  | none =>
    rw [init, result] at accepted
    cases accepted
  | some pu =>
    have host : (pu.fieldData .host).isSome = true := by
      by_contra none_found
      have missing : isSet pu .host = false := by simpa [isSet] using none_found
      rw [init, result] at accepted
      simp [missing] at accepted
    rw [parseUrl] at result
    split at result
    · cases result
    · obtain ⟨y, ran, rest⟩ := Option.bind_eq_some_iff.mp result
      refine exists_pieces ran fun none_found => ?_
      split at rest
      · cases rest
      · rw [none_found, Option.elim_none, Option.bind_some] at rest
        rw [parsePort_fieldData rest, none_found] at host
        cases host

/-! ### The string put together -/

section Header

variable {isSsl : Bool} {port : UInt16}

theorem headerOf_ne_nil {host : Bytes} (some_char : host ≠ []) : headerOf isSsl host port ≠ [] := by
  rw [headerOf]
  split
  · exact some_char
  · exact List.append_ne_nil_of_right_ne_nil _ (List.cons_ne_nil _ _)

theorem headerOf_chars {host : Bytes} (ok : ∀ ch ∈ host, isUserinfoChar ch = true) :
    ∀ ch ∈ headerOf isSsl host port, isUserinfoChar ch = true := by
  have colon : isUserinfoChar 58 = true := by decide
  rw [headerOf]
  split
  · exact ok
  · exact List.forall_mem_append.mpr ⟨ok, List.forall_mem_cons.mpr ⟨colon, fun ch member =>
      num_userinfoChar ((decimal_isPort port.toNat).2 ch member)⟩⟩

variable {a : Authority strict}

/-- **The header is not longer** than the authority it comes from. -/
theorem headerOf_length (has_port : HasPort a isSsl port) :
    (headerOf isSsl a.host port).length ≤ a.render.length := by
  have host : a.host.length ≤ a.hostPart.length := by
    rw [Authority.hostPart]
    split
    · simp
      omega
    · exact Nat.le_refl _
  rw [headerOf, Authority.render, List.length_append, List.length_append]
  split
  · omega
  · next other =>
    cases given : a.port with
    | none =>
      rw [HasPort, given] at has_port
      exact absurd has_port other
    | some digits =>
      rw [HasPort, given, Option.elim_some] at has_port
      obtain ⟨some_digit, ok⟩ := a.port_ok digits given
      have shorter := decimal_length_le some_digit ok has_port
      rw [List.length_append, List.length_cons, Authority.portPart, given, Option.elim_some,
        List.length_cons]
      omega

/-- The header of a plain host is an authority. -/
theorem exists_plain {host : Bytes} (some_char : host ≠ []) (name : ∀ ch ∈ host, isHostChar strict ch = true)
    (isSsl : Bool) (port : UInt16) :
    ∃ b : Authority strict, headerOf isSsl host port = b.render ∧ b.user = none ∧ b.host = host ∧
      HasPort b isSsl port := by
  by_cases is_default : port = defaultPort isSsl
  · refine ⟨⟨none, false, host, none, by simp, fun _ => ⟨some_char, name⟩, by simp, by simp⟩, ?_, rfl, rfl,
      is_default⟩
    rw [headerOf, if_pos is_default]
    exact (List.append_nil host).symm
  · refine ⟨⟨none, false, host, some (Numerals.decimal port.toNat), by simp, fun _ => ⟨some_char, name⟩,
      by simp, ?_⟩, ?_, rfl, rfl, portLoop_decimal port⟩
    · rintro _ ⟨⟩
      exact decimal_isPort port.toNat
    · rw [headerOf, if_neg is_default]
      rfl

/-- **The host in a header has the characters of a name only** if the header is an authority. -/
theorem name_of_header (ok : ∀ ch ∈ headerOf isSsl a.host port, isUserinfoChar ch = true) {b : Authority strict}
    (same : headerOf isSsl a.host port = b.render) : ∀ ch ∈ b.host, isHostChar strict ch = true := by
  have unbracketed : b.bracketed = false := by
    by_contra bracketed
    have there : (91 : UInt8) ∈ b.render := by
      rw [Authority.render, Authority.hostPart, if_pos (by simpa using bracketed)]
      simp
    rw [← same] at there
    exact (userinfoChar_delimiters (ok 91 there)).2.2.2.1 rfl
  exact (b.name_ok unbracketed).2

end Header

/-- The string put together is a URL in pieces. -/
theorem putTogether_eq {p : Pieces strict} {a : Authority strict} {isSsl : Bool} {port : UInt16}
    (scheme : p.scheme = schemeOf isSsl) (some_char : headerOf isSsl a.host port ≠ [])
    (ok : ∀ ch ∈ headerOf isSsl a.host port, isUserinfoChar ch = true) :
    putTogether (urlOf lookup isSsl a.host port p.tail) =
      (p.normal (headerOf isSsl a.host port) some_char ok).render := by
  rw [putTogether, Pieces.render]
  show schemeOf isSsl ++ _ = p.scheme ++ _
  rw [scheme]
  rfl

/-- **The round trip of a URL in pieces**, whose fields fit. -/
theorem round_trip_pieces {p : Pieces strict} (fits : p.FitsIn 65535) {u : URLInfo}
    (accepted : init strict lookup p.render = .ok u) : RoundTrip strict lookup u ↔ Plain p.authority := by
  have fits_all : p.FitsIn 65536 := fits.mono (by decide)
  obtain ⟨a, isSsl, port, of_authority, scheme, has_port, rfl⟩ := pieces_of_init fits_all accepted
  have some_char : headerOf isSsl a.host port ≠ [] := headerOf_ne_nil a.host_ne_nil
  have ok : ∀ ch ∈ headerOf isSsl a.host port, isUserinfoChar ch = true := headerOf_chars a.host_chars
  have shorter : (headerOf isSsl a.host port).length ≤ p.authority.length := by
    rw [of_authority]
    exact headerOf_length has_port
  have fits_again := Pieces.normal_fits fits some_char ok shorter
  rw [of_authority, a.plain_iff, RoundTrip, putTogether_eq scheme some_char ok]
  constructor
  · rintro ⟨v, accepted_again, same⟩
    obtain ⟨b, _, _, of_header, -, -, v_eq⟩ := pieces_of_init fits_again accepted_again
    have host : b.host = a.host := by
      rw [v_eq] at same
      exact same.hostName
    rw [← host]
    exact name_of_header ok of_header
  · intro name
    obtain ⟨b, of_header, no_user, host, has_port_again⟩ := exists_plain a.host_ne_nil name isSsl port
    have no_at : b.user.isSome = (headerOf isSsl a.host port).contains 64 := by
      rw [no_user, Option.isSome_none, eq_comm, List.contains_eq_any_beq, List.any_eq_false]
      intro ch member
      simpa using (userinfoChar_delimiters (ok ch member)).2.2.1.symm
    have given := @init_pieces strict lookup _ fits_again b of_header isSsl scheme no_at port has_port_again
    refine ⟨_, given, ?_⟩
    have tail : (p.normal (headerOf isSsl a.host port) some_char ok).tail = p.tail.normal := rfl
    rw [tail, host, urlOf_normal]
    exact ⟨rfl, rfl, rfl, rfl, rfl, rfl, rfl⟩

end RoundTrip

end Apib.Net
