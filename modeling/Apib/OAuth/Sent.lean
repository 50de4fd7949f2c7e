/-
**What is signed and what is sent.**

A verifier reads the parameters of OAuth from the Authorization line or from the query string, decodes
them and leaves out the realm and the signature. What it reads is compared with the parameters that were
signed.

* `decode_below`: an encoded string decoded and percent-encoded weighs no more than the string
  percent-encoded, and as much only if every byte is encodable.
* `sent_queryText`, `sent_headerText`: **both texts carry the same parameters**.
* `sent_iff`: they are the signed ones exactly when the consumer key is not empty and every byte of the
  keys is encodable.
-/

import Mathlib.Data.List.Induction
import Apib.OAuth.Signing

namespace Apib.OAuth

open Numerals PercentEncoding

/-! ### What a verifier reads -/

/-- A name and a value decoded. -/
def decodeParam (param : Param) : Param := (PercentEncoding.decode param.1, PercentEncoding.decode param.2)

/-- The parameters of a query string. -/
def queryParams (query : Bytes) : List Param := (fields query).map decodeParam

/-- Names and quoted values in turn; a name is what stands between a comma and white space and an `=`. -/
def quotedPairs : List Bytes → List Param
  | name :: value :: rest =>
    ((name.dropWhile fun c => c == 44 || c == 32).takeWhile (· != 61), value) :: quotedPairs rest
  | _ => []

/-- What an Authorization line of OAuth starts with. -/
def authScheme : Bytes := ascii "Authorization: OAuth "

/-- The parameters of an Authorization line. -/
def headerParams (line : Bytes) : List Param :=
  if authScheme <+: line then
    (quotedPairs ((line.drop authScheme.length).splitOn 34)).map decodeParam
  else []

/-- The parameters of OAuth but the signature. -/
def verified (params : List Param) : List Param :=
  params.filter fun param => decide (ascii "oauth_" <+: param.1) && param.1 != ascii "oauth_signature"

/-- The keys that are sent as they are signed. -/
structure Sendable (oauth : OAuthInfo) : Prop where
  some_key : oauth.consumerKey ≠ []
  keys : ∀ c ∈ oauth.consumerKey ++ oauth.accessToken, Encodable c

/-! ### Encoded keys decoded -/

/-- The weight of a character of a decoded string. -/
def light (c : UInt8) : Int := if c = 37 then 2 else if c = 48 then 1 else if c = 70 then -1 else 0

/-- What an encoded string is decoded to. -/
def carried (text : Bytes) : Bytes := PercentEncoding.decode (appendEncoded text)

theorem carried_encodable {text : Bytes} (all : ∀ c ∈ text, Encodable c) : carried text = text := by
  rw [carried, appendEncoded_eq all, decode_encode]

/-- What an encoded string is decoded to weighs no more than the string, and as much only if every byte
is encodable. -/
def Below (text : Bytes) : Prop :=
  total light (encode (carried text)) ≤ total light (encode text) ∧
    (total light (encode (carried text)) = total light (encode text) → ∀ c ∈ text, Encodable c)

theorem carried_cons (c : UInt8) (text : Bytes) :
    carried (c :: text) = PercentEncoding.decode (appendEncodedChar c ++ appendEncoded text) := rfl

/-- A byte that is encoded as it is to be. -/
theorem below_encodable {c : UInt8} {text : Bytes} (encodable : Encodable c) (below : Below text) :
    Below (c :: text) := by
  have here : carried (c :: text) = c :: carried text := by
    rw [carried_cons, appendEncodedChar_eq c encodable, decode_encodeByte]
    rfl
  obtain ⟨less, exact_below⟩ := below
  refine ⟨?_, fun same => ?_⟩
  · rw [here, total_encode, total_encode]
    omega
  · rw [here, total_encode, total_encode] at same
    exact List.forall_mem_cons.mpr ⟨encodable, exact_below (by omega)⟩

theorem below_of_lt {text : Bytes} (less : total light (encode (carried text)) < total light (encode text)) :
    Below text := ⟨Int.le_of_lt less, fun same => absurd same (Int.ne_of_lt less)⟩

/-- What is encoded of a byte, tried on every byte. -/
theorem chars_checked (c : UInt8) :
    (128 ≤ c → appendEncodedChar c = 37 :: 70 :: 70 :: (appendEncodedChar c).drop 3 ∧
        37 ∉ (appendEncodedChar c).drop 3 ∧
          total light (encode (255 :: (appendEncodedChar c).drop 3)) < total light (encodeByte c)) ∧
      (c < 16 → appendEncodedChar c = [37, digitChar c.toNat] ∧ digitChar c.toNat ≠ 37 ∧
        total light (encode [37, digitChar c.toNat]) < total light (encodeByte c)) ∧
      (digitOf 16 c = none →
        ((appendEncodedChar c).head?.any fun first => decide (digitOf 16 first = none)) = true) ∧
      (Encodable c ∨ 128 ≤ c ∨ c < 16) := by
  revert c
  exact forall_byte (by decide +kernel)

/-- A negative `char` has eight digits; the first two are read as an escape, and six are left. -/
theorem negative_byte (c : UInt8) : 128 ≤ c →
    appendEncodedChar c = 37 :: 70 :: 70 :: (appendEncodedChar c).drop 3 ∧
      37 ∉ (appendEncodedChar c).drop 3 ∧
        total light (encode (255 :: (appendEncodedChar c).drop 3)) < total light (encodeByte c) :=
  (chars_checked c).1

theorem below_negative {c : UInt8} {text : Bytes} (negative : 128 ≤ c) (below : Below text) :
    Below (c :: text) := by
  obtain ⟨escape, free, less⟩ := negative_byte c negative
  have here : carried (c :: text) = 255 :: (appendEncodedChar c).drop 3 ++ carried text := by
    rw [carried_cons, escape]
    show PercentEncoding.decode (37 :: 70 :: 70 :: ((appendEncodedChar c).drop 3 ++ appendEncoded text)) = _
    have pair : hexPair 70 70 = some 255 := by decide
    rw [decode_escape pair, decode_append_free free]
    rfl
  refine below_of_lt ?_
  rw [here, encode_append, total_append, total_encode light c]
  have rest := below.1
  omega

/-- A small byte has one digit. -/
theorem small_byte (c : UInt8) : c < 16 →
    appendEncodedChar c = [37, digitChar c.toNat] ∧ digitChar c.toNat ≠ 37 ∧
      total light (encode [37, digitChar c.toNat]) < total light (encodeByte c) :=
  (chars_checked c).2.1

/-- The one digit and a digit behind it are read as another byte. -/
theorem small_pair {c d : UInt8} (small : c < 16) (digit : (digitOf 16 d).isSome) :
    ∃ byte, hexPair (digitChar c.toNat) d = some byte ∧
      total light (encodeByte byte) < total light (encodeByte c) + total light (encodeByte d) := by
  have each : ∀ n < 16, ∀ d ∈ hexDigits, ∃ byte, hexPair (digitChar n) d = some byte ∧
      total light (encodeByte byte) < total light (encodeByte (UInt8.ofNat n)) + total light (encodeByte d) := by
    have found : ∀ n < 16, (hexDigits.all fun d => (hexPair (digitChar n) d).any fun byte =>
        decide (total light (encodeByte byte) <
          total light (encodeByte (UInt8.ofNat n)) + total light (encodeByte d))) = true := by
      decide +kernel
    intro n below d member
    simpa [Option.any_eq_true] using List.all_eq_true.mp (found n below) d member
  have here := each c.toNat (UInt8.lt_iff_toNat_lt.mp small) d (mem_hexDigits d digit)
  rwa [UInt8.ofNat_toNat] at here

/-- What is encoded of a byte that is no digit does not begin with a digit. -/
theorem other_front (d : UInt8) : digitOf 16 d = none →
    ∃ first rest, appendEncodedChar d = first :: rest ∧ digitOf 16 first = none := by
  intro no_digit
  obtain ⟨first, front, here⟩ := (Option.any_eq_true _ _).mp ((chars_checked d).2.2.1 no_digit)
  obtain ⟨rest, text⟩ := List.head?_eq_some_iff.mp front
  exact ⟨first, rest, text, by simpa using here⟩

theorem below_small_last {c : UInt8} (small : c < 16) : Below [c] := by
  obtain ⟨escape, -, less⟩ := small_byte c small
  have here : carried [c] = [37, digitChar c.toNat] := by
    rw [carried_cons, escape]
    rfl
  refine below_of_lt ?_
  rw [here, total_encode light c]
  have nothing : total light (encode []) = 0 := rfl
  omega

theorem below_small {c d : UInt8} {text : Bytes} (small : c < 16) (rest : Below text)
    (below : Below (d :: text)) : Below (c :: d :: text) := by
  obtain ⟨escape, no_percent, less⟩ := small_byte c small
  cases digit : digitOf 16 d with
  | some low =>
    have some_digit : (digitOf 16 d).isSome := by simp [digit]
    obtain ⟨byte, pair, lighter⟩ := small_pair small some_digit
    obtain ⟨-, -, -, -, -, -, alone, -⟩ := hexDigit_front some_digit
    have here : carried (c :: d :: text) = byte :: carried text := by
      rw [carried_cons, escape, appendEncoded, List.flatMap_cons, alone, ← appendEncoded]
      exact decode_escape pair _
    have later := rest.1
    refine below_of_lt ?_
    rw [here, total_encode, total_encode, total_encode]
    omega
  | none =>
    obtain ⟨first, more, front, no_digit⟩ := other_front d digit
    have here : carried (c :: d :: text) = [37, digitChar c.toNat] ++ carried (d :: text) := by
      rw [carried_cons, escape, carried, appendEncoded, List.flatMap_cons, front]
      show PercentEncoding.decode (37 :: digitChar c.toNat :: first :: (more ++ _)) = _
      rw [decode_literal (hexPair_none (.inr no_digit)), PercentEncoding.decode_cons no_percent]
      rfl
    have later := below.1
    refine below_of_lt ?_
    rw [here, encode_append, total_append, total_encode light c]
    omega

/-- **An encoded string decoded weighs no more than the string.** -/
theorem decode_below (text : Bytes) : Below text := by
  have byte_cases (c : UInt8) : Encodable c ∨ 128 ≤ c ∨ c < 16 := (chars_checked c).2.2.2
  induction text using List.twoStepInduction with
  | nil => exact ⟨Int.le_refl _, fun _ c member => by cases member⟩
  | singleton c =>
    have nothing : Below [] := ⟨Int.le_refl _, fun _ c member => by cases member⟩
    rcases byte_cases c with encodable | negative | small
    · exact below_encodable encodable nothing
    · exact below_negative negative nothing
    · exact below_small_last small
  | cons_cons c d text rest ih =>
    rcases byte_cases c with encodable | negative | small
    · exact below_encodable encodable (ih d)
    · exact below_negative negative (ih d)
    · exact below_small small rest (ih d)

theorem carried_iff {text : Bytes} : carried text = text ↔ ∀ c ∈ text, Encodable c :=
  ⟨fun same => (decode_below text).2 (by rw [same]), carried_encodable⟩

/-! ### What is written -/

section Written

variable (timestamp : Int) (nonce signature : Bytes) (oauth : OAuthInfo)

/-- The parameters as they are written, in the header and in the query string. -/
def writtenParams : List Param :=
  (ascii "oauth_consumer_key", appendEncoded oauth.consumerKey) ::
    ((if oauth.accessToken = [] then [] else [(ascii "oauth_token", appendEncoded oauth.accessToken)]) ++
      [(ascii "oauth_signature_method", ascii "HMAC-SHA1"),
        (ascii "oauth_signature", appendEncoded signature),
        (ascii "oauth_timestamp", toString timestamp), (ascii "oauth_nonce", nonce)])

/-- The parameters that a verifier reads. -/
def sentParams : List Param :=
  (ascii "oauth_consumer_key", carried oauth.consumerKey) ::
    ((if oauth.accessToken = [] then [] else [(ascii "oauth_token", carried oauth.accessToken)]) ++
      [(ascii "oauth_signature_method", ascii "HMAC-SHA1"),
        (ascii "oauth_timestamp", toString timestamp), (ascii "oauth_nonce", nonce)])

variable {nonce}

theorem writtenParams_plain (kept : ∀ c ∈ nonce, unreserved c = true) :
    ∀ param ∈ writtenParams timestamp nonce signature oauth, PlainParam param := by
  have names : ∀ c ∈ ascii "oauth_consumer_key" ++ ascii "oauth_token" ++
      ascii "oauth_signature_method" ++ ascii "HMAC-SHA1" ++ ascii "oauth_signature" ++
      ascii "oauth_timestamp" ++ ascii "oauth_nonce", plain c = true :=
    List.all_eq_true.mp (by decide)
  simp only [List.forall_mem_append] at names
  obtain ⟨⟨⟨⟨⟨⟨key, token⟩, method⟩, sha⟩, sign⟩, time⟩, once⟩ := names
  have time_value : ∀ c ∈ toString timestamp, plain c = true := fun c member =>
    plain_of_unreserved (toString_unreserved timestamp c member)
  have once_value : ∀ c ∈ nonce, plain c = true := fun c member => plain_of_unreserved (kept c member)
  have both {name value : Bytes} (first : ∀ c ∈ name, plain c = true) (second : ∀ c ∈ value, plain c = true) :
      PlainParam (name, value) := List.forall_mem_append.mpr ⟨first, second⟩
  have token_param : ∀ param ∈ (if oauth.accessToken = [] then []
      else [(ascii "oauth_token", appendEncoded oauth.accessToken)] : List Param), PlainParam param := by
    split
    · intro param member
      cases member
    · exact List.forall_mem_singleton.mpr (both token (appendEncoded_plain _))
  refine List.forall_mem_cons.mpr ⟨both key (appendEncoded_plain _), ?_⟩
  refine List.forall_mem_append.mpr ⟨token_param, ?_⟩
  simp only [List.forall_mem_cons]
  exact ⟨both method sha, both sign (appendEncoded_plain _), both time time_value, both once once_value,
    by simp⟩

end Written

/-- A parameter with a name of OAuth is kept. -/
theorem verified_cons {name value : Bytes} (named : ascii "oauth_" <+: name ∧ name ≠ ascii "oauth_signature")
    (params : List Param) : verified ((name, value) :: params) = (name, value) :: verified params := by
  refine List.filter_cons_of_pos ?_
  rw [Bool.and_eq_true, decide_eq_true_iff, bne_iff_ne]
  exact named

theorem verified_other {name value : Bytes} (other : ¬ ascii "oauth_" <+: name ∨ name = ascii "oauth_signature")
    (params : List Param) : verified ((name, value) :: params) = verified params := by
  refine List.filter_cons_of_neg ?_
  rw [Bool.and_eq_true, decide_eq_true_iff, bne_iff_ne]
  rintro ⟨named, no_signature⟩
  exact other.elim (absurd named) no_signature

/-- **What a verifier reads of the written parameters.** -/
theorem verified_writtenParams (timestamp : Int) {nonce : Bytes} (signature : Bytes) (oauth : OAuthInfo)
    (kept : ∀ c ∈ nonce, unreserved c = true) :
    verified ((writtenParams timestamp nonce signature oauth).map decodeParam) =
      sentParams timestamp nonce oauth := by
  have free {text : Bytes} (kept : ∀ c ∈ text, unreserved c = true) : PercentEncoding.decode text = text := by
    refine decode_free fun member => ?_
    cases kept 37 member
  have time := free (toString_unreserved timestamp)
  have once := free kept
  have names : ∀ name ∈ [ascii "oauth_consumer_key", ascii "oauth_token", ascii "oauth_signature_method",
      ascii "HMAC-SHA1", ascii "oauth_signature", ascii "oauth_timestamp", ascii "oauth_nonce"],
      PercentEncoding.decode name = name := by decide
  simp only [List.forall_mem_cons] at names
  obtain ⟨key_name, token_name, method_name, sha, sign_name, time_name, once_name, -⟩ := names
  have others : verified ([(ascii "oauth_signature_method", ascii "HMAC-SHA1"),
      (ascii "oauth_signature", appendEncoded signature), (ascii "oauth_timestamp", toString timestamp),
      (ascii "oauth_nonce", nonce)].map decodeParam) = [(ascii "oauth_signature_method", ascii "HMAC-SHA1"),
        (ascii "oauth_timestamp", toString timestamp), (ascii "oauth_nonce", nonce)] := by
    simp only [List.map_cons, List.map_nil, decodeParam, method_name, sha, sign_name, time_name, time,
      once_name, once]
    rw [verified_cons (by decide), verified_other (by decide), verified_cons (by decide),
      verified_cons (by decide)]
    rfl
  rw [writtenParams, sentParams, List.map_cons, List.map_append, decodeParam, key_name,
    verified_cons (by decide), ← carried]
  by_cases empty : oauth.accessToken = []
  · rw [if_pos empty, if_pos empty, List.map_nil, List.nil_append, List.nil_append, others]
  · rw [if_neg empty, if_neg empty, List.map_singleton, List.singleton_append, List.singleton_append,
      decodeParam, token_name, verified_cons (by decide), ← carried, others]

/-! ### Reading the query string -/

theorem queryText_eq (timestamp : Int) (nonce signature : Bytes) (oauth : OAuthInfo) :
    queryText timestamp nonce signature oauth = joinFields (writtenParams timestamp nonce signature oauth) := by
  have key : ascii "oauth_consumer_key=" = ascii "oauth_consumer_key" ++ [61] := rfl
  have token : ascii "&oauth_token=" = 38 :: ascii "oauth_token" ++ [61] := rfl
  have method : ascii "&oauth_signature_method=HMAC-SHA1" =
    38 :: ascii "oauth_signature_method" ++ 61 :: ascii "HMAC-SHA1" := rfl
  have sign : ascii "&oauth_signature=" = 38 :: ascii "oauth_signature" ++ [61] := rfl
  have time : ascii "&oauth_timestamp=" = 38 :: ascii "oauth_timestamp" ++ [61] := rfl
  have once : ascii "&oauth_nonce=" = 38 :: ascii "oauth_nonce" ++ [61] := rfl
  rw [queryText, writtenParams, joinFields_cons, key, token, method, sign, time, once]
  by_cases empty : oauth.accessToken = []
  · simp [empty, field]
  · simp [empty, field]

theorem sent_queryText (timestamp : Int) {nonce : Bytes} (signature : Bytes) (oauth : OAuthInfo)
    (kept : ∀ c ∈ nonce, unreserved c = true) :
    verified (queryParams (queryText timestamp nonce signature oauth)) = sentParams timestamp nonce oauth := by
  have all := writtenParams_plain timestamp signature oauth kept
  rw [queryParams, queryText_eq, fields_joinFields_plain all, verified_writtenParams _ _ _ kept]

/-! ### Reading the Authorization line -/

/-- Parameters as they are written in a header. -/
def quoteFields (params : List Param) : Bytes :=
  params.flatMap fun param => ascii ", " ++ param.1 ++ ascii "=\"" ++ param.2 ++ [34]

/-- One name and one quoted value. -/
theorem quotedPairs_cons {name value : Bytes} (name_free : 34 ∉ name) (value_free : 34 ∉ value) (rest : Bytes) :
    quotedPairs ((name ++ 34 :: (value ++ 34 :: rest)).splitOn 34) =
      ((name.dropWhile fun c => c == 44 || c == 32).takeWhile (· != 61), value) ::
        quotedPairs (rest.splitOn 34) := by
  rw [List.splitOn_append_cons_self_of_not_mem name_free,
    List.splitOn_append_cons_self_of_not_mem value_free, quotedPairs]

/-- A name behind a comma and a space and before an `=`. -/
theorem trim_name {name : Bytes} (all : ∀ c ∈ name, plain c = true) :
    ((ascii ", " ++ name ++ [61]).dropWhile fun c => c == 44 || c == 32).takeWhile (· != 61) = name := by
  have no_equals : ∀ c ∈ name, (c != 61) = true := by
    intro c member
    rw [bne_iff_ne]
    rintro rfl
    exact notMem_of_plain all (by decide) member
  have front : (ascii ", " ++ name ++ [61]).dropWhile (fun c => c == 44 || c == 32) = name ++ [61] := by
    have separators : ascii ", " = [44, 32] := rfl
    cases name with
    | nil => rfl
    | cons c name =>
      have no_comma : c ≠ 44 := by
        rintro rfl
        cases all 44 (by simp)
      have no_space : c ≠ 32 := by
        rintro rfl
        cases all 32 (by simp)
      simp [separators, no_comma, no_space]
  rw [front, List.takeWhile_append_of_pos no_equals]
  simp

theorem quotedPairs_quoteFields {params : List Param} (all : ∀ param ∈ params, PlainParam param) :
    quotedPairs ((quoteFields params).splitOn 34) = params := by
  induction params with
  | nil => rfl
  | cons param params ih =>
    obtain ⟨name, value⟩ := param
    obtain ⟨first, later⟩ := List.forall_mem_cons.mp all
    obtain ⟨names, values⟩ := List.forall_mem_append.mp first
    have opened : quoteFields ((name, value) :: params) =
        (ascii ", " ++ name ++ [61]) ++ 34 :: (value ++ 34 :: quoteFields params) := by
      have sign : ascii "=\"" = [61, 34] := rfl
      simp [quoteFields, sign]
    have name_free : 34 ∉ ascii ", " ++ name ++ [61] := by
      have separators : 34 ∉ ascii ", " := by decide
      have no_quote : 34 ∉ name := notMem_of_plain names (by decide)
      simp [separators, no_quote]
    rw [opened, quotedPairs_cons name_free (notMem_of_plain values (by decide)), trim_name names, ih later]

theorem headerText_eq (realm : Bytes) (timestamp : Int) (nonce signature : Bytes) (oauth : OAuthInfo) :
    headerText realm timestamp nonce signature oauth =
      authScheme ++ (ascii "realm=" ++ 34 :: (realm ++ 34 ::
        quoteFields (writtenParams timestamp nonce signature oauth))) := by
  have front : ascii "Authorization: OAuth realm=\"" = authScheme ++ ascii "realm=" ++ [34] := rfl
  have key : ascii "\", oauth_consumer_key=\"" =
    34 :: ascii ", " ++ ascii "oauth_consumer_key" ++ ascii "=\"" := rfl
  have token : ascii "\", oauth_token=\"" = 34 :: ascii ", " ++ ascii "oauth_token" ++ ascii "=\"" := rfl
  have method : ascii "\", oauth_signature_method=\"HMAC-SHA1\", oauth_signature=\"" =
    34 :: ascii ", " ++ ascii "oauth_signature_method" ++ ascii "=\"" ++ ascii "HMAC-SHA1" ++
      34 :: ascii ", " ++ ascii "oauth_signature" ++ ascii "=\"" := rfl
  have time : ascii "\", oauth_timestamp=\"" =
    34 :: ascii ", " ++ ascii "oauth_timestamp" ++ ascii "=\"" := rfl
  have once : ascii "\", oauth_nonce=\"" = 34 :: ascii ", " ++ ascii "oauth_nonce" ++ ascii "=\"" := rfl
  rw [headerText, writtenParams, front, key, token, method, time, once]
  by_cases empty : oauth.accessToken = []
  · simp [empty, quoteFields]
  · simp [empty, quoteFields]

theorem sent_headerText {realm : Bytes} (quotable : 34 ∉ realm) (timestamp : Int) {nonce : Bytes}
    (signature : Bytes) (oauth : OAuthInfo) (kept : ∀ c ∈ nonce, unreserved c = true) :
    verified (headerParams (headerText realm timestamp nonce signature oauth)) =
      sentParams timestamp nonce oauth := by
  have all := writtenParams_plain timestamp signature oauth kept
  have name : PercentEncoding.decode (((ascii "realm=").dropWhile fun c => c == 44 || c == 32).takeWhile
      (· != 61)) = ascii "realm" := by decide
  rw [headerText_eq, headerParams, if_pos (List.prefix_append _ _), List.drop_left,
    quotedPairs_cons (by decide) quotable, quotedPairs_quoteFields all, List.map_cons, decodeParam, name,
    verified_other (.inl (by decide)), verified_writtenParams _ _ _ kept]

/-! ### What is sent against what is signed -/

theorem makeNonce_unreserved (first second : Int) : ∀ c ∈ makeNonce first second, unreserved c = true := by
  have digit (n : Nat) : n < 16 → unreserved (digitChar n) = true := by
    have each : ∀ n < 16, unreserved (digitChar n) = true := by decide
    exact each n
  have printed (digits n : Nat) : ∀ c ∈ hexadecimal digits n, unreserved c = true := by
    induction digits generalizing n with
    | zero =>
      intro c member
      cases member
    | succ digits ih =>
      unfold hexadecimal
      split
      · next small => exact List.forall_mem_singleton.mpr (digit n small)
      · exact List.forall_mem_append.mpr
          ⟨ih (n / 16), List.forall_mem_singleton.mpr (digit (n % 16) (Nat.mod_lt n (by decide)))⟩
  exact List.forall_mem_append.mpr ⟨printed 8 _, printed 8 _⟩

section Agreement

variable {timestamp : Int} {nonce : Bytes} {oauth : OAuthInfo}

theorem sentParams_of_sendable (sendable : Sendable oauth) :
    (sentParams timestamp nonce oauth).Perm (oauthParams timestamp nonce oauth) := by
  obtain ⟨key, token⟩ := List.forall_mem_append.mp sendable.keys
  rw [sentParams, oauthParams, carried_encodable key, carried_encodable token, if_neg sendable.some_key,
    List.append_assoc, List.singleton_append]
  exact .cons _ (.append_left _ (.cons _ (.swap _ _ _)))

/-- The signed parameters with the names of the keys. -/
theorem mem_oauthParams {name value : Bytes} (member : (name, value) ∈ oauthParams timestamp nonce oauth) :
    (name = ascii "oauth_consumer_key" → value = oauth.consumerKey) ∧
      (name = ascii "oauth_token" → value = oauth.accessToken) := by
  have optional {key text : Bytes} (here : (name, value) ∈ (if text = [] then [] else [(key, text)] : List Param)) :
      name = key ∧ value = text := by
    split at here
    · cases here
    · simpa using here
  rw [oauthParams, List.mem_append, List.mem_append] at member
  rcases member with (here | here) | here
  · obtain ⟨rfl, rfl⟩ := optional here
    exact ⟨fun _ => rfl, fun same => absurd same (by decide)⟩
  · obtain ⟨rfl, rfl⟩ := optional here
    exact ⟨fun same => absurd same (by decide), fun _ => rfl⟩
  · simp only [List.mem_cons, List.not_mem_nil, Prod.mk.injEq, or_false] at here
    rcases here with ⟨rfl, -⟩ | ⟨rfl, -⟩ | ⟨rfl, -⟩ <;>
      exact ⟨fun same => absurd same (by decide), fun same => absurd same (by decide)⟩

theorem sendable_of_sentParams
    (same : (sentParams timestamp nonce oauth).Perm (oauthParams timestamp nonce oauth)) : Sendable oauth := by
  have some_key : oauth.consumerKey ≠ [] := by
    intro empty
    have lengths := same.length_eq
    by_cases no_token : oauth.accessToken = []
    · simp [sentParams, oauthParams, empty, no_token] at lengths
    · simp [sentParams, oauthParams, empty, no_token] at lengths
  have key : ∀ c ∈ oauth.consumerKey, Encodable c :=
    carried_iff.mp ((mem_oauthParams (same.mem_iff.mp List.mem_cons_self)).1 rfl)
  have token : ∀ c ∈ oauth.accessToken, Encodable c := by
    by_cases empty : oauth.accessToken = []
    · intro c member
      rw [empty] at member
      cases member
    · have written : (ascii "oauth_token", carried oauth.accessToken) ∈ sentParams timestamp nonce oauth := by
        simp [sentParams, empty]
      exact carried_iff.mp ((mem_oauthParams (same.mem_iff.mp written)).2 rfl)
  exact ⟨some_key, List.forall_mem_append.mpr ⟨key, token⟩⟩

theorem sentParams_iff :
    (sentParams timestamp nonce oauth).Perm (oauthParams timestamp nonce oauth) ↔ Sendable oauth :=
  ⟨sendable_of_sentParams, sentParams_of_sendable⟩

end Agreement

/-- **What is sent is what was signed** exactly for the sendable keys, in the Authorization line and in
the query string, whatever the realm is that a header can quote. -/
theorem sent_iff (hmac : Bytes → Bytes → Bytes) (url : URLInfo) {realm : Bytes} (quotable : 34 ∉ realm)
    (method : Bytes) (timestamp first second : Int) (sendData : Option Bytes) (oauth : OAuthInfo)
    {line query : Bytes}
    (header : makeHeader hmac url realm method timestamp first second sendData oauth = some line)
    (text : makeQueryString hmac url method timestamp first second sendData oauth = some query) :
    ((verified (headerParams line)).Perm (oauthParams timestamp (makeNonce first second) oauth) ↔
        Sendable oauth) ∧
      ((verified (queryParams query)).Perm (oauthParams timestamp (makeNonce first second) oauth) ↔
        Sendable oauth) := by
  have kept := makeNonce_unreserved first second
  obtain ⟨_, -, rfl⟩ := Option.map_eq_some_iff.mp header
  obtain ⟨_, -, rfl⟩ := Option.map_eq_some_iff.mp text
  rw [sent_headerText quotable _ _ _ kept, sent_queryText _ _ _ kept]
  exact ⟨sentParams_iff, sentParams_iff⟩

/-- The URL `http://example.com/?a=b`. -/
def exampleUrl : URLInfo :=
  { path := ascii "/?a=b", pathOnly := ascii "/", query := ascii "a=b", hostName := ascii "example.com",
    hostHeader := ascii "example.com", addresses := [] }

theorem exampleUrl_read : (formFields exampleUrl none).mapM readParam = some [(ascii "a", ascii "b")] := by
  decide +kernel

/-- A consumer without a token, and the signature of its base string. -/
theorem sent_example :
    ∃ line query,
      makeHeader (fun _ _ => ascii "6Q+N1QfzPWIZmXntk4DWUOlvGEk=") exampleUrl (ascii "Example") (ascii "GET")
          137131200 305419896 162254319 none
          { consumerKey := ascii "dpf43f3p2l4k3l03", consumerSecret := ascii "kd94hf93k423kf44" } = some line ∧
        makeQueryString (fun _ _ => ascii "6Q+N1QfzPWIZmXntk4DWUOlvGEk=") exampleUrl (ascii "GET")
          137131200 305419896 162254319 none
          { consumerKey := ascii "dpf43f3p2l4k3l03", consumerSecret := ascii "kd94hf93k423kf44" } = some query ∧
        (verified (headerParams line)).Perm (oauthParams 137131200 (makeNonce 305419896 162254319)
          { consumerKey := ascii "dpf43f3p2l4k3l03", consumerSecret := ascii "kd94hf93k423kf44" }) ∧
        (verified (queryParams query)).Perm (oauthParams 137131200 (makeNonce 305419896 162254319)
          { consumerKey := ascii "dpf43f3p2l4k3l03", consumerSecret := ascii "kd94hf93k423kf44" }) := by
  refine ⟨_, _, by rw [makeHeader, buildBaseString_eq, exampleUrl_read]; rfl,
    by rw [makeQueryString, buildBaseString_eq, exampleUrl_read]; rfl, ?_⟩
  have sendable : Sendable
      { consumerKey := ascii "dpf43f3p2l4k3l03", consumerSecret := ascii "kd94hf93k423kf44" } :=
    ⟨by decide, forall_listed (by decide +kernel)⟩
  have quotable : 34 ∉ ascii "Example" := by decide
  have agree := sent_iff (fun _ _ => ascii "6Q+N1QfzPWIZmXntk4DWUOlvGEk=") exampleUrl quotable
    (ascii "GET") 137131200 305419896 162254319 none
    { consumerKey := ascii "dpf43f3p2l4k3l03", consumerSecret := ascii "kd94hf93k423kf44" }
    (by rw [makeHeader, buildBaseString_eq, exampleUrl_read]; rfl)
    (by rw [makeQueryString, buildBaseString_eq, exampleUrl_read]; rfl)
  exact ⟨agree.1.mpr sendable, agree.2.mpr sendable⟩

/-- Without a consumer key, the header carries an empty one that was not signed. -/
theorem empty_key_unsigned :
    ∃ line,
      makeHeader (fun _ _ => ascii "wwoZ3Lj+moqeLCyFEQCb0zLUKPw=") exampleUrl [] (ascii "GET")
          137131200 305419896 162254319 none { consumerSecret := ascii "secret" } = some line ∧
        ¬ (verified (headerParams line)).Perm (oauthParams 137131200 (makeNonce 305419896 162254319)
          { consumerSecret := ascii "secret" }) := by
  refine ⟨_, by rw [makeHeader, buildBaseString_eq, exampleUrl_read]; rfl, fun same => ?_⟩
  rw [sent_headerText (by decide) _ _ _ (makeNonce_unreserved _ _)] at same
  exact (sendable_of_sentParams same).some_key rfl

end Apib.OAuth
