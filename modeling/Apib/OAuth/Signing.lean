/-
**The base string.**

The base string as it is to be, and when `oauth_buildBaseString` gives it.

* `base_string_iff`: **the code gives the base string exactly when** every byte of the URL, of the keys
  and of the nonce is encoded as it is to be, and every field of the query and of the body is readable.
  No field of an empty query is, so a URL without a query is never signed as it is to be.

What is signed is an encoding of all parameters, and encodings are injective. So if the base strings are
equal, the encoded parameters are the same up to their order, and a parameter that the code gets wrong is
lighter than the one that is due (`readable_of_perm`).
-/

import Apib.OAuth.Parameters

namespace Apib.OAuth

open Numerals PercentEncoding

/-! ### The base string as it is to be -/

/-- The parameters of a request: of the query, of the form body, and those of OAuth but the signature. -/
def requestParams (url : URLInfo) (timestamp : Int) (nonce : Bytes) (sendData : Option Bytes)
    (oauth : OAuthInfo) : List Param :=
  formParams url.query ++ sendData.elim [] formParams ++ oauthParams timestamp nonce oauth

/-- By name, and then by value. -/
def paramLe (p1 p2 : Param) : Bool := p1.1 < p2.1 ∨ p1.1 = p2.1 ∧ p1.2 ≤ p2.2

/-- The parameters encoded, sorted and joined. -/
def normalizedParams (params : List Param) : Bytes :=
  joinFields ((params.map encodeParam).mergeSort paramLe)

/-- **The base string.** -/
def baseString (url : URLInfo) (method : Bytes) (timestamp : Int) (nonce : Bytes)
    (sendData : Option Bytes) (oauth : OAuthInfo) : Bytes :=
  method ++ 38 :: encode (baseUrl url) ++
    38 :: encode (normalizedParams (requestParams url timestamp nonce sendData oauth))

/-- What the code signs as it is to be signed. -/
structure Signable (url : URLInfo) (nonce : Bytes) (sendData : Option Bytes) (oauth : OAuthInfo) :
    Prop where
  address : ∀ c ∈ url.hostHeader ++ url.pathOnly, Encodable c
  query : ∀ segment ∈ url.query.splitOn 38, Readable segment
  body : ∀ text ∈ sendData, ∀ segment ∈ text.splitOn 38, Readable segment
  keys : ∀ c ∈ nonce ++ oauth.consumerKey ++ oauth.accessToken, Encodable c

/-! ### The order -/

theorem sortParams_eq (params : List Param) : sortParams params = params.mergeSort paramLe := by
  have same : (fun p1 p2 => !compareParam p2 p1) = paramLe := by
    funext p1 p2
    unfold compareParam paramLe
    by_cases before : p1.1 < p2.1
    · have not_after : ¬ p2.1 < p1.1 := Std.Asymm.asymm _ _ before
      simp [before, not_after]
    by_cases after : p2.1 < p1.1
    · have differ : p1.1 ≠ p2.1 := by
        intro same
        rw [same] at after
        exact List.lt_irrefl p2.1 after
      simp [before, after, differ]
    have equal : p1.1 = p2.1 := List.le_antisymm after before
    simp [equal, ← List.not_lt, List.lt_irrefl]
  rw [sortParams, same]

theorem finalParams_false (params : List Param) :
    finalParams false params = params.flatMap fun param => 38 :: field param := by
  induction params with
  | nil => rfl
  | cons param params ih =>
    obtain ⟨name, value⟩ := param
    rw [finalParams, ih]
    simp [field]

theorem finalParams_true (params : List Param) : finalParams true params = joinFields params := by
  cases params with
  | nil => rfl
  | cons param params =>
    obtain ⟨name, value⟩ := param
    rw [finalParams, finalParams_false, joinFields_cons]
    simp [field]

/-! ### What the code encodes -/

theorem appendEncoded_eq {text : Bytes} (all : ∀ c ∈ text, Encodable c) : appendEncoded text = encode text := by
  induction text with
  | nil => rfl
  | cons c text ih =>
    obtain ⟨first, later⟩ := List.forall_mem_cons.mp all
    rw [appendEncoded, List.flatMap_cons, ← appendEncoded, ih later, appendEncodedChar_eq c first]
    rfl

theorem encodable_of_plain (c : UInt8) : plain c = true → Encodable c := by
  revert c
  exact forall_byte (by decide +kernel)

theorem appendEncodedChar_plain (byte : UInt8) : (appendEncodedChar byte).all plain = true := by
  revert byte
  exact forall_byte (by decide +kernel)

theorem appendEncoded_plain (text : Bytes) : ∀ c ∈ appendEncoded text, plain c = true := by
  intro c member
  obtain ⟨byte, -, here⟩ := List.mem_flatMap.mp member
  exact List.all_eq_true.mp (appendEncodedChar_plain byte) c here

/-- A name and a value without separators. -/
def PlainParam (param : Param) : Prop := ∀ c ∈ param.1 ++ param.2, plain c = true

theorem madeParam_plain (param : Param) : PlainParam (madeParam param) :=
  List.forall_mem_append.mpr ⟨appendEncoded_plain param.1, appendEncoded_plain param.2⟩

theorem encodeParam_plain (param : Param) : PlainParam (encodeParam param) :=
  List.forall_mem_append.mpr ⟨encode_plain param.1, encode_plain param.2⟩

/-- Joined plain fields are encoded by the code as they are to be. -/
theorem appendEncoded_joinFields {params : List Param} (all : ∀ param ∈ params, PlainParam param) :
    appendEncoded (joinFields params) = encode (joinFields params) := by
  have field_bytes : ∀ param ∈ params, ∀ c ∈ field param, Encodable c := by
    intro param here c member
    obtain ⟨names, values⟩ := List.forall_mem_append.mp (all param here)
    rcases List.mem_append.mp member with inside | inside
    · exact encodable_of_plain c (names c inside)
    · rcases List.mem_cons.mp inside with rfl | inside
      · decide
      · exact encodable_of_plain c (values c inside)
  refine appendEncoded_eq ?_
  cases params with
  | nil => intro c member; cases member
  | cons param params =>
    obtain ⟨first, later⟩ := List.forall_mem_cons.mp field_bytes
    rw [joinFields_cons]
    refine List.forall_mem_append.mpr ⟨first, fun c member => ?_⟩
    obtain ⟨other, here, inside⟩ := List.mem_flatMap.mp member
    rcases List.mem_cons.mp inside with rfl | inside
    · decide
    · exact later other here c inside

theorem fields_joinFields_plain {params : List Param} (all : ∀ param ∈ params, PlainParam param) :
    fields (joinFields params) = params := by
  refine fields_joinFields (fun param here => ?_) (fun param here => ?_)
  · have names := (List.forall_mem_append.mp (all param here)).1
    exact ⟨notMem_of_plain names (by decide), notMem_of_plain names (by decide)⟩
  · exact notMem_of_plain (List.forall_mem_append.mp (all param here)).2 (by decide)

/-- Plain fields can be told from what they are joined to. -/
theorem joinFields_injective {first second : List Param} (all_first : ∀ param ∈ first, PlainParam param)
    (all_second : ∀ param ∈ second, PlainParam param) (same : joinFields first = joinFields second) :
    first = second := by
  rw [← fields_joinFields_plain all_first, same, fields_joinFields_plain all_second]

/-! ### All fields and parameters -/

/-- The fields of the query and of the body. -/
def formFields (url : URLInfo) (sendData : Option Bytes) : List Bytes :=
  url.query.splitOn 38 ++ sendData.elim [] (·.splitOn 38)

theorem mem_formFields {url : URLInfo} {sendData : Option Bytes} {segment : Bytes} :
    segment ∈ formFields url sendData ↔
      segment ∈ url.query.splitOn 38 ∨ ∃ text ∈ sendData, segment ∈ text.splitOn 38 := by
  cases sendData <;> simp [formFields]

section Request

variable (url : URLInfo) (method : Bytes) (timestamp : Int) (nonce : Bytes) (sendData : Option Bytes)
  (oauth : OAuthInfo)

theorem signedParams_eq :
    signedParams url timestamp nonce sendData oauth =
      ((formFields url sendData).mapM readParam).map (· ++ oauthParams timestamp nonce oauth) := by
  rw [signedParams, formFields, List.mapM_append, ← readParams]
  cases readParams url.query with
  | none => rfl
  | some query =>
    cases sendData with
    | none => rfl
    | some text =>
      show ((readParams text).map fun body => query ++ body ++ _) =
        ((readParams text).bind fun body => some (query ++ body)).map _
      cases readParams text <;> rfl

theorem requestParams_eq :
    requestParams url timestamp nonce sendData oauth =
      ((formFields url sendData).filter fun segment => !segment.isEmpty).map fieldParam ++
        oauthParams timestamp nonce oauth := by
  have form (text : Bytes) :
      formParams text = ((text.splitOn 38).filter fun segment => !segment.isEmpty).map fieldParam := by
    rw [formParams, fields, List.map_map]
    rfl
  cases sendData with
  | none => simp [requestParams, formFields, form]
  | some text => simp [requestParams, formFields, form]

/-- **What the code builds**, with the parameters it reads. -/
theorem buildBaseString_eq :
    buildBaseString url method timestamp nonce sendData oauth =
      ((formFields url sendData).mapM readParam).map fun params =>
        method ++ 38 :: appendEncoded (baseUrl url) ++ 38 :: encode
          (joinFields (((params ++ oauthParams timestamp nonce oauth).map madeParam).mergeSort paramLe)) := by
  rw [buildBaseString, signedParams_eq, Option.map_map]
  congr 1
  funext params
  have plain_params : ∀ param ∈
      ((params ++ oauthParams timestamp nonce oauth).map madeParam).mergeSort paramLe, PlainParam param := by
    intro param member
    obtain ⟨other, -, rfl⟩ := List.mem_map.mp (List.mem_mergeSort.mp member)
    exact madeParam_plain other
  rw [← appendEncoded_joinFields plain_params, ← finalParams_true, ← sortParams_eq]
  rfl

theorem toString_unreserved : ∀ c ∈ toString timestamp, unreserved c = true := by
  have decimal_bytes (n : Nat) : ∀ c ∈ decimal n, unreserved c = true := by
    obtain ⟨digits, -, small, text, -⟩ := decimal_digits n
    rw [text]
    intro c member
    obtain ⟨digit, here, rfl⟩ := List.mem_map.mp member
    have each : ∀ digit < 10, unreserved (digitChar digit) = true := by decide +kernel
    exact each digit (small digit here)
  unfold toString
  split
  · exact List.forall_mem_cons.mpr ⟨by decide, decimal_bytes _⟩
  · exact decimal_bytes _

theorem toString_encodable : ∀ c ∈ toString timestamp, Encodable c := fun c member =>
  encodable_of_plain c (plain_of_unreserved (toString_unreserved timestamp c member))

/-- The bytes of the parameters of OAuth are those of the keys and of the nonce, and others that are
encodable. -/
theorem oauthParams_encodable :
    (∀ param ∈ oauthParams timestamp nonce oauth, ∀ c ∈ param.1 ++ param.2, Encodable c) ↔
      ∀ c ∈ nonce ++ oauth.consumerKey ++ oauth.accessToken, Encodable c := by
  have names : ∀ c ∈ ascii "oauth_consumer_key" ++ ascii "oauth_token" ++
      ascii "oauth_signature_method" ++ ascii "HMAC-SHA1" ++ ascii "oauth_nonce" ++
      ascii "oauth_timestamp", Encodable c := forall_listed (by decide +kernel)
  have time := toString_encodable timestamp
  simp only [List.forall_mem_append] at names
  obtain ⟨⟨⟨⟨⟨key_name, token_name⟩, method_name⟩, method_value⟩, nonce_name⟩, time_name⟩ := names
  have optional (name value : Bytes) (name_bytes : ∀ c ∈ name, Encodable c) :
      (∀ param ∈ (if value = [] then [] else [(name, value)] : List Param),
        ∀ c ∈ param.1 ++ param.2, Encodable c) ↔ ∀ c ∈ value, Encodable c := by
    split
    · next empty => simp [empty]
    · simpa [or_imp, forall_and] using fun _ => name_bytes
  rw [oauthParams, List.forall_mem_append, List.forall_mem_append, optional _ _ key_name,
    optional _ _ token_name, List.forall_mem_append, List.forall_mem_append]
  constructor
  · rintro ⟨⟨key, token⟩, others⟩
    have nonce_bytes := others (ascii "oauth_nonce", nonce) (by simp)
    exact ⟨⟨(List.forall_mem_append.mp nonce_bytes).2, key⟩, token⟩
  · rintro ⟨⟨nonce_bytes, key⟩, token⟩
    refine ⟨⟨key, token⟩, ?_⟩
    simp only [List.forall_mem_cons, List.forall_mem_append]
    exact ⟨⟨method_name, method_value⟩, ⟨nonce_name, nonce_bytes⟩, ⟨time_name, time⟩, by simp⟩

theorem baseUrl_encodable :
    (∀ c ∈ baseUrl url, Encodable c) ↔ ∀ c ∈ url.hostHeader ++ url.pathOnly, Encodable c := by
  have https : ∀ c ∈ ascii "https", Encodable c := forall_listed (by decide +kernel)
  have http : ∀ c ∈ ascii "http", Encodable c := forall_listed (by decide +kernel)
  have slashes : ∀ c ∈ ascii "://", Encodable c := forall_listed (by decide +kernel)
  have scheme : ∀ c ∈ if url.isSsl then ascii "https" else ascii "http", Encodable c := by
    split
    · exact https
    · exact http
  simp only [baseUrl, List.forall_mem_append]
  exact ⟨fun ⟨⟨_, host⟩, path⟩ => ⟨host, path⟩, fun ⟨host, path⟩ => ⟨⟨⟨scheme, slashes⟩, host⟩, path⟩⟩

/-- **What is signable is signed as it is to be.** -/
theorem base_string_of_signable (signable : Signable url nonce sendData oauth) :
    buildBaseString url method timestamp nonce sendData oauth =
      some (baseString url method timestamp nonce sendData oauth) := by
  have readable : ∀ segment ∈ formFields url sendData, Readable segment := by
    intro segment member
    rcases mem_formFields.mp member with query | ⟨text, body, inside⟩
    · exact signable.query segment query
    · exact signable.body text body segment inside
  have no_empty : (formFields url sendData).filter (fun segment => !segment.isEmpty) =
      formFields url sendData := by
    refine List.filter_eq_self.mpr fun segment member => ?_
    simpa using (readable segment member).some_byte
  have others := (oauthParams_encodable timestamp nonce oauth).mpr signable.keys
  have encoded : ∀ param ∈ (formFields url sendData).map fieldParam ++ oauthParams timestamp nonce oauth,
      madeParam param = encodeParam param := by
    intro param member
    have bytes : (∀ c ∈ param.1, Encodable c) ∧ ∀ c ∈ param.2, Encodable c := by
      rcases List.mem_append.mp member with form | other
      · obtain ⟨segment, here, rfl⟩ := List.mem_map.mp form
        exact ⟨(readable segment here).name, (readable segment here).value⟩
      · exact List.forall_mem_append.mp (others param other)
    rw [madeParam, appendEncoded_eq bytes.1, appendEncoded_eq bytes.2]
    rfl
  rw [buildBaseString_eq, mapM_readable readable, Option.map_some, List.map_congr_left encoded,
    appendEncoded_eq ((baseUrl_encodable url).mpr signable.address), baseString, requestParams_eq, no_empty]
  rfl

/-- **What is signed as it is to be is signable.** -/
theorem signable_of_base_string (built : buildBaseString url method timestamp nonce sendData oauth =
    some (baseString url method timestamp nonce sendData oauth)) : Signable url nonce sendData oauth := by
  rw [buildBaseString_eq] at built
  obtain ⟨params, read, same⟩ := Option.map_eq_some_iff.mp built
  -- no part has a separator, so the parts are equal
  have free (text : Bytes) : 38 ∉ encode text := notMem_of_plain (encode_plain text) (by decide)
  rw [baseString, List.append_assoc, List.append_assoc] at same
  have parts := (List.cons.inj (List.append_cancel_left same)).2
  obtain ⟨addresses, -, joined⟩ := (List.append_cons_inj_of_notMem (free _) (free _)).mp parts.symm
  -- the parameters are the same up to their order
  have sorted : ((params ++ oauthParams timestamp nonce oauth).map madeParam).mergeSort paramLe =
      ((requestParams url timestamp nonce sendData oauth).map encodeParam).mergeSort paramLe := by
    refine joinFields_injective (fun param member => ?_) (fun param member => ?_)
      (encode_injective joined).symm
    · obtain ⟨other, -, rfl⟩ := List.mem_map.mp (List.mem_mergeSort.mp member)
      exact madeParam_plain other
    · obtain ⟨other, -, rfl⟩ := List.mem_map.mp (List.mem_mergeSort.mp member)
      exact encodeParam_plain other
  have perm : ((params ++ oauthParams timestamp nonce oauth).map madeParam).Perm
      ((requestParams url timestamp nonce sendData oauth).map encodeParam) := by
    refine (List.mergeSort_perm _ paramLe).symm.trans ?_
    rw [sorted]
    exact List.mergeSort_perm _ paramLe
  rw [requestParams_eq] at perm
  obtain ⟨readable, others⟩ := readable_of_perm read perm
  have address := (total_weight_encoded (baseUrl url)).2 (congrArg (total weight) addresses.symm)
  exact ⟨(baseUrl_encodable url).mp address,
    fun segment member => readable segment (mem_formFields.mpr (.inl member)),
    fun text body segment member => readable segment (mem_formFields.mpr (.inr ⟨text, body, member⟩)),
    (oauthParams_encodable timestamp nonce oauth).mp others⟩

/-- **The code gives the base string** of exactly the signable requests. -/
theorem base_string_iff :
    buildBaseString url method timestamp nonce sendData oauth =
        some (baseString url method timestamp nonce sendData oauth) ↔
      Signable url nonce sendData oauth :=
  ⟨signable_of_base_string url method timestamp nonce sendData oauth,
    base_string_of_signable url method timestamp nonce sendData oauth⟩

end Request

/-- The URL `http://example.com/`. -/
def plainUrl : URLInfo :=
  { path := ascii "/", pathOnly := ascii "/", hostName := ascii "example.com",
    hostHeader := ascii "example.com", addresses := [] }

/-- Without a query, the code signs a parameter with an empty name and an empty value. -/
theorem plain_url_missigned :
    buildBaseString plainUrl (ascii "GET") 137131200 (ascii "7D8F3E4A") none
        { consumerKey := ascii "dpf43f3p2l4k3l03" } ≠
      some (baseString plainUrl (ascii "GET") 137131200 (ascii "7D8F3E4A") none
        { consumerKey := ascii "dpf43f3p2l4k3l03" }) := by
  intro built
  have signable := signable_of_base_string _ _ _ _ _ _ built
  exact (signable.query [] (by decide)).some_byte rfl

end Apib.OAuth
