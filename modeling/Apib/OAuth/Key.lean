/-
**The signing key.**

The key of a signature is made of both secrets, each percent-encoded, with an `&` between them.
`oauth_generateHmac` encodes the consumer secret and takes the token secret as it is.

* `signs_exactly_iff`: the code signs with the right key exactly when every byte of the consumer secret
  is encodable and no byte of the token secret is escaped;
* `signing_key_iff`: **with a key of its own besides** exactly when no byte of the two is escaped.
-/

import Apib.OAuth.Encoding

namespace Apib.OAuth

open PercentEncoding

/-- **The signing key.** -/
def signingKey (oauth : OAuthInfo) : Bytes := encode oauth.consumerSecret ++ 38 :: encode oauth.tokenSecret

/-- The key that `oauth_generateHmac` gives to HMAC. -/
def usedKey (oauth : OAuthInfo) : Bytes := generateHmac (fun key _ => key) [] oauth

/-- Whatever HMAC is, it is given the signing key. -/
def SignsExactly (oauth : OAuthInfo) : Prop :=
  ∀ hmac base, generateHmac hmac base oauth = hmac (signingKey oauth) base

/-- The key is the signing key, its only `&` separates the secrets, and no other secrets have it. -/
structure FaithfulKey (oauth : OAuthInfo) : Prop where
  exact : SignsExactly oauth
  separated : (usedKey oauth).count 38 = 1
  alone : ∀ other, usedKey other = usedKey oauth →
    other.consumerSecret = oauth.consumerSecret ∧ other.tokenSecret = oauth.tokenSecret

theorem usedKey_eq (oauth : OAuthInfo) :
    usedKey oauth = appendEncoded oauth.consumerSecret ++ 38 :: oauth.tokenSecret := by
  unfold usedKey generateHmac
  split
  · next empty => rw [empty]
  · rfl

theorem generateHmac_eq (hmac : Bytes → Bytes → Bytes) (base : Bytes) (oauth : OAuthInfo) :
    generateHmac hmac base oauth = hmac (usedKey oauth) base := rfl

/-- An encoded secret has no separator. -/
theorem free_appendEncoded (text : Bytes) : 38 ∉ appendEncoded text :=
  notMem_of_plain (appendEncoded_plain text) (by decide)

/-- What stands before the first separator and behind it. -/
theorem split_inj {front back front' back' : Bytes} (free : 38 ∉ front) (free' : 38 ∉ front')
    (same : front ++ 38 :: back = front' ++ 38 :: back') : front = front' ∧ back = back' := by
  rcases List.append_eq_append_iff.mp same with ⟨more, longer, rest⟩ | ⟨more, longer, rest⟩
  · cases more with
    | nil => exact ⟨by simpa using longer.symm, (List.cons.inj rest).2⟩
    | cons c more =>
      obtain ⟨rfl, -⟩ := List.cons.inj rest
      exact absurd (by simp [longer]) free'
  · cases more with
    | nil => exact ⟨by simpa using longer, (List.cons.inj rest).2.symm⟩
    | cons c more =>
      obtain ⟨rfl, -⟩ := List.cons.inj rest
      exact absurd (by simp [longer]) free

/-- Keys are equal exactly when their parts are. -/
theorem usedKey_inj {first second : OAuthInfo} :
    usedKey first = usedKey second ↔
      appendEncoded first.consumerSecret = appendEncoded second.consumerSecret ∧
        first.tokenSecret = second.tokenSecret := by
  rw [usedKey_eq, usedKey_eq]
  constructor
  · exact split_inj (free_appendEncoded _) (free_appendEncoded _)
  · rintro ⟨consumer, token⟩
    rw [consumer, token]

/-- The code signs with the signing key exactly when both parts are the ones that are due. -/
theorem signs_exactly_iff (oauth : OAuthInfo) :
    SignsExactly oauth ↔
      (∀ c ∈ oauth.consumerSecret, Encodable c) ∧ ∀ c ∈ oauth.tokenSecret, unreserved c = true := by
  rw [← appendEncoded_exact_iff, ← encode_eq_self_iff]
  constructor
  · intro exact_key
    have keys : usedKey oauth = signingKey oauth := exact_key (fun key _ => key) []
    rw [usedKey_eq] at keys
    obtain ⟨consumer, token⟩ := split_inj (free_appendEncoded _)
      (notMem_of_plain (encode_plain _) (by decide)) keys
    exact ⟨consumer, token.symm⟩
  · rintro ⟨consumer, token⟩ hmac base
    rw [generateHmac_eq, usedKey_eq, signingKey, consumer, token]

/-- Without a byte that is escaped, the key is the two secrets as they are. -/
theorem usedKey_unreserved {oauth : OAuthInfo}
    (all : ∀ c ∈ oauth.consumerSecret ++ oauth.tokenSecret, unreserved c = true) :
    FaithfulKey oauth := by
  obtain ⟨consumer, token⟩ := List.forall_mem_append.mp all
  have encodable : ∀ c ∈ oauth.consumerSecret, Encodable c := fun c member =>
    encodable_of_plain c (plain_of_unreserved (consumer c member))
  have free (text : Bytes) (kept : ∀ c ∈ text, unreserved c = true) : text.count 38 = 0 :=
    List.count_eq_zero.mpr fun member => by cases kept 38 member
  refine ⟨(signs_exactly_iff oauth).mpr ⟨encodable, token⟩, ?_, fun other same => ?_⟩
  · rw [usedKey_eq, appendEncoded_unreserved consumer, List.count_append, List.count_cons_self,
      free _ consumer, free _ token]
  · obtain ⟨consumers, tokens⟩ := usedKey_inj.mp same
    exact ⟨((faithful_iff _).mpr consumer).alone _ consumers, tokens⟩

/-- **The key**: whatever the secrets, it is their two parts with an `&` between them; when it is the
signing key; and when besides it has one `&` and belongs to no other secrets. -/
theorem signing_key_iff (oauth : OAuthInfo) :
    (SignsExactly oauth ↔
      (∀ c ∈ oauth.consumerSecret, Encodable c) ∧ ∀ c ∈ oauth.tokenSecret, unreserved c = true) ∧
    (FaithfulKey oauth ↔ ∀ c ∈ oauth.consumerSecret ++ oauth.tokenSecret, unreserved c = true) := by
  refine ⟨signs_exactly_iff oauth, fun faithful => ?_, usedKey_unreserved⟩
  obtain ⟨encodable, token⟩ := (signs_exactly_iff oauth).mp faithful.exact
  refine List.forall_mem_append.mpr ⟨fun c member => ?_, token⟩
  rw [← Bool.not_eq_false]
  intro reserved
  obtain ⟨other, same, different⟩ := reads_alike member (encodable c member) reserved
  exact different (faithful.alone { oauth with consumerSecret := other } (usedKey_inj.mpr ⟨same, rfl⟩)).1

/-- A secret of a token with an `&`. -/
def rawSecret : OAuthInfo := { consumerSecret := ascii "kd94hf93", tokenSecret := ascii "pfkk&hdhd" }

/-- The `&` is not escaped, and the consumer secrets 18, and 1 before a `2`, give one key. -/
theorem token_secret_raw :
    usedKey rawSecret = ascii "kd94hf93&pfkk&hdhd" ∧ signingKey rawSecret = ascii "kd94hf93&pfkk%26hdhd" ∧
      ¬ SignsExactly rawSecret ∧
      usedKey { consumerSecret := [18] } = usedKey { consumerSecret := [1, 50] } := by
  refine ⟨by decide +kernel, by decide +kernel, fun exact_key => ?_, by decide +kernel⟩
  have escaped := ((signs_exactly_iff rawSecret).mp exact_key).2 38 (by decide)
  cases escaped

end Apib.OAuth
