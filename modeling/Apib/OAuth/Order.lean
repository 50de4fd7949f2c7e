/-
**The order of the parameters does not matter.**

The parameters are sorted by `std::sort`, which promises a sorted permutation and nothing else. The
comparison is a strict total order, so there is one such permutation, however the parameters came in.

* `compareParam_strict`: the comparison is a strict total order;
* `ParameterString`: the string that is signed, before it is encoded for the last time;
* `order_independent`: **the same parameters in any order, in the query or in the body, are signed
  alike**.
-/

import Apib.Library.Sorting
import Apib.OAuth.Signing

namespace Apib.OAuth

open PercentEncoding Sorting

/-! ### The comparison -/

theorem compareParam_iff (p1 p2 : Param) :
    compareParam p1 p2 = true ↔ p1.1 < p2.1 ∨ p1.1 = p2.1 ∧ p1.2 < p2.2 := by
  unfold compareParam
  by_cases before : p1.1 < p2.1
  · simp [before]
  by_cases after : p2.1 < p1.1
  · have differ : p1.1 ≠ p2.1 := by
      intro same
      rw [same] at after
      exact List.lt_irrefl p2.1 after
    simp [before, after, differ]
  have equal : p1.1 = p2.1 := List.le_antisymm after before
  simp [equal, List.lt_irrefl]

theorem compareParam_false_iff (p1 p2 : Param) :
    compareParam p2 p1 = false ↔ p1.1 < p2.1 ∨ p1.1 = p2.1 ∧ p1.2 ≤ p2.2 := by
  rw [← Bool.not_eq_true, compareParam_iff]
  constructor
  · intro not_after
    by_cases less : p1.1 < p2.1
    · exact .inl less
    · have not_less : ¬ p2.1 < p1.1 := fun after => not_after (.inl after)
      have equal : p1.1 = p2.1 := List.le_antisymm not_less less
      exact .inr ⟨equal, fun after => not_after (.inr ⟨equal.symm, after⟩)⟩
  · rintro (less | ⟨equal, le⟩) (after | ⟨same, after⟩)
    · exact Std.Asymm.asymm _ _ less after
    · rw [same] at less
      exact List.lt_irrefl _ less
    · rw [equal] at after
      exact List.lt_irrefl _ after
    · exact le after

/-- **The comparison is a strict total order.** -/
theorem compareParam_strict : StrictTotal compareParam where
  asymm p1 p2 less := by
    rw [compareParam_false_iff]
    rcases (compareParam_iff p1 p2).mp less with names | ⟨same, values⟩
    · exact .inl names
    · exact .inr ⟨same, List.le_of_lt values⟩
  trans p1 p2 p3 first second := by
    rw [compareParam_iff] at *
    rcases first with names | ⟨same, values⟩
    · rcases second with later | ⟨equal, -⟩
      · exact .inl (List.lt_trans names later)
      · exact .inl (equal ▸ names)
    · rcases second with later | ⟨equal, more⟩
      · exact .inl (same ▸ later)
      · exact .inr ⟨same.trans equal, List.lt_trans values more⟩
  connected p1 p2 first second := by
    rw [compareParam_false_iff] at first second
    rcases second with less | ⟨names, le⟩
    · rcases first with more | ⟨same, -⟩
      · exact absurd more (Std.Asymm.asymm _ _ less)
      · rw [same] at less
        exact absurd less (List.lt_irrefl _)
    · rcases first with more | ⟨-, ge⟩
      · rw [names] at more
        exact absurd more (List.lt_irrefl _)
      · exact Prod.ext names (List.le_antisymm le ge)

theorem sortParams_isSort (params : List Param) : IsSort compareParam params (sortParams params) :=
  mergeSort_isSort compareParam_strict params

/-! ### The parameter string -/

/-- **The parameter string** of parameters: its fields are the encoded parameters, each as often as it
occurs, by name and for equal names by value, and any sort by the comparison gives it. -/
structure ParameterString (params : List Param) (text : Bytes) : Prop where
  complete : (fields text).Perm (params.map madeParam)
  ordered : (fields text).Pairwise fun p1 p2 => p1.1 < p2.1 ∨ p1.1 = p2.1 ∧ p1.2 ≤ p2.2
  unique : ∀ sorted, IsSort compareParam (params.map madeParam) sorted → finalParams true sorted = text

theorem parameterString (params : List Param) :
    ParameterString params (finalParams true (sortParams (params.map madeParam))) := by
  have sort := sortParams_isSort (params.map madeParam)
  have made : ∀ param ∈ sortParams (params.map madeParam), PlainParam param := by
    intro param member
    obtain ⟨other, -, rfl⟩ := List.mem_map.mp (sort.perm.mem_iff.mp member)
    exact madeParam_plain other
  have pieces : fields (finalParams true (sortParams (params.map madeParam))) =
      sortParams (params.map madeParam) := by
    rw [finalParams_true, fields_joinFields_plain made]
  refine ⟨?_, ?_, fun sorted other => ?_⟩
  · rw [pieces]
    exact sort.perm
  · rw [pieces]
    exact sort.ordered.imp fun {p1 p2} => (compareParam_false_iff p1 p2).mp
  · rw [other.unique compareParam_strict sort (.refl _)]

/-- What is built of the parameters that the query and the body yield. -/
theorem buildBaseString_read {url : URLInfo} {sendData : Option Bytes} {query body : List Param}
    (method : Bytes) (timestamp : Int) (nonce : Bytes) (oauth : OAuthInfo)
    (query_read : readParams url.query = some query)
    (body_read : sendData.elim (some []) readParams = some body) :
    buildBaseString url method timestamp nonce sendData oauth =
      some (method ++ 38 :: appendEncoded (baseUrl url) ++ 38 :: appendEncoded (finalParams true
        (sortParams ((query ++ body ++ oauthParams timestamp nonce oauth).map madeParam)))) := by
  rw [buildBaseString, signedParams, query_read, body_read]
  rfl

/-- **The order of the parameters does not matter**: two requests that differ only in the order of their
parameters, or in which of them are in the query and which in the body, have the same base string, with
the parameter string of all their parameters. -/
theorem order_independent {url other : URLInfo} {sendData otherData : Option Bytes}
    {query body otherQuery otherBody : List Param} (method : Bytes) (timestamp : Int) (nonce : Bytes)
    (oauth : OAuthInfo) (same_scheme : url.isSsl = other.isSsl)
    (same_host : url.hostHeader = other.hostHeader) (same_path : url.pathOnly = other.pathOnly)
    (query_read : readParams url.query = some query)
    (body_read : sendData.elim (some []) readParams = some body)
    (otherQuery_read : readParams other.query = some otherQuery)
    (otherBody_read : otherData.elim (some []) readParams = some otherBody)
    (perm : (query ++ body).Perm (otherQuery ++ otherBody)) :
    buildBaseString url method timestamp nonce sendData oauth =
        buildBaseString other method timestamp nonce otherData oauth ∧
      ∃ text, ParameterString (query ++ body ++ oauthParams timestamp nonce oauth) text ∧
        buildBaseString url method timestamp nonce sendData oauth =
          some (method ++ 38 :: appendEncoded (baseUrl url) ++ 38 :: appendEncoded text) := by
  have built := buildBaseString_read method timestamp nonce oauth query_read body_read
  refine ⟨?_, _, parameterString _, built⟩
  rw [built, buildBaseString_read method timestamp nonce oauth otherQuery_read otherBody_read]
  have address : baseUrl url = baseUrl other := by
    rw [baseUrl, baseUrl, same_scheme, same_host, same_path]
  have sorted : sortParams ((query ++ body ++ oauthParams timestamp nonce oauth).map madeParam) =
      sortParams ((otherQuery ++ otherBody ++ oauthParams timestamp nonce oauth).map madeParam) :=
    (sortParams_isSort _).unique compareParam_strict (sortParams_isSort _)
      ((perm.append_right _).map madeParam)
  rw [address, sorted]

/-- A URL with a query. -/
def queryUrl (query : Bytes) : URLInfo := { plainUrl with query }

/-- A parameter that the query has twice, once moved to the body. -/
theorem order_independent_example :
    buildBaseString (queryUrl (ascii "b=2&a=1&b=2")) (ascii "GET") 137131200 (ascii "7D8F") none {} =
      buildBaseString (queryUrl (ascii "b=2")) (ascii "GET") 137131200 (ascii "7D8F")
        (some (ascii "b=2&a=1")) {} := by
  have query : readParams (queryUrl (ascii "b=2&a=1&b=2")).query =
      some [(ascii "b", ascii "2"), (ascii "a", ascii "1"), (ascii "b", ascii "2")] := by decide +kernel
  have moved : readParams (queryUrl (ascii "b=2")).query = some [(ascii "b", ascii "2")] := by
    decide +kernel
  have body : (some (ascii "b=2&a=1")).elim (some []) readParams =
      some [(ascii "b", ascii "2"), (ascii "a", ascii "1")] := by decide +kernel
  have no_body : (none : Option Bytes).elim (some []) readParams = some [] := rfl
  have scheme : (queryUrl (ascii "b=2&a=1&b=2")).isSsl = (queryUrl (ascii "b=2")).isSsl := rfl
  exact (order_independent _ _ _ _ scheme rfl rfl query no_body moved body (by decide)).1

end Apib.OAuth
