/-
**Fields read by the code.**

What `readParams` makes of the fields of a query or of a form body, against the parameters that they are
as form data. The code reads every field, also an empty one, and drops what follows a second `=`.

* `readParam_eq`: the code cuts a field as form data, and its value once more.
* `mapM_readable`: **from readable fields the code reads their parameters**.
* `readParam_percents`, `readParam_weights`: a parameter that the code reads and encodes has at most the
  percent signs that are due, and with one `=` at most their weight.
* `readable_of_perm`: **where the parameters that the code encodes are those that are due**, in any order,
  every field is readable and every byte of the other parameters is encodable.
-/

import Mathlib.Data.List.TakeWhile
import Apib.Library.Traverse
import Apib.OAuth.Weights

namespace Apib.OAuth

open Numerals PercentEncoding

/-- The parameter that a field is. -/
def fieldParam (segment : Bytes) : Param :=
  (formDecode (cutField segment).1, formDecode (cutField segment).2)

/-- A field that the code reads and encodes as form data is read and encoded. -/
structure Readable (segment : Bytes) : Prop where
  some_byte : segment ≠ []
  one_equals : 61 ∉ (cutField segment).2
  name_escaped : WellEscaped (cutField segment).1
  value_escaped : WellEscaped (cutField segment).2
  name : ∀ c ∈ (fieldParam segment).1, Encodable c
  value : ∀ c ∈ (fieldParam segment).2, Encodable c

/-! ### One field -/

theorem takeWhile_free {text : Bytes} (free : 61 ∉ text) : text.takeWhile (· != 61) = text := by
  refine List.takeWhile_eq_self_iff.mpr fun c member => ?_
  rw [bne_iff_ne]
  rintro rfl
  exact free member

theorem cutField_free {segment : Bytes} (free : 61 ∉ segment) : cutField segment = (segment, []) := by
  have none_left : segment.dropWhile (· != 61) = [] := by
    refine List.dropWhile_eq_nil_iff.mpr fun c member => ?_
    rw [bne_iff_ne]
    rintro rfl
    exact free member
  rw [cutField, takeWhile_free free, none_left]
  rfl

/-- The first piece of a text is what stands before the first separator. -/
theorem splitOn_front (text : Bytes) :
    ∃ more, text.splitOn 61 = text.takeWhile (· != 61) :: more := by
  by_cases member : 61 ∈ text
  · obtain ⟨front, back, rfl, free⟩ := List.eq_append_cons_of_mem member
    have cut := cutField_append free back
    have here : (front ++ 61 :: back).takeWhile (· != 61) = front := congrArg Prod.fst cut
    exact ⟨back.splitOn 61, by rw [here, List.splitOn_append_cons_self_of_not_mem free]⟩
  · exact ⟨[], by rw [takeWhile_free member, List.splitOn_eq_singleton member]⟩

/-- **The code cuts a field** as form data, and its value once more. -/
theorem readParam_eq (segment : Bytes) :
    readParam segment = (decode (cutField segment).1).bind fun name =>
      (decode ((cutField segment).2.takeWhile (· != 61))).map (name, ·) := by
  by_cases member : 61 ∈ segment
  · obtain ⟨name, value, rfl, free⟩ := List.eq_append_cons_of_mem member
    obtain ⟨more, pieces⟩ := splitOn_front value
    have cut := cutField_append free value
    rw [cut, readParam, List.splitOn_append_cons_self_of_not_mem free, pieces]
  · rw [cutField_free member, readParam, List.splitOn_eq_singleton member]
    show (decode segment).map (·, []) = (decode segment).bind fun name => (decode []).map (name, ·)
    cases decode segment with
    | none => rfl
    | some name => simp [decode]

theorem readParam_readable {segment : Bytes} (readable : Readable segment) :
    readParam segment = some (fieldParam segment) := by
  rw [readParam_eq, takeWhile_free readable.one_equals, decode_wellEscaped readable.name_escaped,
    decode_wellEscaped readable.value_escaped]
  rfl

/-! ### What is made and what is due of one field -/

/-- A parameter encoded by the code. -/
def madeParam (param : Param) : Param := (appendEncoded param.1, appendEncoded param.2)

/-- A parameter encoded as it is to be. -/
def encodeParam (param : Param) : Param := (encode param.1, encode param.2)

/-- The measure of a name and a value. -/
def both (measure : UInt8 → Int) (param : Param) : Int := total measure param.1 + total measure param.2

/-- A value cut at a second `=` loses a percent sign. -/
theorem value_behind {value decoded : Bytes} (read : decode (value.takeWhile (· != 61)) = some decoded) :
    made percent decoded ≤ due percent value ∧
      (made percent decoded = due percent value → 61 ∉ value) := by
  by_cases member : 61 ∈ value
  · obtain ⟨front, back, rfl, free⟩ := List.eq_append_cons_of_mem member
    have cut := cutField_append free back
    have here : (front ++ 61 :: back).takeWhile (· != 61) = front := congrArg Prod.fst cut
    rw [here] at read
    have counted : due percent (front ++ 61 :: back) = due percent front + (1 + due percent back) := by
      have sign : total percent (encodeByte (plusToSpace 61)) = 1 := by decide +kernel
      rw [due, formDecode_append (by decide) (by decide), encode_append, total_append, total_encode, sign,
        ← due, ← due]
    have front_behind := (decode_behind read).percents
    have back_count := percent_nonneg (encode (formDecode back))
    rw [← due] at back_count
    rw [counted]
    exact ⟨by omega, fun same => absurd same (by omega)⟩
  · rw [takeWhile_free member] at read
    exact ⟨(decode_behind read).percents, fun _ => member⟩

/-- **A parameter that the code reads** has at most the percent signs of the parameter that the field is,
and as many only where the value has no second `=`. -/
theorem readParam_percents {segment : Bytes} {param : Param} (read : readParam segment = some param) :
    both percent (madeParam param) ≤ both percent (encodeParam (fieldParam segment)) ∧
      (both percent (madeParam param) = both percent (encodeParam (fieldParam segment)) →
        61 ∉ (cutField segment).2) := by
  rw [readParam_eq] at read
  obtain ⟨name, name_read, read⟩ := Option.bind_eq_some_iff.mp read
  obtain ⟨value, value_read, rfl⟩ := Option.map_eq_some_iff.mp read
  have count := (decode_behind name_read).percents
  obtain ⟨second, no_equals⟩ := value_behind value_read
  refine ⟨?_, fun same => no_equals ?_⟩
  · unfold made due at *
    simp only [both, madeParam, encodeParam, fieldParam]
    omega
  · unfold made due at *
    simp only [both, madeParam, encodeParam, fieldParam] at same
    omega

/-- **Where the value has no second `=`**, it has at most the weight, and as much only from a field that is
readable. -/
theorem readParam_weights {segment : Bytes} {param : Param} (read : readParam segment = some param)
    (one_equals : 61 ∉ (cutField segment).2) :
    both weight (madeParam param) ≤ both weight (encodeParam (fieldParam segment)) ∧
      (both weight (madeParam param) = both weight (encodeParam (fieldParam segment)) →
        segment ≠ [] → Readable segment) := by
  rw [readParam_eq] at read
  obtain ⟨name, name_read, read⟩ := Option.bind_eq_some_iff.mp read
  obtain ⟨value, value_read, rfl⟩ := Option.map_eq_some_iff.mp read
  rw [takeWhile_free one_equals] at value_read
  have name_behind := decode_behind name_read
  have behind := decode_behind value_read
  have first := name_behind.weights
  have second := behind.weights
  refine ⟨?_, fun same some_byte => ?_⟩
  · unfold made due at *
    simp only [both, madeParam, encodeParam, fieldParam]
    omega
  · have exact_name := name_behind.exact
    have exact_value := behind.exact
    unfold made due at *
    simp only [both, madeParam, encodeParam, fieldParam] at same
    obtain ⟨name_escaped, name_bytes⟩ := exact_name (by omega)
    obtain ⟨value_escaped, value_bytes⟩ := exact_value (by omega)
    rw [decode_wellEscaped name_escaped] at name_read
    rw [decode_wellEscaped value_escaped] at value_read
    obtain rfl := Option.some.inj name_read
    obtain rfl := Option.some.inj value_read
    exact ⟨some_byte, one_equals, name_escaped, value_escaped, name_bytes, value_bytes⟩

/-! ### All fields -/

/-- **From readable fields** the code reads their parameters. -/
theorem mapM_readable {segments : List Bytes} (readable : ∀ segment ∈ segments, Readable segment) :
    segments.mapM readParam = some (segments.map fieldParam) := by
  induction segments with
  | nil => rfl
  | cons segment segments ih =>
    obtain ⟨first, later⟩ := List.forall_mem_cons.mp readable
    rw [List.mapM_cons, readParam_readable first, ih later]
    rfl

/-- The measures of parameters added up. -/
def weigh (measure : UInt8 → Int) : List Param → Int
  | [] => 0
  | param :: params => both measure param + weigh measure params

section Weigh

variable (measure : UInt8 → Int)

theorem weigh_append (first second : List Param) :
    weigh measure (first ++ second) = weigh measure first + weigh measure second := by
  induction first with
  | nil => simp [weigh]
  | cons param first ih => rw [List.cons_append, weigh, weigh, ih, Int.add_assoc]

theorem weigh_perm {first second : List Param} (same : first.Perm second) :
    weigh measure first = weigh measure second := by
  induction same with
  | nil => rfl
  | cons param _ ih => rw [weigh, weigh, ih]
  | swap param other params =>
    simp only [weigh]
    omega
  | trans _ _ first second => exact first.trans second

/-- **Fields behind one by one are behind together**, and level together only when each is. -/
theorem weigh_behind {segments : List Bytes} {params : List Param}
    (read : segments.mapM readParam = some params)
    (each : ∀ segment ∈ segments, ∀ param, readParam segment = some param →
      both measure (madeParam param) ≤ both measure (encodeParam (fieldParam segment))) :
    weigh measure (params.map madeParam) ≤ weigh measure ((segments.map fieldParam).map encodeParam) ∧
      (weigh measure (params.map madeParam) = weigh measure ((segments.map fieldParam).map encodeParam) →
        ∀ segment ∈ segments, ∃ param, readParam segment = some param ∧
          both measure (madeParam param) = both measure (encodeParam (fieldParam segment))) := by
  induction segments generalizing params with
  | nil =>
    obtain rfl := Option.some.inj read
    exact ⟨Int.le_refl _, fun _ segment member => by cases member⟩
  | cons segment segments ih =>
    rw [List.mapM_cons] at read
    obtain ⟨param, here, read⟩ := Option.bind_eq_some_iff.mp read
    obtain ⟨params, later, read⟩ := Option.bind_eq_some_iff.mp read
    obtain rfl := Option.some.inj read
    obtain ⟨each_here, each_later⟩ := List.forall_mem_cons.mp each
    obtain ⟨rest, level⟩ := ih later each_later
    have first := each_here param here
    simp only [List.map_cons, weigh]
    refine ⟨by omega, fun same => ?_⟩
    exact List.forall_mem_cons.mpr ⟨⟨param, here, by omega⟩, level (by omega)⟩

end Weigh

/-! ### Parameters that are not decoded -/

theorem total_percent_encoded (text : Bytes) :
    total percent (appendEncoded text) = total percent (encode text) := by
  induction text with
  | nil => rfl
  | cons c text ih => rw [total_appendEncoded, total_encode, ih, (percent_byte c).1]

/-- Encoding by the code gives no more weight, and as much only where every byte is encodable. -/
theorem total_weight_encoded (text : Bytes) :
    total weight (appendEncoded text) ≤ total weight (encode text) ∧
      (total weight (appendEncoded text) = total weight (encode text) → ∀ c ∈ text, Encodable c) := by
  induction text with
  | nil => exact ⟨Int.le_refl _, fun _ c member => by cases member⟩
  | cons c text ih =>
    have first := weight_byte c
    rw [total_appendEncoded, total_encode]
    refine ⟨by omega, fun same => ?_⟩
    exact List.forall_mem_cons.mpr ⟨weight_byte_exact c (by omega), ih.2 (by omega)⟩

theorem weigh_percent_encoded (params : List Param) :
    weigh percent (params.map madeParam) = weigh percent (params.map encodeParam) := by
  induction params with
  | nil => rfl
  | cons param params ih =>
    simp only [List.map_cons, weigh, ih, both, madeParam, encodeParam, total_percent_encoded]

theorem weigh_weight_encoded (params : List Param) :
    weigh weight (params.map madeParam) ≤ weigh weight (params.map encodeParam) ∧
      (weigh weight (params.map madeParam) = weigh weight (params.map encodeParam) →
        ∀ param ∈ params, ∀ c ∈ param.1 ++ param.2, Encodable c) := by
  induction params with
  | nil => exact ⟨Int.le_refl _, fun _ param member => by cases member⟩
  | cons param params ih =>
    obtain ⟨name, name_exact⟩ := total_weight_encoded param.1
    obtain ⟨value, value_exact⟩ := total_weight_encoded param.2
    obtain ⟨rest, rest_exact⟩ := ih
    simp only [List.map_cons, weigh, both, madeParam, encodeParam]
    refine ⟨by omega, fun same => List.forall_mem_cons.mpr ⟨?_, rest_exact (by omega)⟩⟩
    exact List.forall_mem_append.mpr ⟨name_exact (by omega), value_exact (by omega)⟩

/-- **Where the parameters that the code encodes are those that are due**, in any order, every field is
readable and every byte of the other parameters is encodable. -/
theorem readable_of_perm {segments : List Bytes} {params others : List Param}
    (read : segments.mapM readParam = some params)
    (same : ((params ++ others).map madeParam).Perm
      (((segments.filter fun segment => !segment.isEmpty).map fieldParam ++ others).map encodeParam)) :
    (∀ segment ∈ segments, Readable segment) ∧
      ∀ param ∈ others, ∀ c ∈ param.1 ++ param.2, Encodable c := by
  -- an empty field is a parameter too many
  have count := Traverse.mapM_length read
  have all : segments.filter (fun segment => !segment.isEmpty) = segments := by
    have lengths := same.length_eq
    simp only [List.map_append, List.length_append, List.length_map, count] at lengths
    refine List.filter_eq_self.mpr (List.length_filter_eq_length_iff.mp ?_)
    omega
  rw [all] at same
  have some_byte : ∀ segment ∈ segments, segment ≠ [] := by
    intro segment member
    simpa using List.filter_eq_self.mp all segment member
  have level (measure : UInt8 → Int) : weigh measure (params.map madeParam) +
      weigh measure (others.map madeParam) = weigh measure ((segments.map fieldParam).map encodeParam) +
        weigh measure (others.map encodeParam) := by
    have sums := weigh_perm measure same
    rwa [List.map_append, List.map_append, weigh_append, weigh_append] at sums
  -- a second `=` takes a percent sign away, and no parameter has one too many
  have one_equals : ∀ segment ∈ segments, 61 ∉ (cutField segment).2 := by
    obtain ⟨percents, exact_percents⟩ := weigh_behind percent read
      fun segment _ param here => (readParam_percents here).1
    have sums := level percent
    rw [weigh_percent_encoded others] at sums
    intro segment member
    obtain ⟨param, here, equal⟩ := exact_percents (by omega) segment member
    exact (readParam_percents here).2 equal
  obtain ⟨weights, exact_weights⟩ := weigh_behind weight read
    fun segment member param here => (readParam_weights here (one_equals segment member)).1
  obtain ⟨other_weights, exact_others⟩ := weigh_weight_encoded others
  have sums := level weight
  refine ⟨fun segment member => ?_, exact_others (by omega)⟩
  obtain ⟨param, here, equal⟩ := exact_weights (by omega) segment member
  exact (readParam_weights here (one_equals segment member)).2 equal (some_byte segment member)

end Apib.OAuth
