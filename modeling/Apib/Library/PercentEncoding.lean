/-
**Percent-encoding and form data.**

Percent-encoding keeps the unreserved characters and writes every other byte as `%` and two upper-case
hexadecimal digits. Decoding is total: a `%` that two hexadecimal digits do not follow stands for
itself. Form data are fields separated by `&`, each a name and a value separated by its first `=`;
a `+` in them is a space.

* `decode_encode`: decoding gives back what was encoded, so `encode_injective`.
* `encode_plain`: what is encoded has no separators, only unreserved characters and `%`.
* `fields_joinFields`: the fields of joined fields are those that were joined.
-/

import Apib.Library.Numerals

namespace PercentEncoding

open Numerals

/-- The characters that are kept. -/
def unreserved (c : UInt8) : Bool :=
  (48 ≤ c && c ≤ 57) || (65 ≤ c && c ≤ 90) || (97 ≤ c && c ≤ 122) ||
    c == 45 || c == 46 || c == 95 || c == 126

/-- One byte encoded. -/
def encodeByte (c : UInt8) : List UInt8 :=
  if unreserved c then [c] else [37, digitChar (c.toNat / 16), digitChar (c.toNat % 16)]

/-- A string encoded. -/
def encode (text : List UInt8) : List UInt8 := text.flatMap encodeByte

/-- The byte of two hexadecimal digits. -/
def hexPair (x y : UInt8) : Option UInt8 :=
  match digitOf 16 x, digitOf 16 y with
  | some high, some low => some (16 * high + low).toUInt8
  | _, _ => none

/-- A string decoded. -/
def decode : List UInt8 → List UInt8
  | [] => []
  | [c] => [c]
  | [c, d] => [c, d]
  | c :: x :: y :: rest =>
    if c = 37 then
      match hexPair x y with
      | some byte => byte :: decode rest
      | none => c :: decode (x :: y :: rest)
    else c :: decode (x :: y :: rest)

/-- A plus sign is a space in form data. -/
def plusToSpace (c : UInt8) : UInt8 := if c = 43 then 32 else c

/-- A name or value of form data decoded. -/
def formDecode (text : List UInt8) : List UInt8 := decode (text.map plusToSpace)

/-! ### Decoding -/

@[simp] theorem decode_nil : decode [] = [] := rfl

theorem decode_escape {x y byte : UInt8} (pair : hexPair x y = some byte) (rest : List UInt8) :
    decode (37 :: x :: y :: rest) = byte :: decode rest := by
  simp [decode, pair]

theorem decode_literal {x y : UInt8} (no_pair : hexPair x y = none) (rest : List UInt8) :
    decode (37 :: x :: y :: rest) = 37 :: decode (x :: y :: rest) := by
  simp [decode, no_pair]

theorem decode_cons {c : UInt8} (other : c ≠ 37) (rest : List UInt8) :
    decode (c :: rest) = c :: decode rest := by
  match rest with
  | [] => rfl
  | [_] => rfl
  | _ :: _ :: _ => rw [decode, if_neg other]

/-- What has no percent sign stands for itself. -/
theorem decode_append_free {front : List UInt8} (free : 37 ∉ front) (rest : List UInt8) :
    decode (front ++ rest) = front ++ decode rest := by
  induction front with
  | nil => rfl
  | cons c front ih =>
    obtain ⟨other, later⟩ := not_or.mp (fun here => free (List.mem_cons.mpr here))
    rw [List.cons_append, decode_cons (Ne.symm other), ih later, List.cons_append]

theorem decode_free {text : List UInt8} (free : 37 ∉ text) : decode text = text := by
  simpa using decode_append_free free []

/-! ### Encoding -/

theorem hexPair_digitChar (byte : UInt8) :
    hexPair (digitChar (byte.toNat / 16)) (digitChar (byte.toNat % 16)) = some byte := by
  revert byte
  exact forall_byte (by decide +kernel)

theorem decode_encodeByte (c : UInt8) (rest : List UInt8) :
    decode (encodeByte c ++ rest) = c :: decode rest := by
  unfold encodeByte
  split
  · next kept =>
    refine decode_cons ?_ rest
    rintro rfl
    cases kept
  · exact decode_escape (hexPair_digitChar c) rest

/-- **Decoding gives back what was encoded.** -/
theorem decode_encode_append (text rest : List UInt8) :
    decode (encode text ++ rest) = text ++ decode rest := by
  induction text with
  | nil => rfl
  | cons c text ih =>
    rw [encode, List.flatMap_cons, List.append_assoc, decode_encodeByte, ← encode, ih,
      List.cons_append]

@[simp] theorem decode_encode (text : List UInt8) : decode (encode text) = text := by
  simpa using decode_encode_append text []

theorem encode_injective : Function.Injective encode := by
  intro first second same
  rw [← decode_encode first, same, decode_encode]

theorem encode_append (first second : List UInt8) :
    encode (first ++ second) = encode first ++ encode second := List.flatMap_append

/-- Every byte that is not kept takes two more characters. -/
theorem length_encode (text : List UInt8) :
    (encode text).length = text.length + 2 * text.countP fun c => !unreserved c := by
  induction text with
  | nil => rfl
  | cons c text ih =>
    rw [encode, List.flatMap_cons, List.length_append, ← encode, ih, List.countP_cons, List.length_cons]
    cases kept : unreserved c with
    | false =>
      have three : (encodeByte c).length = 3 := by
        rw [encodeByte, kept]
        rfl
      simp only [three, Bool.not_false, if_true]
      omega
    | true =>
      have one : (encodeByte c).length = 1 := by
        rw [encodeByte, kept]
        rfl
      simp only [one, Bool.not_true]
      simp
      omega

/-- A string is its own encoding exactly when every byte is kept. -/
theorem encode_eq_self_iff (text : List UInt8) : encode text = text ↔ ∀ c ∈ text, unreserved c = true := by
  constructor
  · intro same
    have lengths := length_encode text
    rw [same] at lengths
    have none_escaped : (text.countP fun c => !unreserved c) = 0 := by omega
    simpa using List.countP_eq_zero.mp none_escaped
  · intro all
    induction text with
    | nil => rfl
    | cons c text ih =>
      obtain ⟨kept, later⟩ := List.forall_mem_cons.mp all
      rw [encode, List.flatMap_cons, ← encode, ih later, encodeByte, kept]
      rfl

/-- The characters of encoded strings. -/
def plain (c : UInt8) : Bool := unreserved c || c == 37

theorem plain_of_unreserved {c : UInt8} (kept : unreserved c = true) : plain c = true := by
  rw [plain, kept, Bool.true_or]

theorem encodeByte_plain (byte : UInt8) : (encodeByte byte).all plain = true := by
  revert byte
  exact forall_byte (by decide +kernel)

theorem encode_plain (text : List UInt8) : ∀ c ∈ encode text, plain c = true := by
  intro c member
  obtain ⟨byte, -, here⟩ := List.mem_flatMap.mp member
  exact List.all_eq_true.mp (encodeByte_plain byte) c here

/-- What has only plain characters has no separators. -/
theorem notMem_of_plain {text : List UInt8} (all : ∀ c ∈ text, plain c = true) {sep : UInt8}
    (separates : plain sep = false) : sep ∉ text := by
  intro member
  rw [all sep member] at separates
  cases separates

/-! ### Form data -/

/-- A field is cut at its first `=`; without one it is all name. -/
def cutField (field : List UInt8) : List UInt8 × List UInt8 :=
  (field.takeWhile (· != 61), (field.dropWhile (· != 61)).drop 1)

/-- The fields of form data, encoded as they are; empty ones do not count. -/
def fields (text : List UInt8) : List (List UInt8 × List UInt8) :=
  ((text.splitOn 38).filter fun field => !field.isEmpty).map cutField

/-- The parameters of form data. -/
def formParams (text : List UInt8) : List (List UInt8 × List UInt8) :=
  (fields text).map fun field => (formDecode field.1, formDecode field.2)

/-- A field from its name and value. -/
def field (param : List UInt8 × List UInt8) : List UInt8 := param.1 ++ 61 :: param.2

/-- Fields put together. -/
def joinFields (params : List (List UInt8 × List UInt8)) : List UInt8 :=
  [38].intercalate (params.map field)

theorem joinFields_cons (param : List UInt8 × List UInt8) (params : List (List UInt8 × List UInt8)) :
    joinFields (param :: params) = field param ++ params.flatMap fun param => 38 :: field param := by
  induction params generalizing param with
  | nil => simp [joinFields]
  | cons next params ih =>
    have opened : joinFields (param :: next :: params) = field param ++ 38 :: joinFields (next :: params) := by
      simp [joinFields, List.intercalate_cons_of_ne_nil]
    rw [opened, ih, List.flatMap_cons, List.cons_append]

theorem cutField_append {name : List UInt8} (free : 61 ∉ name) (value : List UInt8) :
    cutField (name ++ 61 :: value) = (name, value) := by
  have all : ∀ c ∈ name, (c != 61) = true := by
    intro c member
    rw [bne_iff_ne]
    rintro rfl
    exact free member
  simp [cutField, List.takeWhile_append_of_pos all, List.dropWhile_append_of_pos all]

theorem cutField_field {param : List UInt8 × List UInt8} (free : 61 ∉ param.1) :
    cutField (field param) = param := cutField_append free param.2

/-- **The fields of joined fields** are those that were joined. -/
theorem fields_joinFields {params : List (List UInt8 × List UInt8)}
    (names : ∀ param ∈ params, 61 ∉ param.1 ∧ 38 ∉ param.1) (values : ∀ param ∈ params, 38 ∉ param.2) :
    fields (joinFields params) = params := by
  by_cases empty : params = []
  · subst empty
    rfl
  · have free : ∀ text ∈ params.map field, 38 ∉ text := by
      intro text member
      obtain ⟨param, here, rfl⟩ := List.mem_map.mp member
      simp [field, names param here, values param here]
    have some_byte : ∀ text ∈ params.map field, (!text.isEmpty) = true := by
      intro text member
      obtain ⟨param, here, rfl⟩ := List.mem_map.mp member
      simp [field]
    rw [fields, joinFields, List.splitOn_intercalate 38 free (by simpa using empty),
      List.filter_eq_self.mpr some_byte, List.map_map]
    calc params.map (cutField ∘ field) = params.map id :=
          List.map_congr_left fun param here => cutField_field (names param here).1
      _ = params := List.map_id params

end PercentEncoding
