/-
**What `appendEncoded` writes.**

`appendEncoded` prints the value of a `char` as an `int`, without padding: a byte below 16 has one digit
and a byte from 128 has eight. So an escape does not show where it ends, and the escapes of some strings
are those of others.

* `appendEncoded_exact_iff`: the code percent-encodes exactly the strings of bytes from 16 to 127;
* `reads_alike`: with any escape of two digits, one digit can be meant;
* `encoding_iff`: **so only what is not escaped at all has an encoding of its own**.
-/

import Apib.OAuth.Sent

namespace Apib.OAuth

open Numerals PercentEncoding

/-- A string is encoded as it is to be, and no other string is encoded so. -/
structure Faithful (text : Bytes) : Prop where
  exact : appendEncoded text = encode text
  alone : ∀ other, appendEncoded other = appendEncoded text → other = text

/-! ### Bytes -/

theorem appendEncodedChar_unreserved (c : UInt8) : unreserved c = true → appendEncodedChar c = [c] := by
  revert c
  exact forall_byte (by decide +kernel)

/-- An escape begins with a percent sign. -/
theorem appendEncodedChar_escape (c : UInt8) : unreserved c = false → 37 ∈ appendEncodedChar c := by
  revert c
  exact forall_byte (by decide +kernel)

/-- An escape of two digits is an escape of one digit, with a digit behind it. -/
theorem appendEncodedChar_split (c : UInt8) : Encodable c → unreserved c = false →
    appendEncodedChar c = appendEncodedChar (c / 16) ++ appendEncodedChar (digitChar (c.toNat % 16)) := by
  revert c
  exact forall_byte (by decide +kernel)

/-! ### Strings -/

theorem appendEncoded_append (first second : Bytes) :
    appendEncoded (first ++ second) = appendEncoded first ++ appendEncoded second :=
  List.flatMap_append

theorem appendEncoded_cons (c : UInt8) (text : Bytes) :
    appendEncoded (c :: text) = appendEncodedChar c ++ appendEncoded text := List.flatMap_cons

theorem appendEncoded_unreserved {text : Bytes} (all : ∀ c ∈ text, unreserved c = true) :
    appendEncoded text = text := by
  induction text with
  | nil => rfl
  | cons c text ih =>
    obtain ⟨first, later⟩ := List.forall_mem_cons.mp all
    rw [appendEncoded_cons, appendEncodedChar_unreserved c first, ih later, List.singleton_append]

/-- Where no percent sign is written, nothing is escaped. -/
theorem unreserved_of_appendEncoded {text : Bytes} (free : 37 ∉ appendEncoded text) :
    ∀ c ∈ text, unreserved c = true := by
  intro c member
  rw [← Bool.not_eq_false]
  intro reserved
  exact free (List.mem_flatMap.mpr ⟨c, member, appendEncodedChar_escape c reserved⟩)

/-- **The code percent-encodes** exactly the strings of bytes from 16 to 127. -/
theorem appendEncoded_exact_iff (text : Bytes) :
    appendEncoded text = encode text ↔ ∀ c ∈ text, Encodable c := by
  refine ⟨fun same => ?_, appendEncoded_eq⟩
  obtain ⟨-, exact_weight⟩ := total_weight_encoded text
  exact exact_weight (congrArg (total weight) same)

/-- **A string with an escape of two digits reads like another**. -/
theorem reads_alike {text : Bytes} {c : UInt8} (member : c ∈ text) (encodable : Encodable c)
    (reserved : unreserved c = false) :
    ∃ other, appendEncoded other = appendEncoded text ∧ other ≠ text := by
  obtain ⟨front, back, rfl⟩ := List.append_of_mem member
  refine ⟨front ++ c / 16 :: digitChar (c.toNat % 16) :: back, ?_, fun same => ?_⟩
  · rw [appendEncoded_append, appendEncoded_append, appendEncoded_cons, appendEncoded_cons,
      appendEncoded_cons, appendEncodedChar_split c encodable reserved, List.append_assoc]
  · have lengths := congrArg List.length same
    simp at lengths

theorem faithful_iff (text : Bytes) : Faithful text ↔ ∀ c ∈ text, unreserved c = true := by
  constructor
  · rintro ⟨exact, alone⟩ c member
    have encodable := (appendEncoded_exact_iff text).mp exact c member
    rw [← Bool.not_eq_false]
    intro reserved
    obtain ⟨other, same, different⟩ := reads_alike member encodable reserved
    exact different (alone other same)
  · intro all
    have kept := appendEncoded_unreserved all
    refine ⟨appendEncoded_eq fun c member => encodable_of_plain c (plain_of_unreserved (all c member)),
      fun other same => ?_⟩
    have free : 37 ∉ appendEncoded other := by
      rw [same, kept]
      intro member
      cases all 37 member
    rw [← appendEncoded_unreserved (unreserved_of_appendEncoded free), same, kept]

/-- **Percent-encoding by the code**: when it is exact, when decoding gives back the string, and when
besides no other string is encoded so. -/
theorem encoding_iff (text : Bytes) :
    (appendEncoded text = encode text ↔ ∀ c ∈ text, Encodable c) ∧
      (PercentEncoding.decode (appendEncoded text) = text ↔ ∀ c ∈ text, Encodable c) ∧
      (Faithful text ↔ ∀ c ∈ text, unreserved c = true) :=
  ⟨appendEncoded_exact_iff text, carried_iff, faithful_iff text⟩

/-- A line feed has one digit, `é` in UTF-8 has eight digits a byte, and the byte 1 before a `2` reads
like the byte 18. -/
theorem escapes_misread :
    appendEncoded [10] = ascii "%A" ∧ appendEncoded [10] ≠ encode [10] ∧
      appendEncoded [195, 169] = ascii "%FFFFFFC3%FFFFFFA9" ∧
      appendEncoded [195, 169] ≠ encode [195, 169] ∧
      appendEncoded [1, 50] = appendEncoded [18] := by
  decide +kernel

end Apib.OAuth
