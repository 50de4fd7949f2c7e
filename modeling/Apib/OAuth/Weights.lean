/-
**Weighing encoded strings.**

Where `decode` or `appendEncoded` departs from form decoding or percent-encoding, nothing in the base
string makes up for it. The proof weighs encoded strings character by character, with weights chosen so
that every departure takes something away.

* `decode_behind`: what the code decodes and encodes has at most the percent signs and the weight of what
  is form-decoded and percent-encoded, and the same weight only if every escape is well formed and
  every byte is encoded as it is to be.
-/

import Apib.OAuth.Decoding

namespace Apib.OAuth

open Numerals PercentEncoding

/-! ### Encoding -/

/-- The bytes that `appendEncoded` encodes with two digits, or not at all. -/
def Encodable (c : UInt8) : Prop := 16 ≤ c ∧ c < 128

instance (c : UInt8) : Decidable (Encodable c) := inferInstanceAs (Decidable (_ ∧ _))

/-- The sum of the weights of the characters. -/
def total (weight : UInt8 → Int) : Bytes → Int
  | [] => 0
  | c :: text => weight c + total weight text

/-- A percent sign counts. -/
def percent (c : UInt8) : Int := if c = 37 then 1 else 0

/-- The weight of a character. -/
def weight (c : UInt8) : Int :=
  if c = 37 then 20 else if c = 50 then 3 else if c = 48 then 1 else if c = 70 then -1
  else if c = 66 ∨ c = 98 then 1 else if (digitOf 16 c).isSome then 0 else 1

section Total

variable (measure : UInt8 → Int)

@[simp] theorem total_nil : total measure [] = 0 := rfl

@[simp] theorem total_append (first second : Bytes) :
    total measure (first ++ second) = total measure first + total measure second := by
  induction first with
  | nil => simp
  | cons c first ih => rw [List.cons_append, total, total, ih, Int.add_assoc]

theorem total_appendEncoded (c : UInt8) (rest : Bytes) :
    total measure (appendEncoded (c :: rest)) =
      total measure (appendEncodedChar c) + total measure (appendEncoded rest) := by
  rw [appendEncoded, List.flatMap_cons, total_append, ← appendEncoded]

theorem total_encode (c : UInt8) (rest : Bytes) :
    total measure (encode (c :: rest)) = total measure (encodeByte c) + total measure (encode rest) := by
  rw [encode, List.flatMap_cons, total_append, ← encode]

end Total

theorem percent_nonneg (text : Bytes) : 0 ≤ total percent text := by
  induction text with
  | nil => exact Int.le_refl 0
  | cons c text ih =>
    have first : 0 ≤ percent c := by
      unfold percent
      split <;> decide
    rw [total]
    omega

/-- The two encodings of a byte, tried on every byte. -/
theorem encodings_checked (c : UInt8) :
    (total percent (appendEncodedChar c) = total percent (encodeByte c) ∧
        total percent (appendEncodedChar c) ≤ 1) ∧
      (total weight (appendEncodedChar c) < total weight (encodeByte c) ∨
        appendEncodedChar c = encodeByte c ∧ Encodable c) ∧
      (Encodable c → appendEncodedChar c = encodeByte c) ∧ -1 ≤ total weight (encodeByte c) := by
  revert c
  exact forall_byte (by decide +kernel)

/-- Both encodings of a byte have the same number of percent signs, at most one. -/
theorem percent_byte (c : UInt8) :
    total percent (appendEncodedChar c) = total percent (encodeByte c) ∧
      total percent (appendEncodedChar c) ≤ 1 :=
  (encodings_checked c).1

/-- **The code's encoding of a byte is lighter** than percent-encoding, or the byte is encodable. -/
theorem weight_cases (c : UInt8) :
    total weight (appendEncodedChar c) < total weight (encodeByte c) ∨
      appendEncodedChar c = encodeByte c ∧ Encodable c :=
  (encodings_checked c).2.1

theorem weight_byte (c : UInt8) : total weight (appendEncodedChar c) ≤ total weight (encodeByte c) := by
  rcases weight_cases c with lighter | ⟨same, -⟩
  · exact Int.le_of_lt lighter
  · rw [same]

theorem weight_byte_exact (c : UInt8) (same : total weight (appendEncodedChar c) = total weight (encodeByte c)) :
    Encodable c := by
  rcases weight_cases c with lighter | ⟨-, encodable⟩
  · exact absurd same (Int.ne_of_lt lighter)
  · exact encodable

theorem appendEncodedChar_eq (c : UInt8) : Encodable c → appendEncodedChar c = encodeByte c :=
  (encodings_checked c).2.2.1

/-! ### What is made and what is due -/

section Measured

variable (measure : UInt8 → Int)

/-- The measure of what the code makes of a decoded string. -/
def made (decoded : Bytes) : Int := total measure (appendEncoded decoded)

/-- The measure of what is to be made of a string. -/
def due (text : Bytes) : Int := total measure (encode (formDecode text))

theorem made_cons (c : UInt8) (decoded : Bytes) :
    made measure (c :: decoded) = total measure (appendEncodedChar c) + made measure decoded :=
  total_appendEncoded measure c decoded

theorem due_cons {c : UInt8} (other : c ≠ 37) (rest : Bytes) :
    due measure (c :: rest) = total measure (encodeByte (plusToSpace c)) + due measure rest := by
  rw [due, formDecode_cons other, total_encode, ← due]

theorem due_escape {x y byte : UInt8} (pair : hexPair x y = some byte) (rest : Bytes) :
    due measure (37 :: x :: y :: rest) = total measure (encodeByte byte) + due measure rest := by
  rw [due, formDecode_escape pair, total_encode, ← due]

theorem due_percent {text : Bytes} (no_pair : ∀ x y rest, text = x :: y :: rest → hexPair x y = none) :
    due measure (37 :: text) = total measure (encodeByte 37) + due measure text := by
  rw [due, formDecode_percent no_pair, total_encode, ← due]

end Measured

theorem weight_least (c : UInt8) : -1 ≤ total weight (encodeByte c) := (encodings_checked c).2.2.2

theorem weight_percent : total weight (encodeByte 37) = 23 := rfl

theorem percent_percent : total percent (encodeByte 37) = 1 := rfl

/-- Two digits weigh less than three above the byte they stand for, and have no percent sign. -/
theorem pair_light {x y byte : UInt8} (pair : hexPair x y = some byte) :
    total weight (encodeByte x) + total weight (encodeByte y) < total weight (encodeByte byte) + 3 ∧
      total percent (encodeByte x) + total percent (encodeByte y) ≤ total percent (encodeByte byte) := by
  have each : ∀ x ∈ hexDigits, ∀ y ∈ hexDigits, ((hexPair x y).all fun byte => decide
      (total weight (encodeByte x) + total weight (encodeByte y) < total weight (encodeByte byte) + 3 ∧
        total percent (encodeByte x) + total percent (encodeByte y) ≤
          total percent (encodeByte byte))) = true := forall_listed_pair (by decide +kernel)
  have here := each x (hexPair_isSome pair).1 y (hexPair_isSome pair).2
  rw [pair] at here
  exact of_decide_eq_true here

/-- **A character more** takes at most two from what is due, and no percent sign. -/
theorem due_more (c : UInt8) (text : Bytes) :
    due weight text ≤ due weight (c :: text) + 2 ∧ due percent text ≤ due percent (c :: text) := by
  by_cases other : c = 37
  · subst other
    by_cases pair : ∃ x y rest byte, text = x :: y :: rest ∧ hexPair x y = some byte
    · -- the percent sign takes two digits away, which weigh little
      obtain ⟨x, y, rest, byte, rfl, pair⟩ := pair
      obtain ⟨first, second⟩ := hexPair_digits pair
      obtain ⟨-, -, -, -, x_other, x_same, -⟩ := hexDigit_front first
      obtain ⟨-, -, -, -, y_other, y_same, -⟩ := hexDigit_front second
      have light := pair_light pair
      rw [due_escape _ pair, due_escape _ pair, due_cons _ x_other, due_cons _ x_other,
        due_cons _ y_other, due_cons _ y_other, x_same, y_same]
      omega
    · have no_pair : ∀ x y rest, text = x :: y :: rest → hexPair x y = none := by
        intro x y rest same
        rw [Option.eq_none_iff_forall_ne_some]
        exact fun byte read => pair ⟨x, y, rest, byte, same, read⟩
      rw [due_percent _ no_pair, due_percent _ no_pair, weight_percent, percent_percent]
      omega
  · have least := weight_least (plusToSpace c)
    have count := percent_nonneg (encodeByte (plusToSpace c))
    rw [due_cons _ other, due_cons _ other]
    omega

/-- **A percent sign without two digits**: what `std::stoi` makes of the next two characters weighs less
than the percent sign and the first of them by more than two. -/
theorem spoiled {x y : UInt8} {ch : Int} (no_pair : hexPair x y = none) (read : stoi16 [x, y] = some ch) :
    x ≠ 37 ∧ total weight (appendEncodedChar (intToChar ch)) <
      21 + total weight (encodeByte (plusToSpace x)) := by
  cases digit : digitOf 16 x with
  | some high =>
    have no_digit : digitOf 16 y = none := by
      cases second : digitOf 16 y with
      | none => rfl
      | some low => simp [hexPair, digit, second] at no_pair
    have member := mem_hexDigits x (by simp [digit])
    rw [stoi16_digit digit no_digit] at read
    obtain rfl := Option.some.inj read
    have each : ∀ x ∈ hexDigits, x ≠ 37 ∧ ∀ high ∈ digitOf 16 x,
        total weight (appendEncodedChar (intToChar high)) <
          21 + total weight (encodeByte (plusToSpace x)) := forall_listed (by decide +kernel)
    exact ⟨(each x member).1, (each x member).2 high digit⟩
  | none =>
    obtain ⟨low, digit_y, here⟩ := stoi16_other digit read
    have small := digitOf_lt digit_y
    rcases here with ⟨rfl, rfl⟩ | ⟨front, rfl⟩
    · have each : ∀ low < 16, total weight (appendEncodedChar (intToChar (-(low : Nat)))) <
          21 + total weight (encodeByte (plusToSpace 45)) := by decide +kernel
      exact ⟨by decide, each low small⟩
    · have listed (x : UInt8) : isspace x = true ∨ x = 43 → x ∈ ([9, 10, 11, 12, 13, 32, 43] : Bytes) := by
        revert x
        exact forall_byte (by decide +kernel)
      have heavy : ∀ x ∈ ([9, 10, 11, 12, 13, 32, 43] : Bytes),
          x ≠ 37 ∧ 18 ≤ total weight (encodeByte (plusToSpace x)) := forall_listed (by decide +kernel)
      have light : ∀ low < 16, total weight (appendEncodedChar (intToChar (low : Nat))) < 39 := by
        decide +kernel
      have first := heavy x (listed x front)
      have second := light low small
      exact ⟨first.1, by omega⟩

/-- What the code makes of a decoded string is behind what is to be made of the string. -/
structure Behind (text decoded : Bytes) : Prop where
  percents : made percent decoded ≤ due percent text
  weights : made weight decoded ≤ due weight text
  exact : made weight decoded = due weight text → WellEscaped text ∧ ∀ c ∈ decoded, Encodable c

theorem behind_of_lt {text decoded : Bytes} (percents : made percent decoded ≤ due percent text)
    (less : made weight decoded < due weight text) : Behind text decoded where
  percents := percents
  weights := Int.le_of_lt less
  exact same := absurd same (Int.ne_of_lt less)

/-- A byte decoded as it is to be, in front. -/
theorem Behind.byte {byte : UInt8} {text rest decoded : Bytes} (behind : Behind rest decoded)
    (counted : due percent text = total percent (encodeByte byte) + due percent rest)
    (weighed : due weight text = total weight (encodeByte byte) + due weight rest)
    (well : WellEscaped rest → WellEscaped text) : Behind text (byte :: decoded) := by
  have first := (percent_byte byte).1
  have second := weight_byte byte
  have percents := behind.percents
  have weights := behind.weights
  refine ⟨by rw [made_cons]; omega, by rw [made_cons]; omega, fun same => ?_⟩
  rw [made_cons] at same
  have here : Encodable byte := weight_byte_exact byte (by omega)
  obtain ⟨escaped, later⟩ := behind.exact (by omega)
  exact ⟨well escaped, List.forall_mem_cons.mpr ⟨here, later⟩⟩

/-- A percent sign that has no digits after it is due as it is. -/
theorem due_literal (measure : UInt8 → Int) {x y : UInt8} (no_pair : hexPair x y = none) (rest : Bytes) :
    due measure (37 :: x :: y :: rest) = total measure (encodeByte 37) + due measure (x :: y :: rest) := by
  refine due_percent measure fun first second more same => ?_
  obtain ⟨same_first, same⟩ := List.cons.inj same
  rwa [← same_first, ← (List.cons.inj same).1]

/-- A percent sign with one character after it: the code drops both, and the percent sign is due. -/
theorem behind_dropped (x : UInt8) : Behind [37, x] [] := by
  have literal {measure : UInt8 → Int} :
      due measure [37, x] = total measure (encodeByte 37) + due measure [x] :=
    due_percent measure (by rintro x y rest same; cases same)
  have more := due_more x []
  have counted : due percent [] = 0 := rfl
  have weighed : due weight [] = 0 := rfl
  refine behind_of_lt ?_ ?_
  · rw [literal, percent_percent]
    exact Int.le_trans (Int.le_refl 0) (by omega)
  · rw [literal, weight_percent]
    exact Int.lt_of_le_of_lt (Int.le_refl 0) (by omega)

/-- A percent sign without two digits: the code takes the next two characters away with it. -/
theorem Behind.spoiled {x y : UInt8} {ch : Int} (no_pair : hexPair x y = none) (parsed : stoi16 [x, y] = some ch)
    {rest decoded : Bytes} (behind : Behind rest decoded) :
    Behind (37 :: x :: y :: rest) (intToChar ch :: decoded) := by
  obtain ⟨other, light⟩ := OAuth.spoiled no_pair parsed
  have more := due_more y rest
  have count := percent_nonneg (encodeByte (plusToSpace x))
  have single := (percent_byte (intToChar ch)).2
  have percents := behind.percents
  have weights := behind.weights
  refine behind_of_lt ?_ ?_
  · rw [made_cons, due_literal percent no_pair, due_cons _ other, percent_percent]
    omega
  · rw [made_cons, due_literal weight no_pair, due_cons _ other, weight_percent]
    omega

/-- **What the code decodes and encodes is behind** what is form-decoded and percent-encoded. -/
theorem decode_behind {text decoded : Bytes} (read : decode text = some decoded) :
    Behind text decoded := by
  induction text using front_induction generalizing decoded with
  | nil =>
    obtain rfl := Option.some.inj read
    exact ⟨Int.le_refl _, Int.le_refl _, fun _ => ⟨trivial, by simp⟩⟩
  | cons c rest other ih =>
    rw [decode_cons other] at read
    obtain ⟨decoded, here, rfl⟩ := Option.map_eq_some_iff.mp read
    exact (ih here).byte (due_cons percent other rest) (due_cons weight other rest)
      (wellEscaped_cons other rest).mpr
  | one =>
    obtain rfl := Option.some.inj read
    exact behind_of_lt (by decide +kernel) (by decide +kernel)
  | two x _ =>
    obtain rfl : [] = decoded := by simpa [decode] using read
    exact behind_dropped x
  | escape x y rest ih _ =>
    rw [decode_percent] at read
    obtain ⟨ch, parsed, read⟩ := Option.bind_eq_some_iff.mp read
    obtain ⟨decoded, here, rfl⟩ := Option.map_eq_some_iff.mp read
    cases pair : hexPair x y with
    | some byte =>
      have same : intToChar ch = byte := by
        have made := stoi16_pair pair
        rw [parsed, Option.map_some] at made
        exact Option.some.inj made
      rw [same]
      exact (ih here).byte (due_escape percent pair rest) (due_escape weight pair rest)
        fun well => (wellEscaped_percent x y rest).mpr ⟨by simp [pair], well⟩
    | none => exact (ih here).spoiled pair parsed

end Apib.OAuth
