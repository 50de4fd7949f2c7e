/-
**Decoding.**

What `decode` does at the front of a string, and where it agrees with form decoding.

* `decode_wellEscaped`: **on a string in which two hexadecimal digits follow every percent sign**,
  `decode` is form decoding.
* `stoi16_pair`, `stoi16_digit`, `stoi16_other`: what `std::stoi` makes of the two characters after a
  percent sign.
-/

import Apib.Library.PercentEncoding
import Apib.OAuth.BaseString

namespace Apib.OAuth

open Numerals PercentEncoding

/-! ### One character in front -/

theorem decode_cons {c : UInt8} (other : c ≠ 37) (rest : Bytes) :
    decode (c :: rest) = (decode rest).map (plusToSpace c :: ·) := by
  match rest with
  | [] => simp [decode, other, plusToSpace]
  | [d] => simp [decode, other, plusToSpace]
  | _ :: _ :: _ => simp [decode, other, plusToSpace]

theorem decode_percent (x y : UInt8) (rest : Bytes) :
    decode (37 :: x :: y :: rest) =
      (stoi16 [x, y]).bind fun ch => (decode rest).map (intToChar ch :: ·) := by
  simp [decode]

theorem plusToSpace_ne {c : UInt8} (other : c ≠ 37) : plusToSpace c ≠ 37 := by
  unfold plusToSpace
  split
  · decide
  · exact other

theorem formDecode_cons {c : UInt8} (other : c ≠ 37) (rest : Bytes) :
    formDecode (c :: rest) = plusToSpace c :: formDecode rest := by
  rw [formDecode, List.map_cons, PercentEncoding.decode_cons (plusToSpace_ne other), ← formDecode]

theorem digitOf_plusToSpace (c : UInt8) : digitOf 16 (plusToSpace c) = digitOf 16 c := by
  revert c
  exact forall_byte (by decide +kernel)

theorem hexPair_plusToSpace (x y : UInt8) :
    hexPair (plusToSpace x) (plusToSpace y) = hexPair x y := by
  simp only [hexPair, digitOf_plusToSpace]

theorem formDecode_escape {x y byte : UInt8} (pair : hexPair x y = some byte) (rest : Bytes) :
    formDecode (37 :: x :: y :: rest) = byte :: formDecode rest := by
  rw [← hexPair_plusToSpace] at pair
  have percent : plusToSpace 37 = 37 := by decide
  simp only [formDecode, List.map_cons, percent]
  exact decode_escape pair _

theorem formDecode_literal {x y : UInt8} (no_pair : hexPair x y = none) (rest : Bytes) :
    formDecode (37 :: x :: y :: rest) = 37 :: formDecode (x :: y :: rest) := by
  rw [← hexPair_plusToSpace] at no_pair
  have percent : plusToSpace 37 = 37 := by decide
  simp only [formDecode, List.map_cons, percent]
  exact decode_literal no_pair _

/-- A percent sign that two digits do not follow stands for itself. -/
theorem formDecode_percent {text : Bytes} (no_pair : ∀ x y rest, text = x :: y :: rest → hexPair x y = none) :
    formDecode (37 :: text) = 37 :: formDecode text := by
  match text with
  | [] => rfl
  | [_] => rfl
  | x :: y :: rest => exact formDecode_literal (no_pair x y rest rfl) rest

theorem hexPair_none {x y : UInt8} (no_digit : digitOf 16 x = none ∨ digitOf 16 y = none) :
    hexPair x y = none := by
  unfold hexPair
  split
  · next high low first second => simp [first, second] at no_digit
  · rfl

/-! ### `std::stoi` -/

/-- The hexadecimal digits. -/
def hexDigits : Bytes := ascii "0123456789ABCDEFabcdef"

theorem mem_hexDigits (c : UInt8) : (digitOf 16 c).isSome → c ∈ hexDigits := by
  revert c
  exact forall_byte (by decide +kernel)

theorem hexPair_digits {x y byte : UInt8} (pair : hexPair x y = some byte) :
    (digitOf 16 x).isSome ∧ (digitOf 16 y).isSome := by
  unfold hexPair at pair
  split at pair
  · next high low first second => simp [first, second]
  · cases pair

theorem hexPair_isSome {x y byte : UInt8} (pair : hexPair x y = some byte) :
    x ∈ hexDigits ∧ y ∈ hexDigits :=
  ⟨mem_hexDigits x (hexPair_digits pair).1, mem_hexDigits y (hexPair_digits pair).2⟩

/-- Two digits are read as the byte they stand for. -/
theorem stoi16_pair {x y byte : UInt8} (pair : hexPair x y = some byte) :
    (stoi16 [x, y]).map intToChar = some byte := by
  have each : ∀ x ∈ hexDigits, ∀ y ∈ hexDigits, (stoi16 [x, y]).map intToChar = hexPair x y :=
    forall_listed_pair (by decide +kernel)
  rw [each x (hexPair_isSome pair).1 y (hexPair_isSome pair).2, pair]

/-- What `stoi16` does with at most two characters behind white space and a sign. -/
theorem stoi16_scan {tmp : Bytes} (negative : Bool) (digits : Bytes)
    (front : scanSign ((tmp.takeWhile (· != 0)).dropWhile isspace) = (negative, digits))
    (short : digits.length ≤ 2) :
    stoi16 tmp =
      if (scanDigits 16 0 0 digits).2.1 = 0 then none
      else some (if negative then -((scanDigits 16 0 0 digits).1 : Int)
        else (scanDigits 16 0 0 digits).1) := by
  have no_prefix : ∀ x d rest, digits ≠ 48 :: x :: d :: rest := by
    rintro x d rest rfl
    simp at short
  unfold stoi16
  rw [front]
  simp only

/-- A digit is no white space, no sign and not the end of the string. -/
theorem hexDigit_front {x : UInt8} (digit : (digitOf 16 x).isSome) :
    x ≠ 0 ∧ isspace x = false ∧ x ≠ 45 ∧ x ≠ 43 ∧ x ≠ 37 ∧ plusToSpace x = x ∧
      appendEncodedChar x = [x] ∧ encodeByte x = [x] := by
  have each : ∀ x ∈ hexDigits, x ≠ 0 ∧ isspace x = false ∧ x ≠ 45 ∧ x ≠ 43 ∧ x ≠ 37 ∧
      plusToSpace x = x ∧ appendEncodedChar x = [x] ∧ encodeByte x = [x] :=
    forall_listed (by decide +kernel)
  exact each x (mem_hexDigits x digit)

/-- **One digit and something else** is read as the digit. -/
theorem stoi16_digit {x y : UInt8} {high : Nat} (digit : digitOf 16 x = some high)
    (no_digit : digitOf 16 y = none) : stoi16 [x, y] = some (high : Int) := by
  obtain ⟨no_nul, no_space, no_minus, no_plus, -⟩ := hexDigit_front (x := x) (by simp [digit])
  by_cases nul : y = 0
  · have front : scanSign (([x, y].takeWhile (· != 0)).dropWhile isspace) = (false, [x]) := by
      simp [nul, no_nul, no_space, scanSign_other no_minus no_plus]
    rw [stoi16_scan _ _ front (by simp)]
    simp [scanDigits, digit]
  · have front : scanSign (([x, y].takeWhile (· != 0)).dropWhile isspace) = (false, [x, y]) := by
      simp [nul, no_nul, no_space, scanSign_other no_minus no_plus]
    rw [stoi16_scan _ _ front (by simp)]
    simp [scanDigits, digit, no_digit]

/-- **Something else and then a digit** is read as the digit only behind white space or a sign. -/
theorem stoi16_other {x y : UInt8} {ch : Int} (no_digit : digitOf 16 x = none)
    (read : stoi16 [x, y] = some ch) :
    ∃ low, digitOf 16 y = some low ∧
      (x = 45 ∧ ch = -(low : Int) ∨ (isspace x = true ∨ x = 43) ∧ ch = low) := by
  have fails (negative : Bool)
      (front : scanSign (([x, y].takeWhile (· != 0)).dropWhile isspace) = (negative, [])) : False := by
    rw [stoi16_scan _ _ front (by simp)] at read
    simp [scanDigits] at read
  have lone (negative : Bool)
      (front : scanSign (([x, y].takeWhile (· != 0)).dropWhile isspace) = (negative, [y])) :
      ∃ low, digitOf 16 y = some low ∧ ch = if negative then -(low : Int) else low := by
    rw [stoi16_scan _ _ front (by simp)] at read
    cases digit : digitOf 16 y with
    | none => simp [scanDigits, digit] at read
    | some low => exact ⟨low, rfl, by simpa [scanDigits, digit, eq_comm] using read⟩
  have minus : isspace 45 = false := by decide
  have plus : isspace 43 = false := by decide
  by_cases x_nul : x = 0
  · exact (fails false (by simp [x_nul, scanSign])).elim
  by_cases x_space : isspace x = true
  · -- white space is skipped, and then nothing but a digit can follow
    by_cases y_nul : y = 0
    · exact (fails false (by simp [x_nul, x_space, y_nul, scanSign])).elim
    by_cases y_space : isspace y = true
    · exact (fails false (by simp [x_nul, x_space, y_nul, y_space, scanSign])).elim
    by_cases y_minus : y = 45
    · subst y_minus
      exact (fails true (by simp [x_nul, x_space, minus, scanSign])).elim
    by_cases y_plus : y = 43
    · subst y_plus
      exact (fails false (by simp [x_nul, x_space, plus, scanSign])).elim
    obtain ⟨low, digit, value⟩ := lone false
      (by simp [x_nul, x_space, y_nul, y_space, scanSign_other y_minus y_plus])
    exact ⟨low, digit, .inr ⟨.inl x_space, by simpa using value⟩⟩
  by_cases x_minus : x = 45
  · subst x_minus
    by_cases y_nul : y = 0
    · exact (fails true (by simp [y_nul, minus, scanSign])).elim
    · obtain ⟨low, digit, value⟩ := lone true (by simp [y_nul, minus, scanSign])
      exact ⟨low, digit, .inl ⟨rfl, by simpa using value⟩⟩
  by_cases x_plus : x = 43
  · subst x_plus
    by_cases y_nul : y = 0
    · exact (fails false (by simp [y_nul, plus, scanSign])).elim
    · obtain ⟨low, digit, value⟩ := lone false (by simp [y_nul, plus, scanSign])
      exact ⟨low, digit, .inr ⟨.inr rfl, by simpa using value⟩⟩
  -- anything else is no number
  by_cases y_nul : y = 0
  · rw [stoi16_scan false [x]
      (by simp [x_nul, x_space, y_nul, scanSign_other x_minus x_plus]) (by simp)] at read
    simp [scanDigits, no_digit] at read
  · rw [stoi16_scan false [x, y]
      (by simp [x_nul, x_space, y_nul, scanSign_other x_minus x_plus]) (by simp)] at read
    simp [scanDigits, no_digit] at read

/-! ### Well-formed escapes -/

/-- Two hexadecimal digits follow every percent sign. -/
def WellEscaped : Bytes → Prop
  | [] => True
  | [c] => c ≠ 37
  | [c, d] => c ≠ 37 ∧ d ≠ 37
  | c :: x :: y :: rest =>
    if c = 37 then (hexPair x y).isSome ∧ WellEscaped rest else WellEscaped (x :: y :: rest)

theorem wellEscaped_cons {c : UInt8} (other : c ≠ 37) (rest : Bytes) :
    WellEscaped (c :: rest) ↔ WellEscaped rest := by
  match rest with
  | [] => simp [WellEscaped, other]
  | [d] => simp [WellEscaped, other]
  | _ :: _ :: _ => simp [WellEscaped, other]

theorem wellEscaped_percent (x y : UInt8) (rest : Bytes) :
    WellEscaped (37 :: x :: y :: rest) ↔ (hexPair x y).isSome ∧ WellEscaped rest := by
  simp [WellEscaped]

/-- **Induction from the front**: another character, a percent sign too near to the end, or a percent
sign and two characters, which may be an escape or not. -/
theorem front_induction {P : Bytes → Prop} (nil : P []) (cons : ∀ c rest, c ≠ 37 → P rest → P (c :: rest))
    (one : P [37]) (two : ∀ x, P [x] → P [37, x])
    (escape : ∀ x y rest, P rest → P (x :: y :: rest) → P (37 :: x :: y :: rest)) (text : Bytes) :
    P text := by
  match text with
  | [] => exact nil
  | c :: rest =>
    have later : P rest := front_induction nil cons one two escape rest
    by_cases percent : c = 37
    · subst percent
      match rest with
      | [] => exact one
      | [x] => exact two x later
      | x :: y :: rest => exact escape x y rest (front_induction nil cons one two escape rest) later
    · exact cons c rest percent later

/-- **On well-formed escapes `decode` is form decoding.** -/
theorem decode_wellEscaped {text : Bytes} (well : WellEscaped text) :
    decode text = some (formDecode text) := by
  induction text using front_induction with
  | nil => rfl
  | cons c rest other ih =>
    rw [decode_cons other, formDecode_cons other, ih ((wellEscaped_cons other rest).mp well),
      Option.map_some]
  | one => exact absurd rfl well
  | two x _ => exact absurd rfl well.1
  | escape x y rest ih _ =>
    obtain ⟨pair, well⟩ := (wellEscaped_percent x y rest).mp well
    obtain ⟨byte, pair⟩ := Option.isSome_iff_exists.mp pair
    obtain ⟨ch, read, same⟩ := Option.map_eq_some_iff.mp (stoi16_pair pair)
    rw [decode_percent, formDecode_escape pair, read, ih well, Option.bind_some, Option.map_some, same]

/-- A character that is neither a percent sign nor a digit separates. -/
theorem formDecode_append {sep : UInt8} (other : sep ≠ 37) (no_digit : digitOf 16 sep = none)
    (first rest : Bytes) :
    formDecode (first ++ sep :: rest) = formDecode first ++ plusToSpace sep :: formDecode rest := by
  induction first using front_induction with
  | nil => rw [List.nil_append, formDecode_cons other]; rfl
  | cons c text other_c ih =>
    rw [List.cons_append, formDecode_cons other_c, formDecode_cons other_c, ih, List.cons_append]
  | one =>
    have literal : formDecode (37 :: sep :: rest) = 37 :: formDecode (sep :: rest) := by
      refine formDecode_percent fun x y text same => hexPair_none (.inl ?_)
      rwa [← (List.cons.inj same).1]
    rw [List.singleton_append, literal, formDecode_cons other]
    rfl
  | two x ih =>
    have literal : formDecode (37 :: x :: sep :: rest) = 37 :: formDecode (x :: sep :: rest) :=
      formDecode_literal (hexPair_none (.inr no_digit)) rest
    have alone : formDecode [37, x] = 37 :: formDecode [x] := rfl
    rw [List.singleton_append] at ih
    rw [List.cons_append, List.singleton_append, literal, ih, alone, List.cons_append]
  | escape x y text ih later =>
    cases pair : hexPair x y with
    | some byte =>
      rw [List.cons_append, List.cons_append, List.cons_append, formDecode_escape pair,
        formDecode_escape pair, ih, List.cons_append]
    | none =>
      rw [List.cons_append, List.cons_append] at later
      rw [List.cons_append, List.cons_append, List.cons_append, formDecode_literal pair,
        formDecode_literal pair, later, List.cons_append]

end Apib.OAuth
