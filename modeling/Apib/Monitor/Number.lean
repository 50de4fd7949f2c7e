/-
**Numbers as text.**

The monitoring server prints a usage with `std::fixed` and `std::setprecision(2)`; the client reads it
back with `strtod`. A `Usage` is the value of the `double` to the two decimals that are printed, and
what `strtod` gives is an exact rational, before it is rounded to a `double`.

* `strtod_text`: a printed usage is read back as its value, whatever comes after the newline.
-/

import Mathlib.Algebra.Field.Rat
import Mathlib.Tactic.NormNum
import Apib.Library.Numerals
import Apib.HttpParser.State

namespace Apib.Monitor

open Numerals

/-! ### `strtod` -/

/-- What `strtod` can give. -/
inductive Double
  | finite (value : Rat)
  | infinite (negative : Bool)
  | nan
  deriving DecidableEq, Repr

/-- Digits with a point among them: their value without it, the number of digits behind it, and the
rest. -/
def scanMantissa (base : Nat) (text : Bytes) : Option (Nat × Nat × Bytes) :=
  let (whole, before, rest) := scanDigits base 0 0 text
  match rest with
  | 46 :: after =>
    let (mantissa, behind, rest) := scanDigits base whole 0 after
    if before + behind = 0 then none else some (mantissa, behind, rest)
  | _ => if before = 0 then none else some (whole, 0, rest)

/-- The exponent behind a marker. -/
def scanExponent (marker : UInt8) : Bytes → Bool × Nat
  | c :: after =>
    if tolower c = marker then
      let (negative, digits) := scanSign after
      (negative, (scanDigits 10 0 0 digits).1)
    else (false, 0)
  | [] => (false, 0)

/-- A number in a base, with an exponent of another. -/
def scanNumber (base expBase : Nat) (marker : UInt8) (text : Bytes) : Option Rat :=
  (scanMantissa base text).map fun (mantissa, behind, rest) =>
    let (negative, exponent) := scanExponent marker rest
    let value : Rat := (mantissa : Rat) / ((base ^ behind : Nat) : Rat)
    if negative then value / ((expBase ^ exponent : Nat) : Rat)
    else value * ((expBase ^ exponent : Nat) : Rat)

/-- A number in hexadecimal, behind `0x`. -/
def scanHex : Bytes → Option Rat
  | 48 :: x :: after => if tolower x = 120 then scanNumber 16 2 112 after else none
  | _ => none

/-- The function `strtod`; where there is no number it gives 0. -/
def strtod (buf : Bytes) : Double :=
  let (negative, body) := scanSign (buf.dropWhile isspace)
  if (body.take 3).map tolower = ascii "inf" then .infinite negative
  else if (body.take 3).map tolower = ascii "nan" then .nan
  else
    let value := ((scanHex body).or (scanNumber 10 10 101 body)).getD 0
    .finite (if negative then -value else value)

/-! ### Printing with two decimals -/

/-- A usage, to two decimals. -/
structure Usage where
  negative : Bool := false
  whole : Nat
  cents : Fin 100
  deriving DecidableEq, Repr

namespace Usage

variable (u : Usage)

/-- The reply that carries a usage. -/
def text : Bytes :=
  (if u.negative then [45] else []) ++ decimal u.whole ++
    [46, digitChar (u.cents / 10), digitChar (u.cents % 10), 10]

/-- The number that is printed. -/
def value : Rat :=
  let size : Rat := ((u.whole * 100 + u.cents : Nat) : Rat) / 100
  if u.negative then -size else size

end Usage

/-! ### Reading back -/

/-- No digit, and no point, is anything else that `strtod` looks for in front. -/
theorem front_digit {digit : Nat} (small : digit < 10) :
    isspace (digitChar digit) = false ∧ digitChar digit ≠ 45 ∧ digitChar digit ≠ 43 ∧
      tolower (digitChar digit) ≠ 105 ∧ tolower (digitChar digit) ≠ 110 ∧
      tolower (digitChar digit) ≠ 120 := by
  interval_cases digit <;> decide

theorem scanMantissa_text (u : Usage) (memory : Bytes) :
    scanMantissa 10 (decimal u.whole ++
      46 :: digitChar (u.cents / 10) :: digitChar (u.cents % 10) :: 10 :: memory) =
      some (u.whole * 100 + u.cents, 2, 10 :: memory) := by
  obtain ⟨digits, some_digit, small, text, total⟩ := decimal_digits u.whole
  have some_length : digits.length ≠ 0 := by simpa using some_digit
  have below : u.cents.val < 100 := u.cents.isLt
  have small_cents : ∀ digit ∈ [u.cents.val / 10, u.cents.val % 10], digit < 10 := by
    simp
    omega
  have behind := scanDigits_map small_cents u.whole 0 (10 :: memory)
  have stop : digitOf 10 10 = none := by decide
  rw [scanDigits_stop stop] at behind
  have front := scanDigits_map small 0 0
    (46 :: digitChar (u.cents / 10) :: digitChar (u.cents % 10) :: 10 :: memory)
  rw [total, scanDigits_stop (by decide)] at front
  have joined : (u.whole * 10 + u.cents.val / 10) * 10 + u.cents.val % 10 =
      u.whole * 100 + u.cents := by omega
  rw [scanMantissa, text, front]
  simp only [List.map_cons, List.map_nil, List.cons_append, List.nil_append, List.foldl_cons,
    List.foldl_nil, joined] at behind
  simp only [behind]
  simp

theorem scanHex_other {x : UInt8} (no_x : tolower x ≠ 120) (c : UInt8) (after : Bytes) :
    scanHex (c :: x :: after) = none := by
  unfold scanHex
  split
  · next same =>
    obtain ⟨-, same⟩ := List.cons.inj same
    obtain ⟨rfl, -⟩ := List.cons.inj same
    rw [if_neg no_x]
  · rfl

/-- The number behind the sign, when a digit and no `x` come first. -/
theorem strtod_digits {digit : Nat} {x : UInt8} (small : digit < 10) (no_x : tolower x ≠ 120)
    (after : Bytes) (negative : Bool) :
    strtod ((if negative then [45] else []) ++ digitChar digit :: x :: after) =
      let value := (scanNumber 10 10 101 (digitChar digit :: x :: after)).getD 0
      .finite (if negative then -value else value) := by
  obtain ⟨no_space, no_minus, no_plus, no_inf, no_nan, -⟩ := front_digit small
  have body : scanSign (((if negative then [45] else []) ++ digitChar digit :: x :: after).dropWhile
      isspace) = (negative, digitChar digit :: x :: after) := by
    cases negative with
    | true => rfl
    | false =>
      simp only [Bool.false_eq_true, if_false, List.nil_append]
      rw [List.dropWhile_cons_of_neg (by simp [no_space]), scanSign_other no_minus no_plus]
  have inf : ascii "inf" = [105, 110, 102] := by decide
  have nan : ascii "nan" = [110, 97, 110] := by decide
  rw [strtod, body]
  simp only [scanHex_other no_x, inf, nan, List.take_succ_cons, List.map_cons, List.cons.injEq,
    no_inf, no_nan, false_and, if_false, Option.none_or]

/-- **A printed usage is read back as its value**, whatever comes after it. -/
theorem strtod_text (u : Usage) (memory : Bytes) : strtod (u.text ++ memory) = .finite u.value := by
  have mantissa := scanMantissa_text u memory
  obtain ⟨digits, some_digit, small, text, -⟩ := decimal_digits u.whole
  obtain ⟨digit, others, rfl⟩ := List.exists_cons_of_ne_nil some_digit
  have number : scanNumber 10 10 101 (decimal u.whole ++
      46 :: digitChar (u.cents / 10) :: digitChar (u.cents % 10) :: 10 :: memory) =
      some (((u.whole * 100 + u.cents : Nat) : Rat) / 100) := by
    have marker : tolower 10 ≠ 101 := by decide
    simp only [scanNumber, mantissa, scanExponent, marker, Option.map_some, if_false]
    norm_num
  have split : ∃ x after, tolower x ≠ 120 ∧ decimal u.whole ++
      46 :: digitChar (u.cents / 10) :: digitChar (u.cents % 10) :: 10 :: memory =
        digitChar digit :: x :: after := by
    rw [text]
    cases others with
    | nil => exact ⟨46, _, by decide, rfl⟩
    | cons next others => exact ⟨digitChar next, _, (front_digit (small next (by simp))).2.2.2.2.2, rfl⟩
  obtain ⟨x, after, no_x, front⟩ := split
  have read := strtod_digits (small digit (by simp)) no_x after u.negative
  rw [← front, number] at read
  simpa [Usage.text, Usage.value] using read

end Apib.Monitor
