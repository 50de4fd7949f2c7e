/-
**Numbers as text.**

Digits, signs and numbers as the C library reads and prints them, over bytes.

* `decimal_digits`: a number in decimal is a row of digits that add up to it;
* `scanDigits_all`: digits in front of a text are read as the number they stand for;
* `scanDigits_map`: a row of digits is read as what it adds up to.
-/

import Mathlib.Algebra.Group.Nat.Defs
import Mathlib.Algebra.GroupWithZero.Nat
import Mathlib.Algebra.Order.Ring.Nat
import Mathlib.Data.Nat.Digits.Defs
import Mathlib.Tactic.IntervalCases

namespace Numerals

/-! ### Properties of bytes -/

/-- A property of bytes that holds for all numbers below 256. -/
theorem forall_byte {P : UInt8 → Prop} (each : ∀ n < 256, P (UInt8.ofNat n)) (byte : UInt8) : P byte := by
  have here := each byte.toNat (UInt8.toNat_lt byte)
  rwa [UInt8.ofNat_toNat] at here

/-- A property of listed bytes, tried on each of them. -/
theorem forall_listed {P : UInt8 → Prop} [DecidablePred P] {bytes : List UInt8}
    (each : (bytes.all fun c => decide (P c)) = true) : ∀ c ∈ bytes, P c := by
  intro c member
  exact of_decide_eq_true (List.all_eq_true.mp each c member)

theorem forall_listed_pair {P : UInt8 → UInt8 → Prop} [∀ x y, Decidable (P x y)] {bytes : List UInt8}
    (each : (bytes.all fun x => bytes.all fun y => decide (P x y)) = true) :
    ∀ x ∈ bytes, ∀ y ∈ bytes, P x y := by
  intro x member
  exact forall_listed (List.all_eq_true.mp each x member)

/-! ### Reading -/

/-- The function `isspace`. -/
def isspace (c : UInt8) : Bool := c == 32 || (9 ≤ c && c ≤ 13)

/-- The function `tolower`. -/
def tolower (c : UInt8) : UInt8 := if 65 ≤ c ∧ c ≤ 90 then c + 32 else c

/-- The value of a digit in a base up to 16. -/
def digitOf (base : Nat) (c : UInt8) : Option Nat :=
  let value :=
    if 48 ≤ c ∧ c ≤ 57 then c.toNat - 48
    else if 97 ≤ tolower c ∧ tolower c ≤ 102 then (tolower c).toNat - 87
    else 16
  if value < base then some value else none

/-- The number that more digits make of a number. -/
def continued (base n : Nat) (digits : List UInt8) : Nat :=
  digits.foldl (fun n c => n * base + (digitOf base c).getD 0) n

/-- The number that digits stand for. -/
def number (base : Nat) (digits : List UInt8) : Nat := continued base 0 digits

/-- The digits in front of a text, after some: their value, their number, and the rest. -/
def scanDigits (base value count : Nat) : List UInt8 → Nat × Nat × List UInt8
  | [] => (value, count, [])
  | c :: rest =>
    match digitOf base c with
    | some digit => scanDigits base (value * base + digit) (count + 1) rest
    | none => (value, count, c :: rest)

/-- The sign in front of a text. -/
def scanSign : List UInt8 → Bool × List UInt8
  | 45 :: rest => (true, rest)
  | 43 :: rest => (false, rest)
  | text => (false, text)

/-! ### Printing -/

/-- The character of a digit, in upper case. -/
def digitChar (digit : Nat) : UInt8 := (if digit < 10 then 48 + digit else 55 + digit).toUInt8

/-- A number in decimal. -/
def decimal (n : Nat) : List UInt8 := if n = 0 then [48] else (Nat.digits 10 n).reverse.map digitChar

/-- A number in hexadecimal, of so many digits at most. -/
def hexadecimal : Nat → Nat → List UInt8
  | 0, _ => []
  | digits + 1, n =>
    if n < 16 then [digitChar n] else hexadecimal digits (n / 16) ++ [digitChar (n % 16)]

/-! ### Numbers of digits -/

theorem digitOf_lt {base : Nat} {c : UInt8} {digit : Nat} (read : digitOf base c = some digit) :
    digit < base := by
  unfold digitOf at read
  obtain ⟨below, same⟩ := Option.ite_none_right_eq_some.mp read
  rwa [← Option.some.inj same]

@[simp] theorem continued_nil (base n : Nat) : continued base n [] = n := rfl

theorem continued_cons {base digit : Nat} {c : UInt8} (found : digitOf base c = some digit) (n : Nat)
    (digits : List UInt8) : continued base n (c :: digits) = continued base (n * base + digit) digits := by
  rw [continued, List.foldl_cons, found, Option.getD_some, continued]

/-- A number does not shrink with more digits. -/
theorem le_continued {base : Nat} (positive : 0 < base) (n : Nat) (digits : List UInt8) :
    n ≤ continued base n digits := by
  induction digits generalizing n with
  | nil => exact Nat.le_refl n
  | cons c digits ih =>
    calc n ≤ n * base + (digitOf base c).getD 0 :=
          (Nat.le_mul_of_pos_right n positive).trans (Nat.le_add_right _ _)
      _ ≤ continued base n (c :: digits) := ih _

/-- **Digits in front of a text** are read as the number they stand for. -/
theorem scanDigits_all {base : Nat} {digits : List UInt8} (each : ∀ c ∈ digits, (digitOf base c).isSome)
    (value count : Nat) (rest : List UInt8) : scanDigits base value count (digits ++ rest) =
      scanDigits base (continued base value digits) (count + digits.length) rest := by
  induction digits generalizing value count with
  | nil => rfl
  | cons c digits ih =>
    obtain ⟨digit, found⟩ := Option.isSome_iff_exists.mp (each c List.mem_cons_self)
    have later := ih (fun other member => each other (List.mem_cons_of_mem _ member))
      (value * base + digit) (count + 1)
    rw [List.cons_append, scanDigits, found, continued_cons found]
    simpa [Nat.add_assoc, Nat.add_comm 1] using later

/-! ### Reading what is printed -/

theorem digitOf_digitChar {digit : Nat} (small : digit < 10) :
    digitOf 10 (digitChar digit) = some digit := by
  interval_cases digit <;> rfl

theorem scanDigits_map {digits : List Nat} (small : ∀ digit ∈ digits, digit < 10)
    (value count : Nat) (rest : List UInt8) :
    scanDigits 10 value count (digits.map digitChar ++ rest) =
      scanDigits 10 (digits.foldl (fun value digit => value * 10 + digit) value)
        (count + digits.length) rest := by
  induction digits generalizing value count with
  | nil => rfl
  | cons digit digits ih =>
    have first := digitOf_digitChar (small digit (by simp))
    have later := ih (fun other member => small other (by simp [member])) (value * 10 + digit)
      (count + 1)
    rw [List.map_cons, List.cons_append, scanDigits, first]
    simpa [Nat.add_assoc, Nat.add_comm 1] using later

theorem scanDigits_stop {base : Nat} {c : UInt8} (other : digitOf base c = none) (value count : Nat)
    (rest : List UInt8) : scanDigits base value count (c :: rest) = (value, count, c :: rest) := by
  rw [scanDigits, other]

/-- **A number in decimal** is a row of digits that add up to it. -/
theorem decimal_digits (n : Nat) :
    ∃ digits, digits ≠ [] ∧ (∀ digit ∈ digits, digit < 10) ∧ decimal n = digits.map digitChar ∧
      digits.foldl (fun value digit => value * 10 + digit) 0 = n := by
  by_cases zero : n = 0
  · exact ⟨[0], by simp, by simp, by simp [decimal, zero, digitChar], by simp [zero]⟩
  · refine ⟨(Nat.digits 10 n).reverse, ?_, ?_, by simp [decimal, zero], ?_⟩
    · simpa [Nat.digits_eq_nil_iff_eq_zero] using zero
    · intro digit member
      exact Nat.digits_lt_base (by decide) (List.mem_reverse.mp member)
    · have total := Nat.ofDigits_digits 10 n
      rw [Nat.ofDigits_eq_foldr] at total
      rw [List.foldl_reverse]
      simpa [Nat.mul_comm, Nat.add_comm] using total

theorem scanSign_other {c : UInt8} (no_minus : c ≠ 45) (no_plus : c ≠ 43) (rest : List UInt8) :
    scanSign (c :: rest) = (false, c :: rest) := by
  unfold scanSign
  split
  · next same =>
    obtain ⟨rfl, -⟩ := List.cons.inj same
    exact absurd rfl no_minus
  · next same =>
    obtain ⟨rfl, -⟩ := List.cons.inj same
    exact absurd rfl no_plus
  · rfl

end Numerals
