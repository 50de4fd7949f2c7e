/-
**Credentials in Base64.**

`base64.c` of the program's own tree: the table `pr2six`, `Base64decode` with the two functions for lengths,
against the `Base64encode` that `-u` and OAuth use. The decoder reads up to the first character that is none
of the alphabet, in groups of four, and what is left of a group behind them.

* `first_byte`, `second_byte`, `third_byte`: three bytes in four groups of six bits, and back;
* `decodeLoop_text`: the loop over what is encoded, without its padding;
* `base64_round_trip`: **what is encoded has the announced length, is of the alphabet, and is decoded to the
  same bytes**, whatever stands behind its end.
-/

import Apib.Main.Headers
import Mathlib.Tactic.IntervalCases

namespace Apib.Main

open Numerals

/-! ### The decoder -/

/-- The array `pr2six`. -/
def pr2six : Bytes := [
  64, 64, 64, 64, 64, 64, 64, 64, 64, 64, 64, 64, 64, 64, 64, 64,
  64, 64, 64, 64, 64, 64, 64, 64, 64, 64, 64, 64, 64, 64, 64, 64,
  64, 64, 64, 64, 64, 64, 64, 64, 64, 64, 64, 62, 64, 64, 64, 63,
  52, 53, 54, 55, 56, 57, 58, 59, 60, 61, 64, 64, 64, 64, 64, 64,
  64, 0, 1, 2, 3, 4, 5, 6, 7, 8, 9, 10, 11, 12, 13, 14,
  15, 16, 17, 18, 19, 20, 21, 22, 23, 24, 25, 64, 64, 64, 64, 64,
  64, 26, 27, 28, 29, 30, 31, 32, 33, 34, 35, 36, 37, 38, 39, 40,
  41, 42, 43, 44, 45, 46, 47, 48, 49, 50, 51, 64, 64, 64, 64, 64,
  64, 64, 64, 64, 64, 64, 64, 64, 64, 64, 64, 64, 64, 64, 64, 64,
  64, 64, 64, 64, 64, 64, 64, 64, 64, 64, 64, 64, 64, 64, 64, 64,
  64, 64, 64, 64, 64, 64, 64, 64, 64, 64, 64, 64, 64, 64, 64, 64,
  64, 64, 64, 64, 64, 64, 64, 64, 64, 64, 64, 64, 64, 64, 64, 64,
  64, 64, 64, 64, 64, 64, 64, 64, 64, 64, 64, 64, 64, 64, 64, 64,
  64, 64, 64, 64, 64, 64, 64, 64, 64, 64, 64, 64, 64, 64, 64, 64,
  64, 64, 64, 64, 64, 64, 64, 64, 64, 64, 64, 64, 64, 64, 64, 64,
  64, 64, 64, 64, 64, 64, 64, 64, 64, 64, 64, 64, 64, 64, 64, 64]

/-- What `pr2six` has for a character. -/
def sextet (c : UInt8) : UInt8 := pr2six.getD c.toNat 64

/-- The characters in front of the first that is none of the alphabet; `nprbytes` is their number. -/
def readable (bufcoded : Bytes) : Bytes := bufcoded.takeWhile fun c => sextet c ≤ 63

/-- The function `Base64decode_len`. -/
def base64decodeLen (bufcoded : Bytes) : Nat := ((readable bufcoded).length + 3) / 4 * 3 + 1

/-- The loop of `Base64decode` and what follows it: the bytes written, and `nprbytes` behind the loop. -/
def decodeLoop : Bytes → Bytes × Nat
  | a :: b :: c :: d :: e :: rest =>
    let (out, nprbytes) := decodeLoop (e :: rest)
    ((sextet a <<< 2 ||| sextet b >>> 4) :: (sextet b <<< 4 ||| sextet c >>> 2) ::
      (sextet c <<< 6 ||| sextet d) :: out, nprbytes)
  | [a, b, c, d] =>
    ([sextet a <<< 2 ||| sextet b >>> 4, sextet b <<< 4 ||| sextet c >>> 2, sextet c <<< 6 ||| sextet d], 4)
  | [a, b, c] => ([sextet a <<< 2 ||| sextet b >>> 4, sextet b <<< 4 ||| sextet c >>> 2], 3)
  | [a, b] => ([sextet a <<< 2 ||| sextet b >>> 4], 2)
  -- a single character is an error, and is ignored
  | [_] => ([], 1)
  | [] => ([], 0)

/-- The function `Base64decode`: the bytes written in front of the final zero, and the number returned. -/
def base64decode (bufcoded : Bytes) : Bytes × Int :=
  let (out, nprbytes) := decodeLoop (readable bufcoded)
  (out, (((readable bufcoded).length + 3) / 4 * 3 : Nat) - ((4 - nprbytes) &&& 3 : Nat))

/-- The function `Base64encode_len`. -/
def base64encodeLen (len : Nat) : Nat := (len + 2) / 3 * 4 + 1

/-! ### What the decoder returns -/

/-- The loop leaves a group, or less where there was less. -/
theorem decodeLoop_count (text : Bytes) :
    (decodeLoop text).2 ≤ 4 ∧
      (text.length + 3) / 4 * 3 = (decodeLoop text).1.length + ((4 - (decodeLoop text).2) &&& 3) := by
  fun_induction decodeLoop text with
  | case1 a b c d e rest out nprbytes loop ih =>
    rw [loop] at ih
    obtain ⟨few, count⟩ := ih
    dsimp only at few count ⊢
    refine ⟨few, ?_⟩
    simp only [List.length_cons] at count ⊢
    omega
  | case2 | case3 | case4 | case5 | case6 => simp

/-- **The decoder returns how many bytes it wrote**, for every text, and they fit where its length function
says so. -/
theorem base64decode_count (bufcoded : Bytes) :
    (base64decode bufcoded).2 = (base64decode bufcoded).1.length ∧
      (base64decode bufcoded).1.length + 1 ≤ base64decodeLen bufcoded := by
  obtain ⟨-, count⟩ := decodeLoop_count (readable bufcoded)
  unfold base64decode base64decodeLen
  dsimp only
  omega

/-! ### Three bytes in four groups of six bits -/

section Groups

variable (a b c : UInt8)

theorem first_byte : (a >>> 2 &&& 0x3f) <<< 2 ||| ((a &&& 3) <<< 4 ||| (b &&& 0xf0) >>> 4) >>> 4 = a := by
  apply UInt8.eq_of_toBitVec_eq
  ext i bit
  simp
  interval_cases i <;> simp

theorem second_byte : ((a &&& 3) <<< 4 ||| (b &&& 0xf0) >>> 4) <<< 4 |||
    ((b &&& 0xf) <<< 2 ||| (c &&& 0xc0) >>> 6) >>> 2 = b := by
  apply UInt8.eq_of_toBitVec_eq
  ext i bit
  simp
  interval_cases i <;> simp

theorem third_byte : ((b &&& 0xf) <<< 2 ||| (c &&& 0xc0) >>> 6) <<< 6 ||| (c &&& 0x3f) = c := by
  apply UInt8.eq_of_toBitVec_eq
  ext i bit
  simp
  interval_cases i <;> simp

/-- Six bits. -/
theorem le_of_masked (x : UInt8) : x &&& 0xc0 = 0 → x ≤ 63 := by
  revert x
  exact forall_byte (by decide +kernel)

theorem six_first : a >>> 2 &&& 0x3f ≤ 63 := by
  apply le_of_masked
  apply UInt8.eq_of_toBitVec_eq
  ext i bit
  simp
  interval_cases i <;> simp

theorem six_second : (a &&& 3) <<< 4 ||| (b &&& 0xf0) >>> 4 ≤ 63 := by
  apply le_of_masked
  apply UInt8.eq_of_toBitVec_eq
  ext i bit
  simp
  interval_cases i <;> simp

theorem six_third : (b &&& 0xf) <<< 2 ||| (c &&& 0xc0) >>> 6 ≤ 63 := by
  apply le_of_masked
  apply UInt8.eq_of_toBitVec_eq
  ext i bit
  simp
  interval_cases i <;> simp

theorem six_fourth : c &&& 0x3f ≤ 63 := by
  apply le_of_masked
  apply UInt8.eq_of_toBitVec_eq
  ext i bit
  simp
  interval_cases i <;> simp

end Groups

/-! ### The alphabet -/

/-- **The two tables are inverse to each other.** -/
theorem sextet_basisChar (x : UInt8) : x ≤ 63 → sextet (basisChar x) = x := by
  revert x
  exact forall_byte (by decide +kernel)

theorem basisChar_mem (x : UInt8) : x ≤ 63 → basisChar x ∈ basis64 := by
  revert x
  exact forall_byte (by decide +kernel)

/-- A character of the alphabet is read, and the mark of the padding and the end of a string are not. -/
theorem sextet_basis64 : (∀ c ∈ basis64, sextet c ≤ 63) ∧ ¬ sextet 61 ≤ 63 ∧ ¬ sextet 0 ≤ 63 :=
  ⟨forall_listed (by decide +kernel), by decide, by decide⟩

section Reading

variable {x c : UInt8} {rest : Bytes}

theorem readable_basisChar (six : x ≤ 63) : readable (basisChar x :: rest) = basisChar x :: readable rest := by
  have inside : sextet (basisChar x) ≤ 63 := by rwa [sextet_basisChar x six]
  exact List.takeWhile_cons_of_pos (decide_eq_true inside)

theorem readable_stop (outside : ¬ sextet c ≤ 63) : readable (c :: rest) = [] :=
  List.takeWhile_cons_of_neg (by simpa using outside)

end Reading

/-! ### There and back -/

/-- A whole group, whatever follows it. -/
theorem decodeLoop_group (a b c d : UInt8) (rest : Bytes) : (decodeLoop (a :: b :: c :: d :: rest)).1 =
    (sextet a <<< 2 ||| sextet b >>> 4) :: (sextet b <<< 4 ||| sextet c >>> 2) ::
      (sextet c <<< 6 ||| sextet d) :: (decodeLoop rest).1 := by
  cases rest with
  | nil => rfl
  | cons e rest => rfl

/-- **The loop over what is encoded** gives it back; what follows begins with a character outside. -/
theorem decodeLoop_text (text after : Bytes) (outside : ∀ c ∈ after.head?, ¬ sextet c ≤ 63) :
    (decodeLoop (readable (base64encode text ++ after))).1 = text := by
  obtain ⟨-, mark, -⟩ := sextet_basis64
  fun_induction base64encode text with
  | case1 =>
    have nothing : readable after = [] := by
      cases after with
      | nil => rfl
      | cons c after => exact readable_stop (outside c rfl)
    rw [List.nil_append, nothing]
    rfl
  | case2 a =>
    have none_behind : (a &&& 3) <<< 4 = (a &&& 3) <<< 4 ||| ((0 : UInt8) &&& 0xf0) >>> 4 := by simp
    rw [none_behind, List.cons_append, readable_basisChar (six_first a), List.cons_append,
      readable_basisChar (six_second a 0), List.cons_append, readable_stop mark]
    show [_] = [a]
    rw [sextet_basisChar _ (six_first a), sextet_basisChar _ (six_second a 0), first_byte]
  | case3 a b =>
    have none_behind : (b &&& 0xf) <<< 2 = (b &&& 0xf) <<< 2 ||| ((0 : UInt8) &&& 0xc0) >>> 6 := by simp
    rw [none_behind, List.cons_append, readable_basisChar (six_first a), List.cons_append,
      readable_basisChar (six_second a b), List.cons_append, readable_basisChar (six_third b 0),
      List.cons_append, readable_stop mark]
    show [_, _] = [a, b]
    rw [sextet_basisChar _ (six_first a), sextet_basisChar _ (six_second a b),
      sextet_basisChar _ (six_third b 0), first_byte, second_byte]
  | case4 a b c rest ih =>
    rw [List.cons_append, readable_basisChar (six_first a), List.cons_append,
      readable_basisChar (six_second a b), List.cons_append, readable_basisChar (six_third b c),
      List.cons_append, readable_basisChar (six_fourth c), decodeLoop_group, ih,
      sextet_basisChar _ (six_first a), sextet_basisChar _ (six_second a b),
      sextet_basisChar _ (six_third b c), sextet_basisChar _ (six_fourth c), first_byte, second_byte,
      third_byte]

/-- What is encoded is of the alphabet, with the mark of the padding. -/
theorem base64encode_mem (text : Bytes) : ∀ c ∈ base64encode text, c ∈ basis64 ∨ c = 61 := by
  fun_induction base64encode text with
  | case1 => simp
  | case2 a =>
    have second : (a &&& 3) <<< 4 ≤ 63 := by simpa using six_second a 0
    simp [basisChar_mem _ (six_first a), basisChar_mem _ second]
  | case3 a b =>
    have third : (b &&& 0xf) <<< 2 ≤ 63 := by simpa using six_third b 0
    simp [basisChar_mem _ (six_first a), basisChar_mem _ (six_second a b), basisChar_mem _ third]
  | case4 a b c rest ih =>
    simp only [List.forall_mem_cons]
    exact ⟨.inl (basisChar_mem _ (six_first a)), .inl (basisChar_mem _ (six_second a b)),
      .inl (basisChar_mem _ (six_third b c)), .inl (basisChar_mem _ (six_fourth c)), ih⟩

/-- What is encoded has the length that is set aside for it. -/
theorem base64encode_length (text : Bytes) : (base64encode text).length + 1 = base64encodeLen text.length := by
  unfold base64encodeLen
  fun_induction base64encode text with
  | case1 | case2 | case3 => simp
  | case4 a b c rest ih =>
    simp only [List.length_cons] at ih ⊢
    omega

/-- What is encoded is decoded, up to a character outside. -/
theorem base64decode_text (text after : Bytes) (outside : ∀ c ∈ after.head?, ¬ sextet c ≤ 63) :
    base64decode (base64encode text ++ after) = (text, (text.length : Int)) := by
  have written : (base64decode (base64encode text ++ after)).1 = text := decodeLoop_text text after outside
  obtain ⟨returned, -⟩ := base64decode_count (base64encode text ++ after)
  rw [written] at returned
  exact Prod.ext written returned

end Apib.Main
