/-
**URLs in their normal form.**

A slash where there is no path, no empty query or fragment, one `#`, another authority: the string that is
put together from what was found.

* `Tail.normal`, `Pieces.normal`: the pieces of that string;
* `Pieces.normal_fits`: its fields fit where those of the first string did, a position below;
* `portLoop_decimal`, `decimal_length_le`: a port in decimal is read as the port, and is not longer than
  what it was read from.
-/

import Apib.HttpParser.UrlParsed
import Mathlib.Data.Nat.Digits.Lemmas

namespace Apib.HttpParser

variable {strict : Bool}

/-! ### The tail that is put together -/

/-- A slash where there is no path, no query or fragment that is empty, and one `#`. -/
def Tail.normal (t : Tail strict) : Tail strict where
  path := if t.path = [] then [47] else t.path
  query := if t.queryText = [] then none else some t.queryText
  fragment := if t.fragmentText = [] then none else some (0, t.fragmentText)
  path_ok := by
    right
    split
    · exact ⟨[], rfl, by simp⟩
    · next some_path => exact t.path_ok.resolve_left some_path
  query_ok := by
    intro q given
    obtain ⟨some_char, same⟩ := Option.ite_none_left_eq_some.mp given
    obtain rfl := Option.some.inj same
    intro ch member
    cases query : t.query with
    | none => exact absurd (t.queryText_of_none query) some_char
    | some text =>
      rw [Tail.queryText, query] at member
      exact t.query_ok text query ch member
  fragment_ok := by
    intro n f given
    obtain ⟨some_char, same⟩ := Option.ite_none_left_eq_some.mp given
    obtain ⟨rfl, rfl⟩ := Prod.mk.inj (Option.some.inj same)
    cases fragment : t.fragment with
    | none => exact absurd (t.fragmentText_of_none fragment) some_char
    | some found =>
      rw [Tail.fragmentText, fragment]
      exact t.fragment_ok found.1 found.2 fragment
  fragment_after := by
    intro none_path
    split at none_path
    · cases none_path
    · next some_path => exact absurd none_path some_path

namespace Tail

variable (t : Tail strict)

theorem normal_path : t.normal.path = if t.path = [] then [47] else t.path := rfl

theorem normal_query : t.normal.query = if t.queryText = [] then none else some t.queryText := rfl

theorem normal_fragment :
    t.normal.fragment = if t.fragmentText = [] then none else some (0, t.fragmentText) := rfl

theorem normal_queryText : t.normal.queryText = t.queryText := by
  rw [queryText, normal_query]
  split
  · next none_there => exact none_there.symm
  · rfl

theorem normal_fragmentText : t.normal.fragmentText = t.fragmentText := by
  rw [fragmentText, normal_fragment]
  split
  · next none_there => exact none_there.symm
  · rfl

theorem normal_path_ne_nil : t.normal.path ≠ [] := by
  rw [normal_path]
  split
  · exact List.cons_ne_nil _ _
  · next some_path => exact some_path

theorem normal_normal_path : t.normal.normal.path = t.normal.path := if_neg t.normal_path_ne_nil

/-- What is put together is the same the second time. -/
theorem normal_normal_render : t.normal.normal.render = t.normal.render := by
  rw [render, render, normal_normal_path, queryPart, queryPart, fragmentPart, fragmentPart,
    normal_query t.normal, normal_fragment t.normal, normal_queryText, normal_fragmentText]
  rfl

theorem normal_render : t.normal.render = t.normal.path ++
    (if t.queryText = [] then [] else 63 :: t.queryText) ++
      (if t.fragmentText = [] then [] else 35 :: t.fragmentText) := by
  rw [render, queryPart, fragmentPart, normal_query, normal_fragment]
  split
  · split
    · simp
    · simp
  · split
    · simp
    · simp

theorem normal_path_length : t.normal.path.length ≤ t.path.length + 1 := by
  rw [normal_path]
  split
  · next empty => simp [empty]
  · exact Nat.le_succ _

theorem normal_fragmentOff (some_char : t.fragmentText ≠ []) : t.normal.fragmentOff ≤ t.fragmentOff + 1 := by
  have path := t.normal_path_length
  have query : t.normal.queryPart.length ≤ t.queryPart.length := by
    rw [queryPart, normal_query]
    split
    · exact Nat.zero_le _
    · next some_query =>
      rw [t.queryPart_eq some_query]
      exact Nat.le_refl _
  have fragment : t.normal.fragment.elim 0 Prod.fst = 0 := by
    rw [normal_fragment, if_neg some_char]
    rfl
  rw [fragmentOff, fragmentOff, fragment]
  omega

end Tail

/-! ### Characters of an authority -/

/-- Characters of a user are an authority to the first loop. -/
theorem authority_alive {text : Bytes} (ok : ∀ ch ∈ text, isUserinfoChar ch = true) {s : UrlState}
    (on : s = .serverStart ∨ s = .server) : urlEnd strict s text ≠ .dead := by
  induction text generalizing s with
  | nil =>
    rcases on with rfl | rfl
    · simp [urlEnd]
    · simp [urlEnd]
  | cons ch text ih =>
    have next : parseUrlChar strict s ch = .server := by
      have each : ∀ ch : UInt8, ∀ strict, isUserinfoChar ch = true →
          parseUrlChar strict .serverStart ch = .server ∧ parseUrlChar strict .server ch = .server :=
        Numerals.forall_byte (by decide +kernel)
      rcases on with rfl | rfl
      · exact (each ch strict (ok ch List.mem_cons_self)).1
      · exact (each ch strict (ok ch List.mem_cons_self)).2
    rw [urlEnd, List.foldl_cons, next]
    exact ih (fun other member => ok other (List.mem_cons_of_mem _ member)) (.inr rfl)

/-- A URL with another authority, and its tail as it is put together. -/
def Pieces.normal (p : Pieces strict) (text : Bytes) (some_char : text ≠ [])
    (ok : ∀ ch ∈ text, isUserinfoChar ch = true) : Pieces strict where
  scheme := p.scheme
  authority := text
  tail := p.tail.normal
  scheme_some := p.scheme_some
  scheme_ok := p.scheme_ok
  authority_some := some_char
  authority_ends := fun ch member =>
    ⟨(userinfoChar_delimiters (ok ch member)).1, (userinfoChar_delimiters (ok ch member)).2.1⟩
  authority_ok := authority_alive ok (.inl rfl)

/-- The fields fit again, when the authority is not longer. -/
theorem Pieces.normal_fits {p : Pieces strict} (fits : p.FitsIn 65535) {text : Bytes} (some_char : text ≠ [])
    (ok : ∀ ch ∈ text, isUserinfoChar ch = true) (shorter : text.length ≤ p.authority.length) :
    (p.normal text some_char ok).FitsIn 65536 := by
  have path_length := p.tail.normal_path_length
  have off : (p.normal text some_char ok).tailOff ≤ p.tailOff := Nat.add_le_add_left shorter _
  have host := fits.host
  refine ⟨by omega, ?_, fun some_query => ?_, fun some_fragment => ?_⟩
  · show p.tail.normal.path.length < 65536
    have path := fits.path
    rw [Tail.normal_path]
    split
    · exact (by decide : 1 < 65536)
    · exact path
  · have same : (p.normal text some_char ok).tail.queryText = p.tail.queryText := p.tail.normal_queryText
    rw [same] at some_query ⊢
    obtain ⟨place, length⟩ := fits.query some_query
    refine ⟨?_, length⟩
    show (p.normal text some_char ok).tailOff + p.tail.normal.path.length + 1 < 65536
    omega
  · have same : (p.normal text some_char ok).tail.fragmentText = p.tail.fragmentText :=
      p.tail.normal_fragmentText
    rw [same] at some_fragment ⊢
    obtain ⟨place, length⟩ := fits.fragment some_fragment
    have later := p.tail.normal_fragmentOff some_fragment
    refine ⟨?_, length⟩
    show (p.normal text some_char ok).tailOff + p.tail.normal.fragmentOff < 65536
    omega

/-! ### Ports -/

theorem isNum_toNat {ch : UInt8} (ok : isNum ch = true) : ch.toNat - 48 ≤ 9 := by
  have each : ∀ ch : UInt8, isNum ch = true → ch.toNat - 48 ≤ 9 := Numerals.forall_byte (by decide +kernel)
  exact each ch ok

theorem portLoop_lt {text : Bytes} (ok : ∀ ch ∈ text, isNum ch = true) {v n : Nat}
    (read : portLoop v text = some n) : n < (v + 1) * 10 ^ text.length := by
  induction text generalizing v with
  | nil =>
    obtain rfl := Option.some.inj read
    simp
  | cons ch text ih =>
    have digit := isNum_toNat (ok ch List.mem_cons_self)
    rw [portLoop] at read
    by_cases large : v * 10 + (ch.toNat - 48) > 0xffff
    · simp only [large, if_true] at read
      cases read
    · simp only [large, if_false] at read
      have later := ih (fun other member => ok other (List.mem_cons_of_mem _ member)) read
      calc n < (v * 10 + (ch.toNat - 48) + 1) * 10 ^ text.length := later
        _ ≤ ((v + 1) * 10) * 10 ^ text.length := Nat.mul_le_mul_right _ (by omega)
        _ = (v + 1) * 10 ^ (ch :: text).length := by
          rw [List.length_cons, Nat.pow_succ, Nat.mul_assoc, Nat.mul_comm 10]

/-- The number that was read has not more digits than were there. -/
theorem decimal_length_le {text : Bytes} (some_digit : text ≠ []) (ok : ∀ ch ∈ text, isNum ch = true) {n : Nat}
    (read : portLoop 0 text = some n) : (Numerals.decimal n).length ≤ text.length := by
  unfold Numerals.decimal
  split
  · exact List.length_pos_iff.mpr some_digit
  · rw [List.length_map, List.length_reverse, Nat.digits_length_le_iff (by decide)]
    simpa using portLoop_lt ok read

theorem le_foldl_digits (digits : List Nat) (v : Nat) :
    v ≤ digits.foldl (fun value digit => value * 10 + digit) v := by
  induction digits generalizing v with
  | nil => exact Nat.le_refl v
  | cons digit digits ih =>
    rw [List.foldl_cons]
    exact Nat.le_trans (by omega) (ih _)

/-- Digits are read as the number they stand for. -/
theorem portLoop_map {digits : List Nat} (small : ∀ digit ∈ digits, digit < 10) (v : Nat)
    (fits : digits.foldl (fun value digit => value * 10 + digit) v ≤ 0xffff) :
    portLoop v (digits.map Numerals.digitChar) =
      some (digits.foldl (fun value digit => value * 10 + digit) v) := by
  induction digits generalizing v with
  | nil => rfl
  | cons digit digits ih =>
    have below := small digit List.mem_cons_self
    have char : (Numerals.digitChar digit).toNat - 48 = digit := by
      have each : ∀ digit < 10, (Numerals.digitChar digit).toNat - 48 = digit := by decide
      exact each digit below
    have bound := le_foldl_digits digits (v * 10 + digit)
    rw [List.foldl_cons] at fits ⊢
    rw [List.map_cons, portLoop]
    simp only [char, if_neg (Nat.not_lt.mpr (Nat.le_trans bound fits))]
    exact ih (fun other member => small other (List.mem_cons_of_mem _ member)) _ fits

/-- **A port in decimal** is read as the port. -/
theorem portLoop_decimal (port : UInt16) : portLoop 0 (Numerals.decimal port.toNat) = some port.toNat := by
  obtain ⟨digits, -, small, shown, total⟩ := Numerals.decimal_digits port.toNat
  have fits := Nat.le_of_lt_succ (UInt16.toNat_lt port)
  rw [← total] at fits
  rw [shown, portLoop_map small 0 fits, total]

theorem decimal_isPort (n : Nat) :
    Numerals.decimal n ≠ [] ∧ ∀ ch ∈ Numerals.decimal n, isNum ch = true := by
  obtain ⟨digits, some_digit, small, shown, -⟩ := Numerals.decimal_digits n
  rw [shown]
  refine ⟨by simpa using some_digit, fun ch member => ?_⟩
  obtain ⟨digit, among, rfl⟩ := List.mem_map.mp member
  have each : ∀ digit < 10, isNum (Numerals.digitChar digit) = true := by decide
  exact each digit (small digit among)

end Apib.HttpParser
