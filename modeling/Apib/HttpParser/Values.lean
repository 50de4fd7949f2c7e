/-
**How the parser reads the value of a header field.**

Only two names matter for where a message ends. The value of a `Content-Length` is digits and then
spaces (`lengthOf`); that of a `Transfer-Encoding` is searched for a last `chunked` (`readsChunked`).
Whatever else a field has in its value changes nothing of the framing.

* `other_goes`, `length_goes`, `coding_goes`: the three kinds of values, from the colon to the next line;
* `length_fails`: the values of a length that are rejected.
-/

import Apib.HttpParser.Names

namespace Apib.Parse

open ByteMachine HttpParser Http Numerals

/-! ### Failing -/

section Fails

variable {strict : Bool} {P Q : Parse → Prop} {b : UInt8} {first second bytes : Bytes}

/-- Some bytes are rejected. -/
def Fails (strict : Bool) (P : Parse → Prop) (bytes : Bytes) : Prop :=
  ∀ r, P r → r.parser.nread ≤ maxHeaderSize →
    (feed (stepByte strict) r bytes).state.parser.errno ≠ .ok

theorem Fails.after (fails : Fails strict Q second) (clean : ∀ r, P r → r.parser.errno = .ok)
    (before : Goes strict P first Q) : Fails strict P (first ++ second) := by
  intro r holds within
  have here := before r holds within
  split at here
  · next fits =>
    obtain ⟨middle, taken, there, count⟩ := here
    rw [feed_taken taken]
    exact fails middle there (by omega)
  · exact failed_append (clean r holds) here second

theorem Fails.append (fails : Fails strict P first) (clean : ∀ r, P r → r.parser.errno = .ok)
    (second : Bytes) : Fails strict P (first ++ second) :=
  fun r holds within => failed_append (clean r holds) (fails r holds within) second

/-- **One byte that is rejected.** -/
theorem Fails.byte (rejected : ∀ r, P r → r.parser.state.parsingHeader = true ∧
    ∀ n, ∃ last : Parse, ∃ errno, (r.counted n).onByte strict b = last.fail errno ∧ errno ≠ .ok) :
    Fails strict P [b] := by
  intro r holds within
  obtain ⟨header, rejected⟩ := rejected r holds
  obtain ⟨last, errno, failed, bad⟩ := rejected (r.parser.nread + 1)
  by_cases fits : r.parser.nread + 1 ≤ maxHeaderSize
  · have step : r.stepByte strict b = last.fail errno := by
      rw [stepByte, if_pos header]
      exact (if_neg (Nat.not_lt.mpr fits)).trans failed
    rw [feed, step]
    exact bad
  · have step : r.stepByte strict b = (r.counted (r.parser.nread + 1)).fail .headerOverflow := by
      rw [stepByte, if_pos header]
      exact if_pos (Nat.lt_of_not_le fits)
    rw [feed, step]
    exact fun same => by cases same

end Fails

/-! ### Digits -/

section Digits

variable {strict : Bool} {base limit n : Nat} {Q : Nat → Parse → Prop} {digits : Bytes}

/-- **More digits of a number**, where each is taken as long as the number before it is small enough. -/
theorem digits_goes (positive : 0 < base) (clean : ∀ n r, Q n r → r.parser.errno = .ok)
    (step : ∀ n c digit, digitOf base c = some digit → n ≤ limit →
      Steps strict (Q n) c (Q (n * base + digit)))
    (digit : ∀ c ∈ digits, (digitOf base c).isSome)
    (small : continued base n digits / base ≤ limit) :
    Goes strict (Q n) digits (Q (continued base n digits)) := by
  induction digits generalizing n with
  | nil => exact .nil
  | cons c digits ih =>
    obtain ⟨value, found⟩ := Option.isSome_iff_exists.mp (digit c List.mem_cons_self)
    rw [continued_cons found] at small ⊢
    have bound : n ≤ limit :=
      calc n = n * base / base := (Nat.mul_div_cancel n positive).symm
        _ ≤ continued base (n * base + value) digits / base :=
          Nat.div_le_div_right ((Nat.le_add_right _ _).trans (le_continued positive _ _))
        _ ≤ limit := small
    exact .cons (clean n) (step n c value found bound)
      (ih (fun other member => digit other (List.mem_cons_of_mem _ member)) small)

/-- Digits of a number that is too large before the last of them. -/
theorem digits_overflow (clean : ∀ n r, Q n r → r.parser.errno = .ok)
    (step : ∀ n c digit, digitOf base c = some digit → n ≤ limit →
      Steps strict (Q n) c (Q (n * base + digit)))
    (overflow : ∀ n c digit, digitOf base c = some digit → limit < n → Fails strict (Q n) [c])
    (digit : ∀ c ∈ digits, (digitOf base c).isSome) (some_digit : digits ≠ [])
    (large : limit < continued base n digits / base) : Fails strict (Q n) digits := by
  induction digits generalizing n with
  | nil => exact absurd rfl some_digit
  | cons c digits ih =>
    obtain ⟨value, found⟩ := Option.isSome_iff_exists.mp (digit c List.mem_cons_self)
    rw [continued_cons found] at large
    by_cases small : n ≤ limit
    · have some_more : digits ≠ [] := by
        rintro rfl
        have below : (n * base + value) / base = n := by
          rw [Nat.mul_comm, Nat.mul_add_div (Nat.zero_lt_of_lt (digitOf_lt found)),
            Nat.div_eq_of_lt (digitOf_lt found), Nat.add_zero]
        rw [continued_nil, below] at large
        omega
      have first : Goes strict (Q n) [c] (Q (n * base + value)) := .byte (step n c value found small)
      exact (ih (fun other member => digit other (List.mem_cons_of_mem _ member)) some_more large).after
        (clean n) first
    · exact (overflow n c value found (Nat.lt_of_not_le small)).append (clean n) digits

end Digits

/-! ### Around the value -/

/-- The colon is read, and the value has not begun. -/
structure BeforeValue (f : Framing) (header : HeaderState) (r : Parse) : Prop
    extends Reads .headerValueDiscardWs f r where
  header_eq : r.parser.headerState = header

section Around

variable {strict : Bool} {f : Framing} {b : UInt8} {name : Bytes} {header : HeaderState}

/-- A byte that may stand in a value. -/
theorem text_eq {b : UInt8} (text : isText b = true) : b ≠ 13 ∧ b ≠ 10 ∧ isHeaderChar b = true := by
  have each : ∀ b : UInt8, isText b = true → b ≠ 13 ∧ b ≠ 10 ∧ isHeaderChar b = true :=
    forall_byte (by decide +kernel)
  exact each b text

theorem blank_eq (b : UInt8) : (b == chr ' ' || b == 9) = isBlank b := rfl

theorem inName_colon : Steps strict (InName f name) 58 (BeforeValue (f.named name) (nameState name)) := by
  intro r inName
  refine ⟨by rw [inName.state_eq]; rfl, fun n => ?_⟩
  have no_token : token strict 58 = 0 := by cases strict <;> decide
  have taken : (r.counted n).onByte strict 58 = (r.counted n).goto .headerValueDiscardWs := by
    rw [onByte, show (r.counted n).parser.state = .headerField from inName.state_eq]
    dsimp only
    rw [onHeaderField, no_token]
    rfl
  exact ⟨_, taken, ⟨⟨⟨inName.framing_eq, inName.clean, inName.unfinished, inName.ordinary⟩, rfl⟩,
    inName.header_eq⟩, rfl⟩

theorem before_blank (blank : isBlank b = true) :
    Steps strict (BeforeValue f header) b (BeforeValue f header) := by
  intro r before
  refine ⟨by rw [before.state_eq]; rfl, fun n => ⟨r.counted n, ?_, ?_, rfl⟩⟩
  · rw [onByte, show (r.counted n).parser.state = .headerValueDiscardWs from before.state_eq]
    dsimp only
    rw [onHeaderValueDiscardWs, blank_eq, if_pos blank]
  · exact ⟨⟨⟨before.framing_eq, before.clean, before.unfinished, before.ordinary⟩, before.state_eq⟩,
      before.header_eq⟩

/-- A byte that is no white space begins the value. -/
theorem before_text {r : Parse} (before : BeforeValue f header r) (text : isText b = true)
    (no_blank : isBlank b = false) (n : Nat) :
    (r.counted n).onByte strict b = (r.counted n).onHeaderValueStart b := by
  obtain ⟨no_cr, no_lf, -⟩ := text_eq text
  rw [onByte, show (r.counted n).parser.state = .headerValueDiscardWs from before.state_eq]
  dsimp only
  rw [onHeaderValueDiscardWs, blank_eq, if_neg (by simp [no_blank]), if_neg (by simpa [CR] using no_cr),
    if_neg (by simpa [LF] using no_lf)]

/-- A name leaves no flag behind. -/
theorem tokenFlag_name {r : Parse} (named : isNameState r.parser.headerState = true) :
    r.tokenFlag = r := by
  unfold tokenFlag
  split <;> simp_all [isNameState]

theorem tokenFlag_nread {r : Parse} : r.tokenFlag.parser.nread = r.parser.nread := by
  unfold tokenFlag
  split <;> rfl

/-- An empty value, except of a length. -/
theorem before_end (named : isNameState header = true) (other : header ≠ .contentLength) :
    Goes strict (BeforeValue f header) crlf (LineStart strict f) := by
  have cr : Steps strict (BeforeValue f header) 13 fun r =>
      Reads .headerValueDiscardWsAlmostDone f r ∧ r.parser.headerState = header := by
    intro r before
    refine ⟨by rw [before.state_eq]; rfl, fun n => ?_⟩
    have taken : (r.counted n).onByte strict 13 =
        (r.counted n).goto .headerValueDiscardWsAlmostDone := by
      rw [onByte, show (r.counted n).parser.state = .headerValueDiscardWs from before.state_eq]
      rfl
    exact ⟨_, taken, ⟨⟨⟨before.framing_eq, before.clean, before.unfinished, before.ordinary⟩, rfl⟩,
      before.header_eq⟩, rfl⟩
  have lf : Steps strict (fun r =>
      Reads .headerValueDiscardWsAlmostDone f r ∧ r.parser.headerState = header) 10
      (LineStart strict f) := by
    rintro r ⟨reads, header_eq⟩
    refine ⟨by rw [reads.state_eq]; rfl, fun n => ?_⟩
    have taken : (r.counted n).onByte strict 10 = (r.counted n).goto .headerValueDiscardLws := by
      rw [onByte, show (r.counted n).parser.state = .headerValueDiscardWsAlmostDone from reads.state_eq]
      cases strict <;> rfl
    refine ⟨_, taken, ⟨rfl, reads.clean, reads.unfinished, fun c m no_blank => ?_⟩, rfl⟩
    refine ⟨{ r.counted m with parser.state := .headerFieldStart },
      ⟨reads.framing_eq, reads.clean, reads.unfinished, reads.ordinary⟩, rfl, ?_⟩
    have no_flag : ({ r.counted m with parser.state := .headerValueDiscardLws } : Parse).tokenFlag =
        { r.counted m with parser.state := .headerValueDiscardLws } :=
      tokenFlag_name (by rw [← header_eq] at named; exact named)
    show onHeaderValueDiscardLws strict { r.counted m with parser.state := .headerValueDiscardLws } c = _
    rw [onHeaderValueDiscardLws, blank_eq, if_neg (by simp [no_blank]), if_neg, no_flag]
    have same : r.parser.headerState ≠ .contentLength := header_eq ▸ other
    simpa [counted] using same
  have first : Goes strict _ [13] _ := .byte cr
  exact first.append (fun _ before => before.clean) (.byte lf)

/-- The parser is in a value, in this header state. -/
structure InValue (f : Framing) (header : HeaderState) (r : Parse) : Prop
    extends Reads .headerValue f r where
  header_eq : r.parser.headerState = header

/-- The framing once a value has ended in a header state. -/
def Framing.flagged (f : Framing) (header : HeaderState) : Framing :=
  if header = .transferEncodingChunked then { f with chunked := true } else f

theorem tokenFlag_inside {r : Parse} (inside : Inside f r) (header_eq : r.parser.headerState = header) :
    Inside (f.flagged header) r.tokenFlag := by
  obtain ⟨rfl, clean, unfinished, ordinary⟩ := inside
  subst header_eq
  refine ⟨?_, tokenFlag_same.1.trans clean, tokenFlag_same.2.trans unfinished, ?_⟩
  · unfold tokenFlag Framing.flagged
    cases r.parser.headerState <;> rfl
  · unfold tokenFlag
    cases r.parser.headerState <;> exact ordinary

/-- **The end of a value** sets the flag of its last token. -/
theorem value_end : Goes strict (InValue f header) crlf (LineStart strict (f.flagged header)) := by
  have cr : Steps strict (InValue f header) 13 fun r =>
      Reads .headerAlmostDone f r ∧ r.parser.headerState = header := by
    intro r value
    refine ⟨by rw [value.state_eq]; rfl, fun n => ?_⟩
    have taken : (r.counted n).onByte strict 13 = (r.counted n).goto .headerAlmostDone := by
      rw [onByte, show (r.counted n).parser.state = .headerValue from value.state_eq]
      rfl
    exact ⟨_, taken, ⟨⟨⟨value.framing_eq, value.clean, value.unfinished, value.ordinary⟩, rfl⟩,
      value.header_eq⟩, rfl⟩
  have lf : Steps strict (fun r => Reads .headerAlmostDone f r ∧ r.parser.headerState = header) 10
      (LineStart strict (f.flagged header)) := by
    rintro r ⟨reads, header_eq⟩
    refine ⟨by rw [reads.state_eq]; rfl, fun n => ?_⟩
    have taken : (r.counted n).onByte strict 10 = (r.counted n).goto .headerValueLws := by
      rw [onByte, show (r.counted n).parser.state = .headerAlmostDone from reads.state_eq]
      rfl
    refine ⟨_, taken, ⟨rfl, reads.clean, reads.unfinished, fun c m no_blank => ?_⟩, rfl⟩
    let last : Parse := { r with parser.state := .headerValueLws, parser.nread := m }
    have inside : Inside f last := ⟨reads.framing_eq, reads.clean, reads.unfinished, reads.ordinary⟩
    have flagged := tokenFlag_inside inside header_eq
    refine ⟨{ last.tokenFlag with parser.state := .headerFieldStart },
      ⟨flagged.framing_eq, flagged.clean, flagged.unfinished, flagged.ordinary⟩, tokenFlag_nread, ?_⟩
    show onHeaderValueLws strict last c = _
    rw [onHeaderValueLws, blank_eq, if_neg (by simp [no_blank])]
  have first : Goes strict _ [13] _ := .byte cr
  exact first.append (fun _ value => value.clean) (.byte lf)

/-- A byte inside a value. -/
theorem value_text {r : Parse} (value : InValue f header r) (text : isText b = true) (n : Nat) :
    (r.counted n).onByte strict b = (r.counted n).headerValueChar b := by
  obtain ⟨no_cr, no_lf, header_char⟩ := text_eq text
  rw [onByte, show (r.counted n).parser.state = .headerValue from value.state_eq]
  dsimp only
  rw [onHeaderValue, if_neg (by simpa [CR] using no_cr), if_neg (by simpa [LF] using no_lf),
    if_neg (by simp [header_char])]

theorem before_blanks {blanks : Bytes} (blank : ∀ b ∈ blanks, isBlank b = true) :
    Goes strict (BeforeValue f header) blanks (BeforeValue f header) :=
  .each (fun _ before => before.clean) fun b member => before_blank (blank b member)

end Around

/-! ### Other values -/

/-- The header states of a value that says nothing of the framing. -/
def isPlain : HeaderState → Bool
  | .general | .matchingConnectionTokenStart | .matchingConnectionKeepAlive | .matchingConnectionClose
  | .matchingConnectionUpgrade | .matchingConnectionToken | .connectionKeepAlive | .connectionClose
  | .connectionUpgrade => true
  | _ => false

/-- The parser is in such a value. -/
def InPlain (f : Framing) (r : Parse) : Prop := ∃ header, isPlain header = true ∧ InValue f header r

/-- The parser goes on in a value that says nothing of the framing. -/
structure PlainNext (r next : Parse) : Prop where
  plain : isPlain next.parser.headerState = true
  framing : next.framing = r.framing
  errno : next.parser.errno = r.parser.errno
  complete : next.complete = r.complete
  ordinary : r.Ordinary → next.Ordinary
  nread : next.parser.nread = r.parser.nread

section Plain

variable {strict : Bool} {f : Framing} {b : UInt8} {header : HeaderState}

theorem PlainNext.inPlain {r next : Parse} (plain : PlainNext r next) (inside : Inside f r)
    (state : next.parser.state = .headerValue) : InPlain f next :=
  ⟨_, plain.plain, ⟨⟨plain.framing.trans inside.framing_eq, plain.errno.trans inside.clean,
    plain.complete.trans inside.unfinished, plain.ordinary inside.ordinary⟩, state⟩, rfl⟩

theorem plain_match {r : Parse} (word : Bytes) {missed found : HeaderState} (c : UInt8)
    (plain : isPlain r.parser.headerState = true) (missedPlain : isPlain missed = true)
    (foundPlain : isPlain found = true) : PlainNext r (r.matchValue word c missed found) := by
  unfold matchValue
  dsimp only
  split
  · exact ⟨missedPlain, rfl, rfl, rfl, id, rfl⟩
  · exact ⟨plain, rfl, rfl, rfl, id, rfl⟩
  · exact ⟨foundPlain, rfl, rfl, rfl, id, rfl⟩

/-- A byte of such a value. -/
theorem plain_char {r : Parse} (plain : isPlain r.parser.headerState = true) (b : UInt8) :
    ∃ next, r.headerValueChar b = .more next ∧ PlainNext r next ∧
      next.parser.state = r.parser.state := by
  unfold headerValueChar
  dsimp only
  cases header : r.parser.headerState <;> rw [header] at plain <;> dsimp only
  case matchingConnectionKeepAlive | matchingConnectionClose | matchingConnectionUpgrade =>
    refine ⟨_, rfl, plain_match _ _ (by rw [header]; rfl) rfl rfl, ?_⟩
    unfold matchValue
    dsimp only
    split <;> rfl
  case general => exact ⟨r, rfl, ⟨by rw [header]; rfl, rfl, rfl, rfl, id, rfl⟩, rfl⟩
  case matchingConnectionTokenStart | matchingConnectionToken | connectionKeepAlive | connectionClose
      | connectionUpgrade =>
    (repeat' split) <;> refine ⟨_, rfl, ⟨?_, ?_, ?_, ?_, ?_, ?_⟩, ?_⟩ <;>
      simp [tokenFlag, header, isPlain, Parse.framing, Ordinary]
  all_goals cases plain

theorem plain_step (text : isText b = true) : Steps strict (InPlain f) b (InPlain f) := by
  rintro r ⟨header, plain, value⟩
  refine ⟨by rw [value.state_eq]; rfl, fun n => ?_⟩
  have plain' : isPlain (r.counted n).parser.headerState = true := value.header_eq.symm ▸ plain
  obtain ⟨next, taken, same, state⟩ := plain_char plain' b
  exact ⟨next, (value_text value text n).trans taken,
    same.inPlain ⟨value.framing_eq, value.clean, value.unfinished, value.ordinary⟩
      (state.trans value.state_eq), same.nread⟩

/-- The first byte of such a value. -/
theorem plain_first (named : isNameState header = true) (no_length : header ≠ .contentLength)
    (no_coding : header ≠ .transferEncoding) (text : isText b = true) (no_blank : isBlank b = false) :
    Steps strict (BeforeValue f header) b (InPlain f) := by
  intro r before
  refine ⟨by rw [before.state_eq]; rfl, fun n => ?_⟩
  rw [before_text before text no_blank]
  have inside : Inside f (r.counted n) :=
    ⟨before.framing_eq, before.clean, before.unfinished, before.ordinary⟩
  have step : ∃ next, (r.counted n).onHeaderValueStart b = .more next ∧ PlainNext (r.counted n) next ∧
      next.parser.state = .headerValue := by
    unfold onHeaderValueStart
    dsimp only
    rw [show (r.counted n).parser.headerState = header from before.header_eq]
    cases header <;> first
      | exact absurd rfl no_length
      | exact absurd rfl no_coding
      | cases named
    all_goals dsimp only
    case connection =>
      refine ⟨_, rfl, ⟨?_, rfl, rfl, rfl, id, rfl⟩, rfl⟩
      dsimp only
      (repeat' split) <;> rfl
    all_goals exact ⟨_, rfl, ⟨rfl, rfl, rfl, rfl, id, rfl⟩, rfl⟩
  obtain ⟨next, taken, same, state⟩ := step
  exact ⟨next, taken, same.inPlain inside state, same.nread⟩

/-- The end of such a value. -/
theorem plain_end : Goes strict (InPlain f) crlf (LineStart strict f) := by
  rintro r ⟨header, plain, value⟩
  have same : f.flagged header = f := by
    rw [Framing.flagged, if_neg]
    rintro rfl
    cases plain
  exact same ▸ value_end r value

/-- **A value that says nothing of the framing.** -/
theorem plain_goes (named : isNameState header = true) (no_length : header ≠ .contentLength)
    (no_coding : header ≠ .transferEncoding) {value : Bytes} (text : ∀ b ∈ value, isText b = true) :
    Goes strict (BeforeValue f header) (value ++ crlf) (LineStart strict f) := by
  have clean : ∀ r, BeforeValue f header r → r.parser.errno = .ok := fun _ before => before.clean
  rw [← List.takeWhile_append_dropWhile (p := isBlank) (l := value), List.append_assoc]
  refine (before_blanks (List.all_eq_true.mp List.all_takeWhile)).append clean ?_
  cases rest : value.dropWhile isBlank with
  | nil => exact before_end named no_length
  | cons first more =>
    have suffix : ∀ b ∈ first :: more, isText b = true := fun b member =>
      text b ((List.dropWhile_suffix isBlank).mem (rest.symm ▸ member))
    have no_blank : isBlank first = false := by
      have kept := List.head_dropWhile_not isBlank (l := value) (by simp [rest])
      simpa [rest] using kept
    have one : Goes strict (BeforeValue f header) [first] (InPlain f) :=
      .byte (plain_first named no_length no_coding (suffix first List.mem_cons_self) no_blank)
    have others : Goes strict (InPlain f) more (InPlain f) :=
      .each (fun _ plain => plain.choose_spec.2.clean) fun b member =>
        plain_step (suffix b (List.mem_cons_of_mem _ member))
    exact one.append clean (others.append (fun _ plain => plain.choose_spec.2.clean) plain_end)

end Plain

/-! ### Lengths -/

/-- The bound up to which the parser takes another digit. -/
def lengthLimit : Nat := (ullongMax - 10) / 10

/-- The length that the parser reads from a value: only spaces may follow the digits. -/
def lengthOf (value : Bytes) : Option Nat :=
  match scanDigits 10 0 0 (value.dropWhile isBlank) with
  | (n, count, after) =>
    if count ≠ 0 ∧ n / 10 ≤ lengthLimit ∧ after.all (· == 32) then some n else none

/-- The framing once this much of a length is read. -/
def Framing.measured (f : Framing) (n : Nat) : Framing :=
  { f with hasLength := true, contentLength := n }

section Length

variable {strict : Bool} {f : Framing} {b : UInt8} {n digit : Nat} {digits blanks : Bytes}

/-- A digit is the same to the parser. -/
theorem digit_eq (found : digitOf 10 b = some digit) :
    isNum b = true ∧ b.toNat - 48 = digit ∧ digit < 10 ∧ b ≠ 32 ∧ isBlank b = false ∧ isText b = true := by
  have each : ∀ b : UInt8, ∀ digit ∈ digitOf 10 b, isNum b = true ∧ b.toNat - 48 = digit ∧ digit < 10 ∧
      b ≠ 32 ∧ isBlank b = false ∧ isText b = true :=
    forall_byte (by decide +kernel)
  exact each b digit found

theorem blank_char (blank : isBlank b = true) : isText b = true ∧ isNum b = false ∧ digitOf 10 b = none := by
  have each : ∀ b : UInt8, isBlank b = true → isText b = true ∧ isNum b = false ∧ digitOf 10 b = none :=
    forall_byte (by decide +kernel)
  exact each b blank

/-- The first digit. -/
theorem length_first (unmeasured : f.hasLength = false) (found : digitOf 10 b = some digit) :
    Steps strict (BeforeValue f .contentLength) b (InValue (f.measured digit) .contentLengthNum) := by
  intro r before
  obtain ⟨num, value, -, -, no_blank, text⟩ := digit_eq found
  refine ⟨by rw [before.state_eq]; rfl, fun n => ?_⟩
  have framing := before.framing_eq
  have first : r.parser.flags.contentLength = false := by
    rw [← unmeasured, ← framing]
    rfl
  rw [before_text before text no_blank]
  unfold onHeaderValueStart
  dsimp only
  rw [show (r.counted n).parser.headerState = .contentLength from before.header_eq]
  dsimp only
  rw [if_neg (by simp [num]), if_neg (by simp [counted, first])]
  refine ⟨_, rfl, ⟨⟨⟨?_, before.clean, before.unfinished, before.ordinary⟩, rfl⟩, rfl⟩, rfl⟩
  rw [← framing, ← value]
  rfl

variable (strict) in
/-- A second length is rejected. -/
theorem length_again (measured : f.hasLength = true) (found : digitOf 10 b = some digit) :
    Fails strict (BeforeValue f .contentLength) [b] := by
  refine .byte fun r before => ⟨by rw [before.state_eq]; rfl, fun n => ?_⟩
  obtain ⟨num, -, -, -, no_blank, text⟩ := digit_eq found
  have first : r.parser.flags.contentLength = true := by
    rw [← measured, ← before.framing_eq]
    rfl
  rw [before_text before text no_blank]
  unfold onHeaderValueStart
  dsimp only
  rw [show (r.counted n).parser.headerState = .contentLength from before.header_eq]
  dsimp only
  rw [if_neg (by simp [num]), if_pos (by simp [counted, first])]
  exact ⟨_, _, rfl, by decide⟩

/-- A byte in or behind the digits. -/
theorem length_char {r : Parse} (value : InValue (f.measured n) .contentLengthNum r)
    (text : isText b = true) (count : Nat) :
    (r.counted count).onByte strict b = (r.counted count).contentLengthDigit b := by
  rw [value_text value text, headerValueChar,
    show (r.counted count).parser.headerState = .contentLengthNum from value.header_eq]

/-- Another digit. -/
theorem length_digit (found : digitOf 10 b = some digit) (small : n ≤ lengthLimit) :
    Steps strict (InValue (f.measured n) .contentLengthNum) b
      (InValue (f.measured (n * 10 + digit)) .contentLengthNum) := by
  intro r value
  obtain ⟨num, same, -, no_space, -, text⟩ := digit_eq found
  refine ⟨by rw [value.state_eq]; rfl, fun count => ?_⟩
  have framing := value.framing_eq
  have length : r.parser.contentLength = n := congrArg Framing.contentLength framing
  rw [length_char value text, contentLengthDigit, if_neg (by simpa [chr] using no_space),
    if_neg (by simp [num]), if_neg (by rw [show (r.counted count).parser.contentLength = n from length]; exact Nat.not_lt.mpr small)]
  refine ⟨_, rfl, ⟨⟨⟨?_, value.clean, value.unfinished, value.ordinary⟩, value.state_eq⟩, rfl⟩, rfl⟩
  show ({ r.framing with contentLength := r.parser.contentLength * 10 + (b.toNat - 48) } : Framing) = _
  rw [framing, length, same]
  rfl

theorem length_overflow (found : digitOf 10 b = some digit) (large : lengthLimit < n) :
    Fails strict (InValue (f.measured n) .contentLengthNum) [b] := by
  refine .byte fun r value => ⟨by rw [value.state_eq]; rfl, fun count => ?_⟩
  obtain ⟨num, -, -, no_space, -, text⟩ := digit_eq found
  have length : r.parser.contentLength = n := congrArg Framing.contentLength value.framing_eq
  rw [length_char value text, contentLengthDigit, if_neg (by simpa [chr] using no_space),
    if_neg (by simp [num]), if_pos (by rw [show (r.counted count).parser.contentLength = n from length]; exact large)]
  exact ⟨_, _, rfl, by decide⟩

/-- **Behind the digits** only spaces go on with the length. -/
theorem length_spaces (space : ∀ b ∈ blanks, b = 32) :
    Goes strict (InValue (f.measured n) .contentLengthNum) (blanks ++ crlf)
      (LineStart strict (f.measured n)) := by
  have clean : ∀ {header} (r), InValue (f.measured n) header r → r.parser.errno = .ok :=
    fun _ value => value.clean
  cases blanks with
  | nil => exact value_end
  | cons b blanks =>
    have first : Steps strict (InValue (f.measured n) .contentLengthNum) b
        (InValue (f.measured n) .contentLengthWs) := by
      intro r value
      obtain rfl := space b List.mem_cons_self
      refine ⟨by rw [value.state_eq]; rfl, fun count => ?_⟩
      rw [length_char value (by decide), contentLengthDigit, if_pos (by decide)]
      exact ⟨_, rfl, ⟨⟨⟨value.framing_eq, value.clean, value.unfinished, value.ordinary⟩, value.state_eq⟩,
        rfl⟩, rfl⟩
    have others : ∀ c ∈ blanks, Steps strict (InValue (f.measured n) .contentLengthWs) c
        (InValue (f.measured n) .contentLengthWs) := by
      intro c member r value
      obtain rfl := space c (List.mem_cons_of_mem _ member)
      refine ⟨by rw [value.state_eq]; rfl, fun count => ?_⟩
      rw [value_text value (by decide), headerValueChar,
        show (r.counted count).parser.headerState = .contentLengthWs from value.header_eq]
      exact ⟨_, rfl, ⟨⟨⟨value.framing_eq, value.clean, value.unfinished, value.ordinary⟩, value.state_eq⟩,
        value.header_eq⟩, rfl⟩
    have one : Goes strict _ [b] _ := .byte first
    exact one.append clean ((Goes.each clean others).append clean value_end)

variable (strict) in
theorem length_no_space (blank : ∀ b ∈ blanks, isBlank b = true) (other : ∃ b ∈ blanks, b ≠ 32) :
    Fails strict (InValue (f.measured n) .contentLengthNum) blanks := by
  have clean : ∀ {header} (r), InValue (f.measured n) header r → r.parser.errno = .ok :=
    fun _ value => value.clean
  -- the bytes in front of the first other one are spaces, and the state is one of two
  have fails : ∀ (blanks : Bytes) (header : HeaderState),
      header = .contentLengthNum ∨ header = .contentLengthWs → (∀ b ∈ blanks, isBlank b = true) →
      (∃ b ∈ blanks, b ≠ 32) → Fails strict (InValue (f.measured n) header) blanks := by
    intro blanks
    induction blanks with
    | nil => simp
    | cons b blanks ih =>
      intro header which blank other
      obtain ⟨text, no_num, -⟩ := blank_char (blank b List.mem_cons_self)
      by_cases space : b = 32
      · have first : Steps strict (InValue (f.measured n) header) b
            (InValue (f.measured n) .contentLengthWs) := by
          intro r value
          subst space
          refine ⟨by rw [value.state_eq]; rfl, fun count => ?_⟩
          rw [value_text value text, headerValueChar,
            show (r.counted count).parser.headerState = header from value.header_eq]
          rcases which with rfl | rfl
          · exact ⟨_, rfl, ⟨⟨⟨value.framing_eq, value.clean, value.unfinished, value.ordinary⟩,
              value.state_eq⟩, rfl⟩, rfl⟩
          · exact ⟨_, rfl, ⟨⟨⟨value.framing_eq, value.clean, value.unfinished, value.ordinary⟩,
              value.state_eq⟩, value.header_eq⟩, rfl⟩
        have one : Goes strict _ [b] _ := .byte first
        refine (ih _ (.inr rfl) (fun c member => blank c (List.mem_cons_of_mem _ member)) ?_).after clean one
        obtain ⟨c, member, differs⟩ := other
        rcases List.mem_cons.mp member with rfl | behind
        · exact absurd space differs
        · exact ⟨c, behind, differs⟩
      · have first : Fails strict (InValue (f.measured n) header) [b] := by
          refine .byte fun r value => ⟨by rw [value.state_eq]; rfl, fun count => ?_⟩
          rw [value_text value text, headerValueChar,
            show (r.counted count).parser.headerState = header from value.header_eq]
          rcases which with rfl | rfl <;> dsimp only
          · rw [contentLengthDigit, if_neg (by simpa [chr] using space), if_pos (by simp [no_num])]
            exact ⟨_, _, rfl, by decide⟩
          · rw [if_neg (by simpa [chr] using space)]
            exact ⟨_, _, rfl, by decide⟩
        exact first.append clean blanks
  exact fails blanks .contentLengthNum (.inl rfl) blank other

/-- What is read of a value that is a length. -/
theorem lengthOf_eq {value before after : Bytes} (parts : value = before ++ (digits ++ after))
    (before_blank : ∀ b ∈ before, isBlank b = true) (isNumber : IsNumber 10 digits n)
    (after_blank : ∀ b ∈ after, isBlank b = true) : lengthOf value =
      if n / 10 ≤ lengthLimit ∧ after.all (· == 32) then some n else none := by
  have rest : value.dropWhile isBlank = digits ++ after := by
    rw [parts, List.dropWhile_append_of_pos before_blank]
    obtain ⟨c, more, rfl⟩ := List.exists_cons_of_ne_nil isNumber.some_digit
    obtain ⟨digit, found⟩ := Option.isSome_iff_exists.mp (isNumber.digit c List.mem_cons_self)
    rw [List.cons_append, List.dropWhile_cons_of_neg (by simp [(digit_eq found).2.2.2.2.1])]
  have stops : scanDigits 10 0 0 (digits ++ after) = (n, digits.length, after) := by
    rw [scanDigits_all isNumber.digit, Nat.zero_add, show continued 10 0 digits = n from isNumber.value]
    cases after with
    | nil => rfl
    | cons b after => exact scanDigits_stop (blank_char (after_blank b List.mem_cons_self)).2.2 _ _ _
  have counted : digits.length ≠ 0 := List.length_eq_zero_iff.not.mpr isNumber.some_digit
  rw [lengthOf, rest, stops]
  simp only [ne_eq, counted, not_false_eq_true, true_and]

variable (strict) in
/-- **The value of a length**, by what is read of it. -/
theorem length_goes (value : Bytes) (measures : ∃ n, (⟨[], value⟩ : Field).HasLength n)
    (unmeasured : f.hasLength = false) :
    match lengthOf value with
    | some n => Goes strict (BeforeValue f .contentLength) (value ++ crlf) (LineStart strict (f.measured n))
    | none => Fails strict (BeforeValue f .contentLength) (value ++ crlf) := by
  obtain ⟨n, before, digits, after, parts, before_blank, isNumber, after_blank⟩ := measures
  rw [lengthOf_eq parts before_blank isNumber after_blank]
  obtain ⟨c, more, rfl⟩ := List.exists_cons_of_ne_nil isNumber.some_digit
  obtain ⟨digit, found⟩ := Option.isSome_iff_exists.mp (isNumber.digit c List.mem_cons_self)
  have total : continued 10 digit more = n := by
    rw [← isNumber.value, number, continued_cons found, Nat.zero_mul, Nat.zero_add]
  have more_digit : ∀ c ∈ more, (digitOf 10 c).isSome := fun c member =>
    isNumber.digit c (List.mem_cons_of_mem _ member)
  have clean : ∀ {header} (r), BeforeValue f header r → r.parser.errno = .ok := fun _ before => before.clean
  have valueClean : ∀ {f header} (r), InValue f header r → r.parser.errno = .ok := fun _ value => value.clean
  have first : Goes strict (BeforeValue f .contentLength) [c]
      (InValue (f.measured digit) .contentLengthNum) := .byte (length_first unmeasured found)
  have start : Goes strict (BeforeValue f .contentLength) before (BeforeValue f .contentLength) :=
    before_blanks before_blank
  have bytes : value ++ crlf = before ++ ([c] ++ (more ++ (after ++ crlf))) := by
    simp only at parts
    rw [parts]
    simp
  rw [bytes]
  by_cases small : n / 10 ≤ lengthLimit
  · have digits : Goes strict (InValue (f.measured digit) .contentLengthNum) more
        (InValue (f.measured n) .contentLengthNum) := by
      rw [← total]
      exact digits_goes (by decide) (fun _ => valueClean) (fun _ _ _ => length_digit) more_digit
        (total.symm ▸ small)
    by_cases spaces : after.all (· == 32) = true
    · rw [if_pos ⟨small, spaces⟩]
      have space : ∀ b ∈ after, b = 32 := by simpa using spaces
      exact start.append clean (first.append clean (digits.append valueClean (length_spaces space)))
    · rw [if_neg fun both => spaces both.2]
      have other : ∃ b ∈ after, b ≠ 32 := by simpa using spaces
      have rejected := (length_no_space strict (f := f) (n := n) after_blank other).append
        valueClean crlf
      exact ((rejected.after valueClean digits).after clean first).after clean start
  · rw [if_neg fun both => small both.1]
    have some_more : more ≠ [] := by
      rintro rfl
      have small_digit := (digit_eq found).2.2.1
      rw [continued_nil] at total
      omega
    have rejected : Fails strict (InValue (f.measured digit) .contentLengthNum) more :=
      digits_overflow (Q := fun n => InValue (f.measured n) .contentLengthNum) (fun _ => valueClean)
        (fun _ _ _ => length_digit) (fun _ _ _ => length_overflow) more_digit some_more
        (total.symm ▸ Nat.lt_of_not_le small)
    exact ((rejected.append valueClean (after ++ crlf)).after clean first).after clean start

end Length

/-! ### Codings -/

/-- A byte in the value of a `Transfer-Encoding`: the header state and the index behind it. -/
def codingStep : HeaderState × Nat → UInt8 → HeaderState × Nat
  | (.matchingTransferEncodingTokenStart, index), ch =>
    if lower ch = chr 'c' then (.matchingTransferEncodingChunked, index)
    else if strictToken (lower ch) ≠ 0 then (.matchingTransferEncodingToken, index)
    else if lower ch = chr ' ' ∨ lower ch = 9 then (.matchingTransferEncodingTokenStart, index)
    else (.general, index)
  | (.matchingTransferEncodingChunked, index), ch =>
    (match matchWord (ascii "chunked") (index + 1) (lower ch) with
      | .miss => .matchingTransferEncodingToken
      | .partly => .matchingTransferEncodingChunked
      | .whole => .transferEncodingChunked, index + 1)
  | (.matchingTransferEncodingToken, index), ch =>
    if ch = chr ',' then (.matchingTransferEncodingTokenStart, 0)
    else (.matchingTransferEncodingToken, index)
  | (.transferEncodingChunked, index), ch =>
    (if ch ≠ chr ' ' then .matchingTransferEncodingToken else .transferEncodingChunked, index)
  | other, _ => other

/-- The first byte of such a value. -/
def codingFirst (ch : UInt8) : HeaderState × Nat :=
  (if lower ch = chr 'c' then .matchingTransferEncodingChunked else .matchingTransferEncodingToken, 0)

/-- Does the parser find that `chunked` is the last of the codings? -/
def readsChunked (value : Bytes) : Bool :=
  match value.dropWhile isBlank with
  | [] => false
  | first :: rest => (rest.foldl codingStep (codingFirst first)).1 == .transferEncodingChunked

/-- The header states of such a value. -/
def isCoding : HeaderState → Bool
  | .general | .matchingTransferEncodingTokenStart | .matchingTransferEncodingChunked
  | .matchingTransferEncodingToken | .transferEncodingChunked => true
  | _ => false

/-- The parser is in such a value. -/
structure InCoding (f : Framing) (coding : HeaderState × Nat) (r : Parse) : Prop
    extends InValue f coding.1 r where
  index_eq : r.parser.index = coding.2
  coding : isCoding coding.1 = true

section Coding

variable {strict : Bool} {f : Framing} {b : UInt8} {coding : HeaderState × Nat}

theorem codingStep_coding (known : isCoding coding.1 = true) (b : UInt8) :
    isCoding (codingStep coding b).1 = true := by
  obtain ⟨header, index⟩ := coding
  cases header <;> cases known
  all_goals
    unfold codingStep
    dsimp only
    (repeat' split) <;> rfl

/-- The `switch` of `s_header_value` is `codingStep`. -/
theorem coding_char {r : Parse} (known : isCoding r.parser.headerState = true) (b : UInt8) :
    r.headerValueChar b = .more
      { r with
        parser.headerState := (codingStep (r.parser.headerState, r.parser.index) b).1
        parser.index := (codingStep (r.parser.headerState, r.parser.index) b).2 } := by
  obtain ⟨⟨state, header, index, flags, nread, contentLength, major, minor, statusCode, errno, upgrade⟩,
    complete⟩ := r
  cases header <;> cases known
  case general => rfl
  case matchingTransferEncodingChunked =>
    simp only [headerValueChar, matchValue, codingStep]
    generalize matchWord _ (index + 1) (lower b) = found
    cases found <;> rfl
  all_goals
    simp only [headerValueChar, codingStep, beq_iff_eq, bne_iff_ne, Bool.or_eq_true]
    (repeat' split) <;> rfl

theorem coding_step (text : isText b = true) :
    Steps strict (InCoding f coding) b (InCoding f (codingStep coding b)) := by
  intro r value
  refine ⟨by rw [value.state_eq]; rfl, fun n => ?_⟩
  have known : isCoding (r.counted n).parser.headerState = true := value.header_eq.symm ▸ value.coding
  have here : ((r.counted n).parser.headerState, (r.counted n).parser.index) = coding :=
    Prod.ext value.header_eq value.index_eq
  rw [value_text value.toInValue text, coding_char known, here]
  exact ⟨_, rfl, ⟨⟨⟨⟨value.framing_eq, value.clean, value.unfinished, value.ordinary⟩, value.state_eq⟩, rfl⟩,
    rfl, codingStep_coding value.coding b⟩, rfl⟩

theorem coding_first (text : isText b = true) (no_blank : isBlank b = false) :
    Steps strict (BeforeValue f .transferEncoding) b (InCoding f (codingFirst b)) := by
  intro r before
  refine ⟨by rw [before.state_eq]; rfl, fun n => ?_⟩
  rw [before_text before text no_blank]
  unfold onHeaderValueStart
  dsimp only
  rw [show (r.counted n).parser.headerState = .transferEncoding from before.header_eq]
  refine ⟨_, rfl, ⟨⟨⟨⟨before.framing_eq, before.clean, before.unfinished, before.ordinary⟩, rfl⟩, ?_⟩, rfl, ?_⟩,
    rfl⟩
  · simp only [codingFirst, beq_iff_eq]
  · unfold codingFirst
    dsimp only
    split <;> rfl

theorem codings_goes {bytes : Bytes} (text : ∀ b ∈ bytes, isText b = true) :
    Goes strict (InCoding f coding) bytes (InCoding f (bytes.foldl codingStep coding)) := by
  induction bytes generalizing coding with
  | nil => exact .nil
  | cons b bytes ih =>
    have first : Goes strict (InCoding f coding) [b] (InCoding f (codingStep coding b)) :=
      .byte (coding_step (text b List.mem_cons_self))
    exact first.append (fun _ value => value.clean) (ih fun c member => text c (List.mem_cons_of_mem _ member))

/-- **The value of a `Transfer-Encoding`.** -/
theorem coding_goes {value : Bytes} (text : ∀ b ∈ value, isText b = true) :
    Goes strict (BeforeValue f .transferEncoding) (value ++ crlf)
      (LineStart strict (if readsChunked value then { f with chunked := true } else f)) := by
  have clean : ∀ r, BeforeValue f .transferEncoding r → r.parser.errno = .ok := fun _ before => before.clean
  have start : Goes strict (BeforeValue f .transferEncoding) (value.takeWhile isBlank)
      (BeforeValue f .transferEncoding) := before_blanks (List.all_eq_true.mp List.all_takeWhile)
  have suffix : ∀ b ∈ value.dropWhile isBlank, isText b = true := fun b member =>
    text b ((List.dropWhile_suffix isBlank).mem member)
  rw [readsChunked]
  conv in value ++ crlf => rw [← List.takeWhile_append_dropWhile (p := isBlank) (l := value)]
  rw [List.append_assoc]
  refine start.append clean ?_
  cases rest : value.dropWhile isBlank with
  | nil => exact before_end rfl (by decide)
  | cons first more =>
    rw [rest] at suffix
    have no_blank : isBlank first = false := by
      have kept := List.head_dropWhile_not isBlank (l := value) (by simp [rest])
      simpa [rest] using kept
    have one : Goes strict (BeforeValue f .transferEncoding) [first] (InCoding f (codingFirst first)) :=
      .byte (coding_first (suffix first List.mem_cons_self) no_blank)
    have others : Goes strict (InCoding f (codingFirst first)) more
        (InCoding f (more.foldl codingStep (codingFirst first))) :=
      codings_goes fun b member => suffix b (List.mem_cons_of_mem _ member)
    have flagged : f.flagged (more.foldl codingStep (codingFirst first)).1 =
        if (more.foldl codingStep (codingFirst first)).1 == .transferEncodingChunked then
          { f with chunked := true } else f := by
      simp only [Framing.flagged, beq_iff_eq]
    have last : Goes strict (InCoding f (more.foldl codingStep (codingFirst first))) crlf
        (LineStart strict (f.flagged (more.foldl codingStep (codingFirst first)).1)) :=
      value_end.strengthen fun _ value => value.toInValue
    rw [← flagged]
    exact one.append clean (others.append (fun _ value => value.clean) last)

end Coding

end Apib.Parse
