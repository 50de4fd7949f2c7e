/-
**What the parser knows of a connection behind a response.**

`http_should_keep_alive` looks at the version, at the flag of `Connection: close` and at what says where the
message ends. The flag is set at the comma behind an option, or at the byte behind its line.

* `Leaves`: what holds behind some bytes, if the parser takes them all;
* `field_leaves`: **a field**, by whether `close` is among its options;
* `keepsAlive`: **behind a response that the parser answers** the connection is kept exactly if the response
  says so.
-/

import Apib.HttpParser.Options
import Apib.HttpParser.Responses

namespace Apib.Parse

open ByteMachine HttpParser Http Numerals

/-! ### Bytes that are taken -/

/-- Some bytes that are all taken lead from `P` to `Q`. -/
def Leaves (strict : Bool) (P : Parse → Prop) (bytes : Bytes) (Q : Parse → Prop) : Prop :=
  ∀ r next, P r → feed (stepByte strict) r bytes = ⟨next, [], false⟩ → Q next

section Leaves

variable {strict : Bool} {P Q R : Parse → Prop} {b : UInt8} {first second bytes : Bytes} {r next : Parse}

/-- A byte that is taken, whatever the count of header bytes. -/
theorem stepByte_more (taken : r.stepByte strict b = .more next) :
    ∃ n, (r.counted n).onByte strict b = .more next := by
  unfold stepByte at taken
  split at taken
  · dsimp only at taken
    split at taken
    · cases taken
    · exact ⟨_, taken⟩
  · exact ⟨r.parser.nread, taken⟩

/-- **One byte.** -/
theorem Leaves.byte (step : ∀ r n next, P r → (r.counted n).onByte strict b = .more next → Q next) :
    Leaves strict P [b] Q := by
  intro r next holds fed
  rw [feed] at fed
  cases verdict : r.stepByte strict b with
  | stop last eaten => rw [verdict] at fed; cases eaten <;> cases fed
  | more middle =>
    rw [verdict] at fed
    obtain ⟨n, taken⟩ := stepByte_more verdict
    cases fed
    exact step r n _ holds taken

theorem Leaves.nil : Leaves strict P [] P := by
  intro r next holds fed
  cases fed
  exact holds

/-- Bytes that are all taken are taken one after the other. -/
theorem feed_taken_parts (fed : feed (stepByte strict) r (first ++ second) = ⟨next, [], false⟩) :
    ∃ middle, feed (stepByte strict) r first = ⟨middle, [], false⟩ ∧
      feed (stepByte strict) middle second = ⟨next, [], false⟩ := by
  rw [feed_append] at fed
  cases stopped : (feed (stepByte strict) r first).stopped with
  | true =>
    rw [stopped, if_pos rfl] at fed
    have stays : (feed (stepByte strict) r first).stopped = false :=
      congrArg (fun fed : Fed Parse UInt8 => fed.stopped) fed
    cases stopped.symm.trans stays
  | false =>
    rw [stopped, if_neg Bool.false_ne_true] at fed
    have rest := feed_rest_of_running (stepByte strict) stopped
    exact ⟨_, by rw [← rest, ← stopped], fed⟩

/-- **Bytes after bytes.** -/
theorem Leaves.append (before : Leaves strict P first Q) (after : Leaves strict Q second R) :
    Leaves strict P (first ++ second) R := by
  intro r next holds fed
  obtain ⟨middle, taken, taken'⟩ := feed_taken_parts fed
  exact after _ _ (before _ _ holds taken) taken'

/-- One byte, and then bytes. -/
theorem Leaves.cons (step : ∀ r n next, P r → (r.counted n).onByte strict b = .more next → Q next)
    (rest : Leaves strict Q bytes R) : Leaves strict P (b :: bytes) R :=
  (Leaves.byte step).append rest

/-- **A loop.** -/
theorem Leaves.each (step : ∀ b ∈ bytes, ∀ r n next, P r → (r.counted n).onByte strict b = .more next →
    P next) : Leaves strict P bytes P := by
  induction bytes with
  | nil => exact .nil
  | cons b bytes ih =>
    exact .cons (step b List.mem_cons_self) (ih fun other member => step other (List.mem_cons_of_mem _ member))

theorem Leaves.strengthen (leaves : Leaves strict Q bytes R) (stronger : ∀ r, P r → Q r) :
    Leaves strict P bytes R :=
  fun r next holds fed => leaves r next (stronger r holds) fed

theorem Leaves.weaken (leaves : Leaves strict P bytes Q) (weaker : ∀ r, Q r → R r) : Leaves strict P bytes R :=
  fun r next holds fed => weaker next (leaves r next holds fed)

/-- Room is left to count header bytes. -/
def Counting (P : Parse → Prop) (r : Parse) : Prop := P r ∧ r.parser.nread ≤ maxHeaderSize

/-- What is counted is taken. -/
theorem Goes.leaves (goes : Goes strict P bytes Q) (clean : ∀ r, P r → r.parser.errno = .ok) :
    Leaves strict (Counting P) bytes (Counting Q) := by
  rintro r next ⟨holds, within⟩ fed
  have here := goes r holds within
  split at here
  · next fits =>
    obtain ⟨last, taken, there, count⟩ := here
    obtain rfl : last = next := congrArg Fed.state (taken.symm.trans fed)
    exact ⟨there, count.trans_le fits⟩
  · have running : (feed (stepByte strict) r bytes).stopped = false := by rw [fed]
    exact absurd ((feed_errno_of_running running).trans (clean r holds)) here

/-- What is rejected is not taken. -/
theorem Fails.leaves (fails : Fails strict P bytes) (clean : ∀ r, P r → r.parser.errno = .ok) :
    Leaves strict (Counting P) bytes Q := by
  rintro r next ⟨holds, within⟩ fed
  have running : (feed (stepByte strict) r bytes).stopped = false := by rw [fed]
  exact absurd ((feed_errno_of_running running).trans (clean r holds)) (fails r holds within)

end Leaves

/-! ### The flag -/

/-- The byte has changed nothing of what is known of the connection. -/
structure Kept (r next : Parse) : Prop where
  close : next.parser.flags.connectionClose = r.parser.flags.connectionClose
  major : next.parser.httpMajor = r.parser.httpMajor
  minor : next.parser.httpMinor = r.parser.httpMinor

/-- The flag of `Connection: close`, in an HTTP/1.1 response. -/
structure Flagged (close : Bool) (r : Parse) : Prop where
  flag : r.parser.flags.connectionClose = close
  major : r.parser.httpMajor = 1
  minor : r.parser.httpMinor = 1

/-- A line of a head is over; the flag of its last option may still have to be set. -/
def AtLine (close : Bool) (r : Parse) : Prop :=
  Flagged close r ∧ r.parser.state = .headerFieldStart ∨
    Flagged close r.tokenFlag ∧ (r.parser.state = .headerValueLws ∨ r.parser.state = .headerValueDiscardLws)

section Flag

variable {close : Bool} {r next : Parse}

theorem Kept.refl (r : Parse) : Kept r r := ⟨rfl, rfl, rfl⟩

theorem Flagged.kept (flagged : Flagged close r) (kept : Kept r next) : Flagged close next :=
  ⟨kept.close.trans flagged.flag, kept.major.trans flagged.major, kept.minor.trans flagged.minor⟩

theorem tokenFlag_counted (r : Parse) (n : Nat) : (r.counted n).tokenFlag = r.tokenFlag.counted n := by
  obtain ⟨⟨state, header⟩, complete⟩ := r
  cases header <;> rfl

theorem tokenFlag_kept (other : r.parser.headerState ≠ .connectionClose) : Kept r r.tokenFlag := by
  unfold tokenFlag
  split
  · exact ⟨rfl, rfl, rfl⟩
  · next same => exact absurd same other
  · exact ⟨rfl, rfl, rfl⟩
  · exact ⟨rfl, rfl, rfl⟩
  · exact .refl r

end Flag

/-! ### Names -/

section Names

variable {strict close : Bool} {b : UInt8} {r next : Parse} {n : Nat}

/-- A byte is to begin a name, or the end of a head. -/
theorem AtLine.starts (line : AtLine close r) (no_blank : isBlank b = false)
    (taken : (r.counted n).onByte strict b = .more next) :
    ∃ start, Flagged close start ∧ start.onHeaderFieldStart strict b = .more next := by
  rcases line with ⟨flagged, state⟩ | ⟨flagged, state | state⟩ <;>
    rw [onByte, show (r.counted n).parser.state = _ from state] at taken <;> dsimp only at taken
  · refine ⟨_, ?_, taken⟩
    exact flagged.kept ⟨rfl, rfl, rfl⟩
  · rw [onHeaderValueLws, blank_eq, if_neg (by simp [no_blank]), tokenFlag_counted] at taken
    refine ⟨_, ?_, taken⟩
    exact flagged.kept ⟨rfl, rfl, rfl⟩
  · rw [onHeaderValueDiscardLws, blank_eq, if_neg (by simp [no_blank]), tokenFlag_counted] at taken
    split at taken
    · cases taken
    · refine ⟨_, ?_, taken⟩
      exact flagged.kept ⟨rfl, rfl, rfl⟩

/-- The parser is inside a name. -/
structure AtName (close : Bool) (r : Parse) : Prop where
  flagged : Flagged close r
  state_eq : r.parser.state = .headerField
  named : isNameState r.parser.headerState = true

/-- The first byte of a name. -/
theorem AtLine.name (line : AtLine close r) (token : isTokenChar b = true)
    (taken : (r.counted n).onByte strict b = .more next) : AtName close next := by
  obtain ⟨-, -, no_cr, no_lf, -, no_blank⟩ := token_eq strict token
  obtain ⟨start, flagged, taken⟩ := line.starts no_blank taken
  rw [onHeaderFieldStart, if_neg (by simpa [CR] using no_cr), if_neg (by simpa [LF] using no_lf)] at taken
  dsimp only at taken
  split at taken
  · cases taken
  · cases taken
    refine ⟨flagged.kept ⟨rfl, rfl, rfl⟩, rfl, ?_⟩
    dsimp only
    (repeat' split) <;> rfl

/-- The end of a head, up to its last line feed. -/
theorem AtLine.done (line : AtLine close r) (taken : (r.counted n).onByte strict 13 = .more next) :
    Flagged close next := by
  obtain ⟨start, flagged, taken⟩ := line.starts rfl taken
  cases taken
  exact flagged.kept ⟨rfl, rfl, rfl⟩

/-- A byte of a name goes from names to names. -/
theorem nameStep_named {state : HeaderState} (named : isNameState state = true) (index : Nat) (c : UInt8) :
    isNameState (nameStep state index c).1 = true := by
  cases state <;> cases named
  all_goals
    unfold nameStep
    dsimp only
    (repeat' split) <;> rfl

/-- A byte of a name behind the first. -/
theorem AtName.name (inName : AtName close r) (token : isTokenChar b = true)
    (taken : (r.counted n).onByte strict b = .more next) : AtName close next := by
  obtain ⟨flagged, state, named⟩ := inName
  obtain ⟨lower, some_char, -, -, no_space, -⟩ := token_eq strict token
  rw [onByte, show (r.counted n).parser.state = _ from state] at taken
  dsimp only at taken
  rw [onHeaderField, lower] at taken
  rw [if_pos (by simpa using some_char), headerNameChar_eq (r := r.counted n) named no_space] at taken
  cases taken
  exact ⟨flagged.kept ⟨rfl, rfl, rfl⟩, state, nameStep_named named _ _⟩

/-- The colon behind a name. -/
theorem AtName.colon (inName : AtName close r) (taken : (r.counted n).onByte strict 58 = .more next) :
    Flagged close next := by
  have no_token : token strict 58 = 0 := by cases strict <;> decide
  rw [onByte, show (r.counted n).parser.state = _ from inName.state_eq] at taken
  dsimp only at taken
  rw [onHeaderField, no_token] at taken
  cases taken
  exact inName.flagged.kept ⟨rfl, rfl, rfl⟩

/-- **A name and its colon.** -/
theorem name_leaves {name : Bytes} (some_name : name ≠ []) (token : ∀ b ∈ name, isTokenChar b = true) :
    Leaves strict (AtLine close) (name ++ [58]) (Flagged close) := by
  obtain ⟨b, more, rfl⟩ := List.exists_cons_of_ne_nil some_name
  have others : Leaves strict (AtName close) more (AtName close) :=
    .each fun c member r n next inName taken =>
      inName.name (token c (List.mem_cons_of_mem _ member)) taken
  have colon : Leaves strict (AtName close) [58] (Flagged close) :=
    .byte fun r n next inName taken => inName.colon taken
  exact .cons (fun r n next line taken => line.name (token b List.mem_cons_self) taken) (others.append colon)

/-- The names of fields that list options for the connection. -/
theorem nameState_connection {name : Bytes} : nameState name = .connection ↔
    name = ascii "connection" ∨ name = ascii "proxy-connection" := by
  have listed : (nameTable.all fun entry => decide (entry.2 = .connection →
      entry.1 = ascii "connection" ∨ entry.1 = ascii "proxy-connection")) = true := by
    decide +kernel
  constructor
  · intro found
    have member : (name, nameState name) ∈ nameTable := mem_nameTable (by rw [found]; decide)
    exact of_decide_eq_true (List.all_eq_true.mp listed _ member) found
  · rintro (rfl | rfl) <;> decide +kernel

end Names

/-! ### Values -/

/-- The colon is read, and the value has not begun. -/
structure ValueStart (close : Bool) (header : HeaderState) (r : Parse) : Prop where
  flagged : Flagged close r
  state_eq : r.parser.state = .headerValueDiscardWs
  header_eq : r.parser.headerState = header

/-- The header states of a value that has nothing to say of the connection. -/
def isCalm (header : HeaderState) : Bool :=
  header != .connection && (header == .general || !isPlain header)

/-- The parser is in such a value. -/
structure InCalm (close : Bool) (r : Parse) : Prop where
  flagged : Flagged close r
  state_eq : r.parser.state = .headerValue
  calm : isCalm r.parser.headerState = true

/-- The parser is in a value that lists options, of which it has read some. -/
structure InOptions (close : Bool) (s : (HeaderState × Nat) × Bool) (r : Parse) : Prop where
  flagged : Flagged (close || s.2) r
  state_eq : r.parser.state = .headerValue
  header_eq : (r.parser.headerState, r.parser.index) = s.1
  plain : isPlain s.1.1 = true

section Values

variable {strict close : Bool} {b : UInt8} {r next : Parse} {n : Nat} {header : HeaderState}
  {s : (HeaderState × Nat) × Bool} {value : Bytes}

/-- White space in front of a value. -/
theorem ValueStart.blank (before : ValueStart close header r) (blank : isBlank b = true)
    (taken : (r.counted n).onByte strict b = .more next) : ValueStart close header next := by
  rw [onByte, show (r.counted n).parser.state = _ from before.state_eq] at taken
  dsimp only at taken
  rw [onHeaderValueDiscardWs, blank_eq, if_pos blank] at taken
  cases taken
  exact ⟨before.flagged.kept ⟨rfl, rfl, rfl⟩, before.state_eq, before.header_eq⟩

/-- The first byte of a value. -/
theorem ValueStart.starts (before : ValueStart close header r) (text : isText b = true)
    (no_blank : isBlank b = false) (taken : (r.counted n).onByte strict b = .more next) :
    (r.counted n).onHeaderValueStart b = .more next := by
  obtain ⟨no_cr, no_lf, -⟩ := text_eq text
  rw [onByte, show (r.counted n).parser.state = _ from before.state_eq] at taken
  dsimp only at taken
  rwa [onHeaderValueDiscardWs, blank_eq, if_neg (by simp [no_blank]), if_neg (by simpa [CR] using no_cr),
    if_neg (by simpa [LF] using no_lf)] at taken

/-- An empty value. -/
theorem empty_leaves (other : header ≠ .connectionClose) :
    Leaves strict (ValueStart close header) crlf (AtLine close) := by
  have cr : Leaves strict (ValueStart close header) [13] fun r => Flagged close r ∧
      r.parser.state = .headerValueDiscardWsAlmostDone ∧ r.parser.headerState = header := by
    refine .byte fun r n next before taken => ?_
    rw [onByte, show (r.counted n).parser.state = _ from before.state_eq] at taken
    cases taken
    exact ⟨before.flagged.kept ⟨rfl, rfl, rfl⟩, rfl, before.header_eq⟩
  refine cr.append (.byte fun r n next before taken => ?_)
  obtain ⟨flagged, state, header_eq⟩ := before
  rw [onByte, show (r.counted n).parser.state = _ from state] at taken
  dsimp only at taken
  rw [expect] at taken
  split at taken
  · cases taken
  · cases taken
    refine .inr ⟨Flagged.kept ?_ (tokenFlag_kept fun same => other (header_eq.symm.trans same)), .inr rfl⟩
    exact flagged.kept ⟨rfl, rfl, rfl⟩

/-- The end of a value. -/
theorem end_leaves {P : Parse → Prop} (inside : ∀ r, P r → r.parser.state = .headerValue)
    (flagged : ∀ r, P r → Flagged close r.tokenFlag) : Leaves strict P crlf (AtLine close) := by
  have same : ∀ (r : Parse) (n : Nat) (state : State),
      ({ r.counted n with parser.state := state } : Parse).tokenFlag =
        { r.tokenFlag.counted n with parser.state := state } := by
    rintro ⟨⟨state, header⟩, complete⟩ n other
    cases header <;> rfl
  have cr : Leaves strict P [13] fun r => Flagged close r.tokenFlag ∧ r.parser.state = .headerAlmostDone := by
    refine .byte fun r n next holds taken => ?_
    rw [onByte, show (r.counted n).parser.state = _ from inside r holds] at taken
    cases taken
    refine ⟨?_, rfl⟩
    rw [same]
    exact (flagged r holds).kept ⟨rfl, rfl, rfl⟩
  refine cr.append (.byte fun r n next holds taken => ?_)
  rw [onByte, show (r.counted n).parser.state = _ from holds.2] at taken
  cases taken
  refine .inr ⟨?_, .inl rfl⟩
  rw [same]
  exact holds.1.kept ⟨rfl, rfl, rfl⟩

/-- **A value**: the white space in front of it, and what begins with another byte. -/
theorem value_leaves {result : Bool} (text : ∀ b ∈ value, isText b = true) (other : header ≠ .connectionClose)
    (empty : value.dropWhile isBlank = [] → close = result)
    (begun : ∀ first more, value.dropWhile isBlank = first :: more → isBlank first = false →
      (∀ b ∈ first :: more, isText b = true) →
      Leaves strict (ValueStart close header) (first :: more ++ crlf) (AtLine result)) :
    Leaves strict (ValueStart close header) (value ++ crlf) (AtLine result) := by
  have blanks : Leaves strict (ValueStart close header) (value.takeWhile isBlank) (ValueStart close header) :=
    .each fun b member r n next before taken =>
      before.blank (List.all_eq_true.mp List.all_takeWhile b member) taken
  have rest : Leaves strict (ValueStart close header) (value.dropWhile isBlank ++ crlf) (AtLine result) := by
    cases parts : value.dropWhile isBlank with
    | nil => exact empty parts ▸ empty_leaves other
    | cons first more =>
      have suffix : ∀ b ∈ first :: more, isText b = true := fun b member =>
        text b ((List.dropWhile_suffix isBlank).mem (parts.symm ▸ member))
      have no_blank : isBlank first = false := by
        have kept := List.head_dropWhile_not isBlank (l := value) (by simp [parts])
        simpa [parts] using kept
      exact begun first more parts no_blank suffix
  rw [← List.takeWhile_append_dropWhile (p := isBlank) (l := value), List.append_assoc]
  exact blanks.append rest

/-- A byte inside a value. -/
theorem value_taken (inside : r.parser.state = .headerValue) (text : isText b = true)
    (taken : (r.counted n).onByte strict b = .more next) : (r.counted n).headerValueChar b = .more next := by
  obtain ⟨no_cr, no_lf, header_char⟩ := text_eq text
  rw [onByte, show (r.counted n).parser.state = _ from inside] at taken
  dsimp only at taken
  rwa [onHeaderValue, if_neg (by simpa [CR] using no_cr), if_neg (by simpa [LF] using no_lf),
    if_neg (by simp [header_char])] at taken

/-- A byte of a value that has nothing to say of the connection. -/
theorem calm_char (calm : isCalm r.parser.headerState = true) (taken : r.headerValueChar b = .more next) :
    Kept r next ∧ next.parser.state = r.parser.state ∧ isCalm next.parser.headerState = true := by
  unfold headerValueChar at taken
  dsimp only at taken
  cases header : r.parser.headerState <;> rw [header] at taken calm <;>
    simp only [contentLengthDigit, matchValue] at taken <;> (repeat' split at taken) <;> cases taken <;>
    first
      | exact ⟨⟨rfl, rfl, rfl⟩, rfl, rfl⟩
      | exact ⟨⟨rfl, rfl, rfl⟩, rfl, by rw [header]; rfl⟩
      | cases calm

theorem InCalm.char (value : InCalm close r) (text : isText b = true)
    (taken : (r.counted n).onByte strict b = .more next) : InCalm close next := by
  have taken := value_taken value.state_eq text taken
  obtain ⟨kept, state, calm⟩ := calm_char (r := r.counted n) value.calm taken
  exact ⟨value.flagged.kept ⟨kept.close, kept.major, kept.minor⟩, state.trans value.state_eq, calm⟩

/-- Its end sets no flag of `close`. -/
theorem InCalm.ends (value : InCalm close r) : Flagged close r.tokenFlag := by
  refine value.flagged.kept (tokenFlag_kept fun same => ?_)
  have calm := value.calm
  rw [same] at calm
  cases calm

/-- The first byte of such a value. -/
theorem ValueStart.calm (before : ValueStart close header r) (named : isNameState header = true)
    (no_options : header ≠ .connection) (text : isText b = true) (no_blank : isBlank b = false)
    (taken : (r.counted n).onByte strict b = .more next) : InCalm close next := by
  have taken := before.starts text no_blank taken
  unfold onHeaderValueStart at taken
  dsimp only at taken
  rw [show (r.counted n).parser.headerState = header from before.header_eq] at taken
  cases header <;> cases named
  case connection => exact absurd rfl no_options
  all_goals
    dsimp only at taken
    (repeat' split at taken) <;> cases taken <;> exact ⟨before.flagged.kept ⟨rfl, rfl, rfl⟩, rfl, rfl⟩

/-- **A value that has nothing to say of the connection.** -/
theorem calm_leaves (named : isNameState header = true) (no_options : header ≠ .connection)
    (text : ∀ b ∈ value, isText b = true) :
    Leaves strict (ValueStart close header) (value ++ crlf) (AtLine close) := by
  refine value_leaves text (by rintro rfl; cases named) (fun _ => rfl) fun first more _ no_blank text => ?_
  have one : ∀ r n next, ValueStart close header r → (r.counted n).onByte strict first = .more next →
      InCalm close next := fun r n next before taken =>
    before.calm named no_options (text first List.mem_cons_self) no_blank taken
  have others : Leaves strict (InCalm close) more (InCalm close) :=
    .each fun b member r n next value taken => value.char (text b (List.mem_cons_of_mem _ member)) taken
  have ends : Leaves strict (InCalm close) crlf (AtLine close) :=
    end_leaves (fun r value => value.state_eq) fun r value => value.ends
  exact .cons one (others.append ends)

/-- A byte of a value that lists options. -/
theorem options_char (plain : isPlain r.parser.headerState = true) (taken : r.headerValueChar b = .more next) :
    next.parser.flags.connectionClose =
        (r.parser.flags.connectionClose || (r.parser.headerState == .connectionClose && b == chr ',')) ∧
      next.parser.httpMajor = r.parser.httpMajor ∧ next.parser.httpMinor = r.parser.httpMinor ∧
      next.parser.state = r.parser.state ∧
      (next.parser.headerState, next.parser.index) = optionStep (r.parser.headerState, r.parser.index) b ∧
      isPlain next.parser.headerState = true := by
  unfold headerValueChar at taken
  dsimp only at taken
  cases header : r.parser.headerState <;> rw [header] at taken plain <;> cases plain
  all_goals
    simp only [matchValue, tokenFlag, header, beq_iff_eq, bne_iff_ne, Bool.or_eq_true, ite_not] at taken
    simp only [optionStep]
    (repeat' split at taken) <;> cases taken <;> simp_all [isPlain]

theorem InOptions.char (value : InOptions close s r) (text : isText b = true)
    (taken : (r.counted n).onByte strict b = .more next) : InOptions close (closeStep s b) next := by
  have taken := value_taken value.state_eq text taken
  have here : isPlain (r.counted n).parser.headerState = true := by
    have plain := value.plain
    rw [← value.header_eq] at plain
    exact plain
  obtain ⟨flag, major, minor, state, options, plain⟩ := options_char here taken
  have read : (next.parser.headerState, next.parser.index) = (closeStep s b).1 := by
    rw [options]
    exact congrArg (optionStep · b) value.header_eq
  refine ⟨⟨?_, major.trans value.flagged.major, minor.trans value.flagged.minor⟩,
    state.trans value.state_eq, read, by rw [← read]; exact plain⟩
  have found : r.parser.headerState = s.1.1 := congrArg Prod.fst value.header_eq
  rw [flag]
  show (r.parser.flags.connectionClose || (r.parser.headerState == .connectionClose && b == chr ',')) = _
  rw [value.flagged.flag, found, closeStep, Bool.or_assoc]

/-- Its end sets the flag of its last option. -/
theorem InOptions.ends (value : InOptions close s r) : Flagged (close || closesAt s) r.tokenFlag := by
  have found : r.parser.headerState = s.1.1 := congrArg Prod.fst value.header_eq
  obtain ⟨flag, major, minor⟩ := value.flagged
  unfold tokenFlag closesAt
  rw [← found, ← Bool.or_assoc, ← flag]
  split
  · next same => exact ⟨by simp [same], major, minor⟩
  · next same => exact ⟨by simp [same], major, minor⟩
  · next same => exact ⟨by simp [same], major, minor⟩
  · next same => exact ⟨by simp [same], major, minor⟩
  · exact ⟨by simp_all, major, minor⟩

/-- The first byte of such a value. -/
theorem ValueStart.options (before : ValueStart close .connection r) (text : isText b = true)
    (no_blank : isBlank b = false) (taken : (r.counted n).onByte strict b = .more next) :
    InOptions close (optionFirst b, false) next := by
  have taken := before.starts text no_blank taken
  unfold onHeaderValueStart at taken
  dsimp only at taken
  rw [show (r.counted n).parser.headerState = .connection from before.header_eq] at taken
  cases taken
  refine ⟨?_, rfl, ?_, ?_⟩
  · rw [Bool.or_false]
    exact before.flagged.kept ⟨rfl, rfl, rfl⟩
  · simp only [optionFirst, beq_iff_eq]
  · unfold optionFirst
    (repeat' split) <;> rfl

/-- More of such a value. -/
theorem options_more {more : Bytes} (s : (HeaderState × Nat) × Bool) (text : ∀ b ∈ more, isText b = true) :
    Leaves strict (InOptions close s) more (InOptions close (more.foldl closeStep s)) := by
  induction more generalizing s with
  | nil => exact .nil
  | cons b more ih =>
    exact .cons (fun r n next value taken => value.char (text b List.mem_cons_self) taken)
      (ih (closeStep s b) fun c member => text c (List.mem_cons_of_mem _ member))

/-- **A value that lists options.** -/
theorem options_leaves (text : ∀ b ∈ value, isText b = true) :
    Leaves strict (ValueStart close .connection) (value ++ crlf) (AtLine (close || readsClose value)) := by
  refine value_leaves text (by decide) (fun none_left => ?_) fun first more parts no_blank text => ?_
  · rw [readsClose, none_left, Bool.or_false]
  · have one : ∀ r n next, ValueStart close .connection r → (r.counted n).onByte strict first = .more next →
        InOptions close (optionFirst first, false) next := fun r n next before taken =>
      before.options (text first List.mem_cons_self) no_blank taken
    have ends : ∀ s, Leaves strict (InOptions close s) crlf (AtLine (close || closesAt s)) := fun s =>
      end_leaves (fun r value => value.state_eq) fun r value => value.ends
    have reads : closesAt (more.foldl closeStep (optionFirst first, false)) = readsClose value := by
      rw [readsClose, parts]
    rw [← reads]
    exact .cons one ((options_more _ fun b member => text b (List.mem_cons_of_mem _ member)).append (ends _))

end Values

/-! ### Fields -/

/-- A line of a head starts, with room left to count its bytes. -/
structure Line (strict close : Bool) (r : Parse) : Prop where
  within : r.parser.nread ≤ maxHeaderSize
  start : ∃ f, LineStart strict f r
  atLine : AtLine close r

section Fields

variable {strict close : Bool} {field : Field} {fields : List Field}

variable (strict close) in
/-- **A field**, by whether `close` is among its options. -/
theorem field_leaves (valid : field.Valid)
    (length : field.Named "content-length" → ∃ n, field.HasLength n) (tidy : field.OfConnection → field.Tidy) :
    Leaves strict (Line strict close) field.bytes (Line strict (close || decide field.Closes)) := by
  rintro r next ⟨within, ⟨f, start⟩, atLine⟩ fed
  have started : Counting (fun r => ∃ f, LineStart strict f r) next := by
    have yields := field_yields strict (f := f) valid length
    cases read : f.field field with
    | none =>
      rw [read] at yields
      exact Fails.leaves yields (fun _ line => line.clean) r next ⟨start, within⟩ fed
    | some g =>
      rw [read] at yields
      obtain ⟨behind, fits⟩ := Goes.leaves yields (fun _ line => line.clean) r next ⟨start, within⟩ fed
      exact ⟨⟨g, behind⟩, fits⟩
  refine ⟨started.2, started.1, ?_⟩
  have parts : field.bytes = (field.name ++ [58]) ++ (field.value ++ crlf) := by
    simp [Field.bytes]
  rw [parts] at fed
  obtain ⟨middle, name, value⟩ := feed_taken_parts fed
  have before : BeforeValue (f.named (field.name.map tolower)) (nameState (field.name.map tolower)) middle := by
    have goes : Goes strict (LineStart strict f) (field.name ++ [58]) _ :=
      (name_goes valid.some_name valid.name_token).append
      (fun _ line => line.clean) (.byte inName_colon)
    exact (Goes.leaves goes (fun _ line => line.clean) r middle ⟨start, within⟩ name).1
  have value_start : ValueStart close (nameState (field.name.map tolower)) middle :=
    ⟨name_leaves valid.some_name valid.name_token r middle atLine name, before.state_eq, before.header_eq⟩
  have known : nameState (field.name.map tolower) = .connection ↔ field.OfConnection := nameState_connection
  by_cases options : field.OfConnection
  · rw [known.mpr options] at value_start
    have closes : decide field.Closes = readsClose field.value := by
      rw [Bool.eq_iff_iff, decide_eq_true_iff, readsClose_iff (tidy options), Field.Closes,
        and_iff_right options]
    rw [closes]
    exact options_leaves valid.value_text middle next value_start value
  · have closes : decide field.Closes = false := decide_eq_false fun both => options both.1
    rw [closes, Bool.or_false]
    exact calm_leaves (nameState_named _) (fun same => options (known.mp same)) valid.value_text middle next
      value_start value

variable (strict close) in
/-- **Fields.** -/
theorem fields_leaves (valid : ∀ field ∈ fields, field.Valid)
    (length : ∀ field ∈ fields, field.Named "content-length" → ∃ n, field.HasLength n)
    (tidy : ∀ field ∈ fields, field.OfConnection → field.Tidy) :
    Leaves strict (Line strict close) (fields.flatMap Field.bytes)
      (Line strict (close || fields.any fun field => decide field.Closes)) := by
  induction fields generalizing close with
  | nil =>
    rw [List.any_nil, Bool.or_false]
    exact .nil
  | cons field fields ih =>
    have first := field_leaves strict close (valid field List.mem_cons_self)
      (length field List.mem_cons_self) (tidy field List.mem_cons_self)
    have rest := ih (close || decide field.Closes)
      (fun other member => valid other (List.mem_cons_of_mem _ member))
      (fun other member => length other (List.mem_cons_of_mem _ member))
      fun other member => tidy other (List.mem_cons_of_mem _ member)
    rw [List.any_cons, ← Bool.or_assoc]
    exact first.append rest

/-- The carriage return behind the last line. -/
theorem line_done : Leaves strict (Line strict close) [13] (Flagged close) :=
  .byte fun _ _ _ line taken => line.atLine.done taken

end Fields

/-! ### Heads -/

/-- The states of a status line behind its version. -/
def isStatusLine : State → Bool
  | .resFirstStatusCode | .resStatusCode | .resStatusStart | .resStatus => true
  | _ => false

section Heads

variable {strict close : Bool} {b : UInt8} {r next : Parse} {n : Nat} {h : Head} {line : Bytes}

/-- A byte of a status line. -/
theorem status_byte (inside : isStatusLine r.parser.state = true) (no_cr : b ≠ 13) (no_lf : b ≠ 10)
    (taken : (r.counted n).onByte strict b = .more next) :
    Kept r next ∧ isStatusLine next.parser.state = true := by
  have cr : (b == CR) = false := beq_false_of_ne no_cr
  have lf : (b == LF) = false := beq_false_of_ne no_lf
  rw [onByte, show (r.counted n).parser.state = r.parser.state from rfl] at taken
  cases state : r.parser.state <;> rw [state] at inside taken <;> cases inside
  all_goals
    simp only [onFirstStatusCode, onStatusCode, onStatusStart, onStatus, cr, lf, Bool.or_self,
      Bool.false_eq_true, if_false] at taken
    (repeat' split at taken) <;> cases taken <;> first
      | exact ⟨⟨rfl, rfl, rfl⟩, rfl⟩
      | exact ⟨⟨rfl, rfl, rfl⟩, by rw [show (r.counted n).parser.state = _ from state]; rfl⟩

/-- **The rest of a status line.** -/
theorem status_leaves (plain : ∀ b ∈ line, b ≠ 13 ∧ b ≠ 10) :
    Leaves strict (fun r => Flagged close r ∧ isStatusLine r.parser.state = true) (line ++ crlf)
      (AtLine close) := by
  have bytes : Leaves strict (fun r => Flagged close r ∧ isStatusLine r.parser.state = true) line
      fun r => Flagged close r ∧ isStatusLine r.parser.state = true := by
    refine .each fun b member r n next holds taken => ?_
    obtain ⟨kept, inside⟩ := status_byte holds.2 (plain b member).1 (plain b member).2 taken
    exact ⟨holds.1.kept kept, inside⟩
  have cr : Leaves strict (fun r => Flagged close r ∧ isStatusLine r.parser.state = true) [13]
      fun r => Flagged close r ∧ r.parser.state = .resLineAlmostDone := by
    refine .byte fun r n next holds taken => ?_
    obtain ⟨flagged, inside⟩ := holds
    rw [onByte, show (r.counted n).parser.state = r.parser.state from rfl] at taken
    cases state : r.parser.state <;> rw [state] at inside taken <;> cases inside <;> cases taken <;>
      exact ⟨flagged.kept ⟨rfl, rfl, rfl⟩, rfl⟩
  refine bytes.append (cr.append (.byte fun r n next holds taken => ?_))
  rw [onByte, show (r.counted n).parser.state = _ from holds.2] at taken
  dsimp only at taken
  rw [expect] at taken
  split at taken
  · cases taken
  · cases taken
    exact .inl ⟨holds.1.kept ⟨rfl, rfl, rfl⟩, rfl⟩

/-- The parser is in this state of the version. -/
structure AtVersion (state : State) (major minor : Nat) (r : Parse) : Prop where
  flag : r.parser.flags.connectionClose = false
  state_eq : r.parser.state = state
  major : r.parser.httpMajor = major
  minor : r.parser.httpMinor = minor

/-- A character that the version has to have. -/
theorem version_char {state goesOn : State} {major minor : Nat}
    (step : ∀ r : Parse, r.parser.state = state → ∀ next, r.onByte strict b = .more next →
      next = { r with parser.state := goesOn }) :
    Leaves strict (AtVersion state major minor) [b] (AtVersion goesOn major minor) := by
  refine .byte fun r n next inside taken => ?_
  obtain rfl := step (r.counted n) inside.state_eq next taken
  exact ⟨inside.flag, rfl, inside.major, inside.minor⟩

/-- The version. -/
theorem version_leaves : Leaves strict (· = fresh) (ascii "HTTP/1.1 ") fun r =>
    Flagged false r ∧ isStatusLine r.parser.state = true := by
  have expected : ∀ {state goesOn : State} {b : UInt8},
      (∀ r : Parse, r.parser.state = state → r.onByte strict b = r.expect strict b b goesOn) →
      Leaves strict (AtVersion state 0 0) [b] (AtVersion goesOn 0 0) := by
    intro state goesOn b expects
    refine version_char fun r here next taken => ?_
    rw [expects r here, expect, bne_self_eq_false, Bool.and_false] at taken
    cases taken
    rfl
  have first : Leaves strict (· = fresh) [chr 'H'] (AtVersion .resH 0 0) := by
    refine .byte fun r n next start taken => ?_
    subst start
    cases taken
    exact ⟨rfl, rfl, rfl, rfl⟩
  have major : Leaves strict (AtVersion .resHttpMajor 0 0) [chr '1'] (AtVersion .resHttpDot 1 0) := by
    refine .byte fun r n next inside taken => ?_
    rw [onByte, show (r.counted n).parser.state = _ from inside.state_eq] at taken
    cases taken
    exact ⟨inside.flag, rfl, rfl, inside.minor⟩
  have dot : Leaves strict (AtVersion .resHttpDot 1 0) [chr '.'] (AtVersion .resHttpMinor 1 0) := by
    refine version_char fun r here next taken => ?_
    rw [onByte, here] at taken
    cases taken
    rfl
  have minor : Leaves strict (AtVersion .resHttpMinor 1 0) [chr '1'] (AtVersion .resHttpEnd 1 1) := by
    refine .byte fun r n next inside taken => ?_
    rw [onByte, show (r.counted n).parser.state = _ from inside.state_eq] at taken
    cases taken
    exact ⟨inside.flag, rfl, inside.major, rfl⟩
  have space : Leaves strict (AtVersion .resHttpEnd 1 1) [chr ' '] (AtVersion .resFirstStatusCode 1 1) := by
    refine version_char fun r here next taken => ?_
    rw [onByte, here] at taken
    cases taken
    rfl
  have whole := first.append <| (expected fun r here => by rw [onByte, here]).append <|
    (expected fun r here => by rw [onByte, here]).append <| (expected fun r here => by rw [onByte, here]).append <|
    (expected fun r here => by rw [onByte, here]).append <| major.append <| dot.append <| minor.append space
  refine Leaves.weaken (Q := AtVersion .resFirstStatusCode 1 1) whole fun r inside => ⟨?_, ?_⟩
  · exact ⟨inside.flag, inside.major, inside.minor⟩
  · rw [inside.state_eq]
    rfl

/-- **A head without its last line feed.** -/
theorem front_leaves (valid : h.Valid) (tidy : ∀ field ∈ h.fields, field.OfConnection → field.Tidy) :
    Leaves strict (· = fresh) h.front (Flagged (h.fields.any fun field => decide field.Closes)) := by
  have plain : ∀ b ∈ [h.digits.1, h.digits.2.1, h.digits.2.2, 32] ++ h.reason, b ≠ 13 ∧ b ≠ 10 := by
    intro b member
    have text : isText b = true := by
      rcases List.mem_append.mp member with code | reason
      · have code : b ∈ [h.digits.1, h.digits.2.1, h.digits.2.2] ∨ b = 32 := by simpa [or_assoc] using code
        rcases code with digit | rfl
        · obtain ⟨value, found⟩ := Option.isSome_iff_exists.mp (valid.status_digit b digit)
          exact (digit_eq found).2.2.2.2.2
        · rfl
      · exact valid.reason_text b reason
    obtain ⟨no_cr, no_lf, -⟩ := text_eq text
    exact ⟨no_cr, no_lf⟩
  have line : Leaves strict (· = fresh)
      (ascii "HTTP/1.1 " ++ ([h.digits.1, h.digits.2.1, h.digits.2.2, 32] ++ (h.reason ++ crlf)))
      (Line strict false) := by
    rintro _ next rfl fed
    have start : ∀ r, r = fresh → r.parser.errno = .ok := by
      rintro r rfl
      rfl
    have goes : Goes strict (· = fresh) _ (LineStart strict (.coded h.status)) := version_goes.append start <| (status_goes valid.status_digit).append inside_clean
      (reason_goes valid.reason_text)
    obtain ⟨started, within⟩ := goes.leaves start fresh next ⟨rfl, Nat.zero_le _⟩ fed
    have line : Leaves strict (· = fresh)
        (ascii "HTTP/1.1 " ++ ([h.digits.1, h.digits.2.1, h.digits.2.2, 32] ++ h.reason ++ crlf)) (AtLine false) :=
      version_leaves.append (status_leaves plain)
    rw [List.append_assoc] at line
    exact ⟨within, ⟨_, started⟩, line fresh next rfl fed⟩
  have fields := fields_leaves strict false valid.fields_valid.valid
    valid.fields_valid.length tidy
  have whole : h.front = (ascii "HTTP/1.1 " ++ ([h.digits.1, h.digits.2.1, h.digits.2.2, 32] ++
      (h.reason ++ crlf))) ++ (h.fields.flatMap Field.bytes ++ [13]) := by
    simp [Head.front]
  rw [whole]
  exact line.append (fields.append line_done)

end Heads

/-! ### Bodies -/

/-- The states of the line of a chunk. -/
def isChunkLine : State → Bool
  | .chunkSizeStart | .chunkSize | .chunkParameters => true
  | _ => false

section Bodies

variable {strict close : Bool} {b : UInt8} {r next : Parse} {n : Nat} {f : Framing} {line data : Bytes}
  {c : Chunk}

variable (strict) in
/-- **A body of a known length** is done with its last byte. -/
theorem whole_done (state : r.parser.state = .bodyIdentity) (length : r.parser.contentLength = data.length)
    (some_data : data ≠ []) (no_upgrade : r.parser.upgrade = false) : feed (stepByte strict) r data =
      ⟨completed strict { r with parser.contentLength := 0, parser.state := .messageDone }, [], false⟩ := by
  induction data generalizing r with
  | nil => exact absurd rfl some_data
  | cons b data ih =>
    have step : r.stepByte strict b = if data = [] then
        .more (completed strict { r with parser.contentLength := 0, parser.state := .messageDone })
        else .more { r with parser.contentLength := data.length } := by
      rw [stepByte_body (by rw [state]; rfl), onByte, state]
      dsimp only
      rw [onBodyIdentity, length]
      cases data with
      | nil => simp [onMessageDone, no_upgrade]
      | cons c data => simp
    rw [feed, step]
    by_cases last : data = []
    · rw [if_pos last, last]
      rfl
    · rw [if_neg last]
      exact ih (r := { r with parser.contentLength := data.length }) state rfl last no_upgrade

/-- A byte of the line of a chunk. -/
theorem chunkLine_byte (inside : isChunkLine r.parser.state = true) (no_cr : b ≠ 13)
    (taken : (r.counted n).onByte strict b = .more next) :
    Kept r next ∧ isChunkLine next.parser.state = true := by
  have cr : (b == CR) = false := beq_false_of_ne no_cr
  rw [onByte, show (r.counted n).parser.state = r.parser.state from rfl] at taken
  cases state : r.parser.state <;> rw [state] at inside taken <;> cases inside
  all_goals
    simp only [onChunkSizeStart, onChunkSize, cr, Bool.false_eq_true, if_false] at taken
    (repeat' split at taken) <;> cases taken <;> first
      | exact ⟨⟨rfl, rfl, rfl⟩, rfl⟩
      | exact ⟨⟨rfl, rfl, rfl⟩, by simp [counted, state, isChunkLine]⟩

/-- **The line of a chunk.** -/
theorem chunkLine_leaves (plain : ∀ b ∈ line, b ≠ 13) :
    Leaves strict (fun r => Flagged close r ∧ isChunkLine r.parser.state = true) (line ++ crlf)
      (Flagged close) := by
  have bytes : Leaves strict (fun r => Flagged close r ∧ isChunkLine r.parser.state = true) line
      fun r => Flagged close r ∧ isChunkLine r.parser.state = true := by
    refine .each fun b member r n next holds taken => ?_
    obtain ⟨kept, inside⟩ := chunkLine_byte holds.2 (plain b member) taken
    exact ⟨holds.1.kept kept, inside⟩
  have cr : Leaves strict (fun r => Flagged close r ∧ isChunkLine r.parser.state = true) [13]
      fun r => Flagged close r ∧ r.parser.state = .chunkSizeAlmostDone := by
    refine .byte fun r n next holds taken => ?_
    obtain ⟨flagged, inside⟩ := holds
    rw [onByte, show (r.counted n).parser.state = r.parser.state from rfl] at taken
    cases state : r.parser.state <;> rw [state] at inside taken <;> cases inside <;> cases taken <;>
      exact ⟨flagged.kept ⟨rfl, rfl, rfl⟩, rfl⟩
  refine bytes.append (cr.append (.byte fun r n next holds taken => ?_))
  rw [onByte, show (r.counted n).parser.state = _ from holds.2] at taken
  dsimp only at taken
  rw [onChunkSizeAlmostDone] at taken
  split at taken
  · cases taken
  · dsimp only at taken
    split at taken <;> cases taken <;> exact holds.1.kept ⟨rfl, rfl, rfl⟩

/-- The data of a chunk. -/
theorem chunkData_leaves (some_data : data ≠ []) :
    Leaves strict (fun r => Flagged close r ∧ r.parser.state = .chunkData ∧
      r.parser.contentLength = data.length) data
      fun r => Flagged close r ∧ r.parser.state = .chunkDataAlmostDone := by
  induction data with
  | nil => exact absurd rfl some_data
  | cons b data ih =>
    have step : ∀ r n next, r.parser.state = .chunkData → r.parser.contentLength = (b :: data).length →
        (r.counted n).onByte strict b = .more next → Kept r next ∧
          if data = [] then next.parser.state = .chunkDataAlmostDone
          else next.parser.state = .chunkData ∧ next.parser.contentLength = data.length := by
      intro r n next state length taken
      rw [onByte, show (r.counted n).parser.state = _ from state] at taken
      dsimp only at taken
      rw [onChunkData, show (r.counted n).parser.contentLength = _ from length, List.length_cons,
        Nat.add_sub_cancel] at taken
      dsimp only at taken
      by_cases last : data = []
      · subst last
        cases taken
        exact ⟨⟨rfl, rfl, rfl⟩, rfl⟩
      · rw [if_neg (by simpa using last)] at taken
        cases taken
        rw [if_neg last]
        exact ⟨⟨rfl, rfl, rfl⟩, state, rfl⟩
    by_cases last : data = []
    · subst last
      refine .byte fun r n next holds taken => ?_
      obtain ⟨kept, state⟩ := step r n next holds.2.1 holds.2.2 taken
      exact ⟨holds.1.kept kept, state⟩
    · refine .cons (fun r n next holds taken => ?_) (ih last)
      obtain ⟨kept, state⟩ := step r n next holds.2.1 holds.2.2 taken
      rw [if_neg last] at state
      exact ⟨holds.1.kept kept, state⟩

/-- The end of the data of a chunk. -/
theorem chunkEnd_leaves :
    Leaves strict (fun r => Flagged close r ∧ r.parser.state = .chunkDataAlmostDone) crlf
      (Flagged close) := by
  refine .cons (Q := fun r => Flagged close r ∧ r.parser.state = .chunkDataDone)
    (fun r n next holds taken => ?_) (.byte fun r n next holds taken => ?_)
  · rw [onByte, show (r.counted n).parser.state = _ from holds.2] at taken
    dsimp only at taken
    rw [expect] at taken
    split at taken <;> cases taken
    exact ⟨holds.1.kept ⟨rfl, rfl, rfl⟩, rfl⟩
  · rw [onByte, show (r.counted n).parser.state = _ from holds.2] at taken
    dsimp only at taken
    rw [onChunkDataDone] at taken
    split at taken <;> cases taken
    exact holds.1.kept ⟨rfl, rfl, rfl⟩

/-- The line of a chunk holds no carriage return but its last. -/
theorem chunkLine_plain {size ext : Bytes} (isNumber : IsNumber 16 size n) (valid : ValidExt ext) :
    ∀ b ∈ size ++ ext, b ≠ 13 := by
  intro b member
  rcases List.mem_append.mp member with digit | extension
  · obtain ⟨value, found⟩ := Option.isSome_iff_exists.mp (isNumber.digit b digit)
    exact (hex_eq found).2
  · exact (text_eq (valid.text b extension)).1

/-- The line of a chunk, where one is expected. -/
theorem AtChunk.line_flagged {size ext : Bytes} (start : AtChunk f r) (flagged : Flagged close r)
    (isNumber : IsNumber 16 size n) (valid : ValidExt ext)
    (taken : feed (stepByte strict) r (size ++ (ext ++ crlf)) = ⟨next, [], false⟩) : Flagged close next := by
  rw [← List.append_assoc] at taken
  refine chunkLine_leaves (chunkLine_plain isNumber valid) r next ⟨flagged, ?_⟩ taken
  rw [start.reads.choose_spec.state_eq]
  rfl

/-- **A chunk.** -/
theorem chunk_leaves (valid : c.Valid) (fits : LineFits c.size c.ext) :
    Leaves strict (fun r => AtChunk f r ∧ Flagged close r) c.bytes fun r => AtChunk f r ∧ Flagged close r := by
  rintro r next ⟨start, flagged⟩ fed
  obtain ⟨last, taken, start'⟩ := chunk_takes strict valid fits start
  obtain rfl : last = next := congrArg Fed.state (taken.symm.trans fed)
  refine ⟨start', ?_⟩
  obtain ⟨middle, line, behind⟩ := line_takes strict valid.size_number valid.ext_valid fits start
  have reads := behind.more (List.length_eq_zero_iff.not.mpr valid.some_data)
  have bytes : c.bytes = (c.size ++ (c.ext ++ crlf)) ++ (c.data ++ crlf) := by
    simp [Chunk.bytes]
  rw [bytes, feed_taken line] at fed
  have flagged' : Flagged close middle := start.line_flagged flagged valid.size_number valid.ext_valid line
  have rest : Leaves strict _ (c.data ++ crlf) (Flagged close) :=
    (chunkData_leaves valid.some_data).append chunkEnd_leaves
  exact rest middle last ⟨flagged', reads.state_eq, congrArg Framing.contentLength reads.framing_eq⟩ fed

/-- **Chunks.** -/
theorem chunks_leave {chunks : List Chunk} (valid : ∀ c ∈ chunks, c.Valid)
    (fits : ∀ c ∈ chunks, LineFits c.size c.ext) :
    Leaves strict (fun r => AtChunk f r ∧ Flagged close r) (chunks.flatMap Chunk.bytes)
      fun r => AtChunk f r ∧ Flagged close r := by
  induction chunks with
  | nil => exact .nil
  | cons c chunks ih =>
    exact (chunk_leaves (valid c List.mem_cons_self) (fits c List.mem_cons_self)).append
      (ih (fun other member => valid other (List.mem_cons_of_mem _ member))
        fun other member => fits other (List.mem_cons_of_mem _ member))

end Bodies

/-! ### Whole responses -/

section Whole

variable {strict close : Bool} {r : Parse} {f : Framing} {verb : Bytes} {m : Message} {c : Chunked}

/-- Where the end of a message is known, only `close` closes the connection. -/
theorem Flagged.keeps (flagged : Flagged close r) (ends : r.parser.messageNeedsEof = false) :
    r.parser.shouldKeepAlive = !close := by
  rw [shouldKeepAlive, flagged.major, flagged.minor, flagged.flag, ends]
  cases close <;> rfl

theorem sequel_finished (finished : f.sequel = .finished) : f.transferEncoding = false ∧
    (f.contentLength ≠ ullongMax ∨
      (f.statusCode / 100 == 1 || f.statusCode == 204 || f.statusCode == 304) = true) := by
  unfold Framing.sequel at finished
  revert finished
  (repeat' split) <;> simp_all [ullongMax]

theorem sequel_whole_uncoded (whole : f.sequel = .whole) : f.transferEncoding = false := by
  unfold Framing.sequel at whole
  revert whole
  (repeat' split) <;> simp_all

/-- A head that is finished needs no end of the stream. -/
theorem finished_ends (inside : Inside f r) (finished : f.sequel = .finished) :
    r.parser.messageNeedsEof = false := by
  obtain ⟨rfl, -⟩ := inside
  obtain ⟨uncoded, known⟩ := sequel_finished finished
  have uncoded : r.parser.flags.transferEncoding = false := uncoded
  rcases known with measured | bodiless
  · have measured : r.parser.contentLength ≠ ullongMax := measured
    simp [messageNeedsEof, uncoded, measured]
  · have bodiless : (r.parser.statusCode / 100 == 1 || r.parser.statusCode == 204 ||
        r.parser.statusCode == 304) = true := bodiless
    simp [messageNeedsEof, bodiless]

/-- Neither does a body of a known length. -/
theorem whole_ends (inside : Inside f r) (whole : f.sequel = .whole) :
    ({ r.parser with contentLength := 0 } : HttpParser).messageNeedsEof = false := by
  obtain ⟨rfl, -⟩ := inside
  have uncoded : r.parser.flags.transferEncoding = false := sequel_whole_uncoded whole
  simp [messageNeedsEof, uncoded, ullongMax]

/-- The last line feed of a message in chunks. -/
theorem trailer_last (reads : Reads .headersAlmostDone f r) (trailing : r.parser.flags.trailing = true)
    (count : Nat) : (r.counted count).onByte strict 10 =
      .more (completed strict { r.counted count with parser.state := .messageDone }) := by
  have is_lf : (10 != LF) = false := rfl
  rw [onByte, show (r.counted count).parser.state = .headersAlmostDone from reads.state_eq]
  dsimp only
  rw [onHeadersAlmostDone, is_lf, Bool.and_false]
  simp [counted, trailing, onMessageDone, reads.ordinary.2]

/-- **A body in chunks**, with the fields that trail. -/
theorem chunked_keeps (valid : c.Valid) (readable : Readable c) (chunked : f.chunked = true)
    (start : AtChunk f r) (flagged : Flagged close r)
    (tidy : ∀ field ∈ c.trailer, field.OfConnection → field.Tidy) :
    (feed (stepByte strict) r c.bytes).state.parser.shouldKeepAlive =
      !(close || c.trailer.any fun field => decide field.Closes) := by
  obtain ⟨middle, chunks, start'⟩ := chunks_take strict valid.chunks_valid readable.chunks_fit start
  have flagged' : Flagged close middle :=
    (chunks_leave valid.chunks_valid readable.chunks_fit r middle ⟨start, flagged⟩ chunks).2
  obtain ⟨behind, line, feed⟩ := line_takes strict valid.size_zero valid.ext_valid readable.last_fits start'
  have flagged'' : Flagged close behind :=
    start'.line_flagged flagged' valid.size_zero valid.ext_valid line
  have reads := feed.last rfl
  obtain ⟨g, read⟩ := fields_isSome (f := { f.sized 0 with trailing := true }) valid.trailer_bare.no_length
  obtain ⟨-, trailing, -, coded⟩ := fields_keep read
  have length : ∀ field ∈ c.trailer, field.Named "content-length" → ∃ n, field.HasLength n :=
    fun field member named => absurd named (valid.trailer_bare.no_length field member)
  have fields := fields_yields strict (f := { f.sized 0 with trailing := true }) valid.trailer_valid length
  rw [read] at fields
  have lines : Goes strict (LineStart strict { f.sized 0 with trailing := true })
      (c.trailer.flatMap Field.bytes) (LineStart strict g) := fields
  have goes := (lines.strengthen fun _ => lineStart_of_reads).append inside_clean lineStart_end
  have here := goes.last reads feed.none_yet reads.clean almostDone_header 10
  rw [if_pos (by simpa [crlf] using readable.trailer_fits)] at here
  obtain ⟨last, taken, reads', step⟩ := here
  have closes : Flagged (close || c.trailer.any fun field => decide field.Closes) last :=
    ((fields_leaves strict close valid.trailer_valid length tidy).append line_done) behind last
      ⟨by rw [feed.none_yet]; exact Nat.zero_le _, ⟨_, lineStart_of_reads reads⟩,
        .inl ⟨flagged'', reads.state_eq⟩⟩ taken
  have flag : last.parser.flags.trailing = true := (congrArg Framing.trailing reads'.framing_eq).trans trailing
  have needs : last.parser.messageNeedsEof = false := by
    have known : last.parser.flags.chunked = true :=
      (congrArg Framing.chunked reads'.framing_eq).trans ((coded valid.trailer_bare.no_coding).trans chunked)
    rw [messageNeedsEof, known]
    simp
  have bytes : c.bytes = c.chunks.flatMap Chunk.bytes ++
      ((c.size ++ (c.ext ++ crlf)) ++ ((c.trailer.flatMap Field.bytes ++ [13]) ++ [10])) := by
    simp [Chunked.bytes, Chunked.finish]
  rw [bytes, feed_taken chunks, feed_taken line, feed_taken taken, ByteMachine.feed, step,
    trailer_last reads' flag]
  exact closes.keeps needs

/-- **Behind a response that the parser answers** the connection is kept exactly if the response says so. -/
theorem keepsAlive (wellFormed : m.WellFormed verb) (agrees : Agrees m) (tidy : m.Tidy) :
    (feed (stepByte strict) fresh m.bytes).state.parser.shouldKeepAlive = decide m.Persistent := by
  have valid := wellFormed.head_valid
  obtain ⟨fits, f, read, delimits⟩ := agrees
  obtain ⟨code, line, -, -⟩ := ofHead_keeps read
  have no_switch : f.statusCode ≠ 101 := by
    have := wellFormed.final
    omega
  obtain ⟨r, taken, reads, step⟩ := head_read strict valid read fits
  have inside := reads.toInside.counted m.head.bytes.length
  have feeds : r.stepByte strict 10 = (r.counted m.head.bytes.length).atSequel strict f.sequel :=
    step.trans (headersAlmostDone_eq inside line no_switch)
  have head : ∀ {next : Parse}, r.stepByte strict 10 = .more next →
      feed (stepByte strict) fresh m.head.bytes = ⟨next, [], false⟩ := by
    intro next more
    rw [Head.bytes, feed_taken taken, feed, more]
    rfl
  have flagged : Flagged (m.head.fields.any fun field => decide field.Closes) r :=
    front_leaves valid (fun field member => tidy field (List.mem_append_left _ member)) fresh r rfl taken
  have finished : m.body.bytes = [] → m.trailer = [] → f.sequel = .finished →
      (feed (stepByte strict) fresh m.bytes).state.parser.shouldKeepAlive = decide m.Persistent := by
    intro empty no_trailer sequel
    rw [sequel] at feeds
    rw [Message.bytes, empty, List.append_nil, head feeds, m.persistent_eq, no_trailer, List.any_nil,
      Bool.or_false]
    have ends := finished_ends reads.toInside sequel
    exact Flagged.keeps (flagged.kept ⟨rfl, rfl, rfl⟩) ends
  cases body : m.body with
  | none =>
    rw [body] at delimits
    exact finished (by rw [body]; rfl) (by rw [Message.trailer, body]) delimits
  | whole data =>
    rw [body, Framing.Delimits] at delimits
    by_cases empty : data = []
    · rw [if_pos empty] at delimits
      exact finished (by rw [body]; exact empty) (by rw [Message.trailer, body]) delimits
    · rw [if_neg empty] at delimits
      rw [delimits] at feeds
      obtain ⟨-, some_length, gives⟩ := framed_whole wellFormed.framed body
      have given := (fields_given read some_length gives).2.1
      have length : r.parser.contentLength = data.length :=
        (congrArg Framing.contentLength reads.framing_eq).trans given
      have done := whole_done strict
        (r := (r.counted m.head.bytes.length).behindHead .bodyIdentity) rfl length empty rfl
      have no_trailer : m.trailer = [] := by rw [Message.trailer, body]
      rw [Message.bytes, body, feed_taken (head feeds), Body.bytes, done, m.persistent_eq, no_trailer,
        List.any_nil, Bool.or_false]
      have ends := whole_ends reads.toInside delimits
      exact Flagged.keeps (flagged.kept ⟨rfl, rfl, rfl⟩) ends
  | chunked c =>
    rw [body] at delimits
    obtain ⟨sequel, readable⟩ := delimits
    rw [sequel] at feeds
    have chunks : c.Valid := by
      have := wellFormed.body_valid
      rwa [body] at this
    have trailer : m.trailer = c.trailer := by rw [Message.trailer, body]
    have start : AtChunk f ((r.counted m.head.bytes.length).behindHead .chunkSizeStart) :=
      ⟨⟨f.contentLength, ⟨inside.framing_eq, inside.clean, inside.unfinished, inside.ordinary.1, rfl⟩, rfl⟩,
        rfl⟩
    rw [Message.bytes, body, feed_taken (head feeds), Body.bytes, m.persistent_eq, trailer]
    exact chunked_keeps chunks readable (sequel_chunks sequel) start (flagged.kept ⟨rfl, rfl, rfl⟩)
      fun field member => tidy field (List.mem_append_right _ (trailer.symm ▸ member))

end Whole

end Apib.Parse
