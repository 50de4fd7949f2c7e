/-
**How the parser reads the name of a header field.**

Five words are looked for, three of them behind the common start `con`. After each byte the header state
is that of the name so far (`nameState`), whatever came before it.

* `nameStep_eq`: one byte more;
* `name_goes`: **the header state after a whole name** is that of the name in lower case.
-/

import Apib.Http.Message
import Apib.HttpParser.Rules

namespace Apib.HttpParser

open Numerals

/-! ### The words -/

/-- The words that names are matched with, the states on the way to each and the one behind it. -/
def nameWords : List (Bytes × HeaderState × HeaderState) :=
  [(ascii "connection", .matchingConnection, .connection),
    (ascii "proxy-connection", .matchingProxyConnection, .connection),
    (ascii "content-length", .matchingContentLength, .contentLength),
    (ascii "transfer-encoding", .matchingTransferEncoding, .transferEncoding),
    (ascii "upgrade", .matchingUpgrade, .upgrade)]

/-- The states of the starts of these words. -/
def nameTable : List (Bytes × HeaderState) :=
  [(ascii "c", .c), (ascii "co", .co), (ascii "con", .con)] ++
    nameWords.flatMap fun (word, matching, found) =>
      ((List.range' 1 (word.length - 1)).map fun count => (word.take count, matching)) ++ [(word, found)]

/-- The header state after a name, or the start of one, in lower case. -/
def nameState (name : Bytes) : HeaderState := (nameTable.lookup name).getD .general

/-- The `switch` of `s_header_field`, for what is not a space: the header state and the index. -/
def nameStep (state : HeaderState) (index : Nat) (c : UInt8) : HeaderState × Nat :=
  let matched (word : Bytes) (matching found : HeaderState) : HeaderState × Nat :=
    (match matchWord word (index + 1) c with
      | .miss => .general
      | .partly => matching
      | .whole => found, index + 1)
  match state with
  | .c => (if c = chr 'o' then .co else .general, index + 1)
  | .co => (if c = chr 'n' then .con else .general, index + 1)
  | .con =>
    (if c = chr 'n' then .matchingConnection else if c = chr 't' then .matchingContentLength else .general,
      index + 1)
  | .matchingConnection => matched (ascii "connection") .matchingConnection .connection
  | .matchingProxyConnection => matched (ascii "proxy-connection") .matchingProxyConnection .connection
  | .matchingContentLength => matched (ascii "content-length") .matchingContentLength .contentLength
  | .matchingTransferEncoding =>
    matched (ascii "transfer-encoding") .matchingTransferEncoding .transferEncoding
  | .matchingUpgrade => matched (ascii "upgrade") .matchingUpgrade .upgrade
  | .connection | .contentLength | .transferEncoding | .upgrade => (.general, index)
  | other => (other, index)

/-- The bytes with which the start of a word goes on. -/
def nextChars (state : HeaderState) (index : Nat) : Bytes :=
  match state with
  | .c => ascii "o"
  | .co => ascii "n"
  | .con => ascii "nt"
  | .matchingConnection => ((ascii "connection")[index + 1]?).toList
  | .matchingProxyConnection => ((ascii "proxy-connection")[index + 1]?).toList
  | .matchingContentLength => ((ascii "content-length")[index + 1]?).toList
  | .matchingTransferEncoding => ((ascii "transfer-encoding")[index + 1]?).toList
  | .matchingUpgrade => ((ascii "upgrade")[index + 1]?).toList
  | _ => []

/-- Is this a state of the name of a field? -/
def isNameState : HeaderState → Bool
  | .general | .c | .co | .con | .matchingConnection | .matchingProxyConnection | .matchingContentLength
  | .matchingTransferEncoding | .matchingUpgrade | .connection | .contentLength | .transferEncoding
  | .upgrade => true
  | _ => false

section Table

variable {name : Bytes} {c : UInt8}

/-- What there is to know of the start of a word. -/
structure Listed (name : Bytes) : Prop where
  before : name.length ≠ 1 → nameState name.dropLast ≠ .general ∧
    name.getLast?.getD 0 ∈ nextChars (nameState name.dropLast) (name.length - 2)
  state : isNameState (nameState name) = true
  next : ∀ c ∈ nextChars (nameState name) (name.length - 1),
    nameStep (nameState name) (name.length - 1) c = (nameState (name ++ [c]), name.length)

/-- The table, tried entry by entry. -/
theorem nameTable_checked : (nameTable.all fun (name, _) =>
    (name.length == 1 ||
      nameState name.dropLast != .general &&
        (nextChars (nameState name.dropLast) (name.length - 2)).contains (name.getLast?.getD 0)) &&
    isNameState (nameState name) &&
    (nextChars (nameState name) (name.length - 1)).all fun c =>
      nameStep (nameState name) (name.length - 1) c == (nameState (name ++ [c]), name.length)) = true := by
  decide +kernel

/-- What is told from other names is in the table. -/
theorem mem_nameTable (special : nameState name ≠ .general) : (name, nameState name) ∈ nameTable := by
  obtain ⟨state, found⟩ : ∃ state, nameTable.lookup name = some state := by
    rw [← Option.ne_none_iff_exists']
    intro missing
    exact special (by rw [nameState, missing]; rfl)
  obtain ⟨before, after, table, -⟩ := List.lookup_eq_some_iff.mp found
  rw [nameState, found, Option.getD_some, table]
  simp

/-- **A name that is not read as any other is the start of a word.** -/
theorem listed_of_state (special : nameState name ≠ .general) : Listed name := by
  have checked := List.all_eq_true.mp nameTable_checked _ (mem_nameTable special)
  simp only [Bool.and_eq_true, Bool.or_eq_true, beq_iff_eq, bne_iff_ne, List.contains_iff_mem,
    List.all_eq_true] at checked
  obtain ⟨⟨before, state⟩, next⟩ := checked
  exact ⟨fun longer => before.resolve_left longer, state, next⟩

/-- A byte with which a word does not go on. -/
theorem nameStep_general {state : HeaderState} {index : Nat} (named : isNameState state = true)
    (some_char : c ≠ 0) (other : c ∉ nextChars state index) : (nameStep state index c).1 = .general := by
  have missed : ∀ word : Bytes, c ∉ (word[index + 1]?).toList → matchWord word (index + 1) c = .miss := by
    intro word other
    rw [matchWord, if_pos]
    cases found : word[index + 1]? with
    | none => simp [List.getD_eq_getElem?_getD, found, some_char]
    | some b =>
      have differs : c ≠ b := by simpa [found] using other
      simp [List.getD_eq_getElem?_getD, found, differs]
  cases state with
  | c | co | con => simp_all [nameStep, nextChars, ascii]
  | matchingConnection | matchingProxyConnection | matchingContentLength | matchingTransferEncoding
  | matchingUpgrade => simp only [nameStep, missed _ other]
  | general | connection | contentLength | transferEncoding | upgrade => rfl
  | _ => cases named

/-- **One byte more**: the header state is that of the longer name, and the index counts with it. -/
theorem nameStep_eq {index : Nat} (some_name : name ≠ []) (some_char : c ≠ 0)
    (count : nameState name ≠ .general → index + 1 = name.length) :
    (nameStep (nameState name) index c).1 = nameState (name ++ [c]) ∧
      (nameState (name ++ [c]) ≠ .general →
        (nameStep (nameState name) index c).2 + 1 = (name ++ [c]).length) := by
  have longer : (name ++ [c]).length ≠ 1 := by
    have positive := List.length_pos_iff.mpr some_name
    simp
    omega
  by_cases special : nameState name = .general
  · have general : nameState (name ++ [c]) = .general := by
      by_contra other
      have before := (listed_of_state other).before longer
      rw [List.dropLast_concat] at before
      exact before.1 special
    rw [special, general]
    exact ⟨rfl, fun other => absurd rfl other⟩
  · have listed := listed_of_state special
    have place : index = name.length - 1 := by
      have := count special
      omega
    subst place
    by_cases goesOn : c ∈ nextChars (nameState name) (name.length - 1)
    · rw [listed.next c goesOn]
      exact ⟨rfl, fun _ => by simp⟩
    · have general : nameState (name ++ [c]) = .general := by
        by_contra other
        have before := (listed_of_state other).before longer
        simp only [List.dropLast_concat, List.getLast?_concat, Option.getD_some, List.length_append,
          List.length_singleton] at before
        exact goesOn before.2
      rw [nameStep_general listed.state some_char goesOn, general]
      exact ⟨rfl, fun other => absurd rfl other⟩

/-- The two words that say where a message ends are told from all other names. -/
theorem nameState_word : (nameState name = .contentLength ↔ name = ascii "content-length") ∧
    (nameState name = .transferEncoding ↔ name = ascii "transfer-encoding") := by
  have listed : (nameTable.all fun entry => decide
      ((entry.2 = .contentLength → entry.1 = ascii "content-length") ∧
        (entry.2 = .transferEncoding → entry.1 = ascii "transfer-encoding"))) = true := by
    decide +kernel
  have spelled : ∀ state, nameState name = state → state ≠ .general → (name, state) ∈ nameTable := by
    rintro state rfl special
    exact mem_nameTable special
  refine ⟨⟨fun found => ?_, fun same => ?_⟩, ⟨fun found => ?_, fun same => ?_⟩⟩
  · exact (of_decide_eq_true (List.all_eq_true.mp listed _ (spelled _ found (by decide)))).1 rfl
  · rw [same]
    decide +kernel
  · exact (of_decide_eq_true (List.all_eq_true.mp listed _ (spelled _ found (by decide)))).2 rfl
  · rw [same]
    decide +kernel

end Table

end Apib.HttpParser

namespace Apib.Parse

open ByteMachine HttpParser Http Numerals

/-- What a byte of a name is to the parser. -/
theorem token_eq (strict : Bool) {b : UInt8} (name : isTokenChar b = true) :
    token strict b = tolower b ∧ tolower b ≠ 0 ∧ b ≠ 13 ∧ b ≠ 10 ∧ b ≠ 32 ∧ isBlank b = false := by
  have each : ∀ b : UInt8, isTokenChar b = true →
      (∀ strict, token strict b = tolower b) ∧ tolower b ≠ 0 ∧ b ≠ 13 ∧ b ≠ 10 ∧ b ≠ 32 ∧
        isBlank b = false :=
    forall_byte (by decide +kernel)
  obtain ⟨lower, rest⟩ := each b name
  exact ⟨lower strict, rest⟩

/-- The `switch` of `s_header_field` is `nameStep`, but for the flag that goes with `transfer-encoding`. -/
theorem headerNameChar_eq {r : Parse} {ch c : UInt8} (named : isNameState r.parser.headerState = true)
    (no_space : ch ≠ 32) : r.headerNameChar ch c =
      { r with
        parser.headerState := (nameStep r.parser.headerState r.parser.index c).1
        parser.index := (nameStep r.parser.headerState r.parser.index c).2
        parser.flags.transferEncoding := r.parser.flags.transferEncoding ||
          (r.parser.headerState == .matchingTransferEncoding &&
            (nameStep r.parser.headerState r.parser.index c).1 == .transferEncoding) } := by
  obtain ⟨⟨state, headerState, index, ⟨chunked, keepAlive, close, connectionUpgrade, trailing, upgrades,
    skipbody, hasLength, coded⟩, nread, contentLength, major, minor, statusCode, errno, upgrade⟩,
    complete⟩ := r
  have other : (ch != chr ' ') = true := bne_iff_ne.mpr no_space
  cases headerState with
  | c | co => cases coded <;> simp only [headerNameChar, nameStep, beq_iff_eq] <;> rfl
  | con => cases coded <;> simp only [headerNameChar, nameStep, beq_iff_eq] <;> rfl
  | matchingConnection | matchingProxyConnection | matchingContentLength | matchingUpgrade =>
    simp only [headerNameChar, matchName, nameStep]
    generalize matchWord _ (index + 1) c = found
    cases found <;> cases coded <;> rfl
  | matchingTransferEncoding =>
    cases found : matchWord (ascii "transfer-encoding") (index + 1) c <;> cases coded <;>
      simp only [headerNameChar, matchName, nameStep, found] <;> rfl
  | connection | contentLength | transferEncoding | upgrade =>
    simp only [headerNameChar, nameStep, other, if_true]
    cases coded <;> rfl
  | general => cases coded <;> rfl
  | _ => cases named

/-- The framing once a name is read. -/
def Framing.named (f : Framing) (name : Bytes) : Framing :=
  { f with transferEncoding := f.transferEncoding || (ascii "transfer-encoding").isPrefixOf name }

/-- The parser is inside a name, of which it has read this much, in lower case. -/
structure InName (f : Framing) (name : Bytes) (r : Parse) : Prop
    extends Reads .headerField (f.named name) r where
  header_eq : r.parser.headerState = nameState name
  index_eq : nameState name ≠ .general → r.parser.index + 1 = name.length

/-- **A line of a head starts**, whether the line before it is known to be over or not. -/
structure LineStart (strict : Bool) (f : Framing) (r : Parse) : Prop where
  header : r.parser.state.parsingHeader = true
  clean : r.parser.errno = .ok
  unfinished : r.complete = false
  starts : ∀ b n, isBlank b = false → ∃ start, Inside f start ∧ start.parser.nread = n ∧
    (r.counted n).onByte strict b = start.onHeaderFieldStart strict b

section Name

variable {strict : Bool} {f : Framing} {b : UInt8} {name : Bytes}

/-- The first byte of a name. -/
theorem nameState_single (c : UInt8) : nameState [c] =
    if c = chr 'c' then .c else if c = chr 'p' then .matchingProxyConnection
    else if c = chr 't' then .matchingTransferEncoding else if c = chr 'u' then .matchingUpgrade
    else .general := by
  have firsts : (nameTable.all fun entry => entry.1.length != 1 || (ascii "cptu").contains (entry.1.headD 0)) =
      true := by decide +kernel
  have each : ∀ c ∈ ascii "cptu", nameState [c] =
      if c = chr 'c' then .c else if c = chr 'p' then .matchingProxyConnection
      else if c = chr 't' then .matchingTransferEncoding else if c = chr 'u' then .matchingUpgrade
      else .general := forall_listed (by decide +kernel)
  by_cases first : c ∈ ascii "cptu"
  · exact each c first
  · have general : nameState [c] = .general := by
      by_contra special
      have listed := List.all_eq_true.mp firsts _ (mem_nameTable special)
      simp only [List.length_singleton, bne_self_eq_false, Bool.false_or, List.headD_cons,
        List.contains_iff_mem] at listed
      exact first listed
    have others : ∀ letter ∈ ascii "cptu", c ≠ letter := by
      rintro letter member rfl
      exact first member
    rw [general, if_neg (others _ (by decide)), if_neg (others _ (by decide)),
      if_neg (others _ (by decide)), if_neg (others _ (by decide))]

theorem lineStart_name (token : isTokenChar b = true) :
    Steps strict (LineStart strict f) b (InName f [tolower b]) := by
  intro r line
  obtain ⟨lower, some_char, no_cr, no_lf, -, no_blank⟩ := token_eq strict token
  refine ⟨line.header, fun n => ?_⟩
  obtain ⟨start, inside, count, taken⟩ := line.starts b n no_blank
  have no_word : (ascii "transfer-encoding").isPrefixOf [tolower b] = false := by
    rw [show ascii "transfer-encoding" = 116 :: 114 :: ascii "ansfer-encoding" from rfl,
      List.isPrefixOf_cons_cons, List.isPrefixOf_cons_nil, Bool.and_false]
  rw [taken, onHeaderFieldStart, if_neg (by simpa [CR] using no_cr), if_neg (by simpa [LF] using no_lf),
    lower, if_neg (by simpa using some_char)]
  refine ⟨_, rfl, ⟨⟨⟨?_, inside.clean, inside.unfinished, inside.ordinary⟩, rfl⟩, ?_, fun _ => rfl⟩, count⟩
  · rw [Framing.named, no_word, Bool.or_false]
    exact inside.framing_eq
  · simp only [nameState_single, beq_iff_eq]

/-- The word `transfer-encoding` is noticed as soon as it is there. -/
theorem named_concat (c : UInt8) : (ascii "transfer-encoding").isPrefixOf (name ++ [c]) =
    ((ascii "transfer-encoding").isPrefixOf name ||
      (nameState name == .matchingTransferEncoding && nameState (name ++ [c]) == .transferEncoding)) := by
  rw [Bool.eq_iff_iff, Bool.or_eq_true, Bool.and_eq_true, List.isPrefixOf_iff_prefix,
    List.isPrefixOf_iff_prefix, List.prefix_concat_iff, beq_iff_eq, beq_iff_eq, nameState_word.2, or_comm]
  refine or_congr_right ⟨fun same => ⟨?_, same.symm⟩, fun both => both.2.symm⟩
  have front : name = (ascii "transfer-encoding").dropLast := by
    rw [same, List.dropLast_concat]
  rw [front]
  decide +kernel

/-- A byte of a name behind the first. -/
theorem inName_name (some_name : name ≠ []) (token : isTokenChar b = true) :
    Steps strict (InName f name) b (InName f (name ++ [tolower b])) := by
  intro r inName
  obtain ⟨lower, some_char, -, -, no_space, -⟩ := token_eq strict token
  obtain ⟨state, index⟩ := nameStep_eq some_name some_char inName.index_eq
  have named : isNameState r.parser.headerState = true := by
    rw [inName.header_eq]
    by_cases special : nameState name = .general
    · rw [special]
      rfl
    · exact (listed_of_state special).state
  refine ⟨by rw [inName.state_eq]; rfl, fun n => ?_⟩
  have taken : (r.counted n).onByte strict b =
      .more ((r.counted n).headerNameChar b (tolower b)) := by
    have here : (r.counted n).onByte strict b = (r.counted n).onHeaderField strict b := by
      rw [onByte, show (r.counted n).parser.state = .headerField from inName.state_eq]
    rw [here, onHeaderField, lower]
    exact if_pos (by simpa using some_char)
  rw [headerNameChar_eq (r := r.counted n) named no_space] at taken
  refine ⟨_, taken, ⟨⟨⟨?_, inName.clean, inName.unfinished, inName.ordinary⟩, inName.state_eq⟩, ?_, ?_⟩, rfl⟩
  · have framing := inName.framing_eq
    rw [Framing.named, named_concat, ← state, ← inName.header_eq, ← Bool.or_assoc]
    show ({ r.framing with transferEncoding := r.framing.transferEncoding || _ } : Framing) = _
    rw [framing]
    rfl
  · show (nameStep r.parser.headerState r.parser.index (tolower b)).1 = nameState (name ++ [tolower b])
    rw [inName.header_eq, state]
  · show _ → (nameStep r.parser.headerState r.parser.index (tolower b)).2 + 1 = _
    rw [inName.header_eq]
    exact index

/-- **A whole name.** -/
theorem name_goes (some_name : name ≠ []) (token : ∀ b ∈ name, isTokenChar b = true) :
    Goes strict (LineStart strict f) name (InName f (name.map tolower)) := by
  have behind : ∀ (more read : Bytes), read ≠ [] → (∀ b ∈ more, isTokenChar b = true) →
      Goes strict (InName f read) more (InName f (read ++ more.map tolower)) := by
    intro more
    induction more with
    | nil =>
      intro read _ _
      rw [List.map_nil, List.append_nil]
      exact .nil
    | cons b more ih =>
      intro read some_read token
      have first : Goes strict (InName f read) [b] (InName f (read ++ [tolower b])) :=
        .byte (inName_name some_read (token b List.mem_cons_self))
      have rest := ih (read ++ [tolower b]) (by simp) fun c member => token c (List.mem_cons_of_mem _ member)
      rw [List.append_assoc] at rest
      exact first.append (fun _ inName => inName.clean) rest
  obtain ⟨b, more, rfl⟩ := List.exists_cons_of_ne_nil some_name
  have first : Goes strict (LineStart strict f) [b] (InName f [tolower b]) :=
    .byte (lineStart_name (token b List.mem_cons_self))
  exact first.append (fun _ line => line.clean)
    (behind more [tolower b] (by simp) fun c member => token c (List.mem_cons_of_mem _ member))

end Name

end Apib.Parse
