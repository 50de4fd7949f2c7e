/-
**How the parser reads the options of a connection.**

The value of a `Connection` or `Proxy-Connection` field goes through the states of three words, and
whenever a comma or the end of the line comes behind the word `close`, a flag is set (`readsClose`).

* `word_read`: matching a word comes to whether it is there;
* `item_read`: an item of a tidy list;
* `readsClose_iff`: **in a tidy list of options the parser finds `close` exactly if it is one of them**.
-/

import Apib.Http.Connection
import Apib.HttpParser.Execute

namespace Apib.HttpParser

open Http Numerals

/-! ### The states of a value -/

/-- A byte in the value of a `Connection` field: the header state and the index behind it. -/
def optionStep : HeaderState × Nat → UInt8 → HeaderState × Nat
  | (.matchingConnectionTokenStart, index), ch =>
    if lower ch = chr 'k' then (.matchingConnectionKeepAlive, index)
    else if lower ch = chr 'c' then (.matchingConnectionClose, index)
    else if lower ch = chr 'u' then (.matchingConnectionUpgrade, index)
    else if strictToken (lower ch) ≠ 0 then (.matchingConnectionToken, index)
    else if lower ch = chr ' ' ∨ lower ch = 9 then (.matchingConnectionTokenStart, index)
    else (.general, index)
  | (.matchingConnectionKeepAlive, index), ch =>
    (match matchWord (ascii "keep-alive") (index + 1) (lower ch) with
      | .miss => .matchingConnectionToken
      | .partly => .matchingConnectionKeepAlive
      | .whole => .connectionKeepAlive, index + 1)
  | (.matchingConnectionClose, index), ch =>
    (match matchWord (ascii "close") (index + 1) (lower ch) with
      | .miss => .matchingConnectionToken
      | .partly => .matchingConnectionClose
      | .whole => .connectionClose, index + 1)
  | (.matchingConnectionUpgrade, index), ch =>
    (match matchWord (ascii "upgrade") (index + 1) (lower ch) with
      | .miss => .matchingConnectionToken
      | .partly => .matchingConnectionUpgrade
      | .whole => .connectionUpgrade, index + 1)
  | (.matchingConnectionToken, index), ch =>
    if ch = chr ',' then (.matchingConnectionTokenStart, 0) else (.matchingConnectionToken, index)
  | (.connectionKeepAlive, index), ch =>
    if ch = chr ',' then (.matchingConnectionTokenStart, 0)
    else if ch ≠ chr ' ' then (.matchingConnectionToken, index) else (.connectionKeepAlive, index)
  | (.connectionClose, index), ch =>
    if ch = chr ',' then (.matchingConnectionTokenStart, 0)
    else if ch ≠ chr ' ' then (.matchingConnectionToken, index) else (.connectionClose, index)
  | (.connectionUpgrade, index), ch =>
    if ch = chr ',' then (.matchingConnectionTokenStart, 0)
    else if ch ≠ chr ' ' then (.matchingConnectionToken, index) else (.connectionUpgrade, index)
  | other, _ => other

/-- The first byte of such a value. -/
def optionFirst (ch : UInt8) : HeaderState × Nat :=
  (if lower ch = chr 'k' then .matchingConnectionKeepAlive
    else if lower ch = chr 'c' then .matchingConnectionClose
    else if lower ch = chr 'u' then .matchingConnectionUpgrade
    else .matchingConnectionToken, 0)

/-- The same with the flag: a comma behind `close` sets it. -/
def closeStep (s : (HeaderState × Nat) × Bool) (ch : UInt8) : (HeaderState × Nat) × Bool :=
  (optionStep s.1 ch, s.2 || (s.1.1 == .connectionClose && ch == chr ','))

/-- What the flag is set to at the end of a line. -/
def closesAt (s : (HeaderState × Nat) × Bool) : Bool := s.2 || s.1.1 == .connectionClose

/-- Does the parser find the option `close`? -/
def readsClose (value : Bytes) : Bool :=
  match value.dropWhile isBlank with
  | [] => false
  | first :: rest => closesAt (rest.foldl closeStep (optionFirst first, false))

/-! ### Words -/

/-- The options that the parser looks for. -/
inductive KnownOption
  | close | keepAlive | upgrade
  deriving DecidableEq, Repr

namespace KnownOption

def word : KnownOption → Bytes
  | close => ascii "close"
  | keepAlive => ascii "keep-alive"
  | upgrade => ascii "upgrade"

/-- The state while the word is matched. -/
def matching : KnownOption → HeaderState
  | close => .matchingConnectionClose
  | keepAlive => .matchingConnectionKeepAlive
  | upgrade => .matchingConnectionUpgrade

/-- The state behind the word. -/
def found : KnownOption → HeaderState
  | close => .connectionClose
  | keepAlive => .connectionKeepAlive
  | upgrade => .connectionUpgrade

/-- The state behind an option that begins with the first letter of the word. -/
def after (k : KnownOption) (option : Bytes) : HeaderState :=
  if option = k.word then k.found
  else if option.isPrefixOf k.word then k.matching
  else .matchingConnectionToken

theorem after_word (k : KnownOption) : k.after k.word = k.found := if_pos rfl

theorem after_start {k : KnownOption} {option : Bytes} (start : option <+: k.word)
    (short : option ≠ k.word) : k.after option = k.matching := by
  rw [after, if_neg short, if_pos (List.isPrefixOf_iff_prefix.mpr start)]

theorem after_other {k : KnownOption} {option : Bytes} (other : ¬option <+: k.word) :
    k.after option = .matchingConnectionToken := by
  have differs : option ≠ k.word := fun same => other (same ▸ List.prefix_refl _)
  rw [after, if_neg differs, if_neg (mt List.isPrefixOf_iff_prefix.mp other)]

theorem word_mem (k : KnownOption) : k.word ∈ knownOptions := by
  cases k <;> decide

theorem matching_step (k : KnownOption) (index : Nat) (ch : UInt8) :
    optionStep (k.matching, index) ch =
      (match matchWord k.word (index + 1) (lower ch) with
        | .miss => .matchingConnectionToken
        | .partly => k.matching
        | .whole => k.found, index + 1) := by
  cases k <;> rfl

end KnownOption

/-- What a byte of an option is to the parser. -/
theorem option_char {b : UInt8} (token : isTokenChar b = true) :
    (∀ letter ∈ ascii "closekeep-aliveupgrade", (lower b = letter ↔ tolower b = letter)) ∧
      (b ≠ 95 → strictToken (lower b) ≠ 0) ∧ b ≠ chr ',' ∧ b ≠ chr ' ' ∧ isBlank b = false := by
  have each : ∀ b : UInt8, isTokenChar b = true →
      ((ascii "closekeep-aliveupgrade").all fun letter =>
        decide (lower b = letter ↔ tolower b = letter)) = true ∧
      (b ≠ 95 → strictToken (lower b) ≠ 0) ∧ b ≠ chr ',' ∧ b ≠ chr ' ' ∧ isBlank b = false :=
    forall_byte (by decide +kernel)
  obtain ⟨letters, rest⟩ := each b token
  exact ⟨fun letter member => of_decide_eq_true (List.all_eq_true.mp letters letter member), rest⟩

/-- Words are made of these letters. -/
theorem KnownOption.letter (k : KnownOption) :
    ∀ letter ∈ k.word, letter ∈ ascii "closekeep-aliveupgrade" := by
  cases k <;> exact forall_listed (by decide +kernel)

section Words

variable {k : KnownOption} {read more : Bytes} {b : UInt8}

/-- An option that is none of the known ones goes on up to a comma. -/
theorem token_goesOn (token : ∀ b ∈ more, b ≠ chr ',') (index : Nat) :
    more.foldl optionStep (.matchingConnectionToken, index) = (.matchingConnectionToken, index) := by
  induction more with
  | nil => rfl
  | cons b more ih =>
    have still : optionStep (.matchingConnectionToken, index) b = (.matchingConnectionToken, index) :=
      if_neg (token b List.mem_cons_self)
    rw [List.foldl_cons, still]
    exact ih fun c member => token c (List.mem_cons_of_mem _ member)

/-- An option that goes on behind a word is another one. -/
theorem found_other (k : KnownOption) (token : ∀ c ∈ b :: more, isTokenChar c = true) (index : Nat) :
    ((b :: more).foldl optionStep (k.found, index)).1 = .matchingConnectionToken := by
  obtain ⟨-, -, no_comma, no_space, -⟩ := option_char (token b List.mem_cons_self)
  have other : optionStep (k.found, index) b = (.matchingConnectionToken, index) := by
    cases k <;> simp [KnownOption.found, optionStep, no_comma, no_space]
  rw [List.foldl_cons, other, token_goesOn fun c member =>
    (option_char (token c (List.mem_cons_of_mem _ member))).2.2.1]

/-- **Matching a word**, of which some has been read: it is there, or only its start, or it is not. -/
theorem word_read (token : ∀ b ∈ more, isTokenChar b = true) (some_read : read ≠ [])
    (start : read <+: k.word) (short : read ≠ k.word) :
    (more.foldl optionStep (k.matching, read.length - 1)).1 = k.after (read ++ more.map tolower) := by
  induction more generalizing read with
  | nil => rw [List.map_nil, List.append_nil, k.after_start start short, List.foldl_nil]
  | cons b more ih =>
    have positive : 0 < read.length := List.length_pos_iff.mpr some_read
    obtain ⟨tail, whole⟩ := start
    obtain ⟨letter, rest, rfl⟩ := List.exists_cons_of_ne_nil (l := tail) fun none_left =>
      short (by rw [← whole, none_left, List.append_nil])
    obtain ⟨letters, -, -, -, -⟩ := option_char (token b List.mem_cons_self)
    have others : ∀ c ∈ more, isTokenChar c = true := fun c member => token c (List.mem_cons_of_mem _ member)
    have same : lower b = letter ↔ tolower b = letter :=
      letters letter (k.letter letter (by rw [← whole]; simp))
    have matched : matchWord k.word read.length (lower b) =
        if lower b ≠ letter then .miss else if rest = [] then .whole else .partly := by
      have next : k.word.getD read.length 0 = letter := by simp [← whole, List.getD_eq_getElem?_getD]
      have length : k.word.length = read.length + (rest.length + 1) := by simp [← whole]
      rw [matchWord, next, length]
      by_cases goesOn : lower b = letter <;> cases rest <;> simp [goesOn]
    rw [List.foldl_cons, KnownOption.matching_step, Nat.sub_add_cancel positive, matched, List.map_cons]
    by_cases goesOn : lower b = letter
    · rw [if_neg (not_not_intro goesOn), same.mp goesOn]
      by_cases last : rest = []
      · -- the word is over, whether the option goes on or not
        rw [if_pos last]
        subst last
        cases more with
        | nil => rw [List.map_nil, whole, k.after_word, List.foldl_nil]
        | cons c more =>
          rw [found_other k others, k.after_other]
          intro prefixed
          have length := prefixed.length_le
          simp [← whole] at length
      · rw [if_neg last]
        have longer : (more.foldl optionStep (k.matching, (read ++ [letter]).length - 1)).1 =
            k.after (read ++ [letter] ++ more.map tolower) := ih others (by simp) ⟨rest, by simp [whole]⟩
          (by simp [← whole, Ne.symm last])
        simpa using longer
    · rw [if_pos goesOn, token_goesOn fun c member => (option_char (others c member)).2.2.1, k.after_other]
      rw [← whole, List.prefix_append_right_inj, List.cons_prefix_cons]
      exact fun both => goesOn (same.mpr both.1)

/-! ### Options -/

/-- The known option that begins with a letter. -/
def KnownOption.ofLetter (letter : UInt8) : Option KnownOption :=
  if letter = chr 'k' then some .keepAlive else if letter = chr 'c' then some .close
  else if letter = chr 'u' then some .upgrade else none

/-- The state behind an option that is no start of a known one. -/
def optionState (option : Bytes) : HeaderState :=
  match KnownOption.ofLetter (option.headD 0) with
  | none => .matchingConnectionToken
  | some k => if option = k.word then k.found else .matchingConnectionToken

/-- The first byte of an option. -/
theorem option_first (token : isTokenChar b = true) (no_underscore : b ≠ 95) :
    optionStep (.matchingConnectionTokenStart, 0) b =
        ((KnownOption.ofLetter (tolower b)).elim .matchingConnectionToken KnownOption.matching, 0) ∧
      optionFirst b = optionStep (.matchingConnectionTokenStart, 0) b := by
  obtain ⟨letters, some_token, -, -, -⟩ := option_char token
  have keepAlive := letters (chr 'k') (by decide)
  have close := letters (chr 'c') (by decide)
  have upgrade := letters (chr 'u') (by decide)
  unfold optionStep optionFirst KnownOption.ofLetter
  simp only [keepAlive, close, upgrade, some_token no_underscore, ne_eq, not_false_eq_true, if_true]
  constructor <;> (repeat' split) <;> rfl

/-- **An option** that is no start of a known one. -/
theorem option_read {option : Bytes} (some_option : option ≠ []) (token : ∀ b ∈ option, isTokenChar b = true)
    (no_start : ∀ known ∈ knownOptions, (option.map tolower).isPrefixOf known = true →
      option.map tolower = known) (no_underscore : option.head? ≠ some 95) :
    (option.foldl optionStep (.matchingConnectionTokenStart, 0)).1 = optionState (option.map tolower) := by
  obtain ⟨b, more, rfl⟩ := List.exists_cons_of_ne_nil some_option
  have others : ∀ c ∈ more, isTokenChar c = true := fun c member => token c (List.mem_cons_of_mem _ member)
  have first := (option_first (token b List.mem_cons_self) (by simpa using no_underscore)).1
  rw [List.foldl_cons, first, optionState, List.map_cons, List.headD_cons]
  cases known : KnownOption.ofLetter (tolower b) with
  | none =>
    rw [Option.elim_none, token_goesOn fun c member => (option_char (others c member)).2.2.1]
  | some k =>
    have letter : [tolower b] <+: k.word ∧ [tolower b] ≠ k.word := by
      unfold KnownOption.ofLetter at known
      split at known
      · next same =>
        cases known
        rw [same]
        decide
      · split at known
        · next same =>
          cases known
          rw [same]
          decide
        · split at known
          · next same =>
            cases known
            rw [same]
            decide
          · cases known
    have read : (more.foldl optionStep (k.matching, [tolower b].length - 1)).1 =
        k.after ([tolower b] ++ more.map tolower) := word_read others (by simp) letter.1 letter.2
    rw [List.singleton_append, show [tolower b].length - 1 = 0 from rfl] at read
    rw [Option.elim_some, read]
    dsimp only
    split
    · next whole => rw [whole, k.after_word]
    · next other =>
      refine k.after_other fun start => other ?_
      exact no_start k.word k.word_mem (List.isPrefixOf_iff_prefix.mpr start)

end Words

/-! ### Lists of options -/

section Lists

variable {f : Field} {item value : Bytes} {closed : Bool}

/-- Options without commas set no flag. -/
theorem closeStep_foldl {bytes : Bytes} (no_comma : ∀ b ∈ bytes, b ≠ chr ',') (s : HeaderState × Nat) :
    bytes.foldl closeStep (s, closed) = (bytes.foldl optionStep s, closed) := by
  induction bytes generalizing s with
  | nil => rfl
  | cons b bytes ih =>
    have still : closeStep (s, closed) b = (optionStep s b, closed) := by
      have comma := no_comma b List.mem_cons_self
      simp [closeStep, comma]
    rw [List.foldl_cons, still, ih fun c member => no_comma c (List.mem_cons_of_mem _ member), List.foldl_cons]

/-- Spaces keep the state in front of an option and the state behind it. -/
theorem spaces_keep {spaces : Bytes} (space : ∀ b ∈ spaces, b = 32) (index : Nat) {state : HeaderState}
    (around : state = .matchingConnectionTokenStart ∨ ∃ option, state = optionState option) :
    spaces.foldl optionStep (state, index) = (state, index) := by
  have one : optionStep (state, index) 32 = (state, index) := by
    rcases around with rfl | ⟨option, rfl⟩
    · rfl
    · unfold optionState
      split
      · rfl
      · next k _ =>
        split
        · cases k <;> rfl
        · rfl
  induction spaces with
  | nil => rfl
  | cons b spaces ih =>
    obtain rfl := space b List.mem_cons_self
    rw [List.foldl_cons, one, ih fun c member => space c (List.mem_cons_of_mem _ member)]

/-- An item of a tidy list. -/
structure TidyItem (item : Bytes) : Prop where
  no_tab : 9 ∉ item
  some_option : trimmed item ≠ []
  token : ∀ b ∈ trimmed item, isTokenChar b = true
  no_underscore : (trimmed item).head? ≠ some 95
  no_start : ∀ known ∈ knownOptions, ((trimmed item).map tolower).isPrefixOf known = true →
    (trimmed item).map tolower = known

variable (closed) in
/-- **An item** is read as its option, and sets no flag. -/
theorem item_read (tidy : TidyItem item) : ∃ index,
    item.foldl closeStep ((.matchingConnectionTokenStart, 0), closed) =
      ((optionState ((trimmed item).map tolower), index), closed) := by
  have space : ∀ b ∈ item, isBlank b = true → b = 32 := by
    intro b member blank
    rcases (by simpa [isBlank] using blank : b = 32 ∨ b = 9) with space | rfl
    · exact space
    · exact absurd member tidy.no_tab
  have before : ∀ b ∈ item.takeWhile isBlank, b = 32 := fun b member =>
    space b ((List.takeWhile_prefix _).mem member) (item_before member)
  have after : ∀ b ∈ (item.dropWhile isBlank).rtakeWhile isBlank, b = 32 := fun b member =>
    space b ((List.dropWhile_suffix _).mem ((List.rtakeWhile_suffix _ _).mem member)) (item_after member)
  have no_comma : ∀ b ∈ item, b ≠ chr ',' := by
    intro b member
    rw [item_parts item, List.mem_append, List.mem_append] at member
    rcases member with early | inside | late
    · rw [before b early]
      decide
    · exact (option_char (tidy.token b inside)).2.2.1
    · rw [after b late]
      decide
  have option := option_read tidy.some_option tidy.token tidy.no_start tidy.no_underscore
  refine ⟨((trimmed item).foldl optionStep (.matchingConnectionTokenStart, 0)).2, ?_⟩
  rw [closeStep_foldl no_comma, item_parts item, List.foldl_append, List.foldl_append,
    spaces_keep before 0 (.inl rfl), ← item_parts item, ← option]
  exact congrArg (·, closed) (spaces_keep after _ (.inr ⟨_, option⟩))

/-- The state behind an option is that of `close` exactly if it is this option. -/
theorem optionState_close (option : Bytes) :
    (optionState option == .connectionClose) = (option == ascii "close") := by
  rw [Bool.eq_iff_iff, beq_iff_eq, beq_iff_eq]
  unfold optionState
  constructor
  · intro found
    split at found
    · cases found
    · next k _ =>
      split at found
      · next same => cases k <;> first | exact same | cases found
      · cases found
  · rintro rfl
    decide

/-- A comma behind an option. -/
theorem comma_step (option : Bytes) (index : Nat) :
    closeStep ((optionState option, index), closed) (chr ',') =
      ((.matchingConnectionTokenStart, 0), closed || option == ascii "close") := by
  have next : optionStep (optionState option, index) (chr ',') = (.matchingConnectionTokenStart, 0) := by
    unfold optionState
    split
    · rfl
    · next k _ =>
      split
      · cases k <;> rfl
      · rfl
  rw [closeStep, next, optionState_close, beq_self_eq_true, Bool.and_true]

/-- **A tidy list of options.** -/
theorem list_read (value : Bytes) (closed : Bool) (tidy : ∀ item ∈ value.splitOn 44, TidyItem item) :
    closesAt (value.foldl closeStep ((.matchingConnectionTokenStart, 0), closed)) =
      (closed || (value.splitOn 44).any fun item => (trimmed item).map tolower == ascii "close") := by
  rcases value_cases value with ⟨single, -⟩ | ⟨first, rest, parts, split⟩
  · rw [single] at tidy ⊢
    obtain ⟨index, read⟩ := item_read closed (tidy value List.mem_cons_self)
    rw [read, closesAt, optionState_close, List.any_cons, List.any_nil, Bool.or_false]
  · have less : rest.length < value.length := by simp [parts]; omega
    rw [split] at tidy ⊢
    obtain ⟨index, read⟩ := item_read closed (tidy first List.mem_cons_self)
    have later := list_read rest (closed || (trimmed first).map tolower == ascii "close")
      fun item member => tidy item (List.mem_cons_of_mem _ member)
    have comma : closeStep ((optionState ((trimmed first).map tolower), index), closed) 44 =
        ((.matchingConnectionTokenStart, 0), closed || (trimmed first).map tolower == ascii "close") :=
      comma_step _ index
    rw [parts, List.foldl_append, List.foldl_cons, read, comma, later, List.any_cons, Bool.or_assoc]
termination_by value.length

/-- The items of a tidy field. -/
theorem tidy_items (tidy : f.Tidy) : ∀ item ∈ f.items, TidyItem item := by
  intro item member
  have lowered : ∀ b : UInt8, isTokenChar (tolower b) = true → isTokenChar b = true :=
    forall_byte (by decide +kernel)
  have option : (trimmed item).map tolower ∈ f.options := List.mem_map_of_mem member
  constructor
  · exact fun tab => tidy.no_tab (mem_of_item f.value member tab)
  · exact fun empty => tidy.some_option _ option (by rw [empty, List.map_nil])
  · intro b inside
    exact lowered b (List.all_eq_true.mp (tidy.option_token _ option) _ (List.mem_map_of_mem inside))
  · intro underscore
    apply tidy.no_underscore _ option
    rw [List.head?_map, underscore]
    rfl
  · exact tidy.no_start _ option

/-- The first byte that is no white space is the first of an option. -/
theorem first_of_option (tidy : ∀ item ∈ value.splitOn 44, TidyItem item) : ∃ first rest,
    value.dropWhile isBlank = first :: rest ∧ isTokenChar first = true ∧ first ≠ 95 ∧
      ∀ b ∈ value.takeWhile isBlank, b = 32 := by
  obtain ⟨item, behind, parts, listed⟩ : ∃ item behind, value = item ++ behind ∧ item ∈ value.splitOn 44 := by
    rcases value_cases value with ⟨single, -⟩ | ⟨first, rest, parts, split⟩
    · exact ⟨value, [], by simp, by simp [single]⟩
    · exact ⟨first, 44 :: rest, parts, by simp [split]⟩
  have one := tidy item listed
  obtain ⟨first, more, some_option⟩ := List.exists_cons_of_ne_nil one.some_option
  have token : isTokenChar first = true := one.token first (by rw [some_option]; exact List.mem_cons_self)
  have no_blank : isBlank first = false := (option_char token).2.2.2.2
  have front : value = item.takeWhile isBlank ++ (first ::
      (more ++ ((item.dropWhile isBlank).rtakeWhile isBlank ++ behind))) := by
    conv_lhs => rw [parts, item_parts item, some_option]
    simp
  have blank : ∀ b ∈ item.takeWhile isBlank, isBlank b = true := fun b member => item_before member
  refine ⟨first, more ++ ((item.dropWhile isBlank).rtakeWhile isBlank ++ behind), ?_, token, ?_, ?_⟩
  · rw [front, List.dropWhile_append_of_pos blank, List.dropWhile_cons_of_neg (by simp [no_blank])]
  · rintro rfl
    exact one.no_underscore (by rw [some_option]; rfl)
  · rw [front, List.takeWhile_append_of_pos blank, List.takeWhile_cons_of_neg (by simp [no_blank]),
      List.append_nil]
    intro b member
    rcases (by simpa [isBlank] using blank b member : b = 32 ∨ b = 9) with space | rfl
    · exact space
    · exact absurd ((List.takeWhile_prefix _).mem member) one.no_tab

/-- **In a tidy list of options the parser finds `close` exactly if it is one of them.** -/
theorem readsClose_iff (tidy : f.Tidy) : readsClose f.value = true ↔ ascii "close" ∈ f.options := by
  have each : ∀ item ∈ f.value.splitOn 44, TidyItem item := tidy_items tidy
  obtain ⟨first, rest, begins, token, no_underscore, space⟩ := first_of_option each
  have no_comma : ∀ b ∈ f.value.takeWhile isBlank, b ≠ chr ',' := by
    intro b member
    rw [space b member]
    decide
  have whole : readsClose f.value =
      closesAt (f.value.foldl closeStep ((.matchingConnectionTokenStart, 0), false)) := by
    have one : closeStep ((.matchingConnectionTokenStart, 0), false) first = (optionFirst first, false) := by
      rw [closeStep, ← (option_first token no_underscore).2]
      rfl
    conv_rhs => rw [← List.takeWhile_append_dropWhile (p := isBlank) (l := f.value)]
    rw [readsClose, begins, List.foldl_append, closeStep_foldl no_comma, spaces_keep space 0 (.inl rfl),
      List.foldl_cons, one]
  rw [whole, list_read f.value false each, Bool.false_or, List.any_eq_true]
  constructor
  · rintro ⟨item, member, same⟩
    exact List.mem_map.mpr ⟨item, member, eq_of_beq same⟩
  · intro listed
    obtain ⟨item, member, same⟩ := List.mem_map.mp listed
    exact ⟨item, member, beq_iff_eq.mpr same⟩

end Lists

end Apib.HttpParser
