/-
**How the parser reads a head.**

The fields of a head are read one after another (`Framing.field`); what is known of the message by the
last line feed decides how the parser goes on (`Framing.outcome`).

* `front_yields`: **a head without its last line feed** is read, or rejected;
* `head_ends`: how the parser goes on behind it.
-/

import Apib.HttpParser.Values

namespace Apib.Parse

open ByteMachine HttpParser Http Numerals

/-! ### Fields -/

/-- What the parser knows once it has read a field; nothing where it rejects the field. -/
def Framing.field (f : Framing) (field : Field) : Option Framing :=
  let name := field.name.map tolower
  match nameState name with
  | .contentLength => if f.hasLength then none else (lengthOf field.value).map (f.named name).measured
  | .transferEncoding =>
    some (if readsChunked field.value then { f.named name with chunked := true } else f.named name)
  | _ => some (f.named name)

/-- What the parser knows once it has read some fields. -/
def Framing.fields (f : Framing) (fields : List Field) : Option Framing := fields.foldlM Framing.field f

/-- Some bytes are read, with a result for the framing, or they are rejected. -/
def Yields (strict : Bool) (P : Parse → Prop) (bytes : Bytes) (Q : Framing → Parse → Prop) :
    Option Framing → Prop
  | some f => Goes strict P bytes (Q f)
  | none => Fails strict P bytes

section Fields

variable {strict : Bool} {f : Framing} {field : Field} {fields : List Field} {P R : Parse → Prop}
  {Q : Framing → Parse → Prop} {first bytes : Bytes} {result : Option Framing}

theorem Yields.after (yields : Yields strict R bytes Q result) (clean : ∀ r, P r → r.parser.errno = .ok)
    (before : Goes strict P first R) : Yields strict P (first ++ bytes) Q result := by
  cases result with
  | none => exact Fails.after yields clean before
  | some f => exact before.append clean yields

/-- The state of a name is one of the states that a field name can have. -/
theorem nameState_named (name : Bytes) : isNameState (nameState name) = true := by
  by_cases special : nameState name = .general
  · rw [special]
    rfl
  · exact (listed_of_state special).state

/-- The name of a length is not that of a coding, nor the start of one. -/
theorem named_length {name : Bytes} (length : nameState name = .contentLength) : f.named name = f := by
  rw [nameState_word.1.mp length, Framing.named,
    show (ascii "transfer-encoding").isPrefixOf (ascii "content-length") = false by decide +kernel,
    Bool.or_false]

variable (strict) in
/-- **A field.** -/
theorem field_yields (valid : field.Valid)
    (length : field.Named "content-length" → ∃ n, field.HasLength n) :
    Yields strict (LineStart strict f) field.bytes (LineStart strict) (f.field field) := by
  have name : Goes strict (LineStart strict f) (field.name ++ [58])
      (BeforeValue (f.named (field.name.map tolower)) (nameState (field.name.map tolower))) :=
    (name_goes valid.some_name valid.name_token).append (fun _ line => line.clean) (.byte inName_colon)
  have bytes : field.bytes = (field.name ++ [58]) ++ (field.value ++ crlf) := by
    simp [Field.bytes]
  rw [bytes]
  refine Yields.after ?_ (fun _ line => line.clean) name
  unfold Framing.field
  dsimp only
  by_cases isLength : nameState (field.name.map tolower) = .contentLength
  · rw [isLength, named_length isLength]
    have measures := length (nameState_word.1.mp isLength)
    cases measured : f.hasLength with
    | false =>
      have read := length_goes strict (f := f) field.value measures measured
      revert read
      cases lengthOf field.value <;> exact id
    | true =>
      obtain ⟨n, before, digits, after, parts, before_blank, isNumber, -⟩ := measures
      obtain ⟨c, more, rfl⟩ := List.exists_cons_of_ne_nil isNumber.some_digit
      obtain ⟨digit, found⟩ := Option.isSome_iff_exists.mp (isNumber.digit c List.mem_cons_self)
      have clean : ∀ r, BeforeValue f .contentLength r → r.parser.errno = .ok :=
        fun _ before => before.clean
      have rejected := (length_again strict measured found).append clean (more ++ after ++ crlf)
      have parts' : field.value ++ crlf = before ++ ([c] ++ (more ++ after ++ crlf)) := by
        rw [parts]
        simp
      rw [parts']
      exact rejected.after clean (before_blanks before_blank)
  · by_cases isCoding : nameState (field.name.map tolower) = .transferEncoding
    · rw [isCoding]
      exact coding_goes valid.value_text
    · have plain : Goes strict _ (field.value ++ crlf)
          (LineStart strict (f.named (field.name.map tolower))) :=
        plain_goes (nameState_named _) isLength isCoding valid.value_text
      split
      · next same => exact absurd same isLength
      · next same => exact absurd same isCoding
      · exact plain

variable (strict) in
/-- **Fields.** -/
theorem fields_yields (valid : ∀ field ∈ fields, field.Valid)
    (length : ∀ field ∈ fields, field.Named "content-length" → ∃ n, field.HasLength n) :
    Yields strict (LineStart strict f) (fields.flatMap Field.bytes) (LineStart strict)
      (f.fields fields) := by
  induction fields generalizing f with
  | nil => exact Goes.nil
  | cons field fields ih =>
    have first := field_yields strict (f := f) (valid field List.mem_cons_self)
      (length field List.mem_cons_self)
    have clean : ∀ r, LineStart strict f r → r.parser.errno = .ok := fun _ line => line.clean
    rw [List.flatMap_cons, Framing.fields, List.foldlM_cons]
    cases read : f.field field with
    | none =>
      rw [read] at first
      exact Fails.append first clean _
    | some g =>
      rw [read] at first
      exact (ih (f := g) (fun other member => valid other (List.mem_cons_of_mem _ member))
        fun other member => length other (List.mem_cons_of_mem _ member)).after clean first

/-- **What a field that is read can change.** -/
theorem field_cases {g : Framing} (read : f.field field = some g) :
    (field.Named "content-length" ∧ ¬field.Named "transfer-encoding" ∧ f.hasLength = false ∧
        ∃ n, lengthOf field.value = some n ∧ g = f.measured n) ∨
      (field.Named "transfer-encoding" ∧ ¬field.Named "content-length" ∧
        g = { f with transferEncoding := true, chunked := f.chunked || readsChunked field.value }) ∨
      (¬field.Named "content-length" ∧ ¬field.Named "transfer-encoding" ∧
        ∃ coded, g = { f with transferEncoding := coded }) := by
  have length : field.Named "content-length" ↔ nameState (field.name.map tolower) = .contentLength :=
    nameState_word.1.symm
  have coding : field.Named "transfer-encoding" ↔
      nameState (field.name.map tolower) = .transferEncoding := nameState_word.2.symm
  rw [length, coding]
  unfold Framing.field at read
  dsimp only at read
  by_cases isLength : nameState (field.name.map tolower) = .contentLength
  · rw [isLength, named_length isLength] at read
    cases measured : f.hasLength with
    | true => simp [measured] at read
    | false =>
      simp only [measured, Bool.false_eq_true, if_false, Option.map_eq_some_iff] at read
      obtain ⟨n, found, same⟩ := read
      exact .inl ⟨isLength, by rw [isLength]; decide, rfl, n, found, same.symm⟩
  · by_cases isCoding : nameState (field.name.map tolower) = .transferEncoding
    · rw [isCoding, Option.some_inj] at read
      refine .inr (.inl ⟨isCoding, isLength, ?_⟩)
      have word : (ascii "transfer-encoding").isPrefixOf (field.name.map tolower) = true := by
        rw [nameState_word.2.mp isCoding]
        exact List.isPrefixOf_iff_prefix.mpr (List.prefix_refl _)
      rw [← read, Framing.named, word, Bool.or_true]
      cases readsChunked field.value <;> simp
    · refine .inr (.inr ⟨isLength, isCoding, f.transferEncoding ||
        (ascii "transfer-encoding").isPrefixOf (field.name.map tolower), ?_⟩)
      split at read
      · next same => exact absurd same isLength
      · next same => exact absurd same isCoding
      · exact (Option.some.inj read).symm

theorem fields_cons {g : Framing} : f.fields (field :: fields) = some g ↔
    ∃ middle, f.field field = some middle ∧ middle.fields fields = some g := by
  rw [Framing.fields, List.foldlM_cons, Option.bind_eq_bind, Option.bind_eq_some_iff]
  rfl

/-- Without a length every field is read. -/
theorem fields_isSome (bare : ∀ field ∈ fields, ¬field.Named "content-length") :
    ∃ g, f.fields fields = some g := by
  induction fields generalizing f with
  | nil => exact ⟨f, rfl⟩
  | cons field fields ih =>
    obtain ⟨middle, first⟩ : ∃ middle, f.field field = some middle := by
      unfold Framing.field
      dsimp only
      split
      · next same => exact absurd (nameState_word.1.mp same) (bare field List.mem_cons_self)
      · exact ⟨_, rfl⟩
      · exact ⟨_, rfl⟩
    obtain ⟨g, rest⟩ := ih (f := middle) fun other member => bare other (List.mem_cons_of_mem _ member)
    exact ⟨g, fields_cons.mpr ⟨middle, first, rest⟩⟩

/-- What reading fields keeps: the status, whether it is the trailer, the length unless one is given, and
the chunking unless there is a coding. -/
theorem fields_keep {g : Framing} (read : f.fields fields = some g) :
    g.statusCode = f.statusCode ∧ g.trailing = f.trailing ∧
      ((∀ field ∈ fields, ¬field.Named "content-length") →
        g.hasLength = f.hasLength ∧ g.contentLength = f.contentLength) ∧
      ((∀ field ∈ fields, ¬field.Named "transfer-encoding") → g.chunked = f.chunked) := by
  induction fields generalizing f with
  | nil =>
    obtain rfl := Option.some.inj read
    exact ⟨rfl, rfl, fun _ => ⟨rfl, rfl⟩, fun _ => rfl⟩
  | cons field fields ih =>
    obtain ⟨middle, first, rest⟩ := fields_cons.mp read
    obtain ⟨code, trailing, length, chunked⟩ := ih rest
    have later : ∀ {P : Field → Prop}, (∀ other ∈ field :: fields, P other) → ∀ other ∈ fields, P other :=
      fun each other member => each other (List.mem_cons_of_mem _ member)
    obtain ⟨named, -, -, n, -, rfl⟩ | ⟨named, -, rfl⟩ | ⟨-, -, coded, rfl⟩ := field_cases first
    · exact ⟨code, trailing, fun none => absurd named (none field List.mem_cons_self),
        fun none => chunked (later none)⟩
    · exact ⟨code, trailing, fun none => length (later none),
        fun none => absurd named (none field List.mem_cons_self)⟩
    · exact ⟨code, trailing, fun none => length (later none), fun none => chunked (later none)⟩

/-- A length that is read is the one that is kept. -/
theorem fields_length {g : Framing} (read : f.fields fields = some g) (measured : f.hasLength = true) :
    g.hasLength = true ∧ g.contentLength = f.contentLength := by
  induction fields generalizing f with
  | nil =>
    obtain rfl := Option.some.inj read
    exact ⟨measured, rfl⟩
  | cons field fields ih =>
    obtain ⟨middle, first, rest⟩ := fields_cons.mp read
    obtain ⟨-, -, none_yet, -⟩ | ⟨-, -, rfl⟩ | ⟨-, -, coded, rfl⟩ := field_cases first
    · exact absurd measured (Bool.eq_false_iff.mp none_yet)
    · have later := ih rest measured
      exact later
    · have later := ih rest measured
      exact later

/-- **The length that is given** is the length that is known. -/
theorem fields_given {g : Framing} {n : Nat} (read : f.fields fields = some g)
    (some_length : ∃ field ∈ fields, field.Named "content-length")
    (gives : ∀ field ∈ fields, field.Named "content-length" → field.HasLength n) :
    g.hasLength = true ∧ g.contentLength = n ∧ n / 10 ≤ lengthLimit := by
  induction fields generalizing f with
  | nil =>
    obtain ⟨field, member, -⟩ := some_length
    cases member
  | cons field fields ih =>
    obtain ⟨middle, first, rest⟩ := fields_cons.mp read
    have behind : ¬field.Named "content-length" →
        g.hasLength = true ∧ g.contentLength = n ∧ n / 10 ≤ lengthLimit := by
      intro other
      refine ih rest ?_ fun field member => gives field (List.mem_cons_of_mem _ member)
      obtain ⟨given, member, named⟩ := some_length
      rcases List.mem_cons.mp member with rfl | member
      · exact absurd named other
      · exact ⟨given, member, named⟩
    obtain ⟨named, -, -, m, found, rfl⟩ | ⟨-, other, -⟩ | ⟨other, -⟩ := field_cases first
    · obtain ⟨before, digits, after, parts, before_blank, isNumber, after_blank⟩ :=
        gives field List.mem_cons_self named
      rw [lengthOf_eq parts before_blank isNumber after_blank] at found
      split at found
      · next taken =>
        obtain rfl := Option.some.inj found
        obtain ⟨measured, length⟩ := fields_length rest rfl
        exact ⟨measured, length, taken.1⟩
      · cases found
    · exact behind other
    · exact behind other

end Fields

/-! ### The status line -/

section StatusLine

variable {strict : Bool} {f : Framing} {b : UInt8} {state next : State}

theorem inside_clean : ∀ r, Reads state f r → r.parser.errno = .ok := fun _ reads => reads.clean

/-- A byte that leads to another state and does nothing else. -/
theorem goto_step (header : state.parsingHeader = true)
    (goes : ∀ r : Parse, r.parser.state = state → r.onByte strict b = r.goto next) :
    Steps strict (Reads state f) b (Reads next f) :=
  .reads header fun r reads => ⟨{ r with parser.state := next }, goes r reads.state_eq,
    ⟨⟨reads.framing_eq, reads.clean, reads.unfinished, reads.ordinary⟩, rfl⟩, rfl⟩

/-- A byte that is expected. -/
theorem expect_step (header : state.parsingHeader = true)
    (expects : ∀ r : Parse, r.parser.state = state → r.onByte strict b = r.expect strict b b next) :
    Steps strict (Reads state f) b (Reads next f) := by
  refine goto_step header fun r here => ?_
  rw [expects r here, expect, if_neg (by simp)]

/-- A parser that is set up. -/
abbrev fresh : Parse := ⟨HttpParser.init, false⟩

/-- What the parser knows when it has read a status code. -/
def Framing.coded (statusCode : Nat) : Framing := { statusCode }

/-- The first byte of a status line, for a parser as it is set up. -/
theorem start_step : Steps strict (· = fresh) (chr 'H') (Reads .resH (.coded 0)) := by
  rintro r rfl
  exact ⟨rfl, fun n => ⟨_, rfl, ⟨⟨rfl, rfl, rfl, rfl, rfl⟩, rfl⟩, rfl⟩⟩

/-- The protocol version. -/
theorem version_goes :
    Goes strict (· = fresh) (ascii "HTTP/1.1 ") (Reads .resFirstStatusCode (.coded 0)) := by
  have major : Steps strict (Reads .resHttpMajor (.coded 0)) (chr '1') (Reads .resHttpDot (.coded 0)) :=
    .reads rfl fun r reads => ⟨{ r with parser.httpMajor := 1, parser.state := .resHttpDot },
      by rw [onByte, reads.state_eq]; rfl, ⟨⟨reads.framing_eq, reads.clean, reads.unfinished, reads.ordinary⟩,
        rfl⟩, rfl⟩
  have minor : Steps strict (Reads .resHttpMinor (.coded 0)) (chr '1') (Reads .resHttpEnd (.coded 0)) :=
    .reads rfl fun r reads => ⟨{ r with parser.httpMinor := 1, parser.state := .resHttpEnd },
      by rw [onByte, reads.state_eq]; rfl, ⟨⟨reads.framing_eq, reads.clean, reads.unfinished, reads.ordinary⟩,
        rfl⟩, rfl⟩
  have dot : Steps strict (Reads .resHttpDot (.coded 0)) (chr '.') (Reads .resHttpMinor (.coded 0)) :=
    goto_step rfl fun r here => by rw [onByte, here]; rfl
  have space : Steps strict (Reads .resHttpEnd (.coded 0)) (chr ' ')
      (Reads .resFirstStatusCode (.coded 0)) :=
    goto_step rfl fun r here => by rw [onByte, here]; rfl
  have expected : ∀ {state next : State} (b : UInt8), state.parsingHeader = true →
      (∀ r : Parse, r.parser.state = state → r.onByte strict b = r.expect strict b b next) →
      Steps strict (Reads state (.coded 0)) b (Reads next (.coded 0)) :=
    fun _ header expects => expect_step header expects
  exact .cons (by rintro r rfl; rfl) start_step <|
    .cons inside_clean (expected (chr 'T') rfl fun r here => by rw [onByte, here]) <|
    .cons inside_clean (expected (chr 'T') rfl fun r here => by rw [onByte, here]) <|
    .cons inside_clean (expected (chr 'P') rfl fun r here => by rw [onByte, here]) <|
    .cons inside_clean (expected (chr '/') rfl fun r here => by rw [onByte, here]) <|
    .cons inside_clean major <| .cons inside_clean dot <| .cons inside_clean minor (.byte space)

/-- The status code. -/
theorem status_goes {digits : UInt8 × UInt8 × UInt8}
    (each : ∀ c ∈ [digits.1, digits.2.1, digits.2.2], (digitOf 10 c).isSome) :
    Goes strict (Reads .resFirstStatusCode (.coded 0)) [digits.1, digits.2.1, digits.2.2, 32]
      (Reads .resStatusStart (.coded (number 10 [digits.1, digits.2.1, digits.2.2]))) := by
  obtain ⟨a, b, c⟩ := digits
  obtain ⟨x, found⟩ := Option.isSome_iff_exists.mp (each a (by simp))
  obtain ⟨y, found'⟩ := Option.isSome_iff_exists.mp (each b (by simp))
  obtain ⟨z, found''⟩ := Option.isSome_iff_exists.mp (each c (by simp))
  have first : Steps strict (Reads .resFirstStatusCode (.coded 0)) a (Reads .resStatusCode (.coded x)) := by
    obtain ⟨num, value, -⟩ := digit_eq found
    refine .reads rfl fun r reads => ⟨
      { r with parser.statusCode := a.toNat - 48, parser.state := .resStatusCode }, ?_,
      ⟨⟨?_, reads.clean, reads.unfinished, reads.ordinary⟩, rfl⟩, rfl⟩
    · rw [onByte, reads.state_eq]
      dsimp only
      rw [onFirstStatusCode, if_neg (by simp [num])]
      rfl
    · rw [← value]
      show ({ r.framing with statusCode := a.toNat - 48 } : Framing) = _
      rw [reads.framing_eq]
      rfl
  have other : ∀ {n digit : Nat} {c : UInt8}, digitOf 10 c = some digit → n * 10 + digit ≤ 999 →
      Steps strict (Reads .resStatusCode (.coded n)) c (Reads .resStatusCode (.coded (n * 10 + digit))) := by
    intro n digit c found small
    obtain ⟨num, value, -⟩ := digit_eq found
    refine .reads rfl fun r reads => ⟨{ r with parser.statusCode := n * 10 + digit }, ?_,
      ⟨⟨?_, reads.clean, reads.unfinished, reads.ordinary⟩, reads.state_eq⟩, rfl⟩
    · have code : r.parser.statusCode = n := congrArg Framing.statusCode reads.framing_eq
      rw [onByte, reads.state_eq]
      dsimp only
      rw [onStatusCode, if_neg (by simp [num])]
      dsimp only
      rw [code, value, if_neg (Nat.not_lt.mpr small)]
    · show ({ r.framing with statusCode := n * 10 + digit } : Framing) = _
      rw [reads.framing_eq]
      rfl
  have space : Steps strict (Reads .resStatusCode (.coded ((x * 10 + y) * 10 + z))) 32
      (Reads .resStatusStart (.coded ((x * 10 + y) * 10 + z))) :=
    goto_step rfl fun r here => by rw [onByte, here]; rfl
  have total : number 10 [a, b, c] = (x * 10 + y) * 10 + z := by
    rw [number, continued_cons found, continued_cons found', continued_cons found'', continued_nil,
      Nat.zero_mul, Nat.zero_add]
  have small := (digit_eq found).2.2.1
  have small' := (digit_eq found').2.2.1
  have small'' := (digit_eq found'').2.2.1
  rw [total]
  exact .cons inside_clean first <| .cons inside_clean (other found' (by omega)) <|
    .cons inside_clean (other found'' (by omega)) (.byte space)

/-- A line starts behind the status line, and behind the last chunk. -/
theorem lineStart_of_reads {r : Parse} (reads : Reads .headerFieldStart f r) : LineStart strict f r := by
  refine ⟨by rw [reads.state_eq]; rfl, reads.clean, reads.unfinished, fun c n no_blank =>
    ⟨r.counted n, reads.toInside.counted n, rfl, ?_⟩⟩
  rw [onByte, show (r.counted n).parser.state = .headerFieldStart from reads.state_eq]

/-- The reason, and the end of the line. -/
theorem reason_goes {reason : Bytes} (text : ∀ b ∈ reason, isText b = true) :
    Goes strict (Reads .resStatusStart f) (reason ++ crlf) (LineStart strict f) := by
  have feed : Goes strict (Reads .resLineAlmostDone f) [10] (LineStart strict f) := by
    have step : Steps strict (Reads .resLineAlmostDone f) 10 (Reads .headerFieldStart f) :=
      expect_step rfl fun r here => by rw [onByte, here]; rfl
    exact (Goes.byte step).weaken fun _ => lineStart_of_reads
  cases reason with
  | nil =>
    have ends : Steps strict (Reads .resStatusStart f) 13 (Reads .resLineAlmostDone f) :=
      .reads rfl fun r reads => ⟨{ r with parser.index := 0, parser.state := .resLineAlmostDone },
        by rw [onByte, reads.state_eq]; rfl, ⟨⟨reads.framing_eq, reads.clean, reads.unfinished, reads.ordinary⟩,
          rfl⟩, rfl⟩
    exact .cons inside_clean ends feed
  | cons b reason =>
    have plain : ∀ {c : UInt8}, isText c = true → (c == CR) = false ∧ (c == LF) = false := by
      intro c text
      obtain ⟨no_cr, no_lf, -⟩ := text_eq text
      exact ⟨by simpa [CR] using no_cr, by simpa [LF] using no_lf⟩
    have first : Steps strict (Reads .resStatusStart f) b (Reads .resStatus f) := by
      obtain ⟨no_cr, no_lf⟩ := plain (text b List.mem_cons_self)
      refine .reads rfl fun r reads => ⟨{ r with parser.state := .resStatus, parser.index := 0 }, ?_,
        ⟨⟨reads.framing_eq, reads.clean, reads.unfinished, reads.ordinary⟩, rfl⟩, rfl⟩
      rw [onByte, reads.state_eq]
      dsimp only
      rw [onStatusStart, if_neg (by simp [no_cr, no_lf])]
    have others : ∀ c ∈ reason, Steps strict (Reads .resStatus f) c (Reads .resStatus f) := by
      intro c member
      obtain ⟨no_cr, no_lf⟩ := plain (text c (List.mem_cons_of_mem _ member))
      refine .reads rfl fun r reads => ⟨r, ?_, reads, rfl⟩
      rw [onByte, reads.state_eq]
      dsimp only
      rw [onStatus, if_neg (by simp [no_cr]), if_neg (by simp [no_lf])]
    have ends : Steps strict (Reads .resStatus f) 13 (Reads .resLineAlmostDone f) :=
      goto_step rfl fun r here => by rw [onByte, here]; rfl
    exact .cons inside_clean first <| (Goes.each inside_clean others).append inside_clean <|
      .cons inside_clean ends feed

end StatusLine

/-! ### Whole heads -/

section Heads

variable {strict : Bool} {f : Framing} {h : Head}

/-- The carriage return behind the last line. -/
theorem lineStart_end : Goes strict (LineStart strict f) [13] (Reads .headersAlmostDone f) := by
  refine .byte fun r line => ⟨line.header, fun n => ?_⟩
  obtain ⟨start, inside, count, taken⟩ := line.starts 13 n rfl
  exact ⟨_, taken, ⟨⟨inside.framing_eq, inside.clean, inside.unfinished, inside.ordinary⟩, rfl⟩, count⟩

/-- What the parser knows at the last line feed of a head. -/
def Framing.ofHead (h : Head) : Option Framing := (Framing.coded h.status).fields h.fields

variable (strict) in
/-- **A head without its last line feed.** -/
theorem front_yields (valid : h.Valid) : Yields strict (· = fresh) h.front
    (Reads .headersAlmostDone) (Framing.ofHead h) := by
  have start : ∀ r, r = fresh → r.parser.errno = .ok := by
    rintro r rfl
    rfl
  have line : Goes strict (· = fresh)
      (ascii "HTTP/1.1 " ++ ([h.digits.1, h.digits.2.1, h.digits.2.2, 32] ++ (h.reason ++ crlf)))
      (LineStart strict (.coded h.status)) :=
    version_goes.append start <| (status_goes valid.status_digit).append inside_clean
      (reason_goes valid.reason_text)
  have fields := fields_yields strict (f := .coded h.status) valid.fields_valid.valid
    valid.fields_valid.length
  have whole : h.front = (ascii "HTTP/1.1 " ++ ([h.digits.1, h.digits.2.1, h.digits.2.2, 32] ++
      (h.reason ++ crlf))) ++ (h.fields.flatMap Field.bytes ++ [13]) := by
    simp [Head.front]
  have clean : ∀ {f} (r), LineStart strict f r → r.parser.errno = .ok := fun _ line => line.clean
  rw [whole]
  refine Yields.after ?_ start line
  rw [Framing.ofHead]
  cases read : (Framing.coded h.status).fields h.fields with
  | none =>
    rw [read] at fields
    exact Fails.append fields clean _
  | some f =>
    rw [read] at fields
    exact Goes.append fields clean lineStart_end

/-- How the parser goes on behind a head. -/
inductive Sequel
  | rejected | finished | whole | chunks | untilEof
  deriving DecidableEq, Repr

/-- The tests of `s_headers_almost_done` and `s_headers_done`, for a response that is no upgrade. -/
def Framing.sequel (f : Framing) : Sequel :=
  if f.transferEncoding && f.hasLength then .rejected
  else if f.chunked then .chunks
  else if f.transferEncoding then .untilEof
  else if f.contentLength == 0 then .finished
  else if f.contentLength != ullongMax then .whole
  else if f.statusCode / 100 == 1 || f.statusCode == 204 || f.statusCode == 304 then .finished
  else .untilEof

/-- The parser behind a head that is no upgrade. -/
def behindHead (r : Parse) (state : State) : Parse :=
  { r with parser.nread := 0, parser.state := state, parser.upgrade := false }

/-- What the last line feed of a head does. -/
def atSequel (strict : Bool) (r : Parse) : Sequel → Verdict Parse
  | .rejected => r.fail .unexpectedContentLength
  | .finished => .more ((r.behindHead .headersDone).completed strict)
  | .whole => .more (r.behindHead .bodyIdentity)
  | .chunks => .more (r.behindHead .chunkSizeStart)
  | .untilEof => .more (r.behindHead .bodyIdentityEof)

/-- **The last line feed of a head.** -/
theorem headersAlmostDone_eq {r : Parse} (inside : Inside f r) (line : f.trailing = false)
    (no_switch : f.statusCode ≠ 101) :
    r.onHeadersAlmostDone strict 10 = r.atSequel strict f.sequel := by
  obtain ⟨rfl, -, -, body, -⟩ := inside
  obtain ⟨⟨state, header, index, ⟨chunked, keepAlive, close, connectionUpgrade, trailing, upgrades,
    skipbody, hasLength, coded⟩, nread, contentLength, major, minor, statusCode, errno, upgrade⟩,
    complete⟩ := r
  simp only [framing] at line body no_switch
  subst line body
  have is_lf : (10 != LF) = false := rfl
  have no_switch' : (statusCode == 101) = false := beq_false_of_ne no_switch
  simp only [onHeadersAlmostDone, onHeadersDone, is_lf, no_switch', Bool.and_false, Framing.sequel, framing,
    Bool.false_and, if_false, Bool.false_eq_true]
  cases coded <;> cases hasLength <;> cases chunked <;>
    simp only [Bool.and_true, Bool.and_false, if_true, if_false, Bool.false_eq_true]
  case false.false.false | false.true.false =>
    rcases Bool.eq_false_or_eq_true (contentLength == 0) with zero | zero <;>
      rcases Bool.eq_false_or_eq_true (contentLength != ullongMax) with measured | measured <;>
      rcases Bool.eq_false_or_eq_true (statusCode / 100 == 1 || statusCode == 204 || statusCode == 304)
        with bodiless | bodiless <;>
      simp only [messageNeedsEof, zero, measured, bodiless, Bool.false_and, Bool.false_eq_true,
        Bool.or_false, Bool.not_false, Bool.not_true, if_true, if_false] <;> rfl
  all_goals rfl

theorem almostDone_header : ∀ r, Reads .headersAlmostDone f r → r.parser.state.parsingHeader = true := by
  intro r reads
  rw [reads.state_eq]
  rfl

variable (strict) in
/-- **A head that is read**, up to its last line feed. -/
theorem head_read (valid : h.Valid) (read : Framing.ofHead h = some f)
    (fits : h.bytes.length ≤ maxHeaderSize) : ∃ r, feed (stepByte strict) fresh h.front = ⟨r, [], false⟩ ∧
      Reads .headersAlmostDone f r ∧
      r.stepByte strict 10 = (r.counted h.bytes.length).onHeadersAlmostDone strict 10 := by
  have front := front_yields strict valid
  rw [read] at front
  have here := front.last rfl rfl rfl almostDone_header 10
  rw [show h.front ++ [10] = h.bytes from rfl, if_pos fits] at here
  obtain ⟨r, taken, reads, step⟩ := here
  refine ⟨r, taken, reads, step.trans ?_⟩
  rw [onByte, show (r.counted h.bytes.length).parser.state = .headersAlmostDone from reads.state_eq]

variable (strict) in
/-- **A head that is rejected**: one of its fields is, or it is too long. -/
theorem head_rejected (valid : h.Valid)
    (bad : Framing.ofHead h = none ∨ maxHeaderSize < h.bytes.length) :
    (feed (stepByte strict) fresh h.bytes).state.parser.errno ≠ .ok := by
  have front := front_yields strict valid
  cases read : Framing.ofHead h with
  | none =>
    rw [read] at front
    exact failed_append rfl (front fresh rfl (Nat.zero_le _)) [10]
  | some f =>
    have long := bad.resolve_left (by simp [read])
    rw [read] at front
    have here := front.last rfl rfl rfl almostDone_header 10
    rw [show h.front ++ [10] = h.bytes from rfl, if_neg (Nat.not_le.mpr long)] at here
    exact here

/-- What is known at the end of a head. -/
theorem ofHead_keeps (read : Framing.ofHead h = some f) : f.statusCode = h.status ∧ f.trailing = false ∧
    ((∀ field ∈ h.fields, ¬field.Named "content-length") →
      f.hasLength = false ∧ f.contentLength = ullongMax) ∧
    ((∀ field ∈ h.fields, ¬field.Named "transfer-encoding") → f.chunked = false) :=
  fields_keep read

variable (strict) in
/-- **An interim response** is taken for the response, or its end is never seen. -/
theorem interim_ends {r : Parse} (inside : Inside f r) (line : f.trailing = false)
    (unmeasured : f.contentLength = ullongMax) (unchunked : f.chunked = false) (hasLength : f.hasLength = false)
    (informational : f.statusCode / 100 = 1) :
    match r.onHeadersAlmostDone strict 10 with
    | .more next => next.response ≠ none ∨ next.parser.errno = .ok ∧ next.complete = false ∧
        next.parser.state = .bodyIdentityEof
    | .stop last _ => last.response ≠ none := by
  obtain ⟨rfl, clean, unfinished, body, -⟩ := inside
  obtain ⟨⟨state, header, index, ⟨chunked, keepAlive, close, connectionUpgrade, trailing, upgrades,
    skipbody, measured, coded⟩, nread, contentLength, major, minor, statusCode, errno, upgrade⟩,
    complete⟩ := r
  simp only [framing] at line body unmeasured unchunked hasLength informational clean unfinished
  subst line body unmeasured unchunked hasLength clean unfinished
  have is_lf : (10 != LF) = false := rfl
  simp only [onHeadersAlmostDone, onHeadersDone, is_lf, Bool.and_false, Bool.false_eq_true, if_false]
  cases switches : upgrades && connectionUpgrade && statusCode == 101 <;> cases coded <;>
    simp [hasBody, messageNeedsEof, informational, goto, Parse.response, completed, ullongMax]

end Heads

end Apib.Parse
