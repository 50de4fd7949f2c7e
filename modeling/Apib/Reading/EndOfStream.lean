/-
**The end of the stream on the two transports.**

A plain socket reports the end of the stream as a read of 0 bytes, which the parser is told of; a TLS
socket reports it as `FEOF`, which the parser is not told of:

* `endless_read`: a server that closes an idle connection sends the loop of `readReady` round forever;
* `ends_iff`: the loop ends with the right `ReadDone` exactly when the stream `Concludes`: a response
  has begun, and nothing that the parser rejects comes along with the end of one;
* `transports_differ`: a body that goes to the end of the stream is a result on a plain socket and an
  error on a TLS socket;
* `transports_agree_iff`: the transports agree exactly when `ReadDone` is called before the end of the
  stream is read.
-/

import Apib.Reading.Pieces

namespace Apib

open ByteMachine HttpParser

/-! ### Streams -/

/-- What a plain socket gives: pieces, and then the end of the stream, read a number of times. -/
def plainStream (pieces : List Bytes) (eofs : Nat) : List ReadOutcome :=
  (pieces.map fun piece => plainRead (.bytes piece)) ++ List.replicate eofs (plainRead (.bytes []))

/-- What a TLS socket gives: pieces, and then the end of the stream. -/
def tlsStream (pieces : List Bytes) : List ReadOutcome :=
  (pieces.map fun piece => tlsRead (.bytes piece)) ++ [tlsRead .zeroReturn]

/-- Is a response complete when the stream has ended? Either some of the bytes are a response, or its
body goes to the end of the stream. -/
def CompleteAtEnd (strict : Bool) (r : Parse) (bytes : Bytes) : Prop :=
  (∃ response, response <+: bytes ∧ (feed (Parse.stepByte strict) r response).state.complete = true) ∨
    (feed (Parse.stepByte strict) r bytes).state.response = none ∧
      (feed (Parse.stepByte strict) r bytes).state.parser.state = .bodyIdentityEof

namespace Ctx

/-- The callback ends after finitely many reads, having called `ReadDone` once, with 0 if the response
was complete and with an error otherwise. -/
def EndsRight (cfg : Config) (env : Env) (x : Ctx) (pieces : List Bytes) : Prop :=
  ∃ eofs y unused err, x.readReady cfg env (plainStream pieces eofs) = .ended y unused ∧
    readDones (x.callsSince y) = [err] ∧
    (err = 0 ↔ CompleteAtEnd cfg.parserStrict x.parse (x.c.readBuf.data ++ pieces.flatten))

/-- A stream that the loop can bring to its right end. -/
structure Concludes (cfg : Config) (x : Ctx) (pieces : List Bytes) : Prop where
  /-- If `ReadDone` is still to come when all is read, a response has begun. -/
  begun : let last := (feed (Parse.stepByte cfg.parserStrict) x.parse
      (x.c.readBuf.data ++ pieces.flatten)).state
    last.response = none → last.parser.state ≠ .startRes ∧ last.parser.state ≠ .dead
  /-- The first read that the parser rejects does not end a response. -/
  unspoiled : ∀ before piece after, pieces ++ [[]] = before ++ piece :: after →
    (before = [] ∨ (feed (Parse.stepByte cfg.parserStrict) x.parse
      (x.c.readBuf.data ++ before.flatten)).state.response = none) →
    (feed (Parse.stepByte cfg.parserStrict) x.parse
      (x.c.readBuf.data ++ before.flatten ++ piece)).state.parser.errno ≠ .ok →
    ∀ response, response <+: x.c.readBuf.data ++ before.flatten ++ piece →
      (feed (Parse.stepByte cfg.parserStrict) x.parse response).state.complete = false

end Ctx

section Eof

variable {cfg : Config} {env : Env} {x y : Ctx}

open Ctx

/-- The end of the stream with nothing in the buffer. -/
theorem executed_eof (waiting : x.parse.response = none) (empty : x.c.readBuf.data = []) :
    x.executed cfg [] = ⟨x.parse.atEof, [], false⟩ := by
  rw [Ctx.executed, fillBuf_data (Nat.zero_le _), empty]
  exact Parse.execute_nil (Parse.response_eq_none.mp waiting).1

/-- **What the parser says when it is told of the end of the stream**: a body that goes there is
complete; before a response it says nothing; elsewhere it is an error. -/
theorem atEof_response {r : Parse} (waiting : r.response = none) :
    (r.parser.state = .startRes ∨ r.parser.state = .dead) ∧ r.atEof = r ∨
    r.parser.state = .bodyIdentityEof ∧
      r.atEof.response = some (.answered r.atEof.parser.statusCode) ∨
    r.parser.state ≠ .startRes ∧ r.parser.state ≠ .dead ∧ r.parser.state ≠ .bodyIdentityEof ∧
      r.atEof.response = some (.failed (-1)) := by
  have clean := (Parse.response_eq_none.mp waiting).1
  unfold Parse.atEof
  cases state : r.parser.state <;> simp [Parse.response, clean]

/-- The outcomes of reading the end of a plain stream. -/
abbrev eofs (count : Nat) : List ReadOutcome := List.replicate count (plainRead (.bytes []))

/-- **Before a response the end of the stream is read forever.** -/
theorem drain_eofs_of_notBegun (waiting : x.parse.response = none) (empty : x.c.readBuf.data = [])
    (notBegun : x.parse.parser.state = .startRes ∨ x.parse.parser.state = .dead) (count : Nat) :
    ∃ y, drain (tryRead cfg) x (eofs count) = .going y := by
  induction count generalizing x with
  | zero => exact ⟨x, rfl⟩
  | succ count ih =>
    have same : x.parse.atEof = x.parse := by
      unfold Parse.atEof
      rcases notBegun with state | state <;> rw [state]
    have one := tryRead_ok cfg x []
    rw [executed_eof waiting empty] at one
    simp only [same, waiting] at one
    obtain ⟨y, exit, state, emptied, _⟩ := one
    obtain ⟨z, going⟩ := ih (by rw [state, waiting]) (emptied trivial) (by rwa [state])
    refine ⟨z, ?_⟩
    rw [eofs, List.replicate_succ, drain, show plainRead (.bytes []) = .ok (.ok []) from rfl, exit]
    exact going

/-! ### What the loop comes to on a plain stream -/

/-- The loop comes to `ReadDone` with this error, as soon as the end is read often enough. -/
structure EndsAt (cfg : Config) (x : Ctx) (pieces : List Bytes) (y : Ctx) (err : Int) : Prop where
  parsed : OnlyParsed x y
  codes : err = 0 ∨ err = -1
  reached : ∃ count unused, drain (tryRead cfg) x (plainStream pieces count) = .done y err unused
  only : ∀ count, (∃ z, drain (tryRead cfg) x (plainStream pieces count) = .going z) ∨
    ∃ unused, drain (tryRead cfg) x (plainStream pieces count) = .done y err unused

/-- The loop goes on however often the end is read. -/
def Endless (cfg : Config) (x : Ctx) (pieces : List Bytes) : Prop :=
  ∀ count, ∃ z, drain (tryRead cfg) x (plainStream pieces count) = .going z

/-- The parser after all the bytes. -/
abbrev Ctx.allParsed (cfg : Config) (x : Ctx) (pieces : List Bytes) : Parse :=
  (feed (Parse.stepByte cfg.parserStrict) x.parse (x.c.readBuf.data ++ pieces.flatten)).state

/-- The first answer between two reads, the first end of the stream included. -/
def AnswersAt (cfg : Config) (x : Ctx) (pieces : List Bytes) (found : Response) : Prop :=
  ∃ before piece after, pieces ++ [[]] = before ++ piece :: after ∧
    (before = [] ∨ (x.allParsed cfg before).response = none) ∧
    (feed (Parse.stepByte cfg.parserStrict) x.parse
      (x.c.readBuf.data ++ before.flatten ++ piece)).state.response = some found

/-- The first read of the end calls `ReadDone`. -/
theorem EndsAt.of_first {err code : Int} (exit : x.tryRead cfg (.ok (.ok [])) = .done y err code)
    (codes : err = 0 ∨ err = -1) (parsed : OnlyParsed x y) : EndsAt cfg x [] y err := by
  have done : ∀ count, drain (tryRead cfg) x (plainStream [] (count + 1)) = .done y err (eofs count) := by
    intro count
    rw [plainStream, List.map_nil, List.nil_append, List.replicate_succ, drain,
      show plainRead (.bytes []) = .ok (.ok []) from rfl, exit]
    rfl
  refine ⟨parsed, codes, ⟨1, _, done 0⟩, fun count => ?_⟩
  cases count with
  | zero => exact .inl ⟨x, rfl⟩
  | succ count => exact .inr ⟨_, done count⟩

/-- The end of the stream after a silent start. -/
theorem endsAt_or_endless (cfg : Config) (waiting : x.parse.response = none) (empty : x.c.readBuf.data = []) :
    (∃ y err, EndsAt cfg x [] y err ∧
      (x.parse.parser.state = .bodyIdentityEof ∧ err = 0 ∨
        x.parse.parser.state ≠ .startRes ∧ x.parse.parser.state ≠ .dead ∧
          x.parse.parser.state ≠ .bodyIdentityEof ∧ err = -1)) ∨
    (x.parse.parser.state = .startRes ∨ x.parse.parser.state = .dead) ∧ Endless cfg x [] := by
  have one := tryRead_ok cfg x []
  rw [executed_eof waiting empty] at one
  have ends : ∀ found, x.parse.atEof.response = some found → ∃ y err, EndsAt cfg x [] y err ∧
      responseTo err y.c.parser.statusCode = found := by
    intro found answered
    simp only [answered] at one
    obtain ⟨y, err, code, exit, codes, response, parsed⟩ := one
    exact ⟨y, err, .of_first exit codes parsed, response⟩
  rcases atEof_response waiting with ⟨notBegun, _⟩ | ⟨state, answered⟩ | ⟨notStart, notDead, notBody, failed⟩
  · exact .inr ⟨notBegun, drain_eofs_of_notBegun waiting empty notBegun⟩
  · obtain ⟨y, err, ends, response⟩ := ends _ answered
    refine .inl ⟨y, err, ends, .inl ⟨state, ?_⟩⟩
    by_contra isError
    simp [responseTo, isError] at response
  · obtain ⟨y, err, ends, response⟩ := ends _ failed
    refine .inl ⟨y, err, ends, .inr ⟨notStart, notDead, notBody, ?_⟩⟩
    by_cases isZero : err = 0
    · simp [responseTo, isZero] at response
    · simpa [responseTo, isZero] using response

/-- Reading goes on from `y` after the pieces and some reads of the end. -/
structure LeadsTo (cfg : Config) (x : Ctx) (pieces : List Bytes) (skipped : Nat) (y : Ctx) : Prop where
  parsed : OnlyParsed x y
  early : ∀ count, count < skipped → ∃ z, drain (tryRead cfg) x (plainStream pieces count) = .going z
  same : ∀ count, drain (tryRead cfg) x (plainStream pieces (skipped + count)) =
    drain (tryRead cfg) y (plainStream [] count)

theorem LeadsTo.endsAt {pieces : List Bytes} {skipped : Nat} {z : Ctx} {err : Int}
    (leads : LeadsTo cfg x pieces skipped y) (ends : EndsAt cfg y [] z err) :
    EndsAt cfg x pieces z err := by
  obtain ⟨parsed, codes, ⟨count, unused, done⟩, only⟩ := ends
  refine ⟨leads.parsed.trans parsed, codes, ⟨skipped + count, unused, ?_⟩, fun count => ?_⟩
  · rw [leads.same, done]
  · by_cases early : count < skipped
    · exact .inl (leads.early count early)
    · obtain ⟨later, rfl⟩ := Nat.exists_eq_add_of_le (Nat.le_of_not_lt early)
      rw [leads.same]
      exact only later

theorem LeadsTo.endless {pieces : List Bytes} {skipped : Nat} (leads : LeadsTo cfg x pieces skipped y)
    (endless : Endless cfg y []) : Endless cfg x pieces := by
  intro count
  by_cases early : count < skipped
  · exact leads.early count early
  · obtain ⟨later, rfl⟩ := Nat.exists_eq_add_of_le (Nat.le_of_not_lt early)
    rw [leads.same]
    exact endless later

/-- The first end of the stream has the parser run over the bytes left from before. -/
theorem leftover_answers_or_leads (cfg : Config) (waiting : x.parse.response = none)
    (left_over : x.c.readBuf.data ≠ []) :
    (∃ y err, EndsAt cfg x [] y err ∧ AnswersAt cfg x [] (responseTo err y.c.parser.statusCode)) ∨
    ∃ y, LeadsTo cfg x [] 1 y ∧ y.parse.response = none ∧ y.c.readBuf.data = [] ∧
      y.parse = x.allParsed cfg [] := by
  have fits : ([] : Bytes).length ≤ kReadBufSize - x.c.readBuf.pos := Nat.zero_le _
  have one := tryRead_piece cfg waiting fits (by simpa using left_over)
  cases here : (feed (Parse.stepByte cfg.parserStrict) x.parse
      (x.c.readBuf.data ++ [])).state.response with
  | some found =>
    simp only [here] at one
    obtain ⟨y, err, code, exit, codes, response, parsed⟩ := one
    exact .inl ⟨y, err, .of_first exit codes parsed, [], [], [], rfl, .inl rfl,
      by rw [response]; simpa using here⟩
  | none =>
    simp only [here] at one
    obtain ⟨y, exit, state, emptied, parsed⟩ := one
    refine .inr ⟨y, ⟨parsed, fun count early => ?_, fun count => ?_⟩, by rw [state, here], emptied,
      by rw [state]; rfl⟩
    · rw [Nat.lt_one_iff.mp early]
      exact ⟨x, rfl⟩
    · rw [Nat.add_comm, plainStream, List.map_nil, List.nil_append, List.replicate_succ, drain,
        show plainRead (.bytes []) = .ok (.ok []) from rfl, exit]
      rfl

/-- **The reads before the parser is told of the end**: they bring an answer between two reads, or lead
to where all the bytes are parsed without one. -/
theorem answers_or_leads (waiting : x.parse.response = none) {pieces : List Bytes}
    (fits : x.FitsPieces pieces) :
    (∃ y err, EndsAt cfg x pieces y err ∧
      AnswersAt cfg x pieces (responseTo err y.c.parser.statusCode)) ∨
    ∃ y skipped, LeadsTo cfg x pieces skipped y ∧ y.parse.response = none ∧
      y.c.readBuf.data = [] ∧ y.parse = x.allParsed cfg pieces := by
  have drained := drain_pieces cfg waiting pieces fits
  cases loop : x.loop cfg pieces with
  | some found =>
    rw [loop] at drained
    obtain ⟨y, err, unused, done, codes, response, parsed⟩ := drained
    refine .inl ⟨y, err, ⟨parsed, codes, ⟨0, _, done _⟩, fun count => .inr ⟨_, done _⟩⟩, ?_⟩
    obtain ⟨before, piece, after, rfl, silent, answered⟩ :=
      (responseReader cfg.parserStrict).readLoop_eq_some_iff.mp loop
    exact ⟨before, piece, after ++ [[]], by simp, silent, by rw [response]; exact answered⟩
  | none =>
    rw [loop] at drained
    obtain ⟨y, read, goesOn⟩ := drained
    have leads : LeadsTo cfg x pieces 0 y :=
      ⟨read.parsed, fun _ never => absurd never (Nat.not_lt_zero _), fun count => by
        rw [Nat.zero_add]
        exact goesOn _⟩
    by_cases none_read : pieces = []
    · obtain rfl := read.none_yet none_read
      subst none_read
      by_cases empty : y.c.readBuf.data = []
      · refine .inr ⟨y, 0, leads, waiting, empty, ?_⟩
        rw [Ctx.allParsed, empty]
        rfl
      · exact (leftover_answers_or_leads cfg waiting empty).imp id fun ⟨z, leads⟩ => ⟨z, 1, leads⟩
    · obtain ⟨empty, state⟩ := read.state none_read
      exact .inr ⟨y, 0, leads, read.waiting, empty, state⟩

/-- **What the loop comes to on a plain stream.** -/
theorem plain_cases (cfg : Config) (waiting : x.parse.response = none) {pieces : List Bytes}
    (fits : x.FitsPieces pieces) :
    (∃ y err, EndsAt cfg x pieces y err ∧
      (AnswersAt cfg x pieces (responseTo err y.c.parser.statusCode) ∨
        (x.allParsed cfg pieces).response = none ∧
          ((x.allParsed cfg pieces).parser.state = .bodyIdentityEof ∧ err = 0 ∨
            (x.allParsed cfg pieces).parser.state ≠ .startRes ∧
              (x.allParsed cfg pieces).parser.state ≠ .dead ∧
              (x.allParsed cfg pieces).parser.state ≠ .bodyIdentityEof ∧ err = -1))) ∨
    (x.allParsed cfg pieces).response = none ∧
      ((x.allParsed cfg pieces).parser.state = .startRes ∨
        (x.allParsed cfg pieces).parser.state = .dead) ∧ Endless cfg x pieces := by
  rcases answers_or_leads waiting fits with ⟨y, err, ends, answers⟩ | ⟨y, skipped, leads, silent, empty, state⟩
  · exact .inl ⟨y, err, ends, .inl answers⟩
  · rw [← state]
    rcases endsAt_or_endless cfg silent empty with ⟨z, err, ends, which⟩ | ⟨notBegun, endless⟩
    · exact .inl ⟨z, err, leads.endsAt ends, .inr ⟨silent, which⟩⟩
    · exact .inr ⟨silent, notBegun, leads.endless endless⟩

/-! ### The right end -/

theorem EndsAt.endsRight_iff {pieces : List Bytes} {err : Int} (ends : EndsAt cfg x pieces y err) :
    x.EndsRight cfg env pieces ↔
      (err = 0 ↔ CompleteAtEnd cfg.parserStrict x.parse (x.c.readBuf.data ++ pieces.flatten)) := by
  obtain ⟨parsed, codes, ⟨count, unused, done⟩, only⟩ := ends
  have called := (parsed.answered cfg env err).2
  constructor
  · rintro ⟨count, z, unused, err', ended, dones, right⟩
    rw [readReady_eq] at ended
    rcases only count with ⟨w, going⟩ | ⟨unused', done⟩
    · rw [going] at ended
      cases ended
    · rw [done] at ended
      cases ended
      rw [called] at dones
      cases dones
      exact right
  · intro right
    refine ⟨count, _, unused, err, ?_, called, right⟩
    rw [readReady_eq, done]
    rfl

theorem Endless.not_endsRight {pieces : List Bytes} (endless : Endless cfg x pieces) :
    ¬ x.EndsRight cfg env pieces := by
  rintro ⟨count, z, unused, err, ended, _⟩
  obtain ⟨w, going⟩ := endless count
  rw [readReady_eq, going] at ended
  cases ended

/-- The connection of a thread on its way to its first response. -/
def awaiting : Ctx :=
  (Ctx.mk {} (.new 0 0 ⟨0, System.localUrl "/" false⟩)).ioStop.writeDone System.oneConnection {} 0

/-- **The loop can go on forever**: a server closes the connection before it has sent anything. -/
theorem endless_read : ¬ ∀ (cfg : Config) (env : Env) (x : Ctx) (pieces : List Bytes),
    x.parse.response = none → x.FitsPieces pieces → x.EndsRight cfg env pieces := by
  intro ends
  have endless : Endless System.oneConnection awaiting [] :=
    drain_eofs_of_notBegun rfl rfl (.inl rfl)
  exact endless.not_endsRight (ends System.oneConnection {} awaiting [] rfl trivial)

/-! ### Answers and their bytes -/

/-- The bytes up to the end of a piece are the start of all the bytes. -/
theorem bytes_split {pieces before after : List Bytes} {piece : Bytes} (carry : Bytes)
    (split : pieces ++ [[]] = before ++ piece :: after) :
    carry ++ pieces.flatten = carry ++ before.flatten ++ piece ++ after.flatten := by
  have flat := congrArg List.flatten split
  simp only [List.flatten_append, List.flatten_cons, List.flatten_nil, List.append_nil] at flat
  rw [flat]
  simp

section Bytes

variable {strict : Bool} {r : Parse} {first all : Bytes}

/-- Before an answer there is neither an error nor a complete response. -/
theorem silent_of_start (silent : (feed (Parse.stepByte strict) r all).state.response = none)
    (start : first <+: all) : (feed (Parse.stepByte strict) r first).state.response = none := by
  obtain ⟨rest, rfl⟩ := start
  by_contra answered
  exact (responseReader strict).answer_append answered rest silent

/-- An answer without an error is a complete response. -/
theorem complete_of_answered {found : Response}
    (answered : (feed (Parse.stepByte strict) r first).state.response = some found)
    (clean : (feed (Parse.stepByte strict) r first).state.parser.errno = .ok) :
    (feed (Parse.stepByte strict) r first).state.complete = true := by
  by_contra incomplete
  rw [Bool.not_eq_true] at incomplete
  rw [Parse.response_eq_none.mpr ⟨clean, incomplete⟩] at answered
  cases answered

/-- An error ends the parsing: what follows it completes nothing. -/
theorem complete_of_failed (clean : r.parser.errno = .ok)
    (failed : (feed (Parse.stepByte strict) r first).state.parser.errno ≠ .ok) (start : first <+: all)
    (complete : (feed (Parse.stepByte strict) r all).state.complete = true) :
    (feed (Parse.stepByte strict) r first).state.complete = true := by
  have stopped : (feed (Parse.stepByte strict) r first).stopped = true := by
    by_contra running
    rw [Bool.not_eq_true] at running
    exact failed ((Parse.feed_errno_of_running running).trans clean)
  obtain ⟨rest, rfl⟩ := start
  rwa [feed_append, if_pos stopped] at complete

end Bytes

/-- **A stream concludes if none of its bytes complete a response**, as far as a response has begun. -/
theorem Ctx.Concludes.of_incomplete {pieces : List Bytes}
    (begun : (x.allParsed cfg pieces).response = none →
      (x.allParsed cfg pieces).parser.state ≠ .startRes ∧ (x.allParsed cfg pieces).parser.state ≠ .dead)
    (incomplete : ∀ response, response <+: x.c.readBuf.data ++ pieces.flatten →
      (feed (Parse.stepByte cfg.parserStrict) x.parse response).state.complete = false) :
    x.Concludes cfg pieces where
  begun := begun
  unspoiled := by
    intro before piece after split _ _ response start
    rw [bytes_split x.c.readBuf.data split] at incomplete
    exact incomplete response (start.trans ⟨after.flatten, rfl⟩)

section Answered

variable {pieces before after : List Bytes} {piece : Bytes} {err : Int} {status : Nat}
variable (split : pieces ++ [[]] = before ++ piece :: after)
variable (quiet : before = [] ∨ (x.allParsed cfg before).response = none)
variable (answered : (feed (Parse.stepByte cfg.parserStrict) x.parse
  (x.c.readBuf.data ++ before.flatten ++ piece)).state.response = some (responseTo err status))
include split answered

/-- With an answer between two reads the bytes are not all parsed without one. -/
theorem not_silent_of_answered : (x.allParsed cfg pieces).response ≠ none := fun silent =>
  Option.some_ne_none _ (answered.symm.trans
    (silent_of_start silent ⟨after.flatten, (bytes_split x.c.readBuf.data split).symm⟩))

include quiet

/-- **A result**: a response is complete, and the loop has no other answer. -/
theorem right_of_result (ok : (feed (Parse.stepByte cfg.parserStrict) x.parse
      (x.c.readBuf.data ++ before.flatten ++ piece)).state.parser.errno = .ok) :
    (err = 0 ↔ CompleteAtEnd cfg.parserStrict x.parse (x.c.readBuf.data ++ pieces.flatten)) ∧
      x.Concludes cfg pieces := by
  have bytes := bytes_split x.c.readBuf.data split
  have complete := complete_of_answered answered ok
  have isZero : err = 0 := by
    by_contra isError
    rw [Parse.response_of_complete ok complete, responseTo, if_pos isError] at answered
    cases answered
  refine ⟨iff_of_true isZero (.inl ⟨_, ⟨after.flatten, bytes.symm⟩, complete⟩),
    fun silent => absurd silent (not_silent_of_answered split answered),
    fun before' piece' after' split' quiet' failed' => ?_⟩
  have one := (responseReader cfg.parserStrict).readLoop_eq_some_iff.mpr
    ⟨before, piece, after, split, quiet, answered⟩
  have other := (responseReader cfg.parserStrict).readLoop_eq_some_iff.mpr
    ⟨before', piece', after', split', quiet', Parse.response_of_failed failed'⟩
  rw [one, responseTo, if_neg (not_not_intro isZero)] at other
  cases other

/-- **An error**: it is right exactly when no response is complete before it. -/
theorem right_iff_of_error (clean : x.parse.parser.errno = .ok)
    (failed : (feed (Parse.stepByte cfg.parserStrict) x.parse
      (x.c.readBuf.data ++ before.flatten ++ piece)).state.parser.errno ≠ .ok) :
    (err = 0 ↔ CompleteAtEnd cfg.parserStrict x.parse (x.c.readBuf.data ++ pieces.flatten)) ↔
      x.Concludes cfg pieces := by
  have bytes := bytes_split x.c.readBuf.data split
  have not_silent := not_silent_of_answered split answered
  have isError : err ≠ 0 := by
    rintro rfl
    rw [Parse.response_of_failed failed] at answered
    cases answered
  constructor
  · refine fun right => .of_incomplete (fun silent => absurd silent not_silent) fun response start => ?_
    by_contra complete
    rw [Bool.not_eq_false] at complete
    exact isError (right.mpr (.inl ⟨response, start, complete⟩))
  · refine fun concludes => iff_of_false isError ?_
    have spoiled := concludes.unspoiled before piece after split quiet failed
    have inside : x.c.readBuf.data ++ before.flatten ++ piece <+: x.c.readBuf.data ++ pieces.flatten :=
      ⟨after.flatten, bytes.symm⟩
    rintro (⟨response, start, complete⟩ | ⟨silent, _⟩)
    · rcases List.prefix_or_prefix_of_prefix start inside with early | late
      · exact Bool.noConfusion ((spoiled response early).symm.trans complete)
      · exact Bool.noConfusion ((spoiled _ ⟨[], List.append_nil _⟩).symm.trans
          (complete_of_failed clean failed late complete))
    · exact not_silent silent

end Answered

/-- **No answer before the end of the stream**: it is right exactly for a body that goes there. -/
theorem right_of_silent {pieces : List Bytes} {err : Int} (silent : (x.allParsed cfg pieces).response = none)
    (state : (x.allParsed cfg pieces).parser.state = .bodyIdentityEof ∧ err = 0 ∨
      (x.allParsed cfg pieces).parser.state ≠ .startRes ∧ (x.allParsed cfg pieces).parser.state ≠ .dead ∧
        (x.allParsed cfg pieces).parser.state ≠ .bodyIdentityEof ∧ err = -1) :
    (err = 0 ↔ CompleteAtEnd cfg.parserStrict x.parse (x.c.readBuf.data ++ pieces.flatten)) ∧
      x.Concludes cfg pieces := by
  have incomplete : ∀ response, response <+: x.c.readBuf.data ++ pieces.flatten →
      (feed (Parse.stepByte cfg.parserStrict) x.parse response).state.complete = false :=
    fun response start => (Parse.response_eq_none.mp (silent_of_start silent start)).2
  have atEnd : CompleteAtEnd cfg.parserStrict x.parse (x.c.readBuf.data ++ pieces.flatten) ↔
      (x.allParsed cfg pieces).parser.state = .bodyIdentityEof := by
    refine ⟨?_, fun body => .inr ⟨silent, body⟩⟩
    rintro (⟨response, start, complete⟩ | ⟨_, body⟩)
    · exact Bool.noConfusion ((incomplete response start).symm.trans complete)
    · exact body
  rw [atEnd]
  rcases state with ⟨body, rfl⟩ | ⟨notStart, notDead, notBody, rfl⟩
  · exact ⟨iff_of_true rfl body, .of_incomplete (fun _ => by simp [body]) incomplete⟩
  · exact ⟨iff_of_false (by decide) notBody, .of_incomplete (fun _ => ⟨notStart, notDead⟩) incomplete⟩

/-- **The loop ends right exactly when the stream concludes.** -/
theorem ends_iff (cfg : Config) (env : Env) (x : Ctx) (pieces : List Bytes)
    (waiting : x.parse.response = none) (fits : x.FitsPieces pieces) :
    x.EndsRight cfg env pieces ↔ x.Concludes cfg pieces := by
  have clean := (Parse.response_eq_none.mp waiting).1
  rcases plain_cases cfg waiting fits with ⟨y, err, ends, which⟩ | ⟨silent, notBegun, endless⟩
  · rw [ends.endsRight_iff]
    rcases which with ⟨before, piece, after, split, quiet, answered⟩ | ⟨silent, state⟩
    · by_cases failed : (feed (Parse.stepByte cfg.parserStrict) x.parse
          (x.c.readBuf.data ++ before.flatten ++ piece)).state.parser.errno = .ok
      · obtain ⟨right, concludes⟩ := right_of_result split quiet answered failed
        exact iff_of_true right concludes
      · exact right_iff_of_error split quiet answered clean failed
    · obtain ⟨right, concludes⟩ := right_of_silent silent state
      exact iff_of_true right concludes
  · refine iff_of_false endless.not_endsRight fun concludes => ?_
    obtain ⟨notStart, notDead⟩ := concludes.begun silent
    rcases notBegun with start | dead
    · exact notStart start
    · exact notDead dead

theorem ends_iff_example :
    awaiting.EndsRight System.oneConnection {} [ascii "HTTP/1.1 200 OK\r\n", ascii "\r\nbody"] ↔
      awaiting.Concludes System.oneConnection [ascii "HTTP/1.1 200 OK\r\n", ascii "\r\nbody"] :=
  ends_iff System.oneConnection {} awaiting _ rfl (by decide +kernel)

/-! ### The two transports -/

/-- The same `ReadDone` is called, with the same status code, whatever the transport. -/
def Ctx.TransportsAgree (cfg : Config) (env : Env) (x : Ctx) (pieces : List Bytes) : Prop :=
  ∃ count plain tls unused unused' found,
    x.readReady cfg env (plainStream pieces count) = .ended plain unused ∧
    x.readReady cfg env (tlsStream pieces) = .ended tls unused' ∧
    firstResponse (x.callsSince plain) = some found ∧ firstResponse (x.callsSince tls) = some found

/-- The end of a TLS stream before the end of a response. -/
theorem drain_feof (waiting : x.parse.response = none) :
    drain (tryRead cfg) x [tlsRead .zeroReturn] = .done x.ioStop (-2) [] := by
  have unfinished : x.c.readDone = false := (Parse.response_eq_none.mp waiting).2
  have exit : x.tryRead cfg (.ok .feof) = .done x.ioStop (if x.c.readDone then 0 else -2) 0 := rfl
  rw [show tlsRead .zeroReturn = .ok .feof from rfl, drain, exit, unfinished]
  rfl

/-- The error for a TLS stream that ends too early is no error of a plain socket. -/
theorem EndsAt.firstResponse_ne {pieces : List Bytes} {err : Int} (ends : EndsAt cfg x pieces y err) :
    firstResponse (x.callsSince (y.readDone cfg env err)) ≠ some (.failed (-2)) := by
  rw [(ends.parsed.answered cfg env err).1, responseTo]
  rcases ends.codes with rfl | rfl
  · simp
  · simp

/-- **The transports differ** if the stream ends before there is an answer. -/
theorem not_transportsAgree (waiting : x.parse.response = none) {pieces : List Bytes}
    (fits : x.FitsPieces pieces) (silent : x.loop cfg pieces = none) :
    ¬ x.TransportsAgree cfg env pieces := by
  have drained := drain_pieces cfg waiting pieces fits
  rw [silent] at drained
  obtain ⟨y, read, goesOn⟩ := drained
  rintro ⟨count, plain, tls, unused, unused', found, plainEnds, tlsEnds, plainFound, tlsFound⟩
  have tlsDone : drain (tryRead cfg) x (tlsStream pieces) = .done y.ioStop (-2) [] := by
    rw [← drain_feof read.waiting]
    exact goesOn _
  have parsed : OnlyParsed x y.ioStop := by
    obtain ⟨calls, grown, parsed⟩ := read.parsed
    exact ⟨calls, by simpa [Ctx.history] using grown, parsed⟩
  rw [readReady_eq, tlsDone] at tlsEnds
  cases tlsEnds
  rw [(parsed.answered cfg env (-2)).1] at tlsFound
  cases tlsFound
  rw [readReady_eq] at plainEnds
  rcases plain_cases cfg waiting fits with ⟨z, err, ends, _⟩ | ⟨_, _, endless⟩
  · rcases ends.only count with ⟨w, going⟩ | ⟨_, done⟩
    · rw [going] at plainEnds
      cases plainEnds
    · rw [done] at plainEnds
      cases plainEnds
      exact ends.firstResponse_ne plainFound
  · obtain ⟨w, going⟩ := endless count
    rw [going] at plainEnds
    cases plainEnds

/-- **A body that goes to the end of the stream depends on the transport.** -/
theorem transports_differ : ¬ ∀ (cfg : Config) (env : Env) (x : Ctx) (pieces : List Bytes),
    x.parse.response = none → x.FitsPieces pieces → x.TransportsAgree cfg env pieces := by
  intro agree
  have fits : awaiting.FitsPieces [ascii "HTTP/1.1 200 OK\r\n\r\nbody"] := by decide +kernel
  have silent : awaiting.loop System.oneConnection [ascii "HTTP/1.1 200 OK\r\n\r\nbody"] = none := by
    decide +kernel
  exact not_transportsAgree rfl fits silent (agree System.oneConnection {} awaiting _ rfl fits)

/-- **The transports agree exactly when there is an answer before the end of the stream is read.** -/
theorem transports_agree_iff (cfg : Config) (env : Env) (x : Ctx) (pieces : List Bytes)
    (waiting : x.parse.response = none) (fits : x.FitsPieces pieces) :
    x.TransportsAgree cfg env pieces ↔ pieces ≠ [] ∧ (x.allParsed cfg pieces).response ≠ none := by
  cases loop : x.loop cfg pieces with
  | none =>
    refine iff_of_false (not_transportsAgree waiting fits loop) fun ⟨some_piece, answered⟩ => ?_
    exact answered (((responseReader cfg.parserStrict).readLoop_eq_none_iff some_piece).mp loop)
  | some found =>
    have some_piece : pieces ≠ [] := by
      rintro rfl
      cases loop
    have drained := drain_pieces cfg waiting pieces fits
    rw [loop] at drained
    obtain ⟨y, err, unused, done, _, response, parsed⟩ := drained
    have called := (parsed.answered cfg env err).1
    refine iff_of_true ?_ ⟨some_piece, fun silent => ?_⟩
    · refine ⟨0, y.readDone cfg env err, y.readDone cfg env err, unused ++ eofs 0,
        unused ++ [tlsRead .zeroReturn], _, ?_, ?_, called, called⟩
      · rw [readReady_eq, plainStream]
        exact congrArg _ (done (eofs 0))
      · rw [readReady_eq, tlsStream]
        exact congrArg _ (done [tlsRead .zeroReturn])
    · rw [Ctx.loop, ((responseReader cfg.parserStrict).readLoop_eq_none_iff
        some_piece).mpr silent] at loop
      cases loop

theorem transports_agree_iff_example :
    awaiting.TransportsAgree System.oneConnection {}
        [ascii "HTTP/1.1 200 OK\r\nContent-Length: 0\r\n", ascii "\r\n"] ↔
      [ascii "HTTP/1.1 200 OK\r\nContent-Length: 0\r\n", ascii "\r\n"] ≠ [] ∧
        (awaiting.allParsed System.oneConnection
          [ascii "HTTP/1.1 200 OK\r\nContent-Length: 0\r\n", ascii "\r\n"]).response ≠ none :=
  transports_agree_iff System.oneConnection {} awaiting _ rfl (by decide +kernel)

end Eof

end Apib
