/-
**Reading a response piece by piece.**

What the loop of `readReady` does when the socket gives pieces of a response: it parses each one with
what the last left over, and calls `ReadDone` after the first piece that ends the response or is
rejected.

* `firstResponse`: what a list of calls says of the first `ReadDone`;
* `tryRead_ok`: one read, by what the parser says after it;
* `drain_pieces`: **the loop is the reader's loop** (`Reader.readLoop`) on the response parser;
* `firstResponse_readDone`: the call of `ReadDone` as the log shows it.
-/

import Apib.Lifecycle.Invariant

namespace Apib

open ByteMachine

/-! ### What the log shows -/

/-- The first `ReadDone`: its error, or the status code that goes to `recordResult` after it. -/
def firstResponse : List Event → Option Response
  | [] => none
  | .readDone err :: rest =>
    if err ≠ 0 then some (.failed err)
    else
      match rest with
      | .result statusCode _ :: _ => some (.answered statusCode)
      | _ => none
  | _ :: rest => firstResponse rest

/-- The errors of the calls of `ReadDone`. -/
def readDones (calls : List Event) : List Int :=
  calls.filterMap fun
    | .readDone err => some err
    | _ => none

/-- What `ReadDone` makes of its argument, when the parser has this status code. -/
def responseTo (err : Int) (statusCode : Nat) : Response :=
  if err ≠ 0 then .failed err else .answered statusCode

namespace Ctx

/-- The calls of the connection since `x`. -/
def callsSince (x y : Ctx) : List Event := y.history.drop x.history.length

/-- Only parsing has happened since `x`. -/
def OnlyParsed (x y : Ctx) : Prop :=
  ∃ calls, y.history = x.history ++ calls ∧
    ∀ call ∈ calls, ∃ socket sources, call = .execute socket sources

/-- No `ReadDone` has happened since `x`. -/
structure NoReadDone (x y : Ctx) : Prop where
  grows : x.history <+: y.history
  same : readDones y.history = readDones x.history

end Ctx

section Log

variable {cfg : Config} {env : Env} {x y z : Ctx}

open Ctx

theorem Ctx.OnlyParsed.refl : OnlyParsed x x := ⟨[], by simp, by simp⟩

theorem Ctx.OnlyParsed.trans (first : OnlyParsed x y) (second : OnlyParsed y z) : OnlyParsed x z := by
  obtain ⟨calls, grown, parsed⟩ := first
  obtain ⟨more, grown', parsed'⟩ := second
  refine ⟨calls ++ more, by rw [grown', grown, List.append_assoc], fun call member => ?_⟩
  rcases List.mem_append.mp member with early | late
  · exact parsed call early
  · exact parsed' call late

theorem callsSince_eq {calls : List Event} (grown : y.history = x.history ++ calls) :
    x.callsSince y = calls := by
  rw [callsSince, grown, List.drop_left]

theorem firstResponse_parsed {calls : List Event}
    (parsed : ∀ call ∈ calls, ∃ socket sources, call = .execute socket sources) (more : List Event) :
    firstResponse (calls ++ more) = firstResponse more := by
  induction calls with
  | nil => rfl
  | cons call calls ih =>
    obtain ⟨socket, sources, rfl⟩ := parsed call List.mem_cons_self
    exact ih fun call member => parsed call (List.mem_cons_of_mem _ member)

theorem readDones_parsed {calls : List Event}
    (parsed : ∀ call ∈ calls, ∃ socket sources, call = .execute socket sources) :
    readDones calls = [] := by
  rw [readDones, List.filterMap_eq_nil_iff]
  intro call member
  obtain ⟨socket, sources, rfl⟩ := parsed call member
  rfl

theorem Ctx.OnlyParsed.unanswered (parsed : OnlyParsed x y) :
    firstResponse (x.callsSince y) = none := by
  obtain ⟨calls, grown, parsed⟩ := parsed
  rw [callsSince_eq grown, ← List.append_nil calls, firstResponse_parsed parsed]
  rfl

theorem Ctx.OnlyParsed.no_readDone (parsed : OnlyParsed x y) : readDones (x.callsSince y) = [] := by
  obtain ⟨calls, grown, parsed⟩ := parsed
  rw [callsSince_eq grown]
  exact readDones_parsed parsed

/-! ### After `ReadDone` -/

@[simp] theorem readDones_append (calls more : List Event) :
    readDones (calls ++ more) = readDones calls ++ readDones more :=
  List.filterMap_append

theorem Ctx.NoReadDone.trans (first : NoReadDone x y) (second : NoReadDone y z) : NoReadDone x z :=
  ⟨first.grows.trans second.grows, second.same.trans first.same⟩

/-- Calls of other functions. -/
theorem Ctx.NoReadDone.of_history (calls : List Event) (grown : y.history = x.history ++ calls)
    (silent : readDones calls = []) : NoReadDone x y :=
  ⟨⟨calls, grown.symm⟩, by rw [grown, readDones_append, silent, List.append_nil]⟩

theorem connectAndSend_noReadDone (caller : Caller) :
    NoReadDone x (x.connectAndSend cfg env caller) := by
  have leads : Leads cfg Gate.free (.attempting caller) x (x.connectAndSend cfg env caller) :=
    connectAndSend_leads caller
  have grows := leads.frame
  obtain ⟨events, log⟩ := grows.log
  refine ⟨⟨events, by rw [Ctx.history, Ctx.history, grows.id, log, history_self]⟩, ?_⟩
  unfold Ctx.connectAndSend
  dsimp only
  split
  · rcases Ctx.connect_cases cfg env { x.note (.connectAndSend caller) with c.startTime := env.startTime }
      with failed | opened
    · rw [failed]
      simp [Ctx.history, readDones]
    · rw [opened]
      simp [Ctx.history, readDones]
  · simp [Ctx.history, readDones]

theorem closeDone_noReadDone : NoReadDone x (x.closeDone cfg env) := by
  unfold Ctx.closeDone
  split
  · exact .of_history [.closeDone] (by simp [Ctx.history]) rfl
  · split
    · exact .of_history [] (by simp [Ctx.history]) rfl
    · exact connectAndSend_noReadDone _

theorem recycle_noReadDone (cfg : Config) (env : Env) (x : Ctx) (closeConn : Bool) :
    NoReadDone x (x.recycle cfg env closeConn) := by
  have quiet : ∀ {y : Ctx}, y.history = x.history → NoReadDone x (y.closeDone cfg env) := fun same =>
    (Ctx.NoReadDone.of_history [] (by simp [same]) rfl).trans closeDone_noReadDone
  unfold Ctx.recycle Ctx.close
  split
  · split
    · exact quiet (by simp [Ctx.history])
    · exact quiet rfl
    · exact quiet rfl
    · exact .of_history [] (by simp [Ctx.history]) rfl
    · exact .of_history [] (by simp [Ctx.history]) rfl
  · dsimp only
    split
    · exact .of_history [] (by simp [Ctx.history]) rfl
    · exact (Ctx.NoReadDone.of_history [] (by simp [Ctx.history]) rfl).trans
        (connectAndSend_noReadDone _)

/-- The calls without a `ReadDone`. -/
theorem Ctx.NoReadDone.calls (silent : NoReadDone x y) :
    ∃ calls, y.history = x.history ++ calls ∧ readDones calls = [] := by
  obtain ⟨⟨calls, grown⟩, same⟩ := silent
  rw [← grown, readDones_append] at same
  exact ⟨calls, grown.symm, List.append_right_eq_self.mp same⟩

/-- **`ReadDone` is called once**, and passes on what `responseTo` says. -/
theorem readDone_history (cfg : Config) (env : Env) (x : Ctx) (err : Int) : ∃ calls,
    (x.readDone cfg env err).history = x.history ++ .readDone err :: calls ∧ readDones calls = [] ∧
      firstResponse (.readDone err :: calls) = some (responseTo err x.c.parser.statusCode) := by
  by_cases isError : err = 0
  · subst isError
    -- the result is recorded whatever `ReadDone` does then
    have recorded : ∀ (z : Ctx) (closeConn : Bool) (more : List Event), readDones more = [] →
        z.history = x.history ++ .readDone 0 ::
          .result x.c.parser.statusCode (env.endTime - x.c.startTime) :: more →
        ∃ calls, (z.recycle cfg env closeConn).history = x.history ++ .readDone 0 :: calls ∧
          readDones calls = [] ∧
          firstResponse (.readDone 0 :: calls) = some (responseTo 0 x.c.parser.statusCode) := by
      intro z closeConn more silent grown
      obtain ⟨calls, grown', silent'⟩ := (recycle_noReadDone cfg env z closeConn).calls
      refine ⟨.result x.c.parser.statusCode (env.endTime - x.c.startTime) :: (more ++ calls), ?_, ?_, rfl⟩
      · rw [grown', grown]
        simp
      · rw [← List.singleton_append, readDones_append, readDones_append, silent, silent']
        rfl
    rw [readDone_zero]
    split
    · exact recorded _ _ [] rfl (by simp [Ctx.history])
    · split <;> exact recorded _ _ [.getNext (getNext cfg.urls cfg.some_url env.rand)] rfl
        (by simp [Ctx.history])
  · obtain ⟨calls, grown, silent⟩ := (recycle_noReadDone cfg env
      (x.note (.readDone err)).recordSocketError true).calls
    refine ⟨.socketError :: calls, ?_, silent, ?_⟩
    · unfold Ctx.readDone
      rw [if_pos isError, grown]
      simp [Ctx.history]
    · simp only [firstResponse, responseTo, if_pos isError]

/-- **What the log says of a reading that ends with `ReadDone`.** -/
theorem Ctx.OnlyParsed.answered (parsed : OnlyParsed x y) (cfg : Config) (env : Env) (err : Int) :
    firstResponse (x.callsSince (y.readDone cfg env err)) = some (responseTo err y.c.parser.statusCode) ∧
      readDones (x.callsSince (y.readDone cfg env err)) = [err] := by
  obtain ⟨calls, grown, parsed⟩ := parsed
  obtain ⟨more, grown', silent, response⟩ := readDone_history cfg env y err
  have since : x.callsSince (y.readDone cfg env err) = calls ++ .readDone err :: more :=
    callsSince_eq (by rw [grown', grown, List.append_assoc])
  rw [since, firstResponse_parsed parsed, response, readDones_append, readDones_parsed parsed]
  refine ⟨rfl, ?_⟩
  rw [← List.singleton_append, readDones_append, silent]
  rfl

end Log

/-! ### One read -/

section Read

variable {cfg : Config} {x y : Ctx}

open Ctx

theorem fillBuf_data {data : Bytes} (fits : data.length ≤ kReadBufSize - x.c.readBuf.pos) :
    (x.fillBuf data).map ReadByte.byte = x.c.readBuf.data ++ data := by
  simp [Ctx.fillBuf, ReadBuf.data, List.take_of_length_le fits, Function.comp_def]

/-- Without an error the bytes that are left over stay in the buffer. -/
theorem keepUnparsed_nil {data : Bytes} (clean : (x.executed cfg data).state.parser.errno = .ok)
    (all : (x.executed cfg data).rest = []) : (x.keepUnparsed cfg data clean).data = [] := by
  simp [Ctx.keepUnparsed, ReadBuf.data, all]

/-- **One read**, by what the parser says after it: nothing yet, or an answer for `ReadDone`. -/
theorem tryRead_ok (cfg : Config) (x : Ctx) (data : Bytes) :
    match (x.executed cfg data).state.response with
    | none => ∃ y, x.tryRead cfg (.ok (.ok data)) = .returns y 1 ∧
        y.parse = (x.executed cfg data).state ∧ ((x.executed cfg data).rest = [] → y.c.readBuf.data = []) ∧
        OnlyParsed x y
    | some found => ∃ y err code, x.tryRead cfg (.ok (.ok data)) = .done y err code ∧
        (err = 0 ∨ err = -1) ∧ responseTo err y.c.parser.statusCode = found ∧ OnlyParsed x y := by
  have parsed : ∀ y : Ctx, y.history = x.history ++
      [.execute x.c.socket ((x.fillBuf data).map ReadByte.source)] → OnlyParsed x y :=
    fun y grown => ⟨_, grown, by simp⟩
  by_cases clean : (x.executed cfg data).state.parser.errno = .ok
  · have exit : x.tryRead cfg (.ok (.ok data)) =
        if (x.executed cfg data).state.complete then
          .done { x.parsed cfg data with c.readBuf := x.keepUnparsed cfg data clean }.ioStop 0 0
        else .returns { x.parsed cfg data with c.readBuf := x.keepUnparsed cfg data clean } 1 :=
      dif_pos clean
    rw [exit]
    cases complete : (x.executed cfg data).state.complete with
    | false =>
      have silent : (x.executed cfg data).state.response = none :=
        Parse.response_eq_none.mpr ⟨clean, complete⟩
      rw [silent]
      exact ⟨_, rfl, rfl, keepUnparsed_nil clean, parsed _ (by simp [Ctx.history])⟩
    | true =>
      rw [Parse.response_of_complete clean complete]
      exact ⟨_, _, _, rfl, .inl rfl, by simp [responseTo], parsed _ (by simp [Ctx.history])⟩
  · have exit : x.tryRead cfg (.ok (.ok data)) = .done (x.parsed cfg data).ioStop (-1) (-1) :=
      dif_neg clean
    rw [Parse.response_of_failed clean, exit]
    exact ⟨_, _, _, rfl, .inr rfl, rfl, parsed _ (by simp [Ctx.history])⟩

/-- A read of a piece feeds the response parser. -/
theorem executed_piece (cfg : Config) (waiting : x.parse.response = none) {piece : Bytes}
    (fits : piece.length ≤ kReadBufSize - x.c.readBuf.pos) (some_bytes : x.c.readBuf.data ++ piece ≠ []) :
    x.executed cfg piece =
      feed (Parse.stepByte cfg.parserStrict) x.parse (x.c.readBuf.data ++ piece) := by
  rw [Ctx.executed, fillBuf_data fits]
  exact Parse.execute_eq_feed (Parse.response_eq_none.mp waiting).1 some_bytes

/-- **One read of a piece**, by what the response parser says after it: while it says nothing, every byte
is parsed. -/
theorem tryRead_piece (cfg : Config) (waiting : x.parse.response = none) {piece : Bytes}
    (fits : piece.length ≤ kReadBufSize - x.c.readBuf.pos) (some_bytes : x.c.readBuf.data ++ piece ≠ []) :
    match (feed (Parse.stepByte cfg.parserStrict) x.parse (x.c.readBuf.data ++ piece)).state.response with
    | none => ∃ y, x.tryRead cfg (.ok (.ok piece)) = .returns y 1 ∧
        y.parse = (feed (Parse.stepByte cfg.parserStrict) x.parse (x.c.readBuf.data ++ piece)).state ∧
        y.c.readBuf.data = [] ∧ OnlyParsed x y
    | some found => ∃ y err code, x.tryRead cfg (.ok (.ok piece)) = .done y err code ∧
        (err = 0 ∨ err = -1) ∧ responseTo err y.c.parser.statusCode = found ∧ OnlyParsed x y := by
  have one := tryRead_ok cfg x piece
  rw [executed_piece cfg waiting fits some_bytes] at one
  cases here : (feed (Parse.stepByte cfg.parserStrict) x.parse (x.c.readBuf.data ++ piece)).state.response with
  | some found =>
    rw [here] at one
    exact one
  | none =>
    rw [here] at one
    obtain ⟨y, exit, state, emptied, parsed⟩ := one
    have running : (feed (Parse.stepByte cfg.parserStrict) x.parse
        (x.c.readBuf.data ++ piece)).stopped = false :=
      (responseReader cfg.parserStrict).running_of_silent here
    exact ⟨y, exit, state, emptied (feed_rest_of_running _ running), parsed⟩

/-! ### The loop over pieces -/

/-- The loop of the response parser. -/
abbrev Ctx.loop (cfg : Config) (x : Ctx) (pieces : List Bytes) : Option Response :=
  (responseReader cfg.parserStrict).readLoop x.parse x.c.readBuf.data pieces

/-- Pieces of a size that the reads can have. -/
abbrev Ctx.FitsPieces (x : Ctx) (pieces : List Bytes) : Prop :=
  Fits (kReadBufSize - x.c.readBuf.pos) kReadBufSize (pieces.map List.length)

theorem ReadBuf.pos_of_nil {buf : ReadBuf} (empty : buf.data = []) : buf.pos = 0 := by
  rw [ReadBuf.pos, ← List.length_map (f := ReadByte.byte)]
  exact List.length_eq_zero_iff.mpr empty

/-- The state in which the loop has read some pieces without an answer. -/
structure Ctx.HasRead (cfg : Config) (x : Ctx) (pieces : List Bytes) (y : Ctx) : Prop where
  waiting : y.parse.response = none
  parsed : OnlyParsed x y
  none_yet : pieces = [] → y = x
  state : pieces ≠ [] → y.c.readBuf.data = [] ∧ y.parse =
    (feed (Parse.stepByte cfg.parserStrict) x.parse (x.c.readBuf.data ++ pieces.flatten)).state

/-- **The loop over pieces is the reader's loop**: it stops with the answer for `ReadDone`, or it goes on
with the outcomes that follow. -/
theorem drain_pieces (cfg : Config) (waiting : x.parse.response = none) (pieces : List Bytes)
    (fits : x.FitsPieces pieces) :
    match x.loop cfg pieces with
    | none => ∃ y, x.HasRead cfg pieces y ∧ ∀ outs,
        drain (tryRead cfg) x (pieces.map (fun piece => .ok (.ok piece)) ++ outs) =
          drain (tryRead cfg) y outs
    | some found => ∃ y err unused,
        (∀ outs, drain (tryRead cfg) x (pieces.map (fun piece => .ok (.ok piece)) ++ outs) =
          .done y err (unused ++ outs)) ∧
        (err = 0 ∨ err = -1) ∧ responseTo err y.c.parser.statusCode = found ∧ OnlyParsed x y := by
  induction pieces generalizing x with
  | nil => exact ⟨x, ⟨waiting, .refl, fun _ => rfl, fun none_read => absurd rfl none_read⟩,
      fun _ => rfl⟩
  | cons piece pieces ih =>
    obtain ⟨positive, small, later⟩ := fits
    have one := tryRead_piece cfg waiting small
      (fun empty => by simp [(List.append_eq_nil_iff.mp empty).2] at positive)
    cases here : (feed (Parse.stepByte cfg.parserStrict) x.parse
        (x.c.readBuf.data ++ piece)).state.response with
    | some found =>
      rw [here] at one
      obtain ⟨y, err, code, exit, rest⟩ := one
      rw [Ctx.loop, (responseReader cfg.parserStrict).readLoop_cons_of_some here]
      refine ⟨y, err, pieces.map (fun piece => .ok (.ok piece)), fun outs => ?_, rest⟩
      simp only [List.map_cons, List.cons_append, drain, exit]
    | none =>
      rw [here] at one
      obtain ⟨y, exit, state, empty, parsed⟩ := one
      have running : (feed (Parse.stepByte cfg.parserStrict) x.parse
          (x.c.readBuf.data ++ piece)).stopped = false :=
        (responseReader cfg.parserStrict).running_of_silent here
      have waiting' : y.parse.response = none := by rw [state, here]
      have more := ih waiting' (by rwa [FitsPieces, ReadBuf.pos_of_nil empty])
      have same : x.loop cfg (piece :: pieces) = y.loop cfg pieces := by
        rw [Ctx.loop, (responseReader cfg.parserStrict).readLoop_cons_of_none here,
          Ctx.loop, state, empty]
        rfl
      have goesOn : ∀ outs, drain (tryRead cfg) x ((piece :: pieces).map (fun piece => .ok (.ok piece)) ++ outs) =
          drain (tryRead cfg) y (pieces.map (fun piece => .ok (.ok piece)) ++ outs) := by
        intro outs
        simp only [List.map_cons, List.cons_append, drain, exit]
        rfl
      simp only [same, goesOn]
      cases loop : y.loop cfg pieces with
      | some found =>
        rw [loop] at more
        obtain ⟨z, err, unused, done, codes, response, rest⟩ := more
        exact ⟨z, err, unused, done, codes, response, parsed.trans rest⟩
      | none =>
        rw [loop] at more
        obtain ⟨z, ⟨waiting'', rest, none_yet, state'⟩, done⟩ := more
        refine ⟨z, ⟨waiting'', parsed.trans rest,
          fun none_read => absurd none_read (List.cons_ne_nil _ _), fun _ => ?_⟩, done⟩
        rw [List.flatten_cons, ← List.append_assoc,
          feed_append_of_running _ running pieces.flatten, ← state]
        by_cases last : pieces = []
        · rw [none_yet last, last]
          exact ⟨empty, rfl⟩
        · have := state' last
          rwa [empty, List.nil_append] at this

/-- What is left of the loop is the loop from where it is. -/
theorem Ctx.HasRead.loop_append {pieces : List Bytes} (read : x.HasRead cfg pieces y)
    (silent : x.loop cfg pieces = none) (more : List Bytes) :
    x.loop cfg (pieces ++ more) = y.loop cfg more := by
  by_cases none_read : pieces = []
  · rw [read.none_yet none_read, none_read, List.nil_append]
  · obtain ⟨empty, state⟩ := read.state none_read
    rw [Ctx.loop, (responseReader cfg.parserStrict).readLoop_append_of_none none_read silent, Ctx.loop, empty, state]
    rfl

/-- The pieces that follow fit. -/
theorem Ctx.HasRead.fits_append {pieces more : List Bytes} (read : x.HasRead cfg pieces y)
    (fits : x.FitsPieces (pieces ++ more)) : y.FitsPieces more := by
  rw [FitsPieces, List.map_append, ByteMachine.fits_append] at fits
  by_cases none_read : pieces = []
  · rw [read.none_yet none_read]
    simpa [none_read] using fits.2
  · rw [FitsPieces, ReadBuf.pos_of_nil (read.state none_read).1]
    simpa [none_read] using fits.2

end Read

end Apib
