/-
**A connection that hears from a server.**

The other end of a connection answers every request with a response of its own, in whatever pieces the
reads happen to give, and may break off anywhere.

* `Ctx.Serves`: the bytes that a callback reads go on with the response to the last request;
* `Exchange.Told`: what is to come of a request;
* `Parse.behind`: the parser partway through a response that it answers, which is never at a body that
  ends with the stream;
* `Hearing.drain`: **the loop of `readReady` from any place in a response**: it calls `ReadDone(0)` exactly
  with the last byte.
-/

import Apib.Dialogue.Exchanges

namespace Apib

open ByteMachine Ctx Http

/-! ### The server -/

/-- What one socket call brings. -/
def ReadOutcome.given : ReadOutcome → Bytes
  | .ok (.ok data) => data
  | _ => []

/-- The part of a response that is still to come, where the server answers the requests of a connection
with these responses. -/
def upcoming (script : Nat → Message) (past : List Exchange) : Bytes :=
  match past.getLast? with
  | none => []
  | some e => (script (past.length - 1)).bytes.drop e.received

/-- The server of a connection gives the response to its last request, no read more than it has room
for. -/
def Ctx.Serves (script : Nat → Nat → Message) (x : Ctx) : System.Input → Prop
  | .read _ outs _ => (∀ out ∈ outs, out.given.length ≤ kReadBufSize) ∧
      outs.flatMap ReadOutcome.given <+: upcoming (script x.c.id) (exchanges x.history)
  | _ => True

instance Ctx.Serves.decidable (script : Nat → Nat → Message) (x : Ctx) (input : System.Input) :
    Decidable (x.Serves script input) :=
  match input with
  | .read _ outs _ => inferInstanceAs (Decidable ((∀ out ∈ outs, out.given.length ≤ kReadBufSize) ∧
      outs.flatMap ReadOutcome.given <+: upcoming (script x.c.id) (exchanges x.history)))
  | .write .. | .shutdown .. | .timer .. | .async _ | .command _ | .hardShutdown => .isTrue trivial

/-- A request was answered by what the server sent: not more was parsed than the response, and its status
code was recorded, once, if all of it was. -/
structure Exchange.Told (m : Message) (e : Exchange) : Prop where
  inside : e.received ≤ m.bytes.length
  results : e.results = if e.received = m.bytes.length then [m.head.status] else []

/-- All requests were. -/
def Told (script : Nat → Message) (past : List Exchange) : Prop :=
  ∀ (k : Nat) (e : Exchange), past[k]? = some e → e.Told (script k)

section Told

variable {script : Nat → Message} {past : List Exchange} {e : Exchange}

theorem Told.nil : Told script [] := fun k e found => by simp at found

theorem told_concat : Told script (past ++ [e]) ↔ Told script past ∧ e.Told (script past.length) := by
  constructor
  · intro told
    refine ⟨fun k e found => told k e ?_, told past.length e ?_⟩
    · rw [List.getElem?_append_left (List.getElem?_eq_some_iff.mp found).1]
      exact found
    · rw [List.getElem?_concat_length]
  · rintro ⟨before, last⟩ k e' found
    rcases Nat.lt_trichotomy k past.length with below | rfl | above
    · rw [List.getElem?_append_left below] at found
      exact before k e' found
    · rw [List.getElem?_concat_length] at found
      cases found
      exact last
    · rw [List.getElem?_eq_none (by simp; omega)] at found
      cases found

theorem upcoming_concat : upcoming script (past ++ [e]) = (script past.length).bytes.drop e.received := by
  simp [upcoming]

end Told

/-! ### What the parser does with a part of a response -/

namespace Parse

variable {strict : Bool} {bytes : Bytes} {status n : Nat}

/-- The parser of the connection when the first `n` bytes of the response are parsed. -/
def behind (strict : Bool) (bytes : Bytes) (n : Nat) : Parse :=
  (feed (stepByte strict) fresh (bytes.take n)).state

@[simp] theorem behind_zero : behind strict bytes 0 = fresh := rfl

theorem Answers.waits (answers : Answers strict bytes status) (before : n < bytes.length) :
    (behind strict bytes n).response = none :=
  answers.silent n before

/-- The parser goes on from any place before the end. -/
theorem Answers.goesOn (answers : Answers strict bytes status) (before : n < bytes.length)
    (piece : Bytes) : feed (stepByte strict) (behind strict bytes n) piece =
      feed (stepByte strict) fresh (bytes.take n ++ piece) :=
  ((responseReader strict).feed_joined (answers.waits before) piece).symm

/-- **No part of a response that has an end is taken for a body that ends with the stream.** -/
theorem Answers.not_untilEof (answers : Answers strict bytes status) (before : n < bytes.length) :
    (behind strict bytes n).parser.state ≠ .bodyIdentityEof := by
  intro untilEof
  have all := answers.goesOn before (bytes.drop n)
  rw [List.take_append_drop, untilEof_takes untilEof] at all
  have silent := answers.waits before
  have answered : (behind strict bytes n).response = some (.answered status) := by
    rw [← answers.answer, show (responseReader strict).step = stepByte strict from rfl, ← all]
    rfl
  rw [silent] at answered
  cases answered

/-- An empty read is an error, or nothing. -/
theorem atEof_silent {r : Parse} (ends : r.parser.state ≠ .bodyIdentityEof) :
    r.atEof = r ∨ r.atEof.parser.errno ≠ .ok := by
  unfold atEof
  split
  · next untilEof => exact absurd untilEof ends
  · exact .inl rfl
  · exact .inl rfl
  · exact .inr (by simp)

/-- **Nothing is left unread behind the end of a response.** -/
theorem Answers.all_read (answers : Answers strict bytes status) (some_byte : bytes ≠ []) :
    (feed (stepByte strict) fresh bytes).rest = [] := by
  obtain ⟨front, last, rfl⟩ := (List.eq_nil_or_concat bytes).resolve_left some_byte
  rw [List.concat_eq_append] at answers ⊢
  have silent := answers.silent front.length (by simp)
  rw [List.take_left] at silent
  have step := (responseReader strict).feed_joined silent [last]
  have answer := answers.answer
  rw [step] at answer
  rw [show stepByte strict = (responseReader strict).step from rfl, step]
  by_cases running : (feed (responseReader strict).step
      (feed (responseReader strict).step fresh front).state [last]).stopped = false
  · exact feed_rest_of_running _ running
  · have stopped : (feed (stepByte strict)
        (feed (responseReader strict).step fresh front).state [last]).stopped = true :=
      Bool.not_eq_false _ ▸ running
    rcases feed_stopped stopped with failed | ⟨-, -, less⟩
    · exact absurd (answer.symm.trans (response_of_failed failed)) (by simp)
    · have none_left : (feed (stepByte strict)
          (feed (responseReader strict).step fresh front).state [last]).rest = [] := by simpa using less
      exact none_left

end Parse

/-! ### One read -/

/-- What has been recorded while `n` bytes of a response are parsed, behind the exchanges past. -/
structure Sofar (past : List Exchange) (n : Nat) (x : Ctx) : Prop where
  exchanges : exchanges x.history = past ++ [⟨n, []⟩]
  statuses : statuses x.history = past.flatMap Exchange.results

/-- The connection has parsed the first `n` bytes of the response to its last request. -/
structure Hearing (cfg : Config) (m : Message) (past : List Exchange) (n : Nat) (x : Ctx) : Prop where
  sofar : Sofar past n x
  before : n < m.bytes.length
  parser : x.parse = Parse.behind cfg.parserStrict m.bytes n
  empty : x.c.readBuf.data = []

/-- `ReadDone` is called: without an error exactly when the response is there to its last byte. -/
structure Heard (cfg : Config) (m : Message) (past : List Exchange) (err : Int) (x : Ctx) : Prop where
  empty : x.c.readBuf.data = []
  noIo : x.c.io.active = false
  sofar : ∃ n, Sofar past n x ∧ n ≤ m.bytes.length ∧ (err = 0 ↔ n = m.bytes.length)
  status : err = 0 → x.c.parser.statusCode = m.head.status
  parser : err = 0 → x.parse = Parse.behind cfg.parserStrict m.bytes m.bytes.length

section Read

variable {cfg : Config} {m : Message} {past : List Exchange} {n : Nat} {x y : Ctx}

theorem Sofar.of_history (sofar : Sofar past n x) (same : y.history = x.history) : Sofar past n y := by
  constructor
  · rw [same]
    exact sofar.exchanges
  · rw [same]
    exact sofar.statuses

/-- A read that the parser takes. -/
theorem tryRead_clean {data : Bytes} (clean : (x.executed cfg data).state.parser.errno = .ok) :
    x.tryRead cfg (.ok (.ok data)) =
      if (x.executed cfg data).state.complete then
        .done { x.parsed cfg data with c.readBuf := x.keepUnparsed cfg data clean }.ioStop 0 0
      else .returns { x.parsed cfg data with c.readBuf := x.keepUnparsed cfg data clean } 1 :=
  dif_pos clean

/-- A read that the parser rejects. -/
theorem tryRead_bad {data : Bytes} (bad : (x.executed cfg data).state.parser.errno ≠ .ok) :
    x.tryRead cfg (.ok (.ok data)) = .done (x.parsed cfg data).ioStop (-1) (-1) :=
  dif_neg bad

/-- The whole of a read goes into an empty buffer. -/
theorem fillBuf_empty (empty : x.c.readBuf.data = []) {data : Bytes} (small : data.length ≤ kReadBufSize) :
    (x.fillBuf data).map ReadByte.byte = data := by
  have room : data.length ≤ kReadBufSize - x.c.readBuf.pos := by
    rw [ReadBuf.pos_of_nil empty]
    exact small
  have bytes := fillBuf_data room
  rwa [empty, List.nil_append] at bytes

/-- The whole of a read goes to the parser, where the buffer is empty. -/
theorem executed_empty (empty : x.c.readBuf.data = []) {data : Bytes} (small : data.length ≤ kReadBufSize) :
    x.executed cfg data = x.parse.execute cfg.parserStrict data := by
  rw [Ctx.executed, fillBuf_empty empty small]

/-- The exchanges after a read. -/
theorem Hearing.parsed (hearing : Hearing cfg m past n x) {data : Bytes}
    (small : data.length ≤ kReadBufSize) : Sofar past (n + data.length) (x.parsed cfg data) := by
  have grown : (x.parsed cfg data).history = x.history ++
      [.execute x.c.socket ((x.fillBuf data).map ReadByte.source)] := by
    simp [Ctx.history]
  constructor
  · have filled : ((x.fillBuf data).map ReadByte.source).length = data.length := by
      rw [List.length_map, ← List.length_map (f := ReadByte.byte), fillBuf_empty hearing.empty small]
    rw [grown, exchanges_execute hearing.sofar.exchanges, filled]
  · rw [grown, statuses_append, hearing.sofar.statuses]
    exact List.append_nil _

theorem Hearing.waits (hearing : Hearing cfg m past n x)
    (answers : Parse.Answers cfg.parserStrict m.bytes m.head.status) : x.parse.response = none := by
  rw [hearing.parser]
  exact answers.waits hearing.before

/-- **An empty read** is no part of a response, and can only break it off. -/
theorem Hearing.read_nothing (hearing : Hearing cfg m past n x)
    (answers : Parse.Answers cfg.parserStrict m.bytes m.head.status) :
    match x.tryRead cfg (.ok (.ok [])) with
    | .returns y _ => Hearing cfg m past n y
    | .done y err _ => Heard cfg m past err y := by
  have waits := hearing.waits answers
  obtain ⟨clean, unfinished⟩ := Parse.response_eq_none.mp waits
  have executed : x.executed cfg [] = ⟨x.parse.atEof, [], false⟩ := by
    rw [executed_empty hearing.empty (Nat.zero_le _), Parse.execute_nil clean]
  have sofar : Sofar past (n + [].length) (x.parsed cfg []) := hearing.parsed (Nat.zero_le _)
  rw [List.length_nil, Nat.add_zero] at sofar
  have ends : x.parse.parser.state ≠ .bodyIdentityEof := by
    rw [hearing.parser]
    exact answers.not_untilEof hearing.before
  rcases Parse.atEof_silent ends with same | bad
  · rw [same] at executed
    have still : (x.executed cfg []).state.parser.errno = .ok := by
      rw [executed]
      exact clean
    rw [tryRead_clean still, if_neg (by rw [executed, unfinished]; exact Bool.false_ne_true)]
    refine ⟨sofar.of_history rfl, hearing.before, ?_, keepUnparsed_nil still (by rw [executed])⟩
    rw [← hearing.parser]
    show (x.executed cfg []).state = x.parse
    rw [executed]
  · rw [tryRead_bad (by rw [executed]; exact bad)]
    refine ⟨by simpa using hearing.empty, by simp, ⟨n, ?_, hearing.before.le, ?_⟩, ?_, ?_⟩
    · exact sofar.of_history (by simp [Ctx.history])
    · have before := hearing.before
      exact iff_of_false (by decide) (by omega)
    · exact fun isZero => absurd isZero (by decide)
    · exact fun isZero => absurd isZero (by decide)

/-- **A read of some bytes** goes on with the response, and ends it exactly with its last byte. -/
theorem Hearing.read_some (hearing : Hearing cfg m past n x)
    (answers : Parse.Answers cfg.parserStrict m.bytes m.head.status) {data : Bytes} (some_byte : data ≠ [])
    (small : data.length ≤ kReadBufSize) (served : data <+: m.bytes.drop n) :
    match x.tryRead cfg (.ok (.ok data)) with
    | .returns y _ => Hearing cfg m past (n + data.length) y
    | .done y err _ => Heard cfg m past err y := by
  have before := hearing.before
  have inside : n + data.length ≤ m.bytes.length := by
    have le := served.length_le
    rw [List.length_drop] at le
    omega
  have joined : m.bytes.take n ++ data = m.bytes.take (n + data.length) := by
    rw [List.take_add, ← List.prefix_iff_eq_take.mp served]
  have clean := (Parse.response_eq_none.mp (hearing.waits answers)).1
  have fed : x.executed cfg data =
      feed (Parse.stepByte cfg.parserStrict) Parse.fresh (m.bytes.take (n + data.length)) := by
    rw [executed_empty hearing.empty small, Parse.execute_eq_feed clean some_byte, hearing.parser,
      answers.goesOn before, joined]
  have state : (x.executed cfg data).state = Parse.behind cfg.parserStrict m.bytes (n + data.length) :=
    congrArg Fed.state fed
  have sofar := hearing.parsed small
  by_cases last : n + data.length = m.bytes.length
  · have whole : m.bytes.take (n + data.length) = m.bytes := List.take_of_length_le last.ge
    have answered : (x.executed cfg data).state.response = some (.answered m.head.status) := by
      rw [fed, whole]
      exact answers.answer
    have rest : (x.executed cfg data).rest = [] := by
      rw [fed, whole]
      exact answers.all_read Parse.message_some
    have good : (x.executed cfg data).state.parser.errno = .ok := by
      by_contra bad
      rw [Parse.response_of_failed bad] at answered
      cases answered
    have complete : (x.executed cfg data).state.complete = true := by
      by_contra unfinished
      rw [Parse.response_eq_none.mpr ⟨good, Bool.eq_false_iff.mpr unfinished⟩] at answered
      cases answered
    rw [Parse.response_of_complete good complete] at answered
    rw [tryRead_clean good, if_pos complete]
    refine ⟨?_, by simp, ⟨n + data.length, ?_, inside, iff_of_true rfl last⟩, fun _ => ?_, fun _ => ?_⟩
    · simpa using keepUnparsed_nil good rest
    · exact sofar.of_history (by simp [Ctx.history])
    · simpa using answered
    · rw [← last, ← state]
      simp [Ctx.parse]
  · have waits : (x.executed cfg data).state.response = none := by
      rw [state]
      exact answers.waits (by omega)
    obtain ⟨good, unfinished⟩ := Parse.response_eq_none.mp waits
    have running := (responseReader cfg.parserStrict).running_of_silent (fed ▸ waits)
    rw [tryRead_clean good, if_neg (by rw [unfinished]; exact Bool.false_ne_true)]
    refine ⟨sofar.of_history rfl, by omega, state, keepUnparsed_nil good ?_⟩
    rw [fed]
    exact feed_rest_of_running _ running

/-- **One socket call**, whatever it brings. -/
theorem Hearing.tryRead (hearing : Hearing cfg m past n x)
    (answers : Parse.Answers cfg.parserStrict m.bytes m.head.status) {out : ReadOutcome}
    (small : out.given.length ≤ kReadBufSize)
    (served : out.given <+: m.bytes.drop n) :
    match x.tryRead cfg out with
    | .returns y _ => Hearing cfg m past (n + out.given.length) y
    | .done y err _ => Heard cfg m past err y := by
  have before := hearing.before
  have brokenOff : ∀ err : Int, err ≠ 0 → Heard cfg m past err x.ioStop := by
    intro err isError
    refine ⟨by simpa using hearing.empty, by simp, ⟨n, ?_, before.le, ?_⟩, fun zero => absurd zero isError,
      fun zero => absurd zero isError⟩
    · exact hearing.sofar.of_history (by simp [Ctx.history])
    · exact iff_of_false isError (by omega)
  have turned : ∀ asked, Hearing cfg m past n (x.turned .read asked) := by
    intro asked
    obtain ⟨sofar, before, parser, empty⟩ := hearing
    exact ⟨sofar.of_history (by simp [Ctx.history]), before, by simpa [Ctx.parse] using parser,
      by simpa using empty⟩
  cases out with
  | error _ => exact brokenOff (-3) (by decide)
  | ok turn =>
    cases turn with
    | ok data =>
      by_cases empty : data = []
      · subst empty
        exact hearing.read_nothing answers
      · exact hearing.read_some answers empty small served
    | feof =>
      have unfinished := (Parse.response_eq_none.mp (hearing.waits answers)).2
      have exit : x.tryRead cfg (.ok .feof) = .done x.ioStop (-2) 0 := by
        show Exit.done x.ioStop (if x.c.readDone then 0 else -2) 0 = _
        rw [if_neg (by rw [show x.c.readDone = false from unfinished]; exact Bool.false_ne_true)]
      rw [exit]
      exact brokenOff (-2) (by decide)
    | needRead =>
      have exit : x.tryRead cfg (.ok .needRead) = .returns (x.turned .read .read) 0 := by
        rw [turned_home]
        rfl
      rw [exit]
      exact turned .read
    | needWrite =>
      have exit : x.tryRead cfg (.ok .needWrite) = .returns (x.turned .read .write) 0 := by
        rw [turned_away x (by decide)]
        rfl
      rw [exit]
      exact turned .write

/-- **The loop of `readReady`**, from any place in a response. -/
theorem Hearing.drain (hearing : Hearing cfg m past n x)
    (answers : Parse.Answers cfg.parserStrict m.bytes m.head.status) (outs : List ReadOutcome)
    (small : ∀ out ∈ outs, out.given.length ≤ kReadBufSize)
    (served : outs.flatMap ReadOutcome.given <+: m.bytes.drop n) :
    match drain (Ctx.tryRead cfg) x outs with
    | .going y | .paused y _ => ∃ n', Hearing cfg m past n' y
    | .done y err _ => Heard cfg m past err y := by
  induction outs generalizing x n with
  | nil => exact ⟨n, hearing⟩
  | cons out outs ih =>
    rw [List.flatMap_cons] at served
    have one := hearing.tryRead answers (small out List.mem_cons_self)
      ((List.prefix_append _ _).trans served)
    simp only [Apib.drain]
    cases exit : x.tryRead cfg out with
    | done y err code =>
      rw [exit] at one
      exact one
    | returns y code =>
      rw [exit] at one
      by_cases again : code > 0
      · simp only [if_pos again]
        refine ih one (fun later member => small later (List.mem_cons_of_mem _ member)) ?_
        -- what the later calls bring is the rest of the response behind this one
        obtain ⟨rest, whole⟩ := served
        refine ⟨rest, ?_⟩
        rw [← List.drop_drop, ← whole, List.append_assoc, List.drop_left]
      · simp only [if_neg again]
        exact ⟨_, one⟩

end Read

end Apib
