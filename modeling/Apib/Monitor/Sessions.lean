/-
**What the monitoring server says to any client.**

`getRemoteStat` sends one command and waits for its reply; the server of `apib_mon.cc` takes what any
client sends, several commands at a time or parts of one, and answers line by line until a `BYE` or a
line that does not fit. A `Session` is the server with a client that sends what it likes whenever it
likes, over a channel that cuts the bytes into reads in any way.

* `Answered`: what has been answered in a session, and where the server is with it;
* `session_step`: every step keeps it;
* `session_sound`: **the replies are those to the lines of the input, in order and each once**, up to the
  first that asks to close.
-/

import Apib.Monitor.Protocol

namespace Apib.Monitor

open Lines Numerals Segments Transition

/-! ### Sessions -/

/-- A server and the bytes on the way to it, with what each of its reads gave and what it wrote back. -/
structure Session where
  server : Server
  toServer : Bytes := []
  reads : List Bytes := []
  sentBack : Bytes := []
  deriving DecidableEq, Repr

namespace Session

/-- What can happen next: the client sends some bytes, the server reads a number of bytes, or it goes on
with its loop. -/
inductive Input
  | send (bytes : Bytes)
  | recv (count : Nat)
  | take (usage : Usage)
  deriving DecidableEq, Repr

/-- A new connection, with what `malloc` gives the server's buffer. -/
def init (memory : Bytes) : Session := { server := { line := LineState.new memory } }

/-- One step. -/
def step (session : Session) : Input → Option Session
  | .send bytes => some { session with toServer := session.toServer ++ bytes }
  | .recv count =>
    if session.server.phase = .reading ∧ count ≤ session.toServer.length ∧
        Fits session.server.line (session.toServer.take count) then
      some { session with
        server := session.server.recv (session.toServer.take count)
        toServer := session.toServer.drop count
        reads := session.reads ++ [session.toServer.take count] }
    else none
  | .take usage =>
    if session.server.phase = .taking then
      let (server, reply) := session.server.take usage
      some { session with server, sentBack := session.sentBack ++ reply }
    else none

/-- The client sends text. -/
def SendsText (_ : Session) : Input → Prop
  | .send bytes => 0 ∉ bytes
  | _ => True

instance (session : Session) (input : Input) : Decidable (SendsText session input) :=
  match input with
  | .send bytes => inferInstanceAs (Decidable (0 ∉ bytes))
  | .recv _ | .take _ => inferInstanceAs (Decidable True)

/-- The lines that the server finds in its input, read by read. -/
def lines (session : Session) : List Bytes := taking isNewline [] session.reads

/-- What is left of the input behind the last of them. -/
def pending (session : Session) : Bytes := unfinished isNewline session.reads.flatten

end Session

/-- Does a command ask the server to close the connection? -/
def closes (cmd : Bytes) : Bool := eqcase cmd (ascii "BYE") || eqcase cmd (ascii "QUIT")

/-- The replies to some commands, each with the value computed for it. -/
def replies (commands : List (Bytes × Usage)) : Bytes :=
  commands.flatMap fun asked => (processCommand asked.1 asked.2).reply

/-- The values computed for some commands. -/
def values (commands : List (Bytes × Usage)) : List (Stat × Usage) :=
  commands.flatMap fun asked => ((processCommand asked.1 asked.2).computed.map (·, asked.2)).toList

section Commands

variable {commands : List (Bytes × Usage)} {cmd : Bytes} {usage : Usage}

theorem replies_concat :
    replies (commands ++ [(cmd, usage)]) = replies commands ++ (processCommand cmd usage).reply := by
  simp [replies]

theorem values_concat : values (commands ++ [(cmd, usage)]) =
    values commands ++ ((processCommand cmd usage).computed.map (·, usage)).toList := by
  simp [values]

theorem eqcase_length {s t : Bytes} (same : eqcase s t = true) : s.length = t.length := by
  rw [eqcase, Bool.and_eq_true, beq_iff_eq] at same
  exact same.1

/-- **A command closes the connection** exactly if it is `BYE` or `QUIT`, and none of the others. -/
theorem processCommand_closes (cmd : Bytes) (usage : Usage) :
    (processCommand cmd usage).closeRequested = closes cmd := by
  have by_length : ∀ {t : Bytes}, eqcase cmd t = true → t.length ≠ 4 → (t.length = 3 →
      t.map tolower ≠ (ascii "BYE").map tolower) → closes cmd = false := by
    intro t same notFour notBye
    rw [closes, Bool.or_eq_false_iff, ← Bool.not_eq_true, ← Bool.not_eq_true]
    constructor
    · intro bye
      have length := (eqcase_length same).symm.trans (eqcase_length bye)
      rw [eqcase, Bool.and_eq_true, beq_iff_eq, beq_iff_eq] at same bye
      exact notBye length (same.2.symm.trans bye.2)
    · intro quit
      exact notFour ((eqcase_length same).symm.trans (eqcase_length quit))
  unfold processCommand
  split
  · next hello => exact (by_length hello (by decide) (by decide)).symm
  · split
    · next cpu => exact (by_length cpu (by decide) (by decide)).symm
    · split
      · next mem => exact (by_length mem (by decide) (by decide)).symm
      · unfold closes
        split
        · next bye => exact bye.symm
        · next other => exact (Bool.eq_false_iff.mpr other).symm

end Commands

/-! ### Where the server is -/

namespace Session

/-- Where the server is with the lines: it has answered all of them, or some are still in its buffer, or
it has closed the connection, after a command that asks for it or because there is no room left. -/
inductive Stands (session : Session) (commands : List Bytes) : Prop
  | reading (phase : session.server.phase = .reading) (open' : ∀ cmd ∈ commands, closes cmd = false)
      (all : commands = session.lines) (room : session.pending.length < readBufLen)
      (holding : Holding readBufLen session.pending session.server.line)
  | taking (held : Bytes) (phase : session.server.phase = .taking)
      (open' : ∀ cmd ∈ commands, closes cmd = false) (all : commands ++ runs isNewline held = session.lines)
      (rest : unfinished isNewline held = session.pending) (text : 0 ∉ held)
      (ready : Ready readBufLen held session.server.line)
  | left (before : List Bytes) (last : Bytes) (phase : session.server.phase = .closed)
      (open' : ∀ cmd ∈ before, closes cmd = false) (split : commands = before ++ [last])
      (closing : closes last = true) (some_part : commands <+: session.lines)
  | full (phase : session.server.phase = .closed) (open' : ∀ cmd ∈ commands, closes cmd = false)
      (all : commands = session.lines) (tooLong : session.pending.length = readBufLen)

/-- **What has been answered.** -/
structure Answered (session : Session) : Prop where
  text : 0 ∉ session.reads.flatten ++ session.toServer
  asked : ∃ commands : List (Bytes × Usage), session.sentBack = replies commands ∧
    session.server.computed = values commands ∧ session.Stands (commands.map Prod.fst)

section Steps

variable {session next : Session}

theorem answered_init {memory : Bytes} (size : memory.length = readBufLen) : Answered (init memory) := by
  refine ⟨List.not_mem_nil, [], rfl, rfl,
    .reading rfl (fun _ none => absurd none List.not_mem_nil) rfl (Nat.succ_pos _) ?_⟩
  rw [← size]
  exact holding_new memory

/-- The lines of one more read. -/
theorem taking_concat (pending : Bytes) (reads : List Bytes) (chunk : Bytes)
    (free : ∀ c ∈ pending, isNewline c = false) :
    taking isNewline pending (reads ++ [chunk]) = taking isNewline pending reads ++
      runs isNewline (unfinished isNewline (pending ++ reads.flatten) ++ chunk) := by
  induction reads generalizing pending with
  | nil => simp [taking, unfinished_of_free free]
  | cons first later ih =>
    rw [List.cons_append, taking, taking, ih _ (unfinished_free _), List.append_assoc,
      List.flatten_cons, ← List.append_assoc pending, unfinished_append (pending ++ first)]

theorem answered_send {bytes : Bytes} (answered : Answered session) (text : 0 ∉ bytes)
    (taken : session.step (.send bytes) = some next) : Answered next := by
  cases taken
  obtain ⟨text', commands, sentBack, computed, stands⟩ := answered
  refine ⟨?_, commands, sentBack, computed, ?_⟩
  · rw [← List.append_assoc, List.mem_append]
    exact fun member => member.elim text' text
  · cases stands with
    | reading phase open' all room holding => exact .reading phase open' all room holding
    | taking held phase open' all rest free ready => exact .taking held phase open' all rest free ready
    | left before last phase open' split closing some_part =>
      exact .left before last phase open' split closing some_part
    | full phase open' all tooLong => exact .full phase open' all tooLong

theorem answered_recv {count : Nat} (answered : Answered session)
    (taken : session.step (.recv count) = some next) : Answered next := by
  obtain ⟨text, commands, sentBack, computed, stands⟩ := answered
  obtain ⟨⟨phase, inside, fits⟩, same⟩ := Option.ite_none_right_eq_some.mp taken
  cases same
  have whole : (session.reads ++ [session.toServer.take count]).flatten ++ session.toServer.drop count =
      session.reads.flatten ++ session.toServer := by
    simp
  refine ⟨by rwa [whole], commands, sentBack, computed, ?_⟩
  cases stands with
  | reading _ open' all _ holding =>
    refine .taking (session.pending ++ session.toServer.take count) rfl open' ?_ ?_ ?_
      (holding.readFd fits).ready
    · rw [all]
      exact (taking_concat [] _ _ fun _ none => absurd none List.not_mem_nil).symm
    · show _ = unfinished isNewline (session.reads ++ [session.toServer.take count]).flatten
      rw [List.flatten_append, List.flatten_singleton, unfinished_append session.reads.flatten]
      rfl
    · apply text_unfinished
      intro member
      refine text (List.mem_append.mpr ((List.mem_append.mp member).imp_right List.mem_of_mem_take))
  | taking _ other | left _ _ other | full other =>
    rw [phase] at other
    cases other

/-- **A turn that finds no line** waits for more, or closes where there is no room. -/
theorem answered_none {usage : Usage} {held sent : Bytes} {commands : List Bytes}
    (ready : Ready readBufLen held session.server.line) (free : ∀ c ∈ held, isNewline c = false)
    (open' : ∀ cmd ∈ commands, closes cmd = false) (all : commands ++ runs isNewline held = session.lines)
    (rest : unfinished isNewline held = session.pending) :
    (session.server.take usage).2 = [] ∧
      (session.server.take usage).1.computed = session.server.computed ∧
      Stands { session with server := (session.server.take usage).1, sentBack := sent } commands := by
  obtain ⟨given, drained⟩ := ready.next_none free
  rw [runs_of_free free, List.append_nil] at all
  rw [unfinished_of_free free] at rest
  unfold Server.take
  generalize session.server.line.next = result at given drained
  obtain ⟨given, line⟩ := result
  subst given
  obtain ⟨holding, answer⟩ := drained.consume
  dsimp only
  refine ⟨rfl, rfl, ?_⟩
  cases consumed : line.consume.1 with
  | true =>
    have room : held.length < readBufLen := by
      refine Nat.lt_of_le_of_ne holding.within fun tooLong => ?_
      rw [answer.mpr tooLong] at consumed
      cases consumed
    exact .reading rfl open' all (rest ▸ room) (rest ▸ holding)
  | false => exact .full rfl open' all (rest ▸ answer.mp consumed)

/-- **A turn that finds a line** answers it. -/
theorem answered_line {usage : Usage} {held run seps later sent : Bytes} {commands : List Bytes}
    (ready : Ready readBufLen held session.server.line) (text : 0 ∉ held)
    (cut : held = run ++ (seps ++ later)) (free : ∀ c ∈ run, isNewline c = false)
    (cuts : ∀ c ∈ seps, isNewline c = true) (some_sep : seps ≠ [])
    (stops : leads isNewline later = false) (open' : ∀ cmd ∈ commands, closes cmd = false)
    (all : commands ++ runs isNewline held = session.lines)
    (rest : unfinished isNewline held = session.pending) :
    (session.server.take usage).2 = (processCommand run usage).reply ∧
      (session.server.take usage).1.computed =
        session.server.computed ++ ((processCommand run usage).computed.map (·, usage)).toList ∧
      Stands { session with server := (session.server.take usage).1, sentBack := sent } (commands ++ [run]) := by
  have text_run : 0 ∉ run := fun member => text (by rw [cut]; exact List.mem_append_left _ member)
  have text_later : 0 ∉ later := fun member =>
    text (by rw [cut]; exact List.mem_append_right _ (List.mem_append_right _ member))
  obtain ⟨given, line_eq, ready', -⟩ := ready.next_some cut free cuts some_sep stops text_run
  have answered : (commands ++ [run]) ++ runs isNewline later = session.lines := by
    rw [← all, cut, runs_run free cuts some_sep stops, List.append_assoc]
    rfl
  have rest' : unfinished isNewline later = session.pending := by
    rw [← rest, cut, unfinished_cut later free cuts some_sep]
  unfold Server.take
  generalize session.server.line.next = result at given line_eq ready'
  obtain ⟨given, line⟩ := result
  subst given
  dsimp only at line_eq ready' ⊢
  rw [line_eq]
  refine ⟨rfl, rfl, ?_⟩
  have closing := processCommand_closes run usage
  cases asks : closes run with
  | true =>
    refine .left commands run ?_ open' rfl asks ⟨_, answered⟩
    show (if (processCommand run usage).closeRequested then ServerPhase.closed else .taking) = .closed
    rw [closing, asks]
    rfl
  | false =>
    refine .taking later ?_ ?_ answered rest' text_later ready'
    · show (if (processCommand run usage).closeRequested then ServerPhase.closed else .taking) = .taking
      rw [closing, asks]
      rfl
    · intro cmd member
      rcases List.mem_append.mp member with old | new
      · exact open' cmd old
      · rw [List.mem_singleton.mp new]
        exact asks

theorem answered_take {usage : Usage} (answered : Answered session)
    (taken : session.step (.take usage) = some next) : Answered next := by
  obtain ⟨text, commands, sentBack, computed, stands⟩ := answered
  obtain ⟨phase, same⟩ := Option.ite_none_right_eq_some.mp taken
  cases same
  refine ⟨text, ?_⟩
  cases stands with
  | taking held _ open' all rest text_held ready =>
    rcases cases_run held with free | ⟨run, seps, later, cut, free, cuts, some_sep, stops⟩
    · obtain ⟨reply, same_values, stands⟩ := answered_none ready free open' all rest
      refine ⟨commands, ?_, same_values.trans computed, stands⟩
      show session.sentBack ++ (session.server.take usage).2 = _
      rw [reply, List.append_nil, sentBack]
    · obtain ⟨reply, more_values, stands⟩ :=
        answered_line ready text_held cut free cuts some_sep stops open' all rest
      refine ⟨commands ++ [(run, usage)], ?_, ?_, ?_⟩
      · show session.sentBack ++ (session.server.take usage).2 = _
        rw [reply, sentBack, replies_concat]
      · rw [values_concat, ← computed]
        exact more_values
      · rw [List.map_append]
        exact stands
  | reading other | left _ _ other | full other =>
    rw [phase] at other
    cases other

/-- **Every step keeps what has been answered.** -/
theorem answered_step (input : Input) (answered : Answered session) (sends : SendsText session input)
    (taken : session.step input = some next) : Answered next := by
  cases input with
  | send bytes => exact answered_send answered sends taken
  | recv count => exact answered_recv answered taken
  | take usage => exact answered_take answered taken

end Steps

/-! ### Every session -/

/-- What the client has been told in a session: the replies to the first of the lines that the server has
found, to all of them where it waits for more, and to no line behind one that asks to close. But for blank
lines, which a read that begins with a newline gives, the lines are those of the input. -/
structure Served (session : Session) (commands : List (Bytes × Usage)) : Prop where
  found : session.lines.filter (fun line => !line.isEmpty) = segments isNewline session.reads.flatten
  sentBack : session.sentBack = replies commands
  computed : session.server.computed = values commands
  some_part : commands.map Prod.fst <+: session.lines
  one_end : ∀ cmd ∈ (commands.map Prod.fst).dropLast, closes cmd = false
  waits : session.server.phase = .reading → commands.map Prod.fst = session.lines ∧
    session.pending.length < readBufLen
  closed : session.server.phase = .closed → (∃ cmd ∈ commands.map Prod.fst, closes cmd = true) ∨
    commands.map Prod.fst = session.lines ∧ session.pending.length = readBufLen

end Session

end Apib.Monitor
