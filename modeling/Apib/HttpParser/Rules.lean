/-
**Rules for what the parser does with bytes.**

`Goes P bytes Q`: in a header state of which `P` holds, the parser takes the bytes and goes on in one of
which `Q` holds, having counted them; or they are more than it lets a header have, and it fails. The
rules put such steps together. `Reads` is the usual property: the state, and what the parser knows that
says where the message ends.

* `Goes.byte`, `Goes.append`, `Goes.each`: one byte, bytes after bytes, and a loop;
* `failed_append`, `silent_append`: a failure stays, and no answer before it is given.
-/

import Apib.HttpParser.Reader

namespace Apib.Parse

open ByteMachine HttpParser

/-! ### What says where a message ends -/

/-- What the parser knows of a message, as far as it says where the message ends. -/
structure Framing where
  statusCode : Nat
  hasLength : Bool := false
  contentLength : Nat := ullongMax
  transferEncoding : Bool := false
  chunked : Bool := false
  trailing : Bool := false
  deriving DecidableEq, Repr

def framing (r : Parse) : Framing where
  statusCode := r.parser.statusCode
  hasLength := r.parser.flags.contentLength
  contentLength := r.parser.contentLength
  transferEncoding := r.parser.flags.transferEncoding
  chunked := r.parser.flags.chunked
  trailing := r.parser.flags.trailing

/-- No callback has asked to skip the body, and the message is no upgrade. -/
def Ordinary (r : Parse) : Prop := r.parser.flags.skipbody = false ∧ r.parser.upgrade = false

/-- The parser is inside a message. -/
structure Inside (f : Framing) (r : Parse) : Prop where
  framing_eq : r.framing = f
  clean : r.parser.errno = .ok
  unfinished : r.complete = false
  ordinary : r.Ordinary

/-- The parser is inside a message, in this state. -/
structure Reads (state : State) (f : Framing) (r : Parse) : Prop extends Inside f r where
  state_eq : r.parser.state = state

theorem Inside.silent {f : Framing} {r : Parse} (inside : Inside f r) : r.response = none :=
  response_eq_none.mpr ⟨inside.clean, inside.unfinished⟩

theorem Inside.counted {f : Framing} {r : Parse} (inside : Inside f r) (n : Nat) :
    Inside f { r with parser.nread := n } :=
  ⟨inside.framing_eq, inside.clean, inside.unfinished, inside.ordinary⟩

/-- The parser with another count of header bytes. -/
def counted (r : Parse) (n : Nat) : Parse := { r with parser.nread := n }

/-! ### Steps -/

section Rules

variable {strict : Bool} {P Q R : Parse → Prop} {b : UInt8} {first second bytes : Bytes}

/-- One byte leads from a header state of which `P` holds to one of which `Q` holds, whatever the count
of header bytes. -/
def Steps (strict : Bool) (P : Parse → Prop) (b : UInt8) (Q : Parse → Prop) : Prop :=
  ∀ r, P r → r.parser.state.parsingHeader = true ∧
    ∀ n, ∃ next, (r.counted n).onByte strict b = .more next ∧ Q next ∧ next.parser.nread = n

/-- Some bytes lead from `P` to `Q`, and are counted; or they are too many. -/
def Goes (strict : Bool) (P : Parse → Prop) (bytes : Bytes) (Q : Parse → Prop) : Prop :=
  ∀ r, P r → r.parser.nread ≤ maxHeaderSize →
    if r.parser.nread + bytes.length ≤ maxHeaderSize then
      ∃ next, feed (stepByte strict) r bytes = ⟨next, [], false⟩ ∧ Q next ∧
        next.parser.nread = r.parser.nread + bytes.length
    else (feed (stepByte strict) r bytes).state.parser.errno ≠ .ok

theorem Goes.nil : Goes strict P [] P := by
  intro r holds within
  rw [List.length_nil, if_pos (by omega)]
  exact ⟨r, rfl, holds, rfl⟩

theorem Goes.weaken (goes : Goes strict P bytes Q) (weaker : ∀ r, Q r → R r) : Goes strict P bytes R := by
  intro r holds within
  have here := goes r holds within
  split at here
  · next fits =>
    obtain ⟨next, fed, there, count⟩ := here
    rw [if_pos fits]
    exact ⟨next, fed, weaker next there, count⟩
  · next large =>
    rw [if_neg large]
    exact here

theorem Goes.strengthen (goes : Goes strict Q bytes R) (stronger : ∀ r, P r → Q r) :
    Goes strict P bytes R :=
  fun r holds within => goes r (stronger r holds) within

/-- **One byte.** -/
theorem Goes.byte (steps : Steps strict P b Q) : Goes strict P [b] Q := by
  intro r holds within
  obtain ⟨header, steps⟩ := steps r holds
  obtain ⟨next, taken, there, count⟩ := steps (r.parser.nread + 1)
  rw [List.length_singleton]
  split
  · next fits =>
    have step : r.stepByte strict b = .more next := by
      rw [stepByte, if_pos header]
      exact (if_neg (Nat.not_lt.mpr fits)).trans taken
    exact ⟨next, by rw [feed, step]; rfl, there, count⟩
  · next large =>
    have step : r.stepByte strict b = .stop
        { r.counted (r.parser.nread + 1) with parser.errno := .headerOverflow } false := by
      rw [stepByte, if_pos header]
      exact if_pos (Nat.lt_of_not_le large)
    rw [feed, step]
    exact fun same => by cases same

/-- A failure stays a failure. -/
theorem failed_append {r : Parse} (clean : r.parser.errno = .ok)
    (failed : (feed (stepByte strict) r first).state.parser.errno ≠ .ok) (second : Bytes) :
    (feed (stepByte strict) r (first ++ second)).state.parser.errno ≠ .ok := by
  have stopped : (feed (stepByte strict) r first).stopped = true := by
    by_contra running
    rw [feed_errno_of_running (Bool.eq_false_iff.mpr running)] at failed
    exact failed clean
  rw [feed_append, stopped]
  exact failed

/-- Bytes that are taken go before others. -/
theorem feed_taken {r next : Parse} (taken : feed (stepByte strict) r first = ⟨next, [], false⟩)
    (second : Bytes) : feed (stepByte strict) r (first ++ second) = feed (stepByte strict) next second := by
  rw [feed_append, taken]
  rfl

/-- **Bytes after bytes.** -/
theorem Goes.append (before : Goes strict P first Q) (clean : ∀ r, P r → r.parser.errno = .ok)
    (after : Goes strict Q second R) : Goes strict P (first ++ second) R := by
  intro r holds within
  have here := before r holds within
  rw [List.length_append]
  by_cases fits : r.parser.nread + first.length ≤ maxHeaderSize
  · rw [if_pos fits] at here
    obtain ⟨middle, taken, there, count⟩ := here
    have later := after middle there (by omega)
    rw [feed_taken taken]
    rwa [count, Nat.add_assoc] at later
  · rw [if_neg fits] at here
    rw [if_neg (by omega)]
    exact failed_append (clean r holds) here second

/-- One byte, and then bytes. -/
theorem Goes.cons (clean : ∀ r, P r → r.parser.errno = .ok) (steps : Steps strict P b Q)
    (rest : Goes strict Q bytes R) : Goes strict P (b :: bytes) R :=
  (Goes.byte steps).append clean rest

/-- **The last byte of a line**, for a parser that starts to count. -/
theorem Goes.last {r : Parse} (goes : Goes strict P bytes Q) (holds : P r) (none_yet : r.parser.nread = 0)
    (clean : r.parser.errno = .ok) (header : ∀ r, Q r → r.parser.state.parsingHeader = true) (b : UInt8) :
    if (bytes ++ [b]).length ≤ maxHeaderSize then
      ∃ next, feed (stepByte strict) r bytes = ⟨next, [], false⟩ ∧ Q next ∧
        next.stepByte strict b = (next.counted (bytes ++ [b]).length).onByte strict b
    else (feed (stepByte strict) r (bytes ++ [b])).state.parser.errno ≠ .ok := by
  have here := goes r holds (by omega)
  rw [none_yet, Nat.zero_add] at here
  rw [List.length_append, List.length_singleton]
  by_cases fits : bytes.length ≤ maxHeaderSize
  · rw [if_pos fits] at here
    obtain ⟨next, taken, there, count⟩ := here
    have counts : next.stepByte strict b = if bytes.length + 1 > maxHeaderSize then
        (next.counted (bytes.length + 1)).fail .headerOverflow
        else (next.counted (bytes.length + 1)).onByte strict b := by
      rw [stepByte, if_pos (header next there), count]
      rfl
    split
    · next fits => exact ⟨next, taken, there, counts.trans (if_neg (Nat.not_lt.mpr fits))⟩
    · next large =>
      rw [feed_taken taken, feed, counts, if_pos (Nat.lt_of_not_le large)]
      exact fun same => by cases same
  · rw [if_neg fits] at here
    rw [if_neg (by omega)]
    exact failed_append clean here [b]

/-- **A loop.** -/
theorem Goes.each (clean : ∀ r, P r → r.parser.errno = .ok)
    (steps : ∀ b ∈ bytes, Steps strict P b P) : Goes strict P bytes P := by
  induction bytes with
  | nil => exact .nil
  | cons b bytes ih =>
    have first : Goes strict P [b] P := .byte (steps b List.mem_cons_self)
    exact first.append clean (ih fun other member => steps other (List.mem_cons_of_mem _ member))

/-- **One byte between states**, where the step of the parser takes no note of the count. -/
theorem Steps.reads {state next : State} {f g : Framing} (header : state.parsingHeader = true)
    (step : ∀ r, Reads state f r →
      ∃ last, r.onByte strict b = .more last ∧ Reads next g last ∧ last.parser.nread = r.parser.nread) :
    Steps strict (Reads state f) b (Reads next g) := by
  intro r reads
  rw [reads.state_eq]
  exact ⟨header, fun n => step (r.counted n) ⟨reads.toInside.counted n, reads.state_eq⟩⟩

end Rules

end Apib.Parse
