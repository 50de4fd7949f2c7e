/-
**Splitting a stream into lines.**

The loop that every caller of a `LineState` runs: read, take lines while `next` gives one, `consume`.
A read gives at least one byte and at most as many as were asked for, that is the space left in the
buffer; the cutting of the stream into reads is otherwise free.

* `turn_spec`: one read gives the runs of what was pending and the new bytes together, and keeps
  what is unfinished.
* `reading_isSome_iff`: a cutting can be read exactly when each read fits behind what is unfinished.
* `split_sound`: **the lines are those of the stream**, for every cutting, exactly when no read
  begins with a newline while nothing is unfinished; and `consume` answers false exactly when an
  unterminated line fills the buffer.
-/

import Apib.Library.Segments
import Apib.Lines.LineState

namespace Apib.Lines

open Segments LineState

/-- The loop over `next` and `line`, for a number of turns. -/
def takeLines : Nat → LineState → List Bytes × LineState
  | 0, s => ([], s)
  | turns + 1, s =>
    match s.next with
    | (false, s) => ([], s)
    | (true, s) =>
      let (lines, last) := takeLines turns s
      (s.line :: lines, last)

/-- What one read comes to: the lines taken and what `consume` answers. -/
structure Turn where
  lines : List Bytes
  consumed : Bool
  deriving DecidableEq, Repr

/-- One read of the callers' loop. -/
def turn (s : LineState) (chunk : Bytes) : Turn × LineState :=
  let filled := (s.readFd (.bytes chunk)).2
  let (lines, drained) := takeLines (filled.left + 1) filled
  let (consumed, next) := drained.consume
  (⟨lines, consumed⟩, next)

/-- Can one read give these bytes? -/
def Fits (s : LineState) (chunk : Bytes) : Prop := chunk ≠ [] ∧ chunk.length ≤ s.remaining

instance (s : LineState) (chunk : Bytes) : Decidable (Fits s chunk) :=
  inferInstanceAs (Decidable (_ ∧ _))

/-- The callers' loop, for the bytes of each read. -/
def reading : LineState → List Bytes → Option (List Turn)
  | _, [] => some []
  | s, chunk :: later =>
    if Fits s chunk then (reading (turn s chunk).2 later).map ((turn s chunk).1 :: ·) else none

/-! ### Taking the lines of a full buffer -/

/-- A buffer of a size from which lines are being taken, with the bytes ahead. -/
structure Ready (size : Nat) (rest : Bytes) (s : LineState) : Prop where
  plain : s.httpMode = false
  started : s.lineEnd = 0 → s.lineStart = 0
  order : InOrder s
  size_eq : s.buf.length = size
  ahead_eq : s.ahead = rest

/-- A buffer of a size when `next` has given no line, with the bytes of the line that is not
complete. -/
structure Drained (size : Nat) (pending : Bytes) (s : LineState) : Prop where
  incomplete : s.lineComplete = false
  plain : s.httpMode = false
  size_eq : s.buf.length = size
  start : s.lineStart ≤ s.bufLen
  inside : s.bufLen ≤ size
  pending_eq : (s.buf.take s.bufLen.toNat).drop s.lineStart = pending

section Ready

variable {size : Nat} {rest : Bytes} {s : LineState} (ready : Ready size rest s)
include ready

/-- With no newline ahead, `next` gives no line and leaves everything. -/
theorem Ready.next_none (free : ∀ c ∈ rest, isNewline c = false) :
    s.next.1 = false ∧ Drained size rest s.next.2 := by
  have ended := LineState.next_none ready.order ready.started
    (by rwa [ready.ahead_eq])
  rw [ended]
  refine ⟨rfl, rfl, ready.plain, ready.size_eq, ready.order.reached, ?_, ready.ahead_eq⟩
  rw [← ready.size_eq]
  exact ready.order.inside

section Cut

variable {run seps later : Bytes} (cut : rest = run ++ (seps ++ later))
variable (free : ∀ c ∈ run, isNewline c = false) (cuts : ∀ c ∈ seps, isNewline c = true)
variable (some_sep : seps ≠ []) (stops : leads isNewline later = false)
include cut free cuts some_sep stops

/-- With a run, newlines and then something else ahead, `next` cuts the run off. -/
theorem Ready.next_cut :
    s.next = (true, s.cutAt run.length seps.length) ∧ Ready size later s.next.2 ∧
      s.next.2.left < s.left := by
  have stops_head : ∀ c ∈ later.head?, isNewline c = false := by
    cases later with
    | nil => simp
    | cons first others => simpa [leads] using stops
  have order := ready.order
  have cut_ahead := ready.ahead_eq.trans cut
  have some_length : 0 < seps.length := List.length_pos_iff.mpr some_sep
  have total := cut_length order cut_ahead
  have given :=
    LineState.next_some order ready.started cut_ahead ready.plain free cuts some_sep stops_head
  rw [given]
  refine ⟨rfl, ⟨ready.plain, ?_, cutAt_order order cut_ahead, ?_, cutAt_ahead order cut_ahead⟩, ?_⟩
  · intro zero
    simp only [cutAt] at zero
    omega
  · rw [cutAt_size order cut_ahead, ready.size_eq]
  · simp only [left, cutAt]
    omega

/-- The run is the line. -/
theorem Ready.next_some (text : 0 ∉ run) :
    s.next.1 = true ∧ s.next.2.line = run ∧ Ready size later s.next.2 ∧
      s.next.2.left < s.left := by
  obtain ⟨given, ready_later, shorter⟩ := ready.next_cut cut free cuts some_sep stops
  refine ⟨by rw [given], ?_, ready_later, shorter⟩
  rw [given]
  apply cutAt_line ready.order (ready.ahead_eq.trans cut) _ some_sep
  rintro c member rfl
  exact text member

end Cut

end Ready

/-- **The loop takes the runs ahead**, and ends with `next` giving no line. -/
theorem takeLines_spec (turns : Nat) {size : Nat} {rest : Bytes} {s : LineState}
    (ready : Ready size rest s) (text : 0 ∉ rest) (enough : s.left < turns) :
    (takeLines turns s).1 = runs isNewline rest ∧
      Drained size (unfinished isNewline rest) (takeLines turns s).2 := by
  induction turns generalizing s rest with
  | zero => exact absurd enough (Nat.not_lt_zero _)
  | succ turns ih =>
    rcases cases_run rest with free | ⟨run, seps, later, cut, free, cuts, some_sep, stops⟩
    · obtain ⟨ended, drained⟩ := ready.next_none free
      rw [takeLines, runs_of_free free, unfinished_of_free free]
      generalize s.next = result at ended drained
      obtain ⟨given, t⟩ := result
      subst ended
      exact ⟨rfl, drained⟩
    · have text_run : 0 ∉ run := fun member => text (by rw [cut]; simp [member])
      have text_later : 0 ∉ later := fun member => text (by rw [cut]; simp [member])
      obtain ⟨given, line, ready_later, shorter⟩ :=
        ready.next_some cut free cuts some_sep stops text_run
      rw [takeLines, cut, runs_run free cuts some_sep stops, unfinished_cut later free cuts some_sep]
      generalize s.next = result at given line ready_later shorter
      obtain ⟨given, t⟩ := result
      subst given
      obtain ⟨lines, drained⟩ := ih ready_later text_later (by omega)
      exact ⟨by simp only [line, lines], drained⟩

/-! ### One read -/

/-- A buffer of a size between two reads, with the bytes it has kept. -/
structure Holding (size : Nat) (pending : Bytes) (s : LineState) : Prop where
  plain : s.httpMode = false
  start : s.lineStart = 0
  at_start : s.lineEnd = 0
  size_eq : s.buf.length = size
  fill : s.bufLen = pending.length
  kept : s.buf.take pending.length = pending

theorem holding_new (memory : Bytes) : Holding memory.length [] (LineState.new memory) :=
  ⟨rfl, rfl, rfl, rfl, rfl, rfl⟩

/-- **`consume` keeps the line that is not complete**, and answers whether there is room left. -/
theorem Drained.consume {size : Nat} {pending : Bytes} {s : LineState}
    (drained : Drained size pending s) :
    Holding size pending s.consume.2 ∧ (s.consume.1 = false ↔ pending.length = size) := by
  have pending_eq := drained.pending_eq
  have start := drained.start
  have inside := drained.inside
  have size_eq := drained.size_eq
  have count : s.bufLen - s.lineStart = pending.length := by
    have total := congrArg List.length pending_eq
    simp only [List.length_drop, List.length_take] at total
    omega
  have kept : (s.buf.drop s.lineStart).take pending.length = pending := by
    rw [List.drop_take] at pending_eq
    rw [← pending_eq, List.length_take, List.length_drop, Nat.min_eq_left (by omega)]
  refine ⟨⟨drained.plain, rfl, rfl, ?_, ?_, ?_⟩, ?_⟩
  · simp only [LineState.consume, drained.incomplete, Bool.false_eq_true, if_false, count, moved,
      Int.toNat_natCast, kept, List.length_append, List.length_drop]
    omega
  · simp only [LineState.consume, drained.incomplete, Bool.false_eq_true, if_false, count]
  · simp only [LineState.consume, drained.incomplete, Bool.false_eq_true, if_false, count, moved,
      Int.toNat_natCast, kept]
    rw [List.take_left]
  · simp only [LineState.consume, drained.incomplete, Bool.false_eq_true, if_false, count, size_eq,
      decide_eq_false_iff_not]
    omega

section Holding

variable {size : Nat} {pending : Bytes} {s : LineState} (holding : Holding size pending s)
include holding

theorem Holding.within : pending.length ≤ size := by
  have total := congrArg List.length holding.kept
  rw [List.length_take, holding.size_eq] at total
  omega

theorem Holding.ready : Ready size pending s := by
  have within := holding.within
  have fill := holding.fill
  have size_eq := holding.size_eq
  have at_start := holding.at_start
  refine ⟨holding.plain, fun _ => holding.start, ⟨by omega, by omega⟩, size_eq, ?_⟩
  simp [ahead, at_start, fill, holding.kept]

theorem fits_iff (chunk : Bytes) :
    Fits s chunk ↔ chunk ≠ [] ∧ pending.length + chunk.length ≤ size := by
  have size_eq := holding.size_eq
  have fill := holding.fill
  unfold Fits remaining
  constructor
  · rintro ⟨some_byte, fits⟩
    exact ⟨some_byte, by omega⟩
  · rintro ⟨some_byte, fits⟩
    exact ⟨some_byte, by omega⟩

/-- **Bytes that fit are put behind those that were kept.** -/
theorem Holding.filled {chunk : Bytes} (room : pending.length + chunk.length ≤ size) :
    Holding size (pending ++ chunk) (s.filled chunk) := by
  have size_eq := holding.size_eq
  refine ⟨holding.plain, holding.start, holding.at_start, ?_, ?_, ?_⟩
  · simp only [LineState.filled, holding.fill, Int.toNat_natCast, holding.kept]
    simp only [List.length_append, List.length_drop]
    omega
  · simp [LineState.filled, holding.fill]
  · simp only [LineState.filled, holding.fill, Int.toNat_natCast, holding.kept]
    rw [List.take_left]

/-- A read puts its bytes behind those that were kept. -/
theorem Holding.readFd {chunk : Bytes} (fits : Fits s chunk) :
    Holding size (pending ++ chunk) (s.readFd (.bytes chunk)).2 := by
  obtain ⟨some_byte, room⟩ := (fits_iff holding chunk).mp fits
  obtain ⟨first, others, rfl⟩ := List.exists_cons_of_ne_nil some_byte
  exact holding.filled room

/-- **One read** gives the runs of what was pending and the new bytes together. -/
theorem turn_spec {chunk : Bytes} (fits : Fits s chunk) (text : 0 ∉ pending ++ chunk) :
    (turn s chunk).1.lines = runs isNewline (pending ++ chunk) ∧
      ((turn s chunk).1.consumed = false ↔
        (unfinished isNewline (pending ++ chunk)).length = size) ∧
      Holding size (unfinished isNewline (pending ++ chunk)) (turn s chunk).2 := by
  obtain ⟨lines, drained⟩ := takeLines_spec ((s.readFd (.bytes chunk)).2.left + 1)
    (holding.readFd fits).ready text (Nat.lt_succ_self _)
  obtain ⟨held, answer⟩ := drained.consume
  exact ⟨lines, answer, held⟩

end Holding

/-! ### The whole stream -/

/-- What `consume` answers after each read: false when what is unfinished fills the buffer. -/
def Answers (size : Nat) (pending : Bytes) (chunks : List Bytes) (turns : List Turn) : Prop :=
  ∀ i turn, turns[i]? = some turn → (turn.consumed = false ↔
    (unfinished isNewline (pending ++ (chunks.take (i + 1)).flatten)).length = size)

theorem text_unfinished {first second : Bytes} (text : 0 ∉ first ++ second) :
    0 ∉ unfinished isNewline first ++ second := by
  intro member
  rcases List.mem_append.mp member with early | late
  · exact text (List.mem_append_left _ ((unfinished_suffix first).subset early))
  · exact text (List.mem_append_right _ late)

/-- **The loop** takes the runs of the pieces, and `consume` answers whether there is room. -/
theorem reading_spec {size : Nat} {pending : Bytes} {s : LineState} (holding : Holding size pending s)
    {chunks : List Bytes} {turns : List Turn} (ran : reading s chunks = some turns)
    (text : 0 ∉ pending ++ chunks.flatten) :
    turns.flatMap Turn.lines = taking isNewline pending chunks ∧
      Answers size pending chunks turns := by
  induction chunks generalizing pending s turns with
  | nil =>
    obtain rfl := Option.some.inj ran
    exact ⟨rfl, by simp [Answers]⟩
  | cons chunk later ih =>
    rw [reading] at ran
    split at ran
    case isFalse => cases ran
    case isTrue fits =>
      obtain ⟨others, ran_later, rfl⟩ := Option.map_eq_some_iff.mp ran
      rw [List.flatten_cons, ← List.append_assoc] at text
      obtain ⟨lines, answer, held⟩ :=
        turn_spec holding fits fun member => text (List.mem_append_left _ member)
      obtain ⟨lines_later, answers_later⟩ := ih held ran_later (text_unfinished text)
      refine ⟨?_, ?_⟩
      · rw [List.flatMap_cons, lines, lines_later, taking]
      · intro i turn here
        cases i with
        | zero =>
          obtain rfl := Option.some.inj here
          simpa using answer
        | succ i =>
          rw [answers_later i turn here, List.take_succ_cons, List.flatten_cons, ← List.append_assoc,
            unfinished_append (pending ++ chunk)]

/-- **A cutting can be read** exactly when each read gives something and fits behind what is
unfinished. -/
theorem reading_isSome_iff {size : Nat} {pending : Bytes} {s : LineState}
    (holding : Holding size pending s) {chunks : List Bytes} (text : 0 ∉ pending ++ chunks.flatten)
    (free : ∀ c ∈ pending, isNewline c = false) :
    (reading s chunks).isSome ↔
      ∀ before chunk later, chunks = before ++ chunk :: later → chunk ≠ [] ∧
        (unfinished isNewline (pending ++ before.flatten)).length + chunk.length ≤ size := by
  induction chunks generalizing pending s with
  | nil => simp [reading]
  | cons chunk later ih =>
    rw [List.flatten_cons, ← List.append_assoc] at text
    rw [reading]
    constructor
    · intro read before other others cut
      split at read
      case isFalse => cases read
      case isTrue fits =>
        rw [Option.isSome_map] at read
        cases before with
        | nil =>
          obtain ⟨rfl, -⟩ := List.cons.inj cut
          simpa [unfinished_of_free free] using (fits_iff holding chunk).mp fits
        | cons first before =>
          obtain ⟨rfl, cut_later⟩ := List.cons.inj cut
          obtain ⟨-, -, held⟩ :=
            turn_spec holding fits fun member => text (List.mem_append_left _ member)
          have rest := (ih held (text_unfinished text) (unfinished_free _)).mp read before other others
            cut_later
          rwa [List.flatten_cons, ← List.append_assoc, unfinished_append]
    · intro each
      have fits : Fits s chunk := by
        apply (fits_iff holding chunk).mpr
        simpa [unfinished_of_free free] using each [] chunk later rfl
      obtain ⟨-, -, held⟩ :=
        turn_spec holding fits fun member => text (List.mem_append_left _ member)
      rw [if_pos fits, Option.isSome_map]
      apply (ih held (text_unfinished text) (unfinished_free _)).mpr
      intro before other others cut
      have here := each (chunk :: before) other others (by rw [cut]; rfl)
      rwa [List.flatten_cons, ← List.append_assoc, unfinished_append] at here

/-- **Lines do not depend on the cutting**, exactly when no read begins with a newline while nothing
is unfinished: the callers' loop then takes the non-empty runs of other bytes that a newline
follows, in order and each once. -/
theorem split_sound (memory : Bytes) (chunks : List Bytes) (turns : List Turn)
    (ran : reading (LineState.new memory) chunks = some turns) (text : 0 ∉ chunks.flatten) :
    (turns.flatMap Turn.lines = segments isNewline chunks.flatten ↔
      ∀ before chunk later, chunks = before ++ chunk :: later → leads isNewline chunk = true →
        unfinished isNewline before.flatten ≠ []) ∧
    ∀ i turn, turns[i]? = some turn → (turn.consumed = false ↔
      (unfinished isNewline (chunks.take (i + 1)).flatten).length = memory.length) := by
  obtain ⟨lines, answers⟩ := reading_spec (holding_new memory) ran text
  rw [lines]
  exact ⟨taking_iff chunks, answers⟩

/-- A line and a half, and the rest. -/
theorem split_sound_example :
    ([ascii "Line one", ascii "Line two", ascii "Last"] =
        segments isNewline (ascii "Line one\nLine two\r\n\r\nLast\n") ↔
      ∀ before chunk later, [ascii "Line one\nLin", ascii "e two\r\n\r\nLast\n"] =
        before ++ chunk :: later → leads isNewline chunk = true →
          unfinished isNewline before.flatten ≠ []) := by
  have ran : reading (LineState.new (List.replicate 20 0))
      [ascii "Line one\nLin", ascii "e two\r\n\r\nLast\n"] =
      some [⟨[ascii "Line one"], true⟩, ⟨[ascii "Line two", ascii "Last"], true⟩] := by decide
  exact (split_sound _ _ _ ran (by decide)).1

/-- **A CRLF cut in two** gives a blank line. -/
theorem split_blank :
    reading (LineState.new (List.replicate 8 0)) [ascii "a\r", ascii "\nb\n"] =
        some [⟨[ascii "a"], true⟩, ⟨[[], ascii "b"], true⟩] ∧
      [ascii "a", [], ascii "b"] ≠ segments isNewline (ascii "a\r\nb\n") := by
  decide

end Apib.Lines
