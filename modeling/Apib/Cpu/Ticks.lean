/-
**Reading the ticks of the CPUs.**

`getTicks` of `apib_cpu_proc.cc`. `/proc/stat` is read once, into a `LineState` of 8192 bytes; the first
line that begins with `cpu ` and a space has the sums over all CPUs, and its columns are counted as idle
or not by their position.

* Counts are of type `int64_t`; adding to them is taken to wrap around. `absl::SimpleAtoi` is a
  parameter, and that it reads decimal numbers is what `ReadsDecimal` says.
* `getTicks_fails`: without an aggregate line there are no ticks;
* `getTicks_gives`: **with one, the ticks are the sums of its columns**, idle and not.
-/

import Apib.Library.Numerals
import Apib.Lines.Tokens
import Apib.Reporting.Results

namespace Apib.Cpu

open Segments Lines LineState Numerals

/-- The constant `PROC_BUF_LEN`. -/
def procBufLen : Nat := 8192

/-- The delimiters `" \t"`. -/
def blanks : Bytes := ascii " \t"

/-- Is the byte a space or a tab? -/
def isBlank (c : UInt8) : Bool := isChar c blanks

/-- Does a line begin with `"cpu "`? -/
def isAggregate (line : Bytes) : Bool := line.take 4 == ascii "cpu "

/-- A column of idle time, time spent waiting for I/O, or time stolen. -/
def isIdle (i : Nat) : Bool := i == 3 || i == 4 || i == 7

/-- `i`, `idleCount` and `nonIdleCount`, while columns are read. -/
structure Columns where
  i : Nat := 0
  idleCount : Int := 0
  nonIdleCount : Int := 0
  deriving DecidableEq, Repr

/-- The `switch` on the position of a column. -/
def Columns.count (n : Columns) (c : Int) : Columns :=
  if isIdle n.i then { n with idleCount := int64 (n.idleCount + c), i := n.i + 1 }
  else { n with nonIdleCount := int64 (n.nonIdleCount + c), i := n.i + 1 }

section GetTicks

variable (simpleAtoi : Bytes → Option Int)

/-- The loop over the tokens, for a number of turns. What is no number is passed over. -/
def readColumns : Nat → LineState → Columns → Columns
  | 0, _, n => n
  | turns + 1, line, n =>
    match line.nextToken blanks with
    | ([], _) => n
    | (tok, line) =>
      match simpleAtoi tok with
      | none => readColumns turns line n
      | some c => readColumns turns line (n.count c)

/-- The counts of a line: the first token is dropped. -/
def countLine (line : LineState) : Columns :=
  let line := (line.nextToken blanks).2
  readColumns simpleAtoi (line.tokensLeft + 1) line {}

/-- The loop over `next` in `getTicks`, for a number of turns. -/
def findTicks : Nat → LineState → Option Columns
  | 0, _ => none
  | turns + 1, line =>
    match line.next with
    | (false, _) => none
    | (true, line) => if isAggregate line.line then some (countLine simpleAtoi line) else findTicks turns line

/-- The function `getTicks`, for what `malloc` gives and the file, if it can be opened. -/
def getTicks (memory : Vector UInt8 procBufLen) (stat : Option Bytes) : Option Columns :=
  match stat with
  | none => none
  | some content =>
    let line := LineState.new memory.toList
    let (rc, line) := line.readStream (content.take line.remaining.toNat)
    if rc < 0 then none else findTicks simpleAtoi (line.left + 1) line

end GetTicks

/-! ### What a reading shows -/

/-- The first complete line with the sums, among the bytes that are read. -/
def aggregate (content : Bytes) : Option Bytes :=
  (segments isNewline (content.take procBufLen)).find? isAggregate

/-- A text of decimal digits. -/
def IsDecimal (text : Bytes) : Prop := ∀ c ∈ text, (digitOf 10 c).isSome

instance (text : Bytes) : Decidable (IsDecimal text) := inferInstanceAs (Decidable (∀ c ∈ text, _))

/-- A line is the name `cpu` and decimal columns, apart by blanks. -/
def HasColumns (line : Bytes) (columns : List Nat) : Prop :=
  ∃ texts, words isBlank line = ascii "cpu" :: texts ∧ (∀ text ∈ texts, IsDecimal text) ∧
    columns = texts.map (number 10)

/-- The columns, from a position on, that count as idle. -/
def idleFrom (i : Nat) (columns : List Nat) : Nat :=
  (((columns.zipIdx i).filter fun c => isIdle c.2).map Prod.fst).sum

/-- The columns, from a position on, that do not count as idle. -/
def busyFrom (i : Nat) (columns : List Nat) : Nat :=
  (((columns.zipIdx i).filter fun c => !isIdle c.2).map Prod.fst).sum

/-- `absl::SimpleAtoi` reads what is a decimal number of type `int64_t`. -/
def ReadsDecimal (simpleAtoi : Bytes → Option Int) : Prop :=
  ∀ text, text ≠ [] → IsDecimal text → number 10 text < 2 ^ 63 → simpleAtoi text = some (number 10 text)

theorem isDecimal_of_all {texts : List Bytes}
    (each : (texts.all fun text => text.all fun c => (digitOf 10 c).isSome) = true) :
    ∀ text ∈ texts, IsDecimal text := by
  intro text among c member
  exact List.all_eq_true.mp (List.all_eq_true.mp each text among) c member

theorem idleFrom_cons (i c : Nat) (columns : List Nat) :
    idleFrom i (c :: columns) = (if isIdle i then c else 0) + idleFrom (i + 1) columns := by
  unfold idleFrom
  rw [List.zipIdx_cons]
  by_cases idle : isIdle i = true
  · simp [idle]
  · simp [idle]

theorem busyFrom_cons (i c : Nat) (columns : List Nat) :
    busyFrom i (c :: columns) = (if isIdle i then 0 else c) + busyFrom (i + 1) columns := by
  unfold busyFrom
  rw [List.zipIdx_cons]
  by_cases idle : isIdle i = true
  · simp [idle]
  · simp [idle]

/-- **Every column counts once.** -/
theorem idleFrom_add_busyFrom (i : Nat) (columns : List Nat) :
    idleFrom i columns + busyFrom i columns = columns.sum := by
  induction columns generalizing i with
  | nil => rfl
  | cons c columns ih =>
    have later := ih (i + 1)
    rw [idleFrom_cons, busyFrom_cons, List.sum_cons]
    split
    · omega
    · omega

/-! ### The columns of a line -/

theorem int64_add {m n : Nat} (few : m + n < 2 ^ 63) :
    int64 ((m : Int) + Int.ofNat n) = (m + n : Nat) := by
  rw [Int.ofNat_eq_natCast, ← Int.natCast_add]
  exact Int.bmod_eq_of_le (by omega) (by omega)

/-- **Counting columns** adds each to the side of its position. -/
theorem foldl_count (i idle busy : Nat) (columns : List Nat)
    (fits : idle + busy + columns.sum < 2 ^ 63) :
    (columns.map Int.ofNat).foldl Columns.count ⟨i, idle, busy⟩ =
      ⟨i + columns.length, (idle + idleFrom i columns : Nat), (busy + busyFrom i columns : Nat)⟩ := by
  induction columns generalizing i idle busy with
  | nil => rfl
  | cons c columns ih =>
    rw [List.sum_cons] at fits
    rw [List.map_cons, List.foldl_cons, idleFrom_cons, busyFrom_cons]
    by_cases at_idle : isIdle i = true
    · have first : Columns.count ⟨i, idle, busy⟩ (Int.ofNat c) = ⟨i + 1, (idle + c : Nat), busy⟩ := by
        rw [Columns.count, if_pos at_idle, int64_add (by omega)]
      rw [first, ih (i + 1) (idle + c) busy (by omega), if_pos at_idle, if_pos at_idle]
      congr 1
      · simp only [List.length_cons]
        omega
      · omega
      · omega
    · have first : Columns.count ⟨i, idle, busy⟩ (Int.ofNat c) = ⟨i + 1, idle, (busy + c : Nat)⟩ := by
        rw [Columns.count, if_neg at_idle, int64_add (by omega)]
      rw [first, ih (i + 1) idle (busy + c) (by omega), if_neg at_idle, if_neg at_idle]
      congr 1
      · simp only [List.length_cons]
        omega
      · omega
      · omega

section Reading

variable {simpleAtoi : Bytes → Option Int}

/-- The loop counts the tokens that are numbers. -/
theorem readColumns_eq (turns : Nat) (line : LineState) (n : Columns) :
    readColumns simpleAtoi turns line n =
      ((takeTokens blanks turns line).filterMap simpleAtoi).foldl Columns.count n := by
  induction turns generalizing line n with
  | zero => rfl
  | succ turns ih =>
    rw [readColumns, takeTokens]
    rcases line.nextToken blanks with ⟨tok, t⟩
    cases tok with
    | nil => rfl
    | cons first others =>
      cases value : simpleAtoi (first :: others) with
      | none => simp [value, ih]
      | some c => simp [value, ih]

/-- The numbers of decimal texts. -/
theorem filterMap_decimal (decimal : ReadsDecimal simpleAtoi) {texts : List Bytes}
    (some_text : [] ∉ texts) (digits : ∀ text ∈ texts, IsDecimal text)
    (fits : (texts.map (number 10)).sum < 2 ^ 63) :
    texts.filterMap simpleAtoi = (texts.map (number 10)).map Int.ofNat := by
  induction texts with
  | nil => rfl
  | cons text texts ih =>
    rw [List.map_cons, List.sum_cons] at fits
    have some_digit : text ≠ [] := by
      rintro rfl
      exact some_text List.mem_cons_self
    have first := decimal text some_digit (digits text List.mem_cons_self) (by omega)
    have later := ih (fun member => some_text (List.mem_cons_of_mem _ member))
      (fun other member => digits other (List.mem_cons_of_mem _ member)) (by omega)
    rw [List.filterMap_cons_some first, later]
    rfl

theorem isBlank_space : isBlank 32 = true := by decide

theorem blanks_ne_nil : blanks ≠ [] := by decide

theorem nul_notMem_blanks : 0 ∉ blanks := by decide

/-- **The columns of an aggregate line** are counted by their positions. -/
theorem countLine_eq (decimal : ReadsDecimal simpleAtoi) {text : Bytes} {columns : List Nat}
    (has : HasColumns text columns) (named : isAggregate text = true) (fits : columns.sum < 2 ^ 63)
    {line : LineState} (tokens : Tokens text line) :
    countLine simpleAtoi line = ⟨columns.length, idleFrom 0 columns, busyFrom 0 columns⟩ := by
  obtain ⟨texts, words_eq, digits, rfl⟩ := has
  have first_four : text.take 4 = [99, 112, 117, 32] := eq_of_beq named
  obtain ⟨after, rfl⟩ : ∃ after, text = [99, 112, 117, 32] ++ after :=
    ⟨text.drop 4, by rw [← first_four, List.take_append_drop]⟩
  rcases @cases_run _ isBlank ([99, 112, 117, 32] ++ after) with
    free | ⟨run, seps, rest, cut, free, cuts, some_sep, stops⟩
  · have space := free 32 (by simp)
    rw [isBlank_space] at space
    cases space
  have some_run : run ≠ [] := by
    rintro rfl
    obtain ⟨sep, others, rfl⟩ := List.exists_cons_of_ne_nil some_sep
    have first : sep = 99 := (List.cons.inj cut).1.symm
    have blank := cuts sep List.mem_cons_self
    rw [first] at blank
    exact absurd blank (by decide)
  rw [cut, words_cut rest free cuts some_sep, if_neg some_run] at words_eq
  obtain ⟨-, rest_words⟩ := List.cons.inj words_eq
  rw [cut] at tokens
  obtain ⟨-, left, -⟩ := tokens.word blanks_ne_nil nul_notMem_blanks free cuts some_sep stops
  have taken : takeTokens blanks ((line.nextToken blanks).2.tokensLeft + 1)
      (line.nextToken blanks).2 = texts :=
    (takeTokens_eq blanks_ne_nil nul_notMem_blanks _ left stops (Nat.lt_succ_self _)).trans rest_words
  have some_text : [] ∉ texts := by
    rw [← rest_words]
    exact nil_notMem_words rest
  have counted := foldl_count 0 0 0 (texts.map (number 10)) (by omega)
  simp only [Nat.zero_add] at counted
  rw [countLine, readColumns_eq, taken, filterMap_decimal decimal some_text digits fits]
  exact counted

/-- The bytes after a NUL do not change whether a line begins with `"cpu "`. -/
theorem isAggregate_cString (text : Bytes) :
    isAggregate (text.takeWhile (· != 0)) = isAggregate text := by
  have named_iff (line : Bytes) : isAggregate line = true ↔ [99, 112, 117, 32] <+: line := by
    unfold isAggregate
    rw [beq_iff_eq, List.prefix_iff_eq_take, eq_comm]
    rfl
  rw [Bool.eq_iff_iff, named_iff, named_iff]
  constructor
  · intro begins
    exact begins.trans (List.takeWhile_prefix _)
  · rintro ⟨after, rfl⟩
    exact ⟨after.takeWhile (· != 0), by simp⟩

/-- **The loop over the lines** counts the first that has the sums. -/
theorem findTicks_eq (turns : Nat) {size : Nat} {rest : Bytes} {line : LineState}
    (ready : Ready size rest line) (enough : line.left < turns) :
    ((runs isNewline rest).find? isAggregate = none → findTicks simpleAtoi turns line = none) ∧
      ∀ text, (runs isNewline rest).find? isAggregate = some text → 0 ∉ text →
        ∃ t, Tokens text t ∧ findTicks simpleAtoi turns line = some (countLine simpleAtoi t) := by
  induction turns generalizing line rest with
  | zero => exact absurd enough (Nat.not_lt_zero _)
  | succ turns ih =>
    rcases cases_run rest with free | ⟨run, seps, later, cut, free, cuts, some_sep, stops⟩
    · obtain ⟨ended, -⟩ := ready.next_none free
      rw [findTicks, runs_of_free free]
      generalize line.next = result at ended
      obtain ⟨given, t⟩ := result
      subst ended
      exact ⟨fun _ => rfl, fun text found => absurd found (by simp)⟩
    · obtain ⟨given, ready_later, shorter⟩ := ready.next_cut cut free cuts some_sep stops
      have cut_ahead := ready.ahead_eq.trans cut
      have line_eq := cutAt_cString ready.order cut_ahead some_sep
      rw [given] at ready_later shorter
      rw [findTicks, given, cut, runs_run free cuts some_sep stops]
      simp only [line_eq, isAggregate_cString]
      by_cases named : isAggregate run = true
      · rw [List.find?_cons_of_pos named, if_pos named]
        refine ⟨fun none_found => absurd none_found (by simp), ?_⟩
        intro text found plain
        obtain rfl := Option.some.inj found
        exact ⟨_, tokens_cutAt ready.order cut_ahead plain some_sep, rfl⟩
      · rw [List.find?_cons_of_neg named, if_neg named]
        exact ih ready_later (Nat.lt_of_lt_of_le shorter (Nat.le_of_lt_succ enough))

/-- The file is read once, as far as the buffer goes. -/
theorem getTicks_some (simpleAtoi : Bytes → Option Int) (memory : Vector UInt8 procBufLen) (content : Bytes) :
    ∃ line, Ready procBufLen (content.take procBufLen) line ∧
      getTicks simpleAtoi memory (some content) = findTicks simpleAtoi (line.left + 1) line := by
  have size : memory.toList.length = procBufLen := Vector.length_toList
  have holding := holding_new memory.toList
  rw [size] at holding
  have room : (LineState.new memory.toList).remaining.toNat = procBufLen := by
    simp [remaining, LineState.new, size]
  have fits : ([] : Bytes).length + (content.take procBufLen).length ≤ procBufLen := by simp
  have filled := holding.filled fits
  refine ⟨_, filled.ready, ?_⟩
  unfold getTicks
  simp only [room, readStream]
  rw [if_neg (by omega)]

theorem find?_runs (rest : Bytes) :
    (runs isNewline rest).find? isAggregate = (segments isNewline rest).find? isAggregate := by
  unfold runs
  split
  · rfl
  · rfl

/-- **Without an aggregate line** there are no ticks. -/
theorem getTicks_fails (memory : Vector UInt8 procBufLen) {stat : Option Bytes}
    (fails : ∀ content, stat = some content → aggregate content = none) :
    getTicks simpleAtoi memory stat = none := by
  cases stat with
  | none => rfl
  | some content =>
    obtain ⟨line, ready, same⟩ := getTicks_some simpleAtoi memory content
    rw [same]
    apply (findTicks_eq _ ready (Nat.lt_succ_self _)).1
    rw [find?_runs]
    exact fails content rfl

theorem HasColumns.plain {line : Bytes} {columns : List Nat} (has : HasColumns line columns) :
    0 ∉ line := by
  obtain ⟨texts, words_eq, digits, -⟩ := has
  intro member
  obtain ⟨word, among, inside⟩ := @exists_mem_words _ isBlank _ _ member (by decide)
  rw [words_eq] at among
  rcases List.mem_cons.mp among with rfl | later
  · exact absurd inside (by decide)
  · exact absurd (digits word later 0 inside) (by decide)

/-- **With an aggregate line**, the ticks are the sums of its columns. -/
theorem getTicks_gives (decimal : ReadsDecimal simpleAtoi) (memory : Vector UInt8 procBufLen)
    {content line : Bytes} {columns : List Nat} (found : aggregate content = some line)
    (has : HasColumns line columns) (fits : columns.sum < 2 ^ 63) :
    getTicks simpleAtoi memory (some content) =
      some ⟨columns.length, idleFrom 0 columns, busyFrom 0 columns⟩ := by
  obtain ⟨read, ready, same⟩ := getTicks_some simpleAtoi memory content
  have found_run := (find?_runs _).trans found
  obtain ⟨t, tokens, ticks⟩ :=
    (findTicks_eq _ ready (Nat.lt_succ_self _)).2 line found_run has.plain
  have named : isAggregate line = true := List.find?_some found
  rw [same, ticks, countLine_eq decimal has named fits tokens]

end Reading

end Apib.Cpu
