/-
**The buffer and its bounds.**

The methods of a `LineState` once more, with every access to `buf_` checked: an index outside of the
buffer, and a `memmove` of a negative length, give `none`. What is checked has no other effect.

* `Kept`: the indices are in order, and a complete line ends in a NUL;
* `next?_eq`, `Kept.next`: `next` stays in the buffer and keeps the order, in the default mode always;
* `splitEnd_breaks`: **in HTTP mode it does not** when a CR is the last byte that is valid and the buffer
  is full, or an LF happens to lie behind it.
-/

import Apib.Lines.Tokens

namespace Apib

namespace LineState

variable (s : LineState)

/-! ### Checked accesses -/

/-- Reads `buf_[index]`. -/
def read? (index : Nat) : Option UInt8 := s.buf[index]?

/-- The method `nullLast`, checked. -/
def nullLast? : Option LineState := if s.lineEnd < s.buf.length then some s.nullLast else none

/-- Reads the C string at an index: there has to be a NUL before the end of the buffer. -/
def cString? (start : Nat) : Option Bytes :=
  if 0 ∈ s.buf.drop start then some (s.cString start) else none

/-- Writes bytes at `bufLen_`. -/
def overwrite (data : Bytes) : LineState :=
  let at_end := s.bufLen.toNat
  { s with buf := s.buf.take at_end ++ data ++ s.buf.drop (at_end + data.length) }

def overwrite? (data : Bytes) : Option LineState :=
  if 0 ≤ s.bufLen ∧ s.bufLen + data.length ≤ s.buf.length then some (s.overwrite data) else none

/-- The method `setReadLength`. -/
def setReadLength (len : Int) : LineState := { s with bufLen := s.bufLen + len }

/-- The method `dataRemaining`. -/
def dataRemaining : Int := s.bufLen - s.lineEnd

/-! ### Checked methods -/

/-- The loop to the first newline character, for a number of turns. -/
def toNewline? : Nat → LineState → Option LineState
  | 0, s => some s
  | turns + 1, s =>
    if s.lineEnd < s.bufLen then do
      let c ← s.read? s.lineEnd
      if isNewline c = false then toNewline? turns { s with lineEnd := s.lineEnd + 1 } else some s
    else some s

/-- The loop that overwrites newlines with NULs, for a number of turns. -/
def nullNewlines? : Nat → LineState → Option LineState
  | 0, s => some s
  | turns + 1, s =>
    if s.lineEnd < s.bufLen then do
      let c ← s.read? s.lineEnd
      if isNewline c = true then do
        let s ← s.nullLast?
        nullNewlines? turns s
      else some s
    else some s

/-- The end of a line in HTTP mode. The byte after a CR is looked at wherever the valid data ends. -/
def nullHttp? : Option LineState := do
  let c ← s.read? s.lineEnd
  if c = 13 then do
    let s ← s.nullLast?
    let c ← s.read? s.lineEnd
    if c = 10 then s.nullLast? else some s
  else s.nullLast?

/-- The rest of `next`, once the first newline character is found or nothing is left. -/
def endLine? : Option (Bool × LineState) :=
  if s.lineEnd ≥ s.bufLen then some (false, { s with lineComplete := false })
  else do
    let s ← (if s.httpMode then s.nullHttp? else s.nullNewlines? s.left)
    some (true, { s with tokStart := s.lineStart, tokEnd := s.lineStart, lineComplete := true })

/-- The method `next`, checked. -/
def next? : Option (Bool × LineState) :=
  let s := if s.lineEnd > 0 then { s with lineStart := s.lineEnd } else s
  if s.lineEnd ≥ s.bufLen then some (false, { s with lineComplete := false })
  else do
    let s ← s.toNewline? s.left
    s.endLine?

/-- The method `line`, checked. -/
def line? : Option Bytes := if s.lineComplete then s.cString? s.lineStart else some []

/-- The loop of `nextToken` to the first delimiter, for a number of turns. -/
def toDelimiter? (toks : Bytes) : Nat → LineState → Option LineState
  | 0, s => some s
  | turns + 1, s =>
    if s.tokEnd < s.lineEnd then do
      let c ← s.read? s.tokEnd
      if isChar c toks = false then toDelimiter? toks turns { s with tokEnd := s.tokEnd + 1 } else some s
    else some s

/-- The loop of `nextToken` that overwrites delimiters with NULs, for a number of turns. -/
def nullDelimiters? (toks : Bytes) : Nat → LineState → Option LineState
  | 0, s => some s
  | turns + 1, s =>
    if s.tokEnd < s.lineEnd then do
      let c ← s.read? s.tokEnd
      -- the byte that was read is the one that is written
      if isChar c toks = true then
        nullDelimiters? toks turns { s with buf := s.buf.set s.tokEnd 0, tokEnd := s.tokEnd + 1 }
      else some s
    else some s

/-- The loop of `skipMatches`, for a number of turns. -/
def passDelimiters? (toks : Bytes) : Nat → LineState → Option LineState
  | 0, s => some s
  | turns + 1, s =>
    if s.tokEnd < s.lineEnd then do
      let c ← s.read? s.tokEnd
      if isChar c toks = true then passDelimiters? toks turns { s with tokEnd := s.tokEnd + 1 } else some s
    else some s

/-- The two loops of `nextToken`. -/
def cutToken? (toks : Bytes) : Option LineState := do
  let s ← toDelimiter? toks s.tokensLeft s
  nullDelimiters? toks s.tokensLeft s

/-- The method `nextToken`, checked. -/
def nextToken? (toks : Bytes) : Option (Bytes × LineState) :=
  if s.lineComplete = false then some ([], s)
  else if s.tokEnd ≥ s.lineEnd then some ([], s)
  else do
    let s := { s with tokStart := s.tokEnd }
    let s ← (if toks = [] then some s else s.cutToken? toks)
    let tok ← s.cString? s.tokStart
    some (tok, s)

/-- The method `skipMatches`, checked. -/
def skipMatches? (toks : Bytes) : Option LineState := passDelimiters? toks s.tokensLeft s

/-- The method `consume`, checked: the length that is moved is not negative. -/
def consume? : Option (Bool × LineState) :=
  if s.lineComplete = true then some s.consume
  else if s.lineStart ≤ s.bufLen ∧ s.bufLen ≤ s.buf.length then some s.consume
  else none

/-- The method `readStream`, checked. -/
def readStream? (data : Bytes) : Option (Int × LineState) := do
  let s ← s.overwrite? data
  some (data.length, s.setReadLength data.length)

/-- The method `readFd`, checked. -/
def readFd? : SysRead → Option (Int × LineState)
  | .bytes [] => some (0, s)
  | .bytes data => s.readStream? data
  | .wouldBlock | .failed => some (-1, { s with bufLen := s.bufLen - 1 })

/-! ### The order that is kept -/

/-- **The indices are in order**, and a complete line ends in a NUL. -/
structure Kept (s : LineState) : Prop where
  start_le : s.lineStart ≤ s.lineEnd
  end_le : s.lineEnd ≤ s.bufLen
  len_le : s.bufLen ≤ s.buf.length
  tokens : s.lineComplete = true → s.tokStart ≤ s.tokEnd ∧ s.tokEnd ≤ s.lineEnd
  ended : s.lineComplete = true → s.lineStart < s.lineEnd ∧ s.buf[s.lineEnd - 1]? = some 0

/-- The byte after a CR that ends the valid data in HTTP mode is outside of the buffer, or an LF. -/
def SplitEnd (s : LineState) : Prop :=
  s.httpMode = true ∧ s.ahead.dropWhile (!isNewline ·) = [13] ∧
    (s.bufLen = s.buf.length ∨ s.byteAt s.bufLen.toNat = 10)

instance (s : LineState) : Decidable (SplitEnd s) := inferInstanceAs (Decidable (_ ∧ _ ∧ _))

variable {s}

/-- Where no line is complete, the order of the indices is all. -/
theorem Kept.of_incomplete (incomplete : s.lineComplete = false) (start_le : s.lineStart ≤ s.lineEnd)
    (end_le : s.lineEnd ≤ s.bufLen) (len_le : s.bufLen ≤ s.buf.length) : Kept s :=
  ⟨start_le, end_le, len_le, fun complete => absurd (incomplete.symm.trans complete) Bool.false_ne_true,
    fun complete => absurd (incomplete.symm.trans complete) Bool.false_ne_true⟩

theorem Kept.order (kept : Kept s) : InOrder s := ⟨kept.len_le, kept.end_le⟩

theorem read?_eq {index : Nat} (inside : index < s.buf.length) : s.read? index = some (s.byteAt index) := by
  rw [read?, byteAt, List.getD_eq_getElem?_getD, List.getElem?_eq_getElem inside, Option.getD_some]

/-! ### The loops of `next` -/

theorem toNewline?_eq (len_le : s.bufLen ≤ s.buf.length) (turns : Nat) :
    toNewline? turns s = some (toNewline turns s) := by
  induction turns generalizing s with
  | zero => rfl
  | succ turns ih =>
    rw [toNewline?, toNewline]
    by_cases more : s.lineEnd < s.bufLen
    · rw [if_pos more, read?_eq (by omega), Option.bind_eq_bind, Option.bind_some]
      by_cases other : isNewline (s.byteAt s.lineEnd) = false
      · rw [if_pos other, if_pos ⟨more, other⟩]
        exact ih len_le
      · rw [if_neg other, if_neg (fun both => other both.2)]
    · rw [if_neg more, if_neg (fun both => more both.1)]

theorem nullNewlines?_eq (len_le : s.bufLen ≤ s.buf.length) (turns : Nat) :
    nullNewlines? turns s = some (nullNewlines turns s) := by
  induction turns generalizing s with
  | zero => rfl
  | succ turns ih =>
    rw [nullNewlines?, nullNewlines]
    by_cases more : s.lineEnd < s.bufLen
    · have inside : s.lineEnd < s.buf.length := by omega
      rw [if_pos more, read?_eq inside, Option.bind_eq_bind, Option.bind_some]
      by_cases newline : isNewline (s.byteAt s.lineEnd) = true
      · rw [if_pos newline, if_pos ⟨more, newline⟩, nullLast?, if_pos inside, Option.bind_eq_bind,
          Option.bind_some]
        exact ih (by simpa [nullLast] using len_le)
      · rw [if_neg newline, if_neg (fun both => newline both.2)]
    · rw [if_neg more, if_neg (fun both => more both.1)]

/-- Bytes from `lineEnd_` on have been overwritten with NULs, at least one, and none that is not
valid. -/
structure Nulled (s t : LineState) : Prop where
  size : t.buf.length = s.buf.length
  same_len : t.bufLen = s.bufLen
  same_start : t.lineStart = s.lineStart
  further : s.lineEnd < t.lineEnd
  end_le : t.lineEnd ≤ t.bufLen
  last : t.buf[t.lineEnd - 1]? = some 0

theorem nulled_nullLast (len_le : s.bufLen ≤ s.buf.length) (more : s.lineEnd < s.bufLen) :
    Nulled s s.nullLast := by
  have inside : s.lineEnd < s.buf.length := by omega
  refine ⟨by simp [nullLast], rfl, rfl, Nat.lt_succ_self _, by simp only [nullLast]; omega, ?_⟩
  simp [nullLast, inside]

theorem Nulled.nullLast {t : LineState} (nulled : Nulled s t) (len_le : s.bufLen ≤ s.buf.length)
    (more : t.lineEnd < t.bufLen) : Nulled s t.nullLast := by
  have inside : t.bufLen ≤ t.buf.length := by
    rw [nulled.size, nulled.same_len]
    exact len_le
  have step := nulled_nullLast inside more
  exact ⟨step.size.trans nulled.size, step.same_len.trans nulled.same_len,
    step.same_start.trans nulled.same_start, nulled.further.trans step.further, step.end_le, step.last⟩

theorem Nulled.nullNewlines {t : LineState} (nulled : Nulled s t) (len_le : s.bufLen ≤ s.buf.length)
    (turns : Nat) : Nulled s (nullNewlines turns t) := by
  induction turns generalizing t with
  | zero => exact nulled
  | succ turns ih =>
    rw [LineState.nullNewlines]
    split
    · next both => exact ih (nulled.nullLast len_le both.1)
    · exact nulled

/-- The state when the loop to the newline is done. -/
def atNewline (s : LineState) : LineState :=
  { s with lineEnd := s.lineEnd + (s.ahead.takeWhile (!isNewline ·)).length }

theorem toNewline_left (order : InOrder s) : toNewline s.left s = s.atNewline :=
  toNewline_eq order _ (Nat.le_refl _)

theorem atNewline_ahead : s.atNewline.ahead = s.ahead.dropWhile (!isNewline ·) :=
  ahead_after (List.takeWhile_append_dropWhile.symm)

theorem atNewline_order (order : InOrder s) : InOrder s.atNewline := by
  have total := congrArg List.length (List.takeWhile_append_dropWhile (p := (!isNewline ·)) (l := s.ahead))
  rw [List.length_append, ahead_length order, left] at total
  have reached := order.reached
  exact ⟨order.inside, by simp only [atNewline]; omega⟩

/-- Where the loop stops before the end, there is a newline character. -/
theorem isNewline_atNewline (order : InOrder s) (more : s.atNewline.lineEnd < s.bufLen) :
    isNewline (s.atNewline.byteAt s.atNewline.lineEnd) = true := by
  have first := ahead_cons (atNewline_order order) more
  have stops := List.head?_dropWhile_not (!isNewline ·) s.ahead
  rw [← atNewline_ahead, first] at stops
  simpa using stops

/-! ### The end of a line in HTTP mode -/

section Http

variable (order : InOrder s) (more : s.lineEnd < s.bufLen)
include order more

/-- A CR is alone ahead when it is the last byte. -/
theorem ahead_eq_cr : s.ahead = [13] ↔ s.byteAt s.lineEnd = 13 ∧ s.lineEnd + 1 = s.bufLen := by
  have after := ahead_eq_nil (order.advance more)
  rw [ahead_cons order more, List.cons.injEq, after]
  have reached := (order.advance more).reached
  simp only at reached ⊢
  constructor
  · rintro ⟨cr, last⟩
    exact ⟨cr, by omega⟩
  · rintro ⟨cr, last⟩
    exact ⟨cr, by omega⟩

omit order more in
theorem byteAt_nullLast : s.nullLast.byteAt (s.lineEnd + 1) = s.byteAt (s.lineEnd + 1) := by
  simp [byteAt, nullLast]

/-- **In HTTP mode the end of a line stays in the valid data**, unless a CR is its last byte and the
byte after it is outside of the buffer or an LF. -/
theorem nullHttp?_eq
    (clear : ¬(s.ahead = [13] ∧ (s.bufLen = s.buf.length ∨ s.byteAt s.bufLen.toNat = 10))) :
    s.nullHttp? = some s.nullHttp ∧ Nulled s s.nullHttp := by
  have inside := order.inside
  have here : s.lineEnd < s.buf.length := by omega
  have step := nulled_nullLast inside more
  rw [nullHttp?, nullHttp, read?_eq here, Option.bind_eq_bind, Option.bind_some, nullLast?,
    if_pos here]
  by_cases cr : s.byteAt s.lineEnd = 13
  · have open_end : s.lineEnd + 1 = s.bufLen →
        s.bufLen ≠ s.buf.length ∧ s.byteAt (s.lineEnd + 1) ≠ 10 := by
      intro last
      have alone := (ahead_eq_cr order more).mpr ⟨cr, last⟩
      have same : s.bufLen.toNat = s.lineEnd + 1 := by omega
      rw [same] at clear
      exact not_or.mp fun either => clear ⟨alone, either⟩
    have behind : s.nullLast.lineEnd < s.nullLast.buf.length := by
      simp only [nullLast, List.length_set]
      by_contra outside
      have last : s.lineEnd + 1 = s.bufLen := by omega
      exact (open_end last).1 (by omega)
    rw [if_pos cr, if_pos cr, Option.bind_eq_bind, Option.bind_some, read?_eq behind, Option.bind_some,
      nullLast?, if_pos behind]
    by_cases lf : s.nullLast.byteAt s.nullLast.lineEnd = 10
    · have more_again : s.nullLast.lineEnd < s.nullLast.bufLen := by
        by_contra outside
        simp only [nullLast] at outside
        have last : s.lineEnd + 1 = s.bufLen := by omega
        exact (open_end last).2 (byteAt_nullLast.symm.trans lf)
      rw [if_pos lf]
      simp only [lf, if_true]
      exact ⟨trivial, step.nullLast inside more_again⟩
    · rw [if_neg lf]
      simp only [lf, if_false]
      exact ⟨trivial, step⟩
  · rw [if_neg cr, if_neg cr]
    exact ⟨rfl, step⟩

/-- **Otherwise it does not**: it looks at a byte outside of the buffer, or `lineEnd_` passes
`bufLen_`. -/
theorem nullHttp?_break (alone : s.ahead = [13])
    (break_at : s.bufLen = s.buf.length ∨ s.byteAt s.bufLen.toNat = 10) (t : LineState)
    (ended : s.nullHttp? = some t) : t.lineEnd > t.bufLen := by
  have inside := order.inside
  have here : s.lineEnd < s.buf.length := by omega
  obtain ⟨cr, last⟩ := (ahead_eq_cr order more).mp alone
  have same : s.bufLen.toNat = s.lineEnd + 1 := by omega
  rw [nullHttp?, read?_eq here, Option.bind_eq_bind, Option.bind_some, nullLast?, if_pos here,
    if_pos cr, Option.bind_eq_bind, Option.bind_some] at ended
  by_cases behind : s.nullLast.lineEnd < s.nullLast.buf.length
  · have lf : s.nullLast.byteAt s.nullLast.lineEnd = 10 := by
      rcases break_at with full | stale
      · simp only [nullLast, List.length_set] at behind
        omega
      · rw [same] at stale
        exact byteAt_nullLast.trans stale
    rw [read?_eq behind, Option.bind_some, if_pos lf, nullLast?, if_pos behind] at ended
    obtain rfl := Option.some.inj ended
    simp only [nullLast]
    omega
  · have outside : s.nullLast.read? s.nullLast.lineEnd = none := by
      rw [read?, List.getElem?_eq_none_iff]
      omega
    rw [outside] at ended
    cases ended

end Http

/-! ### The method `next` -/

/-- The state at the newline, once `lineStart_` has been moved. -/
def started (s : LineState) : LineState := { s with lineStart := s.lineEnd }

theorem Kept.started_eq (kept : Kept s) :
    (if s.lineEnd > 0 then { s with lineStart := s.lineEnd } else s) = s.started := by
  apply lineStart_eq
  intro zero
  have := kept.start_le
  omega

/-- A complete line with its tokens at the start. -/
theorem Nulled.kept {m t : LineState} (nulled : Nulled m t) (start_le : m.lineStart ≤ m.lineEnd)
    (inside : m.bufLen ≤ m.buf.length) :
    Kept { t with tokStart := t.lineStart, tokEnd := t.lineStart, lineComplete := true } := by
  have further := nulled.further
  have same_start := nulled.same_start
  refine ⟨?_, nulled.end_le, ?_, fun _ => ⟨Nat.le_refl _, ?_⟩, fun _ => ⟨?_, nulled.last⟩⟩
  · simp only
    omega
  · simp only
    rw [nulled.same_len, nulled.size]
    exact inside
  · simp only
    omega
  · simp only
    omega

section EndLine

variable {m : LineState} (order : InOrder m) (start_le : m.lineStart ≤ m.lineEnd)
variable (newline : m.lineEnd < m.bufLen → isNewline (m.byteAt m.lineEnd) = true)
include order start_le newline

theorem endLine?_eq (clear : m.httpMode = true →
      ¬(m.ahead = [13] ∧ (m.bufLen = m.buf.length ∨ m.byteAt m.bufLen.toNat = 10))) :
    m.endLine? = some m.endLine ∧ Kept m.endLine.2 ∧ m.endLine.2.buf.length = m.buf.length := by
  have inside := order.inside
  rw [endLine?, endLine]
  by_cases none_left : (m.lineEnd : Int) ≥ m.bufLen
  · rw [if_pos none_left, if_pos none_left]
    exact ⟨rfl, .of_incomplete rfl start_le order.reached inside, rfl⟩
  · have more : (m.lineEnd : Int) < m.bufLen := by omega
    have nulls : (if m.httpMode then m.nullHttp? else m.nullNewlines? m.left) =
        some (if m.httpMode then m.nullHttp else m.nullNewlines m.left) ∧
        Nulled m (if m.httpMode then m.nullHttp else m.nullNewlines m.left) := by
      by_cases http : m.httpMode = true
      · rw [if_pos http, if_pos http]
        exact nullHttp?_eq order more (clear http)
      · rw [if_neg http, if_neg http]
        refine ⟨nullNewlines?_eq inside _, ?_⟩
        -- the first turn overwrites the newline that was found
        obtain ⟨turns, left_eq⟩ : ∃ turns, m.left = turns + 1 := ⟨m.left - 1, by unfold left; omega⟩
        rw [left_eq, LineState.nullNewlines, if_pos ⟨more, newline more⟩]
        exact (nulled_nullLast inside more).nullNewlines inside turns
    obtain ⟨same, nulled⟩ := nulls
    rw [if_neg none_left, if_neg none_left, same, Option.bind_eq_bind, Option.bind_some]
    exact ⟨rfl, nulled.kept start_le inside, nulled.size⟩

end EndLine

/-- **The method `next` keeps the order** and stays in the buffer, unless a CR ends the valid data in
HTTP mode before a byte that is outside or an LF. -/
theorem Kept.next (kept : Kept s) (clear : ¬SplitEnd s) :
    s.next? = some s.next ∧ Kept s.next.2 ∧ s.next.2.buf.length = s.buf.length := by
  have order : InOrder s.started := ⟨kept.len_le, kept.end_le⟩
  rw [next?, LineState.next, kept.started_eq]
  by_cases none_left : (s.started.lineEnd : Int) ≥ s.started.bufLen
  · simp only [none_left, if_true]
    exact ⟨trivial, .of_incomplete rfl (Nat.le_refl _) kept.end_le kept.len_le, rfl⟩
  · simp only [none_left, if_false, toNewline?_eq order.inside, toNewline_left order,
      Option.bind_eq_bind, Option.bind_some]
    apply endLine?_eq (atNewline_order order)
    · exact Nat.le_add_right _ _
    · exact isNewline_atNewline order
    · rintro http ⟨alone, break_at⟩
      rw [atNewline_ahead] at alone
      exact clear ⟨http, alone, break_at⟩

/-- **With such a CR** it looks outside of the buffer, or `lineEnd_` passes `bufLen_`. -/
theorem splitEnd_breaks (kept : Kept s) (split : SplitEnd s) (r : Bool × LineState)
    (ended : s.next? = some r) : r.2.lineEnd > r.2.bufLen := by
  obtain ⟨http, alone, break_at⟩ := split
  have order : InOrder s.started := ⟨kept.len_le, kept.end_le⟩
  have alone_here : s.started.atNewline.ahead = [13] := atNewline_ahead.trans alone
  have more : (s.started.atNewline.lineEnd : Int) < s.started.atNewline.bufLen := by
    by_contra none_left
    have empty := (ahead_eq_nil (atNewline_order order)).mpr (by omega)
    rw [alone_here] at empty
    cases empty
  have some_left : ¬(s.started.lineEnd : Int) ≥ s.started.bufLen := by
    simp only [atNewline] at more
    omega
  rw [next?, kept.started_eq] at ended
  simp only [some_left, if_false, toNewline?_eq order.inside, toNewline_left order,
    Option.bind_eq_bind, Option.bind_some, endLine?] at ended
  rw [if_neg (by omega), if_pos (show s.started.atNewline.httpMode = true from http)] at ended
  obtain ⟨t, nulled, last⟩ := Option.bind_eq_some_iff.mp ended
  obtain rfl := Option.some.inj last
  exact nullHttp?_break (atNewline_order order) more alone_here break_at t nulled

/-! ### Lines and tokens -/

theorem cString?_eq {start index : Nat} (behind : start ≤ index) (nul : s.buf[index]? = some 0) :
    s.cString? start = some (s.cString start) := by
  have member : 0 ∈ s.buf.drop start := by
    apply List.mem_of_getElem? (i := index - start)
    rw [List.getElem?_drop, Nat.add_sub_cancel' behind, nul]
  rw [cString?, if_pos member]

/-- **The method `line`** stays in the buffer. -/
theorem Kept.line (kept : Kept s) : s.line? = some s.line := by
  rw [line?, LineState.line]
  by_cases complete : s.lineComplete = true
  · obtain ⟨further, nul⟩ := kept.ended complete
    rw [if_pos complete, if_pos complete, cString?_eq (Nat.le_sub_one_of_lt further) nul, cString]
  · rw [if_neg complete, if_neg complete]

/-- `tokEnd_` has been moved in the line, and NULs may have been written before it. -/
structure Moved (s t : LineState) : Prop where
  size : t.buf.length = s.buf.length
  same_len : t.bufLen = s.bufLen
  same_start : t.lineStart = s.lineStart
  same_end : t.lineEnd = s.lineEnd
  same_complete : t.lineComplete = s.lineComplete
  same_token : t.tokStart = s.tokStart
  further : s.tokEnd ≤ t.tokEnd
  bound : s.tokEnd ≤ s.lineEnd → t.tokEnd ≤ t.lineEnd
  nuls : ∀ i : Nat, s.buf[i]? = some 0 → t.buf[i]? = some 0

theorem Moved.refl (s : LineState) : Moved s s :=
  ⟨rfl, rfl, rfl, rfl, rfl, rfl, Nat.le_refl _, id, fun _ => id⟩

theorem Moved.trans {t u : LineState} (first : Moved s t) (second : Moved t u) : Moved s u :=
  ⟨second.size.trans first.size, second.same_len.trans first.same_len,
    second.same_start.trans first.same_start, second.same_end.trans first.same_end,
    second.same_complete.trans first.same_complete, second.same_token.trans first.same_token,
    first.further.trans second.further, fun bound => second.bound (first.bound bound),
    fun i nul => second.nuls i (first.nuls i nul)⟩

theorem moved_advance (more : s.tokEnd < s.lineEnd) : Moved s { s with tokEnd := s.tokEnd + 1 } :=
  ⟨rfl, rfl, rfl, rfl, rfl, rfl, Nat.le_succ _, fun _ => more, fun _ => id⟩

theorem moved_null (more : s.tokEnd < s.lineEnd) :
    Moved s { s with buf := s.buf.set s.tokEnd 0, tokEnd := s.tokEnd + 1 } := by
  refine ⟨by simp, rfl, rfl, rfl, rfl, rfl, Nat.le_succ _, fun _ => more, fun i nul => ?_⟩
  obtain ⟨inside, -⟩ := List.getElem?_eq_some_iff.mp nul
  rw [List.getElem?_set]
  split
  · next same => simp [same, inside]
  · exact nul

theorem Kept.moved {t : LineState} (kept : Kept s) (moved : Moved s t) : Kept t := by
  refine ⟨?_, ?_, ?_, ?_, ?_⟩
  · rw [moved.same_start, moved.same_end]
    exact kept.start_le
  · rw [moved.same_end, moved.same_len]
    exact kept.end_le
  · rw [moved.same_len, moved.size]
    exact kept.len_le
  · intro complete
    obtain ⟨start_le, end_le⟩ := kept.tokens (moved.same_complete ▸ complete)
    exact ⟨moved.same_token ▸ start_le.trans moved.further, moved.bound end_le⟩
  · intro complete
    obtain ⟨further, nul⟩ := kept.ended (moved.same_complete ▸ complete)
    rw [moved.same_start, moved.same_end]
    exact ⟨further, moved.nuls _ nul⟩

section Loops

variable (inside : s.lineEnd ≤ s.buf.length) (toks : Bytes) (turns : Nat)
include inside

theorem toDelimiter?_eq : toDelimiter? toks turns s = some (toDelimiter toks turns s) ∧
    Moved s (toDelimiter toks turns s) := by
  induction turns generalizing s with
  | zero => exact ⟨rfl, Moved.refl s⟩
  | succ turns ih =>
    rw [toDelimiter?, toDelimiter]
    by_cases more : s.tokEnd < s.lineEnd
    · rw [if_pos more, read?_eq (by omega), Option.bind_eq_bind, Option.bind_some]
      by_cases other : isChar (s.byteAt s.tokEnd) toks = false
      · rw [if_pos other, if_pos ⟨more, other⟩]
        obtain ⟨same, moved⟩ := ih (s := { s with tokEnd := s.tokEnd + 1 }) inside
        exact ⟨same, (moved_advance more).trans moved⟩
      · rw [if_neg other, if_neg (fun both => other both.2)]
        exact ⟨rfl, Moved.refl s⟩
    · rw [if_neg more, if_neg (fun both => more both.1)]
      exact ⟨rfl, Moved.refl s⟩

theorem nullDelimiters?_eq : nullDelimiters? toks turns s = some (nullDelimiters toks turns s) ∧
    Moved s (nullDelimiters toks turns s) := by
  induction turns generalizing s with
  | zero => exact ⟨rfl, Moved.refl s⟩
  | succ turns ih =>
    rw [nullDelimiters?, nullDelimiters]
    by_cases more : s.tokEnd < s.lineEnd
    · rw [if_pos more, read?_eq (by omega), Option.bind_eq_bind, Option.bind_some]
      by_cases delimiter : isChar (s.byteAt s.tokEnd) toks = true
      · rw [if_pos delimiter, if_pos ⟨more, delimiter⟩]
        obtain ⟨same, moved⟩ :=
          ih (s := { s with buf := s.buf.set s.tokEnd 0, tokEnd := s.tokEnd + 1 }) (by simpa using inside)
        exact ⟨same, (moved_null more).trans moved⟩
      · rw [if_neg delimiter, if_neg (fun both => delimiter both.2)]
        exact ⟨rfl, Moved.refl s⟩
    · rw [if_neg more, if_neg (fun both => more both.1)]
      exact ⟨rfl, Moved.refl s⟩

theorem passDelimiters?_eq : passDelimiters? toks turns s = some (passDelimiters toks turns s) ∧
    Moved s (passDelimiters toks turns s) := by
  induction turns generalizing s with
  | zero => exact ⟨rfl, Moved.refl s⟩
  | succ turns ih =>
    rw [passDelimiters?, passDelimiters]
    by_cases more : s.tokEnd < s.lineEnd
    · rw [if_pos more, read?_eq (by omega), Option.bind_eq_bind, Option.bind_some]
      by_cases delimiter : isChar (s.byteAt s.tokEnd) toks = true
      · rw [if_pos delimiter, if_pos ⟨more, delimiter⟩]
        obtain ⟨same, moved⟩ := ih (s := { s with tokEnd := s.tokEnd + 1 }) inside
        exact ⟨same, (moved_advance more).trans moved⟩
      · rw [if_neg delimiter, if_neg (fun both => delimiter both.2)]
        exact ⟨rfl, Moved.refl s⟩
    · rw [if_neg more, if_neg (fun both => more both.1)]
      exact ⟨rfl, Moved.refl s⟩

end Loops

section Tokens

variable (kept : Kept s) (toks : Bytes)
include kept

theorem Kept.lineEnd_le : s.lineEnd ≤ s.buf.length := by
  have reached := kept.end_le
  have inside := kept.len_le
  omega

/-- **The method `skipMatches`** stays in the buffer and keeps the order. -/
theorem Kept.skipMatches : s.skipMatches? toks = some (s.skipMatches toks) ∧
    Kept (s.skipMatches toks) ∧ (s.skipMatches toks).buf.length = s.buf.length := by
  obtain ⟨same, moved⟩ := passDelimiters?_eq kept.lineEnd_le toks s.tokensLeft
  exact ⟨same, kept.moved moved, moved.size⟩

theorem cutToken?_eq : s.cutToken? toks = some (s.cutToken toks) ∧ Moved s (s.cutToken toks) := by
  obtain ⟨same, moved⟩ := toDelimiter?_eq kept.lineEnd_le toks s.tokensLeft
  obtain ⟨same_null, moved_null⟩ :=
    nullDelimiters?_eq (kept.moved moved).lineEnd_le toks (toDelimiter toks s.tokensLeft s).tokensLeft
  rw [cutToken?, same, Option.bind_eq_bind, Option.bind_some]
  exact ⟨same_null, moved.trans moved_null⟩

/-- **The method `nextToken`** stays in the buffer and keeps the order. -/
theorem Kept.nextToken : s.nextToken? toks = some (s.nextToken toks) ∧
    Kept (s.nextToken toks).2 ∧ (s.nextToken toks).2.buf.length = s.buf.length := by
  rw [nextToken?, LineState.nextToken]
  by_cases incomplete : s.lineComplete = false
  · rw [if_pos incomplete, if_pos incomplete]
    exact ⟨rfl, kept, rfl⟩
  by_cases used : s.tokEnd ≥ s.lineEnd
  · rw [if_neg incomplete, if_neg incomplete, if_pos used, if_pos used]
    exact ⟨rfl, kept, rfl⟩
  have complete : s.lineComplete = true := by simpa using incomplete
  obtain ⟨-, end_le⟩ := kept.tokens complete
  -- the token begins where the last one ended
  have kept_start : Kept { s with tokStart := s.tokEnd } :=
    ⟨kept.start_le, kept.end_le, kept.len_le, fun _ => ⟨Nat.le_refl _, end_le⟩, kept.ended⟩
  obtain ⟨same, moved⟩ : (if toks = [] then some { s with tokStart := s.tokEnd }
        else cutToken? { s with tokStart := s.tokEnd } toks) =
      some (if toks = [] then { s with tokStart := s.tokEnd }
        else cutToken { s with tokStart := s.tokEnd } toks) ∧
      Moved { s with tokStart := s.tokEnd } (if toks = [] then { s with tokStart := s.tokEnd }
        else cutToken { s with tokStart := s.tokEnd } toks) := by
    by_cases none_toks : toks = []
    · rw [if_pos none_toks, if_pos none_toks]
      exact ⟨rfl, Moved.refl _⟩
    · rw [if_neg none_toks, if_neg none_toks]
      exact cutToken?_eq kept_start toks
  rw [if_neg incomplete, if_neg incomplete, if_neg used, if_neg used]
  simp only [same, Option.bind_eq_bind, Option.bind_some]
  generalize (if toks = [] then { s with tokStart := s.tokEnd }
    else cutToken { s with tokStart := s.tokEnd } toks) = t at moved
  have kept_now := kept_start.moved moved
  obtain ⟨-, nul⟩ := kept_now.ended (moved.same_complete.trans complete)
  have before : t.tokStart ≤ t.lineEnd - 1 := by
    rw [moved.same_token, moved.same_end]
    exact Nat.le_sub_one_of_lt (Nat.lt_of_not_le used)
  rw [cString?_eq before nul, Option.bind_some]
  exact ⟨rfl, kept_now, moved.size⟩

end Tokens

/-! ### Filling and emptying -/

theorem Kept.clear (kept : Kept s) : Kept s.clear := by
  have inside := kept.len_le
  exact .of_incomplete rfl (Nat.le_refl _) (Int.le_refl _) (by simp [LineState.clear])

theorem Kept.setHttpMode (kept : Kept s) (on : Bool) : Kept { s with httpMode := on } :=
  ⟨kept.start_le, kept.end_le, kept.len_le, kept.tokens, kept.ended⟩

/-- **The method `consume`** moves no negative length and keeps the order. -/
theorem Kept.consume (kept : Kept s) :
    s.consume? = some s.consume ∧ Kept s.consume.2 ∧ s.consume.2.buf.length = s.buf.length := by
  have start_le := kept.start_le
  have end_le := kept.end_le
  have len_le := kept.len_le
  by_cases complete : s.lineComplete = true
  · rw [consume?, if_pos complete]
    refine ⟨rfl, .of_incomplete rfl (Nat.le_refl _) ?_ ?_, ?_⟩
    · simp [LineState.consume, complete]
    · simp [LineState.consume, complete]
    · simp [LineState.consume, complete]
  · have incomplete : s.lineComplete = false := by simpa using complete
    have size : (s.moved s.lineStart (s.bufLen - s.lineStart).toNat).length = s.buf.length := by
      simp only [LineState.moved, List.length_append, List.length_drop, List.length_take]
      omega
    rw [consume?, if_neg complete, if_pos ⟨by omega, len_le⟩]
    simp only [LineState.consume, incomplete, Bool.false_eq_true, if_false]
    refine ⟨trivial, .of_incomplete rfl (Nat.le_refl _) ?_ ?_, size⟩
    · show (0 : Int) ≤ s.bufLen - s.lineStart
      omega
    · rw [size]
      show s.bufLen - s.lineStart ≤ s.buf.length
      omega

section Fill

variable (kept : Kept s) {data : Bytes} (fits : s.bufLen + data.length ≤ s.buf.length)
include kept fits

/-- **Bytes that fit behind the valid ones** can be written. -/
theorem Kept.overwrite : s.overwrite? data = some (s.overwrite data) ∧ Kept (s.overwrite data) ∧
    (s.overwrite data).buf.length = s.buf.length := by
  have start_le := kept.start_le
  have end_le := kept.end_le
  have len_le := kept.len_le
  have size : (s.overwrite data).buf.length = s.buf.length := by
    simp only [LineState.overwrite, List.length_append, List.length_take, List.length_drop]
    omega
  rw [overwrite?, if_pos ⟨by omega, fits⟩]
  refine ⟨rfl, ⟨start_le, end_le, ?_, kept.tokens, fun complete => ?_⟩, size⟩
  · rw [size]
    exact len_le
  · obtain ⟨further, nul⟩ := kept.ended complete
    have early : s.lineEnd - 1 < (s.buf.take s.bufLen.toNat).length := by
      simp only [List.length_take] at further ⊢
      omega
    refine ⟨further, ?_⟩
    simp only [LineState.overwrite, List.append_assoc]
    rw [List.getElem?_append_left early, List.getElem?_take, if_pos (by simp at early; omega), nul]

end Fill

theorem Kept.setReadLength (kept : Kept s) {len : Int} (some_space : 0 ≤ len)
    (fits : s.bufLen + len ≤ s.buf.length) : Kept (s.setReadLength len) := by
  have end_le := kept.end_le
  refine ⟨kept.start_le, ?_, fits, kept.tokens, kept.ended⟩
  simp only [LineState.setReadLength]
  omega

/-- **Reading into the space that is left** stays in the buffer and keeps the order. -/
theorem Kept.readStream (kept : Kept s) {data : Bytes} (fits : s.bufLen + data.length ≤ s.buf.length) :
    s.readStream? data = some (s.readStream data) ∧ Kept (s.readStream data).2 ∧
      (s.readStream data).2.buf.length = s.buf.length := by
  obtain ⟨same, kept_written, size⟩ := kept.overwrite fits
  have filled : s.readStream data = ((data.length : Int), (s.overwrite data).setReadLength data.length) := rfl
  rw [readStream?, same, Option.bind_eq_bind, Option.bind_some, filled]
  exact ⟨rfl, kept_written.setReadLength (Int.natCast_nonneg _) (by rw [size]; exact fits), size⟩

theorem Kept.readFd (kept : Kept s) {data : Bytes} (fits : s.bufLen + data.length ≤ s.buf.length) :
    s.readFd? (.bytes data) = some (s.readFd (.bytes data)) ∧ Kept (s.readFd (.bytes data)).2 ∧
      (s.readFd (.bytes data)).2.buf.length = s.buf.length := by
  cases data with
  | nil => exact ⟨rfl, kept, rfl⟩
  | cons first others => exact kept.readStream fits

end LineState

end Apib
