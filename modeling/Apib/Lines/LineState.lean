/-
**Line-oriented input.**

`apib_lines.cc`: a buffer that is filled from a descriptor or a stream, a little at a time, and
taken apart line by line. The size of the buffer never changes; `bufSize_` is the length of `buf`.
`bufLen_` is an integer, since a failed `read` adds -1 to it. The tokens of a line and `skip` follow in
other modules; the output of a buffer is left out.

* `LineState.next_none`, `LineState.next_some`: what `next` does in the default mode, for a buffer
  in order whose bytes ahead hold no NUL: either they hold no newline and are all passed over, or
  the run before the first newline becomes the line and the newlines after it are eaten.
-/

import Apib.HttpParser.State
import Apib.Net.Socket
import Mathlib.Data.List.TakeWhile

namespace Apib

/-- The function `isChar`. -/
def isChar (c : UInt8) (chars : Bytes) : Bool := chars.any (c == ·)

/-- The characters `"\r\n"`. -/
def newlines : Bytes := [13, 10]

/-- Is the byte a CR or LF? -/
def isNewline (c : UInt8) : Bool := isChar c newlines

/-- A `LineState`. -/
structure LineState where
  buf : Bytes
  httpMode : Bool := false
  bufLen : Int := 0
  lineStart : Nat := 0
  lineEnd : Nat := 0
  lineComplete : Bool := false
  tokStart : Nat := 0
  tokEnd : Nat := 0
  deriving DecidableEq, Repr

namespace LineState

variable (s : LineState)

/-- `LineState(size_t len)`, with what `malloc` gives. -/
def new (memory : Bytes) : LineState := { buf := memory }

/-- The method `clear`. -/
def clear : LineState :=
  { s with bufLen := 0, lineStart := 0, lineEnd := 0, tokStart := 0, tokEnd := 0,
           lineComplete := false }

/-- The byte at an index of the buffer. -/
def byteAt (index : Nat) : UInt8 := s.buf.getD index 0

/-- The method `nullLast`. -/
def nullLast : LineState :=
  { s with buf := s.buf.set s.lineEnd 0, lineEnd := s.lineEnd + 1 }

/-- The number of bytes between `lineEnd_` and `bufLen_`. -/
def left : Nat := (s.bufLen - s.lineEnd).toNat

/-- The loop to the first newline character, for a number of turns. -/
def toNewline : Nat → LineState → LineState
  | 0, s => s
  | turns + 1, s =>
    if s.lineEnd < s.bufLen ∧ isNewline (s.byteAt s.lineEnd) = false then
      toNewline turns { s with lineEnd := s.lineEnd + 1 }
    else s

/-- The loop that overwrites newlines with NULs, for a number of turns. -/
def nullNewlines : Nat → LineState → LineState
  | 0, s => s
  | turns + 1, s =>
    if s.lineEnd < s.bufLen ∧ isNewline (s.byteAt s.lineEnd) = true then
      nullNewlines turns s.nullLast
    else s

/-- The end of a line in HTTP mode: one CRLF, a CR or an LF. -/
def nullHttp : LineState :=
  if s.byteAt s.lineEnd = 13 then
    let s := s.nullLast
    if s.byteAt s.lineEnd = 10 then s.nullLast else s
  else s.nullLast

/-- The rest of `next`, once the first newline character is found or nothing is left. -/
def endLine : Bool × LineState :=
  if s.lineEnd ≥ s.bufLen then (false, { s with lineComplete := false })
  else
    let s := if s.httpMode then s.nullHttp else s.nullNewlines s.left
    (true, { s with tokStart := s.lineStart, tokEnd := s.lineStart, lineComplete := true })

/-- The method `next`. -/
def next : Bool × LineState :=
  let s := if s.lineEnd > 0 then { s with lineStart := s.lineEnd } else s
  if s.lineEnd ≥ s.bufLen then (false, { s with lineComplete := false })
  else (s.toNewline s.left).endLine

/-- The method `line`: the C string at `lineStart_`. -/
def line : Bytes :=
  if s.lineComplete then (s.buf.drop s.lineStart).takeWhile (· != 0) else []

/-- What `memmove(buf_, buf_ + from, count)` leaves in the buffer. -/
def moved (start count : Nat) : Bytes :=
  let kept := (s.buf.drop start).take count
  kept ++ s.buf.drop kept.length

/-- The method `consume`. -/
def consume : Bool × LineState :=
  let remaining : Int := if s.lineComplete then 0 else s.bufLen - s.lineStart
  let buf := if s.lineComplete then s.buf else s.moved s.lineStart remaining.toNat
  (remaining < s.buf.length,
    { s with buf := buf, bufLen := remaining, lineStart := 0, lineEnd := 0, lineComplete := false })

/-- The space that is left, as `getReadInfo` reports it and both reads ask for it. -/
def remaining : Int := s.buf.length - s.bufLen

/-- The buffer with bytes written from `bufLen_` on, and their number added to it. -/
def filled (data : Bytes) : LineState :=
  let at_end := s.bufLen.toNat
  { s with buf := s.buf.take at_end ++ data ++ s.buf.drop (at_end + data.length),
           bufLen := s.bufLen + data.length }

/-- The method `readStream`, for the bytes the stream gives. -/
def readStream (data : Bytes) : Int × LineState := (data.length, s.filled data)

/-- The method `readFd`. The result of `read` is unsigned, so the test of an error misses -1. -/
def readFd : SysRead → Int × LineState
  | .bytes [] => (0, s)
  | .bytes data => (data.length, s.filled data)
  | .wouldBlock | .failed => (-1, { s with bufLen := s.bufLen - 1 })

/-! ### The bytes ahead -/

/-- The bytes from `lineEnd_` up to `bufLen_`. -/
def ahead : Bytes := (s.buf.take s.bufLen.toNat).drop s.lineEnd

/-- The indices are in order. -/
structure InOrder : Prop where
  inside : s.bufLen ≤ s.buf.length
  reached : s.lineEnd ≤ s.bufLen

variable {s} (order : InOrder s)
include order

@[simp] theorem ahead_length : s.ahead.length = s.left := by
  have := order.inside
  have := order.reached
  simp [ahead, left]
  omega

theorem ahead_eq_nil : s.ahead = [] ↔ s.lineEnd ≥ s.bufLen := by
  rw [← List.length_eq_zero_iff, ahead_length order, left]
  omega

theorem ahead_cons (more : s.lineEnd < s.bufLen) :
    s.ahead = s.byteAt s.lineEnd :: { s with lineEnd := s.lineEnd + 1 }.ahead := by
  have inside := order.inside
  have below : s.lineEnd < s.buf.length := by omega
  have below_taken : s.lineEnd < (s.buf.take s.bufLen.toNat).length := by
    rw [List.length_take]
    omega
  simp only [ahead, byteAt]
  rw [List.drop_eq_getElem_cons below_taken, List.getElem_take]
  simp [List.getElem?_eq_getElem below]

theorem InOrder.advance (more : s.lineEnd < s.bufLen) :
    InOrder { s with lineEnd := s.lineEnd + 1 } :=
  ⟨order.inside, by simp; omega⟩

/-- The first loop passes over the run before the first newline. -/
theorem toNewline_eq (turns : Nat) (enough : s.left ≤ turns) :
    toNewline turns s =
      { s with lineEnd := s.lineEnd + (s.ahead.takeWhile (!isNewline ·)).length } := by
  induction turns generalizing s with
  | zero =>
    have none_left : s.ahead = [] := by
      rw [← List.length_eq_zero_iff, ahead_length order]
      omega
    simp [toNewline, none_left]
  | succ turns ih =>
    by_cases more : s.lineEnd < s.bufLen
    · by_cases newline : isNewline (s.byteAt s.lineEnd) = true
      · simp [toNewline, newline, ahead_cons order more]
      · have rest := ih (order.advance more) (by simp only [left] at enough ⊢; omega)
        simp only [toNewline, more, newline, ahead_cons order more, rest]
        simp [newline]
        omega
    · have none_left : s.ahead = [] := (ahead_eq_nil order).mpr (by omega)
      simp [toNewline, more, none_left]

theorem InOrder.nullLast (more : s.lineEnd < s.bufLen) : InOrder s.nullLast := by
  have inside := order.inside
  exact ⟨by simpa [LineState.nullLast] using inside, by simp only [LineState.nullLast]; omega⟩

theorem ahead_nullLast (more : s.lineEnd < s.bufLen) :
    s.nullLast.ahead = s.ahead.tail := by
  rw [ahead_cons order more, List.tail_cons]
  simp only [ahead, nullLast, List.take_set]
  exact List.drop_set_of_lt (Nat.lt_succ_self _)

/-- The second loop eats the newlines and leaves NULs. -/
theorem nullNewlines_eq (turns : Nat) (enough : s.left ≤ turns) :
    nullNewlines turns s =
      let eaten := (s.ahead.takeWhile isNewline).length
      { s with
        buf := s.buf.take s.lineEnd ++ List.replicate eaten 0 ++ s.buf.drop (s.lineEnd + eaten),
        lineEnd := s.lineEnd + eaten } := by
  induction turns generalizing s with
  | zero =>
    have none_left : s.ahead = [] := by
      rw [← List.length_eq_zero_iff, ahead_length order]
      omega
    simp [nullNewlines, none_left]
  | succ turns ih =>
    by_cases more : s.lineEnd < s.bufLen
    · by_cases newline : isNewline (s.byteAt s.lineEnd) = true
      · have inside := order.inside
        have below : s.lineEnd < s.buf.length := by omega
        have rest := ih (order.nullLast more) (by simp only [left, nullLast] at enough ⊢; omega)
        rw [ahead_nullLast order more] at rest
        simp only [nullNewlines, more, newline, and_self, if_true, rest]
        rw [ahead_cons order more, List.tail_cons, List.takeWhile_cons_of_pos newline]
        simp only [nullLast, List.length_cons, List.replicate_succ]
        congr 1
        · have nulled : (s.buf.set s.lineEnd 0).take (s.lineEnd + 1) = s.buf.take s.lineEnd ++ [0] := by
            rw [List.take_succ_eq_append_getElem (by simpa using below), List.getElem_set_self,
              List.take_set_of_le (Nat.le_refl _)]
          rw [nulled, List.drop_set_of_lt (by omega)]
          simp only [List.append_assoc, List.cons_append, List.nil_append]
          congr 4
          omega
        · omega
      · simp [nullNewlines, newline, ahead_cons order more]
    · have none_left : s.ahead = [] := (ahead_eq_nil order).mpr (by omega)
      simp [nullNewlines, more, none_left]

variable (started : s.lineEnd = 0 → s.lineStart = 0)
include started

omit order in
theorem lineStart_eq :
    (if s.lineEnd > 0 then { s with lineStart := s.lineEnd } else s) =
      { s with lineStart := s.lineEnd } := by
  split
  · rfl
  · have zero : s.lineEnd = 0 := by omega
    have start := started zero
    cases s
    simp_all

/-- **With no newline ahead**, `next` passes over everything and gives no line. -/
theorem next_none (free : ∀ c ∈ s.ahead, isNewline c = false) :
    s.next = (false, { s with
      lineStart := s.lineEnd, lineEnd := s.bufLen.toNat, lineComplete := false }) := by
  have reached := order.reached
  simp only [next, lineStart_eq started]
  by_cases done : s.lineEnd ≥ s.bufLen
  · rw [if_pos done, show s.bufLen.toNat = s.lineEnd by omega]
  · have all : s.ahead.takeWhile (!isNewline ·) = s.ahead :=
      List.takeWhile_eq_self_iff.mpr fun c member => by simp [free c member]
    have same : LineState.ahead { s with lineStart := s.lineEnd } = s.ahead := rfl
    have passed : s.lineEnd + s.left = s.bufLen.toNat := by
      simp only [left]
      omega
    rw [if_neg done, toNewline_eq (s := { s with lineStart := s.lineEnd })
      ⟨order.inside, order.reached⟩ _ (Nat.le_refl _), same, all, ahead_length order, passed, endLine,
      if_pos (by simp only; omega)]

omit order started in
/-- The bytes ahead after a run of the bytes ahead. -/
theorem ahead_after {run rest : Bytes} (cut : s.ahead = run ++ rest) :
    { s with lineEnd := s.lineEnd + run.length }.ahead = rest := by
  have dropped : s.ahead.drop run.length = rest := by rw [cut, List.drop_left]
  rw [← dropped]
  simp [ahead, List.drop_drop]

omit order started in
/-- The bytes ahead depend on the buffer from `lineEnd_` on only. -/
theorem ahead_congr {t : LineState} (size : t.buf.drop t.lineEnd = s.buf.drop s.lineEnd)
    (same_end : t.lineEnd = s.lineEnd) (same_fill : t.bufLen = s.bufLen) : t.ahead = s.ahead := by
  rw [ahead, ahead, List.drop_take, List.drop_take, size, same_end, same_fill]

/-- The buffer once the next line is a run of some length with newlines after it. -/
def cutAt (s : LineState) (run eaten : Nat) : LineState :=
  { s with
    buf := s.buf.take (s.lineEnd + run) ++ List.replicate eaten 0 ++
      s.buf.drop (s.lineEnd + run + eaten),
    lineStart := s.lineEnd, lineEnd := s.lineEnd + run + eaten,
    tokStart := s.lineEnd, tokEnd := s.lineEnd, lineComplete := true }

section Cut

variable {run seps rest : Bytes} (cut : s.ahead = run ++ (seps ++ rest))
include cut

omit started in
theorem cut_length : s.lineEnd + run.length + seps.length + rest.length = s.bufLen.toNat := by
  have reached := order.reached
  have total := ahead_length order
  rw [cut, left] at total
  simp only [List.length_append] at total
  omega

omit started in
theorem cutAt_size : (s.cutAt run.length seps.length).buf.length = s.buf.length := by
  have inside := order.inside
  have total := cut_length order cut
  simp only [cutAt, List.length_append, List.length_take, List.length_replicate, List.length_drop]
  omega

omit started in
theorem cutAt_order : InOrder (s.cutAt run.length seps.length) := by
  have total := cut_length order cut
  have reached := order.reached
  refine ⟨?_, ?_⟩
  · rw [cutAt_size order cut]
    exact order.inside
  · simp only [cutAt]
    omega

omit started in
theorem cutAt_ahead : (s.cutAt run.length seps.length).ahead = rest := by
  have inside := order.inside
  have total := cut_length order cut
  have passed := ahead_after (s := { s with lineEnd := s.lineEnd + run.length })
    (ahead_after cut)
  have before : (s.buf.take (s.lineEnd + run.length) ++ List.replicate seps.length 0).length =
      s.lineEnd + run.length + seps.length := by
    simp only [List.length_append, List.length_take, List.length_replicate]
    omega
  rw [← passed]
  apply ahead_congr
  · simp only [cutAt]
    rw [List.drop_left' before]
  · rfl
  · rfl

omit started in
/-- The line is the C string of the run. -/
theorem cutAt_cString (some_sep : seps ≠ []) :
    (s.cutAt run.length seps.length).line = run.takeWhile (· != 0) := by
  have total := cut_length order cut
  have inside := order.inside
  obtain ⟨sep, later, rfl⟩ := List.exists_cons_of_ne_nil some_sep
  have here : (s.buf.drop s.lineEnd).take run.length = run := by
    have dropped : s.ahead.take run.length = run := by rw [cut, List.take_left]
    rw [ahead, List.drop_take, List.take_take] at dropped
    rwa [Nat.min_eq_left (by omega)] at dropped
  have below : s.lineEnd ≤ (s.buf.take (s.lineEnd + run.length)).length := by
    rw [List.length_take]
    omega
  simp only [line, cutAt, if_true, List.append_assoc, List.length_cons, List.replicate_succ]
  rw [List.drop_append_of_le_length below, List.drop_take, Nat.add_sub_cancel_left, here,
    List.takeWhile_append]
  split
  · next whole =>
    have same := (List.takeWhile_prefix (· != 0)).eq_of_length whole
    rw [same]
    simp
  · rfl

omit started in
theorem cutAt_line (text : ∀ c ∈ run, c ≠ 0) (some_sep : seps ≠ []) :
    (s.cutAt run.length seps.length).line = run := by
  rw [cutAt_cString order cut some_sep, List.takeWhile_eq_self_iff]
  intro c member
  simpa using text c member

/-- **With a newline ahead**, `next` makes the run before it the line and eats all newlines there. -/
theorem next_some (plain : s.httpMode = false) (free : ∀ c ∈ run, isNewline c = false)
    (seps_newline : ∀ c ∈ seps, isNewline c = true) (some_sep : seps ≠ [])
    (stops : ∀ c ∈ rest.head?, isNewline c = false) :
    s.next = (true, s.cutAt run.length seps.length) := by
  have total := cut_length order cut
  have reached := order.reached
  have inside := order.inside
  have some_length : 0 < seps.length := List.length_pos_iff.mpr some_sep
  have run_taken : s.ahead.takeWhile (!isNewline ·) = run := by
    rw [cut, List.takeWhile_append_of_pos (fun c member => by simp [free c member])]
    cases seps with
    | nil => exact absurd rfl some_sep
    | cons first later => simp [seps_newline first (by simp)]
  have seps_taken : (seps ++ rest).takeWhile isNewline = seps := by
    rw [List.takeWhile_append_of_pos seps_newline]
    cases rest with
    | nil => simp
    | cons first later => simp [stops first (by simp)]
  -- the state when the loop to the newline is done
  let m : LineState := { s with lineStart := s.lineEnd, lineEnd := s.lineEnd + run.length }
  have m_ahead : m.ahead = seps ++ rest := ahead_after cut
  have m_order : InOrder m := ⟨inside, by simp only [m]; omega⟩
  have found : toNewline (LineState.left { s with lineStart := s.lineEnd })
      { s with lineStart := s.lineEnd } = m := by
    have same : LineState.ahead { s with lineStart := s.lineEnd } = s.ahead := rfl
    rw [toNewline_eq (s := { s with lineStart := s.lineEnd }) ⟨inside, reached⟩ _ (Nat.le_refl _),
      same, run_taken]
  have eaten := nullNewlines_eq m_order m.left (Nat.le_refl _)
  rw [m_ahead, seps_taken] at eaten
  have more : ¬ (s.lineEnd : Int) ≥ s.bufLen := by omega
  have m_more : ¬ (m.lineEnd : Int) ≥ m.bufLen := by
    simp only [m]
    omega
  have m_plain : m.httpMode = false := plain
  rw [next, lineStart_eq started]
  simp only [more, if_false, found, endLine, m_more, m_plain, Bool.false_eq_true]
  rw [eaten]
  rfl

end Cut

end LineState

end Apib
