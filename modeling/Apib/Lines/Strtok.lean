/-
**Tokens as `strtok` gives them.**

The calls of `nextToken` on a line that `next` has given, at any point of any history, with any set of
delimiters that has no NUL.

* `next_given`: the line is the bytes up to the first newline character, with NULs behind them;
* `framed_calls`: the calls write in the line only;
* `Tokens.given`: a line that does not begin with a delimiter gives its words, and then the empty string;
* `strtok_iff`: **so does a line without NULs exactly when it does not begin with a delimiter or there
  is nothing else in it**.
-/

import Apib.Lines.Failures

namespace Apib

namespace LineState

/-- The state after a number of calls of `nextToken`. -/
def tokenCalls (toks : Bytes) : Nat → LineState → LineState
  | 0, s => s
  | n + 1, s => tokenCalls toks n (s.nextToken toks).2

/-- What the call after so many calls of `nextToken` gives. -/
def tokenAt (toks : Bytes) (n : Nat) (s : LineState) : Bytes := ((tokenCalls toks n s).nextToken toks).1

/-- The line that `next` is about to give: the bytes up to the first newline character. -/
def lineText (s : LineState) : Bytes := s.ahead.takeWhile (!isNewline ·)

/-- **The calls give the words of a line** one after the other, then the empty string for ever, and no byte
that is not in the line changes. -/
structure LikeStrtok (toks text : Bytes) (s : LineState) : Prop where
  given : ∀ n, tokenAt toks n s = (Segments.words (isChar · toks) text).getD n []
  kept : ∀ n i : Nat, i < s.lineStart ∨ s.lineEnd ≤ i → (tokenCalls toks n s).buf[i]? = s.buf[i]?

variable {s : LineState}

/-! ### What the calls write -/

/-- Nothing but the bytes from `tokEnd_` up to `lineEnd_` may have changed, and the tokens. -/
structure Framed (s t : LineState) : Prop where
  size : t.buf.length = s.buf.length
  same_len : t.bufLen = s.bufLen
  same_start : t.lineStart = s.lineStart
  same_end : t.lineEnd = s.lineEnd
  further : s.tokEnd ≤ t.tokEnd
  outside : ∀ i : Nat, i < s.tokEnd ∨ s.lineEnd ≤ i → t.buf[i]? = s.buf[i]?

theorem Framed.refl (s : LineState) : Framed s s := ⟨rfl, rfl, rfl, rfl, Nat.le_refl _, fun _ _ => rfl⟩

theorem Framed.trans {t u : LineState} (first : Framed s t) (second : Framed t u) : Framed s u := by
  refine ⟨second.size.trans first.size, second.same_len.trans first.same_len,
    second.same_start.trans first.same_start, second.same_end.trans first.same_end,
    first.further.trans second.further, fun i out => ?_⟩
  rw [second.outside i, first.outside i out]
  rw [first.same_end]
  exact out.imp_left fun before => Nat.lt_of_lt_of_le before first.further

theorem framed_advance : Framed s { s with tokEnd := s.tokEnd + 1 } :=
  ⟨rfl, rfl, rfl, rfl, Nat.le_succ _, fun _ _ => rfl⟩

theorem framed_toDelimiter (toks : Bytes) (turns : Nat) : Framed s (toDelimiter toks turns s) := by
  induction turns generalizing s with
  | zero => exact Framed.refl s
  | succ turns ih =>
    rw [toDelimiter]
    split
    · exact framed_advance.trans ih
    · exact Framed.refl s

theorem framed_nullDelimiters (toks : Bytes) (turns : Nat) :
    Framed s (nullDelimiters toks turns s) := by
  induction turns generalizing s with
  | zero => exact Framed.refl s
  | succ turns ih =>
    rw [nullDelimiters]
    split
    · next both =>
      have step : Framed s { s with buf := s.buf.set s.tokEnd 0, tokEnd := s.tokEnd + 1 } := by
        refine ⟨by simp, rfl, rfl, rfl, Nat.le_succ _, fun i out => ?_⟩
        have other : s.tokEnd ≠ i := by
          have inside := both.1
          omega
        exact List.getElem?_set_ne other
      exact step.trans ih
    · exact Framed.refl s

theorem framed_passDelimiters (toks : Bytes) (turns : Nat) :
    Framed s (passDelimiters toks turns s) := by
  induction turns generalizing s with
  | zero => exact Framed.refl s
  | succ turns ih =>
    rw [passDelimiters]
    split
    · exact framed_advance.trans ih
    · exact Framed.refl s

theorem framed_nextToken (toks : Bytes) : Framed s (s.nextToken toks).2 := by
  have start : Framed s { s with tokStart := s.tokEnd } :=
    ⟨rfl, rfl, rfl, rfl, Nat.le_refl _, fun _ _ => rfl⟩
  rw [nextToken]
  split
  · exact Framed.refl s
  · split
    · exact Framed.refl s
    · simp only
      split
      · exact start
      · exact start.trans ((framed_toDelimiter toks _).trans (framed_nullDelimiters toks _))

/-- **The calls write in the line only.** -/
theorem framed_calls (toks : Bytes) (n : Nat) : Framed s (tokenCalls toks n s) := by
  induction n generalizing s with
  | zero => exact Framed.refl s
  | succ n ih => exact (framed_nextToken toks).trans ih

/-! ### The valid data over a history -/

/-- The valid data fits the buffer, and a line ends no earlier than it starts. -/
structure Within (s : LineState) : Prop where
  inside : s.bufLen ≤ s.buf.length
  started : s.lineStart ≤ s.lineEnd

/-- `lineEnd_` has been moved on, and bytes may have been overwritten. -/
structure Advanced (s t : LineState) : Prop where
  size : t.buf.length = s.buf.length
  same_len : t.bufLen = s.bufLen
  same_start : t.lineStart = s.lineStart
  further : s.lineEnd ≤ t.lineEnd

theorem Advanced.refl (s : LineState) : Advanced s s := ⟨rfl, rfl, rfl, Nat.le_refl _⟩

theorem Advanced.trans {t u : LineState} (first : Advanced s t) (second : Advanced t u) : Advanced s u :=
  ⟨second.size.trans first.size, second.same_len.trans first.same_len,
    second.same_start.trans first.same_start, first.further.trans second.further⟩

theorem advanced_nullLast : Advanced s s.nullLast := ⟨by simp [nullLast], rfl, rfl, Nat.le_succ _⟩

theorem advanced_toNewline (turns : Nat) : Advanced s (toNewline turns s) := by
  induction turns generalizing s with
  | zero => exact Advanced.refl s
  | succ turns ih =>
    rw [toNewline]
    split
    · have step : Advanced s { s with lineEnd := s.lineEnd + 1 } := ⟨rfl, rfl, rfl, Nat.le_succ _⟩
      exact step.trans ih
    · exact Advanced.refl s

theorem advanced_nullNewlines (turns : Nat) : Advanced s (nullNewlines turns s) := by
  induction turns generalizing s with
  | zero => exact Advanced.refl s
  | succ turns ih =>
    rw [nullNewlines]
    split
    · exact advanced_nullLast.trans ih
    · exact Advanced.refl s

theorem advanced_nullHttp : Advanced s s.nullHttp := by
  rw [nullHttp]
  split
  · simp only
    split
    · exact advanced_nullLast.trans advanced_nullLast
    · exact advanced_nullLast
  · exact advanced_nullLast

theorem advanced_endLine : Advanced s s.endLine.2 := by
  rw [endLine]
  split
  · exact ⟨rfl, rfl, rfl, Nat.le_refl _⟩
  · have nulls : Advanced s (if s.httpMode then s.nullHttp else s.nullNewlines s.left) := by
      split
      · exact advanced_nullHttp
      · exact advanced_nullNewlines _
    exact ⟨nulls.size, nulls.same_len, nulls.same_start, nulls.further⟩

theorem Within.advanced {t : LineState} (within : Within s) (advanced : Advanced s t) : Within t := by
  refine ⟨?_, ?_⟩
  · rw [advanced.size, advanced.same_len]
    exact within.inside
  · rw [advanced.same_start]
    exact within.started.trans advanced.further

theorem Within.framed {t : LineState} (within : Within s) (framed : Framed s t) : Within t := by
  refine ⟨?_, ?_⟩
  · rw [framed.size, framed.same_len]
    exact within.inside
  · rw [framed.same_start, framed.same_end]
    exact within.started

theorem Within.next (within : Within s) : Within s.next.2 := by
  have begun : Within (if s.lineEnd > 0 then { s with lineStart := s.lineEnd } else s) := by
    split
    · exact ⟨within.inside, Nat.le_refl _⟩
    · exact within
  rw [LineState.next]
  generalize (if s.lineEnd > 0 then { s with lineStart := s.lineEnd } else s) = t at begun
  split
  · exact ⟨begun.inside, begun.started⟩
  · exact begun.advanced ((advanced_toNewline _).trans advanced_endLine)

theorem Within.consume (within : Within s) : Within s.consume.2 := by
  have inside := within.inside
  refine ⟨?_, Nat.le_refl _⟩
  rw [LineState.consume]
  by_cases complete : s.lineComplete = true
  · simp [complete]
  · have incomplete : s.lineComplete = false := by simpa using complete
    simp only [incomplete, Bool.false_eq_true, if_false, moved, List.length_append, List.length_drop,
      List.length_take]
    omega

/-- **Bytes there is space for** are written into the buffer. -/
theorem Within.overwrite (within : Within s) {data : Bytes} {len : Nat} (room : (len : Int) ≤ s.remaining) :
    Within ((s.overwrite data).setReadLength len) := by
  have inside := within.inside
  refine ⟨?_, within.started⟩
  simp only [setReadLength, LineState.overwrite, List.length_append, List.length_take, List.length_drop]
  unfold remaining at room
  omega

theorem room_length (within : Within s) (data : Bytes) : ((s.room data).length : Int) ≤ s.remaining := by
  have inside := within.inside
  simp only [room, remaining, List.length_take]
  omega

/-- **Every operation** leaves the valid data in the buffer. -/
theorem Within.operate (within : Within s) (operation : Operation) : Within (s.operate operation).2 := by
  have inside := within.inside
  have started := within.started
  cases operation with
  | dataRemaining => exact within
  | skip toSkip =>
    refine ⟨inside, ?_⟩
    simp only [LineState.operate, skip]
    omega
  | call call =>
    cases call with
    | next => exact within.next
    | line => exact within
    | nextToken toks => exact within.framed (framed_nextToken toks)
    | skipMatches toks => exact within.framed (framed_passDelimiters toks _)
    | consume => exact within.consume
    | clear => exact ⟨Int.natCast_nonneg _, Nat.le_refl _⟩
    | setHttpMode on => exact ⟨inside, started⟩
    | readStream offered => exact within.overwrite (room_length within offered)
    | readFd offered =>
      cases offered with
      | bytes offered =>
        have filled : Within (s.filled (s.room offered)) := within.overwrite (room_length within offered)
        show Within (s.readFd (.bytes (s.room offered))).2
        cases given : s.room offered with
        | nil => exact within
        | cons first others =>
          rw [given] at filled
          exact filled
      | wouldBlock => exact ⟨Int.le_trans (Int.sub_le_self _ (by decide)) inside, started⟩
      | failed => exact ⟨Int.le_trans (Int.sub_le_self _ (by decide)) inside, started⟩
    | fill written len =>
      have fits : ((min len s.remaining.toNat : Nat) : Int) ≤ s.remaining := by
        unfold remaining
        omega
      exact within.overwrite fits

theorem within_after {memory : Bytes} {len : Nat} (fits : len ≤ memory.length) (history : List Operation) :
    Within ((ofBuffer memory len).after history) := by
  have start : Within (ofBuffer memory len) := ⟨by simpa [ofBuffer] using fits, Nat.le_refl _⟩
  generalize ofBuffer memory len = s at start
  induction history generalizing s with
  | nil => exact start
  | cons operation history ih => exact ih _ (start.operate operation)

/-! ### The line -/

/-- Bytes from `lineEnd_` on become NULs and belong to the line. -/
def nulls (s : LineState) (n : Nat) : LineState :=
  { s with buf := s.buf.take s.lineEnd ++ List.replicate n 0 ++ s.buf.drop (s.lineEnd + n),
           lineEnd := s.lineEnd + n }

theorem nulls_nullLast (n : Nat) (inside : s.lineEnd + n < s.buf.length) :
    (s.nulls n).nullLast = s.nulls (n + 1) := by
  have before : (s.buf.take s.lineEnd ++ List.replicate n 0).length = s.lineEnd + n := by
    simp only [List.length_append, List.length_take, List.length_replicate]
    omega
  have here : s.buf.drop (s.lineEnd + n) =
      s.buf[s.lineEnd + n] :: s.buf.drop (s.lineEnd + (n + 1)) := List.drop_eq_getElem_cons inside
  simp only [nulls, nullLast]
  rw [List.set_append_right _ _ (Nat.le_of_eq before), before, Nat.sub_self, here, List.set_cons_zero,
    List.replicate_succ', ← List.append_assoc, List.append_assoc _ [0]]
  rfl

theorem nullLast_eq (inside : s.lineEnd < s.buf.length) : s.nullLast = s.nulls 1 := by
  have same : s.nulls 0 = s := by simp [nulls]
  have one := nulls_nullLast (s := s) 0 inside
  rwa [same] at one

/-- **What ends a line** becomes NULs, at least one. -/
theorem exists_nulls (order : InOrder s) (more : s.lineEnd < s.bufLen)
    (newline : isNewline (s.byteAt s.lineEnd) = true) :
    ∃ n, s.lineEnd + (n + 1) ≤ s.buf.length ∧
      (if s.httpMode then s.nullHttp else s.nullNewlines s.left) = s.nulls (n + 1) := by
  have inside := order.inside
  have here : s.lineEnd < s.buf.length := by omega
  have one := nullLast_eq here
  by_cases http : s.httpMode = true
  · rw [if_pos http, nullHttp]
    by_cases cr : s.byteAt s.lineEnd = 13
    · rw [if_pos cr]
      simp only
      by_cases lf : s.nullLast.byteAt s.nullLast.lineEnd = 10
      · -- a byte that is an LF is in the buffer
        have behind : s.lineEnd + 1 < s.buf.length := by
          by_contra outside
          have none_there : s.nullLast.buf[s.nullLast.lineEnd]? = none := by
            rw [List.getElem?_eq_none_iff]
            simp only [nullLast, List.length_set]
            omega
          rw [byteAt, List.getD_eq_getElem?_getD, none_there] at lf
          cases lf
        rw [if_pos lf, one, nulls_nullLast 1 behind]
        exact ⟨1, behind, rfl⟩
      · rw [if_neg lf, one]
        exact ⟨0, here, rfl⟩
    · rw [if_neg cr, one]
      exact ⟨0, here, rfl⟩
  · rw [if_neg http, nullNewlines_eq order s.left (Nat.le_refl _)]
    have first := ahead_cons order more
    have size := ahead_length order
    have eaten_le := (List.takeWhile_prefix (l := s.ahead) isNewline).length_le
    rw [first, List.takeWhile_cons_of_pos newline, List.length_cons, List.length_cons] at eaten_le
    rw [first, List.length_cons, left] at size
    rw [first, List.takeWhile_cons_of_pos newline, List.length_cons]
    exact ⟨_, by omega, rfl⟩

/-- **The line that `next` gives** is cut off behind the bytes up to the first newline character. -/
theorem next_given {t : LineState} (within : Within s) (given : s.next = (true, t)) :
    ∃ n, s.lineEnd + s.lineText.length + (n + 1) ≤ s.buf.length ∧
      t = s.cutAt s.lineText.length (n + 1) := by
  have ordered := within.started
  rw [next, lineStart_eq fun zero => by omega] at given
  by_cases none_left : (s.lineEnd : Int) ≥ s.bufLen
  · simp [none_left] at given
  · have order : InOrder s.started := ⟨within.inside, by simp only [started]; omega⟩
    have order_at := atNewline_order order
    have reached : toNewline (left { s with lineStart := s.lineEnd }) { s with lineStart := s.lineEnd } =
        s.started.atNewline := toNewline_left order
    simp only [none_left, if_false, reached, endLine] at given
    by_cases none_found : (s.started.atNewline.lineEnd : Int) ≥ s.started.atNewline.bufLen
    · simp [none_found] at given
    · rw [if_neg none_found] at given
      have more : (s.started.atNewline.lineEnd : Int) < s.started.atNewline.bufLen := by omega
      obtain ⟨n, inside, nulled⟩ := exists_nulls order_at more (isNewline_atNewline order more)
      rw [nulled] at given
      exact ⟨n, inside, (congrArg Prod.snd given).symm⟩

/-- The bytes of the line, and the NULs that end it. -/
theorem cutAt_inLine {run n : Nat} (inside : s.lineEnd + run + n ≤ s.buf.length) :
    (s.cutAt run n).inLine = (s.buf.drop s.lineEnd).take run ++ List.replicate n 0 := by
  have before : (s.buf.take (s.lineEnd + run) ++ List.replicate n 0).length = s.lineEnd + run + n := by
    simp only [List.length_append, List.length_take, List.length_replicate]
    omega
  have below : s.lineEnd ≤ (s.buf.take (s.lineEnd + run)).length := by
    rw [List.length_take]
    omega
  simp only [inLine, cutAt]
  rw [List.take_left' before, List.drop_append_of_le_length below, List.drop_take, Nat.add_sub_cancel_left]

theorem take_lineText : (s.buf.drop s.lineEnd).take s.lineText.length = s.lineText := by
  have ahead_eq : s.ahead = (s.buf.drop s.lineEnd).take (s.bufLen.toNat - s.lineEnd) := by
    rw [ahead, List.drop_take]
  have starts : s.lineText <+: s.buf.drop s.lineEnd := by
    have run := List.takeWhile_prefix (l := s.ahead) (!isNewline ·)
    have within_data : s.ahead <+: s.buf.drop s.lineEnd := by
      rw [ahead_eq]
      exact List.take_prefix _ _
    exact run.trans within_data
  exact (List.prefix_iff_eq_take.mp starts).symm

/-- What follows in the buffer is the rest of the line and what is behind it. -/
theorem inLine_append (reached : s.tokEnd ≤ s.lineEnd) (inside : s.lineEnd ≤ s.buf.length) :
    s.buf.drop s.tokEnd = s.inLine ++ s.buf.drop s.lineEnd := by
  have below : s.tokEnd ≤ (s.buf.take s.lineEnd).length := by
    rw [List.length_take]
    omega
  rw [inLine, ← List.drop_append_of_le_length below, List.take_append_drop]

/-- **The line that `next` gives** is ready for its tokens. -/
theorem tokens_given {t : LineState} (within : Within s) (given : s.next = (true, t))
    (text : 0 ∉ s.lineText) : Lines.Tokens s.lineText t := by
  obtain ⟨n, inside, rfl⟩ := next_given within given
  refine ⟨rfl, ?_, text, n, ?_⟩
  · simp only [cutAt, List.length_append, List.length_take, List.length_replicate, List.length_drop]
    omega
  · rw [cutAt_inLine inside, take_lineText]

/-- The method `line` then gives the text. -/
theorem line_given {t : LineState} (within : Within s) (given : s.next = (true, t))
    (text : 0 ∉ s.lineText) : t.line = s.lineText := by
  have tokens := tokens_given within given text
  obtain ⟨n, ended⟩ := tokens.ended
  have reached := Nat.le_of_lt tokens.more
  have start : t.lineStart = t.tokEnd := by
    obtain ⟨m, -, rfl⟩ := next_given within given
    rfl
  have shown : ∀ c ∈ s.lineText, (c != 0) = true := by
    intro c member
    have other : c ≠ 0 := by
      rintro rfl
      exact text member
    simpa using other
  rw [line, if_pos tokens.complete, start, inLine_append reached tokens.inside, ended, List.append_assoc,
    List.takeWhile_append_of_pos shown]
  simp [List.replicate_succ]

/-- A token has no NUL. -/
theorem nul_notMem_nextToken (toks : Bytes) : 0 ∉ (s.nextToken toks).1 := by
  rw [nextToken]
  split
  · exact List.not_mem_nil
  · split
    · exact List.not_mem_nil
    · intro member
      have other := List.mem_takeWhile_imp member
      simp at other

end LineState

namespace Lines

open Segments LineState

variable {toks : Bytes}

theorem UsedUp.tokenAt {s : LineState} (used : UsedUp s) (n : Nat) : LineState.tokenAt toks n s = [] := by
  induction n with
  | zero => exact congrArg Prod.fst (used.nextToken toks)
  | succ n ih =>
    have same : tokenCalls toks (n + 1) s = tokenCalls toks n s := by
      rw [tokenCalls, used.nextToken]
    rw [LineState.tokenAt, same]
    exact ih

section Given

variable (some_tok : toks ≠ []) (nul : 0 ∉ toks)
include some_tok nul

/-- **A line that does not begin with a delimiter** gives its words. -/
theorem Tokens.given {text : Bytes} {s : LineState} (tokens : Tokens text s)
    (stops : leads (isChar · toks) text = false) (n : Nat) :
    tokenAt toks n s = (words (isChar · toks) text).getD n [] := by
  induction n generalizing s text with
  | zero =>
    rcases @cases_run _ (isChar · toks) text with
      free | ⟨run, seps, rest, rfl, free, cuts, some_sep, stops_rest⟩
    · obtain ⟨first, -⟩ := tokens.last some_tok nul free
      rw [tokenAt, tokenCalls, first, words_of_free free]
      split
      · next empty => rw [empty]; rfl
      · rfl
    · obtain ⟨first, -⟩ := tokens.word some_tok nul free cuts some_sep stops_rest
      have some_run := run_ne_nil stops cuts some_sep
      rw [tokenAt, tokenCalls, first, words_cut rest free cuts some_sep, if_neg some_run]
      rfl
  | succ n ih =>
    rcases @cases_run _ (isChar · toks) text with
      free | ⟨run, seps, rest, rfl, free, cuts, some_sep, stops_rest⟩
    · obtain ⟨-, used⟩ := tokens.last some_tok nul free
      have later : tokenAt toks (n + 1) s = [] := used.tokenAt n
      rw [later, words_of_free free]
      split
      · rfl
      · rfl
    · obtain ⟨-, left, -⟩ := tokens.word some_tok nul free cuts some_sep stops_rest
      have some_run := run_ne_nil stops cuts some_sep
      have later : tokenAt toks (n + 1) s = _ := ih left stops_rest
      rw [later, words_cut rest free cuts some_sep, if_neg some_run]
      rfl

/-- A line that begins with a delimiter gives the empty string first. -/
theorem Tokens.first_of_leads {text : Bytes} {s : LineState} (tokens : Tokens text s)
    (starts : leads (isChar · toks) text = true) : (s.nextToken toks).1 = [] ∧
      ((∀ c ∈ text, isChar c toks = true) → Tokens [] (s.nextToken toks).2) := by
  rcases @cases_run _ (isChar · toks) text with
    free | ⟨run, seps, rest, rfl, free, cuts, some_sep, stops_rest⟩
  · cases text with
    | nil => cases starts
    | cons c others =>
      have first := free c List.mem_cons_self
      simp [leads, first] at starts
  · obtain ⟨given, left, -⟩ := tokens.word some_tok nul free cuts some_sep stops_rest
    have none_run : run = [] := ((leads_append free _).mp starts).1
    refine ⟨given.trans none_run, fun all => ?_⟩
    cases rest with
    | nil => exact left
    | cons c others =>
      have last := all c (by simp)
      simp [leads, last] at stops_rest

/-- **The words are given exactly** when the line does not begin with a delimiter or has nothing but
delimiters. -/
theorem Tokens.given_iff {text : Bytes} {s : LineState} (tokens : Tokens text s) :
    (∀ n, tokenAt toks n s = (words (isChar · toks) text).getD n []) ↔
      leads (isChar · toks) text = false ∨ ∀ c ∈ text, isChar c toks = true := by
  by_cases starts : leads (isChar · toks) text = true
  · obtain ⟨first, rest⟩ := tokens.first_of_leads some_tok nul starts
    rw [← @words_eq_nil_iff _ (isChar · toks) text] at rest ⊢
    constructor
    · intro given
      have none_first : (words (isChar · toks) text).getD 0 [] = [] := (given 0).symm.trans first
      cases found : words (isChar · toks) text with
      | nil => exact .inr rfl
      | cons word others =>
        rw [found] at none_first
        obtain rfl : word = [] := none_first
        have no_empty := @nil_notMem_words _ (isChar · toks) text
        rw [found] at no_empty
        exact absurd List.mem_cons_self no_empty
    · rintro (stops | none_there)
      · exact absurd (starts.symm.trans stops) (by simp)
      · intro n
        rw [none_there]
        cases n with
        | zero => exact first
        | succ n => exact (rest none_there).given some_tok nul rfl n
  · have stops : leads (isChar · toks) text = false := by simpa using starts
    exact ⟨fun _ => .inl stops, fun _ n => tokens.given some_tok nul stops n⟩

end Given

end Lines

namespace LineState

open Segments

/-- **Tokens as `strtok` gives them**: for the line that `next` gives after any history, and any delimiters
without a NUL, exactly when the line has no NUL, and does not begin with a delimiter or is nothing but
delimiters. -/
theorem strtok_iff {memory : Bytes} {len : Nat} (fits : len ≤ memory.length) (history : List Operation)
    {s : LineState} (given : ((ofBuffer memory len).after history).next = (true, s)) {toks : Bytes}
    (some_tok : toks ≠ []) (nul : 0 ∉ toks) :
    LikeStrtok toks ((ofBuffer memory len).after history).lineText s ↔
      0 ∉ ((ofBuffer memory len).after history).lineText ∧
        (leads (isChar · toks) ((ofBuffer memory len).after history).lineText = false ∨
          ∀ c ∈ ((ofBuffer memory len).after history).lineText, isChar c toks = true) := by
  have within := within_after fits history
  generalize (ofBuffer memory len).after history = t at given within
  constructor
  · intro like
    have text : 0 ∉ t.lineText := by
      intro member
      obtain ⟨word, among, inside⟩ := @exists_mem_words _ (isChar · toks) _ _ member (Lines.isChar_nul nul)
      obtain ⟨n, below, here⟩ := List.mem_iff_getElem.mp among
      have shown := like.given n
      rw [List.getD_eq_getElem?_getD, List.getElem?_eq_getElem below, here, Option.getD_some] at shown
      have no_nul := @nul_notMem_nextToken (tokenCalls toks n s) toks
      unfold tokenAt at shown
      rw [shown] at no_nul
      exact no_nul inside
    exact ⟨text, ((tokens_given within given text).given_iff some_tok nul).mp like.given⟩
  · rintro ⟨text, plain⟩
    refine ⟨((tokens_given within given text).given_iff some_tok nul).mpr plain, fun n i out => ?_⟩
    have start : s.tokEnd = s.lineStart := by
      obtain ⟨m, -, rfl⟩ := next_given within given
      rfl
    apply (framed_calls toks n).outside
    rwa [start]

/-- A line of `/proc/stat`, with delimiters repeated and at its end. -/
theorem strtok_example :
    LikeStrtok [32, 9] (ascii "cpu  7 2 ") (ofBuffer (ascii "cpu  7 2 \n") 10).next.2 := by
  have given : (ofBuffer (ascii "cpu  7 2 \n") 10).next =
      (true, (ofBuffer (ascii "cpu  7 2 \n") 10).next.2) := Prod.ext (by decide) rfl
  have text : (ofBuffer (ascii "cpu  7 2 \n") 10).lineText = ascii "cpu  7 2 " := by decide
  rw [← text]
  exact (strtok_iff (by decide) [] given (by decide) (by decide)).mpr (by decide)

/-- A line that begins with a delimiter: the first token is empty. -/
theorem leading_delimiter : ¬LikeStrtok [32] (ascii " a") (ofBuffer (ascii " a\n") 3).next.2 := by
  intro like
  have first := like.given 0
  revert first
  decide

end LineState

end Apib
