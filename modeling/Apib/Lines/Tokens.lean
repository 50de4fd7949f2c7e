/-
**The tokens of a line.**

`LineState::nextToken` and `skipMatches`. Tokens are cut in place: the delimiters after a token are
overwritten with NULs, and what is returned is the C string at the place where the token begins.

* `nextToken_cut`: what `nextToken` does when the rest of the line is a run of other bytes, the
  delimiters after it, and something else;
* `Tokens.word`, `Tokens.last`: so it gives the run, whether delimiters follow it or the NULs that end
  the line;
* `takeTokens_eq`: **the tokens are the words of the line**, when it does not begin with a delimiter.
-/

import Apib.Lines.Splitting

namespace Apib

namespace LineState

variable (s : LineState)

/-- The C string at an index of the buffer. -/
def cString (start : Nat) : Bytes := (s.buf.drop start).takeWhile (· != 0)

/-- The loop of `nextToken` to the first delimiter, for a number of turns. -/
def toDelimiter (toks : Bytes) : Nat → LineState → LineState
  | 0, s => s
  | turns + 1, s =>
    if s.tokEnd < s.lineEnd ∧ isChar (s.byteAt s.tokEnd) toks = false then
      toDelimiter toks turns { s with tokEnd := s.tokEnd + 1 }
    else s

/-- The loop of `nextToken` that overwrites delimiters with NULs, for a number of turns. -/
def nullDelimiters (toks : Bytes) : Nat → LineState → LineState
  | 0, s => s
  | turns + 1, s =>
    if s.tokEnd < s.lineEnd ∧ isChar (s.byteAt s.tokEnd) toks = true then
      nullDelimiters toks turns { s with buf := s.buf.set s.tokEnd 0, tokEnd := s.tokEnd + 1 }
    else s

/-- The loop of `skipMatches`, for a number of turns. -/
def passDelimiters (toks : Bytes) : Nat → LineState → LineState
  | 0, s => s
  | turns + 1, s =>
    if s.tokEnd < s.lineEnd ∧ isChar (s.byteAt s.tokEnd) toks = true then
      passDelimiters toks turns { s with tokEnd := s.tokEnd + 1 }
    else s

/-- The number of bytes between `tokEnd_` and `lineEnd_`. -/
def tokensLeft : Nat := s.lineEnd - s.tokEnd

/-- The two loops of `nextToken`. -/
def cutToken (toks : Bytes) : LineState :=
  let s := toDelimiter toks s.tokensLeft s
  nullDelimiters toks s.tokensLeft s

/-- The method `nextToken`. -/
def nextToken (toks : Bytes) : Bytes × LineState :=
  if s.lineComplete = false then ([], s)
  else if s.tokEnd ≥ s.lineEnd then ([], s)
  else
    let s := { s with tokStart := s.tokEnd }
    let s := if toks = [] then s else s.cutToken toks
    (s.cString s.tokStart, s)

/-- The method `skipMatches`. -/
def skipMatches (toks : Bytes) : LineState := passDelimiters toks s.tokensLeft s

/-! ### The rest of the line -/

/-- The bytes from `tokEnd_` up to `lineEnd_`. -/
def inLine : Bytes := (s.buf.take s.lineEnd).drop s.tokEnd

variable {s} (inside : s.lineEnd ≤ s.buf.length)
include inside

@[simp] theorem inLine_length : s.inLine.length = s.tokensLeft := by
  simp only [inLine, tokensLeft, List.length_drop, List.length_take]
  omega

theorem inLine_cons (more : s.tokEnd < s.lineEnd) :
    s.inLine = s.byteAt s.tokEnd :: { s with tokEnd := s.tokEnd + 1 }.inLine := by
  have below : s.tokEnd < s.buf.length := by omega
  have below_taken : s.tokEnd < (s.buf.take s.lineEnd).length := by
    rw [List.length_take]
    omega
  simp only [inLine, byteAt]
  rw [List.drop_eq_getElem_cons below_taken, List.getElem_take]
  simp [List.getElem?_eq_getElem below]

theorem inLine_eq_nil : s.inLine = [] ↔ s.tokEnd ≥ s.lineEnd := by
  rw [← List.length_eq_zero_iff, inLine_length inside, tokensLeft]
  omega

/-- The first loop passes over the run before the first delimiter. -/
theorem toDelimiter_eq (toks : Bytes) (turns : Nat) (enough : s.tokensLeft ≤ turns) :
    toDelimiter toks turns s =
      { s with tokEnd := s.tokEnd + (s.inLine.takeWhile (!isChar · toks)).length } := by
  induction turns generalizing s with
  | zero =>
    have none_left : s.inLine = [] := by
      rw [← List.length_eq_zero_iff, inLine_length inside]
      omega
    simp [toDelimiter, none_left]
  | succ turns ih =>
    by_cases more : s.tokEnd < s.lineEnd
    · by_cases delimiter : isChar (s.byteAt s.tokEnd) toks = true
      · simp [toDelimiter, delimiter, inLine_cons inside more]
      · have rest := ih (s := { s with tokEnd := s.tokEnd + 1 }) inside
          (by simp only [tokensLeft] at enough ⊢; omega)
        simp only [toDelimiter, more, delimiter, inLine_cons inside more, rest]
        simp [delimiter]
        omega
    · have none_left : s.inLine = [] := (inLine_eq_nil inside).mpr (by omega)
      simp [toDelimiter, more, none_left]

/-- The second loop overwrites the delimiters. -/
theorem nullDelimiters_eq (toks : Bytes) (turns : Nat) (enough : s.tokensLeft ≤ turns) :
    nullDelimiters toks turns s =
      let eaten := (s.inLine.takeWhile (isChar · toks)).length
      { s with
        buf := s.buf.take s.tokEnd ++ List.replicate eaten 0 ++ s.buf.drop (s.tokEnd + eaten),
        tokEnd := s.tokEnd + eaten } := by
  induction turns generalizing s with
  | zero =>
    have none_left : s.inLine = [] := by
      rw [← List.length_eq_zero_iff, inLine_length inside]
      omega
    simp [nullDelimiters, none_left]
  | succ turns ih =>
    by_cases more : s.tokEnd < s.lineEnd
    · by_cases delimiter : isChar (s.byteAt s.tokEnd) toks = true
      · have below : s.tokEnd < s.buf.length := by omega
        -- the state after one turn, whose rest of the line is one byte shorter
        let t : LineState := { s with buf := s.buf.set s.tokEnd 0, tokEnd := s.tokEnd + 1 }
        have t_rest : t.inLine = s.inLine.tail := by
          rw [inLine_cons inside more, List.tail_cons]
          simp only [t, inLine, List.take_set]
          exact List.drop_set_of_lt (Nat.lt_succ_self _)
        have rest := ih (s := t) (by simpa [t] using inside)
          (by simp only [tokensLeft, t] at enough ⊢; omega)
        rw [t_rest] at rest
        simp only [nullDelimiters, more, delimiter, and_self, if_true]
        rw [rest, inLine_cons inside more, List.tail_cons, List.takeWhile_cons_of_pos (p := (isChar · toks)) delimiter]
        simp only [t, List.length_cons, List.replicate_succ]
        congr 1
        · have nulled : (s.buf.set s.tokEnd 0).take (s.tokEnd + 1) = s.buf.take s.tokEnd ++ [0] := by
            rw [List.take_succ_eq_append_getElem (by simpa using below), List.getElem_set_self,
              List.take_set_of_le (Nat.le_refl _)]
          rw [nulled, List.drop_set_of_lt (by omega)]
          simp only [List.append_assoc, List.cons_append, List.nil_append]
          congr 4
          omega
        · omega
      · simp [nullDelimiters, delimiter, inLine_cons inside more]
    · have none_left : s.inLine = [] := (inLine_eq_nil inside).mpr (by omega)
      simp [nullDelimiters, more, none_left]

/-! ### One token -/

/-- The buffer once a token of some length is cut off and the delimiters after it are overwritten. -/
def tokenCut (s : LineState) (word seps : Nat) : LineState :=
  { s with
    buf := s.buf.take (s.tokEnd + word) ++ List.replicate seps 0 ++ s.buf.drop (s.tokEnd + word + seps),
    tokStart := s.tokEnd, tokEnd := s.tokEnd + word + seps }

section Cut

variable {toks word seps rest : Bytes} (more : s.tokEnd < s.lineEnd)
variable (cut : s.inLine = word ++ (seps ++ rest))
include more cut

theorem token_length : s.tokEnd + word.length + seps.length + rest.length = s.lineEnd := by
  have total := inLine_length inside
  rw [cut, tokensLeft] at total
  simp only [List.length_append] at total
  omega

theorem tokenCut_size : (s.tokenCut word.length seps.length).buf.length = s.buf.length := by
  have total := token_length inside more cut
  simp only [tokenCut, List.length_append, List.length_take, List.length_replicate, List.length_drop]
  omega

theorem tokenCut_inLine : (s.tokenCut word.length seps.length).inLine = rest := by
  have total := token_length inside more cut
  have before : (s.buf.take (s.tokEnd + word.length) ++ List.replicate seps.length 0).length =
      s.tokEnd + word.length + seps.length := by
    simp only [List.length_append, List.length_take, List.length_replicate]
    omega
  have dropped : s.inLine.drop (word.length + seps.length) = rest := by
    rw [cut, ← List.append_assoc, List.drop_left' (by simp)]
  rw [inLine, List.drop_drop, ← Nat.add_assoc] at dropped
  simp only [inLine, tokenCut]
  rw [List.drop_take, List.drop_left' before, ← List.drop_take, dropped]

/-- The C string where the token begins. -/
theorem tokenCut_string : (s.tokenCut word.length seps.length).cString s.tokEnd =
    (word ++ (List.replicate seps.length 0 ++
      s.buf.drop (s.tokEnd + word.length + seps.length))).takeWhile (· != 0) := by
  have total := token_length inside more cut
  have here : (s.buf.drop s.tokEnd).take word.length = word := by
    have taken : s.inLine.take word.length = word := by rw [cut, List.take_left]
    rwa [inLine, List.drop_take, List.take_take, Nat.min_eq_left (by omega)] at taken
  have below : s.tokEnd ≤ (s.buf.take (s.tokEnd + word.length)).length := by
    rw [List.length_take]
    omega
  simp only [cString, tokenCut, List.append_assoc]
  rw [List.drop_append_of_le_length below, List.drop_take, Nat.add_sub_cancel_left, here]

/-- **With a run and delimiters ahead**, `nextToken` cuts the run off. -/
theorem nextToken_cut (complete : s.lineComplete = true) (some_tok : toks ≠ [])
    (free : ∀ c ∈ word, isChar c toks = false) (cuts : ∀ c ∈ seps, isChar c toks = true)
    (apart : seps = [] → rest = []) (stops : ∀ c ∈ rest.head?, isChar c toks = false) :
    s.nextToken toks = ((s.tokenCut word.length seps.length).cString s.tokEnd,
      s.tokenCut word.length seps.length) := by
  have total := token_length inside more cut
  have word_taken : s.inLine.takeWhile (!isChar · toks) = word := by
    rw [cut, List.takeWhile_append_of_pos (fun c member => by simp [free c member])]
    cases seps with
    | nil => simp [apart rfl]
    | cons first later => simp [cuts first (by simp)]
  have seps_taken : (seps ++ rest).takeWhile (isChar · toks) = seps := by
    rw [List.takeWhile_append_of_pos cuts]
    cases rest with
    | nil => simp
    | cons first later => simp [stops first (by simp)]
  -- the state when the loop to the delimiter is done
  let m : LineState := { s with tokStart := s.tokEnd, tokEnd := s.tokEnd + word.length }
  have m_rest : m.inLine = seps ++ rest := by
    have dropped : s.inLine.drop word.length = seps ++ rest := by rw [cut, List.drop_left]
    rw [← dropped]
    simp [m, inLine, List.drop_drop]
  have found : toDelimiter toks (tokensLeft { s with tokStart := s.tokEnd })
      { s with tokStart := s.tokEnd } = m := by
    have same : inLine { s with tokStart := s.tokEnd } = s.inLine := rfl
    rw [toDelimiter_eq (s := { s with tokStart := s.tokEnd }) inside toks _ (Nat.le_refl _), same,
      word_taken]
  have eaten := nullDelimiters_eq (s := m) inside toks m.tokensLeft (Nat.le_refl _)
  rw [m_rest, seps_taken] at eaten
  have cut_now : cutToken { s with tokStart := s.tokEnd } toks =
      s.tokenCut word.length seps.length := by
    simp only [cutToken, found]
    rw [eaten]
    rfl
  have incomplete : ¬s.lineComplete = false := by simp [complete]
  have ended : ¬s.tokEnd ≥ s.lineEnd := by omega
  rw [nextToken, if_neg incomplete, if_neg ended]
  simp only [if_neg some_tok, cut_now]
  rfl

end Cut

end LineState

namespace Lines

open Segments LineState

/-- The tokens that `nextToken` gives until it gives the empty string, for a number of turns. -/
def takeTokens (toks : Bytes) : Nat → LineState → List Bytes
  | 0, _ => []
  | turns + 1, s =>
    match s.nextToken toks with
    | ([], _) => []
    | (tok, s) => tok :: takeTokens toks turns s

/-- A line is complete and some text is left of it, with the NULs that end it. -/
structure Tokens (text : Bytes) (s : LineState) : Prop where
  complete : s.lineComplete = true
  inside : s.lineEnd ≤ s.buf.length
  plain : 0 ∉ text
  ended : ∃ n, s.inLine = text ++ List.replicate (n + 1) 0

/-- The line that `next` has given is left as a whole. -/
theorem tokens_cutAt {run seps later : Bytes} {s : LineState} (order : InOrder s)
    (cut : s.ahead = run ++ (seps ++ later)) (text : 0 ∉ run) (some_sep : seps ≠ []) :
    Tokens run (s.cutAt run.length seps.length) := by
  have inside := order.inside
  have reached := order.reached
  have total := cut_length order cut
  have some_length : 0 < seps.length := List.length_pos_iff.mpr some_sep
  have here : (s.buf.drop s.lineEnd).take run.length = run := by
    have taken : s.ahead.take run.length = run := by rw [cut, List.take_left]
    rwa [ahead, List.drop_take, List.take_take, Nat.min_eq_left (by omega)] at taken
  have before : (s.buf.take (s.lineEnd + run.length) ++ List.replicate seps.length 0).length =
      s.lineEnd + run.length + seps.length := by
    simp only [List.length_append, List.length_take, List.length_replicate]
    omega
  refine ⟨rfl, ?_, text, seps.length - 1, ?_⟩
  · have size := cutAt_size order cut
    rw [size]
    simp only [cutAt]
    omega
  · have below : s.lineEnd ≤ (s.buf.take (s.lineEnd + run.length)).length := by
      rw [List.length_take]
      omega
    simp only [inLine, cutAt]
    rw [List.take_left' before, List.drop_append_of_le_length below, List.drop_take,
      Nat.add_sub_cancel_left, here, Nat.sub_add_cancel some_length]

/-- The tokens of a line have been used up. -/
def UsedUp (s : LineState) : Prop := s.tokEnd ≥ s.lineEnd

theorem UsedUp.nextToken {s : LineState} (used : UsedUp s) (toks : Bytes) :
    s.nextToken toks = ([], s) := by
  unfold UsedUp at used
  unfold LineState.nextToken
  split
  · rfl
  · rfl

section Tokens

variable {toks : Bytes}

theorem Tokens.more {text : Bytes} {s : LineState} (tokens : Tokens text s) : s.tokEnd < s.lineEnd := by
  obtain ⟨n, ended⟩ := tokens.ended
  by_contra used
  have empty := (inLine_eq_nil tokens.inside).mpr (Nat.le_of_not_lt used)
  rw [ended] at empty
  simp at empty

variable (some_tok : toks ≠ []) (nul : 0 ∉ toks)
include some_tok nul

omit some_tok in
theorem isChar_nul : isChar 0 toks = false := by
  simp only [isChar, List.any_eq_false, beq_iff_eq]
  rintro c member rfl
  exact nul member

/-- **A run with delimiters after it** is given, and what follows them is left. -/
theorem Tokens.word {word seps rest : Bytes} {s : LineState}
    (tokens : Tokens (word ++ (seps ++ rest)) s) (free : ∀ c ∈ word, isChar c toks = false)
    (cuts : ∀ c ∈ seps, isChar c toks = true) (some_sep : seps ≠ [])
    (stops : leads (isChar · toks) rest = false) :
    (s.nextToken toks).1 = word ∧ Tokens rest (s.nextToken toks).2 ∧
      (s.nextToken toks).2.tokensLeft < s.tokensLeft := by
  obtain ⟨n, ended⟩ := tokens.ended
  have more := tokens.more
  have cut : s.inLine = word ++ (seps ++ (rest ++ List.replicate (n + 1) 0)) := by
    simpa using ended
  have stops_head : ∀ c ∈ (rest ++ List.replicate (n + 1) 0).head?, isChar c toks = false := by
    cases rest with
    | nil => simpa [List.replicate_succ] using isChar_nul nul
    | cons first others => simpa [leads] using stops
  have text : ∀ c ∈ word, (c != 0) = true := by
    intro c member
    have other : c ≠ 0 := by
      rintro rfl
      exact tokens.plain (by simp [member])
    simpa using other
  have plain_rest : 0 ∉ rest := fun member => tokens.plain (by simp [member])
  have total := token_length tokens.inside more cut
  have some_length : 0 < seps.length := List.length_pos_iff.mpr some_sep
  rw [nextToken_cut tokens.inside more cut tokens.complete some_tok free cuts
    (fun none_sep => absurd none_sep some_sep) stops_head]
  refine ⟨?_, ⟨tokens.complete, ?_, plain_rest, n, ?_⟩, ?_⟩
  · obtain ⟨first, others, rfl⟩ := List.exists_cons_of_ne_nil some_sep
    rw [tokenCut_string tokens.inside more cut, List.takeWhile_append_of_pos text]
    simp [List.replicate_succ]
  · rw [tokenCut_size tokens.inside more cut]
    exact tokens.inside
  · exact tokenCut_inLine tokens.inside more cut
  · simp only [tokensLeft, tokenCut]
    omega

/-- **A run up to the end of the line** is given, and nothing is left. -/
theorem Tokens.last {word : Bytes} {s : LineState} (tokens : Tokens word s)
    (free : ∀ c ∈ word, isChar c toks = false) :
    (s.nextToken toks).1 = word ∧ UsedUp (s.nextToken toks).2 := by
  obtain ⟨n, ended⟩ := tokens.ended
  have more := tokens.more
  -- the loop to the delimiter passes over the NULs too
  have cut : s.inLine = (word ++ List.replicate (n + 1) 0) ++ ([] ++ []) := by
    simpa using ended
  have free_all : ∀ c ∈ word ++ List.replicate (n + 1) 0, isChar c toks = false := by
    intro c member
    rcases List.mem_append.mp member with early | late
    · exact free c early
    · rw [List.eq_of_mem_replicate late]
      exact isChar_nul nul
  have text : ∀ c ∈ word, (c != 0) = true := by
    intro c member
    have other : c ≠ 0 := by
      rintro rfl
      exact tokens.plain member
    simpa using other
  have total := token_length tokens.inside more cut
  rw [nextToken_cut tokens.inside more cut tokens.complete some_tok free_all (by simp) (fun _ => rfl)
    (by simp)]
  refine ⟨?_, ?_⟩
  · rw [tokenCut_string tokens.inside more cut, List.append_assoc, List.takeWhile_append_of_pos text]
    simp [List.replicate_succ]
  · simp only [UsedUp, tokenCut]
    simp only [List.length_nil] at total ⊢
    omega

/-- **The tokens are the words of the line**, when it does not begin with a delimiter. -/
theorem takeTokens_eq (turns : Nat) {text : Bytes} {s : LineState} (tokens : Tokens text s)
    (stops : leads (isChar · toks) text = false) (enough : s.tokensLeft < turns) :
    takeTokens toks turns s = words (isChar · toks) text := by
  induction turns generalizing s text with
  | zero => exact absurd enough (Nat.not_lt_zero _)
  | succ turns ih =>
    have more := tokens.more
    rcases @cases_run _ (isChar · toks) text with
      free | ⟨run, seps, rest, cut, free, cuts, some_sep, stops_rest⟩
    · obtain ⟨given, used⟩ := tokens.last some_tok nul free
      rw [takeTokens, words_of_free free]
      generalize s.nextToken toks = result at given used
      obtain ⟨tok, t⟩ := result
      subst given
      cases tok with
      | nil => rfl
      | cons first others =>
        cases turns with
        | zero =>
          unfold tokensLeft at enough
          omega
        | succ turns => simp [takeTokens, used.nextToken]
    · subst cut
      obtain ⟨given, left, shorter⟩ := tokens.word some_tok nul free cuts some_sep stops_rest
      have some_run := run_ne_nil stops cuts some_sep
      rw [takeTokens, words_cut rest free cuts some_sep, if_neg some_run]
      generalize s.nextToken toks = result at given left shorter
      obtain ⟨tok, t⟩ := result
      subst given
      cases tok with
      | nil => exact absurd rfl some_run
      | cons first others =>
        have later := ih left stops_rest (Nat.lt_of_lt_of_le shorter (Nat.le_of_lt_succ enough))
        simp [later]

end Tokens

end Lines

end Apib
