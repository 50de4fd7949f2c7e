/-
**The URLs that are read.**

* `exists_tail`: what may follow an authority is a tail;
* `exists_pieces`: **a string in which a host is found** is a URL in pieces: a scheme, an authority and a
  tail.
-/

import Apib.HttpParser.UrlText
import Mathlib.Data.List.Induction
import Mathlib.Data.List.TakeWhile

namespace Apib.HttpParser

open UrlLoop

section Accepted

variable {strict : Bool}

/-- The state after a character of a path. -/
theorem parse_path {ch : UInt8} (alive : parseUrlChar strict .path ch ≠ .dead) :
    (isUrlChar strict ch = true ∧ parseUrlChar strict .path ch = .path) ∨
      (ch = 63 ∧ parseUrlChar strict .path ch = .queryStringStart) ∨
      (ch = 35 ∧ parseUrlChar strict .path ch = .fragmentStart) := by
  have question := chr_question
  have hash := chr_hash
  unfold parseUrlChar at alive ⊢
  grind

/-- The state after a character of a query. -/
theorem parse_query {s : UrlState} (on : s = .queryStringStart ∨ s = .queryString) {ch : UInt8}
    (alive : parseUrlChar strict s ch ≠ .dead) :
    (isQueryChar strict ch = true ∧ parseUrlChar strict s ch = .queryString) ∨
      (ch = 35 ∧ parseUrlChar strict s ch = .fragmentStart) := by
  have question := chr_question
  have hash := chr_hash
  rcases on with rfl | rfl
  · unfold parseUrlChar onQuery at alive ⊢
    unfold isQueryChar
    grind
  · unfold parseUrlChar onQuery at alive ⊢
    unfold isQueryChar
    grind

/-- The state after a character of a fragment, or after one that is before it. -/
theorem parse_fragmentStart {ch : UInt8} (alive : parseUrlChar strict .fragmentStart ch ≠ .dead) :
    (isFragmentChar strict ch = true ∧ ch ≠ 35 ∧ parseUrlChar strict .fragmentStart ch = .fragment) ∨
      (ch = 35 ∧ parseUrlChar strict .fragmentStart ch = .fragmentStart) := by
  obtain ⟨-, -, -, -, -, -, -, again, -⟩ := parse_delimiters strict
  by_cases hash : ch = 35
  · rw [hash]
    exact .inr ⟨rfl, again⟩
  · have question := chr_question
    have hash_chr := chr_hash
    unfold parseUrlChar at alive ⊢
    unfold isFragmentChar
    grind

theorem parse_fragment {ch : UInt8} (alive : parseUrlChar strict .fragment ch ≠ .dead) :
    isFragmentChar strict ch = true ∧ parseUrlChar strict .fragment ch = .fragment := by
  have question := chr_question
  have hash := chr_hash
  unfold parseUrlChar at alive ⊢
  unfold isFragmentChar
  grind

theorem fragment_of_urlEnd {text : Bytes} (alive : urlEnd strict .fragment text ≠ .dead) :
    ∀ ch ∈ text, isFragmentChar strict ch = true := by
  induction text with
  | nil => simp
  | cons ch text ih =>
    obtain ⟨here, later⟩ := urlEnd_cons alive
    obtain ⟨ok, next⟩ := parse_fragment here
    rw [next] at later
    intro other member
    rcases List.mem_cons.mp member with rfl | among
    · exact ok
    · exact ih later other among

theorem fragmentStart_of_urlEnd {text : Bytes} (alive : urlEnd strict .fragmentStart text ≠ .dead) :
    ∃ n f, text = List.replicate n 35 ++ f ∧ (∀ ch ∈ f, isFragmentChar strict ch = true) ∧
      f.head? ≠ some 35 := by
  induction text with
  | nil => exact ⟨0, [], rfl, by simp, by simp⟩
  | cons ch text ih =>
    obtain ⟨here, later⟩ := urlEnd_cons alive
    rcases parse_fragmentStart here with ⟨ok, other, next⟩ | ⟨rfl, next⟩
    · rw [next] at later
      refine ⟨0, ch :: text, rfl, ?_, by simpa using other⟩
      intro c member
      rcases List.mem_cons.mp member with rfl | among
      · exact ok
      · exact fragment_of_urlEnd later c among
    · rw [next] at later
      obtain ⟨n, f, rfl, ok, first⟩ := ih later
      exact ⟨n + 1, f, rfl, ok, first⟩

theorem query_of_urlEnd {s : UrlState} (on : s = .queryStringStart ∨ s = .queryString) {text : Bytes}
    (alive : urlEnd strict s text ≠ .dead) :
    ∃ q rest, text = q ++ rest ∧ (∀ ch ∈ q, isQueryChar strict ch = true) ∧
      (rest = [] ∨ ∃ r, rest = 35 :: r ∧ urlEnd strict .fragmentStart r ≠ .dead) := by
  induction text generalizing s with
  | nil => exact ⟨[], [], rfl, by simp, .inl rfl⟩
  | cons ch text ih =>
    obtain ⟨here, later⟩ := urlEnd_cons alive
    rcases parse_query on here with ⟨ok, next⟩ | ⟨rfl, next⟩
    · rw [next] at later
      obtain ⟨q, rest, rfl, ok_later, ends⟩ := ih (.inr rfl) later
      refine ⟨ch :: q, rest, rfl, ?_, ends⟩
      intro c member
      rcases List.mem_cons.mp member with rfl | among
      · exact ok
      · exact ok_later c among
    · rw [next] at later
      exact ⟨[], 35 :: text, rfl, by simp, .inr ⟨text, rfl, later⟩⟩

theorem path_of_urlEnd {text : Bytes} (alive : urlEnd strict .path text ≠ .dead) :
    ∃ seg rest, text = seg ++ rest ∧ (∀ ch ∈ seg, isUrlChar strict ch = true) ∧
      (rest = [] ∨ (∃ r, rest = 63 :: r ∧ urlEnd strict .queryStringStart r ≠ .dead) ∨
        ∃ r, rest = 35 :: r ∧ urlEnd strict .fragmentStart r ≠ .dead) := by
  induction text with
  | nil => exact ⟨[], [], rfl, by simp, .inl rfl⟩
  | cons ch text ih =>
    obtain ⟨here, later⟩ := urlEnd_cons alive
    rcases parse_path here with ⟨ok, next⟩ | ⟨rfl, next⟩ | ⟨rfl, next⟩
    · rw [next] at later
      obtain ⟨seg, rest, rfl, ok_later, ends⟩ := ih later
      refine ⟨ch :: seg, rest, rfl, ?_, ends⟩
      intro c member
      rcases List.mem_cons.mp member with rfl | among
      · exact ok
      · exact ok_later c among
    · rw [next] at later
      exact ⟨[], 63 :: text, rfl, by simp, .inr (.inl ⟨text, rfl, later⟩)⟩
    · rw [next] at later
      exact ⟨[], 35 :: text, rfl, by simp, .inr (.inr ⟨text, rfl, later⟩)⟩

/-- A path, which may be missing, with what may follow it. -/
theorem tail_after_path {path rest : Bytes}
    (path_ok : path = [] ∨ ∃ seg, path = 47 :: seg ∧ ∀ ch ∈ seg, isUrlChar strict ch = true)
    (ends : rest = [] ∨ (∃ r, rest = 63 :: r ∧ urlEnd strict .queryStringStart r ≠ .dead) ∨
      path ≠ [] ∧ ∃ r, rest = 35 :: r ∧ urlEnd strict .fragmentStart r ≠ .dead) :
    ∃ t : Tail strict, path ++ rest = t.render := by
  rcases ends with rfl | ⟨r, rfl, alive⟩ | ⟨some_path, r, rfl, alive⟩
  · exact ⟨⟨path, none, none, path_ok, by simp, by simp, fun _ _ => rfl⟩, rfl⟩
  · obtain ⟨q, after, rfl, ok, ends⟩ := query_of_urlEnd (.inl rfl) alive
    have query_ok : ∀ other, some q = some other → ∀ ch ∈ other, isQueryChar strict ch = true := by
      rintro other ⟨⟩
      exact ok
    rcases ends with rfl | ⟨r, rfl, alive_fragment⟩
    · exact ⟨⟨path, some q, none, path_ok, query_ok, by simp, fun _ _ => rfl⟩, rfl⟩
    · obtain ⟨n, f, rfl, ok_fragment, first⟩ := fragmentStart_of_urlEnd alive_fragment
      refine ⟨⟨path, some q, some (n, f), path_ok, query_ok, ?_, by simp⟩, rfl⟩
      rintro _ _ ⟨⟩
      exact ⟨ok_fragment, first⟩
  · obtain ⟨n, f, rfl, ok_fragment, first⟩ := fragmentStart_of_urlEnd alive
    refine ⟨⟨path, none, some (n, f), path_ok, by simp, ?_, fun none_path => absurd none_path some_path⟩, rfl⟩
    rintro _ _ ⟨⟩
    exact ⟨ok_fragment, first⟩

/-- **What may follow an authority** is a tail. -/
theorem exists_tail {s : UrlState} (on : s = .serverStart ∨ OnServer s) {text : Bytes}
    (starts : ∀ ch ∈ text.head?, ch = 47 ∨ ch = 63) (alive : urlEnd strict s text ≠ .dead) :
    ∃ t : Tail strict, text = t.render := by
  have delimiters : parseUrlChar strict s 47 = .path ∧ parseUrlChar strict s 63 = .queryStringStart := by
    rcases on with rfl | on
    · have both : ∀ strict, parseUrlChar strict .serverStart 47 = .path ∧
          parseUrlChar strict .serverStart 63 = .queryStringStart := by decide
      exact both strict
    · exact on.delimiters
  cases text with
  | nil => exact @tail_after_path strict [] _ (.inl rfl) (.inl rfl)
  | cons ch text =>
    obtain ⟨-, later⟩ := urlEnd_cons alive
    rcases starts ch rfl with rfl | rfl
    · rw [delimiters.1] at later
      obtain ⟨seg, rest, rfl, ok, ends⟩ := path_of_urlEnd later
      have some_path : (47 : UInt8) :: seg ≠ [] := List.cons_ne_nil _ _
      exact @tail_after_path strict (47 :: seg) _ (.inr ⟨seg, rfl, ok⟩)
        (ends.imp id (Or.imp id fun fragment => ⟨some_path, fragment⟩))
    · rw [delimiters.2] at later
      exact @tail_after_path strict [] _ (.inl rfl) (.inr (.inl ⟨text, rfl, later⟩))

/-- Before an authority there is only the state that begins it. -/
theorem parse_onServer {s : UrlState} {ch : UInt8} (off : ¬ OnServer s)
    (on : OnServer (parseUrlChar strict s ch)) : s = .serverStart ∧ ch ≠ 47 ∧ ch ≠ 63 := by
  have slash := chr_slash
  have question := chr_question
  unfold OnServer at off on
  unfold parseUrlChar onServer onQuery at on
  grind

/-- A turn off an authority leaves the host as it is. -/
theorem turn_host {ix : Nat} {ch : UInt8} {x y : UrlLoop} (off : ¬ OnServer (parseUrlChar strict x.s ch))
    (turned : x.turn strict ix ch = some y) : y.u.fieldData .host = x.u.fieldData .host := by
  obtain ⟨state, noted⟩ := turn_cases turned
  rw [← state] at off
  have no_host : y.s.field ≠ some .host := by
    unfold OnServer at off
    unfold UrlState.field
    grind
  rcases noted with ⟨-, same⟩ | ⟨uf, in_field, extended | begun⟩
  · rw [same]
  · have other : UrlField.host ≠ uf := fun same => no_host (by rw [in_field, same])
    rw [extended, (HttpParserUrl.sameBut_extend uf x.u).2 .host other]
  · have other : UrlField.host ≠ uf := fun same => no_host (by rw [in_field, same])
    rw [begun, (HttpParserUrl.sameBut_begin uf x.u ix 1).2 .host other]

/-- **Where the host is found**, an authority begins. -/
theorem host_begins {text : Bytes} {ix : Nat} {x y : UrlLoop} (off : ¬ OnServer x.s)
    (none_yet : x.u.fieldData .host = none) (ran : run strict ix text x = some y)
    (found : y.u.fieldData .host ≠ none) :
    ∃ before ch after, text = before ++ ch :: after ∧ urlEnd strict x.s before = .serverStart ∧
      ch ≠ 47 ∧ ch ≠ 63 := by
  induction text generalizing ix x with
  | nil =>
    obtain rfl := Option.some.inj ran
    exact absurd none_yet found
  | cons ch text ih =>
    rw [run] at ran
    obtain ⟨z, turned, ran⟩ := Option.bind_eq_some_iff.mp ran
    by_cases on : OnServer (parseUrlChar strict x.s ch)
    · obtain ⟨start, no_slash, no_question⟩ := parse_onServer off on
      exact ⟨[], ch, text, rfl, start, no_slash, no_question⟩
    · have state := (turn_cases turned).1
      obtain ⟨before, c, after, rfl, start, ends⟩ :=
        ih (by rw [state]; exact on) ((turn_host on turned).trans none_yet) ran
      refine ⟨ch :: before, c, after, rfl, ?_, ends⟩
      rw [state] at start
      exact start

/-- What the states before an authority come from. -/
theorem parse_serverStart {s : UrlState} {ch : UInt8} (next : parseUrlChar strict s ch = .serverStart) :
    s = .schemaSlashSlash ∧ ch = 47 := by
  have slash := chr_slash
  unfold parseUrlChar onServer onQuery at next
  grind

theorem parse_schemaSlashSlash {s : UrlState} {ch : UInt8}
    (next : parseUrlChar strict s ch = .schemaSlashSlash) : s = .schemaSlash ∧ ch = 47 := by
  have slash := chr_slash
  unfold parseUrlChar onServer onQuery at next
  grind

theorem parse_schemaSlash {s : UrlState} {ch : UInt8} (next : parseUrlChar strict s ch = .schemaSlash) :
    s = .schema ∧ ch = 58 := by
  have colon := chr_colon
  unfold parseUrlChar onServer onQuery at next
  grind

theorem parse_to_schema {s : UrlState} {ch : UInt8} (next : parseUrlChar strict s ch = .schema) :
    (s = .spacesBeforeUrl ∨ s = .schema) ∧ isAlpha ch = true := by
  unfold parseUrlChar onServer onQuery at next
  grind

theorem parse_not_first (s : UrlState) (ch : UInt8) : parseUrlChar strict s ch ≠ .spacesBeforeUrl := by
  unfold parseUrlChar onServer onQuery
  grind

theorem urlEnd_concat (s : UrlState) (text : Bytes) (ch : UInt8) :
    urlEnd strict s (text ++ [ch]) = parseUrlChar strict (urlEnd strict s text) ch := by
  rw [urlEnd, urlEnd, List.foldl_append]
  rfl

/-- A state that is not the first one is that after a character. -/
theorem concat_of_urlEnd {s : UrlState} {text : Bytes} (ended : urlEnd strict .spacesBeforeUrl text = s)
    (not_first : s ≠ .spacesBeforeUrl) :
    ∃ init ch, text = init ++ [ch] ∧ parseUrlChar strict (urlEnd strict .spacesBeforeUrl init) ch = s := by
  rcases List.eq_nil_or_concat text with rfl | ⟨init, ch, rfl⟩
  · exact absurd ended.symm not_first
  · rw [List.concat_eq_append, urlEnd_concat] at ended
    exact ⟨init, ch, List.concat_eq_append, ended⟩

/-- What leads to a scheme is one. -/
theorem scheme_of_urlEnd {text : Bytes} (ended : urlEnd strict .spacesBeforeUrl text = .schema) :
    text ≠ [] ∧ ∀ ch ∈ text, isAlpha ch = true := by
  induction text using List.reverseRecOn with
  | nil => cases ended
  | append_singleton init ch ih =>
    rw [urlEnd_concat] at ended
    obtain ⟨from_states, ok⟩ := parse_to_schema ended
    refine ⟨List.append_ne_nil_of_right_ne_nil _ (List.cons_ne_nil _ _), ?_⟩
    rw [List.forall_mem_append]
    refine ⟨?_, List.forall_mem_singleton.mpr ok⟩
    rcases from_states with first | scheme
    · rcases List.eq_nil_or_concat init with rfl | ⟨init, c, rfl⟩
      · simp
      · rw [List.concat_eq_append, urlEnd_concat] at first
        exact absurd first (parse_not_first _ c)
    · exact (ih scheme).2

/-- **What leads to an authority** is a scheme and its delimiters. -/
theorem before_of_urlEnd {text : Bytes} (ended : urlEnd strict .spacesBeforeUrl text = .serverStart) :
    ∃ scheme, text = scheme ++ [58, 47, 47] ∧ scheme ≠ [] ∧ ∀ ch ∈ scheme, isAlpha ch = true := by
  obtain ⟨first, _, rfl, last⟩ := concat_of_urlEnd ended (by decide)
  obtain ⟨after_first, rfl⟩ := parse_serverStart last
  obtain ⟨second, _, rfl, last_second⟩ := concat_of_urlEnd after_first (by decide)
  obtain ⟨after_second, rfl⟩ := parse_schemaSlashSlash last_second
  obtain ⟨scheme, _, rfl, last_scheme⟩ := concat_of_urlEnd after_second (by decide)
  obtain ⟨after_scheme, rfl⟩ := parse_schemaSlash last_scheme
  exact ⟨scheme, by simp, scheme_of_urlEnd after_scheme⟩

/-- The state after an authority. -/
theorem onServer_of_urlEnd {s : UrlState} (on : s = .serverStart ∨ OnServer s) {text : Bytes}
    (ends : ∀ ch ∈ text, ch ≠ 47 ∧ ch ≠ 63) (alive : urlEnd strict s text ≠ .dead) :
    urlEnd strict s text = .serverStart ∨ OnServer (urlEnd strict s text) := by
  induction text generalizing s with
  | nil => exact on
  | cons ch text ih =>
    obtain ⟨here, later⟩ := urlEnd_cons alive
    have last := ends ch List.mem_cons_self
    have next := parse_server on last.1 last.2 here
    refine ih (.inr ?_) (fun other member => ends other (List.mem_cons_of_mem _ member)) later
    rw [next]
    split
    · exact .inr rfl
    · exact .inl rfl

/-- **A string in which a host is found** is a URL in pieces. -/
theorem exists_pieces {text : Bytes} {y : UrlLoop} (ran : run strict 0 text {} = some y)
    (found : y.u.fieldData .host ≠ none) : ∃ p : Pieces strict, text = p.render := by
  obtain ⟨before, ch, after, rfl, start, ends⟩ :=
    host_begins (x := {}) (by rintro (h | h) <;> cases h) rfl ran found
  have alive : urlEnd strict .spacesBeforeUrl (before ++ ch :: after) ≠ .dead :=
    (run_isSome _ 0 {} (by decide)).mp (by rw [ran]; rfl)
  obtain ⟨scheme, rfl, scheme_some, scheme_ok⟩ := before_of_urlEnd start
  rw [urlEnd, List.foldl_append] at alive
  rw [urlEnd] at start
  rw [start] at alive
  -- the authority ends before the first slash or question mark
  let goes : UInt8 → Bool := fun c => c != 47 && c != 63
  have parts : (ch :: after).takeWhile goes ++ (ch :: after).dropWhile goes = ch :: after :=
    List.takeWhile_append_dropWhile
  have authority_some : (ch :: after).takeWhile goes ≠ [] := by
    have goes_on : goes ch = true := by simp [goes, ends]
    rw [List.takeWhile_cons_of_pos goes_on]
    exact List.cons_ne_nil _ _
  have authority_ends : ∀ c ∈ (ch :: after).takeWhile goes, c ≠ 47 ∧ c ≠ 63 := by
    intro c member
    have goes_on := List.mem_takeWhile_imp member
    simpa [goes] using goes_on
  rw [← parts, List.foldl_append] at alive
  have authority_ok : urlEnd strict .serverStart ((ch :: after).takeWhile goes) ≠ .dead := by
    intro dead
    rw [urlEnd] at dead
    rw [dead] at alive
    exact alive (urlEnd_dead strict _)
  have on := onServer_of_urlEnd (.inl rfl) authority_ends authority_ok
  have starts : ∀ c ∈ ((ch :: after).dropWhile goes).head?, c = 47 ∨ c = 63 := by
    intro c head
    have stops := List.head?_dropWhile_not goes (ch :: after)
    rw [Option.mem_def.mp head] at stops
    by_contra other
    rw [not_or] at other
    simp [goes, other] at stops
  obtain ⟨t, tail_eq⟩ := exists_tail on starts alive
  refine ⟨⟨scheme, _, t, scheme_some, scheme_ok, authority_some, authority_ends, authority_ok⟩, ?_⟩
  rw [Pieces.render, ← tail_eq, parts]
  simp

end Accepted

end Apib.HttpParser
