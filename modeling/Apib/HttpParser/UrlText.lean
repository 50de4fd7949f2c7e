/-
**The parts of a URL.**

What the run of `http_parser_parse_url` over a string accepts once a scheme and an authority are found:
a scheme, `://`, an authority, a path, a query and a fragment, the last three or some of them missing.

* `Tail`: what follows the authority. An empty query or fragment may be written, and the `#` more than
  once;
* `run_tail`, `run_pieces`: **the fields of such a string**.
-/

import Apib.HttpParser.UrlRuns

namespace Apib.HttpParser

open UrlLoop

/-- What is noted for a text at a position: nothing for none. -/
def noted (off : Nat) (text : Bytes) : Option FieldData :=
  if text = [] then none else some (field off text.length)

/-- The characters of a query. -/
def isQueryChar (strict : Bool) (ch : UInt8) : Bool := isUrlChar strict ch || ch == 63

/-- The characters of a fragment. -/
def isFragmentChar (strict : Bool) (ch : UInt8) : Bool := isUrlChar strict ch || ch == 63 || ch == 35

/-- What follows an authority. -/
structure Tail (strict : Bool) where
  path : Bytes
  query : Option Bytes
  /-- How many more `#` there are, and what follows them. -/
  fragment : Option (Nat × Bytes)
  path_ok : path = [] ∨ ∃ rest, path = 47 :: rest ∧ ∀ ch ∈ rest, isUrlChar strict ch = true
  query_ok : ∀ q, query = some q → ∀ ch ∈ q, isQueryChar strict ch = true
  fragment_ok : ∀ n f, fragment = some (n, f) →
    (∀ ch ∈ f, isFragmentChar strict ch = true) ∧ f.head? ≠ some 35
  fragment_after : path = [] → query = none → fragment = none

namespace Tail

variable {strict : Bool} (t : Tail strict)

def queryPart : Bytes := t.query.elim [] (63 :: ·)

def fragmentPart : Bytes := t.fragment.elim [] fun part => 35 :: (List.replicate part.1 35 ++ part.2)

/-- The text of a tail. -/
def render : Bytes := t.path ++ (t.queryPart ++ t.fragmentPart)

/-- The query that is found. -/
def queryText : Bytes := t.query.getD []

/-- The fragment that is found. -/
def fragmentText : Bytes := t.fragment.elim [] Prod.snd

theorem queryText_of_none (none_there : t.query = none) : t.queryText = [] := by
  rw [queryText, none_there]
  rfl

theorem fragmentText_of_none (none_there : t.fragment = none) : t.fragmentText = [] := by
  rw [fragmentText, none_there]
  rfl

/-- A query that is found is written behind its delimiter. -/
theorem queryPart_eq (some_char : t.queryText ≠ []) : t.queryPart = 63 :: t.queryText := by
  cases given : t.query with
  | none => exact absurd (t.queryText_of_none given) some_char
  | some q =>
    rw [queryPart, queryText, given]
    rfl

/-- A fragment that is found is written behind its delimiters. -/
theorem fragmentPart_eq (some_char : t.fragmentText ≠ []) : t.fragmentPart =
    35 :: (List.replicate (t.fragment.elim 0 Prod.fst) 35 ++ t.fragmentText) := by
  cases given : t.fragment with
  | none => exact absurd (t.fragmentText_of_none given) some_char
  | some found =>
    rw [fragmentPart, fragmentText, given]
    rfl

/-- The position of the fragment, counted from the tail. -/
def fragmentOff : Nat := t.path.length + t.queryPart.length + 1 + t.fragment.elim 0 Prod.fst

end Tail

/-! ### Single characters -/

section Chars

variable {strict : Bool} {ch : UInt8}

theorem chr_slash : chr '/' = 47 := by decide
theorem chr_question : chr '?' = 63 := by decide
theorem chr_hash : chr '#' = 35 := by decide
theorem chr_colon : chr ':' = 58 := by decide
theorem chr_at : chr '@' = 64 := by decide

/-- A character of a URL stays in the path, in the query and in the fragment. -/
theorem parse_urlChar (ok : isUrlChar strict ch = true) :
    parseUrlChar strict .path ch = .path ∧ parseUrlChar strict .queryStringStart ch = .queryString ∧
      parseUrlChar strict .queryString ch = .queryString ∧
      parseUrlChar strict .fragmentStart ch = .fragment ∧ parseUrlChar strict .fragment ch = .fragment := by
  have each : ∀ ch : UInt8, ∀ strict, isUrlChar strict ch = true →
      parseUrlChar strict .path ch = .path ∧ parseUrlChar strict .queryStringStart ch = .queryString ∧
      parseUrlChar strict .queryString ch = .queryString ∧
      parseUrlChar strict .fragmentStart ch = .fragment ∧ parseUrlChar strict .fragment ch = .fragment :=
    Numerals.forall_byte (by decide +kernel)
  exact each ch strict ok

/-- The delimiters of a URL. -/
theorem parse_delimiters (strict : Bool) :
    parseUrlChar strict .path 63 = .queryStringStart ∧ parseUrlChar strict .path 35 = .fragmentStart ∧
      parseUrlChar strict .queryStringStart 63 = .queryString ∧
      parseUrlChar strict .queryStringStart 35 = .fragmentStart ∧
      parseUrlChar strict .queryString 63 = .queryString ∧
      parseUrlChar strict .queryString 35 = .fragmentStart ∧
      parseUrlChar strict .fragmentStart 63 = .fragment ∧
      parseUrlChar strict .fragmentStart 35 = .fragmentStart ∧
      parseUrlChar strict .fragment 63 = .fragment ∧ parseUrlChar strict .fragment 35 = .fragment := by
  revert strict
  decide

theorem parse_queryChar (ok : isQueryChar strict ch = true) :
    parseUrlChar strict .queryStringStart ch = .queryString ∧
      parseUrlChar strict .queryString ch = .queryString := by
  obtain ⟨-, -, first, -, next, -⟩ := parse_delimiters strict
  rcases Bool.or_eq_true_iff.mp ok with url | question
  · exact ⟨(parse_urlChar url).2.1, (parse_urlChar url).2.2.1⟩
  · obtain rfl := eq_of_beq question
    exact ⟨first, next⟩

theorem parse_fragmentChar (ok : isFragmentChar strict ch = true) :
    parseUrlChar strict .fragment ch = .fragment ∧
      (ch ≠ 35 → parseUrlChar strict .fragmentStart ch = .fragment) := by
  obtain ⟨-, -, -, -, -, -, first, -, next, hash⟩ := parse_delimiters strict
  rcases Bool.or_eq_true_iff.mp ok with url_or | is_hash
  · rcases Bool.or_eq_true_iff.mp url_or with url | question
    · exact ⟨(parse_urlChar url).2.2.2.2, fun _ => (parse_urlChar url).2.2.2.1⟩
    · obtain rfl := eq_of_beq question
      exact ⟨next, fun _ => first⟩
  · obtain rfl := eq_of_beq is_hash
    exact ⟨hash, fun other => absurd rfl other⟩

end Chars

/-! ### The fields of a tail -/

section RunTail

variable {strict : Bool}

/-- One field is noted as text at a position, and nothing else is changed. -/
structure Notes (f : UrlField) (off : Nat) (text : Bytes) (x y : UrlLoop) : Prop where
  foundAt : y.foundAt = x.foundAt
  noted : y.u.fieldData f = noted off text
  same : SameBut f x.u y.u

theorem run_path {x : UrlLoop} (enters : parseUrlChar strict x.s 47 = .path)
    (other : x.oldUf ≠ some .path) {rest : Bytes} (ok : ∀ ch ∈ rest, isUrlChar strict ch = true) (ix : Nat) :
    ∃ y, run strict ix (47 :: rest) x = some y ∧ y.s = .path ∧ y.oldUf = some .path ∧
      Notes .path ix (47 :: rest) x y := by
  obtain ⟨y, ran, state, old, found, here, same⟩ :=
    run_enter rfl (by decide) enters (fun ch member => (parse_urlChar (ok ch member)).1) other ix
  exact ⟨y, ran, state, old, found, here, same⟩

theorem run_query {x : UrlLoop} (enters : parseUrlChar strict x.s 63 = .queryStringStart)
    (other : x.oldUf ≠ some .query) (none_yet : x.u.fieldData .query = none) {q : Bytes}
    (ok : ∀ ch ∈ q, isQueryChar strict ch = true) (ix : Nat) :
    ∃ y, run strict ix (63 :: q) x = some y ∧ parseUrlChar strict y.s 35 = .fragmentStart ∧
      (y.oldUf = x.oldUf ∨ y.oldUf = some .query) ∧ Notes .query (ix + 1) q x y := by
  obtain ⟨-, -, -, start, -, next, -⟩ := parse_delimiters strict
  have skipped := run_skip enters (by decide) rfl ix
  cases q with
  | nil => exact ⟨_, skipped, start, .inl rfl, rfl, none_yet, SameBut.refl _ _⟩
  | cons ch q =>
    obtain ⟨y, ran, state, old, found, here, same⟩ := run_enter (x := { x with s := .queryStringStart })
      (rfl : UrlState.queryString.field = some .query) (by decide)
      (parse_queryChar (ok ch List.mem_cons_self)).1
      (fun ch member => (parse_queryChar (ok ch (List.mem_cons_of_mem _ member))).2) other (ix + 1)
    refine ⟨y, ?_, by rw [state, next], .inr old, found, here, same⟩
    have two := @run_append strict [63] (ch :: q) ix x
    rw [skipped, Option.bind_some] at two
    exact two.trans ran

/-- The `#` and those after it are passed over. -/
theorem run_hashes {x : UrlLoop} (enters : parseUrlChar strict x.s 35 = .fragmentStart) (n ix : Nat) :
    run strict ix (35 :: List.replicate n 35) x = some { x with s := .fragmentStart } := by
  obtain ⟨-, -, -, -, -, -, -, again, -⟩ := parse_delimiters strict
  induction n generalizing x ix with
  | zero => exact run_skip enters (by decide) rfl ix
  | succ n ih =>
    have two := @run_append strict [35] (35 :: List.replicate n 35) ix x
    rw [run_skip enters (by decide) rfl ix, Option.bind_some] at two
    exact two.trans (ih again (ix + 1))

theorem run_fragment {x : UrlLoop} (enters : parseUrlChar strict x.s 35 = .fragmentStart)
    (other : x.oldUf ≠ some .fragment) (none_yet : x.u.fieldData .fragment = none) (n : Nat) {f : Bytes}
    (ok : ∀ ch ∈ f, isFragmentChar strict ch = true) (first : f.head? ≠ some 35) (ix : Nat) :
    ∃ y, run strict ix (35 :: (List.replicate n 35 ++ f)) x = some y ∧
      Notes .fragment (ix + 1 + n) f x y := by
  have skipped := run_hashes enters n ix
  have two := @run_append strict (35 :: List.replicate n 35) f ix x
  rw [skipped, Option.bind_some, List.length_cons, List.length_replicate] at two
  rw [← List.cons_append, two]
  cases f with
  | nil => exact ⟨_, rfl, rfl, none_yet, SameBut.refl _ _⟩
  | cons ch f =>
    obtain ⟨y, ran, -, -, found, here, same⟩ := run_enter (x := { x with s := .fragmentStart })
      (rfl : UrlState.fragment.field = some .fragment) (by decide)
      ((parse_fragmentChar (ok ch List.mem_cons_self)).2 fun hash => first (by rw [hash]; rfl))
      (fun ch member => (parse_fragmentChar (ok ch (List.mem_cons_of_mem _ member))).1) other
      (ix + (n + 1))
    have place : ix + (n + 1) = ix + 1 + n := by omega
    rw [place] at here ran
    rw [place]
    exact ⟨y, ran, found, here, same⟩

/-- What is noted of a tail. -/
structure TailNoted (t : Tail strict) (ix : Nat) (x y : UrlLoop) : Prop where
  foundAt : y.foundAt = x.foundAt
  path : y.u.fieldData .path = noted ix t.path
  query : y.u.fieldData .query = noted (ix + t.path.length + 1) t.queryText
  fragment : y.u.fieldData .fragment = noted (ix + t.fragmentOff) t.fragmentText
  port : y.u.port = x.u.port
  same : ∀ f, f ≠ .path → f ≠ .query → f ≠ .fragment → y.u.fieldData f = x.u.fieldData f

/-- The states in which an authority may be left. -/
def OnServer (s : UrlState) : Prop := s = .server ∨ s = .serverWithAt

theorem OnServer.delimiters {s : UrlState} (on : OnServer s) :
    parseUrlChar strict s 47 = .path ∧ parseUrlChar strict s 63 = .queryStringStart := by
  revert strict
  rcases on with rfl | rfl
  · decide
  · decide

section Parts

variable (t : Tail strict) {x : UrlLoop} (on : OnServer x.s) (old : x.oldUf = some .host)
variable (no_path : x.u.fieldData .path = none) (no_query : x.u.fieldData .query = none)
variable (no_fragment : x.u.fieldData .fragment = none) (ix : Nat)
include on old no_path

theorem run_pathPart : ∃ y, run strict ix t.path x = some y ∧
    parseUrlChar strict y.s 63 = .queryStringStart ∧
    (t.path ≠ [] → parseUrlChar strict y.s 35 = .fragmentStart) ∧
    (y.oldUf = some .host ∨ y.oldUf = some .path) ∧ Notes .path ix t.path x y := by
  obtain ⟨question, hash, -⟩ := parse_delimiters strict
  rcases t.path_ok with none_path | ⟨rest, path_eq, ok⟩
  · rw [none_path]
    exact ⟨x, rfl, (on.delimiters).2, fun some_path => absurd rfl some_path, .inl old, rfl, no_path,
      SameBut.refl _ _⟩
  · rw [path_eq]
    obtain ⟨y, ran, state, old_path, notes⟩ := run_path on.delimiters.1 (by rw [old]; decide) ok ix
    exact ⟨y, ran, by rw [state, question], fun _ => by rw [state, hash], .inr old_path, notes⟩

include no_query

theorem run_queryPart : ∃ y, run strict ix (t.path ++ t.queryPart) x = some y ∧
    (t.fragment ≠ none → parseUrlChar strict y.s 35 = .fragmentStart) ∧ y.oldUf ≠ some .fragment ∧
    y.foundAt = x.foundAt ∧ y.u.fieldData .path = noted ix t.path ∧
    y.u.fieldData .query = noted (ix + t.path.length + 1) t.queryText ∧ y.u.port = x.u.port ∧
    ∀ f, f ≠ .path → f ≠ .query → y.u.fieldData f = x.u.fieldData f := by
  obtain ⟨y, ran, question, hash, old_path, notes⟩ := run_pathPart t on old no_path ix
  have two := @run_append strict t.path t.queryPart ix x
  rw [ran, Option.bind_some] at two
  rw [two]
  have after_path : t.query = none → t.fragment ≠ none → t.path ≠ [] :=
    fun none_query some_fragment none_path => some_fragment (t.fragment_after none_path none_query)
  have not_fragment : y.oldUf ≠ some .fragment := by
    rcases old_path with host | path
    · rw [host]
      decide
    · rw [path]
      decide
  have no_query_yet : y.u.fieldData .query = none := by
    rw [notes.same.2 .query (by decide), no_query]
  cases query_eq : t.query with
  | none =>
    simp only [Tail.queryPart, Tail.queryText, query_eq, Option.elim_none, Option.getD_none, run]
    exact ⟨y, rfl, fun some_fragment => hash (after_path query_eq some_fragment), not_fragment,
      notes.foundAt, notes.noted, no_query_yet, notes.same.1, fun f other _ => notes.same.2 f other⟩
  | some q =>
    have other : y.oldUf ≠ some .query := by
      rcases old_path with host | path
      · rw [host]
        decide
      · rw [path]
        decide
    obtain ⟨z, ran_query, hash_query, old_query, notes_query⟩ :=
      run_query question other no_query_yet (t.query_ok q query_eq) (ix + t.path.length)
    simp only [Tail.queryPart, Tail.queryText, query_eq, Option.elim_some, Option.getD_some]
    refine ⟨z, ran_query, fun _ => hash_query, ?_, notes_query.foundAt.trans notes.foundAt, ?_,
      notes_query.noted, notes_query.same.1.trans notes.same.1, ?_⟩
    · rcases old_query with before | query
      · rw [before]
        exact not_fragment
      · rw [query]
        decide
    · rw [notes_query.same.2 .path (by decide), notes.noted]
    · intro f not_path not_query
      rw [notes_query.same.2 f not_query, notes.same.2 f not_path]

include no_fragment

/-- **The fields of a tail.** -/
theorem run_tail : ∃ y, run strict ix t.render x = some y ∧ TailNoted t ix x y := by
  obtain ⟨y, ran, hash, other, found, path, query, port, same⟩ :=
    run_queryPart t on old no_path no_query ix
  have two := @run_append strict (t.path ++ t.queryPart) t.fragmentPart ix x
  rw [ran, Option.bind_some, List.append_assoc] at two
  rw [Tail.render, two]
  have none_yet : y.u.fieldData .fragment = none := by
    rw [same .fragment (by decide) (by decide), no_fragment]
  cases fragment_eq : t.fragment with
  | none =>
    simp only [Tail.fragmentPart, fragment_eq, Option.elim_none, run]
    refine ⟨y, rfl, found, path, query, ?_, port, fun f not_path not_query _ => same f not_path not_query⟩
    rw [none_yet, Tail.fragmentText, fragment_eq]
    rfl
  | some part =>
    obtain ⟨n, f⟩ := part
    obtain ⟨ok, first⟩ := t.fragment_ok n f fragment_eq
    obtain ⟨z, ran_fragment, notes⟩ := run_fragment (hash (by rw [fragment_eq]; exact Option.some_ne_none _))
      other none_yet n ok first (ix + (t.path ++ t.queryPart).length)
    simp only [Tail.fragmentPart, fragment_eq, Option.elim_some]
    refine ⟨z, ran_fragment, notes.foundAt.trans found, ?_, ?_, ?_, notes.same.1.trans port, ?_⟩
    · rw [notes.same.2 .path (by decide), path]
    · rw [notes.same.2 .query (by decide), query]
    · have place : ix + (t.path ++ t.queryPart).length + 1 + n = ix + t.fragmentOff := by
        simp only [Tail.fragmentOff, fragment_eq, Option.elim_some, List.length_append]
        omega
      rw [notes.noted, place, Tail.fragmentText, fragment_eq]
      rfl
    · intro g not_path not_query not_fragment
      rw [notes.same.2 g not_fragment, same g not_path not_query]

end Parts

end RunTail

/-! ### The fields of a whole string -/

/-- The scheme, the authority and the tail of a URL. -/
structure Pieces (strict : Bool) where
  scheme : Bytes
  authority : Bytes
  tail : Tail strict
  scheme_some : scheme ≠ []
  scheme_ok : ∀ ch ∈ scheme, isAlpha ch = true
  authority_some : authority ≠ []
  authority_ends : ∀ ch ∈ authority, ch ≠ 47 ∧ ch ≠ 63
  authority_ok : urlEnd strict .serverStart authority ≠ .dead

namespace Pieces

variable {strict : Bool} (p : Pieces strict)

/-- The text of the pieces. -/
def render : Bytes := p.scheme ++ 58 :: 47 :: 47 :: (p.authority ++ p.tail.render)

/-- The position of the authority. -/
def hostOff : Nat := p.scheme.length + 3

/-- The position of the tail. -/
def tailOff : Nat := p.hostOff + p.authority.length

end Pieces

section RunPieces

variable {strict : Bool}

/-- The states before and in an authority. -/
theorem parse_server {s : UrlState} (on : s = .serverStart ∨ OnServer s) {ch : UInt8} (no_slash : ch ≠ 47)
    (no_question : ch ≠ 63) (alive : parseUrlChar strict s ch ≠ .dead) :
    parseUrlChar strict s ch = if ch = 64 then .serverWithAt else .server := by
  have slash := chr_slash
  have question := chr_question
  have sign := chr_at
  unfold OnServer at on
  unfold parseUrlChar onServer at alive ⊢
  grind

theorem urlEnd_cons {s : UrlState} {ch : UInt8} {text : Bytes} (alive : urlEnd strict s (ch :: text) ≠ .dead) :
    parseUrlChar strict s ch ≠ .dead ∧ urlEnd strict (parseUrlChar strict s ch) text ≠ .dead := by
  refine ⟨fun dead => ?_, alive⟩
  rw [urlEnd, List.foldl_cons, dead] at alive
  exact alive (urlEnd_dead strict text)

/-- **A character of the authority** is in the field of the host. -/
theorem turn_server {x : UrlLoop} (on : x.s = .serverStart ∨ OnServer x.s) {ch : UInt8}
    (last : ch ≠ 47 ∧ ch ≠ 63) (here : parseUrlChar strict x.s ch ≠ .dead) (ix : Nat) :
    OnServer (parseUrlChar strict x.s ch) ∧ x.turn strict ix ch =
      some ⟨parseUrlChar strict x.s ch, some .host, x.foundAt || (64 == ch),
        if x.oldUf = some .host then x.u.extend .host else x.u.begin .host ix 1⟩ := by
  have next := parse_server on last.1 last.2 here
  have on_next : OnServer (parseUrlChar strict x.s ch) := by
    rw [next]
    split
    · exact .inr rfl
    · exact .inl rfl
  have in_host : (parseUrlChar strict x.s ch).field = some .host := by
    rcases on_next with server | sign
    · rw [server]
      rfl
    · rw [sign]
      rfl
  have found : decide (parseUrlChar strict x.s ch = .serverWithAt) = (64 == ch) := by
    rw [next]
    by_cases sign : ch = 64
    · simp [sign]
    · simp [sign, Ne.symm sign]
  refine ⟨on_next, ?_⟩
  simp only [turn, if_neg here, in_host, found]
  split
  · next old => rw [old]
  · rfl

/-- The authority goes on. -/
theorem run_server {text : Bytes} (ends : ∀ ch ∈ text, ch ≠ 47 ∧ ch ≠ 63) {x : UrlLoop}
    (on : OnServer x.s) (old : x.oldUf = some .host) (alive : urlEnd strict x.s text ≠ .dead) (ix : Nat) :
    ∃ s, OnServer s ∧ run strict ix text x =
      some ⟨s, some .host, x.foundAt || text.contains 64, x.u.extendBy .host text.length⟩ := by
  induction text generalizing ix x with
  | nil =>
    refine ⟨x.s, on, ?_⟩
    rw [← old, run, List.contains_nil, Bool.or_false]
    rfl
  | cons ch text ih =>
    obtain ⟨here, later⟩ := urlEnd_cons alive
    obtain ⟨on_next, first⟩ := turn_server (.inr on) (ends ch List.mem_cons_self) here ix
    rw [if_pos old] at first
    obtain ⟨s, on_end, ran⟩ := ih (fun other member => ends other (List.mem_cons_of_mem _ member))
      (x := ⟨parseUrlChar strict x.s ch, some .host, x.foundAt || (64 == ch), x.u.extend .host⟩)
      on_next rfl later (ix + 1)
    refine ⟨s, on_end, ?_⟩
    rw [run, first, Option.bind_some, ran, List.contains_cons, Bool.or_assoc]
    rfl

/-- **The authority is the field of the host**, and it is noted whether an `@` is there. -/
theorem run_authority {text : Bytes} (some_char : text ≠ []) (ends : ∀ ch ∈ text, ch ≠ 47 ∧ ch ≠ 63)
    {x : UrlLoop} (start : x.s = .serverStart) (other : x.oldUf ≠ some .host) (not_yet : x.foundAt = false)
    (alive : urlEnd strict .serverStart text ≠ .dead) (ix : Nat) :
    ∃ y, run strict ix text x = some y ∧ OnServer y.s ∧ y.oldUf = some .host ∧
      y.foundAt = text.contains 64 ∧ y.u.fieldData .host = some (field ix text.length) ∧
      SameBut .host x.u y.u := by
  obtain ⟨ch, text, rfl⟩ := List.exists_cons_of_ne_nil some_char
  rw [← start] at alive
  obtain ⟨here, later⟩ := urlEnd_cons alive
  obtain ⟨on_next, first⟩ := turn_server (.inl start) (ends ch List.mem_cons_self) here ix
  rw [if_neg other, not_yet, Bool.false_or] at first
  obtain ⟨s, on_end, ran⟩ := run_server (fun other member => ends other (List.mem_cons_of_mem _ member))
    (x := ⟨parseUrlChar strict x.s ch, some .host, (64 == ch), x.u.begin .host ix 1⟩)
    on_next rfl later (ix + 1)
  have begun : (x.u.begin .host ix 1).fieldData .host = some (field ix 1) := x.u.begin_same .host ix 1
  refine ⟨⟨s, some .host, (64 == ch) || text.contains 64,
    (x.u.begin .host ix 1).extendBy .host text.length⟩, ?_, on_end, rfl, List.contains_cons.symm, ?_, ?_⟩
  · rw [run, first, Option.bind_some]
    exact ran
  · rw [HttpParserUrl.extendBy_same .host _ _ begun, List.length_cons, Nat.add_comm 1]
  · exact (x.u.sameBut_begin .host ix 1).trans (HttpParserUrl.sameBut_extendBy .host _ _)

/-- What is noted of a URL in pieces. -/
structure PiecesNoted (p : Pieces strict) (y : UrlLoop) : Prop where
  foundAt : y.foundAt = p.authority.contains 64
  schema : y.u.fieldData .schema = some (field 0 p.scheme.length)
  host : y.u.fieldData .host = some (field p.hostOff p.authority.length)
  port : y.u.fieldData .port = none
  path : y.u.fieldData .path = noted p.tailOff p.tail.path
  query : y.u.fieldData .query = noted (p.tailOff + p.tail.path.length + 1) p.tail.queryText
  fragment : y.u.fieldData .fragment = noted (p.tailOff + p.tail.fragmentOff) p.tail.fragmentText

theorem parse_schema {ch : UInt8} (ok : isAlpha ch = true) :
    parseUrlChar strict .spacesBeforeUrl ch = .schema ∧ parseUrlChar strict .schema ch = .schema := by
  have each : ∀ ch : UInt8, ∀ strict, isAlpha ch = true →
      parseUrlChar strict .spacesBeforeUrl ch = .schema ∧ parseUrlChar strict .schema ch = .schema :=
    Numerals.forall_byte (by decide +kernel)
  exact each ch strict ok

/-- The delimiters before the authority. -/
theorem parse_slashes (strict : Bool) :
    parseUrlChar strict .schema 58 = .schemaSlash ∧ parseUrlChar strict .schemaSlash 47 = .schemaSlashSlash ∧
      parseUrlChar strict .schemaSlashSlash 47 = .serverStart := by
  revert strict
  decide

/-- The scheme. -/
theorem run_scheme {text : Bytes} (some_char : text ≠ []) (ok : ∀ ch ∈ text, isAlpha ch = true) :
    ∃ y, run strict 0 text {} = some y ∧ y.s = .schema ∧ y.oldUf = some .schema ∧ y.foundAt = false ∧
      y.u.fieldData .schema = some (field 0 text.length) ∧ SameBut .schema {} y.u := by
  obtain ⟨ch, text, rfl⟩ := List.exists_cons_of_ne_nil some_char
  exact run_enter (x := {}) rfl (by decide) (parse_schema (ok ch List.mem_cons_self)).1
    (fun ch member => (parse_schema (ok ch (List.mem_cons_of_mem _ member))).2) (by decide) 0

/-- The delimiters after the scheme. -/
theorem run_slashes {x : UrlLoop} (state : x.s = .schema) (ix : Nat) :
    run strict ix [58, 47, 47] x = some { x with s := .serverStart } := by
  obtain ⟨colon, slash, slashes⟩ := parse_slashes strict
  have first := run_skip (x := x) (by rw [state, colon]) (by decide) rfl ix
  have second := run_skip (x := { x with s := .schemaSlash }) slash (by decide) rfl (ix + 1)
  have third := run_skip (x := { x with s := .schemaSlashSlash }) slashes (by decide) rfl (ix + 2)
  have one := @run_append strict [58] [47, 47] ix x
  have two := @run_append strict [47] [47] (ix + 1) { x with s := .schemaSlash }
  rw [first, Option.bind_some] at one
  rw [second, Option.bind_some] at two
  exact one.trans (two.trans third)

/-- **The fields of a URL in pieces.** -/
theorem run_pieces (p : Pieces strict) : ∃ y, run strict 0 p.render {} = some y ∧ PiecesNoted p y := by
  obtain ⟨x, ran_scheme, state, old, no_at, schema, same_scheme⟩ :=
    @run_scheme strict _ p.scheme_some p.scheme_ok
  have ran_slashes := @run_slashes strict _ state p.scheme.length
  obtain ⟨y, ran_authority, on, old_host, found, host, same_host⟩ :=
    @run_authority strict _ p.authority_some p.authority_ends { x with s := .serverStart } rfl
      (by rw [old]; decide) no_at p.authority_ok p.hostOff
  have none_of (f : UrlField) (not_schema : f ≠ .schema) (not_host : f ≠ .host) :
      y.u.fieldData f = none := by
    rw [same_host.2 f not_host]
    exact same_scheme.2 f not_schema
  obtain ⟨z, ran_tail, notes⟩ := run_tail p.tail on old_host (none_of .path (by decide) (by decide))
    (none_of .query (by decide) (by decide)) (none_of .fragment (by decide) (by decide)) p.tailOff
  refine ⟨z, ?_, notes.foundAt.trans found, ?_, ?_, ?_, notes.path, notes.query, notes.fragment⟩
  · have whole : p.render = p.scheme ++ ([58, 47, 47] ++ (p.authority ++ p.tail.render)) := rfl
    rw [whole, run_append, ran_scheme, Option.bind_some, run_append, Nat.zero_add, ran_slashes,
      Option.bind_some, run_append]
    have place : p.scheme.length + ([58, 47, 47] : Bytes).length = p.hostOff := rfl
    rw [place, ran_authority, Option.bind_some]
    exact ran_tail
  · rw [notes.same .schema (by decide) (by decide) (by decide), same_host.2 .schema (by decide)]
    exact schema
  · rw [notes.same .host (by decide) (by decide) (by decide), host]
  · rw [notes.same .port (by decide) (by decide) (by decide), none_of .port (by decide) (by decide)]

end RunPieces

end Apib.HttpParser
