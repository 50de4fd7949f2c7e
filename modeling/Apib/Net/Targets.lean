/-
**Targets from URLs.**

The characters that the initialisation of a URL lets through, against those that may stand in the request
line and in the `Host` header. The parser is built without its strict checks, so that a tab or a form feed
may stand in a path; in a request line they may not.

* `Tail.render_chars`, `Tail.mem_normal`: the characters of what follows an authority;
* `init_target`: **a URL that is accepted has a path and a host header that may be sent**, unless its
  text has a tab or a form feed, or is too long for 16 bits.
-/

import Apib.Http.Request
import Apib.Net.RoundTrip

namespace Apib

open HttpParser Http Numerals

/-! ### Characters -/

theorem target_of_fragmentChar (strict : Bool) (ch : UInt8) : isFragmentChar strict ch = true →
    ch ≠ 9 → ch ≠ 12 → isTargetChar ch = true := by
  cases strict
  · revert ch
    exact forall_byte (by decide +kernel)
  · revert ch
    exact forall_byte (by decide +kernel)

theorem fragmentChar_of_urlChar {strict : Bool} {ch : UInt8} (ok : isUrlChar strict ch = true) :
    isFragmentChar strict ch = true := by
  rw [isFragmentChar, ok]
  rfl

theorem text_of_userinfoChar (ch : UInt8) : isUserinfoChar ch = true → isText ch = true := by
  revert ch
  exact forall_byte (by decide +kernel)

/-! ### What follows an authority -/

namespace HttpParser.Tail

variable {strict : Bool} (t : Tail strict)

/-- **What follows an authority** has only characters of a fragment. -/
theorem render_chars : ∀ ch ∈ t.render, isFragmentChar strict ch = true := by
  have delimiters : isFragmentChar strict 47 = true ∧ isFragmentChar strict 63 = true ∧
      isFragmentChar strict 35 = true := by
    cases strict <;> decide
  obtain ⟨slash, question, hash⟩ := delimiters
  refine List.forall_mem_append.mpr ⟨?_, List.forall_mem_append.mpr ⟨?_, ?_⟩⟩
  · rcases t.path_ok with empty | ⟨rest, path, ok⟩
    · rw [empty]
      simp
    · rw [path]
      exact List.forall_mem_cons.mpr ⟨slash, fun ch member => fragmentChar_of_urlChar (ok ch member)⟩
  · rw [queryPart]
    cases query : t.query with
    | none => simp
    | some text =>
      refine List.forall_mem_cons.mpr ⟨question, fun ch member => ?_⟩
      have ok := t.query_ok text query ch member
      rw [isQueryChar] at ok
      rw [isFragmentChar, ok]
      rfl
  · rw [fragmentPart]
    cases fragment : t.fragment with
    | none => simp
    | some part =>
      refine List.forall_mem_cons.mpr ⟨hash, List.forall_mem_append.mpr ⟨fun ch member => ?_, ?_⟩⟩
      · rw [List.eq_of_mem_replicate member]
        exact hash
      · exact (t.fragment_ok part.1 part.2 fragment).1

/-- The normal form adds a slash at most. -/
theorem mem_normal {ch : UInt8} (member : ch ∈ t.normal.render) : ch = 47 ∨ ch ∈ t.render := by
  rw [normal_render, List.mem_append, List.mem_append] at member
  rw [render, List.mem_append, List.mem_append]
  rcases member with (path | query) | fragment
  · rw [normal_path] at path
    split at path
    · exact .inl (List.mem_singleton.mp path)
    · exact .inr (.inl path)
  · split at query
    · cases query
    · next some_char =>
      rw [t.queryPart_eq some_char]
      exact .inr (.inr (.inl query))
  · split at fragment
    · cases fragment
    · next some_char =>
      rw [t.fragmentPart_eq some_char]
      simp only [List.mem_cons, List.mem_append] at fragment ⊢
      tauto

theorem render_normal_ne_nil : t.normal.render ≠ [] := by
  rw [render]
  exact List.append_ne_nil_of_left_ne_nil t.normal_path_ne_nil _

end HttpParser.Tail

/-! ### What may be sent -/

namespace Net

/-- A text that is accepted as a URL, without characters that only the parser lets through. -/
structure Accepted (strict : Bool) (lookup : Bytes → List Address) (url : URLInfo) (text : Bytes) : Prop where
  accepted : init strict lookup text = .ok url
  short : text.length < 65536
  no_tab : (9 : UInt8) ∉ text
  no_formFeed : (12 : UInt8) ∉ text

/-- **A URL that is accepted** has a path and a host header that may be sent. -/
theorem init_target {strict : Bool} {lookup : Bytes → List Address} {url : URLInfo} {text : Bytes}
    (given : Accepted strict lookup url text) :
    url.path ≠ [] ∧ (∀ b ∈ url.path, isTargetChar b = true) ∧ ∀ b ∈ url.hostHeader, isText b = true := by
  obtain ⟨accepted, short, no_tab, no_formFeed⟩ := given
  obtain ⟨p, rfl⟩ := exists_pieces_of_init accepted
  obtain ⟨a, isSsl, port, -, -, -, rfl⟩ := pieces_of_init (p.fits_of_length short (by decide)) accepted
  refine ⟨p.tail.render_normal_ne_nil, fun b member => ?_,
    fun b member => text_of_userinfoChar b (headerOf_chars a.host_chars b member)⟩
  have inside : ∀ c ∈ p.tail.render, c ∈ p.render := by
    intro c member
    simp only [Pieces.render, List.mem_append, List.mem_cons]
    tauto
  have other {c : UInt8} (absent : c ∉ p.render) (no_slash : c ≠ 47) : b ≠ c := by
    rintro rfl
    rcases p.tail.mem_normal member with slash | there
    · exact no_slash slash
    · exact absent (inside _ there)
  exact target_of_fragmentChar strict b (p.tail.normal.render_chars b member) (other no_tab (by decide))
    (other no_formFeed (by decide))

end Net

end Apib
