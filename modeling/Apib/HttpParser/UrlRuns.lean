/-
**Runs of the two URL machines.**

`http_parser_parse_url` runs over a string once for its parts, and over the authority again for the host
and the port. Both note for the field they are in where it begins and how long it is, 16 bits wide.

* `UrlLoop.run_append`, `hostLoop_append`: a run over two strings is one after the other;
* `UrlLoop.run_enter`, `run_stay`, `run_skip`: a run in which a field begins, goes on, or is none;
* `UrlLoop.run_isSome`, `hostLoop_eq`: what a run accepts, the states decide.
-/

import Apib.HttpParser.Url
import Apib.Library.Numerals

namespace Apib.HttpParser

/-! ### Fields -/

/-- A field at a position, of a length. -/
def field (off len : Nat) : FieldData := ⟨off.toUInt16, len.toUInt16⟩

/-- Nothing but a field has been changed. -/
def SameBut (f : UrlField) (u v : HttpParserUrl) : Prop :=
  v.port = u.port ∧ ∀ g, g ≠ f → v.fieldData g = u.fieldData g

theorem SameBut.refl (f : UrlField) (u : HttpParserUrl) : SameBut f u u := ⟨rfl, fun _ _ => rfl⟩

theorem SameBut.trans {f : UrlField} {u v w : HttpParserUrl} (first : SameBut f u v)
    (second : SameBut f v w) : SameBut f u w :=
  ⟨second.1.trans first.1, fun g other => (second.2 g other).trans (first.2 g other)⟩

namespace HttpParserUrl

variable (f : UrlField) (u : HttpParserUrl)

theorem begin_same (off len : Nat) : (u.begin f off len.toUInt16).fieldData f = some (field off len) := by
  simp [begin, field]

theorem sameBut_begin (off : Nat) (len : UInt16) : SameBut f u (u.begin f off len) :=
  ⟨rfl, fun g other => by simp [begin, other]⟩

theorem extend_same {off len : Nat} (here : u.fieldData f = some (field off len)) :
    (u.extend f).fieldData f = some (field off (len + 1)) := by
  have longer : len.toUInt16 + 1 = (len + 1).toUInt16 := (UInt16.ofNat_add len 1).symm
  simp only [extend, Function.update_self, here, Option.map_some]
  exact congrArg (fun l => some (FieldData.mk off.toUInt16 l)) longer

theorem sameBut_extend : SameBut f u (u.extend f) :=
  ⟨rfl, fun g other => by simp [extend, other]⟩

theorem moveTo_same {off len : Nat} (there : Nat) (here : u.fieldData f = some (field off len)) :
    (u.moveTo f there).fieldData f = some (field there len) := by
  simp [moveTo, here, field]

theorem sameBut_moveTo (off : Nat) : SameBut f u (u.moveTo f off) :=
  ⟨rfl, fun g other => by simp [moveTo, other]⟩

/-- A field has some more characters. -/
def extendBy : Nat → HttpParserUrl → HttpParserUrl
  | 0, u => u
  | n + 1, u => extendBy n (u.extend f)

theorem extendBy_same {off len : Nat} (n : Nat) (here : u.fieldData f = some (field off len)) :
    (u.extendBy f n).fieldData f = some (field off (len + n)) := by
  induction n generalizing u len with
  | zero => exact here
  | succ n ih =>
    rw [extendBy, ih _ (extend_same f u here), Nat.add_assoc, Nat.add_comm 1]

theorem sameBut_extendBy (n : Nat) : SameBut f u (u.extendBy f n) := by
  induction n generalizing u with
  | zero => exact SameBut.refl f u
  | succ n ih => exact (sameBut_extend f u).trans (ih _)

end HttpParserUrl

/-- **A field that fits in 16 bits** is the part of the string. -/
theorem part_field {off len : Nat} (off_small : off < 65536) (len_small : len < 65536)
    (before part after : Bytes) (at_off : before.length = off) (of_len : part.length = len) :
    (field off len).part (before ++ (part ++ after)) = part := by
  have off_eq : off.toUInt16.toNat = off := UInt16.toNat_ofNat_of_lt' (by simpa using off_small)
  have len_eq : len.toUInt16.toNat = len := UInt16.toNat_ofNat_of_lt' (by simpa using len_small)
  rw [FieldData.part, field, off_eq, len_eq, List.drop_left' at_off, List.take_left' of_len]

/-! ### The run for the parts -/

/-- The state after a string, whatever the fields. -/
def urlEnd (strict : Bool) (s : UrlState) (text : Bytes) : UrlState :=
  text.foldl (parseUrlChar strict) s

theorem parseUrlChar_dead (strict : Bool) (ch : UInt8) : parseUrlChar strict .dead ch = .dead := by
  simp [parseUrlChar]

theorem urlEnd_dead (strict : Bool) (text : Bytes) : urlEnd strict .dead text = .dead := by
  induction text with
  | nil => rfl
  | cons ch text ih =>
    rw [urlEnd, List.foldl_cons, parseUrlChar_dead]
    exact ih

namespace UrlLoop

variable {strict : Bool}

theorem run_append (first second : Bytes) (ix : Nat) (x : UrlLoop) :
    run strict ix (first ++ second) x =
      (run strict ix first x).bind (run strict (ix + first.length) second) := by
  induction first generalizing ix x with
  | nil => rfl
  | cons ch first ih =>
    rw [List.cons_append, run, run]
    cases x.turn strict ix ch with
    | none => rfl
    | some y =>
      rw [Option.bind_some, Option.bind_some, ih, List.length_cons, Nat.add_assoc, Nat.add_comm 1]

/-- **What a turn can do**: in a state that is in no field nothing is noted, and else the field goes on or
begins. -/
theorem turn_cases {ix : Nat} {ch : UInt8} {x y : UrlLoop} (turned : x.turn strict ix ch = some y) :
    y.s = parseUrlChar strict x.s ch ∧ (y.s.field = none ∧ y.u = x.u ∨
      ∃ uf, y.s.field = some uf ∧ (y.u = x.u.extend uf ∨ y.u = x.u.begin uf ix 1)) := by
  by_cases dead : parseUrlChar strict x.s ch = .dead
  · simp [turn, dead] at turned
  · simp only [turn, if_neg dead] at turned
    cases in_field : (parseUrlChar strict x.s ch).field with
    | none =>
      rw [in_field] at turned
      obtain rfl := Option.some.inj turned
      exact ⟨rfl, .inl ⟨in_field, rfl⟩⟩
    | some uf =>
      rw [in_field] at turned
      simp only at turned
      split at turned
      · obtain rfl := Option.some.inj turned
        exact ⟨rfl, .inr ⟨uf, in_field, .inl rfl⟩⟩
      · obtain rfl := Option.some.inj turned
        exact ⟨rfl, .inr ⟨uf, in_field, .inr rfl⟩⟩

theorem turn_isSome (ix : Nat) (ch : UInt8) (x : UrlLoop) :
    (x.turn strict ix ch).isSome ↔ parseUrlChar strict x.s ch ≠ .dead := by
  unfold turn
  by_cases dead : parseUrlChar strict x.s ch = .dead
  · simp [dead]
  · rw [if_neg dead]
    cases (parseUrlChar strict x.s ch).field with
    | none => simp [dead]
    | some uf =>
      simp only
      split
      · simp [dead]
      · simp [dead]

/-- **What a run accepts**, the states decide. -/
theorem run_isSome (text : Bytes) (ix : Nat) (x : UrlLoop) (alive : x.s ≠ .dead) :
    (run strict ix text x).isSome ↔ urlEnd strict x.s text ≠ .dead := by
  induction text generalizing ix x with
  | nil => simpa [run, urlEnd] using alive
  | cons ch text ih =>
    rw [run, urlEnd, List.foldl_cons]
    cases turned : x.turn strict ix ch with
    | none =>
      have dead : parseUrlChar strict x.s ch = .dead := by
        by_contra other
        have some_turn := (turn_isSome ix ch x).mpr other
        rw [turned] at some_turn
        cases some_turn
      have ended := urlEnd_dead strict text
      unfold urlEnd at ended
      simp [dead, ended]
    | some y =>
      have state := (turn_cases turned).1
      have alive_now : y.s ≠ .dead := by
        rw [state]
        exact (turn_isSome ix ch x).mp (by rw [turned]; rfl)
      rw [Option.bind_some, ih (ix + 1) y alive_now, state]
      rfl

/-- A character that is in no field. -/
theorem run_skip {x : UrlLoop} {ch : UInt8} {s : UrlState} (enters : parseUrlChar strict x.s ch = s)
    (alive : s ≠ .dead) (no_field : s.field = none) (ix : Nat) :
    run strict ix [ch] x = some { x with s := s } := by
  have not_at : s ≠ .serverWithAt := by
    rintro rfl
    cases no_field
  have found : (x.foundAt || decide (s = .serverWithAt)) = x.foundAt := by simp [not_at]
  simp only [run, turn, enters, if_neg alive, no_field, found, Option.bind_some]

/-- A field goes on. -/
theorem run_stay {s : UrlState} {uf : UrlField} (of_field : s.field = some uf) (not_at : s ≠ .serverWithAt)
    {text : Bytes} (stays : ∀ ch ∈ text, parseUrlChar strict s ch = s) {x : UrlLoop} (state : x.s = s)
    (old : x.oldUf = some uf) (ix : Nat) :
    run strict ix text x = some { x with u := x.u.extendBy uf text.length } := by
  have alive : s ≠ .dead := by
    rintro rfl
    cases of_field
  induction text generalizing ix x with
  | nil => rfl
  | cons ch text ih =>
    have same := stays ch List.mem_cons_self
    have found : (x.foundAt || decide (s = .serverWithAt)) = x.foundAt := by simp [not_at]
    have first : x.turn strict ix ch = some { x with u := x.u.extend uf } := by
      simp only [turn, state, same, if_neg alive, of_field, old, if_true, found]
    rw [run, first, Option.bind_some,
      ih (fun other member => stays other (List.mem_cons_of_mem _ member)) (x := { x with u := x.u.extend uf })
        state old (ix + 1)]
    rfl

/-- **A field begins and goes on.** -/
theorem run_enter {s : UrlState} {uf : UrlField} (of_field : s.field = some uf) (not_at : s ≠ .serverWithAt)
    {x : UrlLoop} {ch : UInt8} {text : Bytes} (enters : parseUrlChar strict x.s ch = s)
    (stays : ∀ ch ∈ text, parseUrlChar strict s ch = s) (other : x.oldUf ≠ some uf) (ix : Nat) :
    ∃ y, run strict ix (ch :: text) x = some y ∧ y.s = s ∧ y.oldUf = some uf ∧ y.foundAt = x.foundAt ∧
      y.u.fieldData uf = some (field ix (text.length + 1)) ∧ SameBut uf x.u y.u := by
  have alive : s ≠ .dead := by
    rintro rfl
    cases of_field
  have found : (x.foundAt || decide (s = .serverWithAt)) = x.foundAt := by simp [not_at]
  have first : x.turn strict ix ch = some ⟨s, some uf, x.foundAt, x.u.begin uf ix 1⟩ := by
    simp only [turn, enters, if_neg alive, of_field, if_neg other, found]
  have later := run_stay of_field not_at stays (x := ⟨s, some uf, x.foundAt, x.u.begin uf ix 1⟩) rfl rfl
    (ix + 1)
  have begun : (x.u.begin uf ix 1).fieldData uf = some (field ix 1) := x.u.begin_same uf ix 1
  refine ⟨⟨s, some uf, x.foundAt, (x.u.begin uf ix 1).extendBy uf text.length⟩, ?_, rfl, rfl, rfl, ?_, ?_⟩
  · rw [run, first, Option.bind_some, later]
  · rw [HttpParserUrl.extendBy_same uf _ _ begun, Nat.add_comm 1]
  · exact (x.u.sameBut_begin uf ix 1).trans (HttpParserUrl.sameBut_extendBy uf _ _)

end UrlLoop

/-! ### The run over the authority -/

/-- The state after a string, whatever the fields. -/
def hostEnd (strict : Bool) (s : HostState) (text : Bytes) : HostState :=
  text.foldl (parseHostChar strict) s

theorem hostEnd_dead (strict : Bool) (text : Bytes) : hostEnd strict .dead text = .dead := by
  induction text with
  | nil => rfl
  | cons ch text ih => exact ih

section Host

variable {strict : Bool}

theorem hostLoop_append (first second : Bytes) (ix : Nat) (s : HostState) (u : HttpParserUrl) :
    hostLoop strict ix (first ++ second) s u =
      (hostLoop strict ix first s u).bind fun x =>
        hostLoop strict (ix + first.length) second x.1 x.2 := by
  induction first generalizing ix s u with
  | nil => rfl
  | cons ch first ih =>
    rw [List.cons_append, hostLoop, hostLoop]
    by_cases dead : parseHostChar strict s ch = .dead
    · simp only [dead, if_true, Option.bind_none]
    · simp only [dead, if_false]
      rw [ih, List.length_cons, Nat.add_assoc, Nat.add_comm 1]

/-- **What a run accepts**, and in which state it ends. -/
theorem hostLoop_eq {text : Bytes} {ix : Nat} {s end_state : HostState} {u v : HttpParserUrl}
    (ran : hostLoop strict ix text s u = some (end_state, v)) (alive : s ≠ .dead) :
    end_state = hostEnd strict s text ∧ end_state ≠ .dead := by
  induction text generalizing ix s u with
  | nil =>
    obtain ⟨rfl, rfl⟩ := Prod.mk.inj (Option.some.inj ran)
    exact ⟨rfl, alive⟩
  | cons ch text ih =>
    rw [hostLoop] at ran
    by_cases dead : parseHostChar strict s ch = .dead
    · simp only [dead, if_true] at ran
      cases ran
    · simp only [dead, if_false] at ran
      exact ih ran dead

end Host

end Apib.HttpParser
