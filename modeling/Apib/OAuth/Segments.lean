/-
**Parameters lost and invented.**

Every segment that is not empty is to give one parameter: its name before the first `=`, its value behind
it. `readParams` also makes a parameter of an empty segment, and its value ends at a second `=`.

* `readParam_kept`: a segment that is not empty and has one `=` at most is read as it is to be;
* `value_cut`: a value loses what stands behind a second `=`, unless that is nothing and `decode` drops
  the `=` too, as part of an escape that is not finished;
* `read_params_iff`: **so the parameters are those that are due** if every segment is such a segment.
-/

import Apib.OAuth.Escapes

namespace Apib.OAuth

open Numerals PercentEncoding

/-- The parameter that a segment is to give, if its escapes can be read. -/
def dueParam (segment : Bytes) : Option Param :=
  (decode (cutField segment).1).bind fun name => (decode (cutField segment).2).map (name, ·)

/-- The parameters that `readParams` is to append, if the escapes can be read. -/
def dueParams (str : Bytes) : Option (List Param) :=
  ((str.splitOn 38).filter fun segment => !segment.isEmpty).mapM dueParam

/-- The escape at the end of a text that is not finished. -/
def unfinished : Bytes → Bytes
  | [] => []
  | [c] => if c = 37 then [c] else []
  | [c, d] => if c = 37 then [c, d] else unfinished [d]
  | c :: x :: y :: rest => if c = 37 then unfinished rest else unfinished (x :: y :: rest)

/-- A segment of which nothing is lost or invented. -/
structure Kept (segment : Bytes) : Prop where
  some_byte : segment ≠ []
  one_equals : 61 ∉ (cutField segment).2 ∨
    ∃ front, 61 ∉ front ∧ (cutField segment).2 = front ++ [61] ∧
      unfinished (cutField segment).2 = [37, 61]

/-! ### Values with a second `=` -/

theorem unfinished_cons {c : UInt8} (other : c ≠ 37) (rest : Bytes) :
    unfinished (c :: rest) = unfinished rest := by
  match rest with
  | [] => simp [unfinished, other]
  | [d] => simp [unfinished, other]
  | _ :: _ :: _ => simp [unfinished, other]

theorem unfinished_percent (x y : UInt8) (rest : Bytes) :
    unfinished (37 :: x :: y :: rest) = unfinished rest := by
  simp [unfinished]

/-- What stands behind an escape that is not finished is not decoded either. -/
theorem decode_unfinished (front : Bytes) (open_escape : unfinished (front ++ [61]) = [37, 61]) :
    decode (front ++ [61]) = decode front := by
  induction front using front_induction with
  | nil => exact absurd open_escape (by decide)
  | cons c rest other ih =>
    rw [List.cons_append, unfinished_cons other] at open_escape
    rw [List.cons_append, decode_cons other, decode_cons other, ih open_escape]
  | one => rfl
  | two x _ => exact absurd open_escape (by simp [unfinished])
  | escape x y rest ih _ =>
    rw [List.cons_append, List.cons_append, List.cons_append, unfinished_percent] at open_escape
    rw [List.cons_append, List.cons_append, List.cons_append, decode_percent, decode_percent,
      ih open_escape]

/-- **A value cut at a second `=`** is decoded to the same only where that `=` is part of an escape that
is not finished. -/
theorem value_cut {front back decoded : Bytes} (cut : decode front = some decoded)
    (whole : decode (front ++ 61 :: back) = some decoded) :
    back = [] ∧ unfinished (front ++ [61]) = [37, 61] := by
  induction front using front_induction generalizing decoded with
  | nil =>
    obtain rfl := Option.some.inj cut
    rw [List.nil_append, decode_cons (by decide)] at whole
    obtain ⟨rest, -, equal⟩ := Option.map_eq_some_iff.mp whole
    cases equal
  | cons c rest other ih =>
    rw [decode_cons other] at cut
    rw [List.cons_append, decode_cons other] at whole
    obtain ⟨tail, rest_cut, rfl⟩ := Option.map_eq_some_iff.mp cut
    obtain ⟨same, rest_whole, equal⟩ := Option.map_eq_some_iff.mp whole
    obtain ⟨-, rfl⟩ := List.cons.inj equal
    rw [List.cons_append, unfinished_cons other]
    exact ih rest_cut rest_whole
  | one =>
    match back with
    | [] => exact ⟨rfl, rfl⟩
    | y :: back =>
      -- an `=` behind a percent sign is no number
      rw [List.singleton_append, decode_percent] at whole
      obtain ⟨ch, read, -⟩ := Option.bind_eq_some_iff.mp whole
      have accepted := (stoi16_isSome 61 y).mp (by simp [read])
      rcases accepted with digit | ⟨space | plus | minus, -⟩
      · cases digit
      · cases space
      · cases plus
      · cases minus
  | two x _ =>
    obtain rfl := Option.some.inj cut
    rw [List.cons_append, List.singleton_append, decode_percent] at whole
    obtain ⟨ch, -, whole⟩ := Option.bind_eq_some_iff.mp whole
    obtain ⟨rest, -, equal⟩ := Option.map_eq_some_iff.mp whole
    cases equal
  | escape x y rest ih _ =>
    rw [decode_percent] at cut
    rw [List.cons_append, List.cons_append, List.cons_append, decode_percent] at whole
    obtain ⟨ch, read, cut⟩ := Option.bind_eq_some_iff.mp cut
    obtain ⟨tail, rest_cut, rfl⟩ := Option.map_eq_some_iff.mp cut
    obtain ⟨_, -, whole⟩ := Option.bind_eq_some_iff.mp whole
    obtain ⟨same, rest_whole, equal⟩ := Option.map_eq_some_iff.mp whole
    obtain ⟨-, rfl⟩ := List.cons.inj equal
    rw [List.cons_append, List.cons_append, List.cons_append, unfinished_percent]
    exact ih rest_cut rest_whole

/-- Where the whole is decoded, so is what stands before an `=`. -/
theorem decodes_front {front back : Bytes} (whole : Decodes (front ++ back)) : Decodes front := by
  induction front using front_induction with
  | nil => trivial
  | cons c rest other ih =>
    rw [List.cons_append, decodes_cons other] at whole
    exact (decodes_cons other rest).mpr (ih whole)
  | one => trivial
  | two x _ => trivial
  | escape x y rest ih _ =>
    rw [List.cons_append, List.cons_append, List.cons_append, decodes_percent] at whole
    exact (decodes_percent x y rest).mpr ⟨whole.1, ih whole.2⟩

/-! ### One segment -/

/-- Where the parameter that is due can be read, the code reads one. -/
theorem parses_of_dueParam {segment : Bytes} (due : (dueParam segment).isSome) : Parses segment := by
  obtain ⟨param, due⟩ := Option.isSome_iff_exists.mp due
  obtain ⟨name, name_read, due⟩ := Option.bind_eq_some_iff.mp due
  obtain ⟨value, value_read, -⟩ := Option.map_eq_some_iff.mp due
  have value_decodes := (decode_isSome (cutField segment).2).mp (by simp [value_read])
  rw [← List.takeWhile_append_dropWhile (p := (· != 61)) (l := (cutField segment).2)] at value_decodes
  exact ⟨(decode_isSome _).mp (by simp [name_read]), decodes_front value_decodes⟩

/-- **A segment of which nothing is lost** is read as it is to be. -/
theorem readParam_kept {segment : Bytes} (kept : Kept segment) : readParam segment = dueParam segment := by
  rw [readParam_eq, dueParam]
  rcases kept.one_equals with free | ⟨front, free, value, open_escape⟩
  · rw [takeWhile_free free]
  · have cut : (front ++ [61]).takeWhile (· != 61) = front := congrArg Prod.fst (cutField_append free [])
    rw [value] at open_escape ⊢
    rw [cut, decode_unfinished front open_escape]

/-- A segment that is read as it is to be has lost nothing. -/
theorem one_equals_of_readParam {segment : Bytes} {param : Param} (read : readParam segment = some param)
    (due : dueParam segment = some param) :
    61 ∉ (cutField segment).2 ∨
      ∃ front, 61 ∉ front ∧ (cutField segment).2 = front ++ [61] ∧
        unfinished (cutField segment).2 = [37, 61] := by
  by_cases member : 61 ∈ (cutField segment).2
  · rw [readParam_eq] at read
    obtain ⟨name, -, read⟩ := Option.bind_eq_some_iff.mp read
    obtain ⟨value, cut, rfl⟩ := Option.map_eq_some_iff.mp read
    obtain ⟨_, -, due⟩ := Option.bind_eq_some_iff.mp due
    obtain ⟨_, whole, equal⟩ := Option.map_eq_some_iff.mp due
    obtain ⟨-, rfl⟩ := Prod.mk.inj equal
    obtain ⟨front, back, split, free⟩ := List.eq_append_cons_of_mem member
    have here : (front ++ 61 :: back).takeWhile (· != 61) = front :=
      congrArg Prod.fst (cutField_append free back)
    rw [split, here] at cut
    rw [split] at whole
    obtain ⟨rfl, open_escape⟩ := value_cut cut whole
    exact .inr ⟨front, free, split, by rw [split, open_escape]⟩
  · exact .inl member

/-! ### All segments -/

/-- If no escape fails, the parameters are those that are due exactly if nothing is lost of any
segment. -/
theorem read_params_iff_kept {str : Bytes} (parses : ∀ segment ∈ str.splitOn 38, Parses segment) :
    readParams str = dueParams str ↔ ∀ segment ∈ str.splitOn 38, Kept segment := by
  constructor
  · intro same
    obtain ⟨params, read⟩ := Option.isSome_iff_exists.mp ((readParams_isSome str).mpr parses)
    have due : dueParams str = some params := by rw [← same, read]
    unfold readParams at read
    unfold dueParams at due
    -- an empty segment is a parameter too many
    have all : (str.splitOn 38).filter (fun segment => !segment.isEmpty) = str.splitOn 38 := by
      have read_length := Traverse.mapM_length read
      have due_length := Traverse.mapM_length due
      exact List.filter_eq_self.mpr (List.length_filter_eq_length_iff.mp (by omega))
    rw [all] at due
    intro segment member
    obtain ⟨param, here, there⟩ := Traverse.mapM_agree read due segment member
    exact ⟨by simpa using List.filter_eq_self.mp all segment member, one_equals_of_readParam here there⟩
  · intro kept
    have all : (str.splitOn 38).filter (fun segment => !segment.isEmpty) = str.splitOn 38 := by
      refine List.filter_eq_self.mpr fun segment member => ?_
      simpa using (kept segment member).some_byte
    rw [readParams, dueParams, all]
    exact Traverse.mapM_congr fun segment member => readParam_kept (kept segment member)

/-- Where the code throws, the parameters that are due cannot be read either. -/
theorem dueParams_none {str : Bytes} (fails : ¬ ∀ segment ∈ str.splitOn 38, Parses segment) :
    dueParams str = none := by
  rw [← Option.not_isSome_iff_eq_none]
  intro due
  refine fails fun segment member => ?_
  by_cases empty : segment = []
  · subst empty
    exact ⟨trivial, trivial⟩
  · have kept : segment ∈ (str.splitOn 38).filter fun segment => !segment.isEmpty :=
      List.mem_filter.mpr ⟨member, by simpa using empty⟩
    exact parses_of_dueParam (Traverse.mapM_isSome_iff.mp due segment kept)

/-- **The parameters that are read are those that are due** exactly if nothing is lost or invented of any
segment, or an escape fails, so that there are none. -/
theorem read_params_iff (str : Bytes) :
    readParams str = dueParams str ↔
      (∀ segment ∈ str.splitOn 38, Kept segment) ∨ ∃ segment ∈ str.splitOn 38, ¬ Parses segment := by
  by_cases parses : ∀ segment ∈ str.splitOn 38, Parses segment
  · have no_failure : ¬ ∃ segment ∈ str.splitOn 38, ¬ Parses segment := by
      rintro ⟨segment, member, fails⟩
      exact fails (parses segment member)
    rw [read_params_iff_kept parses, or_iff_left no_failure]
  · have read : readParams str = none := by
      rw [← Option.not_isSome_iff_eq_none, readParams_isSome]
      exact parses
    refine iff_of_true (read.trans (dueParams_none parses).symm) (.inr ?_)
    simpa using parses

/-- The empty string gives a parameter, and `a=b=c` the value `b`. -/
theorem params_invented_and_lost :
    readParams [] = some [([], [])] ∧ readParams [] ≠ dueParams [] ∧
      readParams (ascii "a=b=c") = some [(ascii "a", ascii "b")] ∧
      readParams (ascii "a=b=c") ≠ dueParams (ascii "a=b=c") := by
  decide +kernel

end Apib.OAuth
