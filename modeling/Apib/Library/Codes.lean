/-
**Codes that delimit themselves.**

A `Code` writes values as lists and reads them off the front of a list, so that where a value ends can be
told without what follows it. Codes are put together from parts, the code of a later part may depend on
the values before it, and whatever is put together reads what it writes.

* `literal`, `spanTo`, `fixed`: a mark, items up to a mark, and so many items;
* `Code.bind`, `Code.many`, `Code.guard`, `Code.equiv`: **codes from codes**;
* `Code.unique`, `Code.read_part`: what is written is read in one way, and no proper part of it is read;
* `Code.readAll_stream`: **a stream of values, and a part of one more, is read as these values**.
-/

import Mathlib.Data.List.Basic
import Mathlib.Data.List.TakeWhile
import Mathlib.Logic.Equiv.Defs

namespace Codes

variable {α β γ : Type*}

/-- A code for values of `α` in lists of `β`. -/
structure Code (β α : Type*) where
  Valid : α → Prop
  write : α → List β
  read : List β → Option (α × List β)
  read_write : ∀ {a}, Valid a → ∀ rest, read (write a ++ rest) = some (a, rest)
  write_read : ∀ {s a rest}, read s = some (a, rest) → Valid a ∧ s = write a ++ rest

/-! ### Parts -/

section Parts

variable [DecidableEq β]

/-- A mark that says nothing. -/
def literal (mark : List β) : Code β Unit where
  Valid _ := True
  write _ := mark
  read s := if mark <+: s then some ((), s.drop mark.length) else none
  read_write := by
    intro _ _ rest
    rw [if_pos (List.prefix_append mark rest), List.drop_left]
  write_read := by
    intro s _ rest found
    obtain ⟨⟨more, rfl⟩, same⟩ := Option.ite_none_right_eq_some.mp found
    rw [List.drop_left] at same
    obtain ⟨-, rfl⟩ := Prod.mk.inj (Option.some.inj same)
    exact ⟨trivial, rfl⟩

/-- The items in front of a mark that begins with one of another kind. -/
def spanTo (p : β → Bool) (first : β) (others : List β) (outside : p first = false) : Code β (List β) where
  Valid items := ∀ b ∈ items, p b = true
  write items := items ++ first :: others
  read s :=
    if first :: others <+: s.dropWhile p then
      some (s.takeWhile p, (s.dropWhile p).drop (others.length + 1))
    else none
  read_write := by
    intro items inside rest
    have stop : ((first :: others) ++ rest).takeWhile p = [] ∧
        ((first :: others) ++ rest).dropWhile p = (first :: others) ++ rest := by
      simp [outside]
    rw [List.append_assoc, List.takeWhile_append_of_pos inside, List.dropWhile_append_of_pos inside,
      stop.1, stop.2, if_pos (List.prefix_append _ _), List.append_nil]
    have left : ((first :: others) ++ rest).drop (others.length + 1) = rest :=
      List.drop_left' (List.length_cons)
    exact congrArg (fun left => some (items, left)) left
  write_read := by
    intro s items rest found
    obtain ⟨⟨more, split⟩, same⟩ := Option.ite_none_right_eq_some.mp found
    obtain ⟨rfl, rfl⟩ := Prod.mk.inj (Option.some.inj same)
    refine ⟨fun b member => List.mem_takeWhile_imp member, ?_⟩
    rw [← split]
    have left : ((first :: others) ++ more).drop (others.length + 1) = more :=
      List.drop_left' List.length_cons
    rw [left, List.append_assoc, split, List.takeWhile_append_dropWhile]

end Parts

/-- So many items. -/
def fixed (n : Nat) : Code β (List β) where
  Valid items := items.length = n
  write items := items
  read s := if n ≤ s.length then some (s.take n, s.drop n) else none
  read_write := by
    rintro items rfl rest
    rw [if_pos (by simp), List.take_left, List.drop_left]
  write_read := by
    intro s items rest found
    obtain ⟨enough, same⟩ := Option.ite_none_right_eq_some.mp found
    obtain ⟨rfl, rfl⟩ := Prod.mk.inj (Option.some.inj same)
    exact ⟨List.length_take_of_le enough, (List.take_append_drop n s).symm⟩

namespace Code

/-! ### Codes from codes -/

/-- A value, and then one whose code may depend on it. -/
def bind (code : Code β α) (next : α → Code β γ) : Code β (α × γ) where
  Valid x := code.Valid x.1 ∧ (next x.1).Valid x.2
  write x := code.write x.1 ++ (next x.1).write x.2
  read s := (code.read s).bind fun first =>
    ((next first.1).read first.2).map fun second => ((first.1, second.1), second.2)
  read_write := by
    rintro ⟨a, c⟩ ⟨valid, valid'⟩ rest
    rw [List.append_assoc, code.read_write valid, Option.bind_some, (next a).read_write valid']
    rfl
  write_read := by
    intro s x rest found
    obtain ⟨⟨a, middle⟩, read, found⟩ := Option.bind_eq_some_iff.mp found
    obtain ⟨⟨c, last⟩, read', same⟩ := Option.map_eq_some_iff.mp found
    obtain ⟨rfl, rfl⟩ := Prod.mk.inj same
    obtain ⟨valid, rfl⟩ := code.write_read read
    obtain ⟨valid', split⟩ := (next a).write_read read'
    dsimp only at split
    exact ⟨⟨valid, valid'⟩, by rw [split, List.append_assoc]⟩

/-- The values that meet a condition. -/
def guard (code : Code β α) (p : α → Bool) : Code β α where
  Valid a := code.Valid a ∧ p a = true
  write := code.write
  read s := (code.read s).filter fun x => p x.1
  read_write := by
    rintro a ⟨valid, holds⟩ rest
    rw [code.read_write valid, Option.filter_some, if_pos holds]
  write_read := by
    intro s a rest found
    obtain ⟨read, holds⟩ := Option.filter_eq_some_iff.mp found
    obtain ⟨valid, split⟩ := code.write_read read
    exact ⟨⟨valid, holds⟩, split⟩

/-- The same values in another form. -/
def equiv (code : Code β α) (form : α ≃ γ) : Code β γ where
  Valid c := code.Valid (form.symm c)
  write c := code.write (form.symm c)
  read s := (code.read s).map fun x => (form x.1, x.2)
  read_write := by
    intro c valid rest
    rw [code.read_write valid, Option.map_some, form.apply_symm_apply]
  write_read := by
    intro s c rest found
    obtain ⟨⟨a, left⟩, read, same⟩ := Option.map_eq_some_iff.mp found
    obtain ⟨rfl, rfl⟩ := Prod.mk.inj same
    rw [form.symm_apply_apply]
    exact code.write_read read

section Many

variable [DecidableEq β]

/-- Read values until a mark, so many at most. -/
def readUpTo (code : Code β α) (mark : List β) : Nat → List β → Option (List α × List β)
  | fuel, s =>
    if mark <+: s then some ([], s.drop mark.length)
    else
      match fuel with
      | 0 => none
      | fuel + 1 => (code.read s).bind fun first =>
          (readUpTo code mark fuel first.2).map fun others => (first.1 :: others.1, others.2)

variable {code : Code β α} {mark : List β}

theorem readUpTo_write (never : ∀ a, code.Valid a → ∀ rest, ¬ mark <+: code.write a ++ rest)
    {values : List α} (valid : ∀ a ∈ values, code.Valid a) (rest : List β) {fuel : Nat}
    (enough : values.length ≤ fuel) :
    readUpTo code mark fuel (values.flatMap code.write ++ mark ++ rest) = some (values, rest) := by
  induction values generalizing fuel with
  | nil =>
    rw [List.flatMap_nil, List.nil_append]
    cases fuel <;> rw [readUpTo, if_pos (List.prefix_append mark rest), List.drop_left]
  | cons a values ih =>
    obtain ⟨fuel, rfl⟩ : ∃ less, fuel = less + 1 := ⟨fuel - 1, by rw [List.length_cons] at enough; omega⟩
    have first := valid a List.mem_cons_self
    have split : (a :: values).flatMap code.write ++ mark ++ rest =
        code.write a ++ (values.flatMap code.write ++ mark ++ rest) := by
      simp
    rw [readUpTo, split, if_neg (never a first _), code.read_write first, Option.bind_some,
      ih (fun b member => valid b (List.mem_cons_of_mem a member)) (Nat.le_of_succ_le_succ enough)]
    rfl

theorem readUpTo_read {fuel : Nat} {s rest : List β} {values : List α}
    (found : readUpTo code mark fuel s = some (values, rest)) :
    (∀ a ∈ values, code.Valid a) ∧ s = values.flatMap code.write ++ mark ++ rest := by
  induction fuel generalizing s values with
  | zero =>
    rw [readUpTo] at found
    obtain ⟨⟨more, rfl⟩, same⟩ := Option.ite_none_right_eq_some.mp found
    obtain ⟨rfl, rfl⟩ := Prod.mk.inj (Option.some.inj same)
    exact ⟨by simp, by simp⟩
  | succ fuel ih =>
    rw [readUpTo] at found
    split at found
    · next here =>
      obtain ⟨more, rfl⟩ := here
      obtain ⟨rfl, rfl⟩ := Prod.mk.inj (Option.some.inj found)
      exact ⟨by simp, by simp⟩
    · obtain ⟨⟨a, middle⟩, read, found⟩ := Option.bind_eq_some_iff.mp found
      obtain ⟨⟨others, last⟩, more, same⟩ := Option.map_eq_some_iff.mp found
      obtain ⟨rfl, rfl⟩ := Prod.mk.inj same
      obtain ⟨valid, rfl⟩ := code.write_read read
      obtain ⟨each, split⟩ := ih more
      dsimp only at split
      refine ⟨fun b member => ?_, by rw [split]; simp⟩
      rcases List.mem_cons.mp member with rfl | later
      · exact valid
      · exact each b later

omit [DecidableEq β] in
/-- Values that are not empty are fewer than their items. -/
theorem length_le_flatMap (some_item : ∀ a, code.Valid a → code.write a ≠ []) {values : List α}
    (valid : ∀ a ∈ values, code.Valid a) : values.length ≤ (values.flatMap code.write).length := by
  induction values with
  | nil => exact Nat.le_refl 0
  | cons a values ih =>
    have one := List.length_pos_iff.mpr (some_item a (valid a List.mem_cons_self))
    have others := ih fun b member => valid b (List.mem_cons_of_mem a member)
    rw [List.flatMap_cons, List.length_append, List.length_cons]
    omega

/-- **Values up to a mark** that no value begins with. -/
def many (code : Code β α) (mark : List β)
    (never : ∀ a, code.Valid a → ∀ rest, ¬ mark <+: code.write a ++ rest) : Code β (List α) where
  Valid values := ∀ a ∈ values, code.Valid a
  write values := values.flatMap code.write ++ mark
  read s := readUpTo code mark s.length s
  read_write := by
    intro values valid rest
    apply readUpTo_write never valid
    have some_item : ∀ a, code.Valid a → code.write a ≠ [] := by
      intro a here empty
      apply never a here mark
      show mark <+: code.write a ++ mark
      exact ⟨[], by simp [empty]⟩
    have fewer := length_le_flatMap some_item valid
    rw [List.length_append, List.length_append]
    omega
  write_read := readUpTo_read

end Many

/-! ### What is read -/

section Reading

variable {code : Code β α} {a b : α} {part rest more : List β}

/-- **What is written is read in one way.** -/
theorem unique (valid : code.Valid a) (valid' : code.Valid b)
    (same : code.write a ++ rest = code.write b ++ more) : a = b ∧ rest = more := by
  have first := code.read_write valid rest
  rw [same, code.read_write valid' more] at first
  obtain ⟨rfl, rfl⟩ := Prod.mk.inj (Option.some.inj first)
  exact ⟨rfl, rfl⟩

/-- **No proper part of what is written is read.** -/
theorem read_part (valid : code.Valid a) (start : part <+: code.write a) (proper : part ≠ code.write a) :
    code.read part = none := by
  by_contra found
  obtain ⟨⟨b, left⟩, read⟩ := Option.ne_none_iff_exists'.mp found
  obtain ⟨valid', split⟩ := code.write_read read
  obtain ⟨missing, whole⟩ := start
  have same : code.write a ++ [] = code.write b ++ (left ++ missing) := by
    rw [List.append_nil, ← whole, split, List.append_assoc]
  obtain ⟨-, none_left⟩ := unique valid valid' same
  have no_more : missing = [] := (List.append_eq_nil_iff.mp none_left.symm).2
  apply proper
  rw [← whole, no_more, List.append_nil]

/-! ### Streams -/

/-- Read values off a stream as long as there are any, so many at most. -/
def readAll (code : Code β α) : Nat → List β → List α × List β
  | 0, s => ([], s)
  | fuel + 1, s =>
    match code.read s with
    | none => ([], s)
    | some (a, rest) => (a :: (code.readAll fuel rest).1, (code.readAll fuel rest).2)

/-- **A stream of values and a part of one more** is read as these values. -/
theorem readAll_stream {values : List α} (valid : ∀ a ∈ values, code.Valid a)
    (unread : code.read part = none) {fuel : Nat} (enough : values.length ≤ fuel) :
    code.readAll fuel (values.flatMap code.write ++ part) = (values, part) := by
  induction values generalizing fuel with
  | nil =>
    cases fuel with
    | zero => rfl
    | succ fuel => rw [List.flatMap_nil, List.nil_append, readAll, unread]
  | cons a values ih =>
    obtain ⟨fuel, rfl⟩ : ∃ less, fuel = less + 1 := ⟨fuel - 1, by rw [List.length_cons] at enough; omega⟩
    rw [List.flatMap_cons, List.append_assoc, readAll, code.read_write (valid a List.mem_cons_self)]
    dsimp only
    rw [ih (fun b member => valid b (List.mem_cons_of_mem a member)) (Nat.le_of_succ_le_succ enough)]

end Reading

end Code

end Codes
