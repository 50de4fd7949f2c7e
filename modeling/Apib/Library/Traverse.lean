/-
**Partial functions along a list.**

`List.mapM` of a partial function has a result exactly if every element has one, and then one for each
element.

* `mapM_isSome_iff`, `mapM_length`: when there is a result, and how long it is;
* `mapM_agree`: two functions with the same result agree on every element.
-/

import Mathlib.Data.Option.Basic

namespace Traverse

variable {α β : Type*} {f g : α → Option β} {list : List α} {results : List β}

theorem mapM_cons_some {x : α} (mapped : (x :: list).mapM f = some results) :
    ∃ y rest, f x = some y ∧ list.mapM f = some rest ∧ results = y :: rest := by
  rw [List.mapM_cons] at mapped
  obtain ⟨y, first, mapped⟩ := Option.bind_eq_some_iff.mp mapped
  obtain ⟨rest, later, mapped⟩ := Option.bind_eq_some_iff.mp mapped
  exact ⟨y, rest, first, later, (Option.some.inj mapped).symm⟩

theorem mapM_length (mapped : list.mapM f = some results) : results.length = list.length := by
  induction list generalizing results with
  | nil =>
    obtain rfl := Option.some.inj mapped
    rfl
  | cons x list ih =>
    obtain ⟨y, rest, -, later, rfl⟩ := mapM_cons_some mapped
    rw [List.length_cons, List.length_cons, ih later]

/-- **There is a result** exactly if every element has one. -/
theorem mapM_isSome_iff : (list.mapM f).isSome ↔ ∀ x ∈ list, (f x).isSome := by
  induction list with
  | nil => simp
  | cons x list ih =>
    rw [List.forall_mem_cons, ← ih, List.mapM_cons]
    cases f x with
    | none => simp
    | some y => cases list.mapM f <;> simp

theorem mapM_congr (same : ∀ x ∈ list, f x = g x) : list.mapM f = list.mapM g := by
  induction list with
  | nil => rfl
  | cons x list ih =>
    obtain ⟨first, later⟩ := List.forall_mem_cons.mp same
    rw [List.mapM_cons, List.mapM_cons, first, ih later]

/-- **Two functions with the same result** agree on every element. -/
theorem mapM_agree (first : list.mapM f = some results) (second : list.mapM g = some results) :
    ∀ x ∈ list, ∃ y, f x = some y ∧ g x = some y := by
  induction list generalizing results with
  | nil => intro x member; cases member
  | cons x list ih =>
    obtain ⟨y, rest, here, later, rfl⟩ := mapM_cons_some first
    obtain ⟨z, others, there, further, equal⟩ := mapM_cons_some second
    obtain ⟨rfl, rfl⟩ := List.cons.inj equal
    exact List.forall_mem_cons.mpr ⟨⟨y, here, there⟩, ih later further⟩

end Traverse
