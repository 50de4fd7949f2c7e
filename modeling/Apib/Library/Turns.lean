/-
**Machines that take several inputs in one turn.**

A program that reads a buffer may scan ahead over inputs that all mean the same to it, where a machine would
take them one by one (`ByteMachine`). `turns` is the loop of such a program: each turn is given the inputs
that are left, at least one, and says what is left after it.

* `Alike`: two outcomes are the same, or both are bad, whatever a bad state is;
* `Turn.Follows`: a turn takes at least one input, and leads where the machine gets;
* `turns_alike`: **a loop whose turns all follow a machine gets where the machine gets.**
-/

import Apib.Library.ByteMachine

namespace ByteMachine

variable {σ β : Type*}

/-- What a turn comes to: the loop goes on with what is left, or leaves it. -/
inductive Turn (σ β : Type*)
  | more (next : σ) (rest : List β)
  | stop (last : σ) (rest : List β)

/-- The loop, which takes no more turns than there are inputs. -/
def turns (turn : σ → β → List β → Turn σ β) : Nat → σ → List β → Fed σ β
  | 0, state, rest => ⟨state, rest, false⟩
  | _, state, [] => ⟨state, [], false⟩
  | count + 1, state, input :: rest =>
    match turn state input rest with
    | .more next rest => turns turn count next rest
    | .stop last rest => ⟨last, rest, true⟩

/-- A step of the machine as a turn. -/
def Verdict.turn (verdict : Verdict σ) (input : β) (rest : List β) : Turn σ β :=
  match verdict with
  | .more next => .more next rest
  | .stop last true => .stop last rest
  | .stop last false => .stop last (input :: rest)

/-- The same outcome, or a bad state in both. -/
def Alike (bad : σ → Prop) (one other : Fed σ β) : Prop :=
  one = other ∨ bad one.state ∧ bad other.state

section Alike

variable {bad : σ → Prop} {one other third : Fed σ β}

theorem Alike.refl (one : Fed σ β) : Alike bad one one := .inl rfl

theorem Alike.symm (alike : Alike bad one other) : Alike bad other one :=
  alike.imp Eq.symm And.symm

theorem Alike.trans (first : Alike bad one other) (second : Alike bad other third) :
    Alike bad one third := by
  rcases first with rfl | ⟨left, right⟩
  · exact second
  · rcases second with rfl | ⟨-, last⟩
    · exact .inr ⟨left, right⟩
    · exact .inr ⟨left, last⟩

/-- Alike outcomes are bad together. -/
theorem Alike.bad_iff (alike : Alike bad one other) : bad one.state ↔ bad other.state := by
  rcases alike with rfl | ⟨left, right⟩
  · exact Iff.rfl
  · exact iff_of_true left right

/-- Where one of them is not bad, they are the same. -/
theorem Alike.eq (alike : Alike bad one other) (fine : ¬ bad other.state) : one = other :=
  alike.resolve_right fun both => fine both.2

end Alike

section Turns

variable {step : σ → β → Verdict σ} {bad kept : σ → Prop}

/-- A turn from `state` with some inputs left goes where the machine goes. -/
def Turn.Follows (step : σ → β → Verdict σ) (bad kept : σ → Prop) (state : σ) (inputs : List β) :
    Turn σ β → Prop
  | .more next rest => kept next ∧ rest.length < inputs.length ∧
    Alike bad (feed step next rest) (feed step state inputs)
  | .stop last rest => Alike bad ⟨last, rest, true⟩ (feed step state inputs)

/-- A step of the machine is a turn that follows it. -/
theorem Verdict.turn_follows {state : σ} {input : β} {rest : List β}
    (keeps : ∀ next, step state input = .more next → kept next) :
    ((step state input).turn input rest).Follows step bad kept state (input :: rest) := by
  cases verdict : step state input with
  | more next =>
    refine ⟨keeps next verdict, Nat.lt_succ_self _, .inl ?_⟩
    simp only [feed, verdict]
  | stop last eaten =>
    cases eaten with
    | true =>
      refine .inl ?_
      simp only [feed, verdict]
    | false =>
      refine .inl ?_
      simp only [feed, verdict]

/-- A turn that follows the machine from further on. -/
theorem Turn.Follows.later {state later : σ} {inputs rest : List β} {turn : Turn σ β}
    (follows : turn.Follows step bad kept later rest)
    (same : feed step state inputs = feed step later rest) (shorter : rest.length ≤ inputs.length) :
    turn.Follows step bad kept state inputs := by
  cases turn with
  | more next left =>
    obtain ⟨keeps, fewer, alike⟩ := follows
    refine ⟨keeps, fewer.trans_le shorter, ?_⟩
    rw [same]
    exact alike
  | stop last left =>
    show Alike bad _ (feed step state inputs)
    rw [same]
    exact follows

/-- **A loop whose turns follow a machine** gets where the machine gets. -/
theorem turns_alike {turn : σ → β → List β → Turn σ β}
    (follows : ∀ state input rest, kept state →
      (turn state input rest).Follows step bad kept state (input :: rest))
    {count : Nat} {state : σ} {inputs : List β} (holds : kept state) (enough : inputs.length ≤ count) :
    Alike bad (turns turn count state inputs) (feed step state inputs) := by
  induction count generalizing state inputs with
  | zero =>
    obtain rfl := List.eq_nil_of_length_eq_zero (Nat.le_zero.mp enough)
    exact .refl _
  | succ count ih =>
    cases inputs with
    | nil => exact .refl _
    | cons input rest =>
      have follow := follows state input rest holds
      unfold turns
      cases taken : turn state input rest with
      | more next left =>
        rw [taken] at follow
        obtain ⟨kept, shorter, alike⟩ := follow
        have less : left.length ≤ count :=
          Nat.le_of_lt_succ (shorter.trans_le enough)
        exact (ih kept less).trans alike
      | stop last left =>
        rw [taken] at follow
        exact follow

end Turns

end ByteMachine
