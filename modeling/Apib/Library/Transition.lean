/-
**Runs of a transition system driven by inputs.**

A system is a partial function `step : σ → ι → Option σ`: the input is refused where it is not
enabled. `run` feeds a list of inputs; `Reach step ok start` is the set of states reached from
`start` by steps whose state and input meet `ok`.

* `Reach.invariant`: what holds at the start and survives every permitted step holds in every
  state reached.
* `Reach.of_run`, `run_append`: the executable runs and the reached states are the same thing;
  `Reach.of_guarded_run` is for runs that check what is permitted.
* `closure_invariant`: a property kept by every small move is kept by a chain of moves, so a system
  whose steps are chains of moves inherits the invariants of its moves.
* `NeverAfter`: a history in which nothing of one kind follows anything of another kind.
-/

import Mathlib.Logic.Relation

namespace Transition

variable {σ ι : Type*}

/-- The state after a list of inputs, if every one of them is enabled in its turn. -/
def run (step : σ → ι → Option σ) : σ → List ι → Option σ
  | state, [] => some state
  | state, input :: rest => (step state input).bind fun next => run step next rest

/-- The states reached from `start` by steps that meet `ok`. -/
inductive Reach (step : σ → ι → Option σ) (ok : σ → ι → Prop) (start : σ) : σ → Prop
  | start : Reach step ok start start
  | step {state next : σ} {input : ι} (before : Reach step ok start state) (allowed : ok state input)
      (taken : step state input = some next) : Reach step ok start next

/-- Every step is permitted. -/
def anyStep : σ → ι → Prop := fun _ _ => True

section Runs

variable {step : σ → ι → Option σ} {ok : σ → ι → Prop} {start : σ}

theorem run_cons {state last : σ} {input : ι} {rest : List ι}
    (ran : run step state (input :: rest) = some last) :
    ∃ next, step state input = some next ∧ run step next rest = some last :=
  Option.bind_eq_some_iff.mp ran

theorem run_append (state : σ) (first second : List ι) :
    run step state (first ++ second) = (run step state first).bind fun next => run step next second := by
  induction first generalizing state with
  | nil => rfl
  | cons input rest ih =>
    simp only [List.cons_append, run, Option.bind_assoc]
    exact Option.bind_congr fun next _ => ih next

/-- **The invariant rule.** -/
theorem Reach.invariant {P : σ → Prop} (base : P start)
    (preserved : ∀ state input next, P state → ok state input → step state input = some next → P next)
    {state : σ} (reached : Reach step ok start state) : P state := by
  induction reached with
  | start => exact base
  | step _ allowed taken ih => exact preserved _ _ _ ih allowed taken

/-- A weaker condition on the steps reaches at least as much. -/
theorem Reach.mono {weaker : σ → ι → Prop} (implies : ∀ state input, ok state input → weaker state input)
    {state : σ} (reached : Reach step ok start state) : Reach step weaker start state := by
  induction reached with
  | start => exact .start
  | step _ allowed taken ih => exact .step ih (implies _ _ allowed) taken

theorem Reach.any {state : σ} (reached : Reach step ok start state) :
    Reach step anyStep start state :=
  reached.mono fun _ _ _ => trivial

/-- One permitted run continued by another. -/
theorem Reach.trans {middle last : σ} (first : Reach step ok start middle)
    (second : Reach step ok middle last) : Reach step ok start last := by
  induction second with
  | start => exact first
  | step _ allowed taken ih => exact .step ih allowed taken

/-- An executed run reaches its last state, if its inputs are permitted in every state. -/
theorem Reach.of_run {inputs : List ι} {last : σ} (allowed : ∀ input ∈ inputs, ∀ state, ok state input)
    (ran : run step start inputs = some last) : Reach step ok start last := by
  induction inputs generalizing start with
  | nil =>
    cases ran
    exact .start
  | cons input rest ih =>
    obtain ⟨next, taken, more⟩ := Option.bind_eq_some_iff.mp ran
    have first : Reach step ok start next := .step .start (allowed input List.mem_cons_self start) taken
    exact first.trans (ih (fun later member => allowed later (List.mem_cons_of_mem input member)) more)

/-- A step that is refused where it is not permitted. -/
def guarded (step : σ → ι → Option σ) (ok : σ → ι → Prop) [∀ state input, Decidable (ok state input)]
    (state : σ) (input : ι) : Option σ :=
  if ok state input then step state input else none

/-- A run that checks every step reaches its last state by permitted steps. -/
theorem Reach.of_guarded_run [∀ state input, Decidable (ok state input)] {inputs : List ι} {last : σ}
    (ran : run (guarded step ok) start inputs = some last) : Reach step ok start last := by
  induction inputs generalizing start with
  | nil =>
    cases ran
    exact .start
  | cons input rest ih =>
    obtain ⟨next, taken, more⟩ := Option.bind_eq_some_iff.mp ran
    unfold guarded at taken
    split at taken
    · next allowed => exact Reach.trans (.step .start allowed taken) (ih more)
    · cases taken

end Runs

/-! ### Steps that decompose into moves -/

section Moves

variable {κ : Type*} {move : κ → κ → Prop}

/-- A property kept by every move is kept by a chain of moves. -/
theorem closure_invariant {P : κ → Prop} (kept : ∀ first last, move first last → P first → P last)
    {first last : κ} (moves : Relation.ReflTransGen move first last) (holds : P first) : P last := by
  induction moves with
  | refl => exact holds
  | tail _ one ih => exact kept _ _ one ih

end Moves

/-! ### Order in a history -/

section Order

variable {α : Type*} {stop begins : α → Prop} {log more : List α}

/-- Nothing that begins comes after a stop. -/
def NeverAfter (stop begins : α → Prop) (log : List α) : Prop :=
  log.Pairwise fun first later => stop first → ¬ begins later

instance [DecidablePred stop] [DecidablePred begins] : Decidable (NeverAfter stop begins log) :=
  inferInstanceAs (Decidable (List.Pairwise _ log))

theorem NeverAfter.nil : NeverAfter stop begins [] := List.Pairwise.nil

/-- The order in a history that grows. -/
theorem neverAfter_append : NeverAfter stop begins (log ++ more) ↔
    NeverAfter stop begins log ∧ NeverAfter stop begins more ∧
      ((∃ entry ∈ log, stop entry) → ∀ later ∈ more, ¬ begins later) := by
  unfold NeverAfter
  rw [List.pairwise_append]
  refine and_congr_right fun _ => and_congr_right fun _ => ⟨?_, ?_⟩
  · rintro crossed ⟨entry, member, stops⟩ later after
    exact crossed entry member later after stops
  · exact fun crossed entry member later after stops => crossed ⟨entry, member, stops⟩ later after

/-- Entries none of which begins anything may follow. -/
theorem NeverAfter.append_quiet (before : NeverAfter stop begins log)
    (quiet : ∀ later ∈ more, ¬ begins later) : NeverAfter stop begins (log ++ more) :=
  neverAfter_append.mpr ⟨before,
    List.Pairwise.imp_of_mem (fun _ member _ _ => quiet _ member)
      (List.pairwise_of_forall fun _ _ => trivial), fun _ => quiet⟩

/-- Nothing comes after a stop where there is none. -/
theorem NeverAfter.of_unstopped (goesOn : ∀ entry ∈ log, ¬ stop entry) : NeverAfter stop begins log :=
  List.Pairwise.imp_of_mem (fun member _ _ stops => absurd stops (goesOn _ member))
    (List.pairwise_of_forall fun _ _ => trivial)

end Order

end Transition
