/-
**The parser of a connection that reads.**

`reading_waits`: in every state of every run, a connection whose watcher is set to `readReady` has a
parser without an error and no complete response. Every read starts so.
-/

import Apib.Lifecycle.Resting

namespace Apib

open Ctx

/-- A connection that is to read has no answer yet. -/
def ConnectionState.Waits (c : ConnectionState) : Prop :=
  c.io.active = true → c.io.callback = .readReady → (Parse.mk c.parser c.readDone).response = none

section Waits

variable {cfg : Config} {x y : Ctx}

/-- A connection that is not to read. -/
theorem ConnectionState.Waits.of_not {c : ConnectionState}
    (notReading : c.io.active = true → c.io.callback ≠ .readReady) : c.Waits :=
  fun active reading => absurd reading (notReading active)

/-! ### Reads -/

/-- A read after which the loop goes on, or waits, has brought no answer. -/
theorem tryRead_waits (waiting : x.parse.response = none) {out : ReadOutcome} {code : Int}
    (exit : x.tryRead cfg out = .returns y code) : y.parse.response = none := by
  match out with
  | .error _ => cases exit
  | .ok (.ok data) =>
    unfold tryRead at exit
    dsimp only at exit
    split at exit
    · next clean =>
      split at exit
      · cases exit
      · next unfinished =>
        cases exit
        exact Parse.response_eq_none.mpr ⟨clean, Bool.eq_false_iff.mpr unfinished⟩
    · cases exit
  | .ok .feof => cases exit
  | .ok .needRead | .ok .needWrite =>
    cases exit
    dsimp only
    split <;> simpa [Ctx.parse] using waiting

theorem drain_waits (waiting : x.parse.response = none) {outs unused : List ReadOutcome}
    (paused : drain (tryRead cfg) x outs = .paused y unused) : y.parse.response = none := by
  induction outs generalizing x with
  | nil => cases paused
  | cons out outs ih =>
    rw [drain] at paused
    cases exit : x.tryRead cfg out with
    | done z err code =>
      rw [exit] at paused
      cases paused
    | returns z code =>
      have still := tryRead_waits waiting exit
      rw [exit] at paused
      dsimp only at paused
      split at paused
      · exact ih still paused
      · cases paused
        exact still

/-! ### Over runs -/

end Waits

/-- To wait for an answer, as a property between callbacks. -/
def waits (cfg : Config) : Resting cfg where
  holds := ConnectionState.Waits
  idle := fun noIo => .of_not (by simp [noIo])
  closing := fun closing => .of_not (by simp [closing])
  sent := fun env x => .of_not (by simp)
  listening := fun env x _ _ => by simp [HttpParser.init, Parse.response]
  writing := fun _ still _ _ => .of_not (by simp [still.io])
  reading := fun now _ before paused _ _ => drain_waits (before now.active (by rw [now.io])) paused
  removed := id

/-- Every connection that is to read waits. -/
def System.ReadersWait (s : System) : Prop :=
  ∀ (id : Nat) (c : ConnectionState), s.heap[id]? = some c → c.Waits

/-- **Every connection that is to read waits for an answer**, in every state of every run. -/
theorem reading_waits (cfg : Config) (s : System) (reached : System.Reachable cfg Transition.anyStep s) :
    s.ReadersWait :=
  (waits cfg).reachable s reached

end Apib
