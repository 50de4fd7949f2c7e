/-
**Descriptors and who holds them.**

A kernel hands out numbers that are free; a number that has been closed may be handed to anyone else.
The kernel knows who holds each number and keeps a log of the calls, each with whether the number was
the caller's at that time.

* `Kernel.Proper` is that every call so far was on a number the caller held; `proper_use` and
  `proper_close` say what that asks of one more call.
* `holder_close_of_ne`: closing a number leaves all others with their holders.
-/

import Mathlib.Logic.Function.Basic

namespace Descriptors

/-- The calls on descriptors: one that gives a number, one that uses it, one that gives it back. -/
inductive Call
  | open
  | use
  | close
  deriving DecidableEq, Repr

/-- A call in the log, with whether the number was the caller's. -/
structure Entry (κ : Type*) where
  caller : κ
  call : Call
  number : Int
  owned : Bool
  deriving DecidableEq, Repr

/-- The holder of each number, and the calls so far. -/
structure Kernel (κ : Type*) where
  holder : Int → Option κ
  log : List (Entry κ) := []

variable {κ : Type*}

namespace Kernel

/-- Every call was on a number that the caller held. -/
def Proper (kernel : Kernel κ) : Prop := ∀ entry ∈ kernel.log, entry.owned = true

/-- A number is given to a caller. -/
def acquire (kernel : Kernel κ) (caller : κ) (number : Int) : Kernel κ :=
  { holder := Function.update kernel.holder number (some caller)
    log := kernel.log ++ [⟨caller, .open, number, true⟩] }

/-- Two holders have different numbers. -/
theorem ne_of_holders {kernel : Kernel κ} {first second : κ} {number other : Int}
    (holds : kernel.holder number = some first) (holds_other : kernel.holder other = some second)
    (different : first ≠ second) : number ≠ other := by
  rintro rfl
  rw [holds] at holds_other
  exact different (Option.some.inj holds_other)

section Acquire

variable (kernel : Kernel κ) (caller : κ) {number other : Int}

@[simp] theorem holder_acquire : (kernel.acquire caller number).holder number = some caller :=
  Function.update_self ..

theorem holder_acquire_of_ne (different : other ≠ number) :
    (kernel.acquire caller number).holder other = kernel.holder other :=
  Function.update_of_ne different ..

/-- What a caller gets comes to nobody else. -/
theorem holder_acquire_ne {party : κ} (apart : party ≠ caller)
    (lost : kernel.holder other ≠ some party) :
    (kernel.acquire caller number).holder other ≠ some party := by
  by_cases same : other = number
  · rw [same, holder_acquire]
    exact fun own => apart (Option.some.inj own).symm
  · rwa [holder_acquire_of_ne _ _ same]

@[simp] theorem proper_acquire : (kernel.acquire caller number).Proper ↔ kernel.Proper := by
  simp [Proper, acquire, or_imp, forall_and]

end Acquire

variable [DecidableEq κ] (kernel : Kernel κ) (caller : κ) (number : Int)

/-- A caller uses a number. -/
def use : Kernel κ :=
  { kernel with
    log := kernel.log ++ [⟨caller, .use, number, kernel.holder number == some caller⟩] }

/-- A caller closes a number; whoever held it holds it no longer. -/
def close : Kernel κ :=
  { holder := Function.update kernel.holder number none
    log := kernel.log ++ [⟨caller, .close, number, kernel.holder number == some caller⟩] }

/-- The numbers of the calls of one kind by a caller, in order. -/
def numbers (call : Call) : List Int :=
  (kernel.log.filter fun entry => entry.caller = caller ∧ entry.call = call).map Entry.number

@[simp] theorem holder_use : (kernel.use caller number).holder = kernel.holder := rfl

@[simp] theorem holder_close : (kernel.close caller number).holder number = none :=
  Function.update_self ..

variable {number} {other : Int}

theorem holder_close_of_ne (different : other ≠ number) :
    (kernel.close caller number).holder other = kernel.holder other :=
  Function.update_of_ne different ..

/-- Closing gives a number to nobody. -/
theorem holder_close_none (free : kernel.holder other = none) :
    (kernel.close caller number).holder other = none := by
  by_cases same : other = number
  · rw [same, holder_close]
  · rw [holder_close_of_ne _ _ same, free]

theorem holder_close_ne {party : κ} (lost : kernel.holder other ≠ some party) :
    (kernel.close caller number).holder other ≠ some party := by
  by_cases same : other = number
  · simp [same]
  · rwa [holder_close_of_ne _ _ same]

@[simp] theorem proper_use :
    (kernel.use caller number).Proper ↔ kernel.Proper ∧ kernel.holder number = some caller := by
  simp [Proper, use, or_imp, forall_and]

@[simp] theorem proper_close :
    (kernel.close caller number).Proper ↔ kernel.Proper ∧ kernel.holder number = some caller := by
  simp [Proper, close, or_imp, forall_and]

/-! ### The numbers of the calls -/

variable {kernel} {caller} {party : κ} {call : Call}

/-- Of another caller, a log that grows by one call has the same numbers. -/
theorem numbers_of_ne {holder : Int → Option κ} {owned : Bool} (different : caller ≠ party) :
    Kernel.numbers { holder, log := kernel.log ++ [⟨caller, call, number, owned⟩] } party =
      kernel.numbers party := by
  funext other
  simp [numbers, List.filter_append, different]

/-- Of the caller, the call has one number more, and no other call has. -/
theorem numbers_self {holder : Int → Option κ} {owned : Bool} (other : Call) :
    Kernel.numbers { holder, log := kernel.log ++ [⟨caller, call, number, owned⟩] } caller other =
      kernel.numbers caller other ++ if call = other then [number] else [] := by
  by_cases same : call = other
  · simp [numbers, List.filter_append, same]
  · simp [numbers, List.filter_append, same]

/-- What a caller's part of the kernel is: its numbers stay, and what it holds it keeps. -/
structure Same (party : κ) (kernel later : Kernel κ) : Prop where
  numbers : later.numbers party = kernel.numbers party
  holds : ∀ number, kernel.holder number = some party → later.holder number = some party

theorem Same.refl (party : κ) (kernel : Kernel κ) : Same party kernel kernel := ⟨rfl, fun _ => id⟩

theorem Same.trans {first second third : Kernel κ} (one : Same party first second)
    (two : Same party second third) : Same party first third :=
  ⟨two.numbers.trans one.numbers, fun number holds => two.holds number (one.holds number holds)⟩

section Same

variable (different : caller ≠ party)
include different

/-- **A caller that takes a free number leaves everyone else as they are.** -/
theorem same_acquire (free : kernel.holder number = none) :
    Same party kernel (kernel.acquire caller number) := by
  refine ⟨numbers_of_ne different, fun other holds => ?_⟩
  have apart : other ≠ number := by
    rintro rfl
    rw [free] at holds
    cases holds
  rw [holder_acquire_of_ne _ _ apart, holds]

theorem same_use : Same party kernel (kernel.use caller number) :=
  ⟨numbers_of_ne different, fun _ => id⟩

/-- **A caller that closes a number of its own leaves everyone else as they are.** -/
theorem same_close (own : kernel.holder number = some caller) :
    Same party kernel (kernel.close caller number) := by
  refine ⟨numbers_of_ne different, fun other holds => ?_⟩
  have apart : other ≠ number := ne_of_holders holds own different.symm
  rw [holder_close_of_ne _ _ apart, holds]

end Same

end Kernel

end Descriptors
