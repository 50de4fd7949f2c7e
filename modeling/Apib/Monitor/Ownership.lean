/-
**Who owns the monitor sockets.**

* `sockets_owned`: in every run in which no `socket` or `connect` of `connectMonitor` fails, and `EndReporting`
  is called only when no monitor socket is set, each variable is 0 or a connected descriptor of its
  monitor, and no call is made on a number that the monitors do not own;
* `owned_step_iff`: a step from such a state ends in one exactly when it meets that condition;
* `failed_connect_stale`: a failed `connect` leaves a closed number in the variable, and the next sample is sent to
  whoever has been given the number.
-/

import Apib.Monitor.Sockets

namespace Apib.Monitor

open Descriptors Transition

/-- An attempt that leaves no number behind but that of a connected descriptor. -/
def Attempt.Sound : Attempt → Prop
  | .socketFailed => False
  | .opened fd connected => connected = true ∨ fd = 0
  | .invalid | .lookupFailed => True

namespace Monitors

/-- The variable of a slot is 0 or a connected descriptor of its monitor. -/
def OwnedAt (s : Monitors) (slot : Slot) : Prop :=
  s.fd slot = 0 ∨ s.kernel.holder (s.fd slot) = some (.monitor slot true)

/-- Both variables are, and so were all numbers that were used. -/
structure Owned (s : Monitors) : Prop where
  proper : s.kernel.Proper
  below : ∀ number < 0, s.kernel.holder number = none
  slots : ∀ slot, s.OwnedAt slot

variable {asserts : Bool} {s next : Monitors} {slot : Slot}

@[simp] theorem fd_setFd (fd : Int) : (s.setFd slot fd).fd slot = fd := Function.update_self ..

theorem fd_setFd_of_ne {other : Slot} (different : other ≠ slot) (fd : Int) :
    (s.setFd slot fd).fd other = s.fd other :=
  Function.update_of_ne different ..

/-- A slot keeps what it owns when its variable and the holder of its number stay. -/
theorem OwnedAt.keep {other : Slot} (at_other : s.OwnedAt other) (same : next.fd other = s.fd other)
    (kept : s.kernel.holder (s.fd other) = some (.monitor other true) →
      next.kernel.holder (s.fd other) = some (.monitor other true)) : next.OwnedAt other := by
  unfold OwnedAt at *
  rw [same]
  exact at_other.imp id kept

/-! ### One call for a slot -/

section Slot

variable (owned : Owned s)
include owned

/-- The number of a slot that is not 0 is the slot's own. -/
theorem Owned.holder (set : s.fd slot ≠ 0) :
    s.kernel.holder (s.fd slot) = some (.monitor slot true) :=
  (owned.slots slot).resolve_left set

/-- **Closing the number of a slot** takes it from nobody else. -/
theorem Owned.close_keeps {other : Slot} (set : s.fd slot ≠ 0) (different : other ≠ slot) {party : Party}
    (holds : s.kernel.holder (s.fd other) = some (.monitor other true)) :
    (s.kernel.close party (s.fd slot)).holder (s.fd other) = some (.monitor other true) := by
  have apart : s.fd other ≠ s.fd slot :=
    Kernel.ne_of_holders holds (owned.holder set) fun same => different (Party.monitor.inj same).1
  rw [Kernel.holder_close_of_ne _ _ apart, holds]

theorem Owned.useFd (set : s.fd slot ≠ 0) : Owned (s.useFd slot) :=
  ⟨(Kernel.proper_use _ _).mpr ⟨owned.proper, owned.holder set⟩, owned.below, owned.slots⟩

theorem Owned.failure (set : s.fd slot ≠ 0) : Owned (s.failure slot) := by
  refine ⟨(Kernel.proper_close _ _).mpr ⟨owned.proper, owned.holder set⟩, ?_, ?_⟩
  · exact fun number negative => Kernel.holder_close_none _ _ (owned.below number negative)
  · intro other
    by_cases same : other = slot
    · rw [same]
      exact .inl (fd_setFd 0)
    · exact (owned.slots other).keep (fd_setFd_of_ne same 0) (owned.close_keeps set same)

/-- **`getRemoteStat` keeps ownership**: it closes on a failure and clears the variable. -/
theorem Owned.getRemoteStat (set : s.fd slot ≠ 0) (exchange : Exchange) :
    Owned (s.getRemoteStat slot exchange) := by
  cases exchange with
  | writeFailed => exact (owned.useFd set).failure set
  | readFailed => exact ((owned.useFd set).useFd set).failure set
  | done => exact (owned.useFd set).useFd set

theorem Owned.statSlot (exchange : Exchange) : Owned (s.statSlot slot exchange) := by
  unfold Monitors.statSlot
  split
  · next set => exact owned.getRemoteStat set exchange
  · exact owned

theorem Owned.sample (exchanges : Slot → Exchange) : Owned (s.sample exchanges) :=
  (owned.statSlot (exchanges .remote)).statSlot (exchanges .remote2)

/-- **A number given to a party** is one that nobody held. -/
theorem Owned.acquire {fd : Int} (free : s.kernel.holder fd = none) (positive : 0 ≤ fd) (party : Party) :
    Owned { s with kernel := s.kernel.acquire party fd } := by
  refine ⟨(Kernel.proper_acquire _ _).mpr owned.proper, ?_, ?_⟩
  · intro number negative
    rw [Kernel.holder_acquire_of_ne _ _ (by omega), owned.below number negative]
  · intro slot
    refine OwnedAt.keep (owned.slots slot) ?_ fun holds => ?_
    · rfl
    have apart : s.fd slot ≠ fd := by
      rintro same
      rw [same, free] at holds
      cases holds
    rw [Kernel.holder_acquire_of_ne _ _ apart, holds]

/-- **A sound attempt keeps ownership.** -/
theorem Owned.connectMonitor {attempt : Attempt} (sound : attempt.Sound)
    (taken : s.connectMonitor asserts slot attempt = some next) : Owned next := by
  cases attempt with
  | invalid => exact Option.some.inj taken ▸ owned
  | lookupFailed => exact Option.some.inj taken ▸ owned
  | socketFailed => exact absurd sound id
  | opened fd connected =>
    simp only [Monitors.connectMonitor] at taken
    split at taken
    case isFalse => cases taken
    case isTrue can =>
      obtain ⟨free, positive, -⟩ := can
      obtain rfl := Option.some.inj taken
      have acquired := owned.acquire free positive (.monitor slot connected)
      cases connected with
      | true =>
        refine ⟨acquired.proper, acquired.below, fun other => ?_⟩
        by_cases same : other = slot
        · subst same
          right
          simp
        · exact (acquired.slots other).keep (fd_setFd_of_ne same fd) id
      | false =>
        obtain rfl : fd = 0 := sound.resolve_left (by simp)
        refine ⟨?_, fun number negative => ?_, fun other => ?_⟩
        · exact (Kernel.proper_close _ _).mpr ⟨acquired.proper, Kernel.holder_acquire _ _⟩
        · exact Kernel.holder_close_none _ _ (acquired.below number negative)
        · by_cases same : other = slot
          · rw [same]
            exact .inl (fd_setFd 0)
          · refine (acquired.slots other).keep (fd_setFd_of_ne same 0) fun holds => ?_
            have apart : s.fd other ≠ 0 :=
              Kernel.ne_of_holders holds (Kernel.holder_acquire _ _) fun same_party =>
                same (Party.monitor.inj same_party).1
            simp only [Bool.false_eq_true, if_false]
            rw [Kernel.holder_close_of_ne _ _ apart, holds]

theorem Owned.startSlot {attempt : Attempt} {exchange : Exchange}
    (sound : s.host slot ≠ [] → s.fd slot = 0 → attempt.Sound)
    (taken : s.startSlot asserts slot attempt exchange = some next) : Owned next := by
  unfold Monitors.startSlot at taken
  split at taken
  · exact Option.some.inj taken ▸ owned
  · next named =>
    split at taken
    · next unset => exact owned.connectMonitor (sound named unset) taken
    · next set => exact Option.some.inj taken ▸ owned.getRemoteStat set exchange

end Slot

/-! ### Operations -/

/-- What `RecordStart` does about one slot leaves the other one's variable and host. -/
theorem startSlot_other {attempt : Attempt} {exchange : Exchange} (other : Slot)
    (different : other ≠ slot) (taken : s.startSlot asserts slot attempt exchange = some next) :
    next.fd other = s.fd other ∧ next.host = s.host := by
  unfold startSlot at taken
  split at taken
  · exact Option.some.inj taken ▸ ⟨rfl, rfl⟩
  split at taken
  · cases attempt with
    | invalid => exact Option.some.inj taken ▸ ⟨rfl, rfl⟩
    | lookupFailed => exact Option.some.inj taken ▸ ⟨rfl, rfl⟩
    | socketFailed =>
      simp only [connectMonitor] at taken
      split at taken
      · cases taken
      · exact Option.some.inj taken ▸ ⟨fd_setFd_of_ne different _, rfl⟩
    | opened fd connected =>
      simp only [connectMonitor] at taken
      split at taken
      · exact Option.some.inj taken ▸ ⟨fd_setFd_of_ne different _, rfl⟩
      · cases taken
  · cases exchange with
    | writeFailed => exact Option.some.inj taken ▸ ⟨fd_setFd_of_ne different _, rfl⟩
    | readFailed => exact Option.some.inj taken ▸ ⟨fd_setFd_of_ne different _, rfl⟩
    | done => exact Option.some.inj taken ▸ ⟨rfl, rfl⟩

/-- The steps that keep ownership: the attempts that are made are sound, and `EndReporting` finds no
socket set. -/
def Sound (s : Monitors) : Input → Prop
  | .recordStart attempts _ =>
    ∀ slot, s.host slot ≠ [] → s.fd slot = 0 → (attempts slot).Sound
  | .endReporting => ∀ slot, s.fd slot = 0
  | _ => True

instance (attempt : Attempt) : Decidable attempt.Sound := by
  unfold Attempt.Sound
  split <;> infer_instance

instance {P : Slot → Prop} [DecidablePred P] : Decidable (∀ slot, P slot) :=
  decidable_of_iff (P .remote ∧ P .remote2)
    ⟨fun both slot => match slot with
      | .remote => both.1
      | .remote2 => both.2, fun all => ⟨all .remote, all .remote2⟩⟩

instance (s : Monitors) (input : Input) : Decidable (s.Sound input) := by
  unfold Sound
  split <;> infer_instance

/-- **One sound operation keeps ownership.** -/
theorem Owned.step (owned : Owned s) (input : Input) (sound : s.Sound input)
    (taken : step asserts s input = some next) : Owned next := by
  cases input with
  | recordInit monitorHost host2 =>
    obtain rfl := Option.some.inj taken
    exact ⟨owned.proper, owned.below, owned.slots⟩
  | recordStart attempts exchanges =>
    obtain ⟨middle, first, second⟩ := Option.bind_eq_some_iff.mp taken
    obtain ⟨same_fd, same_host⟩ := startSlot_other .remote2 (by decide) first
    have kept := owned.startSlot (sound .remote) first
    apply kept.startSlot _ second
    rw [same_fd, same_host]
    exact sound .remote2
  | sampleCPU exchanges =>
    obtain rfl := Option.some.inj taken
    exact owned.sample exchanges
  | reportInterval exchanges =>
    obtain rfl := Option.some.inj taken
    exact owned.sample exchanges
  | recordStop cpu mem =>
    obtain rfl := Option.some.inj taken
    exact (owned.sample cpu).sample mem
  | endReporting =>
    obtain rfl := Option.some.inj taken
    have first : s.endSlot .remote = s := by simp [endSlot, sound .remote]
    have second : s.endSlot .remote2 = s := by simp [endSlot, sound .remote2]
    rw [first, second]
    exact owned
  | otherOpens fd =>
    simp only [Monitors.step] at taken
    split at taken
    case isFalse => cases taken
    case isTrue can =>
      obtain rfl := Option.some.inj taken
      exact owned.acquire can.1 can.2 .other
  | otherCloses fd =>
    simp only [Monitors.step] at taken
    split at taken
    case isFalse => cases taken
    case isTrue held =>
      obtain rfl := Option.some.inj taken
      refine ⟨(Kernel.proper_close _ _).mpr ⟨owned.proper, held⟩, ?_, fun slot => ?_⟩
      · exact fun number negative => Kernel.holder_close_none _ _ (owned.below number negative)
      · refine OwnedAt.keep (owned.slots slot) ?_ fun holds => ?_
        · rfl
        have apart : s.fd slot ≠ fd := Kernel.ne_of_holders holds held (by simp)
        rw [Kernel.holder_close_of_ne _ _ apart, holds]

/-! ### What the other steps do -/

/-- **An attempt that is not sound** leaves a number that is not the slot's. -/
theorem Owned.unsound_attempt (owned : Owned s) {attempt : Attempt} (unsound : ¬ attempt.Sound)
    (taken : s.connectMonitor asserts slot attempt = some next) : ¬ next.OwnedAt slot := by
  cases attempt with
  | invalid => exact absurd trivial unsound
  | lookupFailed => exact absurd trivial unsound
  | socketFailed =>
    simp only [Monitors.connectMonitor] at taken
    split at taken
    · cases taken
    · obtain rfl := Option.some.inj taken
      have free : s.kernel.holder (-1) = none := owned.below (-1) (by decide)
      simp [OwnedAt, setFd, free]
  | opened fd connected =>
    simp only [Attempt.Sound, not_or, Bool.not_eq_true] at unsound
    obtain ⟨rfl, some_fd⟩ := unsound
    simp only [Monitors.connectMonitor] at taken
    split at taken
    · obtain rfl := Option.some.inj taken
      simp [OwnedAt, setFd, some_fd]
    · cases taken

/-- A number that a slot has lost does not come back to it by the start of the other slot. -/
theorem startSlot_lost {attempt : Attempt} {exchange : Exchange} {other : Slot} {number : Int}
    (different : other ≠ slot) (taken : s.startSlot asserts slot attempt exchange = some next)
    (lost : s.kernel.holder number ≠ some (.monitor other true)) :
    next.kernel.holder number ≠ some (.monitor other true) := by
  have apart (connected : Bool) : Party.monitor other true ≠ .monitor slot connected :=
    fun same => different (Party.monitor.inj same).1
  unfold startSlot at taken
  split at taken
  · exact Option.some.inj taken ▸ lost
  split at taken
  · cases attempt with
    | invalid => exact Option.some.inj taken ▸ lost
    | lookupFailed => exact Option.some.inj taken ▸ lost
    | socketFailed =>
      simp only [connectMonitor] at taken
      split at taken
      · cases taken
      · exact Option.some.inj taken ▸ lost
    | opened fd connected =>
      simp only [connectMonitor] at taken
      split at taken
      · obtain rfl := Option.some.inj taken
        have acquired : (s.kernel.acquire _ fd).holder _ ≠ some _ :=
          Kernel.holder_acquire_ne s.kernel _ (apart connected) lost
        cases connected with
        | true => exact acquired
        | false => exact Kernel.holder_close_ne _ _ acquired
      · cases taken
  · cases exchange with
    | writeFailed => exact Option.some.inj taken ▸ Kernel.holder_close_ne _ _ lost
    | readFailed => exact Option.some.inj taken ▸ Kernel.holder_close_ne _ _ lost
    | done => exact Option.some.inj taken ▸ lost

/-- **`EndReporting` leaves closed numbers** in the variables that are set. -/
theorem endReporting_lost (set : s.fd slot ≠ 0) :
    ¬ ((s.endSlot .remote).endSlot .remote2).OwnedAt slot := by
  have same (s : Monitors) (first : Slot) : (s.endSlot first).fd = s.fd := by
    unfold endSlot
    split <;> rfl
  have closes (s : Monitors) (first : Slot) (set : s.fd first ≠ 0) :
      (s.endSlot first).kernel.holder (s.fd first) = none := by
    simp [endSlot, set]
  have leaves (s : Monitors) (first : Slot) (number : Int) (free : s.kernel.holder number = none) :
      (s.endSlot first).kernel.holder number = none := by
    unfold endSlot
    split
    · exact Kernel.holder_close_none _ _ free
    · exact free
  unfold OwnedAt
  rw [same, same]
  rintro (unset | holds)
  · exact set unset
  · cases slot with
    | remote => rw [leaves _ _ _ (closes s .remote set)] at holds; cases holds
    | remote2 =>
      have closed := closes (s.endSlot .remote) .remote2 (by rwa [same])
      rw [same] at closed
      rw [closed] at holds
      cases holds

/-- **A step from a state of ownership ends in one exactly when it is sound.** -/
theorem owned_step_iff (owned : Owned s) (input : Input) (taken : step asserts s input = some next) :
    Owned next ↔ s.Sound input := by
  refine ⟨fun after => ?_, fun sound => owned.step input sound taken⟩
  cases input with
  | recordStart attempts exchanges =>
    obtain ⟨middle, first, second⟩ := Option.bind_eq_some_iff.mp taken
    obtain ⟨same_fd, same_host⟩ := startSlot_other .remote2 (by decide) first
    obtain ⟨kept_fd, -⟩ := startSlot_other .remote (by decide) second
    have first_sound : s.host .remote ≠ [] → s.fd .remote = 0 → (attempts .remote).Sound := by
      intro named unset
      by_contra unsound
      have tried := first
      rw [startSlot, if_neg named, if_pos unset] at tried
      have lost := owned.unsound_attempt unsound tried
      simp only [OwnedAt, not_or] at lost
      refine absurd (after.slots .remote) ?_
      simp only [OwnedAt, kept_fd, not_or]
      exact ⟨lost.1, startSlot_lost (by decide) second lost.2⟩
    intro slot named unset
    cases slot with
    | remote => exact first_sound named unset
    | remote2 =>
      by_contra unsound
      rw [← same_host] at named
      rw [← same_fd] at unset
      have tried := second
      rw [startSlot, if_neg named, if_pos unset] at tried
      exact (owned.startSlot first_sound first).unsound_attempt unsound tried (after.slots .remote2)
  | endReporting =>
    obtain rfl := Option.some.inj taken
    intro slot
    by_contra set
    exact endReporting_lost set (after.slots slot)
  | _ => trivial

/-! ### Runs -/

/-- **The monitor sockets are owned**: in every run of sound steps, each variable is 0 or a connected
descriptor of its monitor, and no call has been made on a number that the caller did not own. -/
theorem sockets_owned (asserts : Bool) (kernel : Kernel Party) (below : ∀ number < 0, kernel.holder number = none)
    (unused : kernel.log = []) (s : Monitors) (reached : Reach (step asserts) Sound { kernel } s) :
    (∀ slot, s.fd slot = 0 ∨ s.kernel.holder (s.fd slot) = some (.monitor slot true)) ∧
      ∀ entry ∈ s.kernel.log, entry.owned = true := by
  have start : Owned { kernel } := ⟨by simp [Kernel.Proper, unused], below, fun _ => .inl rfl⟩
  have end_state : Owned s := reached.invariant (P := Owned) start
    fun _ input _ before sound taken => before.step input sound taken
  exact ⟨end_state.slots, end_state.proper⟩

/-- A kernel in which the standard streams are open. -/
def startKernel : Kernel Party :=
  { holder := fun number => if 0 ≤ number ∧ number ≤ 2 then some .other else none }

/-- A start, a sample that fails to be read, and another start. -/
def reconnects : List Input :=
  [.recordInit [109] [], .recordStart (fun _ => .opened 3 true) (fun _ => .done),
    .sampleCPU (fun _ => .readFailed), .otherOpens 3,
    .recordStart (fun _ => .opened 4 true) (fun _ => .done)]

theorem sockets_owned_example :
    ∃ s : Monitors, s.fd .remote = 4 ∧
      (∀ slot, s.fd slot = 0 ∨ s.kernel.holder (s.fd slot) = some (.monitor slot true)) ∧
      ∀ entry ∈ s.kernel.log, entry.owned = true := by
  have ran : (run (guarded (step false) Sound) { kernel := startKernel } reconnects).map
      (fun s => s.fd .remote) = some 4 := by decide
  obtain ⟨s, reached, fd⟩ := Option.map_eq_some_iff.mp ran
  have below : ∀ number < 0, startKernel.holder number = none := by
    intro number negative
    exact if_neg (by omega)
  exact ⟨s, fd, sockets_owned false startKernel below rfl s (Reach.of_guarded_run reached)⟩

/-- **A failed `connect`** leaves its number in the variable, and the next sample is written to
whoever has the number then. -/
theorem failed_connect_stale :
    ∃ s : Monitors, Reach (step false) anyStep { kernel := startKernel } s ∧
      s.fd .remote = 3 ∧ s.kernel.holder 3 = some .other ∧
        ⟨.monitor .remote true, .use, 3, false⟩ ∈ s.kernel.log := by
  have ran : (run (step false) { kernel := startKernel }
      [.recordInit [109] [], .recordStart (fun _ => .opened 3 false) (fun _ => .done), .otherOpens 3,
        .sampleCPU (fun _ => .done)]).map
      (fun s => (s.fd .remote, s.kernel.holder 3, s.kernel.log.contains
        ⟨.monitor .remote true, .use, 3, false⟩)) = some (3, some .other, true) := by decide
  obtain ⟨s, reached, result⟩ := Option.map_eq_some_iff.mp ran
  simp only [Prod.mk.injEq, List.contains_iff_mem] at result
  exact ⟨s, .of_run (fun _ _ _ => trivial) reached, result⟩

end Monitors

end Apib.Monitor
