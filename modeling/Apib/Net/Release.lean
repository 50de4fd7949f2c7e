/-
**Every descriptor is closed once.**

* `released_once`: in every run in which each `connect` that is made gets a positive number and none of
  its calls fails, `::close` is only called on numbers that the caller owns, and a socket object that is
  destroyed has closed exactly the numbers it was given;
* `refused_closes_again`: an object whose `connect` fails otherwise closes a number that is not its own
  when it is destroyed, or never closes the number 0;
* `failed_connect_closes_twice`: the second close can hit another socket.
-/

import Apib.Net.Lifetime

namespace Apib.Net.Sockets

open Descriptors Transition

/-- An object has closed the numbers it was given. -/
def Released (kernel : Kernel Party) (id : Nat) : Prop :=
  kernel.numbers (.socket id) .close = kernel.numbers (.socket id) .open

/-- An object that has no descriptor. -/
def Idle (kernel : Kernel Party) (id : Nat) (object : Object) : Prop :=
  object.fd = 0 ∧ Released kernel id

/-- An object that has one, the last it was given. -/
structure Live (kernel : Kernel Party) (id : Nat) (object : Object) : Prop where
  some_fd : object.fd ≠ 0
  holds : kernel.holder object.fd = some (.socket id)
  given : kernel.numbers (.socket id) .open = kernel.numbers (.socket id) .close ++ [object.fd]

/-- What an object owns in its phase. -/
def Good (kernel : Kernel Party) (id : Nat) (object : Object) : Prop :=
  match object.phase with
  | .absent | .constructed => Idle kernel id object
  | .connected | .shutting => Live kernel id object
  | .refused | .finished => Idle kernel id object ∨ Live kernel id object
  | .destroyed => Released kernel id

/-- Every object owns what it is to own, and so were all numbers that were used. -/
structure Owned (s : Sockets) : Prop where
  proper : s.kernel.Proper
  objects : ∀ id, Good s.kernel id (s.object id)

section Same

variable {kernel later : Kernel Party} {id : Nat} {object : Object}
  (same : Kernel.Same (.socket id) kernel later)
include same

theorem Released.keep (released : Released kernel id) : Released later id := by
  unfold Released at *
  rw [same.numbers]
  exact released

theorem Live.keep (live : Live kernel id object) : Live later id object :=
  ⟨live.some_fd, same.holds _ live.holds, by rw [same.numbers]; exact live.given⟩

/-- **What an object owns stays** while its part of the kernel does. -/
theorem Good.keep (good : Good kernel id object) : Good later id object := by
  obtain ⟨tls, fd, phase⟩ := object
  cases phase with
  | absent => exact ⟨good.1, good.2.keep same⟩
  | constructed => exact ⟨good.1, good.2.keep same⟩
  | connected => exact Live.keep same good
  | shutting => exact Live.keep same good
  | refused => exact good.imp (fun idle => ⟨idle.1, idle.2.keep same⟩) (Live.keep same)
  | finished => exact good.imp (fun idle => ⟨idle.1, idle.2.keep same⟩) (Live.keep same)
  | destroyed => exact Released.keep same good

end Same

/-! ### One call of an object -/

section Call

variable {kernel : Kernel Party} {id : Nat} {object : Object}

/-- **A descriptor that an object gets** while it has none is its own. -/
theorem Idle.acquire (idle : Idle kernel id object) {fd : Int} (some_fd : fd ≠ 0) {later : Object}
    (has : later.fd = fd) : Live (kernel.acquire (.socket id) fd) id later := by
  obtain rfl := has
  have released := idle.2
  unfold Released at released
  refine ⟨some_fd, Kernel.holder_acquire _ _, ?_⟩
  unfold Kernel.acquire
  rw [Kernel.numbers_self, Kernel.numbers_self, released]
  simp

theorem Live.use (live : Live kernel id object) {later : Object} (has : later.fd = object.fd) :
    Live (kernel.use (.socket id) object.fd) id later := by
  refine ⟨has ▸ live.some_fd, has ▸ live.holds, ?_⟩
  unfold Kernel.use
  rw [Kernel.numbers_self, Kernel.numbers_self, live.given, has]
  simp

/-- **An object that closes its descriptor** has closed all it was given. -/
theorem Live.close (live : Live kernel id object) :
    Released (kernel.close (.socket id) object.fd) id := by
  unfold Released Kernel.close
  rw [Kernel.numbers_self, Kernel.numbers_self, live.given]
  simp

end Call

section Owned

variable {s : Sockets} (owned : Owned s) {id : Nat}
include owned

/-- **A change of one object** that leaves the others' parts of the kernel. -/
theorem Owned.change {kernel : Kernel Party} {object : Object} (proper : kernel.Proper)
    (same : ∀ other, other ≠ id → Kernel.Same (.socket other) s.kernel kernel)
    (good : Good kernel id object) : Owned { kernel, object := Function.update s.object id object } := by
  refine ⟨proper, fun other => ?_⟩
  by_cases here : other = id
  · subst here
    simpa using good
  · simpa [here] using (owned.objects other).keep (same other here)

/-- A transfer on an open socket, and whatever phase its object goes to. -/
theorem Owned.transfer (live : Live s.kernel id (s.object id)) {object : Object}
    (has : object.fd = (s.object id).fd)
    (good : ∀ kernel, Live kernel id object → Good kernel id object) :
    Owned ((s.transfer id).setObject id object) := by
  refine owned.change ((Kernel.proper_use _ _).mpr ⟨owned.proper, live.holds⟩) (fun other here => ?_)
    (good _ (live.use has))
  exact Kernel.same_use (by simpa using here.symm)

/-- A close of an open socket, and an object that has no descriptor. -/
theorem Owned.close (live : Live s.kernel id (s.object id)) (object : Object)
    (good : ∀ kernel, Released kernel id → Good kernel id object) :
    Owned { kernel := s.kernel.close (.socket id) (s.object id).fd
            object := Function.update s.object id object } := by
  refine owned.change ((Kernel.proper_close _ _).mpr ⟨owned.proper, live.holds⟩)
    (fun other here => ?_) (good _ live.close)
  exact Kernel.same_close (by simpa using here.symm) live.holds

end Owned

/-! ### Steps -/

/-- The calls of `connect` get a positive number and all succeed. -/
def ConnectsWell : ConnectCalls → Prop
  | .socket fd none => 0 < fd
  | .socket _ (some _) | .socketFailed => False

instance (calls : ConnectCalls) : Decidable (ConnectsWell calls) := by
  unfold ConnectsWell
  split <;> infer_instance

/-- The steps that keep ownership. -/
def Sound (_ : Sockets) : Input → Prop
  | .connect _ calls _ => ConnectsWell calls
  | _ => True

instance (s : Sockets) (input : Input) : Decidable (s.Sound input) := by
  unfold Sound
  split <;> infer_instance

section Step

variable {s next : Sockets} (owned : Owned s) {id : Nat}
include owned

theorem Owned.construct {tls : Bool} (taken : step s (.construct id tls) = some next) : Owned next := by
  simp only [step] at taken
  split at taken
  case isFalse => cases taken
  case isTrue absent =>
    obtain rfl := Option.some.inj taken
    have good := owned.objects id
    simp only [Good, absent] at good
    exact owned.change owned.proper (fun _ _ => .refl _ _) ⟨rfl, good.2⟩

theorem Owned.connect {calls : ConnectCalls} {sslCalls : Bool}
    (sound : ConnectsWell calls) (taken : step s (.connect id calls sslCalls) = some next) :
    Owned next := by
  obtain ⟨fd, rfl, positive⟩ : ∃ fd, calls = .socket fd none ∧ 0 < fd := by
    unfold ConnectsWell at sound
    split at sound
    · next fd => exact ⟨fd, rfl, sound⟩
    · cases sound
    · cases sound
  simp only [step] at taken
  split at taken
  case isFalse => cases taken
  case isTrue constructed =>
    have idle := owned.objects id
    simp only [Good, constructed] at idle
    have not_less : ¬ fd ≤ 0 := by omega
    by_cases free : s.kernel.holder fd = none ∧ 0 ≤ fd
    · have same : ∀ other, other ≠ id →
          Kernel.Same (.socket other) s.kernel (s.kernel.acquire (.socket id) fd) :=
        fun other here => Kernel.same_acquire (by simpa using here.symm) free.1
      have proper : (s.kernel.acquire (.socket id) fd).Proper :=
        (Kernel.proper_acquire s.kernel (.socket id)).mpr owned.proper
      by_cases tls : (s.object id).tls = true
      · simp only [tls, connectTLS, Sockets.connect, free, not_less, if_true, if_false, and_self,
          Option.map_some, Option.some.injEq, enter, setObject, Function.update_self,
          Function.update_idem] at taken
        obtain rfl := taken
        apply owned.change proper same
        cases sslCalls with
        | true => exact idle.acquire (by omega) rfl
        | false => exact .inr (idle.acquire (by omega) rfl)
      · simp only [tls, Sockets.connect, free, not_less, if_true, if_false, and_self,
          Option.map_some, Option.some.injEq, enter, setObject, Function.update_self,
          Function.update_idem, Bool.false_eq_true] at taken
        obtain rfl := taken
        exact owned.change proper same (idle.acquire (by omega) rfl)
    · by_cases tls : (s.object id).tls = true
      · simp [tls, connectTLS, Sockets.connect, free] at taken
      · simp [tls, Sockets.connect, free] at taken

theorem Owned.transfer_same (connected : (s.object id).phase = .connected)
    (live : Live s.kernel id (s.object id)) : Owned (s.transfer id) := by
  have kept := owned.transfer live rfl fun kernel later => by
    simpa only [Good, connected] using later
  simpa [setObject, Sockets.transfer] using kept

/-- A transfer after which the socket is closed by and by, or destroyed. -/
theorem Owned.transfer_enter (live : Live s.kernel id (s.object id)) {phase : LifePhase}
    (closing : phase = .shutting ∨ phase = .finished) : Owned ((s.transfer id).enter id phase) := by
  apply owned.transfer live
  · rfl
  · intro kernel later
    rcases closing with rfl | rfl
    · exact later
    · exact .inr later

omit owned in
theorem afterClose_closing (outcome : CloseOutcome) :
    afterClose outcome = .shutting ∨ afterClose outcome = .finished := by
  rcases outcome with error | (_ | _ | _ | _)
  · exact .inr rfl
  · exact .inr rfl
  · exact .inl rfl
  · exact .inl rfl
  · exact .inr rfl

omit owned in
theorem afterShutdown_closing (outcome : ReadOutcome) :
    afterShutdown outcome = .shutting ∨ afterShutdown outcome = .finished := by
  rcases outcome with error | (_ | _ | _ | _)
  · exact .inr rfl
  · exact .inr rfl
  · exact .inl rfl
  · exact .inl rfl
  · exact .inr rfl

theorem Owned.transfer_step (taken : step s (.read id) = some next ∨ step s (.write id) = some next) :
    Owned next := by
  simp only [step, or_self] at taken
  split at taken
  case isFalse => cases taken
  case isTrue connected =>
    obtain rfl := Option.some.inj taken
    have live := owned.objects id
    simp only [Good, connected] at live
    exact owned.transfer_same connected live

theorem Owned.close_step {shutdown : SslShutdown}
    (taken : step s (.close id shutdown) = some next) : Owned next := by
  simp only [step] at taken
  split at taken
  case isFalse => cases taken
  case isTrue connected =>
    have live := owned.objects id
    simp only [Good, connected] at live
    by_cases tls : (s.object id).tls = true
    · rw [if_pos tls] at taken
      obtain rfl := Option.some.inj taken
      unfold closeTLS
      by_cases done : shutdown = .done
      · -- the shutdown is complete, so the descriptor is closed here
        subst done
        have closed := (owned.transfer_same connected live).close (live.use rfl)
          { s.object id with fd := 0, phase := .finished }
          fun _ released => .inl ⟨rfl, released⟩
        simpa [Sockets.close, Sockets.transfer, enter, setObject, afterClose, tlsClose] using closed
      · simp only [done, if_false]
        exact owned.transfer_enter live (afterClose_closing _)
    · rw [if_neg tls] at taken
      obtain rfl := Option.some.inj taken
      have closed := owned.close live { s.object id with fd := 0, phase := .finished }
        fun _ released => .inl ⟨rfl, released⟩
      simpa [Sockets.close, enter, setObject] using closed

theorem Owned.shutdown_step {read : SslRead}
    (taken : step s (.completeShutdown id read) = some next) : Owned next := by
  simp only [step] at taken
  split at taken
  case isFalse => cases taken
  case isTrue shutting =>
    obtain rfl := Option.some.inj taken
    have live := owned.objects id
    simp only [Good, shutting] at live
    exact owned.transfer_enter live (afterShutdown_closing _)

/-- **The destructor closes what is still open.** -/
theorem Owned.destroy_step (taken : step s (.destroy id) = some next) : Owned next := by
  simp only [step] at taken
  split at taken
  case isFalse => cases taken
  case isTrue alive =>
    obtain rfl := Option.some.inj taken
    have kept : Idle s.kernel id (s.object id) ∨ Live s.kernel id (s.object id) := by
      have good := owned.objects id
      unfold Good at good
      cases phase : (s.object id).phase with
      | absent => exact absurd phase alive.1
      | destroyed => exact absurd phase alive.2
      | constructed => rw [phase] at good; exact .inl good
      | connected => rw [phase] at good; exact .inr good
      | shutting => rw [phase] at good; exact .inr good
      | refused => rw [phase] at good; exact good
      | finished => rw [phase] at good; exact good
    unfold destroy
    rcases kept with idle | live
    · rw [if_neg (by simp [idle.1])]
      exact owned.change owned.proper (fun _ _ => .refl _ _) idle.2
    · rw [if_pos live.some_fd]
      exact owned.close live { s.object id with phase := .destroyed }
        fun _ released => released

/-- **One sound step keeps ownership.** -/
theorem Owned.step (input : Input) (sound : s.Sound input)
    (taken : Sockets.step s input = some next) : Owned next := by
  cases input with
  | construct id tls => exact owned.construct taken
  | connect id calls sslCalls => exact owned.connect sound taken
  | read id => exact owned.transfer_step (.inl taken)
  | write id => exact owned.transfer_step (.inr taken)
  | close id shutdown => exact owned.close_step taken
  | completeShutdown id read => exact owned.shutdown_step taken
  | destroy id => exact owned.destroy_step taken
  | otherOpens fd =>
    simp only [Sockets.step] at taken
    split at taken
    case isFalse => cases taken
    case isTrue can =>
      obtain rfl := Option.some.inj taken
      exact ⟨(Kernel.proper_acquire _ _).mpr owned.proper, fun id =>
        (owned.objects id).keep (Kernel.same_acquire (by simp) can.1)⟩
  | otherCloses fd =>
    simp only [Sockets.step] at taken
    split at taken
    case isFalse => cases taken
    case isTrue held =>
      obtain rfl := Option.some.inj taken
      exact ⟨(Kernel.proper_close _ _).mpr ⟨owned.proper, held⟩, fun id =>
        (owned.objects id).keep (Kernel.same_close (by simp) held)⟩

end Step

/-! ### Runs -/

/-- **Every descriptor is closed once**: in every run of sound steps, `::close` is only called on numbers
that the caller owns, and an object that is destroyed has closed exactly the numbers it was given. -/
theorem released_once (kernel : Kernel Party) (unused : kernel.log = []) (s : Sockets)
    (reached : Reach step Sound { kernel } s) :
    (∀ entry ∈ s.kernel.log, entry.call = .close → entry.owned = true) ∧
      ∀ id, (s.object id).phase = .destroyed →
        s.kernel.numbers (.socket id) .close = s.kernel.numbers (.socket id) .open := by
  have start : Owned { kernel } := by
    refine ⟨by simp [Kernel.Proper, unused], fun id => ⟨rfl, ?_⟩⟩
    simp [Released, Kernel.numbers, unused]
  have end_state : Owned s := reached.invariant (P := Owned) start
    fun _ input _ before sound taken => before.step input sound taken
  refine ⟨fun entry member _ => end_state.proper entry member, fun id destroyed => ?_⟩
  have good := end_state.objects id
  simp only [Good, destroyed] at good
  exact good

/-- What a `connect` leaves is what `Socket::connect` left, in a new phase. -/
theorem connect_step {s middle : Sockets} {id : Nat} {calls : ConnectCalls} {sslCalls : Bool}
    (taken : step s (.connect id calls sslCalls) = some middle) :
    ∃ connected later phase, s.connect id calls = some (connected, later) ∧
      middle = later.enter id phase := by
  simp only [step] at taken
  split at taken
  case isFalse => cases taken
  case isTrue =>
    obtain ⟨⟨connected, later⟩, ran, rfl⟩ := Option.map_eq_some_iff.mp taken
    split at ran
    · obtain ⟨⟨plain, plain_later⟩, plain_ran, same⟩ := Option.map_eq_some_iff.mp ran
      obtain ⟨-, rfl⟩ := Prod.mk.inj same
      exact ⟨plain, _, _, plain_ran, rfl⟩
    · exact ⟨connected, later, _, ran, rfl⟩

/-- What the destructor of an object does to the kernel. -/
theorem destroy_step {s next : Sockets} {id : Nat} (gone : step s (.destroy id) = some next) :
    next.kernel = if (s.object id).fd ≠ 0 then s.kernel.close (.socket id) (s.object id).fd
      else s.kernel := by
  simp only [step] at gone
  split at gone
  · obtain rfl := Option.some.inj gone
    unfold destroy
    split <;> rfl
  · cases gone

/-- **Any other `connect` goes wrong**: when its object is destroyed, which is all that happens to it, it
closes a number that is not its own, or it has never closed the number 0. -/
theorem refused_closes_again {s middle next : Sockets} {id : Nat} (released : Released s.kernel id)
    (below : ∀ number < 0, s.kernel.holder number = none) {calls : ConnectCalls}
    {sslCalls : Bool} (unsound : ¬ ConnectsWell calls)
    (taken : step s (.connect id calls sslCalls) = some middle)
    (gone : step middle (.destroy id) = some next) :
    ¬ (next.kernel.Proper ∧ Released next.kernel id) := by
  obtain ⟨connected, later, phase, ran, rfl⟩ := connect_step taken
  rw [destroy_step gone]
  simp only [enter, setObject, Function.update_self]
  rintro ⟨proper, released_after⟩
  cases calls with
  | socketFailed =>
    obtain ⟨-, rfl⟩ := Prod.mk.inj (Option.some.inj ran)
    have free : s.kernel.holder (-1) = none := below (-1) (by decide)
    simp [setObject, free] at proper
  | socket fd failed =>
    simp only [Sockets.connect] at ran
    split at ran
    case isFalse => cases ran
    case isTrue can =>
      split at ran
      · next not_positive =>
        -- the number is 0, which the destructor takes for no number
        obtain rfl : fd = 0 := by omega
        obtain ⟨-, rfl⟩ := Prod.mk.inj (Option.some.inj ran)
        unfold Released at released released_after
        simp only [setObject, Function.update_self, ne_eq, not_true_eq_false, if_false,
          Kernel.acquire] at released_after
        rw [Kernel.numbers_self, Kernel.numbers_self, released] at released_after
        simp at released_after
      · next positive =>
        cases failed with
        | none => exact unsound (Int.not_le.mp positive)
        | some call =>
          obtain ⟨-, rfl⟩ := Prod.mk.inj (Option.some.inj ran)
          have some_fd : fd ≠ 0 := by omega
          simp [setObject, some_fd] at proper

/-- A kernel in which the standard streams are open. -/
def startKernel : Kernel Party :=
  { holder := fun number => if 0 ≤ number ∧ number ≤ 2 then some .other else none }

/-- A plain socket and a TLS socket, the second with the number of the first. -/
def twoLives : List Input :=
  [.construct 0 false, .connect 0 (.socket 3 none) true, .write 0, .read 0, .close 0 .done,
    .construct 1 true, .connect 1 (.socket 3 none) true, .destroy 0, .close 1 .wantRead,
    .completeShutdown 1 .zeroReturn, .destroy 1]

theorem released_once_example :
    ∃ s : Sockets, s.kernel.numbers (.socket 1) .open = [3] ∧
      (∀ entry ∈ s.kernel.log, entry.call = .close → entry.owned = true) ∧
        ∀ id, (s.object id).phase = .destroyed →
          s.kernel.numbers (.socket id) .close = s.kernel.numbers (.socket id) .open := by
  have ran : (run (guarded step Sound) { kernel := startKernel } twoLives).map
      (fun s => s.kernel.numbers (.socket 1) .open) = some [3] := by decide
  obtain ⟨s, reached, given⟩ := Option.map_eq_some_iff.mp ran
  exact ⟨s, given, released_once startKernel rfl s (Reach.of_guarded_run reached)⟩

/-- **A failed `connect` closes twice**, and the second time the number can be another socket's. -/
theorem failed_connect_closes_twice :
    ∃ s : Sockets, Reach step anyStep { kernel := startKernel } s ∧
      s.kernel.numbers (.socket 0) .close = [3, 3] ∧ (s.object 1).phase = .connected ∧
        (s.object 1).fd = 3 ∧ s.kernel.holder 3 = none ∧
          ⟨.socket 0, .close, 3, false⟩ ∈ s.kernel.log := by
  have ran : (run step { kernel := startKernel }
      [.construct 0 false, .construct 1 false, .connect 0 (.socket 3 (some .connect)) true,
        .connect 1 (.socket 3 none) true, .destroy 0]).map
      (fun s => (s.kernel.numbers (.socket 0) .close, s.object 1, s.kernel.holder 3,
        s.kernel.log.contains ⟨.socket 0, .close, 3, false⟩)) =
      some ([3, 3], ⟨false, 3, .connected⟩, none, true) := by decide
  obtain ⟨s, reached, result⟩ := Option.map_eq_some_iff.mp ran
  simp only [Prod.mk.injEq, List.contains_iff_mem] at result
  obtain ⟨closes, second, free, log⟩ := result
  exact ⟨s, .of_run (fun _ _ _ => trivial) reached, closes, by rw [second], by rw [second], free, log⟩

end Apib.Net.Sockets
