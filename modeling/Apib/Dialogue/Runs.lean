/-
**A thread and its servers.**

Every connection of a thread has a server at its other end, which answers the requests that it gets with
responses of its own. In between there may be anything: reads that would block, empty reads, errors, the
end of a stream, timers, commands, and the callbacks of other connections.

* `InDialogue.callback`: every callback keeps up the dialogue;
* `told_exactly`: **for every request that was sent to its end the status code of its own response is
  recorded, once, with the last byte of it, and not before**.
-/

import Apib.Dialogue.Hearing
import Apib.Lifecycle.Between
import Apib.Lifecycle.Resting

namespace Apib

open ByteMachine Ctx Http

/-- The servers of all connections give the responses to the last requests. -/
abbrev System.Serves (script : Nat → Nat → Message) : System → System.Input → Prop :=
  System.Allows (Ctx.Serves script)

/-- A connection in a dialogue with its server: every request so far was told of as it was answered, and a
connection that is to read is somewhere in the response to the last one. -/
structure InDialogue (cfg : Config) (script : Nat → Message) (x : Ctx) : Prop where
  told : Told script (exchanges x.history)
  recorded : statuses x.history = (exchanges x.history).flatMap Exchange.results
  empty : x.c.readBuf.data = []
  reading : x.c.io.active = true → x.c.io.callback = .readReady →
    ∃ past n, Hearing cfg (script past.length) past n x

section Dialogue

variable {cfg : Config} {script : Nat → Message} {env : Env} {x y z : Ctx}

/-! ### What each callback does -/

/-- What a connection does aside keeps up the dialogue. -/
theorem InDialogue.aside (told : Told script (exchanges x.history))
    (recorded : Apib.statuses x.history = (exchanges x.history).flatMap Exchange.results)
    (empty : x.c.readBuf.data = []) (aside : Aside x y) : InDialogue cfg script y := by
  have same := aside.toBeside.exchanges
  constructor
  · rw [same]
    exact told
  · rw [same, aside.toBeside.statuses]
    exact recorded
  · rw [aside.readBuf]
    exact empty
  · exact fun active reading => absurd reading (aside.notReading active)

/-- **A request is sent to its end**: its exchange begins. -/
theorem InDialogue.written (dialogue : InDialogue cfg script x) (beside : Beside x z) :
    InDialogue cfg script (z.writeDone cfg env 0) := by
  have grown : (z.writeDone cfg env 0).history = z.history ++ [.writeDone 0] := by simp [Ctx.history]
  have sofar : exchanges (z.writeDone cfg env 0).history = exchanges x.history ++ [⟨0, []⟩] := by
    rw [grown, exchanges_append, beside.exchanges]
    rfl
  have some_byte : 0 < (script (exchanges x.history).length).bytes.length :=
    List.length_pos_iff.mpr Parse.message_some
  have empty : (z.writeDone cfg env 0).c.readBuf.data = [] := by
    simp [beside.readBuf, dialogue.empty]
  have recorded : Apib.statuses (z.writeDone cfg env 0).history =
      (exchanges x.history).flatMap Exchange.results := by
    rw [grown, statuses_append, beside.statuses, dialogue.recorded]
    exact List.append_nil _
  refine ⟨?_, ?_, empty, fun _ _ => ⟨exchanges x.history, 0, ⟨sofar, recorded⟩, some_byte, ?_, empty⟩⟩
  · rw [sofar, told_concat]
    exact ⟨dialogue.told, ⟨Nat.zero_le _, (if_neg some_byte.ne).symm⟩⟩
  · rw [recorded, sofar]
    simp
  · simp [Ctx.parse]

/-- The exchanges while a response is being read. -/
theorem Hearing.told {past : List Exchange} {n : Nat} (hearing : Hearing cfg (script past.length) past n x)
    (before : Told script past) : Told script (exchanges x.history) := by
  rw [hearing.sofar.exchanges, told_concat]
  exact ⟨before, ⟨hearing.before.le, (if_neg hearing.before.ne).symm⟩⟩

/-- **A callback that reads** goes on with the exchange, or ends it. -/
theorem InDialogue.read (dialogue : InDialogue cfg script x)
    (answers : ∀ k, Parse.Answers cfg.parserStrict (script k).bytes (script k).head.status)
    (now : At .reading x) {outs : List ReadOutcome}
    (small : ∀ out ∈ outs, out.given.length ≤ kReadBufSize)
    (served : outs.flatMap ReadOutcome.given <+: upcoming script (exchanges x.history))
    (called : System.returned (x.readReady cfg env outs) = some y) : InDialogue cfg script y := by
  obtain ⟨past, n, hearing⟩ := dialogue.reading now.active (by rw [now.io])
  have before : Told script past := by
    have told := dialogue.told
    rw [hearing.sofar.exchanges, told_concat] at told
    exact told.1
  rw [hearing.sofar.exchanges, upcoming_concat] at served
  have drained := hearing.drain (answers past.length) outs small served
  rw [readReady_eq] at called
  rcases returned_ending called with paused | ⟨last, err, done, rfl⟩
  · rw [paused] at drained
    obtain ⟨n', hearing'⟩ := drained
    refine ⟨hearing'.told before, ?_, hearing'.empty, fun _ _ => ⟨past, n', hearing'⟩⟩
    rw [hearing'.sofar.statuses, hearing'.sofar.exchanges]
    simp
  · rw [done] at drained
    obtain ⟨empty, noIo, ⟨n', sofar, inside, whole⟩, status, -⟩ := drained
    by_cases isError : err = 0
    · subst isError
      obtain rfl := whole.mp rfl
      refine InDialogue.aside ?_ ?_ (by simpa using empty) (readDone_tells noIo)
      · rw [answered_exchanges sofar.exchanges, told_concat, status rfl]
        exact ⟨before, ⟨Nat.le_refl _, (if_pos rfl).symm⟩⟩
      · rw [answered_exchanges sofar.exchanges, answered_statuses, sofar.statuses]
        simp
    · refine InDialogue.aside ?_ ?_ empty (readDone_aside isError noIo)
      · rw [sofar.exchanges, told_concat]
        exact ⟨before, ⟨inside, (if_neg fun all => isError (whole.mpr all)).symm⟩⟩
      · rw [sofar.statuses, sofar.exchanges]
        simp

/-- **Every callback keeps up the dialogue.** -/
theorem InDialogue.callback {p : Point} {input : System.Input} (dialogue : InDialogue cfg script x)
    (answers : ∀ k, Parse.Answers cfg.parserStrict (script k).bytes (script k).head.status)
    (now : At p x) (settled : p.settled = true)
    (served : x.Serves (fun _ => script) input)
    (called : System.callback cfg x input = some y) : InDialogue cfg script y := by
  have point := now.point_eq settled
  obtain ⟨told, recorded, empty, reading⟩ := dialogue
  unfold System.callback at called
  split at called
  · next id outs env =>
    split at called
    · next enabled =>
      rw [Bool.and_eq_true, beq_iff_eq] at enabled
      rw [ConnectionState.point, if_pos enabled.1, enabled.2] at point
      subst point
      have stays := drain_stays (tryWrite_follows cfg Gate.free) x outs
      have beside := drain_beside x outs
      rw [writeReady_eq] at called
      rcases returned_ending called with paused | ⟨last, err, done, rfl⟩
      · rw [paused] at stays beside
        have io := (now.stays stays).io
        exact InDialogue.aside told recorded empty ⟨beside, by simp [io]⟩
      · rw [done] at stays beside
        obtain ⟨z, _, rfl, _⟩ := stays
        by_cases isError : err = 0
        · subst isError
          exact InDialogue.written ⟨told, recorded, empty, reading⟩ beside
        · have aside : Aside z.ioStop (z.ioStop.writeDone cfg env err) :=
            writeDone_aside isError (ioStop_noIo z)
          exact InDialogue.aside told recorded empty ⟨beside.trans aside.toBeside, aside.notReading⟩
    · cases called
  · next id outs env =>
    split at called
    · next enabled =>
      rw [Bool.and_eq_true, beq_iff_eq] at enabled
      rw [ConnectionState.point, if_pos enabled.1, enabled.2] at point
      subst point
      exact InDialogue.read ⟨told, recorded, empty, reading⟩ answers now served.1 served.2 called
    · cases called
  · split at called
    · next enabled =>
      rw [Bool.and_eq_true, beq_iff_eq] at enabled
      rw [ConnectionState.point, if_pos enabled.1, enabled.2] at point
      subst point
      cases called
      exact InDialogue.aside told recorded empty (completeShutdown_aside now _)
    · cases called
  · split at called
    · next enabled =>
      obtain rfl := now.of_timer settled enabled
      cases called
      exact InDialogue.aside told recorded empty (thinkingDone_aside now.noIo)
    · cases called
  · cases called

/-- A new connection has had no exchange. -/
theorem InDialogue.born (silent : x.history = []) (new : x.c = .new x.c.id x.c.index x.c.url) :
    InDialogue cfg script (x.startConnect cfg env) := by
  have begun : Aside x (x.startConnect cfg env) := by
    apply startConnect_aside
    rw [new]
    rfl
  refine InDialogue.aside ?_ ?_ ?_ begun
  · rw [silent]
    exact .nil
  · rw [silent]
    rfl
  · rw [new]
    rfl

end Dialogue

/-! ### Over runs -/

section Runs

variable {cfg : Config} {script : Nat → Nat → Message}

/-- The dialogues, where the parser answers every response. -/
def dialogues (cfg : Config) (script : Nat → Nat → Message)
    (answers : ∀ id k, Parse.Answers cfg.parserStrict (script id k).bytes (script id k).head.status) :
    Between cfg (Ctx.Serves script) where
  holds := fun x => InDialogue cfg (script x.c.id) x
  elsewhere := by
    intro t t' c dialogue away
    have same : (Ctx.mk t' c).history = (Ctx.mk t c).history := away.history
    obtain ⟨told, recorded, empty, reading⟩ := dialogue
    refine ⟨by rwa [same], by rwa [same], empty, fun active reads => ?_⟩
    obtain ⟨past, n, sofar, before, parser, _⟩ := reading active reads
    exact ⟨past, n, sofar.of_history same, before, parser, empty⟩
  born := by
    intro x env silent new
    have leads : Leads cfg Gate.free .born x (x.startConnect cfg env) := startConnect_leads env trivial
    have id : (x.startConnect cfg env).c.id = x.c.id := leads.frame.id
    rw [id]
    exact .born silent new
  removed := by
    intro x dialogue
    obtain ⟨told, recorded, empty, reading⟩ := dialogue
    have beside : Beside x x.removed := ⟨⟨_, removed_history x, by simp [Event.aside]⟩, rfl⟩
    refine ⟨by rwa [beside.exchanges], by rwa [beside.statuses, beside.exchanges], empty,
      fun active reads => ?_⟩
    obtain ⟨past, n, ⟨sofar, recorded'⟩, before, parser, _⟩ := reading active reads
    exact ⟨past, n, ⟨by rwa [beside.exchanges], by rwa [beside.statuses]⟩, before, parser, empty⟩
  callback := by
    intro p x input y now settled dialogue served called
    have free : Gate.free.permitsCallback cfg x input := by
      cases input <;> simp [Gate.permitsCallback, Gate.free]
    rw [(callback_leads now settled free called).frame.id]
    refine dialogue.callback (answers x.c.id) now settled ?_ called
    cases input <;> exact served

/-- The parser answers the responses that it reads as they are sent. -/
theorem Parse.answers_of_agrees {verb : Bytes} (strict : Bool)
    (wellFormed : ∀ id k, (script id k).WellFormed verb) (agrees : ∀ id k, Parse.Agrees (script id k))
    (id k : Nat) : Parse.Answers strict (script id k).bytes (script id k).head.status :=
  (Parse.answers_iff (fun _ (none : _ ∈ []) => absurd none List.not_mem_nil) (wellFormed id k)).mpr
    ⟨rfl, agrees id k⟩

/-- **Every request is told of as it was answered**: for each that was sent to its end, not more is parsed
than the response of the server to it, and its status code is recorded, once, exactly if all of that
response is parsed. -/
theorem told_exactly (cfg : Config) (script : Nat → Nat → Message)
    (wellFormed : ∀ id k, (script id k).WellFormed cfg.httpVerb)
    (agrees : ∀ id k, Parse.Agrees (script id k)) (s : System)
    (reached : System.Reachable cfg (System.Serves script) s) (id : Nat) (c : ConnectionState)
    (found : s.heap[id]? = some c) : Told (script id) (exchanges (history id s.t.log)) := by
  have answers := Parse.answers_of_agrees cfg.parserStrict wellFormed agrees
  have everywhere := (dialogues cfg script answers).reachable reached
  have same : c.id = id := (everywhere.watchers.conns id c found).id
  subst same
  exact (everywhere.conns c.id c found).told

end Runs

/-! ### A short dialogue -/

/-- A response with the body `hello`. -/
def hello : Message := ⟨lengthHead, .whole (ascii "hello")⟩

theorem hello_wellFormed : hello.WellFormed (ascii "GET") := by
  refine ⟨lengthHead_valid, by decide +kernel, trivial, ?_⟩
  unfold Message.Framed
  rw [if_neg (by decide +kernel), if_neg (by decide +kernel)]
  exact ⟨_, rfl, by decide +kernel, lengthHead_length⟩

theorem hello_agrees : Parse.Agrees hello :=
  ⟨by decide +kernel, (Parse.Framing.coded 200).measured 5, by decide +kernel, by
    show Parse.Framing.sequel _ = if ascii "hello" = [] then _ else _
    decide +kernel⟩

/-- Two requests: the first response comes in two reads, the second one breaks off. -/
def shortDialogue : List System.Input :=
  [.write 0 [.ok (.ok 200)] {}, .read 0 [.ok (.ok (hello.bytes.take 20)), .ok .needRead] {},
    .read 0 [.ok (.ok (hello.bytes.drop 20))] {}, .write 0 [.ok (.ok 200)] {},
    .read 0 [.ok (.ok (hello.bytes.take 7)), .ok .feof] {}]

/-- The state after it. -/
def System.dialogue : Option System :=
  Transition.run (Transition.guarded (System.step System.oneConnection)
    (System.Serves fun _ _ => hello)) (System.start System.oneConnection true fun _ => {}) shortDialogue

theorem System.dialogue_reached {s : System} (ran : System.dialogue = some s) :
    System.Reachable System.oneConnection (System.Serves fun _ _ => hello) s :=
  ⟨true, fun _ => {}, Transition.Reach.of_guarded_run ran⟩

theorem told_exactly_example : ∃ s c, System.dialogue = some s ∧ s.heap[0]? = some c ∧
    exchanges (history 0 s.t.log) = [⟨43, [200]⟩, ⟨7, []⟩] ∧
    Told (fun _ => hello) (exchanges (history 0 s.t.log)) := by
  have some_state : (System.dialogue.bind fun s => s.heap[0]?).isSome = true ∧
      (System.dialogue.map fun s => exchanges (history 0 s.t.log)) = some [⟨43, [200]⟩, ⟨7, []⟩] := by
    decide +kernel
  obtain ⟨c, reached⟩ := Option.isSome_iff_exists.mp some_state.1
  obtain ⟨s, ran, found⟩ := Option.bind_eq_some_iff.mp reached
  have told := some_state.2
  rw [ran] at told
  exact ⟨s, c, ran, found, Option.some.inj told,
    told_exactly System.oneConnection (fun _ _ => hello) (fun _ _ => hello_wellFormed)
      (fun _ _ => hello_agrees) s (System.dialogue_reached ran) 0 c found⟩

end Apib
