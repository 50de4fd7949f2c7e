/-
**What a socket is given.**

Whatever the outcomes of the socket calls are, the books of a connection's sockets (`wire`) stay in
order:

* `tryWrite_advances`: a call of `singleWrite` that finds bytes to send leaves bytes to send, unless
  it ends the request;
* `WireAt.move`: every move keeps the lines whole, or partway through one request while it is sent;
* `wire_discipline`: **in every state of every run each socket has accepted complete requests and at
  most one proper prefix of a further one**.
-/

import Apib.Reading.Waiting
import Apib.Runs.Ledger

namespace Apib

open Ctx

/-! ### The loop that writes -/

/-- Some bytes of the request remain to be sent. -/
def ConnectionState.Remains (c : ConnectionState) : Prop := c.fullWritePos < c.fullWrite.length

/-- The same request is being sent, and if bytes remained to be sent, some still do. -/
structure Advances (x y : Ctx) : Prop where
  text : y.c.fullWrite = x.c.fullWrite
  remains : x.c.Remains → y.c.Remains

section Writing

variable {x y z : Ctx}

theorem Advances.refl : Advances x x := ⟨rfl, id⟩

theorem Advances.trans (first : Advances x y) (second : Advances y z) : Advances x z :=
  ⟨second.text.trans first.text, second.remains ∘ first.remains⟩

/-- Turning the watcher around sends nothing. -/
theorem Advances.turned (home asked : Direction) : Advances x (x.turned home asked) :=
  ⟨by simp, fun remains => by simpa [ConnectionState.Remains] using remains⟩

/-- **A call that does not end the request leaves bytes to send.** -/
theorem tryWrite_advances (x : Ctx) (out : WriteOutcome) :
    match x.tryWrite out with
    | .returns y _ => Advances x y
    | .done y err _ => err ≠ 0 → Advances x y := by
  match out with
  | .error _ =>
    refine fun _ => ⟨by simp, fun remains => ?_⟩
    simpa [ConnectionState.Remains] using remains
  | .ok (.ok wrote) =>
    by_cases all : (x.accepted wrote).c.fullWritePos = (x.accepted wrote).c.fullWrite.length
    · have exit : x.tryWrite (.ok (.ok wrote)) = .done (x.accepted wrote).ioStop 0 0 := if_pos all
      rw [exit]
      exact fun isError => absurd rfl isError
    · have exit : x.tryWrite (.ok (.ok wrote)) = .returns (x.accepted wrote) 1 := if_neg all
      rw [exit]
      refine ⟨rfl, fun remains => ?_⟩
      have room : x.c.fullWritePos < x.c.fullWrite.length := remains
      simp only [accepted, recordWrite, note, List.length_take, List.length_drop] at all
      simp only [ConnectionState.Remains, accepted, recordWrite, note, List.length_take,
        List.length_drop]
      omega
  | .ok .feof => exact .refl
  | .ok .needWrite =>
    have exit : x.tryWrite (.ok .needWrite) = .returns (x.turned .write .write) 0 := by
      rw [turned_home]
      rfl
    rw [exit]
    exact .turned .write .write
  | .ok .needRead =>
    have exit : x.tryWrite (.ok .needRead) = .returns (x.turned .write .read) 0 := by
      rw [turned_away x (by decide)]
      rfl
    rw [exit]
    exact .turned .write .read

theorem drain_advances (x : Ctx) (outs : List WriteOutcome) :
    match drain tryWrite x outs with
    | .going y | .paused y _ => Advances x y
    | .done y err _ => err ≠ 0 → Advances x y := by
  induction outs generalizing x with
  | nil => exact .refl
  | cons out outs ih =>
    have one := tryWrite_advances x out
    simp only [drain]
    cases exit : x.tryWrite out with
    | done y err code =>
      rw [exit] at one
      exact one
    | returns y code =>
      rw [exit] at one
      by_cases again : code > 0
      · simp only [if_pos again]
        have more := ih y
        cases rest : drain tryWrite y outs with
        | going z | paused z unused =>
          rw [rest] at more
          exact one.trans more
        | done z err unused =>
          rw [rest] at more
          exact fun isError => one.trans (more isError)
      · simp only [if_neg again]
        exact one

end Writing

/-- A connection that is to write something has bytes to send, as a property between callbacks. -/
def remains (cfg : Config) : Resting cfg where
  holds := fun c => c.io.active = true → c.io.callback = .writeReady → c.fullWrite ≠ [] → c.Remains
  idle := fun noIo active => absurd active (by simp [noIo])
  closing := fun closing _ writing => absurd (closing.symm.trans writing) (by decide)
  sent := fun env x _ _ some_text => by
    simpa [ConnectionState.Remains, List.length_pos_iff] using some_text
  listening := fun env x _ writing => by simp at writing
  writing := by
    intro x y outs unused now _ before paused _ _ some_text
    have advances := drain_advances x outs
    rw [paused] at advances
    exact advances.remains (before now.active (by rw [now.io]) (advances.text ▸ some_text))
  reading := fun _ still _ _ _ writing => by simp [still.io] at writing
  removed := id

/-- A write phase fails only with bytes left to send. -/
def midRequest : Gate where
  writeDone := fun _ err x => err ≠ 0 → x.c.Remains

/-! ### At each point -/

/-- The socket in use is whole and answered, and may be given a request. -/
structure Ready (x : Ctx) (socket : Socket) : Prop where
  current : x.c.socket = some socket
  opened : Opened x.history socket
  whole : ((wire x.history).line socket).Whole
  answered : ((wire x.history).line socket).unanswered = false
  read : ((wire x.history).line socket).requests ≠ [] → x.c.readDone = true

/-- The socket in use is being given a request. -/
structure Sending (x : Ctx) (socket : Socket) : Prop where
  current : x.c.socket = some socket
  opened : Opened x.history socket
  here : (wire x.history).current = some socket
  text : x.c.fullWrite ≠ []
  inside : x.c.fullWritePos ≤ x.c.fullWrite.length
  partway : ((wire x.history).line socket).Partway x.c.fullWrite (x.c.fullWrite.take x.c.fullWritePos)
  patient : ((wire x.history).line socket).hasty = false
  read : 1 < ((wire x.history).line socket).requests.length → x.c.readDone = true

/-- The socket in use has been given its requests. -/
structure Sent (x : Ctx) (socket : Socket) : Prop where
  current : x.c.socket = some socket
  opened : Opened x.history socket
  here : (wire x.history).current = some socket
  whole : ((wire x.history).line socket).Whole

/-- What is known of the socket in use at a point. -/
def InUse : Point → Ctx → Prop
  | .sending, x => ∃ socket, Ready x socket
  | .writing, x => ∃ socket, Sending x socket
  | .reading, x => ∃ socket, Sent x socket
  | .recycling closeConn, x => closeConn = false → ∃ socket, Ready x socket
  | .thinking, x | .attempting _, x => x.c.needsOpen = false → ∃ socket, Ready x socket
  | .closing, x | .closed, x => x.c.needsOpen = true
  | .born, _ | .finished, _ => True

/-- What is known of the sockets of a connection at a point: the one that is being written to apart,
all of them are sound. -/
structure WireAt (p : Point) (x : Ctx) : Prop where
  text : x.c.writeDirty = false → x.c.fullWrite ≠ []
  sound : ∀ socket, (p = .writing → x.c.socket ≠ some socket) → ((wire x.history).line socket).Sound
  unopened : ∀ socket, ¬ Opened x.history socket → (wire x.history).line socket = {}
  wrote : ∀ socket bytes, Event.wrote socket bytes ∈ x.history →
    ∃ s, socket = some s ∧ Opened x.history s
  inUse : InUse p x

section Silent

variable {x y : Ctx} {socket : Socket} (events : List Event)

/-- A socket that is ready stays so while nothing happens on it. -/
theorem Ready.kept (ready : Ready x socket) (grown : y.history = x.history ++ events)
    (silent : ∀ event ∈ events, event.silent = true) (same : y.c.socket = x.c.socket)
    (read : y.c.readDone = x.c.readDone) : Ready y socket := by
  constructor
  · rw [same]
    exact ready.current
  · rw [grown]
    exact ready.opened.mono
  · rw [grown, wire_silent silent]
    exact ready.whole
  · rw [grown, wire_silent silent]
    exact ready.answered
  · rw [grown, wire_silent silent, read]
    exact ready.read

theorem Sent.kept (sent : Sent x socket) (grown : y.history = x.history ++ events)
    (silent : ∀ event ∈ events, event.silent = true) (same : y.c.socket = x.c.socket) :
    Sent y socket := by
  constructor
  · rw [same]
    exact sent.current
  · rw [grown]
    exact sent.opened.mono
  · rw [grown, wire_silent silent]
    exact sent.here
  · rw [grown, wire_silent silent]
    exact sent.whole

theorem Sending.kept (sending : Sending x socket) (grown : y.history = x.history ++ events)
    (silent : ∀ event ∈ events, event.silent = true) (same : y.c.socket = x.c.socket)
    (text : y.c.fullWrite = x.c.fullWrite) (pos : y.c.fullWritePos = x.c.fullWritePos)
    (read : y.c.readDone = x.c.readDone) : Sending y socket := by
  constructor
  · rw [same]
    exact sending.current
  · rw [grown]
    exact sending.opened.mono
  · rw [grown, wire_silent silent]
    exact sending.here
  · rw [text]
    exact sending.text
  · rw [pos, text]
    exact sending.inside
  · rw [grown, wire_silent silent, text, pos]
    exact sending.partway
  · rw [grown, wire_silent silent]
    exact sending.patient
  · rw [grown, wire_silent silent, read]
    exact sending.read

/-- The sockets are as before where nothing happens on them. -/
theorem WireAt.quiet {p q : Point} (before : WireAt p x) (grown : y.history = x.history ++ events)
    (silent : ∀ event ∈ events, event.silent = true)
    (text : y.c.writeDirty = false → y.c.fullWrite ≠ [])
    (sound : ∀ socket, (q = .writing → y.c.socket ≠ some socket) →
      ((wire x.history).line socket).Sound)
    (inUse : InUse q y) : WireAt q y := by
  refine ⟨text, ?_, fun socket unopened => ?_, fun socket bytes member => ?_, inUse⟩
  · rw [grown, wire_silent silent]
    exact sound
  · rw [grown, wire_silent silent]
    refine before.unopened socket fun opened => unopened ?_
    rw [grown]
    exact opened.mono
  · rw [grown, List.mem_append] at member
    rcases member with old | new
    · obtain ⟨s, same, opened⟩ := before.wrote socket bytes old
      refine ⟨s, same, ?_⟩
      rw [grown]
      exact opened.mono
    · exact absurd (silent _ new) (by simp [Event.silent])

end Silent

section Moves

variable {cfg : Config} {p q : Point} {x y : Ctx} {socket : Socket}

/-- The lines of all sockets are sound at a point where none is being written to. -/
theorem WireAt.all_sound (before : WireAt p x) (notWriting : p ≠ .writing) (socket : Socket) :
    ((wire x.history).line socket).Sound :=
  before.sound socket fun writing => absurd writing notWriting

/-- Calls that do nothing on any socket, where none is being written to. -/
theorem WireAt.aside (before : WireAt p x) (events : List Event) (notWriting : p ≠ .writing)
    (grown : y.history = x.history ++ events) (silent : ∀ event ∈ events, event.silent = true)
    (text : y.c.writeDirty = false → y.c.fullWrite ≠ []) (inUse : InUse q y) : WireAt q y :=
  before.quiet events grown silent text (fun socket _ => before.all_sound notWriting socket) inUse

/-- A request that is not sent to its end leaves a proper prefix. -/
theorem Sending.sound (sending : Sending x socket) (remains : x.c.Remains) :
    ((wire x.history).line socket).Sound := by
  refine ⟨.inr ⟨_, _, sending.partway, List.take_prefix _ _, fun all => ?_⟩, sending.patient⟩
  have shorter : x.c.fullWritePos < x.c.fullWrite.length := remains
  have same := congrArg List.length all
  rw [List.length_take] at same
  omega

/-- So while some bytes remain to be sent, every socket is sound. -/
theorem WireAt.sound_of_remains (before : WireAt .writing x) (remains : x.c.Remains)
    (socket : Socket) : ((wire x.history).line socket).Sound := by
  obtain ⟨used, sending⟩ := before.inUse
  by_cases same : used = socket
  · exact same ▸ sending.sound remains
  · refine before.sound socket fun _ current => same ?_
    exact Option.some.inj (sending.current.symm.trans current)

/-- What is serialised is never empty. -/
theorem writeRequest_text (cfg : Config) (clean : x.c.writeDirty = false → x.c.fullWrite ≠ []) (env : Env) :
    (x.writeRequest cfg env).c.fullWrite ≠ [] := by
  rw [writeRequest_eq]
  dsimp only
  split
  · next same =>
    simp only [reuses, Bool.and_eq_true, Bool.not_eq_true'] at same
    exact clean same.1
  · rw [rewritten, OutputBuffer.data_rewind_puts]
    simp [requestPieces, ascii]

/-- **Calls on one socket** leave the others as they are. -/
theorem WireAt.touch (before : WireAt p x) {events : List Event} (used : Socket)
    (opened : Opened x.history used) (grown : y.history = x.history ++ events)
    (wrote : ∀ socket bytes, Event.wrote socket bytes ∈ events → socket = some used)
    (apart : ∀ other, used ≠ other →
      (wire y.history).line other = (wire x.history).line other)
    (others : ∀ other, used ≠ other → ((wire x.history).line other).Sound)
    (text : y.c.writeDirty = false → y.c.fullWrite ≠ [])
    (mine : (q = .writing → y.c.socket ≠ some used) → ((wire y.history).line used).Sound)
    (inUse : InUse q y) : WireAt q y := by
  have still : ∀ {socket}, Opened x.history socket → Opened y.history socket := by
    intro socket earlier
    rw [grown]
    exact earlier.mono
  refine ⟨text, fun socket away => ?_, fun socket unopened => ?_, fun socket bytes member => ?_, inUse⟩
  · by_cases same : used = socket
    · subst same
      exact mine away
    · rw [apart socket same]
      exact others socket same
  · have closed : ¬ Opened x.history socket := fun earlier => unopened (still earlier)
    have different : used ≠ socket := by
      rintro rfl
      exact closed opened
    rw [apart socket different]
    exact before.unopened socket closed
  · rw [grown, List.mem_append] at member
    rcases member with old | new
    · obtain ⟨s, same, earlier⟩ := before.wrote socket bytes old
      exact ⟨s, same, still earlier⟩
    · exact ⟨used, wrote socket bytes new, still opened⟩

/-- **A request is sent over a socket that is ready.** -/
theorem WireAt.send (before : WireAt .sending x) (env : Env) :
    WireAt .writing (x.writeRequest cfg env).sendWrite := by
  obtain ⟨used, ready⟩ := before.inUse
  have sound := before.all_sound (by decide)
  have text := writeRequest_text cfg before.text env
  have same : (x.writeRequest cfg env).sendWrite.c.fullWrite = (x.writeRequest cfg env).c.fullWrite := by
    simp
  have start : (x.writeRequest cfg env).sendWrite.c.fullWritePos = 0 := by simp
  have socket : (x.writeRequest cfg env).sendWrite.c.socket = some used := by
    simpa using ready.current
  have grown : (x.writeRequest cfg env).sendWrite.history = x.history ++
      [.request x.c.url env.authHdr (x.writeRequest cfg env).c.fullWrite,
        .sendWrite x.c.url (some used)] := by
    simp [Ctx.history, ready.current]
  have wires : wire (x.writeRequest cfg env).sendWrite.history =
      { wire x.history with
        request := (x.writeRequest cfg env).c.fullWrite
        current := some used }.on (some used) (Line.begin (x.writeRequest cfg env).c.fullWrite) := by
    rw [grown, wire_append]
    rfl
  have line : (wire (x.writeRequest cfg env).sendWrite.history).line used =
      ((wire x.history).line used).begin (x.writeRequest cfg env).c.fullWrite := by
    rw [wires, Wire.on_line]
  refine before.touch used ready.opened grown (by simp) (fun other different => ?_)
    (fun other _ => sound other) (fun _ => same ▸ text) (fun away => absurd socket (away rfl))
    ⟨used, socket, ?_, by rw [wires, Wire.on_current], same ▸ text, by omega, ?_, ?_, ?_⟩
  · rw [wires, Wire.on_elsewhere different]
  · rw [grown]
    exact ready.opened.mono
  · rw [line, start, same, List.take_zero]
    exact ready.whole.begin _
  · rw [line]
    simp [Line.begin, (sound used).patient, ready.answered]
  · rw [line]
    intro several
    have earlier : ((wire x.history).line used).requests ≠ [] := fun none => by
      simp [Line.begin, none] at several
    simpa using ready.read earlier

/-- **What a socket accepts is the next part of the request.** -/
theorem WireAt.write (before : WireAt .writing x) (wrote : Nat) : WireAt .writing (x.accepted wrote) := by
  obtain ⟨used, sending⟩ := before.inUse
  have grown : (x.accepted wrote).history = x.history ++
      [.wrote (some used) ((x.c.fullWrite.drop x.c.fullWritePos).take wrote)] := by
    simp [Ctx.history, sending.current]
  have wires : wire (x.accepted wrote).history = (wire x.history).on (some used)
      (Line.accept ((x.c.fullWrite.drop x.c.fullWritePos).take wrote)) := by
    rw [grown, wire_append]
    rfl
  have line : (wire (x.accepted wrote).history).line used =
      ((wire x.history).line used).accept ((x.c.fullWrite.drop x.c.fullWritePos).take wrote) := by
    rw [wires, Wire.on_line]
  have inside := sending.inside
  refine before.touch used sending.opened grown (by simp) (fun other different => ?_)
    (fun other different => ?_) before.text (fun away => absurd sending.current (away rfl))
    ⟨used, sending.current, ?_, by rw [wires, Wire.on_current, sending.here], sending.text, ?_, ?_, ?_,
      ?_⟩
  · rw [wires, Wire.on_elsewhere different]
  · refine before.sound other fun _ current => different ?_
    exact Option.some.inj (sending.current.symm.trans current)
  · rw [grown]
    exact sending.opened.mono
  · simp only [accepted, recordWrite, note, List.length_take, List.length_drop]
    omega
  · have next := sending.partway.accept ((x.c.fullWrite.drop x.c.fullWritePos).take wrote)
    have joined : x.c.fullWrite.take x.c.fullWritePos ++
        (x.c.fullWrite.drop x.c.fullWritePos).take wrote =
        (x.accepted wrote).c.fullWrite.take (x.accepted wrote).c.fullWritePos := by
      simp only [accepted, recordWrite, note, List.length_take, List.length_drop]
      rw [← List.take_add]
      apply List.take_eq_take_iff.mpr
      omega
    rw [line, ← joined]
    exact next
  · rw [line]
    exact sending.patient
  · rw [line]
    exact sending.read

/-- **A request sent to its end.** -/
theorem WireAt.written (before : WireAt .writing x) (env : Env)
    (all : x.c.fullWritePos = x.c.fullWrite.length) :
    WireAt .reading (x.ioStop.writeDone cfg env 0) := by
  obtain ⟨used, sending⟩ := before.inUse
  have grown : (x.ioStop.writeDone cfg env 0).history = x.history ++ [.writeDone 0] := by
    simp [Ctx.history]
  have wires : wire (x.ioStop.writeDone cfg env 0).history =
      (wire x.history).on (some used) Line.complete := by
    rw [grown, wire_append, ← sending.here]
    rfl
  have line : (wire (x.ioStop.writeDone cfg env 0).history).line used =
      ((wire x.history).line used).complete := by
    rw [wires, Wire.on_line]
  have whole : ((wire x.history).line used).complete.Whole := by
    have partway := sending.partway
    rw [all, List.take_length] at partway
    exact partway.complete
  refine before.touch used sending.opened grown (by simp) (fun other different => ?_)
    (fun other different => ?_) ?_ (fun _ => ?_) ⟨used, ?_, ?_, ?_, ?_⟩
  · rw [wires, Wire.on_elsewhere different]
  · refine before.sound other fun _ current => different ?_
    exact Option.some.inj (sending.current.symm.trans current)
  · simpa using before.text
  · rw [line]
    exact ⟨.inl whole, sending.patient⟩
  · simpa using sending.current
  · rw [grown]
    exact sending.opened.mono
  · rw [wires, Wire.on_current, sending.here]
  · rw [line]
    exact whole

/-- **A request that is answered.** -/
theorem WireAt.answered (before : WireAt .reading x) (rest : List Event)
    (silent : ∀ event ∈ rest, event.silent = true) (grown : y.history = x.history ++ .readDone 0 :: rest)
    (text : y.c.writeDirty = false → x.c.writeDirty = false) (same : y.c.fullWrite = x.c.fullWrite)
    (socket : y.c.socket = x.c.socket) (complete : y.c.readDone = true) (closeConn : Bool) :
    WireAt (.recycling closeConn) y := by
  obtain ⟨used, sent⟩ := before.inUse
  have sound := before.all_sound (by decide)
  have wires : wire y.history = (wire x.history).on (some used) Line.answer := by
    rw [grown, List.append_cons, wire_silent silent, wire_append, ← sent.here]
    rfl
  have line : (wire y.history).line used = ((wire x.history).line used).answer := by
    rw [wires, Wire.on_line]
  refine before.touch used sent.opened grown (fun socket bytes member => ?_)
    (fun other different => ?_) (fun other _ => sound other)
    (fun clean => same ▸ before.text (text clean)) (fun _ => ?_)
    fun _ => ⟨used, ?_, ?_, ?_, ?_, fun _ => complete⟩
  · rcases List.mem_cons.mp member with first | later
    · cases first
    · exact absurd (silent _ later) (by simp [Event.silent])
  · rw [wires, Wire.on_elsewhere different]
  · rw [line]
    exact ⟨.inl ⟨sent.whole.accepted, sent.whole.completions⟩, (sound used).patient⟩
  · rw [socket]
    exact sent.current
  · rw [grown]
    exact sent.opened.mono
  · rw [line]
    exact ⟨sent.whole.accepted, sent.whole.completions⟩
  · rw [line]
    rfl

/-- **A new socket is ready.** -/
theorem WireAt.connect {caller : Caller} (before : WireAt (.attempting caller) x)
    (numbered : Numbered x.t) (env : Env) (connected : (x.begun env caller).connect cfg env = (y, 0)) :
    WireAt .sending y.recordConnectionOpen := by
  rw [connect_eq_ok connected]
  have sound := before.all_sound (by simp)
  let socket := (x.begun env caller).opened cfg
  have new : ¬ Opened x.history socket := numbered.unopened
  let next : Ctx := { x.begun env caller with
    c.socket := some socket
    t.sockets := (x.begun env caller).t.sockets + 1
    t.log := (x.begun env caller).t.log ++
      [.conn (x.begun env caller).c.id (.connected socket (x.begun env caller).c.readBuf.pos)] }
  show WireAt .sending next.recordConnectionOpen
  have grown : next.recordConnectionOpen.history = x.history ++
      [.connectAndSend caller, .connected socket x.c.readBuf.pos, .connectionOpen] := by
    simp [next, Ctx.history]
  have wires : wire next.recordConnectionOpen.history = wire x.history := by
    rw [grown, wire_append]
    rfl
  have opened : Opened next.recordConnectionOpen.history socket := by
    rw [grown]
    exact ⟨x.c.readBuf.pos, by simp⟩
  have unused := before.unopened socket new
  refine ⟨?_, fun other _ => ?_, fun other unopened => ?_, fun other bytes member => ?_, socket, ?_,
    opened, ?_, ?_, ?_⟩
  · simpa [next] using before.text
  · rw [wires]
    exact sound other
  · rw [wires]
    refine before.unopened other fun earlier => unopened ?_
    rw [grown]
    exact earlier.mono
  · rw [grown, List.mem_append] at member
    rcases member with old | new
    · obtain ⟨s, same, earlier⟩ := before.wrote other bytes old
      refine ⟨s, same, ?_⟩
      rw [grown]
      exact earlier.mono
    · simp at new
  · simp [next]
  · rw [wires, unused]
    exact ⟨rfl, rfl⟩
  · rw [wires, unused]
  · rw [wires, unused]
    exact fun used => absurd rfl used

/-- **Every move keeps the wire discipline.** -/
theorem WireAt.move (before : WireAt p x) (numbered : Numbered x.t)
    (move : Move cfg midRequest (p, x) (q, y)) : WireAt q y := by
  cases move with
  | start x env =>
    exact before.aside [.getNext (getNext cfg.urls cfg.some_url env.rand)] (by simp)
      (by simp [Ctx.history]) (by simp [Event.silent]) before.text fun isOpen => by cases isOpen
  | fire x =>
    refine before.aside [] (by simp) (by simp [Ctx.history]) (by simp) before.text
      fun isOpen => ?_
    obtain ⟨used, ready⟩ := before.inUse isOpen
    exact ⟨used, ready.kept [] (by simp [Ctx.history]) (by simp) rfl rfl⟩
  | reuse x env caller isOpen =>
    have grown : (x.begun env caller).history = x.history ++ [.connectAndSend caller] := by
      simp [Ctx.history]
    obtain ⟨used, ready⟩ := before.inUse isOpen
    exact before.aside _ (by simp) grown (by simp [Event.silent]) before.text
      ⟨used, ready.kept _ grown (by simp [Event.silent]) rfl rfl⟩
  | connect x y env caller isClosed connected => exact before.connect numbered env connected
  | refuse x env caller isClosed =>
    refine before.aside [.connectAndSend caller, .socketError] (by simp)
      (by simp [Ctx.history]) (by simp [Event.silent]) (by simpa using before.text) fun isOpen => ?_
    simp [isClosed] at isOpen
  | send x env => exact before.send env
  | write x wrote => exact before.write wrote
  | written x env all => exact before.written env all
  | writeFailed x env allowed =>
    have remains : x.c.Remains := by
      simpa [ConnectionState.Remains] using allowed (by decide)
    exact before.quiet [.writeDone (-1), .socketError] (by simp [Ctx.history])
      (by simp [Event.silent]) (by simpa using before.text)
      (fun socket _ => before.sound_of_remains remains socket) fun closes => by cases closes
  | misparse x data | parse x data =>
    obtain ⟨used, sent⟩ := before.inUse
    exact before.aside [.execute x.c.socket ((x.fillBuf data).map ReadByte.source)]
      (by simp) (by simp [Ctx.history]) (by simp [Event.silent]) before.text
      ⟨used, sent.kept [.execute x.c.socket ((x.fillBuf data).map ReadByte.source)]
        (by simp [Ctx.history]) (by simp [Event.silent]) rfl⟩
  | readFailed x env err isError =>
    exact before.aside [.readDone err, .socketError] (by simp) (by simp [Ctx.history])
      (by simp [Event.silent, isError]) (by simpa using before.text) fun closes => by cases closes
  | leave x env complete =>
    exact before.answered [.result x.c.parser.statusCode (env.endTime - x.c.startTime)]
      (by simp [Event.silent]) (by simp [Ctx.history]) (by simp) (by simp) (by simp)
      (by simpa using complete) true
  | change x env complete =>
    exact before.answered [.result x.c.parser.statusCode (env.endTime - x.c.startTime),
        .getNext (getNext cfg.urls cfg.some_url env.rand)]
      (by simp [Event.silent]) (by simp [Ctx.history]) (by simp) (by simp) (by simp)
      (by simpa using complete) true
  | stay x env complete =>
    exact before.answered [.result x.c.parser.statusCode (env.endTime - x.c.startTime),
        .getNext (getNext cfg.urls cfg.some_url env.rand)]
      (by simp [Event.silent]) (by simp [Ctx.history])
      (fun clean => (Bool.or_eq_false_iff.mp clean).1) (by simp) (by simp)
      (by simpa using complete) false
  | shut x closeConn =>
    exact before.aside [] (by simp) (by simp [Ctx.history]) (by simp) before.text rfl
  | await x closeConn asked =>
    exact before.aside [] (by simp) (by simp [Ctx.history]) (by simp)
      (by simpa using before.text) (by simp [InUse])
  | pause x closeConn keeps | next x closeConn keeps =>
    refine before.aside [] (by simp) (by simp [Ctx.history]) (by simp) before.text
      fun _ => ?_
    obtain ⟨used, ready⟩ := before.inUse (by simp_all)
    exact ⟨used, ready.kept [] (by simp [Ctx.history]) (by simp) rfl rfl⟩
  | shutdown x =>
    refine before.aside [] (by simp) (by simp [Ctx.history]) (by simp)
      (by simpa using before.text) ?_
    simpa [InUse] using before.inUse
  | finish x =>
    exact before.aside [.closeDone] (by simp) (by simp [Ctx.history])
      (by simp [Event.silent]) before.text trivial
  | rest x | reopen x =>
    exact before.aside [] (by simp) (by simp [Ctx.history]) (by simp)
      (by simpa using before.text) fun isOpen => absurd (before.inUse.symm.trans isOpen) (by decide)
  | turn p x asked phase =>
    have grown : (x.turned p.home asked).history = x.history := by simp [Ctx.history]
    have sound : ∀ socket, (p = .writing → (x.turned p.home asked).c.socket ≠ some socket) →
        ((wire x.history).line socket).Sound := by
      simpa using before.sound
    refine before.quiet [] (by rw [grown, List.append_nil]) (by simp) (by simpa using before.text) sound ?_
    rcases phase with rfl | rfl | rfl
    · obtain ⟨used, sending⟩ := before.inUse
      exact ⟨used, sending.kept [] (by rw [grown, List.append_nil]) (by simp) (by simp)
        (by simp) (by simp) (by simp)⟩
    · obtain ⟨used, sent⟩ := before.inUse
      exact ⟨used, sent.kept [] (by rw [grown, List.append_nil]) (by simp) (by simp)⟩
    · simpa [InUse] using before.inUse

end Moves

/-! ### Over runs -/

/-- The wire discipline as an invariant. -/
def wires (cfg : Config) : Invariant cfg midRequest where
  thread := Numbered
  conn := WireAt
  move := fun move _ numbered before => ⟨numbered.move move, before.move numbered move⟩
  elsewhere := by
    intro p t t' c settled before away
    have same : (Ctx.mk t' c).history = (Ctx.mk t c).history ++ [] := by
      rw [List.append_nil]
      exact away.history
    refine before.quiet _ same (by simp) before.text before.sound ?_
    have inUse := before.inUse
    cases p with
    | writing =>
      obtain ⟨used, sending⟩ := inUse
      exact ⟨used, sending.kept _ same (by simp) rfl rfl rfl rfl⟩
    | reading =>
      obtain ⟨used, sent⟩ := inUse
      exact ⟨used, sent.kept _ same (by simp) rfl⟩
    | thinking =>
      intro isOpen
      obtain ⟨used, ready⟩ := inUse isOpen
      exact ⟨used, ready.kept _ same (by simp) rfl rfl⟩
    | closing => exact inUse
    | finished => trivial
    | _ => cases settled
  born := by
    intro x _ silent _ new
    refine ⟨fun clean => ?_, fun socket _ => ?_, fun socket _ => ?_, fun socket bytes member => ?_, trivial⟩
    · rw [new] at clean
      cases clean
    · rw [silent]
      exact ⟨.inl ⟨rfl, rfl⟩, rfl⟩
    · rw [silent]
      rfl
    · rw [silent] at member
      cases member
  removed := by
    intro p x settled _ before _
    have grown := removed_history x
    have silent : ∀ event ∈ [Event.stopRunning], event.silent = true := by simp [Event.silent]
    refine before.quiet _ grown silent before.text before.sound ?_
    have inUse := before.inUse
    cases p with
    | writing =>
      obtain ⟨used, sending⟩ := inUse
      exact ⟨used, sending.kept _ grown silent rfl rfl rfl rfl⟩
    | reading =>
      obtain ⟨used, sent⟩ := inUse
      exact ⟨used, sent.kept _ grown silent rfl⟩
    | thinking =>
      intro isOpen
      obtain ⟨used, ready⟩ := inUse isOpen
      exact ⟨used, ready.kept _ grown silent rfl rfl⟩
    | closing => exact inUse
    | finished => trivial
    | _ => cases settled
  threadMove := fun move numbered => numbered.threadMove move

/-- The steps that a run can take fail no write phase that is at its end. -/
theorem wires_permit {cfg : Config} {s next : System} (holds : (wires cfg).Holds s)
    (everywhere : (remains cfg).Everywhere s) (input : System.Input)
    (taken : s.step cfg input = some next) : midRequest.permits cfg s input := by
  cases input with
  | write id outs env =>
    intro c found y err unused done isError
    obtain ⟨c', found', called⟩ := Option.bind_eq_some_iff.mp taken
    obtain rfl := Option.some.inj (found.symm.trans found')
    obtain ⟨_, called, _⟩ := Option.map_eq_some_iff.mp called
    obtain ⟨_, p, settled, now, before⟩ := holds.conns id c found
    have point : (s.ctx c).c.point = p := now.point_eq settled
    simp only [System.callback] at called
    split at called
    · next enabled =>
      rw [Bool.and_eq_true, beq_iff_eq] at enabled
      rw [ConnectionState.point, if_pos enabled.1, enabled.2] at point
      subst point
      obtain ⟨_, sending⟩ := before.inUse
      have left : c.Remains := everywhere id c found enabled.1 enabled.2 sending.text
      have advances := drain_advances (s.ctx c) outs
      rw [done] at advances
      exact (advances isError).remains left
    · cases called
  | read | shutdown | timer => simp [Gate.permits, Gate.permitsCallback, midRequest]
  | async envs => exact Gate.permits_commands (fun _ => trivial) cfg envs _ _
  | command | hardShutdown => trivial

/-- The wire discipline of a connection: what its sockets accepted, whose they are, and what is known
while it writes and reads. -/
structure WireDiscipline (cfg : Config) (t : IOThread) (c : ConnectionState) : Prop where
  sound : ∀ socket, ((wire (history c.id t.log)).line socket).Sound
  wrote : ∀ socket bytes, Event.wrote socket bytes ∈ history c.id t.log →
    ∃ s, socket = some s ∧ Opened (history c.id t.log) s
  owned : ∀ socket other, Opened (history c.id t.log) socket → Opened (history other t.log) socket →
    other = c.id
  sending : c.point = .writing → ∃ socket, c.socket = some socket ∧
    ((wire (history c.id t.log)).line socket).Partway c.fullWrite (c.fullWrite.take c.fullWritePos) ∧
    (1 < ((wire (history c.id t.log)).line socket).requests.length → c.readDone = true)
  reading : c.point = .reading → c.readDone = false
  remains : c.point = .writing → ∀ env outs y,
    (Ctx.mk t c).writeReady cfg env outs = .going y → y.c.Remains

/-- **The wire discipline holds in every state of every run.** -/
theorem wire_discipline (cfg : Config) (s : System)
    (reached : System.Reachable cfg Transition.anyStep s) (id : Nat) (c : ConnectionState)
    (found : s.heap[id]? = some c) : WireDiscipline cfg s.t c := by
  obtain ⟨holds, everywhere⟩ := (remains cfg).reachable_with (wires cfg) (fun _ => rfl) trivial
    (fun _ input _ holds everywhere taken => wires_permit holds everywhere input taken) reached
  obtain ⟨_, p, settled, now, before⟩ := holds.conns id c found
  have point := now.point_eq settled
  have left : p = .writing → c.Remains := by
    rintro rfl
    obtain ⟨_, sending⟩ := before.inUse
    exact everywhere id c found now.active (by rw [now.io]) sending.text
  constructor
  · intro socket
    by_cases writing : p = .writing
    · subst writing
      exact before.sound_of_remains (left rfl) socket
    · exact before.all_sound writing socket
  · exact before.wrote
  · rintro socket other ⟨_, member⟩ ⟨_, member'⟩
    exact Numbered.owned holds.thread (mem_history.mp member') (mem_history.mp member)
  · intro writing
    obtain rfl := point.symm.trans writing
    obtain ⟨used, sending⟩ := before.inUse
    exact ⟨used, sending.current, sending.partway, sending.read⟩
  · intro reading
    obtain rfl := point.symm.trans reading
    have waiting := reading_waits cfg s reached id c found now.active (by rw [now.io])
    exact (Parse.response_eq_none.mp waiting).2
  · intro writing env outs y going
    obtain rfl := point.symm.trans writing
    rw [writeReady_eq] at going
    have advances := drain_advances ⟨s.t, c⟩ outs
    cases drained : drain tryWrite ⟨s.t, c⟩ outs with
    | going z =>
      rw [drained] at going advances
      cases going
      exact advances.remains (left rfl)
    | _ =>
      rw [drained] at going
      cases going

theorem wire_discipline_example : ∃ s c,
    System.after System.oneConnection [.write 0 [.ok (.ok 10), .ok .needRead] {}] = some s ∧
      s.heap[0]? = some c ∧ WireDiscipline System.oneConnection s.t c :=
  have ⟨s, c, ran, found⟩ := System.exists_after (by decide +kernel)
  ⟨s, c, ran, found, wire_discipline _ s (System.reachable_any ran) 0 c found⟩

end Apib
