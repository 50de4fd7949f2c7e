/-
**Unparsed bytes and the socket they came from.**

Bytes that the parser leaves unread stay in the read buffer for the next response on the same
connection. Nothing clears them when the socket is replaced:

* `carry_crosses`: after an upgrade response with more bytes behind it and `Connection: close`, the
  next socket starts with those bytes in its buffer;
* `carry_sound`: in every run where a connection that goes on closes its socket only with no unparsed
  bytes, every successful `Connect` finds the buffer empty, and every byte handed to the parser was
  read from the current socket.
-/

import Apib.Lifecycle.Invariant

namespace Apib

/-- Each socket starts with an empty buffer, and the parser is given only bytes of the current
socket. -/
structure CarrySound (calls : List Event) : Prop where
  empty : ∀ socket readBufPos, Event.connected socket readBufPos ∈ calls → readBufPos = 0
  own : ∀ socket sources, Event.execute socket sources ∈ calls →
    ∃ s, socket = some s ∧ ∀ source ∈ sources, source = some s.id

/-- Has this call opened a socket with bytes already in the buffer? -/
def Event.isCarryOver : Event → Bool
  | .connected _ readBufPos => readBufPos != 0
  | _ => false

theorem CarrySound.none_over {calls : List Event} (sound : CarrySound calls) :
    calls.any Event.isCarryOver = false := by
  rw [List.any_eq_false]
  intro event member carries
  unfold Event.isCarryOver at carries
  split at carries
  · next socket readBufPos =>
    rw [sound.empty socket readBufPos member] at carries
    cases carries
  · cases carries

/-- Will `CloseDone` go on with this connection, as things are? -/
def Ctx.goesOn (x : Ctx) : Bool := x.c.keepRunning && x.t.shouldKeepRunning

/-- A connection that goes on closes its socket only with no unparsed bytes. -/
def closesEmpty (cfg : Config) : Gate where
  writeDone := fun _ err x => err ≠ 0 → x.goesOn = true → x.c.readBuf.bytes = []
  readDone := fun env err x =>
    x.willClose cfg env err = true → x.goesOn = true → x.c.readBuf.bytes = []

/-! ### At each point -/

/-- The buffer holds only bytes of the current socket. -/
def OwnBytes (x : Ctx) : Prop :=
  ∃ s, x.c.socket = some s ∧ ∀ b ∈ x.c.readBuf.bytes, b.source = some s.id

/-- The buffer is empty, or the connection will not go on. -/
def EmptyOrOver (x : Ctx) : Prop := x.goesOn = true → x.c.readBuf.bytes = []

/-- What is known of the buffer at a point. -/
def BufferAt (cfg : Config) : Point → Ctx → Prop
  | .sending, x | .writing, x | .reading, x => OwnBytes x
  | .recycling closeConn, x =>
    if closeConn || cfg.noKeepAlive || !x.t.shouldKeepRunning then EmptyOrOver x else OwnBytes x
  | .closing, x | .closed, x => x.c.needsOpen = true ∧ EmptyOrOver x
  | .thinking, x | .attempting _, x =>
    if x.c.needsOpen then x.c.readBuf.bytes = [] else OwnBytes x
  | .born, x => x.c.readBuf.bytes = []
  | .finished, _ => True

section Moves

variable {cfg : Config} {p q : Point} {x y : Ctx}

/-- The bytes of the buffer after a read are the socket's, if those before it were. -/
theorem OwnBytes.fillBuf (own : OwnBytes x) (data : Bytes) :
    ∃ s, x.c.socket = some s ∧ ∀ b ∈ x.fillBuf data, b.source = some s.id := by
  obtain ⟨s, socket, old⟩ := own
  refine ⟨s, socket, fun b member => ?_⟩
  rcases List.mem_append.mp member with before | new
  · exact old b before
  · obtain ⟨byte, _, rfl⟩ := List.mem_map.mp new
    simp [socket]

theorem BufferAt.move (before : BufferAt cfg p x) (move : Move cfg (closesEmpty cfg) (p, x) (q, y)) :
    BufferAt cfg q y := by
  cases move with
  | start => simpa [BufferAt] using before
  | fire => simpa [BufferAt, OwnBytes] using before
  | reuse x env caller isOpen => simpa [BufferAt, OwnBytes, isOpen] using before
  | refuse x env caller isClosed => simpa [BufferAt, isClosed] using before
  | connect x y env caller isClosed connected =>
    rw [Ctx.connect_eq_ok connected]
    have empty : x.c.readBuf.bytes = [] := by simpa [BufferAt, isClosed] using before
    exact ⟨(x.begun env caller).opened cfg, by simp, fun b member => by simp [empty] at member⟩
  | send | write | written | misparse => simpa [BufferAt, OwnBytes] using before
  | parse x data clean =>
    obtain ⟨s, socket, own⟩ := OwnBytes.fillBuf before data
    exact ⟨s, socket, fun b member => own b (List.mem_of_mem_drop member)⟩
  | writeFailed x env allowed =>
    have empty : EmptyOrOver x.ioStop := allowed (by decide)
    simpa [BufferAt, EmptyOrOver, Ctx.goesOn, IOThread.shouldKeepRunning] using empty
  | readFailed x env err isError allowed =>
    have empty : EmptyOrOver x.ioStop := allowed (by simp [Ctx.willClose, isError])
    simpa [BufferAt, EmptyOrOver, Ctx.goesOn, IOThread.shouldKeepRunning] using empty
  | leave x env complete leaves allowed =>
    have empty : EmptyOrOver x.ioStop := allowed (by simp [Ctx.willClose, leaves])
    simpa [BufferAt, EmptyOrOver, Ctx.goesOn, IOThread.shouldKeepRunning] using empty
  | change x env complete keeps other allowed =>
    have empty : EmptyOrOver x.ioStop := allowed (by simp [Ctx.willClose, other])
    simpa [BufferAt, EmptyOrOver, Ctx.goesOn, IOThread.shouldKeepRunning] using empty
  | stay x env complete keeps same allowed =>
    simp only [BufferAt]
    split
    · next closes =>
      have empty : EmptyOrOver x.ioStop := allowed (by
        simp [IOThread.shouldKeepRunning] at closes
        rcases closes with noKeepAlive | stops
        · simp [Ctx.willClose, noKeepAlive]
        · simp [Ctx.willClose, IOThread.shouldKeepRunning, stops])
      simpa [EmptyOrOver, Ctx.goesOn, IOThread.shouldKeepRunning] using empty
    · simpa [BufferAt, OwnBytes] using before
  | shut x closeConn closes =>
    simp only [BufferAt] at before
    rw [if_pos closes] at before
    exact ⟨rfl, before⟩
  | await x closeConn asked closes =>
    simp only [BufferAt] at before
    rw [if_pos closes] at before
    simpa [BufferAt, EmptyOrOver, Ctx.goesOn, IOThread.shouldKeepRunning] using before
  | pause x closeConn keeps | next x closeConn keeps =>
    simp only [BufferAt] at before
    rw [if_neg (by simp [keeps])] at before
    simpa [BufferAt, OwnBytes] using before
  | shutdown =>
    simpa [BufferAt, EmptyOrOver, Ctx.goesOn, IOThread.shouldKeepRunning] using before
  | finish => trivial
  | rest x goesOn | reopen x goesOn =>
    have empty : x.c.readBuf.bytes = [] := before.2 (by simpa [Ctx.goesOn] using goesOn)
    simpa [BufferAt, before.1] using empty
  | turn p x asked phase =>
    rcases phase with rfl | rfl | rfl <;>
      simpa [BufferAt, OwnBytes, EmptyOrOver, Ctx.goesOn, IOThread.shouldKeepRunning] using before

/-- The calls of a move are sound, if the buffer was. -/
theorem CarrySound.move (before : CarrySound x.history) (buffer : BufferAt cfg p x)
    (move : Move cfg (closesEmpty cfg) (p, x) (q, y)) : CarrySound y.history := by
  cases move with
  | connect x y env caller isClosed connected =>
    have empty : x.c.readBuf.bytes = [] := by simpa [BufferAt, isClosed] using buffer
    rw [Ctx.connect_eq_ok connected]
    refine ⟨fun socket pos member => ?_, fun socket sources member => before.own socket sources ?_⟩
    · simp [Ctx.history] at member
      rcases member with old | ⟨_, rfl⟩
      · exact before.empty socket pos old
      · simp [ReadBuf.pos, empty]
    · simpa [Ctx.history] using member
  | misparse x data | parse x data =>
    obtain ⟨s, same, own⟩ := OwnBytes.fillBuf buffer data
    refine ⟨fun socket pos member => before.empty socket pos (by simpa [Ctx.history] using member),
      fun socket sources member => ?_⟩
    simp [Ctx.history] at member
    rcases member with old | ⟨rfl, rfl⟩
    · exact before.own socket sources old
    · refine ⟨s, same, fun source taken => ?_⟩
      obtain ⟨b, inside, rfl⟩ := List.mem_map.mp taken
      exact own b inside
  | _ =>
    exact ⟨fun socket pos member => before.empty socket pos (by simpa [Ctx.history] using member),
      fun socket sources member => before.own socket sources (by simpa [Ctx.history] using member)⟩

end Moves

/-! ### Over runs -/

/-- What happens elsewhere lets no connection go on that did not. -/
theorem goesOn_elsewhere {t t' : IOThread} {c : ConnectionState} (goesOn : (Ctx.mk t' c).goesOn = true)
    (away : Elsewhere c.id t t') : (Ctx.mk t c).goesOn = true := by
  simp only [Ctx.goesOn, Bool.and_eq_true] at goesOn ⊢
  refine ⟨goesOn.1, ?_⟩
  rcases away.running with ⟨same, _⟩ | ⟨zero, _⟩
  · simpa only [IOThread.shouldKeepRunning, same] using goesOn.2
  · simp [IOThread.shouldKeepRunning, zero] at goesOn

theorem EmptyOrOver.elsewhere {t t' : IOThread} {c : ConnectionState} (empty : EmptyOrOver ⟨t, c⟩)
    (away : Elsewhere c.id t t') : EmptyOrOver ⟨t', c⟩ :=
  fun goesOn => empty (goesOn_elsewhere goesOn away)

/-- The sound carry as an invariant. -/
def carry (cfg : Config) : Invariant cfg (closesEmpty cfg) where
  thread := fun _ => True
  conn := fun p x => BufferAt cfg p x ∧ CarrySound x.history
  move := fun move _ _ before => ⟨trivial, before.1.move move, before.2.move before.1 move⟩
  elsewhere := by
    intro p t t' c settled before away
    have same : (Ctx.mk t' c).history = (Ctx.mk t c).history := away.history
    rw [same]
    refine ⟨?_, before.2⟩
    have buffer := before.1
    cases p with
    | recycling => cases settled
    | closing | closed => exact ⟨buffer.1, EmptyOrOver.elsewhere buffer.2 away⟩
    | _ => exact buffer
  born := by
    intro x _ silent _ fresh
    rw [silent]
    refine ⟨?_, fun _ _ member => (nomatch member), fun _ _ member => (nomatch member)⟩
    simp only [BufferAt]
    rw [fresh]
    rfl
  removed := by
    intro p x settled _ before _
    rw [removed_history]
    refine ⟨?_, fun socket pos member => before.2.empty socket pos (by simpa using member),
      fun socket sources member => before.2.own socket sources (by simpa using member)⟩
    have buffer := before.1
    cases p with
    | recycling => cases settled
    | closing | closed => exact ⟨buffer.1, fun goesOn => absurd goesOn (by simp [Ctx.goesOn, Ctx.removed])⟩
    | _ => exact buffer
  threadMove := fun _ _ => trivial

end Apib
