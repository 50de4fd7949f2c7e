/-
**Invariants of a running thread.**

An `Invariant` is a property of the thread and a property of each connection at its point, kept by
every move of the connection, by what happens elsewhere, and by the commands. It then holds in every
state that a run can reach, for every connection ever made:

* `Move.calls`: the calls that a move adds to the log, all of its own connection; `Move.frame`: what no
  move changes;
* `Invariant.reachable`: **the rule**, for runs whose steps the gate permits.

The rule also gives what every run keeps: a connection's `id` is its place, exactly the watchers of
its point are active (`At`), and a connection has calls in the log only once it exists.
-/

import Apib.Lifecycle.Paths

namespace Apib

open Ctx

/-! ### The history of a connection -/

/-- The calls of connection `id`, in order. -/
def history (id : Nat) (log : List Entry) : List Event :=
  log.filterMap fun
    | .conn other event => if other = id then some event else none
    | _ => none

section History

variable {id other : Nat} {log : List Entry}

@[simp] theorem history_append (more : List Entry) :
    history id (log ++ more) = history id log ++ history id more :=
  List.filterMap_append

@[simp] theorem history_nil : history id [] = [] := rfl

@[simp] theorem history_conn (event : Event) :
    history id (.conn id event :: log) = event :: history id log := by
  simp [history]

@[simp] theorem history_stop : history id (.stop :: log) = history id log := rfl

@[simp] theorem history_setConnections (count : Nat) :
    history id (.setConnections count :: log) = history id log := rfl

theorem history_elsewhere (different : other ≠ id) (events : List Event) :
    history id (log ++ events.map (.conn other)) = history id log := by
  rw [history_append]
  have none_here : history id (events.map (.conn other)) = [] := by
    simp [history, different]
  rw [none_here, List.append_nil]

theorem mem_history {event : Event} : event ∈ history id log ↔ Entry.conn id event ∈ log := by
  rw [history, List.mem_filterMap]
  constructor
  · rintro ⟨entry, member, named⟩
    cases entry with
    | conn owner called =>
      simp only [Option.ite_none_right_eq_some, Option.some.injEq] at named
      obtain ⟨rfl, rfl⟩ := named
      exact member
    | _ => cases named
  · exact fun member => ⟨_, member, by simp⟩

theorem history_eq_nil (absent : ∀ event, Entry.conn id event ∉ log) : history id log = [] :=
  List.eq_nil_iff_forall_not_mem.mpr fun event member => absent event (mem_history.mp member)

end History

/-- The calls of the connection of a context. -/
def Ctx.history (x : Ctx) : List Event := Apib.history x.c.id x.t.log

theorem history_self (id : Nat) (log : List Entry) (events : List Event) :
    history id (log ++ events.map (.conn id)) = history id log ++ events := by
  rw [history_append]
  congr 1
  induction events with
  | nil => rfl
  | cons event rest ih => rw [List.map_cons, history_conn, ih]

/-! ### The moves as updates -/

attribute [simp] note ioInit ask sendAfterDelay recordResult recordRead recordWrite sendWrite
  awaitShutdown sendRead begun accepted parsed answered drawn ioStop_eq ioStart_eq ioTurn_eq
  recordSocketError_eq recordConnectionOpen_eq writeRequest_eq

/-- `WriteDone(0)`. -/
@[simp] theorem writeDone_zero (cfg : Config) (env : Env) (x : Ctx) : x.writeDone cfg env 0 =
    { x.note (.writeDone 0) with c.readDone := false, c.parser := HttpParser.init }.sendRead := rfl

/-- Turning the watcher around touches nothing but the watcher. -/
@[simp] theorem turned_eq (home asked : Direction) (x : Ctx) : x.turned home asked =
    { x with
      c.asked := asked
      c.backwardsIo := decide (asked ≠ home)
      c.io := if x.c.backwardsIo = decide (asked ≠ home) then x.c.io
        else { x.c.io with events := asked, active := true }
      t.activeCnt := if x.c.backwardsIo = decide (asked ≠ home) then x.t.activeCnt
        else x.t.activeCnt - refs x.c.io.active + 1 } := by
  unfold turned
  by_cases same : x.c.backwardsIo = decide (asked ≠ home)
  · have stays : (x.ask asked).c.backwardsIo = decide (asked ≠ home) := same
    dsimp only
    rw [if_neg (not_not_intro stays), if_pos same, if_pos same, ← same]
    rfl
  · have turns : (x.ask asked).c.backwardsIo ≠ decide (asked ≠ home) := same
    dsimp only
    rw [if_pos turns, if_neg same, if_neg same, ioTurn_eq]
    rfl

/-! ### The calls that go with a move -/

/-- The calls recorded on the way from one point to the next. -/
inductive Calls (needsOpen : Bool) : Point → Point → List Event → Prop
  | start (url : URLRef) : Calls needsOpen .born (.attempting .startConnect) [.getNext url]
  | reuse (caller : Caller) (isOpen : needsOpen = false) :
      Calls needsOpen (.attempting caller) .sending [.connectAndSend caller]
  | connect (caller : Caller) (socket : Socket) (readBufPos : Nat) :
      Calls needsOpen (.attempting caller) .sending
        [.connectAndSend caller, .connected socket readBufPos, .connectionOpen]
  | refuse (caller : Caller) :
      Calls needsOpen (.attempting caller) .thinking [.connectAndSend caller, .socketError]
  | send (url : URLRef) (authHdr bytes : Bytes) (socket : Option Socket) :
      Calls needsOpen .sending .writing [.request url authHdr bytes, .sendWrite url socket]
  | write (socket : Option Socket) (bytes : Bytes) :
      Calls needsOpen .writing .writing [.wrote socket bytes]
  | written : Calls needsOpen .writing .reading [.writeDone 0]
  | writeFailed : Calls needsOpen .writing (.recycling true) [.writeDone (-1), .socketError]
  | parse (socket : Option Socket) (sources : List (Option Nat)) :
      Calls needsOpen .reading .reading [.execute socket sources]
  | readFailed (err : Int) (isError : err ≠ 0) :
      Calls needsOpen .reading (.recycling true) [.readDone err, .socketError]
  | leave (statusCode : Nat) (latency : Int) :
      Calls needsOpen .reading (.recycling true) [.readDone 0, .result statusCode latency]
  | next (closeConn : Bool) (statusCode : Nat) (latency : Int) (url : URLRef) :
      Calls needsOpen .reading (.recycling closeConn)
        [.readDone 0, .result statusCode latency, .getNext url]
  | finish : Calls needsOpen .closed .finished [.closeDone]
  | fire : Calls needsOpen .thinking (.attempting .thinkingDone) []
  | recycle (closeConn : Bool) (q : Point)
      (goesTo : q = .closed ∨ q = .closing ∨ q = .thinking ∨ q = .attempting .recycle) :
      Calls needsOpen (.recycling closeConn) q []
  | shutdown : Calls needsOpen .closing .closed []
  | goOn (q : Point) (goesTo : q = .thinking ∨ q = .attempting .closeDone) :
      Calls needsOpen .closed q []
  | turn (p : Point) (phase : p = .writing ∨ p = .reading ∨ p = .closing) : Calls needsOpen p p []

section Calls

variable {cfg : Config} {gate : Gate} {p q : Point} {x y : Ctx}

/-- **A move adds its calls to the log**, as calls of its own connection. -/
theorem Move.calls (move : Move cfg gate (p, x) (q, y)) :
    ∃ events, Calls x.c.needsOpen p q events ∧ y.t.log = x.t.log ++ events.map (.conn x.c.id) := by
  cases move with
  | start => exact ⟨_, .start _, rfl⟩
  | fire => exact ⟨_, .fire, by simp⟩
  | reuse x env caller isOpen => exact ⟨_, .reuse caller isOpen, rfl⟩
  | connect x y env caller isClosed connected =>
    rw [connect_eq_ok connected]
    exact ⟨_, .connect caller ((x.begun env caller).opened cfg) x.c.readBuf.pos, by simp⟩
  | refuse x env caller => exact ⟨_, .refuse caller, by simp⟩
  | send x env =>
    exact ⟨_, .send x.c.url env.authHdr (x.writeRequest cfg env).c.fullWrite x.c.socket, by simp⟩
  | write => exact ⟨_, .write _ _, rfl⟩
  | written => exact ⟨_, .written, by simp⟩
  | writeFailed => exact ⟨_, .writeFailed, by simp⟩
  | misparse | parse => exact ⟨_, .parse _ _, rfl⟩
  | readFailed x env err isError => exact ⟨_, .readFailed err isError, by simp⟩
  | leave x env =>
    exact ⟨_, .leave x.c.parser.statusCode (env.endTime - x.c.startTime), by simp⟩
  | change x env | stay x env =>
    exact ⟨_, .next _ x.c.parser.statusCode (env.endTime - x.c.startTime)
      (getNext cfg.urls cfg.some_url env.rand), by simp⟩
  | shut => exact ⟨_, .recycle _ _ (.inl rfl), by simp⟩
  | await => exact ⟨_, .recycle _ _ (.inr (.inl rfl)), by simp⟩
  | pause => exact ⟨_, .recycle _ _ (.inr (.inr (.inl rfl))), by simp⟩
  | next => exact ⟨_, .recycle _ _ (.inr (.inr (.inr rfl))), by simp⟩
  | shutdown => exact ⟨_, .shutdown, by simp⟩
  | finish => exact ⟨_, .finish, rfl⟩
  | rest => exact ⟨_, .goOn _ (.inl rfl), by simp⟩
  | reopen => exact ⟨_, .goOn _ (.inr rfl), by simp⟩
  | turn p x asked phase => exact ⟨_, .turn p phase, by simp⟩

/-- Does this call start a request? -/
def Event.begins : Event → Bool
  | .connectAndSend _ | .connected .. | .request .. | .sendWrite .. => true
  | _ => false

/-- Is this a point on the way to the start of a request? -/
def Point.starting : Point → Bool
  | .attempting _ | .sending => true
  | _ => false

/-- Requests are started on the way from these points only. -/
theorem Calls.starting {needsOpen : Bool} {events : List Event} (calls : Calls needsOpen p q events)
    {event : Event} (member : event ∈ events) (begins : event.begins = true) : p.starting = true := by
  cases calls with
  | reuse | connect | refuse | send => rfl
  | _ => simp at member <;> rcases member with rfl | rfl | rfl <;> cases begins

end Calls

/-! ### What moves leave alone -/

/-- What no move of a connection changes. -/
structure Frame (x y : Ctx) : Prop where
  id : y.c.id = x.c.id
  index : y.c.index = x.c.index
  keep : y.c.keepRunning = x.c.keepRunning
  keepRunning : y.t.keepRunning = x.t.keepRunning
  stopped : y.t.stopped = x.t.stopped
  connections : y.t.connections = x.t.connections
  commands : y.t.commands = x.t.commands
  log : ∃ events : List Event, y.t.log = x.t.log ++ events.map (.conn x.c.id)

section Frame

variable {cfg : Config} {gate : Gate} {p q : Point} {x y z : Ctx}

theorem Frame.refl : Frame x x := ⟨rfl, rfl, rfl, rfl, rfl, rfl, rfl, [], by simp⟩

theorem Frame.trans (first : Frame x y) (second : Frame y z) : Frame x z := by
  obtain ⟨events, log⟩ := first.log
  obtain ⟨more, log'⟩ := second.log
  refine ⟨second.id.trans first.id, second.index.trans first.index, second.keep.trans first.keep,
    second.keepRunning.trans first.keepRunning, second.stopped.trans first.stopped,
    second.connections.trans first.connections, second.commands.trans first.commands,
    events ++ more, ?_⟩
  rw [log', log, first.id, List.map_append, List.append_assoc]

/-- **A move changes no setting and adds only calls of its own connection to the log.** -/
theorem Move.frame (move : Move cfg gate (p, x) (q, y)) : Frame x y := by
  obtain ⟨events, _, log⟩ := move.calls
  suffices same : y.c.id = x.c.id ∧ y.c.index = x.c.index ∧ y.c.keepRunning = x.c.keepRunning ∧
      y.t.keepRunning = x.t.keepRunning ∧ y.t.stopped = x.t.stopped ∧
      y.t.connections = x.t.connections ∧ y.t.commands = x.t.commands from
    ⟨same.1, same.2.1, same.2.2.1, same.2.2.2.1, same.2.2.2.2.1, same.2.2.2.2.2.1,
      same.2.2.2.2.2.2, events, log⟩
  cases move with
  | connect x y env caller isClosed connected =>
    rw [connect_eq_ok connected]
    simp
  | _ => simp

/-- The history of the connection grows by the calls of the move. -/
theorem Move.history (move : Move cfg gate (p, x) (q, y)) :
    ∃ events, Calls x.c.needsOpen p q events ∧ y.history = x.history ++ events := by
  obtain ⟨events, calls, log⟩ := move.calls
  exact ⟨events, calls, by rw [Ctx.history, move.frame.id, log, history_self]; rfl⟩

/-- A chain of moves changes no more than its moves. -/
theorem Leads.frame (leads : Leads cfg gate p x y) : Frame x y := by
  obtain ⟨_, _, moves⟩ := leads
  exact Transition.closure_invariant (P := fun node : Point × Ctx => Frame x node.2)
    (fun _ _ move before => before.trans move.frame) moves Frame.refl

end Frame

/-! ### What happens to the thread besides the moves -/

/-- What the loop and the commands do to the thread, apart from the moves of a connection. -/
inductive ThreadMove : IOThread → IOThread → Prop
  | stop (t : IOThread) :
      ThreadMove t { t with
        keepRunning := 0
        activeCnt := t.activeCnt - 1 + 1 - 1
        shutdownTimer := true
        stopped := true
        log := t.log ++ [.stop] }
  | setConnections (t : IOThread) (count : Nat) :
      ThreadMove t { t with log := t.log ++ [.setConnections count] }
  | add (t : IOThread) (id : Nat) : ThreadMove t { t with connections := t.connections ++ [id] }
  | remove (t : IOThread) (id : Nat) (last : t.connections.getLast? = some id) :
      ThreadMove t { t with
        connections := t.connections.dropLast
        log := t.log ++ [.conn id .stopRunning] }
  | take (t : IOThread) : ThreadMove t { t with commands := [] }
  | command (t : IOThread) (cmd : Command) :
      ThreadMove t { t with commands := t.commands ++ [cmd] }
  | hardShutdown (t : IOThread) :
      ThreadMove t { t with shutdownTimer := false, activeCnt := t.activeCnt - 1, broken := true }
  | ref (t : IOThread) : ThreadMove t { t with activeCnt := t.activeCnt + 1 }

/-- What a connection sees of what happens elsewhere: its history is the same, it is in the list as
before, and the thread is running as before or has been stopped. -/
structure Elsewhere (id : Nat) (t t' : IOThread) : Prop where
  history : history id t'.log = history id t.log
  listed : id ∈ t'.connections ↔ id ∈ t.connections
  running : t'.keepRunning = t.keepRunning ∧ t'.stopped = t.stopped ∨
    t'.keepRunning = 0 ∧ t'.stopped = true

section Elsewhere

variable {id : Nat} {x y : Ctx}

theorem Frame.elsewhere (frame : Frame x y) (different : x.c.id ≠ id) : Elsewhere id x.t y.t := by
  obtain ⟨events, log⟩ := frame.log
  exact ⟨by rw [log, history_elsewhere different], by rw [frame.connections],
    .inl ⟨frame.keepRunning, frame.stopped⟩⟩

end Elsewhere

/-- A connection that the thread removes. -/
def Ctx.removed (x : Ctx) : Ctx where
  t := { x.t with
    connections := x.t.connections.dropLast
    log := x.t.log ++ [.conn x.c.id .stopRunning] }
  c := { x.c with keepRunning := false }

@[simp] theorem removed_history (x : Ctx) : x.removed.history = x.history ++ [.stopRunning] := by
  simp [removed, Ctx.history]

/-! ### Invariants -/

/-- A property of the thread and a property of each connection at its point, which every move, the
other connections and the commands keep. -/
structure Invariant (cfg : Config) (gate : Gate) where
  thread : IOThread → Prop
  conn : Point → Ctx → Prop
  move : ∀ {p q x y}, Move cfg gate (p, x) (q, y) → At p x → thread x.t → conn p x →
    thread y.t ∧ conn q y
  elsewhere : ∀ {p t t' c}, p.settled = true → conn p ⟨t, c⟩ → Elsewhere c.id t t' → conn p ⟨t', c⟩
  born : ∀ {x}, thread x.t → x.history = [] → x.c.id ∈ x.t.connections →
    x.c = .new x.c.id x.c.index x.c.url → conn .born x
  removed : ∀ {p x}, p.settled = true → At p x → conn p x →
    x.c.id ∉ x.removed.t.connections → conn p x.removed
  threadMove : ∀ {t t'}, ThreadMove t t' → thread t → thread t'

namespace Invariant

variable {cfg : Config} {gate : Gate} (inv : Invariant cfg gate)

/-- The invariant holds of a context at a point. -/
structure HoldsAt (p : Point) (x : Ctx) : Prop where
  watchers : At p x
  thread : inv.thread x.t
  conn : inv.conn p x

/-- The invariant holds of a connection between callbacks. -/
structure HoldsOf (t : IOThread) (id : Nat) (c : ConnectionState) : Prop where
  id : c.id = id
  point : ∃ p, p.settled = true ∧ At p ⟨t, c⟩ ∧ inv.conn p ⟨t, c⟩

/-- The invariant holds of a system. -/
structure Holds (s : System) : Prop where
  thread : inv.thread s.t
  conns : ∀ id c, s.heap[id]? = some c → inv.HoldsOf s.t id c
  logged : ∀ id event, Entry.conn id event ∈ s.t.log → id < s.heap.length
  listed : ∀ id ∈ s.t.connections, id < s.heap.length
  once : s.t.connections.Nodup

section Rule

variable {inv} {p : Point} {x y : Ctx} {t t' : IOThread} {c : ConnectionState} {id : Nat} {s : System}

/-- A chain of moves keeps the invariant and the frame. -/
theorem HoldsAt.leads (holds : inv.HoldsAt p x) (leads : Leads cfg gate p x y) :
    ∃ q, q.settled = true ∧ inv.HoldsAt q y ∧ Frame x y := by
  have frame := leads.frame
  obtain ⟨q, settled, moves⟩ := leads
  refine ⟨q, settled, ?_, frame⟩
  exact Transition.closure_invariant (P := fun node : Point × Ctx => inv.HoldsAt node.1 node.2)
    (fun first last move before => by
      obtain ⟨watchers, thread, conn⟩ := before
      obtain ⟨thread', conn'⟩ := inv.move move watchers thread conn
      exact ⟨move.at_next watchers, thread', conn'⟩)
    moves holds

/-- The watchers of a connection do not depend on the thread. -/
theorem At.thread (now : At p ⟨t, c⟩) : At p ⟨t', c⟩ := by
  cases p with
  | writing | reading | closing => exact ⟨now.io, now.backwards, now.noTimer, now.goesOn⟩
  | thinking => exact ⟨now.noIo, now.timer, now.goesOn⟩
  | finished => exact ⟨now.noIo, now.noTimer, now.stopped⟩
  | _ => exact ⟨now.noIo, now.noTimer, now.goesOn⟩

theorem HoldsOf.elsewhere (holds : inv.HoldsOf t id c) (away : Elsewhere c.id t t') :
    inv.HoldsOf t' id c := by
  obtain ⟨same, p, settled, watchers, conn⟩ := holds
  exact ⟨same, p, settled, At.thread watchers, inv.elsewhere settled conn away⟩

/-- **A callback of one connection keeps the invariant of the system.** -/
theorem Holds.put (holds : inv.Holds s) (found : s.heap[id]? = some c)
    (leads : ∀ p, p.settled = true → At p (s.ctx c) → Leads cfg gate p (s.ctx c) y) :
    inv.Holds (s.put id y) := by
  obtain ⟨same, p, settled, watchers, conn⟩ := holds.conns id c found
  obtain ⟨q, settled', ⟨watchers', thread', conn'⟩, frame⟩ :=
    HoldsAt.leads ⟨watchers, holds.thread, conn⟩ (leads p settled watchers)
  have below : id < s.heap.length := (List.getElem?_eq_some_iff.mp found).1
  refine ⟨thread', ?_, ?_, ?_, by simpa [System.put, frame.connections] using holds.once⟩
  · intro other c' found'
    simp only [System.put] at found'
    by_cases mine : id = other
    · subst mine
      rw [List.getElem?_set_self below] at found'
      cases found'
      exact ⟨frame.id.trans same, q, settled', watchers', conn'⟩
    · rw [List.getElem?_set_ne mine] at found'
      have old := holds.conns other c' found'
      refine old.elsewhere (frame.elsewhere ?_)
      rw [old.id]
      exact fun equal => mine (same.symm.trans equal)
  · intro other event member
    obtain ⟨events, log⟩ := frame.log
    simp only [System.put] at member ⊢
    rw [log, List.mem_append, List.mem_map] at member
    rw [List.length_set]
    rcases member with old | ⟨event', _, equal⟩
    · exact holds.logged other event old
    · cases equal
      exact same ▸ below
  · intro other member
    simp only [System.put] at member ⊢
    rw [frame.connections] at member
    rw [List.length_set]
    exact holds.listed other member

/-- A change of the thread alone keeps the invariant. -/
theorem Holds.threadMove (holds : inv.Holds s) (move : ThreadMove s.t t')
    (away : ∀ id, Elsewhere id s.t t')
    (logged : ∀ id event, Entry.conn id event ∈ t'.log → Entry.conn id event ∈ s.t.log)
    (listed : t'.connections = s.t.connections) : inv.Holds ⟨t', s.heap⟩ :=
  ⟨inv.threadMove move holds.thread,
    fun id c found => (holds.conns id c found).elsewhere (away c.id),
    fun id event member => holds.logged id event (logged id event member),
    fun id member => holds.listed id (listed ▸ member), listed ▸ holds.once⟩

/-- Making a connection keeps the invariant, if the gate permits it to start. -/
theorem Holds.addConnection (holds : inv.Holds s) (env : Env) (allowed : gate.start s.t.stopped) :
    inv.Holds (s.addConnection cfg env) := by
  have listed := inv.threadMove (.add s.t s.heap.length) holds.thread
  have unlogged : history s.heap.length s.t.log = [] :=
    history_eq_nil fun event member => absurd (holds.logged _ _ member) (Nat.lt_irrefl _)
  have newborn : inv.HoldsAt .born ⟨{ s.t with connections := s.t.connections ++ [s.heap.length] },
      .new s.heap.length s.t.connections.length (getNext cfg.urls cfg.some_url env.rand)⟩ :=
    ⟨⟨rfl, rfl, rfl⟩, listed,
      inv.born listed unlogged (List.mem_append_right _ List.mem_cons_self) rfl⟩
  obtain ⟨q, settled, ⟨watchers, thread, conn⟩, frame⟩ :=
    newborn.leads (startConnect_leads env allowed)
  obtain ⟨events, log⟩ := frame.log
  have absent : s.heap.length ∉ s.t.connections := fun member => Nat.lt_irrefl _ (holds.listed _ member)
  refine ⟨thread, ?_, ?_, ?_, ?_⟩
  · intro id c found
    simp only [System.addConnection] at found ⊢
    rcases Nat.lt_trichotomy id s.heap.length with below | equal | above
    · rw [List.getElem?_append_left below] at found
      have old := holds.conns id c found
      have different : s.heap.length ≠ c.id := old.id ▸ (Nat.ne_of_lt below).symm
      have away := frame.elsewhere different
      refine old.elsewhere ⟨away.history, away.listed.trans ?_, away.running⟩
      simp [different.symm]
    · subst equal
      rw [List.getElem?_concat_length] at found
      cases found
      exact ⟨frame.id, q, settled, watchers, conn⟩
    · rw [List.getElem?_eq_none (by simp; omega)] at found
      cases found
  · intro id event member
    simp only [System.addConnection] at member ⊢
    rw [log, List.mem_append, List.mem_map] at member
    rw [List.length_append, List.length_singleton]
    rcases member with old | ⟨_, _, equal⟩
    · exact (holds.logged id event old).trans (Nat.lt_succ_self _)
    · cases equal
      exact Nat.lt_succ_self _
  · intro id member
    simp only [System.addConnection] at member ⊢
    rw [frame.connections, List.mem_append, List.mem_singleton] at member
    rw [List.length_append, List.length_singleton]
    rcases member with old | rfl
    · exact (holds.listed id old).trans (Nat.lt_succ_self _)
    · exact Nat.lt_succ_self _
  · simp only [System.addConnection]
    rw [frame.connections]
    exact List.nodup_append.mpr ⟨holds.once, by simp, fun a member b other => by
      rw [List.mem_singleton.mp other]
      exact fun same => absent (same ▸ member)⟩

/-- What the start of a connection leaves alone. -/
theorem addConnection_frame (cfg : Config) (env : Env) (s : System) : ∃ c,
    Frame ⟨{ s.t with connections := s.t.connections ++ [s.heap.length] },
        .new s.heap.length s.t.connections.length (getNext cfg.urls cfg.some_url env.rand)⟩
      ⟨(s.addConnection cfg env).t, c⟩ := by
  have leads : Leads cfg Gate.free .born
      ⟨{ s.t with connections := s.t.connections ++ [s.heap.length] },
        .new s.heap.length s.t.connections.length (getNext cfg.urls cfg.some_url env.rand)⟩
      (Ctx.startConnect cfg env ⟨{ s.t with connections := s.t.connections ++ [s.heap.length] },
        .new s.heap.length s.t.connections.length (getNext cfg.urls cfg.some_url env.rand)⟩) :=
    startConnect_leads env trivial
  exact ⟨_, leads.frame⟩

theorem Holds.addConnections (holds : inv.Holds s) (envs : Nat → Env) (count : Nat)
    (allowed : count ≠ 0 → gate.start s.t.stopped) : inv.Holds (s.addConnections cfg envs count) := by
  induction count generalizing s with
  | zero => exact holds
  | succ count ih =>
    refine ih (holds.addConnection _ (allowed (Nat.succ_ne_zero count))) fun _ => ?_
    obtain ⟨_, frame⟩ := addConnection_frame cfg (envs s.heap.length) s
    rw [frame.stopped]
    exact allowed (Nat.succ_ne_zero count)

/-- Removing a connection keeps the invariant. -/
theorem Holds.removeConnection (holds : inv.Holds s) : inv.Holds s.removeConnection := by
  unfold System.removeConnection
  split
  · exact holds
  · next id last =>
    have below := holds.listed id (List.mem_of_getLast? last)
    have split : s.t.connections = s.t.connections.dropLast ++ [id] := by
      rw [List.dropLast_append_getLast? id last]
    have gone : id ∉ s.t.connections.dropLast := by
      have once := holds.once
      rw [split] at once
      exact fun member => (List.nodup_append.mp once).2.2 id member id List.mem_cons_self rfl
    refine ⟨inv.threadMove (.remove s.t id last) holds.thread, ?_, ?_, ?_,
      holds.once.sublist (List.dropLast_sublist _)⟩
    · intro other c found
      by_cases mine : id = other
      · subst mine
        rw [List.getElem?_modify_eq, Option.map_eq_map, Option.map_eq_some_iff] at found
        obtain ⟨old, found, rfl⟩ := found
        obtain ⟨same, p, settled, watchers, conn⟩ := holds.conns id old found
        subst same
        refine ⟨rfl, p, settled, ?_, inv.removed settled watchers conn gone⟩
        cases p with
        | writing | reading | closing =>
          exact ⟨watchers.io, watchers.backwards, watchers.noTimer, watchers.goesOn⟩
        | thinking => exact ⟨watchers.noIo, watchers.timer, watchers.goesOn⟩
        | finished => exact ⟨watchers.noIo, watchers.noTimer, watchers.stopped⟩
        | _ => exact ⟨watchers.noIo, watchers.noTimer, watchers.goesOn⟩
      · rw [List.getElem?_modify_ne _ _ mine] at found
        have old := holds.conns other c found
        have different : id ≠ c.id := old.id ▸ mine
        refine old.elsewhere ⟨history_elsewhere different [.stopRunning], ?_, .inl ⟨rfl, rfl⟩⟩
        rw [split]
        simp [different.symm]
    · intro other event member
      rw [List.length_modify]
      rw [List.mem_append, List.mem_singleton] at member
      rcases member with old | equal
      · exact holds.logged other event old
      · cases equal
        exact below
    · intro other member
      rw [List.length_modify]
      exact holds.listed other (List.dropLast_subset _ member)

theorem Holds.removeConnections (holds : inv.Holds s) (count : Nat) :
    inv.Holds (s.removeConnections count) := by
  induction count generalizing s with
  | zero => exact holds
  | succ count ih => exact ih holds.removeConnection

end Rule

end Invariant

/-! ### Runs -/

/-- Does the gate permit the starts of connections that a list of commands leads to? -/
def Gate.permitsCommands (cfg : Config) (gate : Gate) (envs : Nat → Env) (s : System) :
    List Command → Prop
  | [] => True
  | cmd :: rest =>
    (∀ count, cmd = .setConnections count → System.toSize count > s.t.connections.length →
      gate.start s.t.stopped) ∧
    gate.permitsCommands cfg envs (s.processCommand cfg envs cmd) rest

/-- Does the gate permit the outside choices of a step? -/
def Gate.permits (cfg : Config) (gate : Gate) (s : System) (input : System.Input) : Prop :=
  match input with
  | .write id .. | .read id .. | .shutdown id .. | .timer id .. =>
    ∀ c, s.heap[id]? = some c → gate.permitsCallback cfg (s.ctx c) input
  | .async envs => gate.permitsCommands cfg envs { s with t.commands := [] } s.t.commands
  | .command _ | .hardShutdown => True

namespace Invariant

variable {cfg : Config} {gate : Gate} {inv : Invariant cfg gate} {s next : System}

theorem Holds.setNumConnections (holds : inv.Holds s) (envs : Nat → Env) (newVal : Nat)
    (allowed : newVal > s.t.connections.length → gate.start s.t.stopped) :
    inv.Holds (s.setNumConnections cfg envs newVal) := by
  have logged : inv.Holds { s with t.log := s.t.log ++ [Entry.setConnections newVal] } :=
    holds.threadMove (.setConnections s.t newVal)
      (fun id => ⟨by simp, Iff.rfl, .inl ⟨rfl, rfl⟩⟩)
      (fun id event member => by simpa using member) rfl
  unfold System.setNumConnections
  dsimp only
  split
  · next grows => exact logged.addConnections envs _ fun _ => allowed grows
  · exact logged.removeConnections _

theorem Holds.processCommand (holds : inv.Holds s) (envs : Nat → Env) (cmd : Command)
    (allowed : ∀ count, cmd = .setConnections count →
      System.toSize count > s.t.connections.length → gate.start s.t.stopped) :
    inv.Holds (s.processCommand cfg envs cmd) := by
  cases cmd with
  | stop _ =>
    exact holds.threadMove (.stop s.t) (fun id => ⟨by simp, Iff.rfl, .inr ⟨rfl, rfl⟩⟩)
      (fun id event member => by simpa using member) rfl
  | setConnections count => exact holds.setNumConnections envs _ (allowed count rfl)

theorem Holds.foldCommands (holds : inv.Holds s) (envs : Nat → Env) (commands : List Command)
    (allowed : gate.permitsCommands cfg envs s commands) :
    inv.Holds (commands.foldl (System.processCommand cfg envs) s) := by
  induction commands generalizing s with
  | nil => exact holds
  | cons cmd rest ih => exact ih (holds.processCommand envs cmd allowed.1) allowed.2

/-- **A permitted step keeps the invariant.** -/
theorem Holds.step (holds : inv.Holds s) (input : System.Input) (allowed : gate.permits cfg s input)
    (taken : s.step cfg input = some next) : inv.Holds next := by
  have callback : ∀ id, (∀ c, s.heap[id]? = some c → gate.permitsCallback cfg (s.ctx c) input) →
      (s.heap[id]?.bind fun c => (System.callback cfg (s.ctx c) input).map (s.put id)) = some next →
      inv.Holds next := by
    intro id permitted called
    obtain ⟨c, found, mapped⟩ := Option.bind_eq_some_iff.mp called
    obtain ⟨y, answer, rfl⟩ := Option.map_eq_some_iff.mp mapped
    exact holds.put found fun p settled now => callback_leads now settled (permitted c found) answer
  cases input with
  | write id outs env | read id outs env | shutdown id out env | timer id env =>
    exact callback id allowed taken
  | async envs =>
    cases taken
    have took : inv.Holds { s with t.commands := [] } :=
      holds.threadMove (.take s.t) (fun id => ⟨rfl, Iff.rfl, .inl ⟨rfl, rfl⟩⟩)
        (fun id event member => member) rfl
    exact took.foldCommands envs _ allowed
  | command cmd =>
    cases taken
    exact holds.threadMove (.command s.t cmd) (fun id => ⟨rfl, Iff.rfl, .inl ⟨rfl, rfl⟩⟩)
      (fun id event member => member) rfl
  | hardShutdown =>
    simp only [System.step] at taken
    split at taken
    · cases taken
      exact holds.threadMove (.hardShutdown s.t) (fun id => ⟨rfl, Iff.rfl, .inl ⟨rfl, rfl⟩⟩)
        (fun id event member => member) rfl
    · cases taken

/-- The thread as it starts. -/
theorem Holds.start (initial : ∀ reporting, inv.thread (System.initial cfg reporting).t)
    (allowed : gate.start false) (reporting : Bool) (envs : Nat → Env) :
    inv.Holds (System.start cfg reporting envs) := by
  have empty : inv.Holds (System.initial cfg reporting) :=
    ⟨initial reporting, fun id c found => by simp [System.initial] at found,
      fun id event member => by simp [System.initial] at member,
      fun id member => by simp [System.initial] at member, List.nodup_nil⟩
  have started := empty.addConnections envs cfg.numConnections fun _ => allowed
  unfold System.start
  dsimp only
  split
  · exact started.threadMove (.ref _) (fun id => ⟨rfl, Iff.rfl, .inl ⟨rfl, rfl⟩⟩)
      (fun id event member => member) rfl
  · exact started

/-- **The rule for runs**: the invariant holds in every state reached by permitted steps. -/
theorem reachable (inv : Invariant cfg gate)
    (initial : ∀ reporting, inv.thread (System.initial cfg reporting).t) (allowed : gate.start false)
    (reached : System.Reachable cfg (gate.permits cfg) s) : inv.Holds s := by
  obtain ⟨reporting, envs, reached⟩ := reached
  exact reached.invariant (Holds.start initial allowed reporting envs)
    fun state input next holds permitted taken => holds.step input permitted taken

end Invariant

/-- Where every start is allowed, all commands are permitted. -/
theorem Gate.permits_commands {gate : Gate} (starts : ∀ stopped, gate.start stopped) (cfg : Config)
    (envs : Nat → Env) (s : System) (commands : List Command) :
    gate.permitsCommands cfg envs s commands := by
  induction commands generalizing s with
  | nil => exact trivial
  | cons cmd rest ih => exact ⟨fun _ _ _ => starts _, ih _⟩

/-- With no gate every step is permitted. -/
theorem Gate.free_permits (cfg : Config) (s : System) (input : System.Input) :
    Gate.free.permits cfg s input := by
  cases input with
  | write id outs env | read id outs env => exact fun _ _ _ _ _ _ => trivial
  | shutdown id out env | timer id env => exact fun _ _ => trivial
  | async envs => exact Gate.permits_commands (fun _ => trivial) cfg envs _ _
  | command | hardShutdown => trivial

/-- The rule for all runs. -/
theorem Invariant.reachable_any {cfg : Config} (inv : Invariant cfg Gate.free)
    (initial : ∀ reporting, inv.thread (System.initial cfg reporting).t) {s : System}
    (reached : System.Reachable cfg Transition.anyStep s) : inv.Holds s := by
  obtain ⟨reporting, envs, reached⟩ := reached
  exact inv.reachable initial trivial
    ⟨reporting, envs, reached.mono fun s input _ => Gate.free_permits cfg s input⟩

/-- The invariant that adds nothing to the watchers. -/
def Invariant.watchers (cfg : Config) : Invariant cfg Gate.free where
  thread := fun _ => True
  conn := fun _ _ => True
  move := fun _ _ _ _ => ⟨trivial, trivial⟩
  elsewhere := fun _ _ _ => trivial
  born := fun _ _ _ _ => trivial
  removed := fun _ _ _ _ => trivial
  threadMove := fun _ _ => trivial

namespace System

variable {cfg : Config} {s next : System}

/-- The watchers of every connection are those of its point, whatever happens. -/
theorem watchers_hold (reached : Reachable cfg Transition.anyStep s) :
    (Invariant.watchers cfg).Holds s :=
  (Invariant.watchers cfg).reachable_any (fun _ => trivial) reached

/-- **A callback of a connection** is a chain of moves from the point where it settled. -/
theorem callback_taken {gate : Gate} {inv : Invariant cfg gate} (holds : inv.Holds s) {id : Nat}
    {input : Input}
    (called : (s.heap[id]?.bind fun c => (callback cfg (s.ctx c) input).map (s.put id)) = some next) :
    ∃ c y p, s.heap[id]? = some c ∧ At p (s.ctx c) ∧ Leads cfg Gate.free p (s.ctx c) y ∧
      next = s.put id y := by
  obtain ⟨c, found, mapped⟩ := Option.bind_eq_some_iff.mp called
  obtain ⟨y, answer, rfl⟩ := Option.map_eq_some_iff.mp mapped
  obtain ⟨_, p, settled, now, _⟩ := holds.conns id c found
  have permitted : Gate.free.permitsCallback cfg (s.ctx c) input := by
    cases input <;> simp [Gate.permitsCallback, Gate.free]
  exact ⟨c, y, p, found, now, callback_leads now settled permitted answer, rfl⟩

end System

end Apib
