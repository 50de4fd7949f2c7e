/-
**The books of the sockets.**

The calls of a connection tell what became of every socket it opened: `wire` reads off, for each of
them, the requests that were sent over it, the bytes it accepted, and how often `WriteDone(0)` was
called for it.

* `Line.Sound`: complete requests and at most one proper prefix of a further one, which starts only
  after the response to the one before;
* `wire_silent`: the calls that leave the books alone;
* `Numbered.move`: the sockets of a thread are numbered in the order they are opened, so none belongs
  to two connections.
-/

import Apib.Lifecycle.Invariant
import Mathlib.Data.List.Nodup

namespace Apib

open Ctx

/-! ### Reading the calls -/

/-- What happened on one socket. `unanswered` is whether its last request still waits for
`ReadDone(0)`, `hasty` whether a request was sent while another waited. -/
structure Line where
  requests : List Bytes := []
  accepted : Bytes := []
  completions : Nat := 0
  unanswered : Bool := false
  hasty : Bool := false

namespace Line

/-- A request is to be sent. -/
def begin (request : Bytes) (l : Line) : Line :=
  { l with
    requests := l.requests ++ [request]
    hasty := l.hasty || l.unanswered
    unanswered := true }

/-- Some bytes are accepted. -/
def accept (bytes : Bytes) (l : Line) : Line := { l with accepted := l.accepted ++ bytes }

/-- A request is sent. -/
def complete (l : Line) : Line := { l with completions := l.completions + 1 }

/-- A request is answered. -/
def answer (l : Line) : Line := { l with unanswered := false }

/-- All requests were accepted to the end. -/
structure Whole (l : Line) : Prop where
  accepted : l.accepted = l.requests.flatten
  completions : l.completions = l.requests.length

/-- All requests but the last were accepted to the end, and `part` of that one. -/
def Partway (l : Line) (last part : Bytes) : Prop :=
  ∃ before, l.requests = before ++ [last] ∧ l.accepted = before.flatten ++ part ∧
    l.completions = before.length

/-- Complete requests and at most one proper prefix of a further one, each sent after the answer to the
one before. -/
structure Sound (l : Line) : Prop where
  bytes : l.Whole ∨ ∃ last part, l.Partway last part ∧ part <+: last ∧ part ≠ last
  patient : l.hasty = false

section Line

variable {l : Line} {request part last bytes : Bytes}

theorem Whole.begin (whole : l.Whole) (request : Bytes) : (l.begin request).Partway request [] :=
  ⟨l.requests, rfl, by rw [List.append_nil]; exact whole.accepted, whole.completions⟩

theorem Partway.accept (partway : l.Partway last part) (bytes : Bytes) :
    (l.accept bytes).Partway last (part ++ bytes) := by
  obtain ⟨before, requests, accepted, completions⟩ := partway
  refine ⟨before, requests, ?_, completions⟩
  rw [Line.accept, accepted, List.append_assoc]

theorem Partway.complete (partway : l.Partway last last) : l.complete.Whole := by
  obtain ⟨before, requests, accepted, completions⟩ := partway
  constructor
  · show l.accepted = l.requests.flatten
    rw [accepted, requests, List.flatten_append, List.flatten_singleton]
  · show l.completions + 1 = l.requests.length
    rw [completions, requests, List.length_append, List.length_singleton]

end Line

end Line

/-- What happened on the sockets of a connection. `request` is the last request serialised, `current`
the socket it goes over. -/
structure Wire where
  request : Bytes := []
  current : Option Socket := none
  line : Socket → Line := fun _ => {}

namespace Wire

/-- Something happens on a socket. -/
def on (w : Wire) (socket : Option Socket) (change : Line → Line) : Wire :=
  { w with line := fun other => if socket = some other then change (w.line other) else w.line other }

/-- What one call does. -/
def note (w : Wire) : Event → Wire
  | .request _ _ bytes => { w with request := bytes }
  | .sendWrite _ socket => { w with current := socket }.on socket (Line.begin w.request)
  | .wrote socket bytes => w.on socket (Line.accept bytes)
  | .writeDone err => if err = 0 then w.on w.current Line.complete else w
  | .readDone err => if err = 0 then w.on w.current Line.answer else w
  | _ => w

variable {w : Wire} {socket other : Socket} {change : Line → Line}

@[simp] theorem on_request (socket : Option Socket) : (w.on socket change).request = w.request := rfl

@[simp] theorem on_current (socket : Option Socket) : (w.on socket change).current = w.current := rfl

@[simp] theorem on_line : (w.on (some socket) change).line socket = change (w.line socket) :=
  if_pos rfl

theorem on_elsewhere (different : socket ≠ other) :
    (w.on (some socket) change).line other = w.line other :=
  if_neg fun same => different (Option.some.inj same)

end Wire

/-- What happened on the sockets of a connection, from its calls. -/
def wire (calls : List Event) : Wire := calls.foldl Wire.note {}

@[simp] theorem wire_append (calls more : List Event) :
    wire (calls ++ more) = more.foldl Wire.note (wire calls) :=
  List.foldl_append

/-- The connection has opened this socket. -/
def Opened (calls : List Event) (socket : Socket) : Prop :=
  ∃ readBufPos, Event.connected socket readBufPos ∈ calls

/-- Does this call leave the sockets as they are? -/
def Event.silent : Event → Bool
  | .connected .. | .request .. | .sendWrite .. | .wrote .. => false
  | .writeDone err | .readDone err => err != 0
  | _ => true

section Silent

variable {calls events : List Event} {socket : Socket}

theorem wire_silent (silent : ∀ event ∈ events, event.silent = true) :
    wire (calls ++ events) = wire calls := by
  rw [wire_append]
  induction events with
  | nil => rfl
  | cons event rest ih =>
    have still : (wire calls).note event = wire calls := by
      have quiet := silent event List.mem_cons_self
      cases event <;> simp_all [Event.silent, Wire.note]
    rw [List.foldl_cons, still]
    exact ih fun later member => silent later (List.mem_cons_of_mem event member)

theorem Opened.mono (opened : Opened calls socket) : Opened (calls ++ events) socket := by
  obtain ⟨readBufPos, member⟩ := opened
  exact ⟨readBufPos, List.mem_append_left events member⟩

end Silent

/-! ### Whose a socket is -/

/-- The connection and the number of a socket that is opened. -/
def Entry.opening : Entry → Option (Nat × Nat)
  | .conn id (.connected socket _) => some (id, socket.id)
  | _ => none

/-- The sockets of a thread are numbered in the order they are opened. -/
def Numbered (t : IOThread) : Prop :=
  (t.log.filterMap Entry.opening).map Prod.snd = List.range t.sockets

section Numbered

variable {t : IOThread} {id other readBufPos readBufPos' : Nat} {socket : Socket}

theorem mem_openings (member : Entry.conn id (.connected socket readBufPos) ∈ t.log) :
    (id, socket.id) ∈ t.log.filterMap Entry.opening :=
  List.mem_filterMap.mpr ⟨_, member, rfl⟩

theorem Numbered.below (numbered : Numbered t)
    (member : Entry.conn id (.connected socket readBufPos) ∈ t.log) : socket.id < t.sockets := by
  have number : socket.id ∈ (t.log.filterMap Entry.opening).map Prod.snd :=
    List.mem_map_of_mem (mem_openings member)
  rw [numbered] at number
  exact List.mem_range.mp number

/-- A socket belongs to one connection. -/
theorem Numbered.owned (numbered : Numbered t)
    (member : Entry.conn id (.connected socket readBufPos) ∈ t.log)
    (member' : Entry.conn other (.connected socket readBufPos') ∈ t.log) : id = other := by
  have once : ((t.log.filterMap Entry.opening).map Prod.snd).Nodup := by
    rw [numbered]
    exact List.nodup_range
  have same := List.inj_on_of_nodup_map once (mem_openings member) (mem_openings member') rfl
  exact congrArg Prod.fst same

theorem Numbered.threadMove {t' : IOThread} (numbered : Numbered t) (move : ThreadMove t t') :
    Numbered t' := by
  cases move <;> simpa [Numbered, Entry.opening, List.filterMap_cons] using numbered

/-- A move opens at most one socket, the next one. -/
theorem Numbered.move {cfg : Config} {gate : Gate} {p q : Point} {x y : Ctx} (numbered : Numbered x.t)
    (move : Move cfg gate (p, x) (q, y)) : Numbered y.t := by
  unfold Numbered at numbered ⊢
  cases move with
  | connect x y env caller isClosed connected =>
    rw [connect_eq_ok connected]
    simp [Entry.opening, List.filterMap_cons, numbered, opened, List.range_succ]
  | _ => simpa [Entry.opening, List.filterMap_cons] using numbered

/-- A socket just opened has not been used. -/
theorem Numbered.unopened {cfg : Config} {x : Ctx} (numbered : Numbered x.t) :
    ¬ Opened x.history (x.opened cfg) := by
  rintro ⟨readBufPos, member⟩
  exact Nat.lt_irrefl _ (numbered.below (mem_history.mp member))

end Numbered

end Apib
