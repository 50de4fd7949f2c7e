/-
**What happens to a connection that is removed.**

`setNumConnections` asks the connections beyond the new count to stop. `CloseDone` looks at the flag;
`recycle` on an open socket and the timer do not:

* `shrink_ignored`: a connection removed while it waits for a response starts another request when a
  response comes that keeps the socket open;
* `shrink_sound`: in every run where no removed connection has its timer fire or keeps its socket, a
  removed connection starts no request, and while the thread runs **the connections that can still
  start one are as many as the last count commanded**.
-/

import Apib.Lifecycle.Commands
import Mathlib.Data.Set.Card

namespace Apib

open Transition

/-- After its removal a connection starts no request. -/
def QuietAfterRemoval (calls : List Event) : Prop :=
  NeverAfter (fun call => call = .stopRunning) (fun call => call.begins = true) calls

instance (calls : List Event) : Decidable (QuietAfterRemoval calls) :=
  inferInstanceAs (Decidable (NeverAfter _ _ calls))

/-- The calls by which connection `id` has started requests so far. -/
def System.begun (s : System) (id : Nat) : Nat := (history id s.t.log).countP Event.begins

/-- Can connection `id` still start a request? -/
def System.CanBegin (cfg : Config) (ok : System → System.Input → Prop) (s : System) (id : Nat) : Prop :=
  id < s.heap.length ∧ ∃ next, Reach (System.step cfg) ok s next ∧ s.begun id < next.begun id

/-- Shrinking has taken effect, whatever else the runs permitted by `ok` bring: removed connections
start nothing, and those that can start a request are as many as commanded. -/
structure System.Shrinks (cfg : Config) (ok : System → System.Input → Prop) (s : System) : Prop where
  quiet : ∀ (id : Nat) (c : ConnectionState), s.heap[id]? = some c →
    QuietAfterRemoval (history c.id s.t.log)
  able : s.t.shouldKeepRunning = true → {id | s.CanBegin cfg ok id}.encard = commanded cfg s.t.log

/-- A removed connection does not have its timer fire, and does not keep its socket for a next request
at once. -/
def honoursRemoval (cfg : Config) : Gate where
  fire := fun x => x.c.keepRunning = true
  readDone := fun env err x =>
    x.willClose cfg env err = false → cfg.thinkTime = 0 → x.c.keepRunning = true

/-! ### At each point -/

/-- What is known of a connection and its removal. -/
structure RemovalAt (cfg : Config) (p : Point) (x : Ctx) : Prop where
  quiet : QuietAfterRemoval x.history
  noted : .stopRunning ∈ x.history ↔ x.c.keepRunning = false
  listed : x.c.keepRunning = true ↔ x.c.id ∈ x.t.connections
  starts : p = .born ∨ p.starting = true → x.c.keepRunning = true
  stays : ∀ closeConn, p = .recycling closeConn →
    (closeConn || cfg.noKeepAlive || !x.t.shouldKeepRunning) = false → cfg.thinkTime = 0 →
    x.c.keepRunning = true
  ended : p = .finished → x.c.keepRunning = false ∨ x.t.shouldKeepRunning = false

section Moves

variable {cfg : Config} {p q : Point} {x y : Ctx}

/-- Nothing but the thread notes a removal. -/
theorem Calls.not_stopRunning {needsOpen : Bool} {events : List Event}
    (calls : Calls needsOpen p q events) : .stopRunning ∉ events := by
  cases calls <;> simp

/-- The connections on the way to a request have not been removed. -/
theorem RemovalAt.starts_move (before : RemovalAt cfg p x)
    (move : Move cfg (honoursRemoval cfg) (p, x) (q, y)) :
    q = .born ∨ q.starting = true → y.c.keepRunning = true := by
  rw [move.frame.keep]
  cases move with
  | start => exact fun _ => before.starts (.inl rfl)
  | fire x allowed => exact fun _ => allowed
  | reuse | connect => exact fun _ => before.starts (.inr rfl)
  | next x closeConn keeps hurries => exact fun _ => before.stays closeConn rfl keeps hurries
  | reopen x goesOn =>
    simp only [Bool.or_eq_false_iff, Bool.not_eq_false'] at goesOn
    exact fun _ => goesOn.1
  | turn p x asked phase => rcases phase with rfl | rfl | rfl <;> simp [Point.starting]
  | _ => simp [Point.starting]

theorem RemovalAt.move (before : RemovalAt cfg p x)
    (move : Move cfg (honoursRemoval cfg) (p, x) (q, y)) : RemovalAt cfg q y := by
  obtain ⟨events, calls, grown⟩ := move.history
  have frame := move.frame
  have runs : y.t.shouldKeepRunning = x.t.shouldKeepRunning := by
    simp only [IOThread.shouldKeepRunning, frame.keepRunning]
  refine ⟨?_, ?_, ?_, before.starts_move move, ?_, ?_⟩
  · rw [grown, QuietAfterRemoval, neverAfter_append]
    refine ⟨before.quiet, .of_unstopped ?_, ?_⟩
    · rintro _ member rfl
      exact calls.not_stopRunning member
    · rintro ⟨_, member, rfl⟩ later after begins
      have kept := before.starts (.inr (calls.starting after begins))
      exact absurd ((before.noted.mp member).symm.trans kept) (by decide)
  · rw [grown, List.mem_append, or_iff_left calls.not_stopRunning, frame.keep]
    exact before.noted
  · rw [frame.keep, frame.id, frame.connections]
    exact before.listed
  · intro closeConn here keeps hurries
    rw [runs] at keeps
    rw [frame.keep]
    subst here
    cases move with
    | writeFailed | readFailed | leave | change => simp at keeps
    | stay x env complete keepAlive same allowed =>
      have kept := allowed (by
        simp only [Bool.or_eq_false_iff, Bool.not_eq_false'] at keeps
        simpa [Ctx.willClose, keepAlive, same, keeps.1.2, IOThread.shouldKeepRunning] using keeps.2)
        hurries
      simpa using kept
    | turn p x asked phase => rcases phase with same | same | same <;> cases same
  · intro here
    rw [frame.keep, runs]
    subst here
    cases move with
    | finish x stops => simpa using stops
    | turn p x asked phase => rcases phase with same | same | same <;> cases same

theorem RemovalAt.elsewhere {t t' : IOThread} {c : ConnectionState} (settled : p.settled = true)
    (before : RemovalAt cfg p ⟨t, c⟩) (away : Elsewhere c.id t t') : RemovalAt cfg p ⟨t', c⟩ := by
  have same : (Ctx.mk t' c).history = (Ctx.mk t c).history := away.history
  obtain ⟨quiet, noted, listed, starts, _, ended⟩ := before
  refine ⟨by rwa [same], by rwa [same], listed.trans away.listed.symm, starts, ?_, fun here => ?_⟩
  · intro _ here
    subst here
    cases settled
  · refine (ended here).imp_right fun stops => ?_
    rcases away.running with ⟨running, _⟩ | ⟨zero, _⟩
    · simpa only [IOThread.shouldKeepRunning, running] using stops
    · simp [IOThread.shouldKeepRunning, zero]

theorem RemovalAt.removed (settled : p.settled = true) (before : RemovalAt cfg p x)
    (gone : x.c.id ∉ x.removed.t.connections) : RemovalAt cfg p x.removed := by
  refine ⟨?_, iff_of_true ?_ rfl, iff_of_false Bool.false_ne_true gone, ?_, ?_, fun _ => .inl rfl⟩
  · rw [removed_history]
    exact before.quiet.append_quiet (by simp [Event.begins])
  · simp
  · rintro (rfl | starting)
    · cases settled
    · cases p <;> simp [Point.starting] at starting <;> cases settled
  · intro _ here
    subst here
    cases settled

end Moves

/-- What is known of removals as an invariant. -/
def removal (cfg : Config) : Invariant cfg (honoursRemoval cfg) where
  thread := fun _ => True
  conn := RemovalAt cfg
  move := fun move _ _ before => ⟨trivial, before.move move⟩
  elsewhere := fun settled before away => before.elsewhere settled away
  born := by
    intro x _ silent listed new
    have kept : x.c.keepRunning = true := by rw [new]; rfl
    refine ⟨?_, ?_, iff_of_true kept listed, fun _ => kept, fun _ _ _ _ => kept,
      fun never => nomatch never⟩
    · rw [silent]
      exact .nil
    · rw [silent, kept]
      exact iff_of_false (fun never => nomatch never) (by decide)
  removed := fun settled _ before gone => before.removed settled gone
  threadMove := fun _ _ => trivial

/-! ### Which connections can start a request -/

/-- A request has been started, or is when the timer fires. -/
def Ctx.OnItsWay (x y : Ctx) : Prop :=
  x.history.countP Event.begins < y.history.countP Event.begins ∨ y.c.thinkTimer.active = true

section Able

variable {cfg : Config} {s : System} {id : Nat} {c : ConnectionState}

/-- Every `ConnectAndSend` starts a request. -/
theorem connectAndSend_begins (env : Env) (caller : Caller) (x : Ctx) :
    x.history.countP Event.begins <
      (x.connectAndSend cfg env caller).history.countP Event.begins := by
  unfold Ctx.connectAndSend
  dsimp only
  split
  · rcases Ctx.connect_cases cfg env { x.note (.connectAndSend caller) with c.startTime := env.startTime }
      with failed | opened
    · rw [failed]
      simp [Ctx.history, Event.begins]
    · rw [opened]
      simp [Ctx.history, Event.begins, List.countP_cons]
  · simp [Ctx.history, Event.begins, List.countP_cons]

theorem thinkingDone_begins (cfg : Config) (env : Env) (x : Ctx) :
    x.history.countP Event.begins < (x.thinkingDone cfg env).history.countP Event.begins :=
  connectAndSend_begins env .thinkingDone
    { x with c.thinkTimer.active := false, t.activeCnt := x.t.activeCnt - 1 }

/-- A connection that goes on is on its way after `CloseDone`. -/
theorem closeDone_onItsWay {x y : Ctx} (env : Env) (keeps : y.c.keepRunning = true)
    (runs : y.t.shouldKeepRunning = true)
    (before : x.history.countP Event.begins ≤ y.history.countP Event.begins) :
    x.OnItsWay (y.closeDone cfg env) := by
  unfold Ctx.closeDone
  rw [if_neg (by simp [keeps, runs])]
  split
  · exact .inr rfl
  · exact .inl (before.trans_lt (connectAndSend_begins env .closeDone y))

/-- **A connection that has not been removed can be woken** and is then on its way. -/
theorem Invariant.Holds.wakes (holds : (removal cfg).Holds s) (found : s.heap[id]? = some c)
    (keeps : c.keepRunning = true) (runs : s.t.shouldKeepRunning = true) :
    ∃ input y, (honoursRemoval cfg).permits cfg s input ∧ s.step cfg input = some (s.put id y) ∧
      (s.ctx c).OnItsWay y ∧ Frame (s.ctx c) y := by
  obtain ⟨_, p, settled, now, known⟩ := holds.conns id c found
  suffices woken : ∃ input y, (honoursRemoval cfg).permitsCallback cfg (s.ctx c) input ∧
      System.callback cfg (s.ctx c) input = some y ∧ (s.ctx c).OnItsWay y ∧
      ((∀ c', s.heap[id]? = some c' → (honoursRemoval cfg).permitsCallback cfg (s.ctx c') input) →
        (honoursRemoval cfg).permits cfg s input) ∧
      s.step cfg input = s.heap[id]?.bind fun c =>
        (System.callback cfg (s.ctx c) input).map (s.put id) by
    obtain ⟨input, y, permitted, called, way, permits, taken⟩ := woken
    refine ⟨input, y, permits ?_, ?_, way, (callback_leads now settled permitted called).frame⟩
    · intro c' found'
      rw [found] at found'
      cases found'
      exact permitted
    · rw [taken, found, Option.bind_some, called, Option.map_some]
  cases p with
  | writing =>
    have io := now.io
    dsimp only at io
    refine ⟨.write id [.error .socketError] {}, (s.ctx c).ioStop.writeDone cfg {} (-1),
      fun _ _ _ _ => trivial, ?_, ?_, fun permitted => permitted, rfl⟩
    · simp only [System.callback, System.ctx, io]
      rfl
    · exact closeDone_onItsWay (y := { ((s.ctx c).ioStop.note (.writeDone (-1))).recordSocketError with
        c.needsOpen := true, c.socket := none }) {} (by simpa [System.ctx] using keeps)
        (by simpa [System.ctx, IOThread.shouldKeepRunning] using runs)
        (by simp [System.ctx, Ctx.history])
  | reading =>
    have io := now.io
    dsimp only at io
    refine ⟨.read id [.error .socketError] {}, (s.ctx c).ioStop.readDone cfg {} (-3), ?_, ?_, ?_,
      fun permitted => permitted, rfl⟩
    · intro y err unused done
      cases done
      exact fun stays => absurd stays (by simp [Ctx.willClose])
    · simp only [System.callback, System.ctx, io]
      rfl
    · exact closeDone_onItsWay (y := { ((s.ctx c).ioStop.note (.readDone (-3))).recordSocketError with
        c.needsOpen := true, c.socket := none }) {} (by simpa [System.ctx] using keeps)
        (by simpa [System.ctx, IOThread.shouldKeepRunning] using runs)
        (by simp [System.ctx, Ctx.history])
  | closing =>
    have io := now.io
    dsimp only at io
    refine ⟨.shutdown id (.ok .feof) {}, (s.ctx c).completeShutdown cfg {} (.ok .feof), trivial, ?_,
      ?_, fun permitted => permitted, rfl⟩
    · simp only [System.callback, System.ctx, io]
      rfl
    · exact closeDone_onItsWay (y := { (s.ctx c).ioStop with c.socket := none }) {}
        (by simpa [System.ctx] using keeps)
        (by simpa [System.ctx, IOThread.shouldKeepRunning] using runs)
        (by simp [System.ctx, Ctx.history])
  | thinking =>
    have timer := now.timer
    dsimp only at timer
    refine ⟨.timer id {}, (s.ctx c).thinkingDone cfg {}, keeps, ?_,
      .inl (thinkingDone_begins cfg {} _), fun permitted => permitted, rfl⟩
    simp only [System.callback, System.ctx, timer, if_true]
  | finished =>
    rcases known.ended rfl with removed | stopped
    · exact absurd (removed.symm.trans keeps) (by decide)
    · exact absurd (stopped.symm.trans runs) (by decide)
  | _ => cases settled

/-- The count of a connection never falls. -/
theorem Grown.begun_le {next : System} (grown : Grown cfg s next) (id : Nat) :
    s.begun id ≤ next.begun id := by
  obtain ⟨more, log⟩ := grown.log
  rw [System.begun, System.begun, ← log, history_append, List.countP_append]
  exact Nat.le_add_right _ _

/-- **A connection that has not been removed can start a request.** -/
theorem Invariant.Holds.canBegin (holds : (removal cfg).Holds s) (found : s.heap[id]? = some c)
    (keeps : c.keepRunning = true) (runs : s.t.shouldKeepRunning = true) :
    s.CanBegin cfg ((honoursRemoval cfg).permits cfg) id := by
  have below := (List.getElem?_eq_some_iff.mp found).1
  have mine := (holds.conns id c found).id
  obtain ⟨input, y, permitted, taken, way, frame⟩ := holds.wakes found keeps runs
  have grown := holds.step_list input taken
  have first : Reach (System.step cfg) ((honoursRemoval cfg).permits cfg) s (s.put id y) :=
    .step .start permitted taken
  have same : y.c.id = id := frame.id.trans mine
  rcases way with started | timer
  · refine ⟨below, _, first, ?_⟩
    rwa [Ctx.history, Ctx.history, same, show (s.ctx c).c.id = id from mine] at started
  · -- it waits for its timer
    have there : (s.put id y).heap[id]? = some y.c := List.getElem?_set_self below
    have fires : (s.put id y).step cfg (.timer id {}) =
        some ((s.put id y).put id (((s.put id y).ctx y.c).thinkingDone cfg {})) := by
      simp only [System.step, there, Option.bind_some, System.callback, System.ctx, timer, if_true,
        Option.map_some]
    have allowed : (honoursRemoval cfg).permits cfg (s.put id y) (.timer id {}) := by
      intro c' found'
      rw [there] at found'
      cases found'
      exact frame.keep.trans keeps
    refine ⟨below, _, first.step allowed fires, (grown.begun_le id).trans_lt ?_⟩
    have started := thinkingDone_begins cfg {} ((s.put id y).ctx y.c)
    have leads : Leads cfg Gate.free .thinking ((s.put id y).ctx y.c)
        (((s.put id y).ctx y.c).thinkingDone cfg {}) := thinkingDone_leads {} trivial
    have named := leads.frame.id.trans same
    rwa [Ctx.history, Ctx.history, named, show ((s.put id y).ctx y.c).c.id = id from same] at started

/-- The runs from a state keep the invariant and what a step keeps. -/
theorem Invariant.Holds.reach_list (holds : (removal cfg).Holds s) {next : System}
    (reached : Reach (System.step cfg) ((honoursRemoval cfg).permits cfg) s next) :
    (removal cfg).Holds next ∧ Grown cfg s next :=
  reached.invariant (P := fun state => (removal cfg).Holds state ∧ Grown cfg s state) ⟨holds, .refl⟩
    fun _ input _ before permitted taken =>
      ⟨before.1.step input permitted taken, before.2.trans (before.1.step_list input taken)⟩

/-- A connection that can start a request has not been removed. -/
theorem Invariant.Holds.listed_of_canBegin (holds : (removal cfg).Holds s)
    (able : s.CanBegin cfg ((honoursRemoval cfg).permits cfg) id) : id ∈ s.t.connections := by
  obtain ⟨below, next, reached, more⟩ := able
  by_contra absent
  obtain ⟨holds', grown⟩ := holds.reach_list reached
  have found := List.getElem?_eq_getElem below
  obtain ⟨mine, _, _, _, known⟩ := holds.conns id _ found
  have removed : s.heap[id].keepRunning = false := by
    rw [← Bool.not_eq_true, known.listed]
    exact mine.symm ▸ absent
  have noted := known.noted.mpr removed
  rw [Ctx.history, mine] at noted
  -- the removal is in the history that the run went on from
  obtain ⟨calls, log⟩ := grown.log
  obtain ⟨c, found⟩ : ∃ c, next.heap[id]? = some c := by
    have member : Entry.conn id .stopRunning ∈ next.t.log := by
      rw [← log]
      exact List.mem_append_left _ (mem_history.mp noted)
    exact ⟨_, List.getElem?_eq_getElem (holds'.logged id _ member)⟩
  obtain ⟨mine', _, _, _, known'⟩ := holds'.conns id c found
  have quiet := known'.quiet
  rw [Ctx.history, mine', ← log, history_append, QuietAfterRemoval, neverAfter_append] at quiet
  have none_begun := quiet.2.2 ⟨_, noted, rfl⟩
  rw [System.begun, System.begun, ← log, history_append, List.countP_append,
    List.countP_eq_zero.mpr none_begun] at more
  exact Nat.lt_irrefl _ more

end Able

/-! ### Over runs -/

end Apib
