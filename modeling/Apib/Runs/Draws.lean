/-
**Which URL comes after a response.**

`ReadDone(0)` draws the next URL only if the response keeps the connection alive. Otherwise the socket is
closed and the connection goes on with the URL it had.

* `url_repeated`: after a response with `Connection: close` the next request is for the same URL,
  whatever the list holds;
* `draws_sound`: **in every run where a connection that goes on is kept alive by every response**, each
  request after a response is for a URL drawn after it.
-/

import Apib.Runs.Carry

namespace Apib

/-! ### Draws after a response -/

/-- One call, for the URLs drawn since the last `ReadDone(0)`; none before it and after a request. -/
def pendingStep (draws : Option (List URLRef)) : Event → Option (List URLRef)
  | .readDone err => if err = 0 then some [] else draws
  | .getNext url => draws.map (· ++ [url])
  | .request .. => none
  | _ => draws

/-- The URLs drawn since the last `ReadDone(0)`, if no request has been written since. -/
def pending (calls : List Event) : Option (List URLRef) := calls.foldl pendingStep none

/-- Between a `ReadDone(0)` and the next request one URL is drawn, and the request is for it. -/
def DrawsNext (calls : List Event) : Prop :=
  ∀ before url authHdr bytes after, calls = before ++ .request url authHdr bytes :: after →
    ∀ draws, pending before = some draws → draws = [url]

/-- Is there a request for a URL that was not drawn after the response before it? -/
def repeats (calls : List Event) : Bool :=
  (List.range calls.length).any fun n =>
    match calls[n]?, pending (calls.take n) with
    | some (.request url _ _), some draws => draws != [url]
    | _, _ => false

section Pending

variable {calls more : List Event}

theorem pending_append (calls more : List Event) :
    pending (calls ++ more) = more.foldl pendingStep (pending calls) := List.foldl_append

theorem DrawsNext.none_repeated (sound : DrawsNext calls) : repeats calls = false := by
  unfold repeats
  rw [List.any_eq_false]
  intro n inside bad
  split at bad
  · next url authHdr bytes draws here drawn =>
    have split : calls = calls.take n ++ .request url authHdr bytes :: calls.drop (n + 1) := by
      obtain ⟨below, here⟩ := List.getElem?_eq_some_iff.mp here
      rw [← here, ← List.drop_eq_getElem_cons below, List.take_append_drop]
    rw [sound _ _ _ _ _ split draws drawn] at bad
    simp at bad
  · cases bad

theorem DrawsNext.nil : DrawsNext [] := by
  intro before url authHdr bytes after split
  simp at split

/-- More calls, of which every request is for the URL drawn. -/
theorem DrawsNext.append (sound : DrawsNext calls)
    (new : ∀ before url authHdr bytes after, more = before ++ .request url authHdr bytes :: after →
      ∀ draws, pending (calls ++ before) = some draws → draws = [url]) : DrawsNext (calls ++ more) := by
  intro before url authHdr bytes after split draws drawn
  rcases List.append_eq_append_iff.mp split with ⟨front, rfl, behind⟩ | ⟨back, whole, behind⟩
  · exact new front url authHdr bytes after behind draws drawn
  · cases back with
    | nil =>
      rw [List.append_nil] at whole
      subst whole
      exact new [] url authHdr bytes after (by simpa using behind.symm) draws (by simpa using drawn)
    | cons event back =>
      obtain ⟨rfl, rfl⟩ := List.cons.inj behind
      exact sound before url authHdr bytes back whole draws drawn

/-- More calls without a request. -/
theorem DrawsNext.quiet (sound : DrawsNext calls)
    (none_new : ∀ url authHdr bytes, Event.request url authHdr bytes ∉ more) : DrawsNext (calls ++ more) :=
  sound.append fun before url authHdr bytes _ split =>
    absurd (split ▸ List.mem_append_right before List.mem_cons_self) (none_new url authHdr bytes)

end Pending

/-! ### A response that closes -/

/-- Two URLs on one server. -/
def twoPages : Config where
  urls := [System.localUrl "/a" false, System.localUrl "/b" false]
  some_url := List.cons_ne_nil _ _

/-- **A request can be for the URL of the last one**, with none drawn since: the response closes the
connection. -/
theorem url_repeated : ¬ ∀ (cfg : Config) (s : System), 1 < cfg.urls.length →
    System.Reachable cfg Transition.anyStep s → ∀ (id : Nat) (c : ConnectionState),
      s.heap[id]? = some c → DrawsNext (history c.id s.t.log) := by
  intro sound
  have run : ((System.after twoPages [.write 0 [.ok (.ok 100)] {},
      .read 0 [.ok (.ok (ascii "HTTP/1.1 200 OK\r\nConnection: close\r\nContent-Length: 0\r\n\r\n"))]
        { rand := 1 }]).bind fun s => s.heap[0]?.map fun c => repeats (history c.id s.t.log)) =
      some true := by
    decide +kernel
  obtain ⟨s, ran, rest⟩ := Option.bind_eq_some_iff.mp run
  obtain ⟨c, found, repeated⟩ := Option.map_eq_some_iff.mp rest
  rw [(sound twoPages s (by decide) (System.reachable_any ran) 0 c found).none_repeated] at repeated
  cases repeated

/-- A connection that goes on is kept alive by every response. -/
def keptAlive : Gate where
  readDone := fun _ err x => err = 0 → x.goesOn = true → x.c.parser.shouldKeepAlive = true

/-! ### At each point -/

/-- The URL of the connection is the one drawn since the last response, if there is one. -/
def Drawn (x : Ctx) : Prop := ∀ draws, pending x.history = some draws → draws = [x.c.url]

/-- What is known of the URL at a point. -/
def DrawnAt : Point → Ctx → Prop
  | .born, x | .writing, x | .reading, x => pending x.history = none
  | .attempting _, x | .sending, x | .thinking, x => Drawn x
  | .recycling closeConn, x => closeConn = false ∨ x.goesOn = true → Drawn x
  | .closing, x | .closed, x => x.goesOn = true → Drawn x
  | .finished, _ => True

section Moves

variable {cfg : Config} {p q : Point} {x y : Ctx}

theorem Drawn.of_none (none_pending : pending x.history = none) : Drawn x := by
  intro draws drawn
  rw [none_pending] at drawn
  cases drawn

theorem DrawnAt.move (before : DrawnAt p x) (move : Move cfg keptAlive (p, x) (q, y)) : DrawnAt q y := by
  cases move with
  | start x env allowed =>
    refine Drawn.of_none ?_
    have silent : pending x.history = none := before
    simp only [Ctx.history] at silent
    simp [Ctx.history, pending_append, pendingStep, silent]
  | fire => simpa [DrawnAt, Drawn, Ctx.history] using before
  | reuse | refuse => simpa [DrawnAt, Drawn, Ctx.history, pending_append, pendingStep] using before
  | connect x y env caller isClosed connected =>
    rw [Ctx.connect_eq_ok connected]
    simpa [DrawnAt, Drawn, Ctx.history, pending_append, pendingStep] using before
  | send => simp [DrawnAt, Ctx.history, pending_append, pendingStep]
  | write | written | misparse | parse =>
    simpa [DrawnAt, Ctx.history, pending_append, pendingStep] using before
  | writeFailed x env allowed =>
    have silent : pending x.history = none := before
    simp only [Ctx.history] at silent
    refine fun _ => Drawn.of_none ?_
    simp [Ctx.history, pending_append, pendingStep, silent]
  | readFailed x env err isError allowed =>
    have silent : pending x.history = none := before
    simp only [Ctx.history] at silent
    refine fun _ => Drawn.of_none ?_
    simp [Ctx.history, pending_append, pendingStep, silent, isError]
  | leave x env complete leaves allowed =>
    -- the next URL is not drawn, but the connection does not go on
    rintro (keeps | goesOn)
    · cases keeps
    · have kept := allowed rfl (by simpa [Ctx.goesOn, IOThread.shouldKeepRunning] using goesOn)
      simp [leaves] at kept
  | change | stay =>
    intro _ draws drawn
    simp [Ctx.history, pending_append, pendingStep] at drawn ⊢
    exact drawn.symm
  | shut x closeConn closes =>
    intro goesOn
    exact before (.inr goesOn)
  | await x closeConn asked closes =>
    intro goesOn
    have drawn := before (.inr (by simpa [Ctx.goesOn, IOThread.shouldKeepRunning] using goesOn))
    simpa [Drawn, Ctx.history] using drawn
  | pause x closeConn keeps | next x closeConn keeps =>
    simp only [Bool.or_eq_false_iff] at keeps
    have drawn := before (.inl keeps.1.1)
    simpa [DrawnAt, Drawn, Ctx.history] using drawn
  | shutdown x =>
    intro goesOn
    have drawn := before (by simpa [Ctx.goesOn, IOThread.shouldKeepRunning] using goesOn)
    simpa [Drawn, Ctx.history] using drawn
  | finish => trivial
  | rest x goesOn | reopen x goesOn =>
    have drawn := before (by simpa [Ctx.goesOn] using goesOn)
    simpa [DrawnAt, Drawn, Ctx.history] using drawn
  | turn p x asked phase =>
    rcases phase with rfl | rfl | rfl <;>
      simpa [DrawnAt, Drawn, Ctx.history, Ctx.goesOn, IOThread.shouldKeepRunning] using before

/-- A request is written on the way to a point of its own. -/
theorem Calls.writes {needsOpen : Bool} {events : List Event} (calls : Calls needsOpen p q events)
    {url : URLRef} {authHdr bytes : Bytes} (member : Event.request url authHdr bytes ∈ events) :
    p = .sending := by
  cases calls with
  | send => rfl
  | _ => simp at member

/-- The calls of a move draw next, if the URL was drawn. -/
theorem DrawsNext.move (before : DrawsNext x.history) (at_point : DrawnAt p x)
    (move : Move cfg keptAlive (p, x) (q, y)) : DrawsNext y.history := by
  by_cases writes : p = .sending
  · subst writes
    cases move with
    | send x env =>
      have drawn : Drawn x := at_point
      have grown : ((x.writeRequest cfg env).sendWrite).history = x.history ++
          [.request x.c.url env.authHdr (x.writeRequest cfg env).c.fullWrite,
            .sendWrite x.c.url x.c.socket] := by
        simp [Ctx.history]
      rw [grown]
      refine before.append fun front url authHdr bytes _ split draws pending => ?_
      match front with
      | [] =>
        obtain ⟨same, -⟩ := List.cons.inj split
        cases same
        exact drawn draws (by simpa using pending)
      | [_] =>
        obtain ⟨-, rest⟩ := List.cons.inj split
        obtain ⟨never, -⟩ := List.cons.inj rest
        cases never
      | _ :: _ :: _ => simp at split
    | turn p x asked phase => simp at phase
  · obtain ⟨events, calls, grown⟩ := move.history
    rw [grown]
    exact before.quiet fun url authHdr bytes member => writes (calls.writes member)

end Moves

/-! ### Over runs -/

theorem Drawn.elsewhere {t t' : IOThread} {c : ConnectionState} (drawn : Drawn ⟨t, c⟩)
    (away : Elsewhere c.id t t') : Drawn ⟨t', c⟩ := by
  simpa only [Drawn, Ctx.history, away.history] using drawn

/-- The draws as an invariant. -/
def draws (cfg : Config) : Invariant cfg keptAlive where
  thread := fun _ => True
  conn := fun p x => DrawnAt p x ∧ DrawsNext x.history
  move := fun move _ _ before => ⟨trivial, before.1.move move, before.2.move before.1 move⟩
  elsewhere := by
    intro p t t' c settled before away
    have same : (Ctx.mk t' c).history = (Ctx.mk t c).history := away.history
    obtain ⟨at_point, next⟩ := before
    rw [same]
    refine ⟨?_, next⟩
    cases p with
    | closing => exact fun goesOn => (at_point (goesOn_elsewhere goesOn away)).elsewhere away
    | thinking => exact Drawn.elsewhere at_point away
    | writing | reading => exact (congrArg pending same).trans at_point
    | finished => trivial
    | _ => cases settled
  born := by
    intro x _ silent _ _
    rw [silent]
    exact ⟨by simp [DrawnAt, silent, pending], .nil⟩
  removed := by
    intro p x settled _ before _
    obtain ⟨at_point, next⟩ := before
    rw [removed_history]
    refine ⟨?_, next.quiet (by simp)⟩
    cases p with
    | closing => exact fun goesOn => absurd goesOn (by simp [Ctx.goesOn, Ctx.removed])
    | thinking | writing | reading =>
      simpa [DrawnAt, Drawn, pending_append, pendingStep, Ctx.removed, Ctx.history] using at_point
    | finished => trivial
    | _ => cases settled
  threadMove := fun _ _ => trivial

/-- **Every request after a response is for a URL drawn after it** in every run where a connection that
goes on is kept alive by every response. -/
theorem draws_sound (cfg : Config) (s : System)
    (reached : System.Reachable cfg (keptAlive.permits cfg) s) (id : Nat) (c : ConnectionState)
    (found : s.heap[id]? = some c) : DrawsNext (history c.id s.t.log) := by
  obtain ⟨_, p, _, _, _, next⟩ := ((draws cfg).reachable (fun _ => trivial) trivial reached).conns id c found
  exact next

/-- Does a read that ends a response keep the connection alive? -/
def readsAlive (cfg : Config) (outs : List ReadOutcome) (x : Ctx) : Bool :=
  match drain (Ctx.tryRead cfg) x outs with
  | .done y err _ => err != 0 || y.c.parser.shouldKeepAlive
  | _ => true

theorem readsAlive.permits {cfg : Config} {x : Ctx} {outs : List ReadOutcome}
    (alive : readsAlive cfg outs x = true) (id : Nat) (env : Env) :
    keptAlive.permitsCallback cfg x (.read id outs env) := by
  intro y err unused ended complete _
  rw [readsAlive, ended] at alive
  simpa [complete] using alive

/-- A request, and a response that keeps the connection alive. -/
def aliveExchange : List System.Input :=
  [.write 0 [.ok (.ok 100)] {},
    .read 0 [.ok (.ok (ascii "HTTP/1.1 200 OK\r\nContent-Length: 0\r\n\r\n"))] { rand := 1 }]

theorem draws_sound_example : ∃ s c, System.after twoPages aliveExchange = some s ∧
    s.heap[0]? = some c ∧ DrawsNext (history c.id s.t.log) := by
  have run : ((System.after twoPages aliveExchange).bind fun s => s.heap[0]?).isSome = true := by
    decide +kernel
  obtain ⟨s, c, ran, found⟩ := System.exists_after run
  refine ⟨s, c, ran, found, draws_sound twoPages s ⟨true, fun _ => {}, ?_⟩ 0 c found⟩
  rw [System.after, aliveExchange] at ran
  obtain ⟨middle, wrote, ran⟩ := Transition.run_cons ran
  obtain ⟨last, read, ran⟩ := Transition.run_cons ran
  cases ran
  refine .step (.step .start ?_ wrote) ?_ read
  · simp [Gate.permits, Gate.permitsCallback, keptAlive]
  · intro c here
    refine readsAlive.permits ?_ 0 _
    have alive : ((System.step twoPages (System.start twoPages true fun _ => {})
        (.write 0 [.ok (.ok 100)] {})).bind fun m => m.heap[0]?.map fun c => readsAlive twoPages
          [.ok (.ok (ascii "HTTP/1.1 200 OK\r\nContent-Length: 0\r\n\r\n"))] (m.ctx c)) =
        some true := by
      decide +kernel
    rw [wrote] at alive
    simpa [here] using alive

end Apib
