/-
**Requests over a connection that was kept.**

`ReadDone` asks the parser whether the connection is kept, and `recycle` then opens no new one for the next
request. What the parser says is what the server said: a request is only ever sent over a new connection, or
over one on which the response to the last request is there to its end and says that it stays open.

* `keeping`: whether a connection may be used for another request, from its calls and the responses;
* `serves_permit`: `ReadDone(0)` finds the parser to keep the connection only where the response does;
* `kept_open`: **a request is sent over a connection that may be used for it**.
-/

import Apib.Dialogue.Runs
import Apib.HttpParser.KeepAlive
import Apib.Runs.Reuse

namespace Apib

open ByteMachine Ctx Http

/-! ### What the calls tell -/

/-- What is known of a connection: may another request be sent, and how many were sent to their end? -/
structure Keeping where
  usable : Bool := false
  begun : Nat := 0
  deriving DecidableEq, Repr

/-- A new connection may be used, and goes on being so behind a response that says so, unless keep-alive is
switched off. A request, an error and any other response use it up. -/
def Keeping.note (noKeepAlive : Bool) (script : Nat → Message) (k : Keeping) : Event → Keeping
  | .connected .. => { k with usable := true }
  | .sendWrite .. => { k with usable := false }
  | .writeDone err => if err = 0 then { k with begun := k.begun + 1 } else k
  | .readDone err =>
    { k with usable := decide (err = 0) && !noKeepAlive && decide (script (k.begun - 1)).Persistent }
  | _ => k

/-- What the calls of a connection tell of it, where the server answers with these responses. -/
def keeping (noKeepAlive : Bool) (script : Nat → Message) (calls : List Event) : Keeping :=
  calls.foldl (Keeping.note noKeepAlive script) {}

/-- Every request is sent over a connection that may be used for it. -/
def SendsKept (noKeepAlive : Bool) (script : Nat → Message) (calls : List Event) : Prop :=
  ∀ before url socket after, calls = before ++ Event.sendWrite url socket :: after →
    (keeping noKeepAlive script before).usable = true

section Keeping

variable {noKeepAlive : Bool} {script : Nat → Message} {calls more : List Event} {event : Event}

@[simp] theorem keeping_append (calls more : List Event) : keeping noKeepAlive script (calls ++ more) =
    more.foldl (Keeping.note noKeepAlive script) (keeping noKeepAlive script calls) :=
  List.foldl_append

theorem length_modifyLast (change : Exchange → Exchange) (past : List Exchange) :
    (past.modifyLast change).length = past.length := by
  rcases List.eq_nil_or_concat past with rfl | ⟨front, last, rfl⟩
  · rfl
  · simp [List.modifyLast_concat]

/-- A request that was sent to its end is an exchange. -/
theorem keeping_begun (calls : List Event) :
    (keeping noKeepAlive script calls).begun = (exchanges calls).length := by
  have each : ∀ (calls : List Event) (k : Keeping) (past : List Exchange), k.begun = past.length →
      (calls.foldl (Keeping.note noKeepAlive script) k).begun = (calls.foldl Exchange.note past).length := by
    intro calls
    induction calls with
    | nil => exact fun k past same => same
    | cons event calls ih =>
      intro k past same
      rw [List.foldl_cons, List.foldl_cons]
      apply ih
      cases event with
      | writeDone err =>
        unfold Keeping.note Exchange.note
        dsimp only
        split <;> simp [same]
      | execute | result => exact same.trans (length_modifyLast _ past).symm
      | _ => simp [Keeping.note, Exchange.note, same]
  exact each calls {} [] rfl

theorem SendsKept.nil : SendsKept noKeepAlive script [] := by
  intro before url socket after parts
  simp at parts

/-- One call more. -/
theorem SendsKept.concat (sends : SendsKept noKeepAlive script calls)
    (usable : ∀ url socket, event = .sendWrite url socket → (keeping noKeepAlive script calls).usable = true) :
    SendsKept noKeepAlive script (calls ++ [event]) := by
  intro before url socket after parts
  rcases List.eq_nil_or_concat after with rfl | ⟨front, last, rfl⟩
  · obtain ⟨rfl, same⟩ := List.append_inj' parts rfl
    exact usable url socket (List.cons.inj same).1
  · have parts : calls ++ [event] = (before ++ Event.sendWrite url socket :: front) ++ [last] := by
      simpa using parts
    exact sends before url socket front (List.append_inj' parts rfl).1

/-- Calls that send no request. -/
theorem SendsKept.append (sends : SendsKept noKeepAlive script calls)
    (none_sent : ∀ url socket, Event.sendWrite url socket ∉ more) :
    SendsKept noKeepAlive script (calls ++ more) := by
  induction more generalizing calls with
  | nil => rwa [List.append_nil]
  | cons event more ih =>
    rw [List.append_cons]
    refine ih (sends.concat fun url socket same => ?_) fun url socket member =>
      none_sent url socket (List.mem_cons_of_mem _ member)
    exact absurd (same ▸ List.mem_cons_self) (none_sent url socket)

end Keeping

/-! ### At each point -/

/-- The parser keeps a connection behind a response only where the response does. -/
def servedAlive (cfg : Config) (script : Nat → Nat → Message) : Gate where
  readDone := fun _ err x => err = 0 → x.c.parser.shouldKeepAlive = true →
    (script x.c.id ((keeping cfg.noKeepAlive (script x.c.id) x.history).begun - 1)).Persistent

/-- May the connection be used, at a point where it is not closed? -/
def KeptAt (cfg : Config) (script : Nat → Message) : Point → Ctx → Prop
  | .sending, x => (keeping cfg.noKeepAlive script x.history).usable = true
  | .recycling closeConn, x => (closeConn || cfg.noKeepAlive || !x.t.shouldKeepRunning) = false →
    (keeping cfg.noKeepAlive script x.history).usable = true
  | .thinking, x | .attempting _, x =>
    x.c.needsOpen = false → (keeping cfg.noKeepAlive script x.history).usable = true
  | .closing, x | .closed, x => x.c.needsOpen = true
  | .born, _ | .writing, _ | .reading, _ | .finished, _ => True

section Moves

variable {cfg : Config} {script : Nat → Nat → Message} {p q : Point} {x y : Ctx}

/-- What is known of a connection goes with its history. -/
theorem usable_of_history {responses : Nat → Message} (same : y.history = x.history)
    (usable : (keeping cfg.noKeepAlive responses x.history).usable = true) :
    (keeping cfg.noKeepAlive responses y.history).usable = true :=
  same ▸ usable

theorem KeptAt.move (before : KeptAt cfg (script x.c.id) p x)
    (move : Move cfg (servedAlive cfg script) (p, x) (q, y)) : KeptAt cfg (script x.c.id) q y := by
  cases move with
  | start => exact fun isOpen => absurd isOpen (by simp)
  | fire => exact fun isOpen => usable_of_history (by simp [Ctx.history]) (before isOpen)
  | reuse x env caller isOpen =>
    have grown : (x.begun env caller).history = x.history ++ [.connectAndSend caller] := by
      simp [Ctx.begun, Ctx.history]
    show (keeping _ _ (x.begun env caller).history).usable = true
    rw [grown, keeping_append]
    exact before isOpen
  | connect x y env caller isClosed connected =>
    rw [Ctx.connect_eq_ok connected]
    simp [KeptAt, Ctx.history, Keeping.note, Ctx.opened, Ctx.begun]
  | refuse x env caller isClosed => exact fun isOpen => absurd isOpen (by simp [isClosed])
  | send | write | written | misparse | parse | finish => trivial
  | writeFailed | readFailed | leave | change => exact fun keeps => absurd keeps (by simp)
  | stay x env complete keeps same allowed =>
    intro stays
    simp only [Ctx.answered, Ctx.drawn, Ctx.recordResult, Ctx.note, Ctx.ioStop_eq, Bool.false_or,
      Bool.or_eq_false_iff, Bool.not_eq_false'] at stays
    have persistent := allowed rfl (by simpa using keeps)
    have grown : ({ (x.ioStop.answered env).drawn cfg env with
        c.writeDirty := x.c.writeDirty ||
          decide ((getNext cfg.urls cfg.some_url env.rand).place ≠ x.c.url.place) } : Ctx).history =
        x.history ++ [.readDone 0, .result x.c.parser.statusCode (env.endTime - x.c.startTime),
          .getNext (getNext cfg.urls cfg.some_url env.rand)] := by
      simp [Ctx.history]
    rw [grown, keeping_append]
    simpa [Keeping.note, stays.1, Ctx.history] using persistent
  | shut => exact rfl
  | await => simp [KeptAt]
  | pause x closeConn keeps | next x closeConn keeps =>
    exact fun _ => usable_of_history (by simp [Ctx.history]) (before keeps)
  | shutdown => simpa [KeptAt] using before
  | rest | reopen => exact fun isOpen => absurd (before.symm.trans isOpen) (by decide)
  | turn p x asked phase =>
    rcases phase with rfl | rfl | rfl
    · trivial
    · trivial
    · simpa [KeptAt] using before

theorem SendsKept.move (before : SendsKept cfg.noKeepAlive (script x.c.id) x.history)
    (kept : KeptAt cfg (script x.c.id) p x) (move : Move cfg (servedAlive cfg script) (p, x) (q, y)) :
    SendsKept cfg.noKeepAlive (script x.c.id) y.history := by
  by_cases sending : p = .sending
  · subst sending
    cases move with
    | send x env =>
      have grown : (x.writeRequest cfg env).sendWrite.history = x.history ++
          [.request x.c.url env.authHdr (x.writeRequest cfg env).c.fullWrite] ++
          [.sendWrite x.c.url x.c.socket] := by
        simp [Ctx.history]
      rw [grown]
      refine SendsKept.concat (before.append (by simp)) fun _ _ _ => ?_
      rw [keeping_append]
      exact kept
    | turn p x asked phase => rcases phase with same | same | same <;> cases same
  · obtain ⟨events, calls, grown⟩ := move.history
    rw [grown]
    exact before.append fun url socket member => sending (calls.sendWrite_mem member)

end Moves

/-! ### Over runs -/

section Runs

variable {cfg : Config} {script : Nat → Nat → Message} {s next : System}

/-- Requests over kept connections as an invariant. -/
def keptOpen (cfg : Config) (script : Nat → Nat → Message) : Invariant cfg (servedAlive cfg script) where
  thread := fun _ => True
  conn := fun p x => KeptAt cfg (script x.c.id) p x ∧ SendsKept cfg.noKeepAlive (script x.c.id) x.history
  move := by
    intro p q x y move _ _ before
    rw [move.frame.id]
    exact ⟨trivial, before.1.move move, before.2.move before.1 move⟩
  elsewhere := by
    intro p t t' c settled before away
    have same : (Ctx.mk t' c).history = (Ctx.mk t c).history := away.history
    rw [same]
    refine ⟨?_, before.2⟩
    cases p with
    | recycling => cases settled
    | born | finished | writing | reading => trivial
    | _ => simpa [KeptAt, same] using before.1
  born := by
    intro x _ silent _ _
    rw [silent]
    exact ⟨trivial, .nil⟩
  removed := by
    intro p x settled _ before _
    rw [removed_history]
    refine ⟨?_, before.2.append (by simp)⟩
    have kept := before.1
    cases p with
    | recycling => cases settled
    | thinking | attempting =>
      intro isOpen
      rw [removed_history, keeping_append]
      exact kept isOpen
    | sending =>
      show (keeping _ _ x.removed.history).usable = true
      rw [removed_history, keeping_append]
      exact kept
    | _ => exact kept
  threadMove := fun _ _ => trivial

/-- **What a server can bring about**: `ReadDone(0)` finds that the parser keeps a connection only where the
response does. -/
theorem serves_permit
    (answers : ∀ id k, Parse.Answers cfg.parserStrict (script id k).bytes (script id k).head.status)
    (keeps : ∀ id k, (Parse.behind cfg.parserStrict (script id k).bytes
      (script id k).bytes.length).parser.shouldKeepAlive = decide (script id k).Persistent)
    (everywhere : (dialogues cfg script answers).Everywhere s) (input : System.Input)
    (served : System.Serves script s input) (taken : s.step cfg input = some next) :
    (servedAlive cfg script).permits cfg s input := by
  cases input with
  | read id outs env =>
    intro c found y err unused done isZero stays
    obtain ⟨c', found', called⟩ := Option.bind_eq_some_iff.mp taken
    obtain rfl := Option.some.inj (found.symm.trans found')
    obtain ⟨z, called, -⟩ := Option.map_eq_some_iff.mp called
    simp only [System.callback] at called
    split at called
    · next enabled =>
      rw [Bool.and_eq_true, beq_iff_eq] at enabled
      obtain ⟨past, n, hearing⟩ := (everywhere.conns id c found).reading enabled.1 enabled.2
      obtain ⟨small, given⟩ := served c found
      rw [hearing.sofar.exchanges, upcoming_concat] at given
      have heard := hearing.drain (answers _ past.length) outs small given
      rw [done] at heard
      obtain ⟨n', sofar, -, -⟩ := heard.sofar
      obtain ⟨last, stays', ended, -⟩ : ∃ last, Stays cfg Gate.free .reading (s.ctx c) last ∧ y = last.ioStop ∧
          (err = 0 → last.c.readDone = true) := by
        have leads := drain_stays (tryRead_follows cfg Gate.free) (s.ctx c) outs
        rwa [done] at leads
      have sameId : y.c.id = c.id := by
        rw [ended]
        simpa [System.ctx] using (Leads.frame ⟨.reading, rfl, stays'⟩).id
      have count : (keeping cfg.noKeepAlive (script y.c.id) y.history).begun - 1 = past.length := by
        rw [keeping_begun, sofar.exchanges]
        simp
      rw [count, sameId]
      have parser := heard.parser isZero
      have alive := keeps (s.ctx c).c.id past.length
      rw [← parser] at alive
      exact of_decide_eq_true (alive.symm.trans stays)
    · cases called
  | write | shutdown | timer => simp [Gate.permits, Gate.permitsCallback, servedAlive]
  | async envs => exact Gate.permits_commands (fun _ => trivial) cfg envs _ _
  | command | hardShutdown => trivial

/-- **A request is sent over a connection that may be used for it**: over a new one, or over one on which the
response of the server to the last request is there to its end and says that the connection stays open. -/
theorem kept_open (cfg : Config) (script : Nat → Nat → Message)
    (wellFormed : ∀ id k, (script id k).WellFormed cfg.httpVerb)
    (agrees : ∀ id k, Parse.Agrees (script id k)) (tidy : ∀ id k, (script id k).Tidy) (s : System)
    (reached : System.Reachable cfg (System.Serves script) s) (id : Nat) (c : ConnectionState)
    (found : s.heap[id]? = some c) : SendsKept cfg.noKeepAlive (script id) (history id s.t.log) := by
  have answers := Parse.answers_of_agrees cfg.parserStrict wellFormed agrees
  have keeps : ∀ id k, (Parse.behind cfg.parserStrict (script id k).bytes
      (script id k).bytes.length).parser.shouldKeepAlive = decide (script id k).Persistent := by
    intro id k
    rw [Parse.behind, List.take_length]
    exact Parse.keepsAlive (wellFormed id k) (agrees id k) (tidy id k)
  have permitted : System.Reachable cfg ((servedAlive cfg script).permits cfg) s := by
    obtain ⟨reporting, envs, reached⟩ := reached
    refine ⟨reporting, envs, ?_⟩
    clear found
    induction reached with
    | start => exact .start
    | step before served taken ih =>
      have everywhere := (dialogues cfg script answers).reachable ⟨reporting, envs, before⟩
      exact .step ih (serves_permit answers keeps everywhere _ served taken) taken
  have holds := (keptOpen cfg script).reachable (fun _ => trivial) trivial permitted
  have conn := holds.conns id c found
  obtain ⟨same, p, _, _, _, sends⟩ := conn
  subst same
  exact sends

theorem hello_tidy : hello.Tidy := by
  have no_options : ∀ f ∈ hello.head.fields ++ hello.trailer, ¬f.OfConnection := by
    decide +kernel
  exact fun f member options => absurd options (no_options f member)

/-- How many connections were opened, and how many requests were started. -/
def opensAndSends (calls : List Event) : Nat × Nat :=
  (calls.countP fun | .connected .. => true | _ => false, calls.countP fun | .sendWrite .. => true | _ => false)

theorem kept_open_example : ∃ s c, System.dialogue = some s ∧ s.heap[0]? = some c ∧
    opensAndSends (history 0 s.t.log) = (2, 3) ∧ SendsKept false (fun _ => hello) (history 0 s.t.log) := by
  have some_state : (System.dialogue.bind fun s => s.heap[0]?).isSome = true ∧
      (System.dialogue.map fun s => opensAndSends (history 0 s.t.log)) = some (2, 3) := by
    decide +kernel
  obtain ⟨c, reached⟩ := Option.isSome_iff_exists.mp some_state.1
  obtain ⟨s, ran, found⟩ := Option.bind_eq_some_iff.mp reached
  have counts := some_state.2
  rw [ran] at counts
  exact ⟨s, c, ran, found, Option.some.inj counts,
    kept_open System.oneConnection (fun _ _ => hello) (fun _ _ => hello_wellFormed)
      (fun _ _ => hello_agrees) (fun _ _ => hello_tidy) s (System.dialogue_reached ran) 0 c found⟩

end Runs

end Apib
