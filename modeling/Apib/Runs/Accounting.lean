/-
**Every request attempt is accounted for once.**

* `request_accounting`: in every state of every run, the `ConnectAndSend` calls of a connection are as
  many as its results and its socket errors together, plus one if a request is being written or read;
  it has called `RecordConnectionOpen` once for each successful `Connect`; and without keep-alive each
  socket it opened has served exactly one request.
* `totals_counted`: the counters of the thread and of the report are the numbers of those calls over
  all connections.
-/

import Apib.Lifecycle.Invariant

namespace Apib

/-! ### Counting calls -/

/-- Kinds of calls. -/
def Event.isAttempt : Event → Bool
  | .connectAndSend _ => true
  | _ => false

@[inherit_doc Event.isAttempt] def Event.isResult : Event → Bool
  | .result .. => true
  | _ => false

@[inherit_doc Event.isAttempt] def Event.isSocketError : Event → Bool
  | .socketError => true
  | _ => false

@[inherit_doc Event.isAttempt] def Event.isConnectionOpen : Event → Bool
  | .connectionOpen => true
  | _ => false

@[inherit_doc Event.isAttempt] def Event.isConnected : Event → Bool
  | .connected .. => true
  | _ => false

/-- What happens to a socket: it is opened, or a request is started on it. -/
inductive Service
  | opened | sent
  deriving DecidableEq, Repr

/-- The openings of sockets and the starts of requests among the calls. -/
def services (calls : List Event) : List Service :=
  calls.filterMap fun
    | .connected .. => some .opened
    | .sendWrite .. => some .sent
    | _ => none

/-- So many sockets, each opened and then used for one request. -/
def oneEach (sockets : Nat) : List Service := (List.replicate sockets [.opened, .sent]).flatten

/-- Is a request of the connection being written or read? -/
def ConnectionState.inFlight (c : ConnectionState) : Bool :=
  c.io.active && (c.io.callback == .writeReady || c.io.callback == .readReady)

/-- The accounts of a connection. -/
structure Accounted (cfg : Config) (t : IOThread) (c : ConnectionState) : Prop where
  attempts : (history c.id t.log).countP Event.isAttempt =
    (history c.id t.log).countP Event.isResult + (history c.id t.log).countP Event.isSocketError +
      if c.inFlight then 1 else 0
  opened : (history c.id t.log).countP Event.isConnectionOpen =
    (history c.id t.log).countP Event.isConnected
  single : cfg.noKeepAlive = true → services (history c.id t.log) =
    oneEach ((history c.id t.log).countP Event.isConnected)

/-! ### At each point -/

/-- Attempts on their way at a point. -/
def Point.owes : Point → Nat
  | .sending | .writing | .reading => 1
  | _ => 0

/-- Without keep-alive, has the connection no socket to use at this point? -/
def Point.mustOpen : Point → Bool
  | .attempting _ | .closed | .closing | .thinking => true
  | _ => false

/-- The accounts of a connection at a point. -/
structure AccountedAt (cfg : Config) (p : Point) (x : Ctx) : Prop where
  attempts : x.history.countP Event.isAttempt =
    x.history.countP Event.isResult + x.history.countP Event.isSocketError + p.owes
  opened : x.history.countP Event.isConnectionOpen = x.history.countP Event.isConnected
  needs : cfg.noKeepAlive = true → p.mustOpen = true → x.c.needsOpen = true
  single : cfg.noKeepAlive = true → services x.history ++ (if p = .sending then [.sent] else []) =
    oneEach (x.history.countP Event.isConnected)

section Moves

variable {cfg : Config} {gate : Gate} {p q : Point} {x y : Ctx}

@[simp] theorem services_append (calls more : List Event) :
    services (calls ++ more) = services calls ++ services more :=
  List.filterMap_append

theorem oneEach_succ (sockets : Nat) : oneEach (sockets + 1) = oneEach sockets ++ [.opened, .sent] := by
  simp [oneEach, List.replicate_succ', List.flatten_append]

/-- Without keep-alive a connection that has to open a socket knows it. -/
theorem needsOpen_move (move : Move cfg gate (p, x) (q, y)) (noKeepAlive : cfg.noKeepAlive = true)
    (needs : p.mustOpen = true → x.c.needsOpen = true) :
    q.mustOpen = true → y.c.needsOpen = true := by
  cases move with
  | connect => exact fun never => by cases never
  | pause x closeConn keeps | next x closeConn keeps => simp [noKeepAlive] at keeps
  | _ => simp_all [Point.mustOpen]

theorem AccountedAt.move (before : AccountedAt cfg p x) (move : Move cfg gate (p, x) (q, y)) :
    AccountedAt cfg q y := by
  obtain ⟨attempts, opened, needs, single⟩ := before
  obtain ⟨events, calls, grown⟩ := move.history
  refine ⟨?_, ?_, fun noKeepAlive => needsOpen_move move noKeepAlive (needs noKeepAlive), ?_⟩
  · rw [grown]
    simp only [List.countP_append]
    cases calls with
    | recycle _ _ goesTo => rcases goesTo with rfl | rfl | rfl | rfl <;> exact attempts
    | goOn _ goesTo => rcases goesTo with rfl | rfl <;> exact attempts
    | turn => exact attempts
    | _ =>
      simp [List.countP_cons, Event.isAttempt, Event.isResult, Event.isSocketError, Point.owes]
        at attempts ⊢
      omega
  · rw [grown]
    simp only [List.countP_append]
    cases calls with
    | connect => simpa [List.countP_cons, Event.isConnectionOpen, Event.isConnected] using opened
    | _ => simpa [Event.isConnectionOpen, Event.isConnected] using opened
  · intro noKeepAlive
    have sofar := single noKeepAlive
    rw [grown]
    simp only [List.countP_append, services_append]
    cases calls with
    | reuse caller isOpen => exact absurd (needs noKeepAlive rfl) (by simp [isOpen])
    | connect =>
      simpa [List.countP_cons, Event.isConnected, services, oneEach_succ] using sofar
    | recycle _ _ goesTo =>
      rcases goesTo with rfl | rfl | rfl | rfl <;> simpa [services] using sofar
    | goOn _ goesTo => rcases goesTo with rfl | rfl <;> simpa [services] using sofar
    | turn => simpa [services] using sofar
    | _ => simpa [Event.isConnected, services] using sofar

/-! ### Totals -/

/-- The calls of all connections, in order. -/
def allCalls (log : List Entry) : List Event :=
  log.filterMap fun
    | .conn _ event => some event
    | _ => none

/-- The counters agree with the calls. -/
structure Totals (t : IOThread) : Prop where
  results : t.counters.successfulRequests + t.counters.failedRequests =
    (allCalls t.log).countP Event.isResult
  latencies : t.counters.latencies.length = (allCalls t.log).countP Event.isResult
  socketErrors : t.reporting.reporting = true →
    t.reporting.socketErrors = (allCalls t.log).countP Event.isSocketError
  connectionsOpened : t.reporting.reporting = true →
    t.reporting.connectionsOpened = (allCalls t.log).countP Event.isConnectionOpen

@[simp] theorem allCalls_append (log more : List Entry) :
    allCalls (log ++ more) = allCalls log ++ allCalls more :=
  List.filterMap_append

@[simp] theorem allCalls_conn (id : Nat) (event : Event) (log : List Entry) :
    allCalls (.conn id event :: log) = event :: allCalls log := rfl

@[simp] theorem allCalls_nil : allCalls [] = [] := rfl

theorem Totals.move (before : Totals x.t) (move : Move cfg gate (p, x) (q, y)) : Totals y.t := by
  obtain ⟨results, latencies, socketErrors, connectionsOpened⟩ := before
  cases move with
  | connect x y env caller isClosed connected =>
    rw [Ctx.connect_eq_ok connected]
    refine ⟨?_, ?_, fun reports => ?_, fun reports => ?_⟩
    · simpa [List.countP_cons, Event.isResult] using results
    · simpa [List.countP_cons, Event.isResult] using latencies
    · simpa [List.countP_cons, Event.isSocketError] using socketErrors (by simpa using reports)
    · have reports : x.t.reporting.reporting = true := by simpa using reports
      simpa [List.countP_cons, Event.isConnectionOpen, reports] using connectionsOpened reports
  | refuse | writeFailed | readFailed =>
    refine ⟨?_, ?_, fun reports => ?_, fun reports => ?_⟩
    · simpa [List.countP_cons, Event.isResult] using results
    · simpa [List.countP_cons, Event.isResult] using latencies
    · have reports : x.t.reporting.reporting = true := by simpa using reports
      simpa [List.countP_cons, Event.isSocketError, reports] using socketErrors reports
    · simpa [List.countP_cons, Event.isConnectionOpen] using
        connectionsOpened (by simpa using reports)
  | leave | change | stay =>
    refine ⟨?_, ?_, fun reports => ?_, fun reports => ?_⟩
    · simp [List.countP_cons, Event.isResult]
      split <;> simp <;> omega
    · simp [List.countP_cons, Event.isResult]
      split <;> simpa using latencies
    · simpa [List.countP_cons, Event.isSocketError] using socketErrors (by simpa using reports)
    · simpa [List.countP_cons, Event.isConnectionOpen] using
        connectionsOpened (by simpa using reports)
  | _ =>
    exact ⟨by simpa [Event.isResult] using results, by simpa [Event.isResult] using latencies,
      by simpa [Event.isSocketError] using socketErrors,
      by simpa [Event.isConnectionOpen] using connectionsOpened⟩

theorem Totals.threadMove {t t' : IOThread} (before : Totals t) (move : ThreadMove t t') :
    Totals t' := by
  obtain ⟨results, latencies, socketErrors, connectionsOpened⟩ := before
  cases move <;>
    exact ⟨by simpa [allCalls, Event.isResult] using results,
      by simpa [allCalls, Event.isResult] using latencies,
      by simpa [allCalls, Event.isSocketError] using socketErrors,
      by simpa [allCalls, Event.isConnectionOpen] using connectionsOpened⟩

end Moves

/-! ### Over runs -/

/-- The accounts as an invariant. -/
def accounts (cfg : Config) : Invariant cfg Gate.free where
  thread := Totals
  conn := AccountedAt cfg
  move := fun move _ totals before => ⟨totals.move move, before.move move⟩
  elsewhere := by
    intro p t t' c settled before away
    obtain ⟨attempts, opened, needs, single⟩ := before
    exact ⟨by simpa [Ctx.history, away.history] using attempts,
      by simpa [Ctx.history, away.history] using opened, needs,
      by simpa [Ctx.history, away.history] using single⟩
  born := by
    intro x _ silent _ _
    exact ⟨by simp [silent, Point.owes], by simp [silent], (fun _ never => nomatch never),
      by simp [silent, services, oneEach]⟩
  removed := by
    intro p x settled _ before _
    obtain ⟨attempts, opened, needs, single⟩ := before
    exact ⟨by simpa [Event.isAttempt, Event.isResult, Event.isSocketError] using attempts,
      by simpa [Event.isConnectionOpen, Event.isConnected] using opened, needs,
      by simpa [services, Event.isConnected] using single⟩
  threadMove := fun move totals => totals.threadMove move

theorem accounts_hold {cfg : Config} {s : System}
    (reached : System.Reachable cfg Transition.anyStep s) : (accounts cfg).Holds s :=
  (accounts cfg).reachable_any
    (fun _ => ⟨rfl, rfl, fun _ => rfl, fun _ => rfl⟩) reached

/-- The attempts on their way at a point between callbacks. -/
theorem At.owes {p : Point} {x : Ctx} (now : At p x) (settled : p.settled = true) :
    p.owes = if x.c.inFlight then 1 else 0 := by
  cases p with
  | writing | reading | closing =>
    simp [Point.owes, ConnectionState.inFlight, now.io]
  | thinking | finished => simp [Point.owes, ConnectionState.inFlight, now.noIo]
  | _ => simp [Point.settled] at settled

/-- **Every attempt of a connection is accounted for once.** -/
theorem request_accounting (cfg : Config) (s : System)
    (reached : System.Reachable cfg Transition.anyStep s) (id : Nat) (c : ConnectionState)
    (found : s.heap[id]? = some c) : Accounted cfg s.t c := by
  obtain ⟨_, p, settled, now, attempts, opened, _, single⟩ := (accounts_hold reached).conns id c found
  refine ⟨?_, opened, fun noKeepAlive => ?_⟩
  · rw [← now.owes settled]
    exact attempts
  · have served := single noKeepAlive
    rw [if_neg (fun sending => by subst sending; cases settled), List.append_nil] at served
    exact served

theorem request_accounting_example : ∃ s c,
    System.after System.oneConnection [.write 0 [.ok (.ok 100)] {},
      .read 0 [.ok (.ok (ascii "HTTP/1.1 200 OK\r\nContent-Length: 0\r\n\r\n"))] {}] = some s ∧
      s.heap[0]? = some c ∧ Accounted System.oneConnection s.t c :=
  have ⟨s, c, ran, found⟩ := System.exists_after (by decide +kernel)
  ⟨s, c, ran, found, request_accounting _ s (System.reachable_any ran) 0 c found⟩

/-- **The counters are the numbers of the calls.** -/
theorem totals_counted (cfg : Config) (s : System)
    (reached : System.Reachable cfg Transition.anyStep s) : Totals s.t :=
  (accounts_hold reached).thread

end Apib
