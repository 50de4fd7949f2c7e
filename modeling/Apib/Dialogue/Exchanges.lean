/-
**Requests and what came back for them.**

The calls of a connection tell of every request that it sent to its end how many bytes were parsed while
it waited for the response, and which status codes were recorded for it: `exchanges`, in order.

* `Beside`: calls that have no part in an exchange, and `Aside`, where the connection is not to read
  afterwards either;
* `connectAndSend_aside`, `closeDone_aside`, `recycle_aside`, `completeShutdown_aside`: **what a
  connection does between two exchanges is aside**;
* `readDone_tells`: `ReadDone(0)` records one status code, and `ReadDone` with an error none.
-/

import Apib.Reading.Completion
import Mathlib.Data.List.ModifyLast

namespace Apib

open Ctx

/-! ### Exchanges -/

/-- What came back for a request: the bytes parsed, and the status codes recorded. -/
structure Exchange where
  received : Nat := 0
  results : List Nat := []
  deriving DecidableEq, Repr

/-- What one call adds to the exchanges so far. -/
def Exchange.note (past : List Exchange) : Event → List Exchange
  | .writeDone err => if err = 0 then past ++ [{}] else past
  | .execute _ sources =>
    past.modifyLast fun e => { e with received := e.received + sources.length }
  | .result statusCode _ => past.modifyLast fun e => { e with results := e.results ++ [statusCode] }
  | _ => past

/-- The exchanges of a connection, from its calls. -/
def exchanges (calls : List Event) : List Exchange := calls.foldl Exchange.note []

/-- The status codes that are recorded. -/
def statuses (calls : List Event) : List Nat :=
  calls.filterMap fun
    | .result statusCode _ => some statusCode
    | _ => none

/-- Has this call no part in an exchange? -/
def Event.aside : Event → Bool
  | .writeDone err => err != 0
  | .execute .. | .result .. => false
  | _ => true

section Exchanges

variable {calls more : List Event} {past : List Exchange} {e : Exchange}

@[simp] theorem exchanges_append (calls more : List Event) :
    exchanges (calls ++ more) = more.foldl Exchange.note (exchanges calls) :=
  List.foldl_append

/-- Calls aside leave the exchanges as they are. -/
theorem exchanges_aside (aside : ∀ call ∈ more, call.aside = true) :
    exchanges (calls ++ more) = exchanges calls := by
  rw [exchanges_append]
  induction more with
  | nil => rfl
  | cons call more ih =>
    have still : Exchange.note (exchanges calls) call = exchanges calls := by
      have beside := aside call List.mem_cons_self
      cases call <;> simp_all [Event.aside, Exchange.note]
    rw [List.foldl_cons, still]
    exact ih fun later member => aside later (List.mem_cons_of_mem call member)

@[simp] theorem statuses_append (calls more : List Event) :
    statuses (calls ++ more) = statuses calls ++ statuses more :=
  List.filterMap_append

theorem statuses_aside (aside : ∀ call ∈ more, call.aside = true) :
    statuses (calls ++ more) = statuses calls := by
  have none_here : statuses more = [] := by
    rw [statuses, List.filterMap_eq_nil_iff]
    intro call member
    have beside := aside call member
    cases call <;> simp_all [Event.aside]
  rw [statuses_append, none_here, List.append_nil]

/-- Some bytes are parsed. -/
theorem exchanges_execute (sofar : exchanges calls = past ++ [e]) (socket : Option Socket)
    (sources : List (Option Nat)) : exchanges (calls ++ [.execute socket sources]) =
      past ++ [{ e with received := e.received + sources.length }] := by
  rw [exchanges_append, sofar]
  exact List.modifyLast_concat _ _ _

/-- A status code is recorded. -/
theorem exchanges_result (sofar : exchanges calls = past ++ [e]) (statusCode : Nat) (latency : Int) :
    exchanges (calls ++ [.result statusCode latency]) =
      past ++ [{ e with results := e.results ++ [statusCode] }] := by
  rw [exchanges_append, sofar]
  exact List.modifyLast_concat _ _ _

end Exchanges

/-! ### Between two exchanges -/

/-- Nothing that has a part in an exchange has happened since `x`, and no byte was read. -/
structure Beside (x y : Ctx) : Prop where
  calls : ∃ calls, y.history = x.history ++ calls ∧ ∀ call ∈ calls, call.aside = true
  readBuf : y.c.readBuf = x.c.readBuf

/-- Neither is the connection to read now. -/
structure Aside (x y : Ctx) : Prop extends Beside x y where
  notReading : y.c.io.active = true → y.c.io.callback ≠ .readReady

section Aside

variable {cfg : Config} {env : Env} {x y z : Ctx}

theorem Beside.refl : Beside x x := ⟨⟨[], by simp, by simp⟩, rfl⟩

theorem Beside.trans (first : Beside x y) (second : Beside y z) : Beside x z := by
  obtain ⟨⟨calls, grown, beside⟩, readBuf⟩ := first
  obtain ⟨⟨more, grown', beside'⟩, readBuf'⟩ := second
  refine ⟨⟨calls ++ more, by rw [grown', grown, List.append_assoc], fun call member => ?_⟩,
    readBuf'.trans readBuf⟩
  rcases List.mem_append.mp member with early | late
  · exact beside call early
  · exact beside' call late

theorem Beside.exchanges (beside : Beside x y) : exchanges y.history = exchanges x.history := by
  obtain ⟨calls, grown, aside⟩ := beside.calls
  rw [grown, exchanges_aside aside]

theorem Beside.statuses (beside : Beside x y) : statuses y.history = statuses x.history := by
  obtain ⟨calls, grown, aside⟩ := beside.calls
  rw [grown, statuses_aside aside]

/-- What goes ahead may be anything that has no part in an exchange either. -/
theorem Aside.after (aside : Aside y z) (calls : List Event) (grown : y.history = x.history ++ calls)
    (beside : ∀ call ∈ calls, call.aside = true) (readBuf : y.c.readBuf = x.c.readBuf) : Aside x z :=
  ⟨.trans ⟨⟨calls, grown, beside⟩, readBuf⟩ aside.toBeside, aside.notReading⟩

/-- Some calls and no watcher that reads. -/
theorem Aside.of_history (calls : List Event) (grown : y.history = x.history ++ calls)
    (beside : ∀ call ∈ calls, call.aside = true) (readBuf : y.c.readBuf = x.c.readBuf)
    (notReading : y.c.io.active = true → y.c.io.callback ≠ .readReady) : Aside x y :=
  ⟨⟨⟨calls, grown, beside⟩, readBuf⟩, notReading⟩

theorem connectAndSend_aside (noIo : x.c.io.active = false) (caller : Caller) :
    Aside x (x.connectAndSend cfg env caller) := by
  unfold Ctx.connectAndSend
  dsimp only
  split
  · rcases Ctx.connect_cases cfg env
      { x.note (.connectAndSend caller) with c.startTime := env.startTime } with failed | opened
    · rw [failed]
      apply Aside.of_history [.connectAndSend caller, .socketError]
      · simp [Ctx.history]
      · simp [Event.aside]
      · simp
      · simp [noIo]
    · rw [opened]
      apply Aside.of_history
      · simp [Ctx.history]
        rfl
      · simp [Event.aside]
      · simp
      · simp
  · apply Aside.of_history
    · simp [Ctx.history]
      rfl
    · simp [Event.aside]
    · simp
    · simp

theorem thinkingDone_aside (noIo : x.c.io.active = false) : Aside x (x.thinkingDone cfg env) :=
  (connectAndSend_aside
      (x := { x with c.thinkTimer.active := false, t.activeCnt := x.t.activeCnt - 1 }) noIo _).after []
    (by simp [Ctx.history]) (by simp) rfl

/-- A new connection. -/
theorem startConnect_aside (noIo : x.c.io.active = false) : Aside x (x.startConnect cfg env) :=
  (connectAndSend_aside (x := { x.drawn cfg env with c.needsOpen := true }) noIo _).after
    [.getNext (getNext cfg.urls cfg.some_url env.rand)] (by simp [Ctx.history]) (by simp [Event.aside]) rfl

theorem closeDone_aside (noIo : x.c.io.active = false) : Aside x (x.closeDone cfg env) := by
  unfold Ctx.closeDone
  split
  · apply Aside.of_history [.closeDone]
    · simp [Ctx.history]
    · simp [Event.aside]
    · rfl
    · simp [noIo]
  · split
    · apply Aside.of_history []
      · simp [Ctx.history]
      · simp
      · rfl
      · simp [noIo]
    · exact connectAndSend_aside noIo _

theorem recycle_aside (noIo : x.c.io.active = false) (closeConn : Bool) :
    Aside x (x.recycle cfg env closeConn) := by
  have closed : ∀ {y : Ctx}, y.history = x.history → y.c.readBuf = x.c.readBuf →
      y.c.io.active = false → Aside x (y.closeDone cfg env) := fun same buffer idle =>
    (closeDone_aside idle).after [] (by simp [same]) (by simp) buffer
  unfold Ctx.recycle Ctx.close
  split
  · split
    · exact closed (by simp [Ctx.history]) (by simp) (by simp)
    · exact closed rfl rfl noIo
    · exact closed rfl rfl noIo
    · apply Aside.of_history [] <;> simp [Ctx.history]
    · apply Aside.of_history [] <;> simp [Ctx.history]
  · dsimp only
    split
    · apply Aside.of_history [] <;> simp [Ctx.history, noIo]
    · refine (connectAndSend_aside (x := { x with c.needsOpen := false }) ?_ _).after [] ?_ ?_ rfl
      · exact noIo
      · simp [Ctx.history]
      · simp

theorem completeShutdown_aside (now : At .closing x) (out : ReadOutcome) :
    Aside x (x.completeShutdown cfg env out) := by
  have io := now.io
  have closed : Aside x (Ctx.closeDone cfg env { x.ioStop with c.socket := none }) :=
    (closeDone_aside (by simp)).after [] (by simp [Ctx.history]) (by simp) (by simp)
  unfold Ctx.completeShutdown
  split
  · exact closed
  · exact closed
  · exact closed
  · dsimp only
    split <;> apply Aside.of_history [] <;> simp [Ctx.history, io]
  · dsimp only
    split <;> apply Aside.of_history [] <;> simp [Ctx.history, io]

/-- A request that cannot be sent is no exchange. -/
theorem writeDone_aside {err : Int} (isError : err ≠ 0) (noIo : x.c.io.active = false) :
    Aside x (x.writeDone cfg env err) := by
  unfold Ctx.writeDone
  rw [if_pos isError]
  refine (recycle_aside (by simpa using noIo) true).after [.writeDone err, .socketError] ?_ ?_ ?_
  · simp [Ctx.history]
  · simpa [Event.aside] using isError
  · simp

/-! ### The end of an exchange -/

/-- A reading that fails records nothing. -/
theorem readDone_aside {err : Int} (isError : err ≠ 0) (noIo : x.c.io.active = false) :
    Aside x (x.readDone cfg env err) := by
  unfold Ctx.readDone
  rw [if_pos isError]
  refine (recycle_aside (by simpa using noIo) true).after [.readDone err, .socketError] ?_ ?_ ?_
  · simp [Ctx.history]
  · simp [Event.aside]
  · simp

/-- **`ReadDone(0)` records the status code of the parser, and only that.** -/
theorem readDone_tells (noIo : x.c.io.active = false) :
    Aside (x.answered env) (x.readDone cfg env 0) := by
  have drawn : ∀ (z : Ctx) (closeConn : Bool), z.history = (x.answered env).history ++
        [.getNext (getNext cfg.urls cfg.some_url env.rand)] → z.c.readBuf = x.c.readBuf →
      z.c.io.active = false → Aside (x.answered env) (z.recycle cfg env closeConn) :=
    fun z closeConn grown buffer idle =>
      (recycle_aside idle closeConn).after _ grown (by simp [Event.aside]) buffer
  rw [readDone_zero]
  split
  · exact recycle_aside (by simpa using noIo) true
  · split <;> exact drawn _ _ (by simp [Ctx.history]) (by simp) (by simpa using noIo)

/-- The calls of `ReadDone(0)` until the next URL is drawn. -/
theorem answered_history (env : Env) (x : Ctx) : (x.answered env).history = (x.history ++ [.readDone 0]) ++
    [.result x.c.parser.statusCode (env.endTime - x.c.startTime)] := by
  simp [Ctx.history]

theorem answered_exchanges {past : List Exchange} {e : Exchange}
    (sofar : exchanges x.history = past ++ [e]) : exchanges (x.answered env).history =
      past ++ [{ e with results := e.results ++ [x.c.parser.statusCode] }] := by
  rw [answered_history]
  refine exchanges_result ?_ _ _
  rw [exchanges_aside (by simp [Event.aside]), sofar]

theorem answered_statuses (env : Env) (x : Ctx) :
    statuses (x.answered env).history = statuses x.history ++ [x.c.parser.statusCode] := by
  rw [answered_history, statuses_append, statuses_aside (by simp [Event.aside])]
  rfl

end Aside

/-! ### Writing -/

section Writing

variable {x y : Ctx}

/-- While a request is written no exchange is going on. -/
theorem tryWrite_beside (x : Ctx) (out : WriteOutcome) :
    match x.tryWrite out with
    | .returns y _ | .done y _ _ => Beside x y := by
  have turned : ∀ home asked, Beside x (x.turned home asked) := fun home asked =>
    ⟨⟨[], by simp [Ctx.history], by simp⟩, by simp⟩
  match out with
  | .error _ => exact ⟨⟨[], by simp [Ctx.history], by simp⟩, by simp⟩
  | .ok (.ok wrote) =>
    by_cases all : (x.accepted wrote).c.fullWritePos = (x.accepted wrote).c.fullWrite.length
    · have exit : x.tryWrite (.ok (.ok wrote)) = .done (x.accepted wrote).ioStop 0 0 := if_pos all
      rw [exit]
      exact ⟨⟨_, by simp [Ctx.history]; rfl, by simp [Event.aside]⟩, by simp⟩
    · have exit : x.tryWrite (.ok (.ok wrote)) = .returns (x.accepted wrote) 1 := if_neg all
      rw [exit]
      exact ⟨⟨_, by simp [Ctx.history]; rfl, by simp [Event.aside]⟩, by simp⟩
  | .ok .feof => exact .refl
  | .ok .needWrite =>
    have exit : x.tryWrite (.ok .needWrite) = .returns (x.turned .write .write) 0 := by
      rw [turned_home]
      rfl
    rw [exit]
    exact turned .write .write
  | .ok .needRead =>
    have exit : x.tryWrite (.ok .needRead) = .returns (x.turned .write .read) 0 := by
      rw [turned_away x (by decide)]
      rfl
    rw [exit]
    exact turned .write .read

theorem drain_beside (x : Ctx) (outs : List WriteOutcome) :
    match drain tryWrite x outs with
    | .going y | .paused y _ | .done y _ _ => Beside x y := by
  induction outs generalizing x with
  | nil => exact .refl
  | cons out outs ih =>
    have one := tryWrite_beside x out
    simp only [drain]
    cases exit : x.tryWrite out with
    | done y err code =>
      rw [exit] at one
      exact one
    | returns y code =>
      rw [exit] at one
      by_cases again : code > 0
      · simp only [if_pos again]
        have more := ih y
        cases rest : drain tryWrite y outs <;> rw [rest] at more <;> exact one.trans more
      · simp only [if_neg again]
        exact one

end Writing

end Apib
