/-
**The callbacks are chains of moves.**

`Leads cfg gate p x y` says that moves permitted by the gate lead from point `p` and context `x` to
the context `y` at some point between callbacks. Every function of the connection that ends a callback
leads from its entry point to its result; the loops of `writeReady` and `readReady` are first split
into the socket calls (`drain`) and the last call of `WriteDone` or `ReadDone`.

* `callback_leads`: **each callback leads from where the connection was to where it leaves it**, if the
  gate permits the outside choices that the callback is given (`Gate.permitsCallback`).
-/

import Apib.Lifecycle.Watchers

namespace Apib

open Ctx

/-! ### The loops up to their last call -/

/-- What a loop over socket calls comes to, before the call of `WriteDone` or `ReadDone`: it still
goes on, it has returned to wait, or it makes that call. -/
inductive Drained (α : Type)
  | going (x : Ctx)
  | paused (x : Ctx) (unused : List α)
  | done (x : Ctx) (err : Int) (unused : List α)

/-- The loop of `writeReady` and `readReady` without that call. -/
def drain {α : Type} (single : Ctx → α → Exit) : Ctx → List α → Drained α
  | x, [] => .going x
  | x, out :: outs =>
    match single x out with
    | .returns y code => if code > 0 then drain single y outs else .paused y outs
    | .done y err _ => .done y err outs

/-- The loop with its last call. -/
def Drained.ending {α : Type} (last : Int → Ctx → Ctx) : Drained α → Loop α
  | .going y => .going y
  | .paused y unused => .ended y unused
  | .done y err unused => .ended (last err y) unused

/-- A loop is its socket calls and then the last call. -/
theorem keepOn_eq {α : Type} (whole : Ctx → α → Ctx × Int) (single : Ctx → α → Exit)
    (last : Int → Ctx → Ctx)
    (returns : ∀ x out y code, single x out = .returns y code → whole x out = (y, code))
    (done : ∀ x out y err code, single x out = .done y err code →
      whole x out = (last err y, code) ∧ code ≤ 0) (x : Ctx) (outs : List α) :
    keepOn whole x outs = (drain single x outs).ending last := by
  induction outs generalizing x with
  | nil => rfl
  | cons out outs ih =>
    simp only [keepOn, drain]
    cases exit : single x out with
    | returns y code =>
      rw [returns x out y code exit]
      by_cases again : code > 0
      · simp only [if_pos again]
        exact ih y
      · simp only [if_neg again]
        rfl
    | done y err code =>
      obtain ⟨called, stops⟩ := done x out y err code exit
      rw [called]
      simp only [if_neg (show ¬ code > 0 by omega)]
      rfl

section Loops

variable {cfg : Config} {env : Env} {x y : Ctx}

theorem tryWrite_done {out : WriteOutcome} {err code : Int} (exit : x.tryWrite out = .done y err code) :
    code ≤ 0 := by
  unfold tryWrite at exit
  dsimp only at exit
  split at exit
  · cases exit
    decide
  · split at exit
    · cases exit
      decide
    · cases exit
  all_goals cases exit

theorem tryRead_done {out : ReadOutcome} {err code : Int}
    (exit : x.tryRead cfg out = .done y err code) : code ≤ 0 := by
  unfold tryRead at exit
  dsimp only at exit
  split at exit
  · cases exit
    decide
  · split at exit
    · split at exit
      · cases exit
        decide
      · cases exit
    · cases exit
      decide
  · cases exit
    decide
  all_goals cases exit

theorem writeReady_eq (outs : List WriteOutcome) : x.writeReady cfg env outs =
    (drain tryWrite x outs).ending (writeDone cfg env) :=
  keepOn_eq (singleWrite cfg env) tryWrite (writeDone cfg env)
    (fun _ _ _ _ exit => by simp only [singleWrite, exit])
    (fun _ _ _ _ _ exit => ⟨by simp only [singleWrite, exit], tryWrite_done exit⟩) x outs

theorem readReady_eq (outs : List ReadOutcome) : x.readReady cfg env outs =
    (drain (tryRead cfg) x outs).ending (readDone cfg env) :=
  keepOn_eq (singleRead cfg env) (tryRead cfg) (readDone cfg env)
    (fun _ _ _ _ exit => by simp only [singleRead, exit])
    (fun _ _ _ _ _ exit => ⟨by simp only [singleRead, exit], tryRead_done exit⟩) x outs

end Loops

/-! ### Chains of moves -/

/-- Moves lead from a point to a point between callbacks. -/
def Leads (cfg : Config) (gate : Gate) (p : Point) (x y : Ctx) : Prop :=
  ∃ q, q.settled = true ∧ Relation.ReflTransGen (Move cfg gate) (p, x) (q, y)

/-- A socket asks for the phase's own direction. -/
theorem turned_home (x : Ctx) (home : Direction) : x.turned home home =
    if (x.ask home).c.backwardsIo then
      { x.ask home with c.backwardsIo := false }.ioTurn home
    else x.ask home := by
  unfold turned
  cases backwards : (x.ask home).c.backwardsIo <;> simp [backwards]

/-- A socket asks for the other direction. -/
theorem turned_away (x : Ctx) {home asked : Direction} (away : asked ≠ home) : x.turned home asked =
    if !(x.ask asked).c.backwardsIo then
      { x.ask asked with c.backwardsIo := true }.ioTurn asked
    else x.ask asked := by
  unfold turned
  cases backwards : (x.ask asked).c.backwardsIo <;> simp [backwards, away]

/-- `ReadDone(0)` in the pieces of `Move`. -/
theorem readDone_zero (cfg : Config) (env : Env) (x : Ctx) : x.readDone cfg env 0 =
    if !x.c.parser.shouldKeepAlive then (x.answered env).recycle cfg env true
    else if !isSameServer x.c.url.info (getNext cfg.urls cfg.some_url env.rand).info cfg.index then
      { (x.answered env).drawn cfg env with c.writeDirty := true }.recycle cfg env true
    else
      { (x.answered env).drawn cfg env with
        c.writeDirty := x.c.writeDirty ||
          decide ((getNext cfg.urls cfg.some_url env.rand).place ≠ x.c.url.place) }.recycle
        cfg env false := by
  unfold readDone
  rw [if_neg (not_not_intro rfl)]
  refine if_congr Iff.rfl rfl (if_congr Iff.rfl rfl (congrArg (recycle cfg env false) ?_))
  by_cases differs : (getNext cfg.urls cfg.some_url env.rand).place ≠ x.c.url.place
  · rw [decide_eq_true differs, Bool.or_true]
    exact if_pos differs
  · rw [decide_eq_false differs, Bool.or_false]
    exact if_neg differs

section Leads

variable {cfg : Config} {gate : Gate} {env : Env} {p q : Point} {x y z : Ctx}

theorem Leads.refl (settled : p.settled = true) : Leads cfg gate p x x :=
  ⟨p, settled, .refl⟩

theorem Leads.head (move : Move cfg gate (p, x) (q, y)) (leads : Leads cfg gate q y z) :
    Leads cfg gate p x z := by
  obtain ⟨last, settled, moves⟩ := leads
  exact ⟨last, settled, moves.head move⟩

theorem Leads.of_moves (moves : Relation.ReflTransGen (Move cfg gate) (p, x) (q, y))
    (leads : Leads cfg gate q y z) : Leads cfg gate p x z := by
  obtain ⟨last, settled, more⟩ := leads
  exact ⟨last, settled, moves.trans more⟩

theorem Leads.single (settled : q.settled = true) (move : Move cfg gate (p, x) (q, y)) :
    Leads cfg gate p x y :=
  .head move (.refl settled)

theorem connectAndSend_leads (caller : Caller) :
    Leads cfg gate (.attempting caller) x (x.connectAndSend cfg env caller) := by
  have unfolded : x.connectAndSend cfg env caller =
      if x.c.needsOpen then
        if ((x.begun env caller).connect cfg env).2 = 0 then
          (((x.begun env caller).connect cfg env).1.recordConnectionOpen.writeRequest cfg env).sendWrite
        else
          ((x.begun env caller).connect cfg env).1.recordSocketError.sendAfterDelay
            kConnectFailureDelay
      else ((x.begun env caller).writeRequest cfg env).sendWrite := rfl
  rw [unfolded]
  cases isOpen : x.c.needsOpen with
  | false =>
    rw [if_neg Bool.false_ne_true]
    exact .head (.reuse x env caller isOpen) (.single rfl (.send _ env))
  | true =>
    rw [if_pos rfl]
    rcases connect_cases cfg env (x.begun env caller) with failed | opened
    · rw [failed, if_neg (show (-1 : Int) ≠ 0 by decide)]
      exact .single rfl (.refuse x env caller isOpen)
    · have connected := opened
      rw [opened, if_pos rfl]
      exact .head (.connect x _ env caller isOpen connected) (.single rfl (.send _ env))

theorem thinkingDone_leads (env : Env) (allowed : gate.fire x) :
    Leads cfg gate .thinking x (x.thinkingDone cfg env) :=
  .head (.fire x allowed) (connectAndSend_leads _)

theorem startConnect_leads (env : Env) (allowed : gate.start x.t.stopped) :
    Leads cfg gate .born x (x.startConnect cfg env) :=
  .head (.start x env allowed) (connectAndSend_leads _)

theorem closeDone_leads : Leads cfg gate .closed x (x.closeDone cfg env) := by
  unfold closeDone
  split
  · next stops => exact .single rfl (.finish x stops)
  · next goesOn =>
    rw [Bool.not_eq_true] at goesOn
    split
    · next thinks => exact .single rfl (.rest x goesOn thinks)
    · next hurries => exact .head (.reopen x goesOn (by omega)) (connectAndSend_leads _)

theorem recycle_leads {closeConn : Bool} (noIo : x.c.io.active = false) :
    Leads cfg gate (.recycling closeConn) x (x.recycle cfg env closeConn) := by
  unfold recycle
  split
  · next closes =>
    have stays : { x with c.needsOpen := true }.ioStop = { x with c.needsOpen := true } := by
      simp [ioStop, noIo]
    unfold close
    split
    · rw [stays]
      exact .head (.shut x closeConn closes) closeDone_leads
    · exact .head (.shut x closeConn closes) closeDone_leads
    · exact .head (.shut x closeConn closes) closeDone_leads
    · exact .single rfl (.await x closeConn .read closes)
    · exact .single rfl (.await x closeConn .write closes)
  · next keeps =>
    rw [Bool.not_eq_true] at keeps
    dsimp only
    split
    · next thinks => exact .single rfl (.pause x closeConn keeps thinks)
    · next hurries =>
      exact .head (.next x closeConn keeps (by omega)) (connectAndSend_leads _)

theorem ioStop_noIo (x : Ctx) : x.ioStop.c.io.active = false := by
  rw [ioStop_eq]

/-- `WriteDone`, called by `singleWrite` after it has stopped the watcher. -/
theorem writeDone_leads {err : Int} (all : err = 0 → x.c.fullWritePos = x.c.fullWrite.length)
    (codes : err = 0 ∨ err = -1) (allowed : gate.writeDone env err x.ioStop) :
    Leads cfg gate .writing x (x.ioStop.writeDone cfg env err) := by
  rcases codes with rfl | rfl
  · exact .single rfl (.written x env (all rfl) allowed)
  · refine .head (.writeFailed x env allowed) (recycle_leads ?_)
    rw [recordSocketError_eq]
    exact ioStop_noIo x

/-- `ReadDone`, called by `singleRead` after it has stopped the watcher. -/
theorem readDone_leads {err : Int} (complete : err = 0 → x.c.readDone = true)
    (allowed : gate.readDone env err x.ioStop) :
    Leads cfg gate .reading x (x.ioStop.readDone cfg env err) := by
  by_cases isError : err = 0
  · subst isError
    have parser : x.ioStop.c.parser = x.c.parser := by rw [ioStop_eq]
    have url : x.ioStop.c.url = x.c.url := by rw [ioStop_eq]
    have dirty : x.ioStop.c.writeDirty = x.c.writeDirty := by rw [ioStop_eq]
    have noIo : (x.ioStop.answered env).c.io.active = false := ioStop_noIo x
    rw [readDone_zero, parser, url, dirty]
    split
    · next leaves =>
      exact .head (.leave x env (complete rfl) (by simpa using leaves) allowed) (recycle_leads noIo)
    · next keeps =>
      have keeps : x.c.parser.shouldKeepAlive = true := by simpa using keeps
      split
      · next other =>
        exact .head (.change x env (complete rfl) keeps (by simpa using other) allowed)
          (recycle_leads noIo)
      · next same =>
        exact .head (.stay x env (complete rfl) keeps (by simpa using same) allowed)
          (recycle_leads noIo)
  · unfold readDone
    rw [if_pos isError]
    refine .head (.readFailed x env err isError allowed) (recycle_leads ?_)
    rw [recordSocketError_eq]
    exact ioStop_noIo x

/-- The callback `completeShutdown`. -/
theorem completeShutdown_leads {out : ReadOutcome} :
    Leads cfg gate .closing x (x.completeShutdown cfg env out) := by
  unfold completeShutdown
  split
  · exact .head (.shutdown x) closeDone_leads
  · exact .head (.shutdown x) closeDone_leads
  · exact .head (.shutdown x) closeDone_leads
  · rw [← turned_home x .read]
    exact .single rfl (.turn .closing x .read (.inr (.inr rfl)))
  · rw [← turned_away x (show Direction.write ≠ .read by decide)]
    exact .single rfl (.turn .closing x .write (.inr (.inr rfl)))

/-! ### The loops as moves -/

/-- A chain of moves that stays at a point. -/
def Stays (cfg : Config) (gate : Gate) (p : Point) (x y : Ctx) : Prop :=
  Relation.ReflTransGen (Move cfg gate) (p, x) (p, y)

/-- What a socket call does at a point: it stays there; and it goes to its last call with the watcher
stopped, where `ends` holds of the error. -/
def Follows {α : Type} (cfg : Config) (gate : Gate) (p : Point) (ends : Int → Ctx → Prop)
    (single : Ctx → α → Exit) : Prop :=
  ∀ x out, match single x out with
    | .returns y _ => Stays cfg gate p x y
    | .done y err _ => ∃ last, Stays cfg gate p x last ∧ y = last.ioStop ∧ ends err last

/-- **A loop stays at its point until its last call.** -/
theorem drain_stays {α : Type} {ends : Int → Ctx → Prop} {single : Ctx → α → Exit}
    (follows : Follows cfg gate p ends single) (x : Ctx) (outs : List α) :
    match drain single x outs with
    | .going y | .paused y _ => Stays cfg gate p x y
    | .done y err _ => ∃ last, Stays cfg gate p x last ∧ y = last.ioStop ∧ ends err last := by
  induction outs generalizing x with
  | nil => exact .refl
  | cons out outs ih =>
    have one := follows x out
    simp only [drain]
    cases exit : single x out with
    | done y err code =>
      rw [exit] at one
      exact one
    | returns y code =>
      rw [exit] at one
      by_cases again : code > 0
      · simp only [if_pos again]
        have more := ih y
        cases rest : drain single y outs with
        | going z =>
          rw [rest] at more
          exact one.trans more
        | paused z unused =>
          rw [rest] at more
          exact one.trans more
        | done z err unused =>
          rw [rest] at more
          obtain ⟨last, moves, called⟩ := more
          exact ⟨last, one.trans moves, called⟩
      · simp only [if_neg again]
        exact one

theorem tryWrite_follows (cfg : Config) (gate : Gate) : Follows cfg gate .writing
    (fun err x => (err = 0 → x.c.fullWritePos = x.c.fullWrite.length) ∧ (err = 0 ∨ err = -1))
    tryWrite := by
  intro x out
  match out with
  | .error _ => exact ⟨x, .refl, rfl, fun isZero => absurd isZero (by decide), .inr rfl⟩
  | .ok (.ok wrote) =>
    have one : Stays cfg gate .writing x (x.accepted wrote) := .single (.write x wrote)
    by_cases all : (x.accepted wrote).c.fullWritePos = (x.accepted wrote).c.fullWrite.length
    · have exit : x.tryWrite (.ok (.ok wrote)) = .done (x.accepted wrote).ioStop 0 0 := if_pos all
      rw [exit]
      exact ⟨_, one, rfl, fun _ => all, .inl rfl⟩
    · have exit : x.tryWrite (.ok (.ok wrote)) = .returns (x.accepted wrote) 1 := if_neg all
      rw [exit]
      exact one
  | .ok .feof => exact .refl
  | .ok .needWrite =>
    have exit : x.tryWrite (.ok .needWrite) = .returns (x.turned .write .write) 0 := by
      rw [turned_home]
      rfl
    rw [exit]
    exact .single (.turn .writing x .write (.inl rfl))
  | .ok .needRead =>
    have exit : x.tryWrite (.ok .needRead) = .returns (x.turned .write .read) 0 := by
      rw [turned_away x (by decide)]
      rfl
    rw [exit]
    exact .single (.turn .writing x .read (.inl rfl))

theorem tryRead_follows (cfg : Config) (gate : Gate) :
    Follows cfg gate .reading (fun err x => err = 0 → x.c.readDone = true)
    (tryRead cfg) := by
  intro x out
  match out with
  | .error _ => exact ⟨x, .refl, rfl, fun isZero => absurd isZero (by decide)⟩
  | .ok (.ok data) =>
    by_cases clean : (x.executed cfg data).state.parser.errno = .ok
    · have one : Stays cfg gate .reading x
          { x.parsed cfg data with c.readBuf := x.keepUnparsed cfg data clean } :=
        .single (.parse x data clean)
      have exit : x.tryRead cfg (.ok (.ok data)) =
          if (x.executed cfg data).state.complete then
            .done { x.parsed cfg data with c.readBuf := x.keepUnparsed cfg data clean }.ioStop 0 0
          else .returns { x.parsed cfg data with c.readBuf := x.keepUnparsed cfg data clean } 1 :=
        dif_pos clean
      rw [exit]
      cases complete : (x.executed cfg data).state.complete with
      | true => exact ⟨_, one, rfl, fun _ => complete⟩
      | false => exact one
    · have one : Stays cfg gate .reading x (x.parsed cfg data) := .single (.misparse x data clean)
      have exit : x.tryRead cfg (.ok (.ok data)) = .done (x.parsed cfg data).ioStop (-1) (-1) :=
        dif_neg clean
      rw [exit]
      exact ⟨_, one, rfl, fun isZero => absurd isZero (by decide)⟩
  | .ok .feof =>
    refine ⟨x, .refl, rfl, fun isZero => ?_⟩
    by_contra unfinished
    rw [if_neg unfinished] at isZero
    exact absurd isZero (by decide)
  | .ok .needRead =>
    have exit : x.tryRead cfg (.ok .needRead) = .returns (x.turned .read .read) 0 := by
      rw [turned_home]
      rfl
    rw [exit]
    exact .single (.turn .reading x .read (.inr (.inl rfl)))
  | .ok .needWrite =>
    have exit : x.tryRead cfg (.ok .needWrite) = .returns (x.turned .read .write) 0 := by
      rw [turned_away x (by decide)]
      rfl
    rw [exit]
    exact .single (.turn .reading x .write (.inr (.inl rfl)))

/-! ### Callbacks -/

/-- Does the gate permit the outside choices of a callback? -/
def Gate.permitsCallback (cfg : Config) (gate : Gate) (x : Ctx) : System.Input → Prop
  | .write _ outs env =>
    ∀ y err unused, drain tryWrite x outs = .done y err unused → gate.writeDone env err y
  | .read _ outs env =>
    ∀ y err unused, drain (tryRead cfg) x outs = .done y err unused → gate.readDone env err y
  | .timer _ _ => gate.fire x
  | _ => True

theorem returned_ending {α : Type} {last : Int → Ctx → Ctx} {drained : Drained α}
    (ended : System.returned (drained.ending last) = some y) :
    drained = .paused y [] ∨ ∃ before err, drained = .done before err [] ∧ y = last err before := by
  match drained with
  | .going _ => simp [Drained.ending, System.returned] at ended
  | .paused z [] =>
    simp only [Drained.ending, System.returned, Option.some.injEq] at ended
    exact .inl (by rw [ended])
  | .paused z (_ :: _) => simp [Drained.ending, System.returned] at ended
  | .done z err [] =>
    simp only [Drained.ending, System.returned, Option.some.injEq] at ended
    exact .inr ⟨z, err, rfl, ended.symm⟩
  | .done z err (_ :: _) => simp [Drained.ending, System.returned] at ended

/-- **A callback leads from where the connection was to where it leaves it.** -/
theorem callback_leads {input : System.Input} (now : At p x) (settled : p.settled = true)
    (permitted : gate.permitsCallback cfg x input)
    (called : System.callback cfg x input = some y) : Leads cfg gate p x y := by
  have point := now.point_eq settled
  unfold ConnectionState.point at point
  unfold System.callback at called
  split at called
  · next id outs env =>
    split at called
    · next enabled =>
      rw [Bool.and_eq_true, beq_iff_eq] at enabled
      rw [if_pos enabled.1, enabled.2] at point
      subst point
      rw [writeReady_eq] at called
      have stays := drain_stays (tryWrite_follows cfg gate) x outs
      rcases returned_ending called with paused | ⟨before, err, done, rfl⟩
      · rw [paused] at stays
        exact .of_moves stays (.refl rfl)
      · have allowed := permitted before err [] done
        rw [done] at stays
        obtain ⟨last, moves, rfl, all, codes⟩ := stays
        exact .of_moves moves (writeDone_leads all codes allowed)
    · cases called
  · next id outs env =>
    split at called
    · next enabled =>
      rw [Bool.and_eq_true, beq_iff_eq] at enabled
      rw [if_pos enabled.1, enabled.2] at point
      subst point
      rw [readReady_eq] at called
      have stays := drain_stays (tryRead_follows cfg gate) x outs
      rcases returned_ending called with paused | ⟨before, err, done, rfl⟩
      · rw [paused] at stays
        exact .of_moves stays (.refl rfl)
      · have allowed := permitted before err [] done
        rw [done] at stays
        obtain ⟨last, moves, rfl, complete⟩ := stays
        exact .of_moves moves (readDone_leads complete allowed)
    · cases called
  · split at called
    · next enabled =>
      rw [Bool.and_eq_true, beq_iff_eq] at enabled
      rw [if_pos enabled.1, enabled.2] at point
      subst point
      cases called
      exact completeShutdown_leads
    · cases called
  · split at called
    · next enabled =>
      obtain rfl := now.of_timer settled enabled
      cases called
      exact thinkingDone_leads _ permitted
    · cases called
  · cases called

end Leads

end Apib
