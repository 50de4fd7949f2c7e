/-
**What the callbacks change, as plain updates.**

The functions on a connection that branch inside a step are rewritten here as one update of the
fields of a `Ctx`, so that what a field holds afterwards is read off by `simp`. Functions that are
already such an update have no lemma.

* `ioStop_eq`, `ioStart_eq`, `ioTurn_eq`: the watcher ends up off or on, and libev's count follows;
* `writeRequest_eq`: both paths of `writeRequest`;
* `connect_eq_ok`: a `Connect` that returns 0.
-/

import Apib.IOThread.Callbacks

namespace Apib

/-- What an active watcher adds to the count of references. -/
def refs (active : Bool) : Int := if active then 1 else 0

@[simp] theorem refs_true : refs true = 1 := rfl

@[simp] theorem refs_false : refs false = 0 := rfl

namespace Ctx

theorem ioStop_eq (x : Ctx) : x.ioStop =
    { x with
      c.io.active := false
      t.activeCnt := x.t.activeCnt - refs x.c.io.active } := by
  obtain ⟨t, c⟩ := x
  obtain ⟨id, index, keepRunning, socket, backwardsIo, ⟨callback, events, active⟩⟩ := c
  cases active <;> simp [ioStop]

theorem ioStart_eq (x : Ctx) : x.ioStart =
    { x with
      c.io.active := true
      t.activeCnt := x.t.activeCnt + 1 - refs x.c.io.active } := by
  obtain ⟨t, c⟩ := x
  obtain ⟨id, index, keepRunning, socket, backwardsIo, ⟨callback, events, active⟩⟩ := c
  cases active <;> simp [ioStart]

theorem ioTurn_eq (x : Ctx) (events : Direction) : x.ioTurn events =
    { x with
      c.io.events := events
      c.io.active := true
      t.activeCnt := x.t.activeCnt - refs x.c.io.active + 1 } := by
  unfold ioTurn
  simp [ioStop_eq, ioStart_eq]

theorem recordSocketError_eq (x : Ctx) : x.recordSocketError =
    { x with
      t.log := x.t.log ++ [.conn x.c.id .socketError]
      t.reporting.socketErrors :=
        x.t.reporting.socketErrors + if x.t.reporting.reporting then 1 else 0 } := by
  unfold recordSocketError
  cases reports : x.t.reporting.reporting with
  | true => simp [note, reports]
  | false =>
    simp only [note, reports, Bool.false_eq_true, if_false, Nat.add_zero]
    rw [← reports]

theorem recordConnectionOpen_eq (x : Ctx) : x.recordConnectionOpen =
    { x with
      t.log := x.t.log ++ [.conn x.c.id .connectionOpen]
      t.reporting.connectionsOpened :=
        x.t.reporting.connectionsOpened + if x.t.reporting.reporting then 1 else 0 } := by
  unfold recordConnectionOpen
  cases reports : x.t.reporting.reporting with
  | true => simp [note, reports]
  | false =>
    simp only [note, reports, Bool.false_eq_true, if_false, Nat.add_zero]
    rw [← reports]

/-- Does `writeRequest` leave the last request as it is? -/
def reuses (cfg : Config) (x : Ctx) : Bool := !x.c.writeDirty && !cfg.oauth

/-- The write buffer after the request is streamed into it. -/
def rewritten (cfg : Config) (env : Env) (x : Ctx) : OutputBuffer UInt8 :=
  x.c.writeBuf.rewind.puts (requestPieces cfg x.c.url.info env.authHdr)

theorem writeRequest_eq (cfg : Config) (env : Env) (x : Ctx) : x.writeRequest cfg env =
    { x with
      c.writeBuf := if x.reuses cfg then x.c.writeBuf else x.rewritten cfg env
      c.fullWrite := if x.reuses cfg then x.c.fullWrite else (x.rewritten cfg env).data
      c.fullWritePos := 0
      c.writeDirty := false
      t.log := x.t.log ++ [.conn x.c.id (.request x.c.url env.authHdr
        (if x.reuses cfg then x.c.fullWrite else (x.rewritten cfg env).data))] } := by
  unfold writeRequest
  cases same : x.reuses cfg with
  | true =>
    obtain ⟨t, c⟩ := x
    obtain ⟨id, index, keepRunning, socket, backwardsIo, io, thinkTimer, url, writeDirty⟩ := c
    simp only [reuses, Bool.and_eq_true, Bool.not_eq_true'] at same
    simp [note, same.1, same.2]
  | false =>
    rw [reuses] at same
    simp [note, same, rewritten]

/-- The socket that `Connect` opens. -/
def opened (cfg : Config) (x : Ctx) : Socket where
  id := x.t.sockets
  peer := x.c.url.info.address cfg.index
  tls := x.c.url.info.isSsl
  hostName := if x.c.url.info.isSsl then x.c.url.info.hostName else []

/-- The two ways a `Connect` can go. -/
theorem connect_cases (cfg : Config) (env : Env) (x : Ctx) :
    x.connect cfg env = (x, -1) ∨ x.connect cfg env = ({ x with
      c.socket := some (x.opened cfg)
      t.sockets := x.t.sockets + 1
      t.log := x.t.log ++ [.conn x.c.id (.connected (x.opened cfg) x.c.readBuf.pos)] }, 0) := by
  unfold connect
  cases valid : (x.c.url.info.address cfg.index).valid with
  | false => exact .inl (by simp [valid])
  | true =>
    cases answer : env.connect with
    | error _ => exact .inl (by simp [valid])
    | ok _ => exact .inr (by simp [valid, note, opened])

/-- A `Connect` that returns 0 has replaced the socket. -/
theorem connect_eq_ok {cfg : Config} {env : Env} {x y : Ctx}
    (connected : x.connect cfg env = (y, 0)) :
    y = { x with
      c.socket := some (x.opened cfg)
      t.sockets := x.t.sockets + 1
      t.log := x.t.log ++ [.conn x.c.id (.connected (x.opened cfg) x.c.readBuf.pos)] } := by
  rcases connect_cases cfg env x with failed | opened
  · exact absurd (congrArg Prod.snd (failed.symm.trans connected)) (by simp)
  · exact (congrArg Prod.fst (connected.symm.trans opened))

end Ctx

end Apib
