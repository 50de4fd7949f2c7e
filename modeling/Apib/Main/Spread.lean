/-
**How connections are spread over the addresses of a host.**

`URLInfo::address` takes a sequence number for each connection. `Connect` passes the index of its thread,
so all connections of a thread go to one address.

* `connected_address`: in every run, a socket goes to the address at its thread's index;
* `spread_iff`: **the sockets are spread evenly** exactly if the threads go up in whole rounds of the
  addresses, or no thread has two connections more than it must.
-/

import Apib.Library.Dealing
import Apib.Lifecycle.Invariant
import Apib.Main.Threads

namespace Apib

/-! ### Where a socket goes -/

/-- The sockets that were opened went to the address that the index of the thread gives, of a URL of the
list. -/
def Addressed (cfg : Config) (calls : List Event) : Prop :=
  ∀ socket readBufPos, Event.connected socket readBufPos ∈ calls →
    ∃ url ∈ cfg.urls, ∃ addr, url.addresses[cfg.index % url.addresses.length]? = some addr ∧
      socket.peer = addr.setPort url.port

/-- A connection has a URL of the list once it is started. -/
structure AddressedAt (cfg : Config) (p : Point) (x : Ctx) : Prop where
  listed : p ≠ .born → x.c.url.info ∈ cfg.urls
  addressed : Addressed cfg x.history

section Moves

variable {cfg : Config} {gate : Gate} {p q : Point} {x y : Ctx}

theorem getNext_listed (cfg : Config) (draw : Nat) :
    (getNext cfg.urls cfg.some_url draw).info ∈ cfg.urls :=
  List.mem_of_getElem? (getNext_mem cfg.urls cfg.some_url draw)

/-- A valid address is one of the list. -/
theorem address_valid {url : URLInfo} {sequence : Nat} (valid : (url.address sequence).valid = true) :
    ∃ addr, url.addresses[sequence % url.addresses.length]? = some addr ∧
      url.address sequence = addr.setPort url.port := by
  unfold URLInfo.address Addresses.get at *
  cases found : url.addresses[sequence % url.addresses.length]? with
  | none =>
    rw [found] at valid
    cases valid
  | some addr => exact ⟨addr, rfl, rfl⟩

/-- `Connect` succeeds with a valid address only. -/
theorem connect_valid {env : Env} (connected : x.connect cfg env = (y, 0)) :
    (x.c.url.info.address cfg.index).valid = true := by
  unfold Ctx.connect at connected
  rw [← Bool.not_eq_false]
  intro invalid
  simp [invalid] at connected

/-- A socket is opened on the way to a request. -/
theorem Calls.opens {needsOpen : Bool} {events : List Event} (calls : Calls needsOpen p q events)
    {socket : Socket} {readBufPos : Nat} (member : Event.connected socket readBufPos ∈ events) :
    q = .sending := by
  cases calls with
  | connect caller => rfl
  | _ => simp at member

/-- Other moves open no socket. -/
theorem Addressed.kept (before : Addressed cfg x.history) (move : Move cfg gate (p, x) (q, y))
    (elsewhere : q ≠ .sending) : Addressed cfg y.history := by
  obtain ⟨events, calls, grown⟩ := move.history
  intro socket readBufPos member
  rw [grown, List.mem_append] at member
  rcases member with old | new
  · exact before socket readBufPos old
  · exact absurd (calls.opens new) elsewhere

/-- A socket that a move opens goes to the address that the index of the thread gives. -/
theorem Addressed.connect {env : Env} {caller : Caller} (listed : x.c.url.info ∈ cfg.urls)
    (before : Addressed cfg x.history) (connected : (x.begun env caller).connect cfg env = (y, 0)) :
    Addressed cfg y.recordConnectionOpen.history := by
  obtain ⟨addr, found, address⟩ := address_valid (connect_valid connected)
  rw [Ctx.connect_eq_ok connected]
  intro socket readBufPos member
  simp only [Ctx.recordConnectionOpen_eq, Ctx.history, Ctx.begun, Ctx.note, history_append,
    history_conn, history_nil, List.mem_append, List.mem_singleton] at member
  rcases member with ((old | attempt) | opened) | counted
  · exact before socket readBufPos old
  · cases attempt
  · cases opened
    exact ⟨x.c.url.info, listed, addr, found, address⟩
  · cases counted

theorem AddressedAt.move (before : AddressedAt cfg p x) (move : Move cfg gate (p, x) (q, y)) :
    AddressedAt cfg q y := by
  obtain ⟨listed, addressed⟩ := before
  have whole := move
  cases move with
  | connect x y env caller isClosed connected =>
    have url := listed (by simp)
    refine ⟨fun _ => ?_, addressed.connect url connected⟩
    rw [Ctx.connect_eq_ok connected]
    simpa using url
  | reuse x env caller isOpen =>
    refine ⟨fun _ => listed (by simp), fun socket readBufPos member => ?_⟩
    have old : Event.connected socket readBufPos ∈ x.history := by
      simpa [Ctx.history] using member
    exact addressed socket readBufPos old
  | start | change | stay =>
    exact ⟨fun _ => by simpa using getNext_listed cfg _, addressed.kept whole (by simp)⟩
  | turn p x asked phase =>
    refine ⟨fun _ => ?_, addressed.kept whole (by rcases phase with rfl | rfl | rfl <;> simp)⟩
    simpa using listed (by rcases phase with rfl | rfl | rfl <;> simp)
  | _ => exact ⟨fun _ => by simpa using listed (by simp), addressed.kept whole (by simp)⟩

end Moves

/-- The addresses as an invariant. -/
def addresses (cfg : Config) : Invariant cfg Gate.free where
  thread := fun _ => True
  conn := AddressedAt cfg
  move := fun move _ _ before => ⟨trivial, before.move move⟩
  elsewhere := by
    intro p t t' c settled before away
    refine ⟨before.listed, ?_⟩
    simpa [Ctx.history, away.history] using before.addressed
  born := by
    intro x _ silent _ _
    exact ⟨fun started => absurd rfl started, by simp [Addressed, silent]⟩
  removed := by
    intro p x settled _ before _
    exact ⟨before.listed, by simpa [Addressed] using before.addressed⟩
  threadMove := fun _ _ => trivial

/-- **In every run, a socket goes to the address that the index of its thread gives.** -/
theorem connected_address {cfg : Config} {s : System}
    (reached : System.Reachable cfg Transition.anyStep s) {id : Nat} {c : ConnectionState}
    (found : s.heap[id]? = some c) : Addressed cfg (history c.id s.t.log) := by
  obtain ⟨_, _, _, _, at_point⟩ := ((addresses cfg).reachable_any (fun _ => trivial) reached).conns id c found
  exact at_point.addressed

namespace Main

/-! ### How many sockets go where -/

/-- The sockets that go to each address of a host, by its place in the list, if every connection of every
thread opens one for the URL. -/
def socketsTo (o : Options) (url : URLInfo) (place : Nat) : Nat :=
  ((List.range o.clampThreads.toNat).map fun ix =>
    if (o.initializeThread ix).index % url.addresses.length = place then
      (o.initializeThread ix).numConnections
    else 0).sum

/-- The numbers of sockets to any two addresses differ by one at most. -/
def Evenly (o : Options) (url : URLInfo) : Prop :=
  ∀ a < url.addresses.length, ∀ b < url.addresses.length, socketsTo o url a ≤ socketsTo o url b + 1

instance (o : Options) (url : URLInfo) : Decidable (Evenly o url) :=
  inferInstanceAs (Decidable (∀ _ < _, _))

/-- The threads deal out their connections in turn. -/
theorem socketsTo_eq (o : Options) (url : URLInfo) (place : Nat) :
    socketsTo o url place =
      Dealing.weighed url.addresses.length o.clampThreads.toNat
        (o.numConnections.toNat / o.clampThreads.toNat)
        (o.numConnections.toNat % o.clampThreads.toNat) place := by
  unfold socketsTo Dealing.weighed
  congr 1
  refine List.map_congr_left fun ix member => ?_
  have below := List.mem_range.mp member
  have clamped : o.clampThreads = (o.clampThreads.toNat : Int) := by omega
  have shared : (o.initializeThread ix).numConnections = _ := Options.numConn_eq clamped (by omega) ix
  rw [shared]
  rfl

/-- **The sockets are spread evenly** over the addresses of a host exactly if the threads go up in whole
rounds of them; or if no thread has more than two connections and those that have two do. -/
theorem spread_iff (o : Options) {url : URLInfo} (looked_up : url.addresses ≠ []) :
    Evenly o url ↔
      url.addresses.length ∣ o.clampThreads.toNat ∨
        o.numConnections.toNat / o.clampThreads.toNat = 1 ∧
          url.addresses.length ∣ o.numConnections.toNat % o.clampThreads.toNat := by
  unfold Evenly
  simp only [socketsTo_eq]
  rcases Nat.eq_zero_or_pos o.clampThreads.toNat with none_made | some_made
  · -- no thread, no socket
    rw [none_made]
    exact iff_of_true (fun _ _ _ _ => Nat.zero_le _) (.inl (Nat.dvd_zero _))
  · have fewer : o.clampThreads ≤ o.numConnections := Options.clampThreads_le
    exact Dealing.level_iff (List.length_pos_iff.mpr looked_up) (Nat.div_pos (by omega) some_made)
      (Nat.mod_lt _ some_made).le

/-- A URL on a host with two addresses. -/
def twoAddresses : URLInfo where
  port := 80
  path := ascii "/"
  hostName := ascii "localhost"
  hostHeader := ascii "localhost"
  addresses := [.inet 0 0x7f000001, .inet6 0 0 [0, 0, 0, 0, 0, 0, 0, 0, 0, 0, 0, 0, 0, 0, 0, 1] 0]

/-- Eight connections to it. -/
def eightConnections (numThreads : Int) : Options where
  numConnections := 8
  numThreads := numThreads
  urls := [twoAddresses]
  some_url := List.cons_ne_nil _ _

theorem spread_example : Evenly (eightConnections 2) twoAddresses :=
  (spread_iff (eightConnections 2) (by decide)).mpr (.inl (by decide))

/-- **On one thread all sockets go to the first address.** -/
theorem one_address_used :
    socketsTo (eightConnections 1) twoAddresses 0 = 8 ∧
      socketsTo (eightConnections 1) twoAddresses 1 = 0 ∧ ¬ Evenly (eightConnections 1) twoAddresses := by
  decide +kernel

end Main

end Apib
