/-
**The bytes of a request.**

A connection writes its requests into one buffer that is rewound, not cleared: what a longer request
left beyond the end of a shorter one goes out with it.

* `stale_tail`: with two URLs whose paths differ in length, a request carries the end of an earlier
  one;
* `requests_fresh_iff`: **in every run the requests of a connection are all fresh exactly when their
  sizes never decrease.** Between two rewrites the buffer is reused, and that is sound.
-/

import Apib.Lifecycle.Invariant
import Mathlib.Algebra.GroupWithZero.Nat

namespace Apib

/-- The bytes that a new connection would send for a URL, with this line of OAuth. -/
def freshRequest (cfg : Config) (url : URLRef) (authHdr : Bytes) : Bytes :=
  let x := Ctx.writeRequest cfg { authHdr } ⟨{}, .new 0 0 url⟩
  x.c.fullWrite.drop x.c.fullWritePos

/-- Those are the pieces of the request. -/
theorem freshRequest_eq (cfg : Config) (url : URLRef) (authHdr : Bytes) :
    freshRequest cfg url authHdr = (requestPieces cfg url.info authHdr).flatten := by
  have dirty : (Ctx.mk {} (.new 0 0 url)).reuses cfg = false := rfl
  simp only [freshRequest, Ctx.writeRequest_eq, dirty, Bool.false_eq_true, if_false, List.drop_zero]
  exact OutputBuffer.data_empty_puts _

/-- Only the OAuth line depends on the moment. -/
theorem freshRequest_authHdr {cfg : Config} (noOauth : cfg.oauth = false) (url : URLRef)
    (authHdr other : Bytes) : freshRequest cfg url authHdr = freshRequest cfg url other := by
  simp [freshRequest_eq, requestPieces, noOauth]

/-- The size of a request: the sizes of its pieces. -/
def requestSize (cfg : Config) (url : URLRef) (authHdr : Bytes) : Nat :=
  ((requestPieces cfg url.info authHdr).map List.length).sum

theorem length_freshRequest (cfg : Config) (url : URLRef) (authHdr : Bytes) :
    (freshRequest cfg url authHdr).length = requestSize cfg url authHdr := by
  rw [freshRequest_eq, List.length_flatten, requestSize]

/-- Every request is the one a new connection would send. -/
def AllFresh (cfg : Config) (calls : List Event) : Prop :=
  ∀ url authHdr bytes, Event.request url authHdr bytes ∈ calls → bytes = freshRequest cfg url authHdr

/-- The sizes of the requests, in order. -/
def requestSizes (cfg : Config) (calls : List Event) : List Nat :=
  calls.filterMap fun
    | .request url authHdr _ => some (requestSize cfg url authHdr)
    | _ => none

/-- The sizes of the requests never decrease. -/
def NeverShorter (cfg : Config) (calls : List Event) : Prop :=
  (requestSizes cfg calls).Pairwise (· ≤ ·)

/-- Two URLs of one server, the first with the longer path. -/
def twoPaths : Config where
  urls := [System.localUrl "/search" false, System.localUrl "/" false]
  some_url := List.cons_ne_nil _ _

/-- Is this a request with other bytes than a new connection would send? -/
def Event.isStale (cfg : Config) : Event → Bool
  | .request url authHdr bytes => bytes != freshRequest cfg url authHdr
  | _ => false

theorem AllFresh.not_stale {cfg : Config} {calls : List Event} (fresh : AllFresh cfg calls) :
    calls.any (Event.isStale cfg) = false := by
  rw [List.any_eq_false]
  intro event member stale
  unfold Event.isStale at stale
  split at stale
  · next url authHdr bytes =>
    rw [fresh url authHdr bytes member] at stale
    simp at stale
  · cases stale

/-- **A request can carry the end of an earlier one**: the URL with the shorter path is drawn after a
response to the other. -/
theorem stale_tail : ¬ ∀ (cfg : Config) (s : System), System.Reachable cfg Transition.anyStep s →
    ∀ (id : Nat) (c : ConnectionState), s.heap[id]? = some c →
      AllFresh cfg (history c.id s.t.log) := by
  intro fresh
  have run : ((System.after twoPaths [.write 0 [.ok (.ok 100)] {},
      .read 0 [.ok (.ok (ascii "HTTP/1.1 200 OK\r\nContent-Length: 0\r\n\r\n"))] { rand := 1 }]).bind
        fun s => s.heap[0]?.map fun c => (history c.id s.t.log).any (Event.isStale twoPaths)) =
      some true := by
    decide +kernel
  obtain ⟨s, ran, rest⟩ := Option.bind_eq_some_iff.mp run
  obtain ⟨c, found, stale⟩ := Option.map_eq_some_iff.mp rest
  rw [(fresh twoPaths s (System.reachable_any ran) 0 c found).not_stale] at stale
  cases stale

/-! ### The buffer after fresh requests -/

/-- The buffer of a connection whose requests have all been fresh: the length of its data is the
greatest size so far, and a request that is not to be rewritten is the one in the buffer. -/
structure FreshBuffer (cfg : Config) (x : Ctx) : Prop where
  bound : ∀ size ∈ requestSizes cfg x.history, size ≤ x.c.writeBuf.data.length
  reached : x.c.writeBuf.data = [] ∨ x.c.writeBuf.data.length ∈ requestSizes cfg x.history
  kept : x.c.writeDirty = false → x.c.writeBuf.data = x.c.fullWrite ∧
    (cfg.oauth = false → ∀ authHdr, x.c.fullWrite = freshRequest cfg x.c.url authHdr)

/-- What is known of the requests of a connection, at any point. -/
structure RequestsAt (cfg : Config) (p : Point) (x : Ctx) : Prop where
  url : p ≠ .born → cfg.urls[x.c.url.place]? = some x.c.url.info
  dirty : p = .born → x.c.writeDirty = true
  fresh : AllFresh cfg x.history ↔ NeverShorter cfg x.history
  buffer : AllFresh cfg x.history → FreshBuffer cfg x

section Send

variable {cfg : Config} {gate : Gate} {p q : Point} {x y : Ctx}

theorem allFresh_append {calls more : List Event} :
    AllFresh cfg (calls ++ more) ↔ AllFresh cfg calls ∧ AllFresh cfg more := by
  simp only [AllFresh, List.mem_append, or_imp, forall_and]

theorem requestSizes_append {calls more : List Event} :
    requestSizes cfg (calls ++ more) = requestSizes cfg calls ++ requestSizes cfg more :=
  List.filterMap_append

/-- Calls that are not requests change nothing. -/
theorem RequestsAt.quiet (before : RequestsAt cfg p x) {events : List Event}
    (grown : y.history = x.history ++ events)
    (silent : ∀ url authHdr bytes, Event.request url authHdr bytes ∉ events)
    (place : q ≠ .born → cfg.urls[y.c.url.place]? = some y.c.url.info)
    (dirty : q = .born → y.c.writeDirty = true)
    (writeBuf : y.c.writeBuf = x.c.writeBuf) (fullWrite : y.c.fullWrite = x.c.fullWrite)
    (same : y.c.writeDirty = false → x.c.writeDirty = false ∧ y.c.url = x.c.url) :
    RequestsAt cfg q y := by
  obtain ⟨_, _, fresh, buffer⟩ := before
  have noFresh : AllFresh cfg events := fun url authHdr bytes member =>
    absurd member (silent url authHdr bytes)
  have noSizes : requestSizes cfg events = [] := by
    rw [requestSizes, List.filterMap_eq_nil_iff]
    intro event member
    cases event with
    | request url authHdr bytes => exact absurd member (silent url authHdr bytes)
    | _ => rfl
  have sizes : requestSizes cfg y.history = requestSizes cfg x.history := by
    rw [grown, requestSizes_append, noSizes, List.append_nil]
  have allFresh : AllFresh cfg y.history ↔ AllFresh cfg x.history := by
    rw [grown, allFresh_append, and_iff_left noFresh]
  refine ⟨place, dirty, ?_, fun holds => ?_⟩
  · rw [allFresh, fresh, NeverShorter, NeverShorter, sizes]
  · obtain ⟨bound, reached, kept⟩ := buffer (allFresh.mp holds)
    refine ⟨by rwa [sizes, writeBuf], by rwa [sizes, writeBuf], fun clean => ?_⟩
    obtain ⟨wasClean, url⟩ := same clean
    rw [writeBuf, fullWrite, url]
    exact kept wasClean

/-- The longest request so far tells whether a next one is the longest. -/
theorem FreshBuffer.bound_iff (buffer : FreshBuffer cfg x) (size : Nat) :
    (∀ earlier ∈ requestSizes cfg x.history, earlier ≤ size) ↔ x.c.writeBuf.data.length ≤ size := by
  constructor
  · intro below
    rcases buffer.reached with empty | member
    · rw [empty]
      exact Nat.zero_le size
    · exact below _ member
  · exact fun below earlier member => (buffer.bound earlier member).trans below

/-- The request that `writeRequest` leaves in `fullWrite_`. -/
def Ctx.requestBytes (cfg : Config) (env : Env) (x : Ctx) : Bytes :=
  if x.reuses cfg then x.c.fullWrite else (x.rewritten cfg env).data

/-- **A next request is fresh exactly when it is not shorter than those before**, if these were
fresh. -/
theorem FreshBuffer.fresh_iff (buffer : FreshBuffer cfg x) (env : Env) :
    x.requestBytes cfg env = freshRequest cfg x.c.url env.authHdr ↔
      ∀ earlier ∈ requestSizes cfg x.history,
        earlier ≤ requestSize cfg x.c.url env.authHdr := by
  unfold Ctx.requestBytes
  rw [buffer.bound_iff, ← length_freshRequest]
  cases reuses : x.reuses cfg with
  | true =>
    simp only [Ctx.reuses, Bool.and_eq_true, Bool.not_eq_true'] at reuses
    obtain ⟨data, kept⟩ := buffer.kept reuses.1
    have same := kept reuses.2 env.authHdr
    rw [if_pos rfl, data, ← same]
    exact iff_of_true rfl (Nat.le_refl _)
  | false =>
    rw [if_neg Bool.false_ne_true, freshRequest_eq, Ctx.rewritten]
    exact OutputBuffer.data_rewind_puts_eq_iff _ _

/-- The buffer after a fresh request. -/
theorem FreshBuffer.send (buffer : FreshBuffer cfg x) (env : Env)
    (fresh : x.requestBytes cfg env = freshRequest cfg x.c.url env.authHdr)
    (grown : requestSizes cfg y.history = requestSizes cfg x.history ++
      [requestSize cfg x.c.url env.authHdr])
    (writeBuf : y.c.writeBuf = if x.reuses cfg then x.c.writeBuf else x.rewritten cfg env)
    (fullWrite : y.c.fullWrite = x.requestBytes cfg env) (url : y.c.url = x.c.url) :
    FreshBuffer cfg y := by
  have data : y.c.writeBuf.data = x.requestBytes cfg env := by
    rw [writeBuf, Ctx.requestBytes]
    cases reuses : x.reuses cfg with
    | true =>
      simp only [Ctx.reuses, Bool.and_eq_true, Bool.not_eq_true'] at reuses
      exact (buffer.kept reuses.1).1
    | false => rfl
  have longest := (buffer.fresh_iff env).mp fresh
  refine ⟨?_, .inr ?_, fun _ => ⟨data.trans fullWrite.symm, fun noOauth authHdr => ?_⟩⟩
  · intro size member
    rw [grown, List.mem_append, List.mem_singleton] at member
    rw [data, fresh, length_freshRequest]
    rcases member with old | rfl
    · exact longest size old
    · exact Nat.le_refl _
  · rw [grown, data, fresh, length_freshRequest]
    exact List.mem_append_right _ List.mem_cons_self
  · rw [fullWrite, fresh, url]
    exact freshRequest_authHdr noOauth _ _ _

theorem RequestsAt.send (before : RequestsAt cfg .sending x) (env : Env) :
    RequestsAt cfg .writing (x.writeRequest cfg env).sendWrite := by
  obtain ⟨place, _, fresh, buffer⟩ := before
  have grown : (x.writeRequest cfg env).sendWrite.history = x.history ++
      [.request x.c.url env.authHdr (x.requestBytes cfg env), .sendWrite x.c.url x.c.socket] := by
    simp [Ctx.history, Ctx.requestBytes]
  have sizes : requestSizes cfg (x.writeRequest cfg env).sendWrite.history =
      requestSizes cfg x.history ++ [requestSize cfg x.c.url env.authHdr] := by
    rw [grown, requestSizes_append]
    rfl
  have allFresh : AllFresh cfg (x.writeRequest cfg env).sendWrite.history ↔
      AllFresh cfg x.history ∧ x.requestBytes cfg env = freshRequest cfg x.c.url env.authHdr := by
    rw [grown, allFresh_append]
    refine and_congr_right fun _ => ⟨fun holds => holds _ _ _ List.mem_cons_self, ?_⟩
    intro fresh url authHdr bytes member
    simp only [List.mem_cons, Event.request.injEq, reduceCtorEq, List.not_mem_nil, or_false]
      at member
    obtain ⟨rfl, rfl, rfl⟩ := member
    exact fresh
  refine ⟨fun _ => by simpa using place (by decide), (fun born => by cases born), ?_, fun holds => ?_⟩
  · rw [allFresh, fresh, NeverShorter, NeverShorter, sizes, List.pairwise_append]
    refine and_congr_right fun ordered => ?_
    rw [(buffer (fresh.mpr ordered)).fresh_iff env]
    simp
  · obtain ⟨earlier, now⟩ := allFresh.mp holds
    exact (buffer earlier).send env now sizes (by simp) (by simp [Ctx.requestBytes]) (by simp)

/-- Calls between two requests. -/
theorem Calls.silent {needsOpen : Bool} {events : List Event} (calls : Calls needsOpen p q events)
    (notSending : p ≠ .sending) (url : URLRef) (authHdr bytes : Bytes) :
    Event.request url authHdr bytes ∉ events := by
  intro member
  cases calls <;> simp at member
  exact notSending rfl

theorem RequestsAt.move (before : RequestsAt cfg p x) (move : Move cfg gate (p, x) (q, y)) :
    RequestsAt cfg q y := by
  obtain ⟨events, calls, grown⟩ := move.history
  by_cases sending : p = .sending
  · subst sending
    cases move with
    | send x env => exact before.send env
    | turn p x asked phase => rcases phase with same | same | same <;> cases same
  · have silent := calls.silent sending
    have drawn := fun env : Env => getNext_mem cfg.urls cfg.some_url env.rand
    cases move with
    | send => exact absurd rfl sending
    | start x env =>
      have wasDirty := before.dirty rfl
      exact before.quiet grown silent (fun _ => drawn env) (fun born => by cases born) rfl rfl
        (fun clean => absurd (wasDirty.symm.trans clean) (by decide))
    | change x env =>
      exact before.quiet grown silent (fun _ => drawn env) (fun born => by cases born)
        (by simp) (by simp) (fun clean => by simp at clean)
    | stay x env complete keeps same =>
      refine before.quiet grown silent (fun _ => drawn env) (fun born => by cases born)
        (by simp) (by simp) fun clean => ?_
      simp only [Bool.or_eq_false_iff, decide_eq_false_iff_not, ne_eq, not_not] at clean
      obtain ⟨wasClean, samePlace⟩ := clean
      refine ⟨wasClean, ?_⟩
      -- the same place in the list holds the same URL
      have old := before.url (by simp)
      rw [← samePlace, drawn env, Option.some.injEq] at old
      show getNext cfg.urls cfg.some_url env.rand = x.c.url
      cases next : getNext cfg.urls cfg.some_url env.rand
      cases now : x.c.url
      simp_all
    | connect x y env caller isClosed connected =>
      rw [Ctx.connect_eq_ok connected] at grown ⊢
      exact before.quiet grown silent (fun _ => by simpa using before.url (by simp))
        (fun born => by cases born) (by simp) (by simp) (by simp)
    | turn p x asked phase =>
      exact before.quiet grown silent (fun settled => by simpa using before.url settled)
        (by rcases phase with rfl | rfl | rfl <;> exact fun born => by cases born)
        (by simp) (by simp) (by simp)
    | _ =>
      exact before.quiet grown silent (fun _ => by simpa using before.url (by simp))
        (fun born => by cases born) (by simp) (by simp) (by simp)

end Send

/-! ### Over runs -/

/-- What is known of the requests as an invariant. -/
def requests (cfg : Config) : Invariant cfg Gate.free where
  thread := fun _ => True
  conn := RequestsAt cfg
  move := fun move _ _ before => ⟨trivial, before.move move⟩
  elsewhere := by
    intro p t t' c _ before away
    have same : (Ctx.mk t' c).history = (Ctx.mk t c).history := away.history
    obtain ⟨url, dirty, fresh, buffer⟩ := before
    refine ⟨url, dirty, by rwa [same], fun holds => ?_⟩
    rw [same] at holds
    obtain ⟨bound, reached, kept⟩ := buffer holds
    exact ⟨by rwa [same], by rwa [same], kept⟩
  born := by
    intro x _ silent _ new
    refine ⟨fun absent => absurd rfl absent, fun _ => by rw [new]; rfl, ?_, fun _ => ⟨?_, ?_, ?_⟩⟩
    · rw [silent]
      exact iff_of_true (fun _ _ _ member => nomatch member) .nil
    · rw [silent]
      exact fun _ member => nomatch member
    · rw [new]
      exact .inl rfl
    · rw [new]
      exact fun clean => nomatch clean
  removed := by
    intro p x settled _ before _
    exact before.quiet (removed_history x) (by simp) before.url
      (fun born => by subst born; cases settled) rfl rfl (fun clean => ⟨clean, rfl⟩)
  threadMove := fun _ _ => trivial

/-- **Requests are fresh exactly as long as their sizes never decrease**, in every run. -/
theorem requests_fresh_iff (cfg : Config) (s : System)
    (reached : System.Reachable cfg Transition.anyStep s) (id : Nat) (c : ConnectionState)
    (found : s.heap[id]? = some c) :
    AllFresh cfg (history c.id s.t.log) ↔ NeverShorter cfg (history c.id s.t.log) := by
  obtain ⟨_, p, _, _, known⟩ := ((requests cfg).reachable_any (fun _ => trivial) reached).conns id c found
  exact known.fresh

theorem requests_fresh_iff_example : ∃ s c,
    System.after twoPaths [.write 0 [.ok (.ok 10), .ok .needRead] {}] = some s ∧
      s.heap[0]? = some c ∧
      (AllFresh twoPaths (history c.id s.t.log) ↔ NeverShorter twoPaths (history c.id s.t.log)) :=
  have ⟨s, c, ran, found⟩ := System.exists_after (by decide +kernel)
  ⟨s, c, ran, found, requests_fresh_iff _ s (System.reachable_any ran) 0 c found⟩

end Apib
