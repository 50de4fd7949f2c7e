/-
**What the servers read.**

A server sees of a connection only the bytes that its socket accepts. It reads them as requests, one after
the other, whatever the pieces are in which they were written.

* `AskedAt.move`: what goes over a socket are requests, for URLs of the list;
* `lines_sound`: the sockets of a connection in every state of every run;
* `requests_received`: **a server reads exactly the requests that were sent to their end**, each for its
  URL, and has a proper part of at most one more.
-/

import Apib.Dialogue.Sending
import Apib.Runs.Wire

namespace Apib

open Ctx Http

/-! ### Where the bytes come from -/

/-- What is known of the requests that go over the sockets of a connection. -/
structure AskedAt (cfg : Config) (p : Point) (x : Ctx) : Prop where
  url : p ≠ .born → x.c.url.info ∈ cfg.urls
  listed : ∀ url authHdr bytes, Event.request url authHdr bytes ∈ x.history → url.info ∈ cfg.urls
  asked : ∀ socket, ∀ bytes ∈ ((wire x.history).line socket).requests,
    ∃ url authHdr, Event.request url authHdr bytes ∈ x.history

section Asked

variable {cfg : Config} {gate : Gate} {p q : Point} {x y : Ctx} {calls more : List Event}

/-- Calls that send no request add none to a socket. -/
theorem wire_requests (silent : ∀ url socket, Event.sendWrite url socket ∉ more) (socket : Socket) :
    ((wire (calls ++ more)).line socket).requests = ((wire calls).line socket).requests := by
  have one : ∀ (w : Wire) (call : Event), (∀ url other, call ≠ .sendWrite url other) →
      ((w.note call).line socket).requests = (w.line socket).requests := by
    intro w call other
    have kept : ∀ (where_ : Option Socket) (change : Line → Line),
        (∀ l, (change l).requests = l.requests) →
        ((w.on where_ change).line socket).requests = (w.line socket).requests := by
      intro where_ change same
      unfold Wire.on
      dsimp only
      split
      · exact same _
      · rfl
    cases call with
    | sendWrite url used => exact absurd rfl (other url used)
    | wrote used bytes => exact kept used _ fun _ => rfl
    | writeDone err | readDone err =>
      unfold Wire.note
      dsimp only
      split
      · exact kept _ _ fun _ => rfl
      · rfl
    | _ => rfl
  rw [wire_append]
  generalize wire calls = w
  induction more generalizing w with
  | nil => rfl
  | cons call more ih =>
    rw [List.foldl_cons, ih fun url socket member => silent url socket (List.mem_cons_of_mem _ member)]
    exact one w call fun url used same => silent url used (same ▸ List.mem_cons_self)

/-- Requests are sent from one point only. -/
theorem Calls.not_sent {needsOpen : Bool} {events : List Event} (made : Calls needsOpen p q events)
    (notSending : p ≠ .sending) (url : URLRef) (socket : Option Socket) :
    Event.sendWrite url socket ∉ events := by
  intro member
  cases made <;> simp at member
  exact notSending rfl

/-- Calls that send no request. -/
theorem AskedAt.quiet (before : AskedAt cfg p x) {events : List Event}
    (grown : y.history = x.history ++ events)
    (silent : ∀ url authHdr bytes, Event.request url authHdr bytes ∉ events)
    (not_sent : ∀ url socket, Event.sendWrite url socket ∉ events)
    (url : q ≠ .born → y.c.url.info ∈ cfg.urls) : AskedAt cfg q y := by
  refine ⟨url, fun url authHdr bytes member => ?_, fun socket bytes member => ?_⟩
  · rw [grown, List.mem_append] at member
    exact before.listed url authHdr bytes (member.resolve_right (silent url authHdr bytes))
  · rw [grown, wire_requests not_sent] at member
    obtain ⟨url, authHdr, earlier⟩ := before.asked socket bytes member
    exact ⟨url, authHdr, by rw [grown]; exact List.mem_append_left _ earlier⟩

/-- **A request goes over a socket.** -/
theorem AskedAt.send (before : AskedAt cfg .sending x) (env : Env) :
    AskedAt cfg .writing (x.writeRequest cfg env).sendWrite := by
  have grown : (x.writeRequest cfg env).sendWrite.history = x.history ++
      [.request x.c.url env.authHdr (x.writeRequest cfg env).c.fullWrite,
        .sendWrite x.c.url x.c.socket] := by
    simp [Ctx.history]
  have here := before.url (by simp)
  refine ⟨fun _ => by simpa using here, fun url authHdr bytes member => ?_, fun socket bytes member => ?_⟩
  · rw [grown] at member
    simp only [List.mem_append, List.mem_cons, Event.request.injEq, reduceCtorEq, List.not_mem_nil,
      or_false] at member
    rcases member with old | ⟨rfl, -, -⟩
    · exact before.listed url authHdr bytes old
    · exact here
  · rw [grown, wire_append] at member
    simp only [List.foldl_cons, List.foldl_nil, Wire.note, Wire.on] at member
    rw [grown]
    split at member
    · rcases List.mem_append.mp member with old | new
      · obtain ⟨url, authHdr, earlier⟩ := before.asked socket bytes old
        exact ⟨url, authHdr, List.mem_append_left _ earlier⟩
      · obtain rfl := List.mem_singleton.mp new
        exact ⟨x.c.url, env.authHdr, by simp⟩
    · obtain ⟨url, authHdr, earlier⟩ := before.asked socket bytes member
      exact ⟨url, authHdr, List.mem_append_left _ earlier⟩

theorem AskedAt.move (before : AskedAt cfg p x) (move : Move cfg gate (p, x) (q, y)) :
    AskedAt cfg q y := by
  obtain ⟨events, made, grown⟩ := move.history
  by_cases sending : p = .sending
  · subst sending
    cases move with
    | send x env => exact before.send env
    | turn p x asked phase => rcases phase with same | same | same <;> cases same
  · have silent := made.silent sending
    have not_sent := made.not_sent sending
    have drawn := fun env : Env =>
      List.mem_of_getElem? (getNext_mem cfg.urls cfg.some_url env.rand)
    cases move with
    | send => exact absurd rfl sending
    | start x env | change x env | stay x env =>
      exact before.quiet grown silent not_sent fun _ => by simpa using drawn env
    | connect x y env caller isClosed connected =>
      rw [Ctx.connect_eq_ok connected] at grown ⊢
      exact before.quiet grown silent not_sent fun _ => by simpa using before.url (by simp)
    | turn p x asked phase =>
      refine before.quiet grown silent not_sent fun _ => ?_
      simpa using before.url (by rcases phase with rfl | rfl | rfl <;> simp)
    | _ => exact before.quiet grown silent not_sent fun _ => by simpa using before.url (by simp)

end Asked

/-- What is known of these requests, as an invariant. -/
def asking (cfg : Config) : Invariant cfg Gate.free where
  thread := fun _ => True
  conn := AskedAt cfg
  move := fun move _ _ before => ⟨trivial, before.move move⟩
  elsewhere := by
    intro p t t' c _ before away
    have same : (Ctx.mk t' c).history = (Ctx.mk t c).history := away.history
    obtain ⟨url, listed, asked⟩ := before
    exact ⟨url, by rwa [same], by rwa [same]⟩
  born := by
    intro x _ silent _ _
    refine ⟨fun absent => absurd rfl absent, fun _ _ _ member => ?_, fun _ _ member => ?_⟩
    · rw [silent] at member
      cases member
    · rw [silent] at member
      cases member
  removed := by
    intro p x settled _ before _
    exact before.quiet (removed_history x) (by simp) (by simp) before.url
  threadMove := fun _ _ => trivial

/-! ### What has been accepted -/

section Runs

variable {cfg : Config} {s : System} {id : Nat} {c : ConnectionState}

/-- The sockets of a connection are sound in every state of every run. -/
theorem lines_sound (reached : System.Reachable cfg Transition.anyStep s) (found : s.heap[id]? = some c)
    (socket : Socket) : ((wire (history c.id s.t.log)).line socket).Sound := by
  obtain ⟨holds, everywhere⟩ := (remains cfg).reachable_with (wires cfg) (fun _ => rfl) trivial
    (fun _ input _ holds everywhere taken => wires_permit holds everywhere input taken) reached
  obtain ⟨_, p, settled, now, before⟩ := holds.conns id c found
  by_cases writing : p = .writing
  · subst writing
    obtain ⟨_, sending⟩ := before.inUse
    exact before.sound_of_remains
      (everywhere id c found now.active (by rw [now.io]) sending.text) socket
  · exact before.all_sound writing socket

/-- A list of bytes each of which was asked for. -/
theorem exists_asked (P : URLRef × Bytes → Prop) (text : URLRef × Bytes → Bytes) {texts : List Bytes}
    (each : ∀ bytes ∈ texts, ∃ a, P a ∧ bytes = text a) :
    ∃ asked : List (URLRef × Bytes), (∀ a ∈ asked, P a) ∧ texts = asked.map text := by
  induction texts with
  | nil => exact ⟨[], by simp, rfl⟩
  | cons bytes texts ih =>
    obtain ⟨a, holds, rfl⟩ := each bytes List.mem_cons_self
    obtain ⟨asked, others, rfl⟩ := ih fun later member => each later (List.mem_cons_of_mem _ member)
    refine ⟨a :: asked, fun b member => ?_, rfl⟩
    rcases List.mem_cons.mp member with rfl | later
    · exact holds
    · exact others b later

/-- What a server has read off a socket: of the requests sent over it those that were sent to their end,
and a part of the next one at most. -/
structure Received (cfg : Config) (calls : List Event) (l : Line) (asked : List (URLRef × Bytes)) : Prop where
  called : ∀ a ∈ asked, Event.request a.1 a.2 (freshRequest cfg a.1 a.2) ∈ calls
  sent : l.requests = asked.map fun a => freshRequest cfg a.1 a.2
  read : (readRequests l.accepted).1 = (asked.take l.completions).map fun a => requestOf cfg a.1.info a.2
  left : ∀ a ∈ asked[l.completions]?, (readRequests l.accepted).2 <+: freshRequest cfg a.1 a.2 ∧
    (readRequests l.accepted).2 ≠ freshRequest cfg a.1 a.2
  none_left : asked.length = l.completions → (readRequests l.accepted).2 = []
  most : l.completions ≤ asked.length ∧ asked.length ≤ l.completions + 1

/-- **What goes over a socket was asked for**, each for a URL of the list, where no request gets shorter. -/
theorem exists_requests (reached : System.Reachable cfg Transition.anyStep s) (found : s.heap[id]? = some c)
    (ordered : NeverShorter cfg (history c.id s.t.log)) (socket : Socket) :
    ∃ asked : List (URLRef × Bytes),
      (∀ a ∈ asked, Event.request a.1 a.2 (freshRequest cfg a.1 a.2) ∈ history c.id s.t.log ∧
        a.1.info ∈ cfg.urls) ∧
      ((wire (history c.id s.t.log)).line socket).requests = asked.map fun a => freshRequest cfg a.1 a.2 := by
  obtain ⟨_, _, _, _, known⟩ := ((requests cfg).reachable_any (fun _ => trivial) reached).conns id c found
  obtain ⟨_, _, _, _, asking⟩ := ((asking cfg).reachable_any (fun _ => trivial) reached).conns id c found
  have fresh : AllFresh cfg (history c.id s.t.log) := known.fresh.mpr ordered
  refine exists_asked _ _ fun bytes member => ?_
  obtain ⟨url, authHdr, called⟩ := asking.asked socket bytes member
  obtain rfl := fresh url authHdr bytes called
  exact ⟨(url, authHdr), ⟨called, asking.listed _ _ _ called⟩, rfl⟩

/-- **A sound line of valid requests** is read as the requests that were sent to their end. -/
theorem Line.Sound.received {calls : List Event} {l : Line} (sound : l.Sound) {asked : List (URLRef × Bytes)}
    (called : ∀ a ∈ asked, Event.request a.1 a.2 (freshRequest cfg a.1 a.2) ∈ calls)
    (sent : l.requests = asked.map fun a => freshRequest cfg a.1 a.2)
    (valid : ∀ a ∈ asked, (requestOf cfg a.1.info a.2).Valid ∧
      freshRequest cfg a.1 a.2 = (requestOf cfg a.1.info a.2).bytes) : Received cfg calls l asked := by
  have texts : ∀ some_asked : List (URLRef × Bytes), (∀ a ∈ some_asked, a ∈ asked) →
      (some_asked.map fun a => freshRequest cfg a.1 a.2).flatten =
        (some_asked.map fun a => requestOf cfg a.1.info a.2).flatMap Request.bytes := by
    intro some_asked there
    rw [List.flatMap_map, ← List.flatMap_def]
    exact List.flatMap_congr fun a member => (valid a (there a member)).2
  have all_valid : ∀ some_asked : List (URLRef × Bytes), (∀ a ∈ some_asked, a ∈ asked) →
      ∀ r ∈ some_asked.map (fun a => requestOf cfg a.1.info a.2), r.Valid := by
    intro some_asked there r member
    obtain ⟨a, here, rfl⟩ := List.mem_map.mp member
    exact (valid a (there a here)).1
  rcases sound.bytes with ⟨accepted, completions⟩ | ⟨last, part, ⟨before, split, accepted, completions⟩, start, proper⟩
  · rw [sent, List.length_map] at completions
    have read := readRequests_stream (all_valid asked fun _ member => member)
    rw [← texts asked fun _ member => member, ← sent, ← accepted] at read
    refine ⟨called, sent, ?_, ?_, fun _ => by rw [read], by omega⟩
    · rw [read, completions, List.take_length]
    · rw [completions, List.getElem?_length]
      simp
  · obtain ⟨asked', final, rfl⟩ := (List.eq_nil_or_concat asked).resolve_left (by
      rintro rfl
      rw [sent] at split
      simp at split)
    rw [List.concat_eq_append] at *
    rw [sent, List.map_append, List.map_singleton] at split
    obtain ⟨rfl, same⟩ := List.append_inj' split rfl
    obtain rfl := List.singleton_inj.mp same
    rw [List.length_map] at completions
    have earlier : ∀ a ∈ asked', a ∈ asked' ++ [final] := fun a member => List.mem_append_left _ member
    obtain ⟨finalValid, finalBytes⟩ := valid final (by simp)
    rw [finalBytes] at start proper
    have read := readRequests_part (all_valid asked' earlier) finalValid start proper
    rw [← texts asked' earlier, ← accepted] at read
    refine ⟨called, sent, ?_, ?_, fun many => ?_, by rw [List.length_append, List.length_singleton]; omega⟩
    · rw [read, completions, List.take_left]
    · rw [completions, List.getElem?_concat_length, read]
      intro a here
      obtain rfl := Option.mem_some_iff.mp here
      rw [finalBytes]
      exact ⟨start, proper⟩
    · rw [List.length_append, List.length_singleton] at many
      omega

/-- **A server reads exactly the requests that were sent to their end**, in every state of every run in
which the requests of a connection do not get shorter. -/
theorem requests_received (cfg : Config) (sendable : cfg.Sendable) (s : System)
    (reached : System.Reachable cfg Transition.anyStep s) (id : Nat) (c : ConnectionState)
    (found : s.heap[id]? = some c) (ordered : NeverShorter cfg (history c.id s.t.log))
    (signed : cfg.oauth = true → ∀ url authHdr bytes,
      Event.request url authHdr bytes ∈ history c.id s.t.log → SignedLine authHdr) (socket : Socket) :
    ∃ asked, Received cfg (history c.id s.t.log) ((wire (history c.id s.t.log)).line socket) asked := by
  obtain ⟨asked, each, sent⟩ := exists_requests reached found ordered socket
  refine ⟨asked, (lines_sound reached found socket).received (fun a member => (each a member).1) sent ?_⟩
  intro a member
  obtain ⟨called, listed⟩ := each a member
  have line : cfg.oauth = true → SignedLine a.2 := fun oauth => signed oauth _ _ _ called
  exact ⟨request_valid sendable listed line, by rw [freshRequest_eq, request_bytes sendable listed line]⟩

end Runs

theorem sendable_oneConnection : System.oneConnection.Sendable where
  some_verb := by decide
  verb_token := Numerals.forall_listed (by decide +kernel)
  some_path := by
    intro url member
    obtain rfl := List.mem_singleton.mp member
    decide
  path_char := by
    intro url member
    obtain rfl := List.mem_singleton.mp member
    exact Numerals.forall_listed (by decide +kernel)
  host_text := by
    intro url member
    obtain rfl := List.mem_singleton.mp member
    exact Numerals.forall_listed (by decide +kernel)
  given := fun _ member => nomatch member
  coding := fun _ member => nomatch member
  length := rfl

/-- One request is answered, and ten bytes of the next one are sent. -/
theorem requests_received_example : ∃ s c socket asked,
    System.after System.oneConnection [.write 0 [.ok (.ok 200)] {},
      .read 0 [.ok (.ok (ascii "HTTP/1.1 200 OK\r\nContent-Length: 0\r\n\r\n"))] {},
      .write 0 [.ok (.ok 10), .ok .needWrite] {}] = some s ∧
    s.heap[0]? = some c ∧
    ((wire (history c.id s.t.log)).line socket).completions = 1 ∧
    Received System.oneConnection (history c.id s.t.log) ((wire (history c.id s.t.log)).line socket)
      asked := by
  let socket : Socket := ⟨0, .inet 8443 0x7f000001, false, []⟩
  have run : ((System.after System.oneConnection [.write 0 [.ok (.ok 200)] {},
      .read 0 [.ok (.ok (ascii "HTTP/1.1 200 OK\r\nContent-Length: 0\r\n\r\n"))] {},
      .write 0 [.ok (.ok 10), .ok .needWrite] {}]).bind fun s => s.heap[0]?.map fun c =>
        (decide (((wire (history c.id s.t.log)).line socket).completions = 1) &&
          decide ((requestSizes System.oneConnection (history c.id s.t.log)).Pairwise (· ≤ ·)))) =
      some true := by
    decide +kernel
  obtain ⟨s, ran, rest⟩ := Option.bind_eq_some_iff.mp run
  obtain ⟨c, found, holds⟩ := Option.map_eq_some_iff.mp rest
  rw [Bool.and_eq_true, decide_eq_true_eq, decide_eq_true_eq] at holds
  obtain ⟨asked, received⟩ := requests_received System.oneConnection sendable_oneConnection s
    (System.reachable_any ran) 0 c found holds.2 (fun oauth => nomatch oauth) socket
  exact ⟨s, c, socket, asked, ran, found, holds.1, received⟩

end Apib
