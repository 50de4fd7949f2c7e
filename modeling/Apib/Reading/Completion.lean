/-
**The end of a response.**

A response that a server sends to a request is over where the protocol says, which depends on the verb of
the request. The parser of a connection is set up with one callback and is never told the verb.

* `completes_iff`: **a response completes exactly when no interim response goes ahead and the parser's
  reading of it agrees**: `ReadDone(0)` is called once, behind its last byte and with its status code,
  however it is cut;
* `unfinished_head`: the response to a `HEAD` that gives a length.
-/

import Apib.HttpParser.Responses
import Apib.Reading.Fragments

namespace Apib

open ByteMachine Http

namespace Ctx

/-- **A response completes**: however it is cut, `ReadDone` is called once for the whole of it, with no
error and with its status code, and not for less than the whole. -/
structure Completes (cfg : Config) (x : Ctx) (stream : Bytes) (status : Nat) : Prop where
  whole : ∀ callbacks, x.Cuts stream callbacks →
    readDones (x.callsSince (x.reading cfg callbacks)) = [0] ∧
      x.response cfg callbacks = some (.answered status)
  not_early : ∀ n < stream.length, ∀ callbacks, x.Cuts (stream.take n) callbacks →
    readDones (x.callsSince (x.reading cfg callbacks)) = []

end Ctx

section Completion

variable {cfg : Config} {x : Ctx} {stream : Bytes} {status : Nat}

open Ctx

/-- **A response completes exactly when the parser answers with its last byte and not before.** -/
theorem completes_iff_answers (start : x.parse = Parse.fresh) (empty : x.c.readBuf.data = [])
    (some_byte : stream ≠ []) :
    x.Completes cfg stream status ↔ Parse.Answers cfg.parserStrict stream status := by
  have room := x.c.readBuf.room
  have waiting : x.parse.response = none := by
    rw [start]
    rfl
  rw [Parse.Answers, ← (responseReader cfg.parserStrict).readLoop_endsAt_iff
    (by rw [ReadBuf.pos]; omega : 0 < kReadBufSize - x.c.readBuf.pos) (Nat.sub_le _ _) rfl some_byte]
  have loop : x.loop cfg = (responseReader cfg.parserStrict).readLoop Parse.fresh [] := by
    funext pieces
    rw [Ctx.loop, start, empty]
  have calls : ∀ {bytes callbacks}, x.Cuts bytes callbacks →
      x.response cfg callbacks =
          (responseReader cfg.parserStrict).readLoop Parse.fresh [] (callbacks.flatMap Prod.snd) ∧
        readDones (x.callsSince (x.reading cfg callbacks)) =
          ((responseReader cfg.parserStrict).readLoop Parse.fresh []
            (callbacks.flatMap Prod.snd)).toList.map Response.readDone := by
    intro bytes callbacks cuts
    rw [← loop]
    exact reading_calls .refl waiting callbacks cuts.2
  have alone : ∀ {bytes pieces},
      Reader.Cut (kReadBufSize - x.c.readBuf.pos) kReadBufSize bytes pieces →
      x.Cuts bytes [({}, pieces)] := fun cut => by simpa [Ctx.Cuts] using cut
  constructor
  · rintro ⟨whole, early⟩
    refine ⟨fun pieces cut => ?_, fun n before pieces cut => ?_⟩
    · obtain ⟨response, -⟩ := calls (alone cut)
      rw [(whole _ (alone cut)).2] at response
      simpa using response.symm
    · obtain ⟨-, none_called⟩ := calls (alone cut)
      rw [early n before _ (alone cut)] at none_called
      simpa using none_called.symm
  · rintro ⟨whole, early⟩
    refine ⟨fun callbacks cuts => ?_, fun n before callbacks cuts => ?_⟩
    · obtain ⟨response, called⟩ := calls cuts
      rw [response, called, whole _ cuts]
      exact ⟨rfl, rfl⟩
    · obtain ⟨-, called⟩ := calls cuts
      rw [called, early n before _ cuts]
      rfl

/-- **A response completes exactly when no interim response goes ahead and the parser's reading
of its head agrees with its body.** -/
theorem completes_iff (cfg : Config) (env : Env) (x : Ctx) (interim : List Head) (m : Message)
    (empty : x.c.readBuf.data = []) (interims : ∀ h ∈ interim, h.Interim)
    (wellFormed : m.WellFormed cfg.httpVerb) :
    (x.ioStop.writeDone cfg env 0).Completes cfg (sent interim m) m.head.status ↔
      interim = [] ∧ Parse.Agrees m := by
  have start : (x.ioStop.writeDone cfg env 0).parse = Parse.fresh := by simp [Ctx.parse]
  have buffer : (x.ioStop.writeDone cfg env 0).c.readBuf.data = [] := by simpa using empty
  have some_byte : sent interim m ≠ [] := by
    simp [sent, Parse.message_some]
  rw [completes_iff_answers start buffer some_byte, Parse.answers_iff interims wellFormed]

end Completion

/-! ### A length -/

/-- A head that gives the length 5. -/
def lengthHead : Head where
  digits := (50, 48, 48)
  reason := ascii "OK"
  fields := [⟨ascii "Content-Length", ascii " 5"⟩]

theorem lengthHead_length : ∀ f ∈ lengthHead.fields, f.Named "content-length" → f.HasLength 5 := by
  intro f member _
  obtain rfl := List.mem_singleton.mp member
  exact ⟨[32], [53], [], rfl, Numerals.forall_listed (by decide),
    ⟨by simp, Numerals.forall_listed (by decide +kernel), by decide +kernel⟩, by simp⟩

theorem lengthHead_valid : lengthHead.Valid := by
  refine ⟨Numerals.forall_listed (by decide +kernel), Numerals.forall_listed (by decide +kernel),
    fun f member => ?_, fun f member named => ⟨5, lengthHead_length f member named⟩, by decide +kernel,
    fun coded => ?_⟩
  · obtain rfl := List.mem_singleton.mp member
    exact ⟨by simp [ascii], Numerals.forall_listed (by decide +kernel), Numerals.forall_listed (by decide +kernel)⟩
  · exact absurd coded (by decide +kernel)

/-- The response to a `GET` with this head. -/
theorem completes_example :
    ((⟨{}, .new 0 0 ⟨0, System.localUrl "/" false⟩⟩ : Ctx).ioStop.writeDone System.oneConnection {} 0).Completes
      System.oneConnection (sent [] ⟨lengthHead, .whole (ascii "hello")⟩) 200 :=
  (completes_iff System.oneConnection {} ⟨{}, .new 0 0 ⟨0, System.localUrl "/" false⟩⟩ []
    ⟨lengthHead, .whole (ascii "hello")⟩ rfl (by simp)
    ⟨lengthHead_valid, by decide +kernel, trivial, by
      unfold Message.Framed
      rw [if_neg (by decide +kernel), if_neg (by decide +kernel)]
      exact ⟨_, rfl, by decide +kernel, lengthHead_length⟩⟩).mpr
    ⟨rfl, by decide +kernel, (Parse.Framing.coded 200).measured 5, by decide +kernel, by
      show Parse.Framing.sequel _ = if ascii "hello" = [] then _ else _
      decide +kernel⟩

/-- **The response to a `HEAD` that gives a length is never over.** -/
theorem unfinished_head : ¬∀ (cfg : Config) (env : Env) (x : Ctx) (interim : List Head) (m : Message),
    x.c.readBuf.data = [] → (∀ h ∈ interim, h.Interim) → m.WellFormed cfg.httpVerb →
    (x.ioStop.writeDone cfg env 0).Completes cfg (sent interim m) m.head.status := by
  intro completes
  let cfg : Config := { System.oneConnection with httpVerb := ascii "HEAD" }
  let x : Ctx := ⟨{}, .new 0 0 ⟨0, System.localUrl "/" false⟩⟩
  have framed : (⟨lengthHead, .none⟩ : Message).Framed cfg.httpVerb := by
    unfold Message.Framed
    rw [if_pos (by decide +kernel)]
    exact ⟨rfl, fun bare => absurd bare (by decide +kernel)⟩
  have whole := (completes cfg {} x [] ⟨lengthHead, .none⟩ rfl (by simp)
    ⟨lengthHead_valid, by decide +kernel, trivial, framed⟩).whole
    [({}, [sent [] ⟨lengthHead, .none⟩])] ⟨by simp, by decide +kernel⟩
  revert whole
  decide +kernel

end Apib
