/-
**Results and the cutting of the stream.**

The parser runs over all that a read gives it before `singleRead` looks for the end of the response, so
a response can be taken with what follows it in the same read, or without:

* `cutting_matters`: a keep-alive response with one byte behind it is a result when the byte comes later
  and a parse error when it comes along;
* `cuts_agree_iff`: **all cuttings of a stream give the same result exactly when its first answer is
  settled**: it stays the same as far as the read that gets to it can reach.
-/

import Apib.Reading.Pieces

namespace Apib

open ByteMachine

namespace Ctx

/-- The callbacks of `readReady` until `ReadDone` is called, each with the pieces that the socket has
before a read would block. The callback that calls `ReadDone` reads no further. -/
def reading (cfg : Config) : Ctx → List (Env × List Bytes) → Ctx
  | x, [] => x
  | x, (env, pieces) :: callbacks =>
    match x.readReady cfg env (pieces.map (fun piece => .ok (.ok piece)) ++ [.ok .needRead]) with
    | .ended y [] => y.reading cfg callbacks
    | .ended y _ | .going y => y

/-- The first `ReadDone` of these callbacks. -/
def response (cfg : Config) (x : Ctx) (callbacks : List (Env × List Bytes)) : Option Response :=
  firstResponse (x.callsSince (x.reading cfg callbacks))

/-- A cutting of a stream into reads that the buffer has room for. -/
def Cuts (x : Ctx) (stream : Bytes) (callbacks : List (Env × List Bytes)) : Prop :=
  Reader.Cut (kReadBufSize - x.c.readBuf.pos) kReadBufSize stream (callbacks.flatMap Prod.snd)

/-- Every cutting of a stream leads to the same `ReadDone`. -/
def CutsAgree (cfg : Config) (x : Ctx) (stream : Bytes) : Prop :=
  ∀ left right : List (Env × List Bytes), x.Cuts stream left → x.Cuts stream right →
    x.response cfg left = x.response cfg right

end Ctx

/-- **The cutting of a stream can decide its result.** -/
theorem cutting_matters : ¬ ∀ (cfg : Config) (env : Env) (x : Ctx) (stream : Bytes),
    (x.ioStop.writeDone cfg env 0).CutsAgree cfg stream := by
  intro agree
  let x : Ctx := ⟨{}, .new 0 0 ⟨0, System.localUrl "/" false⟩⟩
  let response := ascii "HTTP/1.1 200 OK\r\nContent-Length: 0\r\n\r\n"
  have same := agree System.oneConnection {} x (response ++ ascii "X")
    [({}, [response ++ ascii "X"])] [({}, [response, ascii "X"])]
    ⟨rfl, by decide +kernel⟩ ⟨rfl, by decide +kernel⟩
  revert same
  decide +kernel

/-! ### The loop over several callbacks -/

/-- The argument of `ReadDone` that a response is told with. -/
def Response.readDone : Response → Int
  | .failed err => err
  | .answered _ => 0

theorem responseTo_readDone (err : Int) (statusCode : Nat) : (responseTo err statusCode).readDone = err := by
  unfold responseTo
  split
  · rfl
  · next zero => exact (not_not.mp zero).symm

section Reading

variable {cfg : Config} {x y : Ctx}

open Ctx

/-- A read that would block changes neither the parser nor the buffer nor the calls. -/
theorem tryRead_needRead (cfg : Config) (x : Ctx) : ∃ y, x.tryRead cfg (.ok .needRead) = .returns y 0 ∧
    y.parse = x.parse ∧ y.c.readBuf = x.c.readBuf ∧ y.history = x.history := by
  refine ⟨x.turned .read .read, ?_, ?_, ?_, ?_⟩
  · rw [turned_home]
    rfl
  all_goals simp [Ctx.parse, Ctx.history]

/-- **The callbacks are the reader's loop** over all their pieces: `ReadDone` is called once, for what the
loop finds. -/
theorem reading_calls (since : OnlyParsed x y) (waiting : y.parse.response = none)
    (callbacks : List (Env × List Bytes)) (fits : y.FitsPieces (callbacks.flatMap Prod.snd)) :
    firstResponse (x.callsSince (y.reading cfg callbacks)) = y.loop cfg (callbacks.flatMap Prod.snd) ∧
      readDones (x.callsSince (y.reading cfg callbacks)) =
        (y.loop cfg (callbacks.flatMap Prod.snd)).toList.map Response.readDone := by
  induction callbacks generalizing y with
  | nil => exact ⟨since.unanswered, since.no_readDone⟩
  | cons callback callbacks ih =>
    obtain ⟨env, pieces⟩ := callback
    rw [List.flatMap_cons] at fits ⊢
    have fitsHere : y.FitsPieces pieces := by
      rw [FitsPieces, List.map_append, fits_append] at fits
      exact fits.1
    have drained := drain_pieces cfg waiting pieces fitsHere
    rw [ Ctx.reading, readReady_eq]
    cases loop : y.loop cfg pieces with
    | some found =>
      rw [loop] at drained
      obtain ⟨z, err, unused, done, _, response, parsed⟩ := drained
      obtain ⟨first, calls⟩ := (since.trans parsed).answered cfg env err
      rw [done, Ctx.loop, (responseReader cfg.parserStrict).readLoop_append_of_some loop, ← response]
      have same : [err] = (some (responseTo err z.c.parser.statusCode)).toList.map Response.readDone :=
        (congrArg (fun e => [e]) (responseTo_readDone err z.c.parser.statusCode)).symm
      cases unused <;> exact ⟨first, calls.trans same⟩
    | none =>
      rw [loop] at drained
      obtain ⟨z, read, goesOn⟩ := drained
      obtain ⟨w, exit, state, buffer, history⟩ := tryRead_needRead cfg z
      have paused : drain (tryRead cfg) z [.ok .needRead] = .paused w [] := by
        simp only [drain, exit]
        rfl
      rw [goesOn, paused]
      show firstResponse (x.callsSince (w.reading cfg callbacks)) = _ ∧
        readDones (x.callsSince (w.reading cfg callbacks)) = _
      have sinceW : OnlyParsed x w := by
        obtain ⟨calls, grown, parsed⟩ := since.trans read.parsed
        exact ⟨calls, history.trans grown, parsed⟩
      have same : w.loop cfg = z.loop cfg := by
        funext more
        rw [Ctx.loop, Ctx.loop, state, buffer]
      have room : w.FitsPieces = z.FitsPieces := by
        funext more
        rw [FitsPieces, FitsPieces, buffer]
      rw [read.loop_append loop, ← same]
      exact ih sinceW (by rw [state]; exact read.waiting) (by rw [room]; exact read.fits_append fits)

theorem reading_response (since : OnlyParsed x y) (waiting : y.parse.response = none)
    (callbacks : List (Env × List Bytes)) (fits : y.FitsPieces (callbacks.flatMap Prod.snd)) :
    firstResponse (x.callsSince (y.reading cfg callbacks)) = y.loop cfg (callbacks.flatMap Prod.snd) :=
  (reading_calls since waiting callbacks fits).1

end Reading

/-- **A result does not depend on the cutting exactly when the first answer is settled**: from the first
position of the stream at which the parser has an answer (an error, or the end of a response with its
status code) it stays the same as far as a read that gets to that position can reach. -/
theorem cuts_agree_iff (cfg : Config) (env : Env) (x : Ctx) (stream : Bytes) :
    (x.ioStop.writeDone cfg env 0).CutsAgree cfg stream ↔
      Settled ((responseReader cfg.parserStrict).answerAt ⟨HttpParser.init, false⟩ x.c.readBuf.data stream)
        (kReadBufSize - x.c.readBuf.pos) kReadBufSize stream.length := by
  have room := x.c.readBuf.room
  rw [← (responseReader cfg.parserStrict).readLoop_cut_iff (by rw [ReadBuf.pos]; omega) (Nat.sub_le _ _)]
  have buffer : (x.ioStop.writeDone cfg env 0).c.readBuf = x.c.readBuf := by simp
  have state : (x.ioStop.writeDone cfg env 0).parse = ⟨HttpParser.init, false⟩ := by simp [Ctx.parse]
  have waiting : (x.ioStop.writeDone cfg env 0).parse.response = none := by
    rw [state]
    rfl
  have response : ∀ callbacks, (x.ioStop.writeDone cfg env 0).Cuts stream callbacks →
      (x.ioStop.writeDone cfg env 0).response cfg callbacks =
        (responseReader cfg.parserStrict).readLoop ⟨HttpParser.init, false⟩ x.c.readBuf.data
          (callbacks.flatMap Prod.snd) := by
    intro callbacks cuts
    rw [Ctx.response, reading_response .refl waiting callbacks cuts.2, Ctx.loop, state, buffer]
  constructor
  · intro agree left right leftCut rightCut
    have cuts : ∀ {pieces}, Reader.Cut (kReadBufSize - x.c.readBuf.pos) kReadBufSize stream pieces →
        (x.ioStop.writeDone cfg env 0).Cuts stream [({}, pieces)] := by
      intro pieces cut
      rw [Ctx.Cuts, buffer]
      simpa using cut
    have same := agree _ _ (cuts leftCut) (cuts rightCut)
    rw [response _ (cuts leftCut), response _ (cuts rightCut)] at same
    simpa using same
  · intro same left right leftCuts rightCuts
    rw [response left leftCuts, response right rightCuts]
    rw [Ctx.Cuts, buffer] at leftCuts rightCuts
    exact same _ _ leftCuts rightCuts

end Apib
