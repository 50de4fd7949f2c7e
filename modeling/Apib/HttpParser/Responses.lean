/-
**Where a response ends for the parser.**

What is read in a head has to go with the body that is sent (`Agrees`). Nobody tells the parser that the
request was a `HEAD`, and every message it completes counts as the response.

* `announced_not_agrees`: the response to a `HEAD`, or a 304, that gives a length does not agree;
* `answers_iff`: **the parser answers with the last byte of what is sent and not before** exactly when no
  interim response goes ahead and the response agrees.
-/

import Apib.HttpParser.Bodies

namespace Apib.Parse

open ByteMachine HttpParser Http

/-- What is read in a head goes with the body that is sent. -/
def Framing.Delimits (f : Framing) : Body → Prop
  | .none => f.sequel = .finished
  | .whole data => f.sequel = if data = [] then .finished else .whole
  | .chunked c => f.sequel = .chunks ∧ Readable c

/-- **The parser reads a head as what it is sent for**: it is short enough, every field is read, and what is
read goes with the body. -/
structure Agrees (m : Message) : Prop where
  head_fits : m.head.bytes.length ≤ maxHeaderSize
  delimits : ∃ f, Framing.ofHead m.head = some f ∧ f.Delimits m.body

/-- The parser answers with the last byte of a message, and not before. -/
abbrev Answers (strict : Bool) (bytes : Bytes) (status : Nat) : Prop :=
  (responseReader strict).EndsAt fresh bytes (.answered status)

section Answers

variable {strict : Bool} {first second front bytes : Bytes} {status : Nat} {b : UInt8}

theorem Answers.of_front (silent : (feed (stepByte strict) fresh front).state.response = none)
    (answer : (feed (stepByte strict) fresh (front ++ [b])).state.response = some (.answered status)) :
    Answers strict (front ++ [b]) status :=
  Reader.EndsAt.of_front silent answer

theorem Answers.not_early (early : (feed (stepByte strict) fresh first).state.response ≠ none)
    (some_more : second ≠ []) : ¬Answers strict (first ++ second) status :=
  Reader.EndsAt.not_early early some_more

theorem Answers.not_silent (silent : (feed (stepByte strict) fresh bytes).state.response = none) :
    ¬Answers strict bytes status :=
  Reader.EndsAt.not_silent silent

theorem Answers.not_failed (failed : (feed (stepByte strict) fresh bytes).state.parser.errno ≠ .ok) :
    ¬Answers strict bytes status := by
  intro answers
  have whole : some (Response.failed (-1)) = some (Response.answered status) :=
    (response_of_failed failed).symm.trans answers.answer
  cases whole

end Answers

/-! ### Interim responses -/

/-- **An interim response goes ahead**: it is taken for the response, or its end is never found. -/
theorem interim_unanswered {strict : Bool} {h : Head} (interim : h.Interim) {more : Bytes}
    (some_more : more ≠ []) (status : Nat) : ¬Answers strict (h.bytes ++ more) status := by
  by_cases rejected : Framing.ofHead h = none ∨ maxHeaderSize < h.bytes.length
  · have failed := head_rejected strict interim.valid rejected
    exact Answers.not_early (by rw [response_of_failed failed]; simp) some_more
  · rw [not_or, Nat.not_lt] at rejected
    obtain ⟨f, read⟩ := Option.ne_none_iff_exists'.mp rejected.1
    obtain ⟨code, line, length, chunked⟩ := ofHead_keeps read
    obtain ⟨hasLength, unmeasured⟩ := length interim.bare.no_length
    obtain ⟨r, taken, reads, step⟩ := head_read strict interim.valid read rejected.2
    have ends := interim_ends strict (reads.toInside.counted h.bytes.length) line unmeasured
      (chunked interim.bare.no_coding) hasLength (code ▸ interim.informational)
    have fed : feed (stepByte strict) fresh h.bytes = feed (stepByte strict) r [10] := feed_taken taken [10]
    cases verdict : (r.counted h.bytes.length).onHeadersAlmostDone strict 10 with
    | stop last eaten =>
      rw [show ({ r with parser.nread := h.bytes.length } : Parse) = r.counted h.bytes.length from rfl,
        verdict] at ends
      refine Answers.not_early ?_ some_more
      rw [fed, feed, step, verdict]
      cases eaten <;> exact ends
    | more next =>
      rw [show ({ r with parser.nread := h.bytes.length } : Parse) = r.counted h.bytes.length from rfl,
        verdict] at ends
      have behind : feed (stepByte strict) fresh h.bytes = ⟨next, [], false⟩ := by
        rw [fed, feed, step, verdict]
        rfl
      rcases ends with answered | ⟨clean, unfinished, state⟩
      · refine Answers.not_early ?_ some_more
        rw [behind]
        exact answered
      · refine Answers.not_silent ?_
        rw [feed_taken behind, untilEof_takes state]
        exact response_eq_none.mpr ⟨clean, unfinished⟩

/-! ### Final responses -/

section Final

variable {strict : Bool} {verb : Bytes} {m : Message} {f : Framing}

/-- What a well-formed response with a body of a known length has in its head. -/
theorem framed_whole {data : Bytes} (framed : m.Framed verb) (body : m.body = .whole data) :
    (∀ field ∈ m.head.fields, ¬field.Named "transfer-encoding") ∧
      (∃ field ∈ m.head.fields, field.Named "content-length") ∧
      ∀ field ∈ m.head.fields, field.Named "content-length" → field.HasLength data.length := by
  unfold Message.Framed at framed
  split at framed
  · simp [body] at framed
  · split at framed
    · simp [body] at framed
    · next no_coding =>
      obtain ⟨other, same, some_length, each⟩ := framed
      obtain rfl : data = other := by simpa [body] using same
      exact ⟨by simpa using no_coding, some_length, each⟩

theorem framed_chunked {c : Chunked} (framed : m.Framed verb) (body : m.body = .chunked c) :
    ∃ field ∈ m.head.fields, field.Named "transfer-encoding" := by
  unfold Message.Framed at framed
  split at framed
  · simp [body] at framed
  · split at framed
    · next coding => exact coding
    · simp [body] at framed

theorem sequel_chunks (chunks : f.sequel = .chunks) : f.chunked = true := by
  unfold Framing.sequel at chunks
  revert chunks
  (repeat' split) <;> simp_all

theorem sequel_whole (whole : f.sequel = .whole) : f.contentLength ≠ 0 ∧ f.contentLength ≠ ullongMax := by
  unfold Framing.sequel at whole
  revert whole
  (repeat' split) <;> simp_all

theorem chunked_some {c : Chunked} : c.bytes ≠ [] := by
  simp [Chunked.bytes]

/-- **A response without a body that gives a length**, as to a `HEAD` or with a 304, does not agree. -/
theorem announced_not_agrees {n : Nat} (bodiless : m.body = .none) (positive : n ≠ 0)
    (some_length : ∃ field ∈ m.head.fields, field.Named "content-length")
    (gives : ∀ field ∈ m.head.fields, field.Named "content-length" → field.HasLength n) : ¬Agrees m := by
  intro agrees
  obtain ⟨f, read, delimits⟩ := agrees.delimits
  obtain ⟨measured, length, small⟩ := fields_given read some_length gives
  rw [bodiless] at delimits
  have finished : f.sequel = .finished := delimits
  have known : n ≠ ullongMax := by
    rintro rfl
    exact absurd small (by decide)
  unfold Framing.sequel at finished
  revert finished
  rw [measured, length]
  (repeat' split) <;> simp_all

/-- A head that says that the response ends with it. -/
theorem finished_iff (silent : (feed (stepByte strict) fresh m.head.front).state.response = none)
    (answer : (feed (stepByte strict) fresh m.head.bytes).state.response = some (.answered f.statusCode))
    (sequel : f.sequel = .finished) : Answers strict m.bytes f.statusCode ↔ f.Delimits m.body := by
  by_cases bodiless : m.body.bytes = []
  · have answers : Answers strict m.bytes f.statusCode := by
      rw [Message.bytes, bodiless, List.append_nil]
      exact Answers.of_front silent answer
    refine iff_of_true answers ?_
    cases body : m.body with
    | none => exact sequel
    | whole data =>
      have empty : data = [] := by rwa [body] at bodiless
      rw [Framing.Delimits, if_pos empty, sequel]
    | chunked c =>
      rw [body] at bodiless
      exact absurd bodiless chunked_some
  · refine iff_of_false (Answers.not_early (by rw [answer]; simp) bodiless) fun delimits => ?_
    cases body : m.body with
    | none =>
      rw [body] at bodiless
      exact bodiless rfl
    | whole data =>
      have some_data : data ≠ [] := by rwa [body] at bodiless
      rw [body, Framing.Delimits, if_neg some_data, sequel] at delimits
      cases delimits
    | chunked c =>
      rw [body, Framing.Delimits, sequel] at delimits
      cases delimits.1

variable {next : Parse}

/-- A head that says that a body of a known length follows. -/
theorem whole_iff (wellFormed : m.WellFormed verb) (read : Framing.ofHead m.head = some f)
    (taken : feed (stepByte strict) fresh m.head.bytes = ⟨next, [], false⟩)
    (reads : Reads .bodyIdentity f next) (sequel : f.sequel = .whole) :
    Answers strict m.bytes f.statusCode ↔ f.Delimits m.body := by
  have bodiless : m.body.bytes = [] → ¬Answers strict m.bytes f.statusCode := by
    intro empty
    refine Answers.not_silent ?_
    rw [Message.bytes, empty, List.append_nil, taken]
    exact reads.toInside.silent
  cases body : m.body with
  | none => exact iff_of_false (bodiless (by rw [body]; rfl)) (by simp [Framing.Delimits, sequel])
  | whole data =>
    obtain rfl | ⟨front, last, parts⟩ := List.eq_nil_or_concat data
    · exact iff_of_false (bodiless (by rw [body]; rfl)) (by simp [Framing.Delimits, sequel])
    · obtain ⟨-, some_length, gives⟩ := framed_whole wellFormed.framed body
      have given := (fields_given read some_length gives).2.1
      rw [parts, List.length_concat, Nat.add_comm] at given
      have here : Reads .bodyIdentity (f.sized (1 + front.length)) next := by
        rw [← given]
        exact reads
      obtain ⟨behind, fed, one⟩ := whole_takes strict Nat.one_pos here
      refine iff_of_true ?_ (by simp [Framing.Delimits, sequel, parts])
      have bytes : m.bytes = (m.head.bytes ++ front) ++ [last] := by
        simp [Message.bytes, body, Body.bytes, parts]
      have whole : feed (stepByte strict) fresh (m.head.bytes ++ front) = ⟨behind, [], false⟩ := by
        rw [feed_taken taken, fed]
      rw [bytes]
      refine Answers.of_front (by rw [whole]; exact one.toInside.silent) ?_
      rw [feed_taken whole]
      exact whole_last one
  | chunked c =>
    have bare := wellFormed.head_valid.fields_valid.apart (framed_chunked wellFormed.framed body)
    exact absurd ((ofHead_keeps read).2.2.1 bare).2 (sequel_whole sequel).2

/-- A head that says that chunks follow. -/
theorem chunks_iff (wellFormed : m.WellFormed verb) (read : Framing.ofHead m.head = some f)
    (taken : feed (stepByte strict) fresh m.head.bytes = ⟨next, [], false⟩) (start : AtChunk f next)
    (sequel : f.sequel = .chunks) : Answers strict m.bytes f.statusCode ↔ f.Delimits m.body := by
  cases body : m.body with
  | none =>
    refine iff_of_false (Answers.not_silent ?_) (by simp [Framing.Delimits, sequel])
    rw [Message.bytes, body, Body.bytes, List.append_nil, taken]
    exact start.reads.choose_spec.toInside.silent
  | whole data =>
    obtain ⟨no_coding, -, -⟩ := framed_whole wellFormed.framed body
    have unchunked := (ofHead_keeps read).2.2.2 no_coding
    exact absurd (sequel_chunks sequel) (by simp [unchunked])
  | chunked c =>
    have valid : c.Valid := by
      have := wellFormed.body_valid
      rwa [body] at this
    by_cases readable : Readable c
    · obtain ⟨last, fed, silent, answer⟩ := chunked_takes strict valid readable start
      refine iff_of_true ?_ ⟨sequel, readable⟩
      have bytes : m.bytes = m.head.bytes ++ (c.chunks.flatMap Chunk.bytes ++ c.finish) ++ [10] := by
        simp [Message.bytes, body, Body.bytes, Chunked.bytes]
      have whole : feed (stepByte strict) fresh
          (m.head.bytes ++ (c.chunks.flatMap Chunk.bytes ++ c.finish)) = ⟨last, [], false⟩ := by
        rw [feed_taken taken, fed]
      rw [bytes]
      refine Answers.of_front (by rw [whole]; exact silent) ?_
      rw [feed_taken whole]
      exact answer
    · refine iff_of_false (Answers.not_failed ?_) fun delimits => readable delimits.2
      rw [Message.bytes, body, Body.bytes, feed_taken taken]
      exact chunked_rejected strict valid readable start

/-- What goes with no body at all. -/
theorem not_delimits (body : Body) (other : f.sequel = .rejected ∨ f.sequel = .untilEof) :
    ¬f.Delimits body := by
  rcases other with sequel | sequel <;> cases body <;>
    simp only [Framing.Delimits, sequel] <;> (try split) <;> simp

/-- **A response without an interim one.** -/
theorem final_iff (wellFormed : m.WellFormed verb) :
    Answers strict m.bytes m.head.status ↔ Agrees m := by
  have valid := wellFormed.head_valid
  by_cases rejected : Framing.ofHead m.head = none ∨ maxHeaderSize < m.head.bytes.length
  · refine iff_of_false (Answers.not_failed (failed_append rfl (head_rejected strict valid rejected) _))
      fun agrees => ?_
    obtain ⟨f, read, -⟩ := agrees.delimits
    exact Nat.not_lt.mpr agrees.head_fits (rejected.resolve_left (by simp [read]))
  rw [not_or, Nat.not_lt] at rejected
  obtain ⟨f, read⟩ := Option.ne_none_iff_exists'.mp rejected.1
  obtain ⟨code, line, -, -⟩ := ofHead_keeps read
  have no_switch : f.statusCode ≠ 101 := by
    have := wellFormed.final
    omega
  obtain ⟨r, taken, reads, step⟩ := head_read strict valid read rejected.2
  have inside := reads.toInside.counted m.head.bytes.length
  have feeds : r.stepByte strict 10 = (r.counted m.head.bytes.length).atSequel strict f.sequel :=
    step.trans (headersAlmostDone_eq inside line no_switch)
  have agrees : Agrees m ↔ f.Delimits m.body := by
    refine ⟨fun agrees => ?_, fun delimits => ⟨rejected.2, f, read, delimits⟩⟩
    obtain ⟨g, read', delimits⟩ := agrees.delimits
    rwa [← Option.some.inj (read.symm.trans read')] at delimits
  rw [agrees, ← code]
  have head : ∀ {next : Parse}, r.stepByte strict 10 = .more next →
      feed (stepByte strict) fresh m.head.bytes = ⟨next, [], false⟩ := by
    intro next more
    rw [Head.bytes, feed_taken taken, feed, more]
    rfl
  have behind : ∀ state, Reads state f ((r.counted m.head.bytes.length).behindHead state) := fun state =>
    ⟨⟨inside.framing_eq, inside.clean, inside.unfinished, inside.ordinary.1, rfl⟩, rfl⟩
  cases sequel : f.sequel with
  | rejected =>
    rw [sequel] at feeds
    have failed : (feed (stepByte strict) fresh m.head.bytes).state.parser.errno ≠ .ok := by
      rw [Head.bytes, feed_taken taken, feed, feeds]
      exact fun same => by cases same
    exact iff_of_false (Answers.not_failed (failed_append rfl failed _))
      (not_delimits m.body (.inl sequel))
  | finished =>
    rw [sequel] at feeds
    refine finished_iff (by rw [taken]; exact reads.toInside.silent) ?_ sequel
    rw [head feeds]
    exact done_response inside rfl rfl rfl
  | whole =>
    rw [sequel] at feeds
    exact whole_iff wellFormed read (head feeds) (behind .bodyIdentity) sequel
  | chunks =>
    rw [sequel] at feeds
    exact chunks_iff wellFormed read (head feeds) ⟨⟨f.contentLength, behind .chunkSizeStart⟩, rfl⟩ sequel
  | untilEof =>
    rw [sequel] at feeds
    have silent : (feed (stepByte strict) fresh m.bytes).state.response = none := by
      rw [Message.bytes, feed_taken (head feeds), untilEof_takes rfl]
      exact (behind .bodyIdentityEof).toInside.silent
    exact iff_of_false (Answers.not_silent silent) (not_delimits m.body (.inr sequel))

theorem message_some : m.bytes ≠ [] := by
  simp [Message.bytes, Head.bytes]

/-- **The parser answers with the last byte of what is sent and not before** exactly when no interim
response goes ahead and the response agrees. -/
theorem answers_iff {interim : List Head} (interims : ∀ h ∈ interim, h.Interim)
    (wellFormed : m.WellFormed verb) :
    Answers strict (sent interim m) m.head.status ↔ interim = [] ∧ Agrees m := by
  cases interim with
  | nil =>
    rw [show sent [] m = m.bytes from rfl, final_iff wellFormed]
    exact ⟨fun agrees => ⟨rfl, agrees⟩, fun both => both.2⟩
  | cons h interim =>
    have bytes : sent (h :: interim) m = h.bytes ++ (interim.flatMap Head.bytes ++ m.bytes) := by
      simp [sent]
    rw [bytes]
    exact iff_of_false (interim_unanswered (interims h List.mem_cons_self) (by simp [message_some]) _)
      fun both => List.cons_ne_nil h interim both.1

end Final

end Apib.Parse
