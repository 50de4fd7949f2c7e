/-
**What `http_parser_execute` can do, and the reader it makes.**

* `stepByte_sound`: one byte either goes on, with the error number as it was and a completion kept, or
  stops; and it stops only on an error, with the byte unread, or at the end of an upgrade response,
  with the byte read.
* `execute_eq_feed`, `execute_rest`: the call as a feed of that byte machine; without an error it
  leaves bytes unread only after an upgrade response, and then fewer than it was given.
* `responseReader`: what `singleRead` looks at after the call, as a `ByteMachine.Reader`.
-/

import Apib.HttpParser.Execute

namespace Apib

open ByteMachine HttpParser

namespace Parse

/-- What one byte may do to the error number, the completion flag and the reading. -/
def Sound (r : Parse) : Verdict Parse → Prop
  | .more next => next.parser.errno = r.parser.errno ∧ (r.complete = true → next.complete = true)
  | .stop last eaten =>
    (last.parser.errno ≠ .ok ∧ eaten = false) ∨
      (last.complete = true ∧ last.parser.upgrade = true ∧ eaten = true)

section Sound

variable {r : Parse}

theorem Sound.of_same {other : Parse} (errno : other.parser.errno = r.parser.errno)
    (complete : other.complete = r.complete) {verdict : Verdict Parse} (sound : Sound other verdict) :
    Sound r verdict := by
  cases verdict with
  | more next => exact ⟨sound.1.trans errno, fun done => sound.2 (complete.trans done)⟩
  | stop last eaten => exact sound

theorem sound_more {next : Parse} (errno : next.parser.errno = r.parser.errno)
    (complete : r.complete = true → next.complete = true) : Sound r (.more next) :=
  ⟨errno, complete⟩

theorem sound_goto (state : State) : Sound r (r.goto state) := ⟨rfl, id⟩

theorem sound_fail {other : Parse} {errno : Errno} (bad : errno ≠ .ok) : Sound r (other.fail errno) :=
  .inl ⟨bad, rfl⟩

theorem sound_completed (strict : Bool) : Sound r (.more (r.completed strict)) :=
  ⟨rfl, fun _ => rfl⟩

theorem sound_messageDone (strict : Bool) : Sound r (r.onMessageDone strict) := by
  unfold onMessageDone
  split
  · next upgrade => exact .inr ⟨rfl, upgrade, rfl⟩
  · exact sound_completed strict

theorem sound_headersDone (strict : Bool) (ch : UInt8) : Sound r (r.onHeadersDone strict ch) := by
  unfold onHeadersDone
  split
  · exact sound_fail (by decide)
  · dsimp only
    split
    · next exit =>
      rw [Bool.and_eq_true] at exit
      exact .inr ⟨rfl, exit.1, rfl⟩
    · (repeat' split) <;> exact ⟨rfl, by first | exact id | exact fun _ => rfl⟩

theorem sound_headersAlmostDone (strict : Bool) (ch : UInt8) :
    Sound r (r.onHeadersAlmostDone strict ch) := by
  unfold onHeadersAlmostDone
  split
  · exact sound_fail (by decide)
  · split
    · exact (sound_messageDone strict).of_same rfl rfl
    · split
      · exact sound_fail (by decide)
      · exact (sound_headersDone strict ch).of_same rfl rfl

theorem sound_headerFieldStart (strict : Bool) (ch : UInt8) :
    Sound r (r.onHeaderFieldStart strict ch) := by
  unfold onHeaderFieldStart
  split
  · exact sound_goto _
  · split
    · exact (sound_headersAlmostDone strict ch).of_same rfl rfl
    · dsimp only
      split
      · exact sound_fail (by decide)
      · exact (sound_goto _).of_same rfl rfl

theorem matchName_same (word : Bytes) (c : UInt8) (found : HeaderState) :
    (r.matchName word c found).parser.errno = r.parser.errno ∧
      (r.matchName word c found).complete = r.complete := by
  unfold matchName
  dsimp only
  split <;> exact ⟨rfl, rfl⟩

theorem matchValue_same (word : Bytes) (c : UInt8) (missed found : HeaderState) :
    (r.matchValue word c missed found).parser.errno = r.parser.errno ∧
      (r.matchValue word c missed found).complete = r.complete := by
  unfold matchValue
  dsimp only
  split <;> exact ⟨rfl, rfl⟩

theorem tokenFlag_same :
    r.tokenFlag.parser.errno = r.parser.errno ∧ r.tokenFlag.complete = r.complete := by
  unfold tokenFlag
  split <;> exact ⟨rfl, rfl⟩

theorem headerNameChar_same (ch c : UInt8) :
    (r.headerNameChar ch c).parser.errno = r.parser.errno ∧
      (r.headerNameChar ch c).complete = r.complete := by
  unfold headerNameChar
  dsimp only
  split
  case h_7 =>
    have same := matchName_same (r := r) (ascii "transfer-encoding") c .transferEncoding
    split
    · exact same
    · exact same
  all_goals first
    | exact matchName_same _ _ _
    | exact ⟨rfl, rfl⟩
    | (split <;> exact ⟨rfl, rfl⟩)

theorem sound_headerField (strict : Bool) (ch : UInt8) : Sound r (r.onHeaderField strict ch) := by
  unfold onHeaderField
  dsimp only
  split
  · have same := headerNameChar_same (r := r) ch (token strict ch)
    exact sound_more same.1 fun done => same.2.trans done
  · split
    · exact sound_goto _
    · exact sound_fail (by decide)

theorem sound_headerValueStart (ch : UInt8) : Sound r (r.onHeaderValueStart ch) := by
  unfold onHeaderValueStart
  dsimp only
  (repeat' split) <;> first
    | exact sound_fail (by decide)
    | exact ⟨rfl, id⟩

theorem sound_contentLengthDigit (ch : UInt8) : Sound r (r.contentLengthDigit ch) := by
  unfold contentLengthDigit
  (repeat' split) <;> first | exact sound_fail (by decide) | exact ⟨rfl, id⟩

theorem sound_headerValueChar (ch : UInt8) : Sound r (r.headerValueChar ch) := by
  have matched : ∀ word c missed found, Sound r (.more (r.matchValue word c missed found)) :=
    fun word c missed found =>
      have same := matchValue_same (r := r) word c missed found
      sound_more same.1 fun done => same.2.trans done
  have flagged := tokenFlag_same (r := r)
  unfold headerValueChar
  dsimp only
  (repeat' split) <;> first
    | exact sound_fail (by decide)
    | exact sound_contentLengthDigit ch
    | exact matched _ _ _ _
    | exact ⟨rfl, id⟩
    | exact sound_more flagged.1 fun done => flagged.2.trans done

theorem sound_headerAlmostDone (ch : UInt8) : Sound r (r.onHeaderAlmostDone ch) := by
  unfold onHeaderAlmostDone
  split
  · exact sound_fail (by decide)
  · exact sound_goto _

theorem sound_headerValue (ch : UInt8) : Sound r (r.onHeaderValue ch) := by
  unfold onHeaderValue
  split
  · exact sound_goto _
  · split
    · exact (sound_headerAlmostDone ch).of_same rfl rfl
    · split
      · exact sound_fail (by decide)
      · exact sound_headerValueChar ch

theorem sound_headerValueLws (strict : Bool) (ch : UInt8) :
    Sound r (r.onHeaderValueLws strict ch) := by
  have flagged := tokenFlag_same (r := r)
  unfold onHeaderValueLws
  split
  · dsimp only
    refine Sound.of_same ?_ ?_ (sound_headerValueStart ch) <;> (split <;> rfl)
  · refine Sound.of_same ?_ ?_ (sound_headerFieldStart strict ch)
    · exact flagged.1
    · exact flagged.2

theorem sound_headerValueDiscardWs (ch : UInt8) : Sound r (r.onHeaderValueDiscardWs ch) := by
  unfold onHeaderValueDiscardWs
  (repeat' split) <;> first | exact ⟨rfl, id⟩ | exact sound_headerValueStart ch

theorem sound_headerValueDiscardLws (strict : Bool) (ch : UInt8) :
    Sound r (r.onHeaderValueDiscardLws strict ch) := by
  have flagged := tokenFlag_same (r := r)
  unfold onHeaderValueDiscardLws
  split
  · exact sound_goto _
  · split
    · exact sound_fail (by decide)
    · refine Sound.of_same ?_ ?_ (sound_headerFieldStart strict ch)
      · exact flagged.1
      · exact flagged.2

theorem sound_expect (strict : Bool) (ch expected : UInt8) (next : State) :
    Sound r (r.expect strict ch expected next) := by
  unfold expect
  split
  · exact sound_fail (by decide)
  · exact sound_goto _

theorem sound_startRes (ch : UInt8) : Sound r (r.onStartRes ch) := by
  unfold onStartRes
  (repeat' split) <;> first
    | exact ⟨rfl, id⟩
    | exact sound_fail (by decide)

theorem sound_statusLine (ch : UInt8) :
    Sound r (r.onFirstStatusCode ch) ∧ Sound r (r.onStatusCode ch) ∧ Sound r (r.onStatusStart ch) ∧
      Sound r (r.onStatus ch) := by
  have status : ∀ r : Parse, Sound r (r.onStatus ch) := by
    intro r
    unfold onStatus
    (repeat' split) <;> exact ⟨rfl, id⟩
  have start : ∀ r : Parse, Sound r (r.onStatusStart ch) := by
    intro r
    unfold onStatusStart
    dsimp only
    split
    · exact (status _).of_same rfl rfl
    · exact ⟨rfl, id⟩
  refine ⟨?_, ?_, start r, status r⟩
  · unfold onFirstStatusCode
    (repeat' split) <;> first | exact ⟨rfl, id⟩ | exact sound_fail (by decide)
  · unfold onStatusCode
    dsimp only
    (repeat' split) <;> first
      | exact (start _).of_same rfl rfl
      | exact ⟨rfl, id⟩
      | exact sound_fail (by decide)

theorem sound_body (strict : Bool) (ch : UInt8) :
    Sound r (r.onBodyIdentity strict) ∧ Sound r (r.onChunkSizeStart ch) ∧ Sound r (r.onChunkSize ch) ∧
      Sound r (r.onChunkSizeAlmostDone strict ch) ∧ Sound r r.onChunkData ∧
      Sound r (r.onChunkDataDone strict ch) := by
  refine ⟨?_, ?_, ?_, ?_, ?_, ?_⟩
  · unfold onBodyIdentity
    dsimp only
    split
    · exact (sound_messageDone strict).of_same rfl rfl
    · exact ⟨rfl, id⟩
  · unfold onChunkSizeStart
    split <;> first | exact ⟨rfl, id⟩ | exact sound_fail (by decide)
  · unfold onChunkSize
    (repeat' split) <;> first | exact ⟨rfl, id⟩ | exact sound_fail (by decide)
  · unfold onChunkSizeAlmostDone
    dsimp only
    (repeat' split) <;> first | exact ⟨rfl, id⟩ | exact sound_fail (by decide)
  · unfold onChunkData
    dsimp only
    split <;> exact ⟨rfl, id⟩
  · unfold onChunkDataDone
    split <;> first | exact ⟨rfl, id⟩ | exact sound_fail (by decide)

theorem sound_onByte (strict : Bool) (ch : UInt8) : Sound r (r.onByte strict ch) := by
  obtain ⟨firstStatusCode, statusCode, statusStart, status⟩ := sound_statusLine (r := r) ch
  obtain ⟨identity, sizeStart, size, sizeDone, data, dataDone⟩ := sound_body (r := r) strict ch
  unfold onByte
  split <;> first
    | assumption
    | exact sound_expect strict ch _ _
    | exact sound_startRes ch
    | exact sound_headerFieldStart strict ch
    | exact sound_headerField strict ch
    | exact sound_headerValueDiscardWs ch
    | exact sound_headerValueDiscardLws strict ch
    | exact sound_headerValueStart ch
    | exact sound_headerValue ch
    | exact sound_headerValueLws strict ch
    | exact sound_headerAlmostDone ch
    | exact sound_headersAlmostDone strict ch
    | exact sound_headersDone strict ch
    | exact sound_messageDone strict
    | exact ⟨rfl, id⟩
    | (split <;> first | exact ⟨rfl, id⟩ | exact sound_fail (by decide))

/-- **What one byte can do.** -/
theorem stepByte_sound (strict : Bool) (r : Parse) (ch : UInt8) : Sound r (r.stepByte strict ch) := by
  unfold stepByte
  dsimp only
  split
  · split
    · exact sound_fail (by decide)
    · exact (sound_onByte strict ch).of_same rfl rfl
  · exact sound_onByte strict ch

end Sound

/-! ### The whole call -/

section Execute

variable {strict : Bool} {r : Parse} {data : Bytes}

/-- With a clean error number and something to read, the call feeds the byte machine. -/
theorem execute_eq_feed (clean : r.parser.errno = .ok) (some_data : data ≠ []) :
    execute strict r data = feed (stepByte strict) r data := by
  unfold execute
  rw [if_neg (not_not_intro clean), if_neg some_data]

theorem execute_nil (clean : r.parser.errno = .ok) : execute strict r [] = ⟨r.atEof, [], false⟩ := by
  unfold execute
  rw [if_neg (not_not_intro clean), if_pos rfl]

/-- Until the reading stops, the error number stays as it was. -/
theorem feed_errno_of_running (running : (feed (stepByte strict) r data).stopped = false) :
    (feed (stepByte strict) r data).state.parser.errno = r.parser.errno := by
  induction data generalizing r with
  | nil => rfl
  | cons ch rest ih =>
    have sound := stepByte_sound strict r ch
    simp only [feed] at running ⊢
    cases verdict : r.stepByte strict ch with
    | more next =>
      rw [verdict] at running sound
      exact (ih running).trans sound.1
    | stop last eaten => cases eaten <;> simp [verdict] at running

/-- A stop without an error is the end of an upgrade response, and has eaten its byte. -/
theorem feed_stopped (stopped : (feed (stepByte strict) r data).stopped = true) :
    (feed (stepByte strict) r data).state.parser.errno ≠ .ok ∨
      ((feed (stepByte strict) r data).state.complete = true ∧
        (feed (stepByte strict) r data).state.parser.upgrade = true ∧
        (feed (stepByte strict) r data).rest.length < data.length) := by
  induction data generalizing r with
  | nil => simp [feed] at stopped
  | cons ch rest ih =>
    have sound := stepByte_sound strict r ch
    simp only [feed] at stopped ⊢
    cases verdict : r.stepByte strict ch with
    | more next =>
      simp only [verdict] at stopped ⊢
      refine (ih stopped).imp id fun ended => ⟨ended.1, ended.2.1, ?_⟩
      rw [List.length_cons]
      omega
    | stop last eaten =>
      rw [verdict] at sound
      obtain ⟨bad, rfl⟩ | ⟨done, upgrade, rfl⟩ := sound
      · exact .inl bad
      · exact .inr ⟨done, upgrade, by simp⟩

/-- **Bytes left unread without an error follow an upgrade response**, and are fewer than given. -/
theorem execute_rest (clean : (execute strict r data).state.parser.errno = .ok)
    (left : (execute strict r data).rest ≠ []) :
    (execute strict r data).state.complete = true ∧
      (execute strict r data).state.parser.upgrade = true ∧
      (execute strict r data).rest.length < data.length := by
  by_cases start : r.parser.errno = .ok
  · by_cases empty : data = []
    · subst empty
      rw [execute_nil start] at left
      exact absurd rfl left
    · rw [execute_eq_feed start empty] at clean left ⊢
      have stopped : (feed (stepByte strict) r data).stopped = true := by
        by_contra running
        exact left (feed_rest_of_running _ (Bool.eq_false_iff.mpr running))
      exact (feed_stopped stopped).resolve_left fun bad => bad clean
  · unfold execute at clean
    rw [if_pos start] at clean
    exact absurd clean start

/-- What is left unparsed without an error is less than the room for it. -/
theorem execute_rest_lt {room : Nat} (clean : (execute strict r data).state.parser.errno = .ok)
    (fits : data.length ≤ room) (positive : 0 < room) : (execute strict r data).rest.length < room := by
  by_cases left : (execute strict r data).rest = []
  · rw [left]
    exact positive
  · exact (execute_rest clean left).2.2.trans_le fits

end Execute

end Parse

/-! ### The reader -/

/-- What one `ReadDone` is called with, and the status code that goes to `recordResult` with it. -/
inductive Response
  | failed (err : Int)
  | answered (status : Nat)
  deriving DecidableEq, Repr

/-- What `singleRead` does after `http_parser_execute`: a parse error goes first, then a complete
message; otherwise it reads on. -/
def Parse.response (r : Parse) : Option Response :=
  if r.parser.errno ≠ .ok then some (.failed (-1))
  else if r.complete then some (.answered r.parser.statusCode)
  else none

theorem Parse.response_eq_none {r : Parse} :
    r.response = none ↔ r.parser.errno = .ok ∧ r.complete = false := by
  unfold Parse.response
  split
  · next bad => simp [bad]
  · next clean =>
    rw [not_not] at clean
    split <;> simp_all

theorem Parse.response_of_failed {r : Parse} (failed : r.parser.errno ≠ .ok) :
    r.response = some (.failed (-1)) :=
  if_pos failed

theorem Parse.response_of_complete {r : Parse} (clean : r.parser.errno = .ok)
    (complete : r.complete = true) : r.response = some (.answered r.parser.statusCode) := by
  unfold Parse.response
  rw [if_neg (not_not_intro clean), if_pos complete]

/-- The response parser as a reader. -/
def responseReader (strict : Bool) : Reader Parse UInt8 Response where
  step := Parse.stepByte strict
  answer := Parse.response
  answer_stop := by
    intro r ch last eaten stopped
    have sound := Parse.stepByte_sound strict r ch
    rw [stopped] at sound
    rw [Ne, Parse.response_eq_none]
    rintro ⟨clean, unfinished⟩
    obtain ⟨bad, _⟩ | ⟨done, _⟩ := sound
    · exact bad clean
    · exact absurd done (Bool.eq_false_iff.mp unfinished)
  answer_more := by
    intro r ch next more answered
    have sound := Parse.stepByte_sound strict r ch
    rw [more] at sound
    rw [Ne, Parse.response_eq_none] at answered ⊢
    rintro ⟨clean, unfinished⟩
    refine answered ⟨sound.1.symm.trans clean, ?_⟩
    by_contra done
    exact absurd (sound.2 (Bool.not_eq_false _ ▸ done)) (Bool.eq_false_iff.mp unfinished)

end Apib
