/-
**The assertions of `http_parser_execute`.**

What the source asserts where it looks at a byte: that a name or a value is being matched with a word that
belongs there, that a chunk belongs to a chunked body, that a size line is the first thing counted, and that
a body has a length left.

* `Sane.stepByte`: one byte of any kind keeps a parser sane;
* `assertions_hold`: **no assertion fails on any response**, good or bad, however it is cut.
-/

import Apib.HttpParser.Names
import Apib.HttpParser.Reader

namespace Apib

open ByteMachine HttpParser

namespace Parse

/-- What is asserted of the parser where state `state` looks at a byte, that byte having been counted. -/
def Asserted (p : HttpParser) : Prop :=
  match p.state with
  | .headerField => isNameState p.headerState = true
  | .headerValue => p.headerState ≠ .connection ∧ p.headerState ≠ .transferEncoding
  | .bodyIdentity => p.contentLength ≠ 0 ∧ p.contentLength ≠ ullongMax
  | .chunkSizeStart => p.nread = 1 ∧ p.flags.chunked = true
  | .chunkSize | .chunkParameters | .chunkSizeAlmostDone | .chunkDataDone => p.flags.chunked = true
  | .chunkData => p.flags.chunked = true ∧ p.contentLength ≠ 0 ∧ p.contentLength ≠ ullongMax
  | .chunkDataAlmostDone => p.flags.chunked = true ∧ p.contentLength = 0
  | _ => True

/-- What there is to know between two bytes. -/
def Placed (p : HttpParser) : Prop :=
  match p.state with
  | .headerField => isNameState p.headerState = true
  | .headerValue => p.headerState ≠ .connection ∧ p.headerState ≠ .transferEncoding
  | .bodyIdentity => p.contentLength ≠ 0 ∧ p.contentLength ≠ ullongMax
  | .chunkSizeStart => p.nread = 0 ∧ p.flags.chunked = true
  | .chunkSize | .chunkParameters | .chunkSizeAlmostDone =>
    p.flags.chunked = true ∧ p.contentLength ≠ ullongMax
  | .chunkDataDone => p.flags.chunked = true
  | .chunkData => p.flags.chunked = true ∧ p.contentLength ≠ 0 ∧ p.contentLength ≠ ullongMax
  | .chunkDataAlmostDone => p.flags.chunked = true ∧ p.contentLength = 0
  | _ => True

/-- The states in which nothing is asserted. -/
def plain : State → Bool
  | .headerField | .headerValue | .bodyIdentity | .chunkSizeStart | .chunkSize | .chunkParameters
  | .chunkSizeAlmostDone | .chunkData | .chunkDataAlmostDone | .chunkDataDone => false
  | _ => true

/-- A parser without an error, with a length that fits its type. -/
structure Tame (r : Parse) : Prop where
  clean : r.parser.errno = .ok
  sized : r.parser.contentLength ≤ ullongMax

/-- A parser between two bytes. -/
structure Sane (r : Parse) : Prop extends Tame r where
  placed : Placed r.parser

/-- A verdict that keeps the parser sane. -/
def Keeps : Verdict Parse → Prop
  | .more next => Sane next
  | .stop last eaten => eaten = true → Sane last

section Sane

variable {strict : Bool} {r : Parse}

theorem placed_plain {p : HttpParser} (nothing : plain p.state = true) : Placed p := by
  unfold Placed
  split <;> first
    | trivial
    | (next same => rw [same] at nothing; cases nothing)

theorem keeps_goto (tame : Tame r) {state : State} (nothing : plain state = true) :
    Keeps (r.goto state) :=
  ⟨⟨tame.clean, tame.sized⟩, placed_plain nothing⟩

theorem keeps_fail (errno : Errno) : Keeps (r.fail errno) := nofun

theorem keeps_completed (tame : Tame r) : Keeps (.more (r.completed strict)) := by
  refine ⟨⟨tame.clean, tame.sized⟩, placed_plain ?_⟩
  show plain (r.parser.newMessage strict) = true
  unfold newMessage
  split <;> rfl

/-! ### The end of a message and of the headers -/

theorem keeps_messageDone (tame : Tame r) : Keeps (r.onMessageDone strict) := by
  unfold onMessageDone
  split
  · exact fun _ => keeps_completed tame
  · exact keeps_completed tame

theorem keeps_headersDone (tame : Tame r) (ch : UInt8) : Keeps (r.onHeadersDone strict ch) := by
  unfold onHeadersDone
  split
  · exact keeps_fail _
  · have same : Tame { r with parser.nread := 0 } := ⟨tame.clean, tame.sized⟩
    dsimp only
    split
    · exact fun _ => keeps_completed same
    · split
      · exact keeps_completed same
      · split
        · next chunked => exact ⟨⟨tame.clean, tame.sized⟩, rfl, chunked⟩
        · split
          · exact keeps_goto same rfl
          · split
            · exact keeps_completed same
            · next positive =>
              split
              · next finite =>
                refine ⟨⟨tame.clean, tame.sized⟩, ?_, ?_⟩
                · exact fun zero => positive (beq_iff_eq.mpr zero)
                · exact bne_iff_ne.mp finite
              · split
                · exact keeps_completed same
                · exact keeps_goto same rfl

theorem keeps_headersAlmostDone (tame : Tame r) (ch : UInt8) :
    Keeps (r.onHeadersAlmostDone strict ch) := by
  unfold onHeadersAlmostDone
  split
  · exact keeps_fail _
  · split
    · exact keeps_messageDone ⟨tame.clean, tame.sized⟩
    · split
      · exact keeps_fail _
      · have same : Tame { r with
            parser.state := .headersDone
            parser.upgrade := r.parser.flags.upgrade && r.parser.flags.connectionUpgrade &&
              r.parser.statusCode == 101 } := ⟨tame.clean, tame.sized⟩
        exact keeps_headersDone same ch

/-! ### Names -/

theorem keeps_headerFieldStart (tame : Tame r) (ch : UInt8) : Keeps (r.onHeaderFieldStart strict ch) := by
  unfold onHeaderFieldStart
  split
  · exact keeps_goto tame rfl
  · split
    · have same : Tame { r with parser.state := .headersAlmostDone } := ⟨tame.clean, tame.sized⟩
      exact keeps_headersAlmostDone same ch
    · dsimp only
      split
      · exact keeps_fail _
      · refine ⟨⟨tame.clean, tame.sized⟩, ?_⟩
        show isNameState _ = true
        (repeat' split) <;> rfl

/-- Matching a name goes from states of names to states of names, and touches no length. -/
structure Named (r s : Parse) : Prop where
  listed : isNameState s.parser.headerState = true
  state : s.parser.state = r.parser.state
  errno : s.parser.errno = r.parser.errno
  length : s.parser.contentLength = r.parser.contentLength

theorem matchName_named {word : Bytes} {c : UInt8} {found : HeaderState}
    (listed : isNameState r.parser.headerState = true) (ends : isNameState found = true) :
    Named r (r.matchName word c found) := by
  unfold matchName
  dsimp only
  split
  · exact ⟨rfl, rfl, rfl, rfl⟩
  · exact ⟨listed, rfl, rfl, rfl⟩
  · exact ⟨ends, rfl, rfl, rfl⟩

theorem headerNameChar_named (listed : isNameState r.parser.headerState = true) (ch c : UInt8) :
    Named r (r.headerNameChar ch c) := by
  have ends : ∀ b : Bool, isNameState (if b then HeaderState.general else r.parser.headerState) = true := by
    intro b
    cases b
    · exact listed
    · rfl
  unfold headerNameChar
  dsimp only
  split
  · exact ⟨by dsimp only; split <;> rfl, rfl, rfl, rfl⟩
  · exact ⟨by dsimp only; split <;> rfl, rfl, rfl, rfl⟩
  · exact ⟨by dsimp only; (repeat' split) <;> rfl, rfl, rfl, rfl⟩
  · exact matchName_named listed rfl
  · exact matchName_named listed rfl
  · exact matchName_named listed rfl
  · have named : Named r (r.matchName (ascii "transfer-encoding") c .transferEncoding) :=
      matchName_named listed rfl
    split
    · exact ⟨named.listed, named.state, named.errno, named.length⟩
    · exact named
  · exact matchName_named listed rfl
  all_goals first
    | exact ⟨listed, rfl, rfl, rfl⟩
    | (split
       · exact ⟨rfl, rfl, rfl, rfl⟩
       · exact ⟨listed, rfl, rfl, rfl⟩)

theorem keeps_headerField (tame : Tame r) (inside : r.parser.state = .headerField)
    (listed : isNameState r.parser.headerState = true) (ch : UInt8) :
    Keeps (r.onHeaderField strict ch) := by
  unfold onHeaderField
  dsimp only
  split
  · obtain ⟨listed', state, errno, length⟩ := headerNameChar_named listed ch (token strict ch)
    refine ⟨⟨errno.trans tame.clean, length.trans_le tame.sized⟩, ?_⟩
    unfold Placed
    rw [state, inside]
    exact listed'
  · split
    · exact keeps_goto tame rfl
    · exact keeps_fail _

/-! ### Values -/

/-- What matching a value comes to: the parser is still inside one. -/
structure AtValue (r : Parse) : Prop extends Tame r where
  state : r.parser.state = .headerValue
  notConnection : r.parser.headerState ≠ .connection
  notTransferEncoding : r.parser.headerState ≠ .transferEncoding

theorem AtValue.sane (inside : AtValue r) : Sane r := by
  refine ⟨inside.toTame, ?_⟩
  unfold Placed
  rw [inside.state]
  exact ⟨inside.notConnection, inside.notTransferEncoding⟩

/-- A verdict of a function that matches values. -/
def StaysInValue : Verdict Parse → Prop
  | .more next => AtValue next
  | .stop _ eaten => eaten = false

theorem StaysInValue.keeps {verdict : Verdict Parse} (stays : StaysInValue verdict) : Keeps verdict := by
  cases verdict with
  | more next => exact AtValue.sane stays
  | stop last eaten => exact fun all => absurd (stays.symm.trans all) Bool.false_ne_true

theorem digit_le {ch : UInt8} (digit : isNum ch = true) : ch.toNat - 48 ≤ 9 := by
  have each : ∀ b : UInt8, isNum b = true → b.toNat - 48 ≤ 9 := Numerals.forall_byte (by decide +kernel)
  exact each ch digit

/-- A value goes on in another state, or in the same one. -/
theorem stays_on {next : Parse} (tame : Tame r) (errno : next.parser.errno = r.parser.errno)
    (length : next.parser.contentLength = r.parser.contentLength)
    (state : next.parser.state = .headerValue) {h : HeaderState} (header : next.parser.headerState = h)
    (other : (h != .connection && h != .transferEncoding) = true) : StaysInValue (.more next) := by
  rw [Bool.and_eq_true, bne_iff_ne, bne_iff_ne] at other
  exact ⟨⟨errno.trans tame.clean, length.trans_le tame.sized⟩, state, header ▸ other.1, header ▸ other.2⟩

theorem stays_headerValueStart (tame : Tame r) (ch : UInt8) : StaysInValue (r.onHeaderValueStart ch) := by
  unfold onHeaderValueStart
  dsimp only
  split
  · exact stays_on tame rfl rfl rfl rfl rfl
  · split <;> exact stays_on tame rfl rfl rfl rfl rfl
  · next known => exact stays_on tame rfl rfl rfl known rfl
  · split
    · exact rfl
    · next digit =>
      split
      · exact rfl
      · refine ⟨⟨tame.clean, ?_⟩, rfl, nofun, nofun⟩
        have small : ch.toNat - 48 ≤ 9 := digit_le (by simpa using digit)
        exact small.trans (by decide)
  · next known => exact stays_on tame rfl rfl rfl known rfl
  · (repeat' split) <;> exact stays_on tame rfl rfl rfl rfl rfl
  · next known => exact stays_on tame rfl rfl rfl known rfl
  · exact stays_on tame rfl rfl rfl rfl rfl

theorem stays_contentLengthDigit (inside : AtValue r) (ch : UInt8) :
    StaysInValue (r.contentLengthDigit ch) := by
  unfold contentLengthDigit
  split
  · exact stays_on inside.toTame rfl rfl inside.state rfl rfl
  · split
    · exact rfl
    · next digit =>
      split
      · exact rfl
      · next room =>
        refine ⟨⟨inside.clean, ?_⟩, inside.state, nofun, nofun⟩
        have small : ch.toNat - 48 ≤ 9 := digit_le (by simpa using digit)
        unfold ullongMax at room ⊢
        dsimp only
        omega

theorem matchValue_stays (inside : AtValue r) {word : Bytes} {c : UInt8} {missed found : HeaderState}
    (other : (missed != .connection && missed != .transferEncoding) = true)
    (ends : (found != .connection && found != .transferEncoding) = true) :
    StaysInValue (.more (r.matchValue word c missed found)) := by
  unfold matchValue
  dsimp only
  split
  · exact stays_on inside.toTame rfl rfl inside.state rfl other
  · exact ⟨⟨inside.clean, inside.sized⟩, inside.state, inside.notConnection, inside.notTransferEncoding⟩
  · exact stays_on inside.toTame rfl rfl inside.state rfl ends

theorem tokenFlag_tame (tame : Tame r) : Tame r.tokenFlag ∧
    r.tokenFlag.parser.state = r.parser.state ∧
    r.tokenFlag.parser.headerState = r.parser.headerState := by
  unfold tokenFlag
  split <;> exact ⟨⟨tame.clean, tame.sized⟩, rfl, rfl⟩

theorem stays_headerValueChar (inside : AtValue r) (ch : UInt8) : StaysInValue (r.headerValueChar ch) := by
  have same : StaysInValue (.more r) := inside
  have on : ∀ {next : Parse} (h : HeaderState), next.parser.errno = r.parser.errno →
      next.parser.contentLength = r.parser.contentLength → next.parser.state = r.parser.state →
      next.parser.headerState = h → (h != .connection && h != .transferEncoding) = true →
      StaysInValue (.more next) := fun _ errno length state header other =>
    stays_on inside.toTame errno length (state.trans inside.state) header other
  obtain ⟨flagged, state, -⟩ := tokenFlag_tame inside.toTame
  unfold headerValueChar
  dsimp only
  split
  iterate 3 exact same
  · split
    · exact same
    · exact stays_contentLengthDigit inside ch
  · exact stays_contentLengthDigit inside ch
  · split
    · exact same
    · exact rfl
  · (repeat' split) <;> first | exact same | exact on _ rfl rfl rfl rfl rfl
  · exact matchValue_stays inside rfl rfl
  · split <;> first | exact same | exact on _ rfl rfl rfl rfl rfl
  · (repeat' split) <;> first | exact same | exact on _ rfl rfl rfl rfl rfl
  iterate 3 exact matchValue_stays inside rfl rfl
  · split <;> first | exact same | exact on _ rfl rfl rfl rfl rfl
  · split <;> first | exact same | exact on _ rfl rfl rfl rfl rfl
  iterate 3
    split
    · exact ⟨⟨flagged.clean, flagged.sized⟩, state.trans inside.state, nofun, nofun⟩
    · split <;> first | exact same | exact on _ rfl rfl rfl rfl rfl
  · exact on _ rfl rfl rfl rfl rfl

theorem keeps_headerAlmostDone (tame : Tame r) (ch : UInt8) : Keeps (r.onHeaderAlmostDone ch) := by
  unfold onHeaderAlmostDone
  split
  · exact keeps_fail _
  · exact keeps_goto tame rfl

theorem keeps_headerValue (inside : AtValue r) (ch : UInt8) : Keeps (r.onHeaderValue ch) := by
  unfold onHeaderValue
  split
  · exact keeps_goto inside.toTame rfl
  · split
    · have same : Tame { r with parser.state := .headerAlmostDone } := ⟨inside.clean, inside.sized⟩
      exact keeps_headerAlmostDone same ch
    · split
      · exact keeps_fail _
      · exact (stays_headerValueChar inside ch).keeps

theorem keeps_headerValueLws (tame : Tame r) (ch : UInt8) : Keeps (r.onHeaderValueLws strict ch) := by
  unfold onHeaderValueLws
  split
  · have same : ∀ h : HeaderState, Tame { r with parser.headerState := h, parser.state := .headerValueStart } :=
      fun _ => ⟨tame.clean, tame.sized⟩
    dsimp only
    split
    · exact (stays_headerValueStart (same _) ch).keeps
    · exact (stays_headerValueStart (same _) ch).keeps
  · have flagged := (tokenFlag_tame tame).1
    have same : Tame { r.tokenFlag with parser.state := .headerFieldStart } :=
      ⟨flagged.clean, flagged.sized⟩
    exact keeps_headerFieldStart same ch

theorem keeps_headerValueDiscardWs (tame : Tame r) (same : plain r.parser.state = true) (ch : UInt8) :
    Keeps (r.onHeaderValueDiscardWs ch) := by
  unfold onHeaderValueDiscardWs
  split
  · exact ⟨tame, placed_plain same⟩
  · split
    · exact keeps_goto tame rfl
    · split
      · exact keeps_goto tame rfl
      · exact (stays_headerValueStart tame ch).keeps

theorem keeps_headerValueDiscardLws (tame : Tame r) (ch : UInt8) :
    Keeps (r.onHeaderValueDiscardLws strict ch) := by
  unfold onHeaderValueDiscardLws
  split
  · exact keeps_goto tame rfl
  · split
    · exact keeps_fail _
    · have flagged := (tokenFlag_tame tame).1
      have same : Tame { r.tokenFlag with parser.state := .headerFieldStart } :=
        ⟨flagged.clean, flagged.sized⟩
      exact keeps_headerFieldStart same ch

/-! ### The status line -/

theorem keeps_expect (tame : Tame r) {state : State} (nothing : plain state = true) (ch expected : UInt8) :
    Keeps (r.expect strict ch expected state) := by
  unfold expect
  split
  · exact keeps_fail _
  · exact keeps_goto tame nothing

theorem keeps_startRes (tame : Tame r) (same : plain r.parser.state = true) (ch : UInt8) :
    Keeps (r.onStartRes ch) := by
  unfold onStartRes
  split
  · exact ⟨tame, placed_plain same⟩
  · dsimp only
    split
    · exact ⟨⟨tame.clean, Nat.le_refl _⟩, placed_plain rfl⟩
    · exact keeps_fail _

theorem keeps_status (tame : Tame r) (same : plain r.parser.state = true) (ch : UInt8) :
    Keeps (r.onStatus ch) := by
  unfold onStatus
  split
  · exact keeps_goto tame rfl
  · split
    · exact keeps_goto tame rfl
    · exact ⟨tame, placed_plain same⟩

theorem keeps_statusStart (tame : Tame r) (ch : UInt8) : Keeps (r.onStatusStart ch) := by
  have same : Tame { r with parser.state := .resStatus, parser.index := 0 } := ⟨tame.clean, tame.sized⟩
  unfold onStatusStart
  dsimp only
  split
  · exact keeps_status same rfl ch
  · exact ⟨same, placed_plain rfl⟩

theorem keeps_statusCode (tame : Tame r) (same : plain r.parser.state = true) (ch : UInt8) :
    Keeps (r.onStatusCode ch) := by
  unfold onStatusCode
  split
  · split
    · exact keeps_goto tame rfl
    · split
      · have start : Tame { r with parser.state := .resStatusStart } := ⟨tame.clean, tame.sized⟩
        exact keeps_statusStart start ch
      · exact keeps_fail _
  · dsimp only
    split
    · exact keeps_fail _
    · exact ⟨⟨tame.clean, tame.sized⟩, placed_plain same⟩

theorem keeps_firstStatusCode (tame : Tame r) (same : plain r.parser.state = true) (ch : UInt8) :
    Keeps (r.onFirstStatusCode ch) := by
  unfold onFirstStatusCode
  split
  · split
    · exact ⟨tame, placed_plain same⟩
    · exact keeps_fail _
  · exact ⟨⟨tame.clean, tame.sized⟩, placed_plain rfl⟩

/-! ### Bodies -/

theorem hex_le {ch : UInt8} {digit : Nat} (found : unhex ch = some digit) : digit ≤ 15 := by
  have each : ∀ b : UInt8, ∀ digit ∈ (unhex b).toList, digit ≤ 15 :=
    Numerals.forall_byte (by decide +kernel)
  exact each ch digit (by rw [found]; exact List.mem_singleton_self _)

theorem keeps_bodyIdentity (tame : Tame r) (inside : r.parser.state = .bodyIdentity) :
    Keeps (r.onBodyIdentity strict) := by
  have sized := tame.sized
  have less : Tame { r with parser.contentLength := r.parser.contentLength - 1 } :=
    ⟨tame.clean, (Nat.sub_le _ _).trans sized⟩
  unfold onBodyIdentity
  dsimp only
  split
  · have done : Tame { r with
        parser.contentLength := r.parser.contentLength - 1, parser.state := .messageDone } :=
      ⟨less.clean, less.sized⟩
    exact keeps_messageDone done
  · next some_left =>
    refine ⟨less, ?_⟩
    unfold Placed
    dsimp only
    rw [inside]
    have left : r.parser.contentLength - 1 ≠ 0 := fun none => some_left (beq_iff_eq.mpr none)
    exact ⟨left, by omega⟩

theorem keeps_chunkSizeStart (tame : Tame r) (chunked : r.parser.flags.chunked = true) (ch : UInt8) :
    Keeps (r.onChunkSizeStart ch) := by
  unfold onChunkSizeStart
  split
  · exact keeps_fail _
  · next digit found =>
    have small := hex_le found
    have less : digit < ullongMax := small.trans_lt (by decide)
    exact ⟨⟨tame.clean, less.le⟩, chunked, less.ne⟩

theorem keeps_chunkSize (tame : Tame r) (inside : r.parser.state = .chunkSize)
    (chunked : r.parser.flags.chunked = true) (fits : r.parser.contentLength ≠ ullongMax) (ch : UInt8) :
    Keeps (r.onChunkSize ch) := by
  unfold onChunkSize
  split
  · exact ⟨⟨tame.clean, tame.sized⟩, chunked, fits⟩
  · split
    · split
      · exact ⟨⟨tame.clean, tame.sized⟩, chunked, fits⟩
      · exact keeps_fail _
    · next digit found =>
      split
      · exact keeps_fail _
      · next room =>
        have small := hex_le found
        have less : r.parser.contentLength * 16 + digit < ullongMax := by
          unfold ullongMax at room ⊢
          omega
        refine ⟨⟨tame.clean, less.le⟩, ?_⟩
        unfold Placed
        dsimp only
        rw [inside]
        exact ⟨chunked, less.ne⟩

theorem keeps_chunkSizeAlmostDone (tame : Tame r) (fits : r.parser.contentLength ≠ ullongMax)
    (chunked : r.parser.flags.chunked = true) (ch : UInt8) :
    Keeps (r.onChunkSizeAlmostDone strict ch) := by
  unfold onChunkSizeAlmostDone
  split
  · exact keeps_fail _
  · dsimp only
    split
    · exact ⟨⟨tame.clean, tame.sized⟩, placed_plain rfl⟩
    · next some_data =>
      exact ⟨⟨tame.clean, tame.sized⟩, chunked, fun none => some_data (beq_iff_eq.mpr none), fits⟩

theorem keeps_chunkData (tame : Tame r) (inside : r.parser.state = .chunkData)
    (chunked : r.parser.flags.chunked = true) : Keeps r.onChunkData := by
  have sized := tame.sized
  have less : Tame { r with parser.contentLength := r.parser.contentLength - 1 } :=
    ⟨tame.clean, (Nat.sub_le _ _).trans sized⟩
  unfold onChunkData
  dsimp only
  split
  · next none_left => exact ⟨⟨tame.clean, less.sized⟩, chunked, beq_iff_eq.mp none_left⟩
  · next some_left =>
    refine ⟨less, ?_⟩
    unfold Placed
    dsimp only
    rw [inside]
    have left : r.parser.contentLength - 1 ≠ 0 := fun none => some_left (beq_iff_eq.mpr none)
    exact ⟨chunked, left, by omega⟩

theorem keeps_chunkDataDone (tame : Tame r) (chunked : r.parser.flags.chunked = true) (ch : UInt8) :
    Keeps (r.onChunkDataDone strict ch) := by
  unfold onChunkDataDone
  split
  · exact keeps_fail _
  · exact ⟨⟨tame.clean, tame.sized⟩, rfl, chunked⟩

/-! ### One byte -/

/-- Sanity does not depend on how much is counted, but where a size line starts. -/
theorem Sane.uncounted (sane : Sane r) : Sane (r.counted 0) := by
  refine ⟨⟨sane.clean, sane.sized⟩, ?_⟩
  have placed := sane.placed
  unfold Placed at placed ⊢
  unfold counted
  dsimp only
  split <;> simp_all

/-- **What is asserted follows** once the byte is counted. -/
theorem Sane.asserted (sane : Sane r) : Asserted
    (if r.parser.state.parsingHeader then (r.counted (r.parser.nread + 1)).parser else r.parser) := by
  have placed := sane.placed
  unfold Placed at placed
  unfold Asserted counted
  cases state : r.parser.state <;> simp_all [State.parsingHeader]

theorem keeps_onByte (sane : Sane (r.counted 0)) (ch : UInt8) : Keeps (r.onByte strict ch) := by
  have tame : Tame r := ⟨sane.clean, sane.sized⟩
  have placed := sane.placed
  unfold Placed counted at placed
  dsimp only at placed
  unfold onByte
  split <;> next state =>
    rw [state] at placed
    have same : plain r.parser.state = plain _ := congrArg plain state
    first
    | exact keeps_startRes tame same ch
    | exact keeps_expect tame rfl ch _
    | exact keeps_firstStatusCode tame same ch
    | exact keeps_statusCode tame same ch
    | exact keeps_statusStart tame ch
    | exact keeps_status tame same ch
    | exact keeps_headerFieldStart tame ch
    | exact keeps_headerField tame state placed ch
    | exact keeps_headerValueDiscardWs tame same ch
    | exact keeps_headerValueDiscardLws tame ch
    | exact (stays_headerValueStart tame ch).keeps
    | exact keeps_headerValue ⟨tame, state, placed.1, placed.2⟩ ch
    | exact keeps_headerValueLws tame ch
    | exact keeps_headerAlmostDone tame ch
    | exact keeps_chunkSizeStart tame placed.2 ch
    | exact keeps_chunkSize tame state placed.1 placed.2 ch
    | exact keeps_chunkSizeAlmostDone tame placed.2 placed.1 ch
    | exact keeps_headersAlmostDone tame ch
    | exact keeps_headersDone tame ch
    | exact keeps_chunkData tame state placed.1
    | exact keeps_chunkDataDone tame placed ch
    | exact keeps_bodyIdentity tame state
    | exact keeps_messageDone tame
    | exact ⟨tame, placed_plain same⟩
    | (split
       · exact keeps_fail _
       · exact ⟨⟨tame.clean, tame.sized⟩, placed_plain rfl⟩)
    | (split
       · exact ⟨tame, placed_plain same⟩
       · exact keeps_fail _)
    | (split
       · exact ⟨⟨tame.clean, tame.sized⟩, placed⟩
       · exact ⟨tame, by unfold Placed; rw [state]; exact placed⟩)
    | (unfold expect
       split
       · exact keeps_fail _
       · exact ⟨⟨tame.clean, tame.sized⟩, placed.1⟩)

/-- **One byte of any kind keeps a parser sane.** -/
theorem Sane.stepByte (sane : Sane r) (ch : UInt8) : Keeps (r.stepByte strict ch) := by
  unfold Parse.stepByte
  dsimp only
  split
  · split
    · exact keeps_fail _
    · exact keeps_onByte (r := r.counted (r.parser.nread + 1)) sane.uncounted ch
  · exact keeps_onByte sane.uncounted ch

/-- Bytes keep a parser sane, unless there is an error. -/
theorem Sane.feed (sane : Sane r) {bytes : Bytes}
    (clean : (ByteMachine.feed (Parse.stepByte strict) r bytes).state.parser.errno = .ok) :
    Sane (ByteMachine.feed (Parse.stepByte strict) r bytes).state := by
  induction bytes generalizing r with
  | nil => exact sane
  | cons ch rest ih =>
    have keeps : Keeps (r.stepByte strict ch) := sane.stepByte ch
    have sound := stepByte_sound strict r ch
    simp only [ByteMachine.feed] at clean ⊢
    cases verdict : r.stepByte strict ch with
    | more next =>
      rw [verdict] at clean keeps
      exact ih keeps clean
    | stop last eaten =>
      rw [verdict] at clean keeps sound
      cases eaten with
      | true => exact keeps rfl
      | false => exact absurd clean (sound.resolve_right fun read => Bool.false_ne_true read.2.2).1

/-- A call keeps a parser sane, unless it sets an error. -/
theorem Sane.execute (sane : Sane r) {data : Bytes}
    (clean : (r.execute strict data).state.parser.errno = .ok) : Sane (r.execute strict data).state := by
  by_cases none : data = []
  · subst none
    rw [execute_nil sane.clean] at clean ⊢
    have placed := sane.placed
    unfold atEof at clean ⊢
    dsimp only at clean ⊢
    split at clean
    · exact ⟨⟨sane.clean, sane.sized⟩, placed⟩
    · exact sane
    · exact sane
    · cases clean
  · rw [execute_eq_feed sane.clean none] at clean ⊢
    exact sane.feed clean

end Sane

/-! ### Every response -/

/-- The parser after some calls, one after the other. -/
def executes (strict : Bool) (r : Parse) (buffers : List Bytes) : Parse :=
  buffers.foldl (fun r data => (r.execute strict data).state) r

/-- An error stays. -/
theorem executes_failed {strict : Bool} {r : Parse} (failed : r.parser.errno ≠ .ok) (buffers : List Bytes) :
    executes strict r buffers = r := by
  induction buffers with
  | nil => rfl
  | cons data rest ih =>
    have unread : (r.execute strict data).state = r := by
      unfold Parse.execute
      rw [if_pos failed]
    unfold executes at ih ⊢
    rw [List.foldl_cons, unread]
    exact ih

theorem Sane.executes {strict : Bool} {r : Parse} (sane : Sane r) {buffers : List Bytes}
    (clean : (executes strict r buffers).parser.errno = .ok) : Sane (executes strict r buffers) := by
  induction buffers generalizing r with
  | nil => exact sane
  | cons data rest ih =>
    by_cases fine : (r.execute strict data).state.parser.errno = .ok
    · exact ih (sane.execute fine) clean
    · have stuck : Parse.executes strict r (data :: rest) = (r.execute strict data).state :=
        executes_failed fine rest
      rw [stuck] at clean
      exact absurd clean fine

end Parse

end Apib
