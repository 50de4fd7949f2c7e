/-
**The loops inside `http_parser_execute`.**

The source does not go round its outer loop for every byte. It scans over the rest of a header name, over
the rest of a header value, and jumps over as much of a body as the buffer holds; what it has scanned is
counted at the end of the scan, and what it has jumped over is subtracted at once. A scan of a name or a
value that means nothing special goes on for at most `max_header_size` bytes, and that of a value passes over
one byte more unseen.

`scan` is the function with these loops. A value is matched in `h_state`, a copy of `header_state` that is
written back wherever the scan is left but at an invalid byte: here `header_state` itself is changed.

* `scanName_follows`, `scanValue_follows`, `scanBody_follows`, `scanChunk_follows`: each loop follows the
  machine that takes the bytes one by one, but for which error there is where there is one;
* `scan_agrees`: **for any buffers the function with its loops and the machine without them end alike.**
-/

import Apib.HttpParser.Assertions
import Apib.Library.Turns
import Mathlib.Data.List.Induction

namespace Apib

open ByteMachine HttpParser

namespace Parse

/-! ### The loops -/

/-- The macro `COUNT_HEADER_SIZE` at the first byte of `stop`, and what comes after it. -/
def countHeaderSize (v : Nat) (r : Parse) (stop : Bytes) (after : Parse → Turn Parse UInt8) :
    Turn Parse UInt8 :=
  let r := r.counted (r.parser.nread + v)
  if r.parser.nread > maxHeaderSize then .stop { r with parser.errno := .headerOverflow } stop
  else after r

/-- The `while` loop of `h_general` in state `s_header_field`: how far it gets. -/
def skipTokens (strict : Bool) : Nat → Bytes → Bytes
  | limit + 1, ch :: rest => if token strict ch != 0 then skipTokens strict limit rest else ch :: rest
  | _, rest => rest

theorem skipTokens_le (strict : Bool) (limit : Nat) (rest : Bytes) :
    (skipTokens strict limit rest).length ≤ rest.length := by
  induction rest generalizing limit with
  | nil => cases limit <;> exact Nat.le_refl _
  | cons ch rest ih =>
    cases limit with
    | zero => exact Nat.le_refl _
    | succ limit =>
      unfold skipTokens
      split
      · exact (ih limit).trans (Nat.le_succ _)
      · exact Nat.le_refl _

/-- The `for` loop of state `s_header_field`: it breaks at what is no token character. -/
def nameLoop (strict : Bool) (r : Parse) : Bytes → Parse × Bytes
  | [] => (r, [])
  | ch :: rest =>
    let c := token strict ch
    if c == 0 then (r, ch :: rest)
    else if r.parser.headerState = .general then
      nameLoop strict r (skipTokens strict (min (rest.length + 1) maxHeaderSize - 1) rest)
    else nameLoop strict (r.headerNameChar ch c) rest
termination_by rest => rest.length
decreasing_by
  · exact Nat.lt_succ_of_le (skipTokens_le _ _ _)
  · exact Nat.lt_succ_self _

/-- State `s_header_field`. -/
def scanName (strict : Bool) (r : Parse) (data : Bytes) : Turn Parse UInt8 :=
  match r.nameLoop strict data with
  | (r, []) => r.countHeaderSize (data.length - 1) (data.drop (data.length - 1)) fun r => .more r []
  | (r, ch :: rest) =>
    r.countHeaderSize (data.length - (rest.length + 1)) (ch :: rest) fun r =>
      if ch == chr ':' then .more { r with parser.state := .headerValueDiscardWs } rest
      else .stop { r with parser.errno := .invalidHeaderToken } (ch :: rest)

/-- The `for` loop of `h_general` in state `s_header_value`: where the outer loop goes on, unless a byte is
invalid. Past `pe` one byte goes by unseen, as the outer loop advances too. -/
def skipValue : Nat → Bytes → Bytes ⊕ Bytes
  | 0, rest => .inr (rest.drop 1)
  | _ + 1, [] => .inr []
  | limit + 1, ch :: rest =>
    if ch == CR || ch == LF then .inr (ch :: rest)
    else if !isHeaderChar ch then .inl (ch :: rest)
    else skipValue limit rest

theorem skipValue_le {limit : Nat} {rest left : Bytes} (skipped : skipValue limit rest = .inr left) :
    left.length ≤ rest.length := by
  induction rest generalizing limit with
  | nil => cases limit <;> cases skipped <;> exact Nat.le_refl _
  | cons ch rest ih =>
    cases limit with
    | zero =>
      cases skipped
      exact Nat.le_succ _
    | succ limit =>
      unfold skipValue at skipped
      split at skipped
      · cases skipped
        exact Nat.le_refl _
      · split at skipped
        · cases skipped
        · exact (ih skipped).trans (Nat.le_succ _)

/-- Where a byte ends no line, the loop gets past it. -/
theorem skipValue_lt {limit : Nat} {ch : UInt8} {rest left : Bytes} (inside : (ch == CR || ch == LF) = false)
    (skipped : skipValue limit (ch :: rest) = .inr left) : left.length ≤ rest.length := by
  cases limit with
  | zero =>
    cases skipped
    exact Nat.le_refl _
  | succ limit =>
    unfold skipValue at skipped
    rw [inside, if_neg Bool.false_ne_true] at skipped
    split at skipped
    · cases skipped
    · exact skipValue_le skipped

/-- How the loop of state `s_header_value` is left: at the end of the buffer, at the end of a line, or for
`error`. -/
inductive ValueEnd
  | ranOut (r : Parse)
  | atCr (r : Parse) (rest : Bytes)
  | atLf (r : Parse) (rest : Bytes)
  | error (r : Parse) (stop : Bytes)

/-- The `for` loop of state `s_header_value`. -/
def valueLoop (r : Parse) : Bytes → ValueEnd
  | [] => .ranOut r
  | ch :: rest =>
    if ch == CR then .atCr { r with parser.state := .headerAlmostDone } rest
    else if ch == LF then .atLf { r with parser.state := .headerAlmostDone } rest
    else if !isHeaderChar ch then .error { r with parser.errno := .invalidHeaderToken } (ch :: rest)
    else if r.parser.headerState = .general then
      match _skipped : skipValue (min (rest.length + 1) maxHeaderSize) (ch :: rest) with
      | .inl stop => .error { r with parser.errno := .invalidHeaderToken } stop
      | .inr left => valueLoop r left
    else
      match r.headerValueChar ch with
      | .more next => valueLoop next rest
      | .stop last _ => .error last (ch :: rest)
termination_by data => data.length
decreasing_by
  · exact Nat.lt_succ_of_le (skipValue_lt (by simp_all) _skipped)
  · exact Nat.lt_succ_self _

/-- State `s_header_value`. -/
def scanValue (r : Parse) (data : Bytes) : Turn Parse UInt8 :=
  match r.valueLoop data with
  | .ranOut r => r.countHeaderSize (data.length - 1) (data.drop (data.length - 1)) fun r => .more r []
  | .atCr r rest =>
    r.countHeaderSize (data.length - (rest.length + 1)) (CR :: rest) fun r => .more r rest
  | .atLf r rest =>
    r.countHeaderSize (data.length - (rest.length + 1)) (LF :: rest) fun r =>
      (r.onHeaderAlmostDone LF).turn LF rest
  | .error r stop => .stop r stop

/-- State `s_body_identity`. -/
def scanBody (strict : Bool) (r : Parse) (data : Bytes) : Turn Parse UInt8 :=
  let toRead := min r.parser.contentLength data.length
  let r := { r with parser.contentLength := r.parser.contentLength - toRead }
  if r.parser.contentLength == 0 then
    (onMessageDone strict { r with parser.state := .messageDone }).turn (data.getD (toRead - 1) 0)
      (data.drop toRead)
  else .more r (data.drop toRead)

/-- State `s_chunk_data`. -/
def scanChunk (r : Parse) (data : Bytes) : Turn Parse UInt8 :=
  let toRead := min r.parser.contentLength data.length
  let r := { r with parser.contentLength := r.parser.contentLength - toRead }
  if r.parser.contentLength == 0 then
    .more { r with parser.state := .chunkDataAlmostDone } (data.drop toRead)
  else .more r (data.drop toRead)

/-- The `switch`, at the byte `ch` with `rest` behind it. -/
def onBuffer (strict : Bool) (r : Parse) (ch : UInt8) (rest : Bytes) : Turn Parse UInt8 :=
  match r.parser.state with
  | .headerField => r.scanName strict (ch :: rest)
  | .headerValue => r.scanValue (ch :: rest)
  | .bodyIdentity => r.scanBody strict (ch :: rest)
  | .bodyIdentityEof => .more r []
  | .chunkData => r.scanChunk (ch :: rest)
  | _ => (r.onByte strict ch).turn ch rest

/-- A turn of the outer loop. -/
def turn (strict : Bool) (r : Parse) (ch : UInt8) (rest : Bytes) : Turn Parse UInt8 :=
  if r.parser.state.parsingHeader then
    r.countHeaderSize 1 (ch :: rest) fun r => r.onBuffer strict ch rest
  else r.onBuffer strict ch rest

/-- The function `http_parser_execute` with its loops. -/
def scan (strict : Bool) (r : Parse) (data : Bytes) : Fed Parse UInt8 :=
  if r.parser.errno ≠ .ok then ⟨r, data, true⟩
  else if data = [] then ⟨r.atEof, [], false⟩
  else turns (turn strict) data.length r data

/-! ### What is scanned over -/

/-- The parser is in an error. -/
def Failed (r : Parse) : Prop := r.parser.errno ≠ .ok

/-- The machine takes the bytes from `data` on to `left`, and counts them; or they are too many. -/
structure Passes (strict : Bool) (r : Parse) (data : Bytes) (next : Parse) (left : Bytes) : Prop where
  shorter : left.length ≤ data.length
  within : ∀ n, n + (data.length - left.length) ≤ maxHeaderSize →
    feed (stepByte strict) (r.counted n) data =
      feed (stepByte strict) (next.counted (n + (data.length - left.length))) left
  beyond : ∀ n, n ≤ maxHeaderSize → maxHeaderSize < n + (data.length - left.length) →
    Failed (feed (stepByte strict) (r.counted n) data).state

/-- The machine fails somewhere in the data. -/
def Refuses (strict : Bool) (r : Parse) (data : Bytes) : Prop :=
  ∀ n, n ≤ maxHeaderSize → Failed (feed (stepByte strict) (r.counted n) data).state

section Passes

variable {strict : Bool} {r next last : Parse} {ch : UInt8} {data rest left final : Bytes} {n : Nat}

/-- A byte of a header is counted first. -/
theorem stepByte_counted (header : r.parser.state.parsingHeader = true) (n : Nat) (ch : UInt8) :
    (r.counted n).stepByte strict ch =
      if maxHeaderSize < n + 1 then (r.counted (n + 1)).fail .headerOverflow
      else (r.counted (n + 1)).onByte strict ch := by
  have same : (r.counted n).parser.state.parsingHeader = true := header
  unfold stepByte
  rw [if_pos same]
  rfl

theorem feed_overflow (header : r.parser.state.parsingHeader = true) (full : maxHeaderSize < n + 1) :
    Failed (feed (stepByte strict) (r.counted n) (ch :: rest)).state := by
  simp only [feed, stepByte_counted header, if_pos full]
  show Errno.headerOverflow ≠ Errno.ok
  intro same
  cases same

theorem Passes.refl (strict : Bool) (r : Parse) (data : Bytes) : Passes strict r data r data := by
  refine ⟨Nat.le_refl _, fun n _ => ?_, fun n small big => ?_⟩
  · rw [Nat.sub_self, Nat.add_zero]
  · omega

theorem Passes.trans (first : Passes strict r data next left) (second : Passes strict next left last final) :
    Passes strict r data last final := by
  have shorter := first.shorter
  have shorter' := second.shorter
  have sum : data.length - final.length = data.length - left.length + (left.length - final.length) := by
    omega
  refine ⟨shorter'.trans shorter, fun n fits => ?_, fun n small big => ?_⟩
  · rw [sum] at fits ⊢
    rw [first.within n (by omega), second.within _ (by omega), Nat.add_assoc]
  · by_cases fits : n + (data.length - left.length) ≤ maxHeaderSize
    · rw [first.within n fits]
      exact second.beyond _ fits (by omega)
    · exact first.beyond n small (by omega)

/-- One byte of a header that goes on. -/
theorem Passes.byte (header : r.parser.state.parsingHeader = true)
    (goes : ∀ n, (r.counted n).onByte strict ch = .more (next.counted n)) (rest : Bytes) :
    Passes strict r (ch :: rest) next rest := by
  have one : (ch :: rest).length - rest.length = 1 := by simp
  refine ⟨Nat.le_succ _, fun n fits => ?_, fun n small big => ?_⟩
  · rw [one] at fits ⊢
    simp only [feed, stepByte_counted header, if_neg (show ¬maxHeaderSize < n + 1 by omega), goes]
  · rw [one] at big
    exact feed_overflow header big

/-- Where more is counted than there may be, with the byte that a scan stops at, the machine has failed. -/
theorem Passes.overflow (passes : Passes strict r data next left)
    (header : next.parser.state.parsingHeader = true) (small : n ≤ maxHeaderSize)
    (tooMany : maxHeaderSize < n + (data.length - left.length) + min 1 left.length) :
    Failed (feed (stepByte strict) (r.counted n) data).state := by
  by_cases fits : n + (data.length - left.length) ≤ maxHeaderSize
  · rw [passes.within n fits]
    cases left with
    | nil =>
      simp only [List.length_nil, Nat.min_zero, Nat.add_zero] at tooMany fits
      omega
    | cons ch rest =>
      have one : min 1 (ch :: rest).length = 1 := by simp
      rw [one] at tooMany
      exact feed_overflow header tooMany
  · exact passes.beyond n small (Nat.lt_of_not_le fits)

/-- **What is counted at the end of a scan**: the same as has been counted byte by byte, or too much. -/
theorem Passes.counts (passes : Passes strict r data next left) (last : Parse)
    (header : next.parser.state.parsingHeader = true) (room : n + 1 ≤ maxHeaderSize)
    (nread : last.parser.nread = n + 1) {v : Nat}
    (sum : v + 1 = data.length - left.length + min 1 left.length) {stop : Bytes}
    {after : Parse → Turn Parse UInt8}
    (follows : n + (data.length - left.length) + min 1 left.length ≤ maxHeaderSize →
      feed (stepByte strict) (r.counted n) data =
        feed (stepByte strict) (next.counted (n + (data.length - left.length))) left →
      (after (last.counted (n + (data.length - left.length) + min 1 left.length))).Follows
        (stepByte strict) Failed Sane (r.counted n) data) :
    (last.countHeaderSize v stop after).Follows (stepByte strict) Failed Sane (r.counted n) data := by
  have total : n + 1 + v = n + (data.length - left.length) + min 1 left.length := by omega
  dsimp only [countHeaderSize]
  rw [nread, total]
  split
  · next tooMany => exact .inr ⟨nofun, passes.overflow header (by omega) tooMany⟩
  · next fits =>
    have fits : n + (data.length - left.length) + min 1 left.length ≤ maxHeaderSize := Nat.le_of_not_lt fits
    exact follows fits (passes.within n (by omega))

theorem Passes.refuses (passes : Passes strict r data next left) (refuses : Refuses strict next left) :
    Refuses strict r data := by
  intro n small
  by_cases fits : n + (data.length - left.length) ≤ maxHeaderSize
  · rw [passes.within n fits]
    exact refuses _ fits
  · exact passes.beyond n small (by omega)

/-- A byte of a header that does not go on. -/
theorem Refuses.byte (header : r.parser.state.parsingHeader = true)
    (fails : ∀ n, ∃ last eaten, (r.counted n).onByte strict ch = .stop last eaten ∧ Failed last)
    (rest : Bytes) : Refuses strict r (ch :: rest) := by
  intro n small
  by_cases full : maxHeaderSize < n + 1
  · exact feed_overflow header full
  · obtain ⟨last, eaten, stops, failed⟩ := fails (n + 1)
    simp only [feed, stepByte_counted header, if_neg full, stops]
    cases eaten <;> exact failed

/-- Where `max_header_size` bytes are counted, what becomes of another one does not matter. -/
theorem Passes.overrun (passes : Passes strict r data next (ch :: rest))
    (header : next.parser.state.parsingHeader = true)
    (long : data.length - (ch :: rest).length = maxHeaderSize) (last : Parse) :
    Passes strict r data last rest := by
  have shorter := passes.shorter
  have one : (ch :: rest).length = rest.length + 1 := rfl
  have more : data.length - rest.length = maxHeaderSize + 1 := by omega
  refine ⟨by omega, fun n fits => ?_, fun n small _ => ?_⟩
  · omega
  · by_cases none : n = 0
    · subst none
      rw [passes.within 0 (by omega), long]
      exact feed_overflow header (by omega)
    · exact passes.beyond n small (by omega)

end Passes

/-! ### Names -/

section Names

variable {strict : Bool} {r : Parse} {ch : UInt8} {data rest : Bytes}

theorem counted_self (r : Parse) : r.counted r.parser.nread = r := rfl

theorem headerNameChar_counted (r : Parse) (n : Nat) (ch c : UInt8) :
    (r.counted n).headerNameChar ch c = (r.headerNameChar ch c).counted n := by
  have matched : ∀ word found, (r.counted n).matchName word c found = (r.matchName word c found).counted n := by
    intro word found
    simp only [matchName, counted]
    split <;> rfl
  have same : (r.counted n).parser.headerState = r.parser.headerState := rfl
  unfold headerNameChar
  rw [same]
  dsimp only
  split
  iterate 3 rfl
  iterate 3 exact matched _ _
  · rw [matched]
    have kept : ((r.matchName (ascii "transfer-encoding") c .transferEncoding).counted n).parser.headerState =
        (r.matchName (ascii "transfer-encoding") c .transferEncoding).parser.headerState := rfl
    rw [kept]
    split <;> rfl
  · exact matched _ _
  all_goals first
    | rfl
    | (split <;> rfl)

theorem headerNameChar_nread (r : Parse) (ch c : UInt8) :
    (r.headerNameChar ch c).parser.nread = r.parser.nread := by
  have same := headerNameChar_counted r r.parser.nread ch c
  rw [counted_self] at same
  rw [same]
  rfl

/-- A token character of a name. -/
theorem passes_name (inside : r.parser.state = .headerField) (char : token strict ch ≠ 0) (rest : Bytes) :
    Passes strict r (ch :: rest) (r.headerNameChar ch (token strict ch)) rest := by
  refine Passes.byte (by rw [inside]; rfl) (fun n => ?_) rest
  have same : (r.counted n).parser.state = .headerField := inside
  unfold onByte
  rw [same]
  simp only [onHeaderField, if_pos (bne_iff_ne.mpr char), headerNameChar_counted]

/-- Token characters of a name that means nothing. -/
theorem passes_skipTokens (inside : r.parser.state = .headerField)
    (general : r.parser.headerState = .general) (limit : Nat) (data : Bytes) :
    Passes strict r data r (skipTokens strict limit data) := by
  induction data generalizing limit with
  | nil => cases limit <;> exact .refl strict r []
  | cons ch rest ih =>
    cases limit with
    | zero => exact .refl strict r _
    | succ limit =>
      unfold skipTokens
      split
      · next char =>
        have one := passes_name inside (bne_iff_ne.mp char) rest
        have same : r.headerNameChar ch (token strict ch) = r := by
          unfold headerNameChar
          rw [general]
        rw [same] at one
        exact one.trans (ih limit)
      · exact .refl strict r _

/-- Where the loop of a name gets to. -/
structure NameScanned (strict : Bool) (r : Parse) (data : Bytes) (next : Parse) (left : Bytes) : Prop where
  named : Named r next
  nread : next.parser.nread = r.parser.nread
  passes : Passes strict r data next left
  stops : ∀ ch rest, left = ch :: rest → token strict ch = 0

theorem Named.trans {next last : Parse} (first : Named r next) (second : Named next last) :
    Named r last :=
  ⟨second.listed, second.state.trans first.state, second.errno.trans first.errno,
    second.length.trans first.length⟩

/-- **The loop of a name follows the machine**, whichever way it takes. -/
theorem nameLoop_scanned (inside : r.parser.state = .headerField)
    (listed : isNameState r.parser.headerState = true) (data : Bytes) :
    NameScanned strict r data (r.nameLoop strict data).1 (r.nameLoop strict data).2 := by
  have here : Named r r := ⟨listed, rfl, rfl, rfl⟩
  fun_induction nameLoop strict r data with
  | case1 r => exact ⟨here, rfl, .refl strict r [], nofun⟩
  | case2 r ch rest c no_char =>
    refine ⟨here, rfl, .refl strict r _, fun other rest same => ?_⟩
    cases same
    exact beq_iff_eq.mp no_char
  | case3 r ch rest c char general ih =>
    have one := passes_name inside (fun none => char (beq_iff_eq.mpr none)) rest
    have same : r.headerNameChar ch (token strict ch) = r := by
      unfold headerNameChar
      rw [general]
    rw [same] at one
    obtain ⟨named, nread, passes, stops⟩ := ih inside listed here
    exact ⟨named, nread, (one.trans (passes_skipTokens inside general _ rest)).trans passes, stops⟩
  | case4 r ch rest c char special ih =>
    have one := passes_name inside (fun none => char (beq_iff_eq.mpr none)) rest
    have first := headerNameChar_named listed ch c
    obtain ⟨named, nread, passes, stops⟩ :=
      ih (first.state.trans inside) first.listed ⟨first.listed, rfl, rfl, rfl⟩
    exact ⟨first.trans named, nread.trans (headerNameChar_nread r ch c), one.trans passes, stops⟩

theorem Passes.from_counted {next : Parse} {left : Bytes} {m : Nat}
    (passes : Passes strict (r.counted m) data next left) : Passes strict r data next left :=
  ⟨passes.shorter, passes.within, passes.beyond⟩

/-- **A scan of a name follows the machine**, the first byte of it having been counted. -/
theorem scanName_follows (tame : Tame r) (inside : r.parser.state = .headerField)
    (listed : isNameState r.parser.headerState = true) {n : Nat} (room : n + 1 ≤ maxHeaderSize)
    (some_data : 0 < data.length) :
    ((r.counted (n + 1)).scanName strict data).Follows (stepByte strict) Failed Sane (r.counted n) data := by
  have scanned : NameScanned strict (r.counted (n + 1)) data
      (nameLoop strict (r.counted (n + 1)) data).1 (nameLoop strict (r.counted (n + 1)) data).2 :=
    nameLoop_scanned (r := r.counted (n + 1)) inside listed data
  obtain ⟨named, nread, passes, stops⟩ := scanned
  replace passes := passes.from_counted
  unfold scanName
  generalize nameLoop strict (r.counted (n + 1)) data = scanned at named nread passes stops ⊢
  obtain ⟨next, left⟩ := scanned
  have tame' : Tame next := ⟨named.errno.trans tame.clean, named.length.trans_le tame.sized⟩
  have inside' : next.parser.state = .headerField := named.state.trans inside
  have header : next.parser.state.parsingHeader = true := by
    rw [inside']
    rfl
  cases left with
  | nil =>
    refine passes.counts next header room nread ?_ fun _ goes => ?_
    · show data.length - 1 + 1 = data.length - 0 + min 1 0
      omega
    · refine ⟨⟨⟨tame'.clean, tame'.sized⟩, ?_⟩, some_data, .inl goes.symm⟩
      unfold Placed counted
      dsimp only
      rw [inside']
      exact named.listed
  | cons ch rest =>
    have shorter : rest.length + 1 ≤ data.length := passes.shorter
    have one : min 1 (ch :: rest).length = 1 := by simp
    refine passes.counts next header room nread (by rw [one]; rfl) fun fits goes => ?_
    rw [one] at fits ⊢
    have step : (next.counted (n + (data.length - (ch :: rest).length))).stepByte strict ch =
        (next.counted (n + (data.length - (ch :: rest).length) + 1)).onHeaderField strict ch := by
      have state : ∀ m, (next.counted m).parser.state = .headerField := fun _ => inside'
      rw [stepByte_counted header, if_neg (Nat.not_lt.mpr fits), onByte, state]
    have none : (token strict ch != 0) = false := by simp [stops ch rest rfl]
    rw [onHeaderField, none, if_neg Bool.false_ne_true] at step
    split
    · next colon =>
      rw [if_pos colon] at step
      refine ⟨⟨⟨tame'.clean, tame'.sized⟩, placed_plain rfl⟩, shorter, .inl ?_⟩
      rw [goes]
      simp only [feed, step, goto]
    · next bad =>
      rw [if_neg bad] at step
      refine .inl ?_
      rw [goes]
      simp only [feed, step, fail]

end Names

/-! ### Values -/

/-- A verdict with another count in its state. -/
def recount (n : Nat) : Verdict Parse → Verdict Parse
  | .more next => .more (next.counted n)
  | .stop last eaten => .stop (last.counted n) eaten

section Values

variable {strict : Bool} {r : Parse} {ch : UInt8} {data rest left : Bytes}

theorem headerValueChar_counted (r : Parse) (n : Nat) (ch : UInt8) :
    (r.counted n).headerValueChar ch = recount n (r.headerValueChar ch) := by
  have digit : (r.counted n).contentLengthDigit ch = recount n (r.contentLengthDigit ch) := by
    have same : (r.counted n).parser.contentLength = r.parser.contentLength := rfl
    unfold contentLengthDigit
    rw [same]
    (repeat' split) <;> rfl
  have matched : ∀ word c missed found,
      Verdict.more ((r.counted n).matchValue word c missed found) =
        recount n (.more (r.matchValue word c missed found)) := by
    intro word c missed found
    simp only [matchValue, counted, recount]
    split <;> rfl
  have flagged : (r.counted n).tokenFlag = r.tokenFlag.counted n := by
    have same : (r.counted n).parser.headerState = r.parser.headerState := rfl
    unfold tokenFlag
    rw [same]
    split <;> rfl
  have same : (r.counted n).parser.headerState = r.parser.headerState := rfl
  unfold headerValueChar
  rw [same, digit, flagged]
  dsimp only
  split
  all_goals first
    | rfl
    | exact matched _ _ _ _
    | (split <;> rfl)
    | ((repeat' split) <;> rfl)

theorem headerValueChar_nread {next : Parse} (goes : r.headerValueChar ch = .more next) :
    next.parser.nread = r.parser.nread := by
  have same := headerValueChar_counted r r.parser.nread ch
  rw [counted_self, goes] at same
  have counts : next = next.counted r.parser.nread := Verdict.more.inj same
  rw [counts]
  rfl

/-- The byte is looked at inside a value, whatever is counted. -/
theorem onByte_value (inside : r.parser.state = .headerValue) (n : Nat) :
    (r.counted n).onByte strict ch = (r.counted n).onHeaderValue ch := by
  have state : (r.counted n).parser.state = .headerValue := inside
  rw [onByte, state]

/-- A byte of a value that ends no line. -/
theorem onHeaderValue_inner (inner : (ch == CR || ch == LF) = false) (valid : isHeaderChar ch = true) (n : Nat) :
    (r.counted n).onHeaderValue ch = recount n (r.headerValueChar ch) := by
  rw [Bool.or_eq_false_iff] at inner
  simp only [onHeaderValue, inner.1, inner.2, valid, Bool.not_true, Bool.false_eq_true, if_false,
    headerValueChar_counted]

theorem passes_value {next : Parse} (inside : r.parser.state = .headerValue)
    (inner : (ch == CR || ch == LF) = false) (valid : isHeaderChar ch = true)
    (goes : r.headerValueChar ch = .more next) (rest : Bytes) :
    Passes strict r (ch :: rest) next rest := by
  refine Passes.byte (by rw [inside]; rfl) (fun n => ?_) rest
  rw [onByte_value inside, onHeaderValue_inner inner valid, goes]
  rfl

theorem refuses_value {last : Parse} {eaten : Bool} (within : AtValue r)
    (inner : (ch == CR || ch == LF) = false) (valid : isHeaderChar ch = true)
    (stops : r.headerValueChar ch = .stop last eaten) (rest : Bytes) :
    Failed last ∧ Refuses strict r (ch :: rest) := by
  have uneaten := stays_headerValueChar within ch
  have sound := sound_headerValueChar (r := r) ch
  rw [stops] at uneaten sound
  have failed : Failed last := (sound.resolve_right fun read =>
    Bool.false_ne_true (uneaten.symm.trans read.2.2)).1
  refine ⟨failed, Refuses.byte (by rw [within.state]; rfl) (fun n => ?_) rest⟩
  rw [onByte_value within.state, onHeaderValue_inner inner valid, stops]
  exact ⟨_, _, rfl, failed⟩

/-- An invalid byte of a value. -/
theorem refuses_invalid (inside : r.parser.state = .headerValue) (inner : (ch == CR || ch == LF) = false)
    (invalid : isHeaderChar ch = false) (rest : Bytes) : Refuses strict r (ch :: rest) := by
  refine Refuses.byte (by rw [inside]; rfl) (fun n => ?_) rest
  rw [Bool.or_eq_false_iff] at inner
  rw [onByte_value inside]
  simp only [onHeaderValue, inner.1, inner.2, invalid, Bool.not_false, Bool.false_eq_true, if_false, if_true]
  exact ⟨_, _, rfl, nofun⟩

/-- How the scan of a value that means nothing gets on: it fails where the machine fails, gets where the
machine gets, or has passed over one byte behind the last that it may scan. -/
def Skipped (strict : Bool) (r : Parse) (limit : Nat) (data : Bytes) : Bytes ⊕ Bytes → Prop
  | .inl _ => Refuses strict r data
  | .inr left => Passes strict r data r left ∨
    limit < data.length ∧ left = data.drop (limit + 1) ∧ Passes strict r data r (data.drop limit)

theorem skipValue_skipped (inside : r.parser.state = .headerValue)
    (general : r.parser.headerState = .general) (limit : Nat) (data : Bytes) :
    Skipped strict r limit data (skipValue limit data) := by
  induction data generalizing limit with
  | nil => cases limit <;> exact .inl (.refl strict r [])
  | cons ch rest ih =>
    cases limit with
    | zero => exact .inr ⟨Nat.succ_pos _, rfl, .refl strict r _⟩
    | succ limit =>
      unfold skipValue
      split
      · exact .inl (.refl strict r _)
      · next inner =>
        rw [Bool.not_eq_true] at inner
        split
        · next invalid => exact refuses_invalid inside inner (by simpa using invalid) rest
        · next valid =>
          have same : r.headerValueChar ch = .more r := by
            unfold headerValueChar
            rw [general]
          have one : Passes strict r (ch :: rest) r rest :=
            passes_value inside inner (by simpa using valid) same rest
          have more := ih limit
          generalize skipValue limit rest = skipped at more ⊢
          cases skipped with
          | inl stop => exact one.refuses more
          | inr left =>
            refine more.imp one.trans fun ⟨long, left, passes⟩ => ⟨Nat.succ_lt_succ long, left, ?_⟩
            exact one.trans passes

/-- How the loop of a value is left. -/
def ValueScanned (strict : Bool) (r : Parse) (data : Bytes) : ValueEnd → Prop
  | .ranOut next => AtValue next ∧ next.parser.nread = r.parser.nread ∧ Passes strict r data next []
  | .atCr last rest => ∃ next, AtValue next ∧ next.parser.nread = r.parser.nread ∧
    Passes strict r data next (CR :: rest) ∧ last = { next with parser.state := .headerAlmostDone }
  | .atLf last rest => ∃ next, AtValue next ∧ next.parser.nread = r.parser.nread ∧
    Passes strict r data next (LF :: rest) ∧ last = { next with parser.state := .headerAlmostDone }
  | .error last _ => Failed last ∧ Refuses strict r data

/-- What comes after some bytes of a value. -/
theorem ValueScanned.after {next : Parse} (passes : Passes strict r data next left)
    (nread : next.parser.nread = r.parser.nread) {valueEnd : ValueEnd}
    (scanned : ValueScanned strict next left valueEnd) : ValueScanned strict r data valueEnd := by
  cases valueEnd with
  | ranOut last => exact ⟨scanned.1, scanned.2.1.trans nread, passes.trans scanned.2.2⟩
  | atCr last rest | atLf last rest =>
    obtain ⟨inner, at_value, same, more, ends⟩ := scanned
    exact ⟨inner, at_value, same.trans nread, passes.trans more, ends⟩
  | error last stop => exact ⟨scanned.1, passes.refuses scanned.2⟩

/-- **The loop of a value follows the machine**, whichever way it takes. -/
theorem valueLoop_scanned (at_value : AtValue r) (data : Bytes) :
    ValueScanned strict r data (r.valueLoop data) := by
  fun_induction valueLoop r data with
  | case1 r => exact ⟨at_value, rfl, .refl strict r []⟩
  | case2 r ch rest ends =>
    obtain rfl := beq_iff_eq.mp ends
    exact ⟨r, at_value, rfl, .refl strict r _, rfl⟩
  | case3 r ch rest _ ends =>
    obtain rfl := beq_iff_eq.mp ends
    exact ⟨r, at_value, rfl, .refl strict r _, rfl⟩
  | case4 r ch rest notCr notLf invalid =>
    have inner : (ch == CR || ch == LF) = false := by simp_all
    exact ⟨nofun, refuses_invalid at_value.state inner (by simpa using invalid) rest⟩
  | case5 r ch rest notCr notLf valid general stop skipped =>
    have more : Skipped strict r _ (ch :: rest) _ := skipValue_skipped at_value.state general
      (min (rest.length + 1) maxHeaderSize) (ch :: rest)
    rw [skipped] at more
    exact ⟨nofun, more⟩
  | case6 r ch rest notCr notLf valid general left skipped ih =>
    have more : Skipped strict r _ (ch :: rest) _ := skipValue_skipped at_value.state general
      (min (rest.length + 1) maxHeaderSize) (ch :: rest)
    rw [skipped] at more
    rcases more with passes | ⟨long, behind, passes⟩
    · exact (ih at_value).after passes rfl
    · have full : min (rest.length + 1) maxHeaderSize = maxHeaderSize := by
        have long : min (rest.length + 1) maxHeaderSize < rest.length + 1 := long
        omega
      rw [full] at long behind passes
      have next : (ch :: rest).drop maxHeaderSize = (ch :: rest)[maxHeaderSize] :: left := by
        rw [behind]
        exact List.drop_eq_getElem_cons long
      rw [next] at passes
      refine (ih at_value).after (passes.overrun (by rw [at_value.state]; rfl) ?_ r) rfl
      rw [← next, List.length_drop]
      omega
  | case7 r ch rest notCr notLf valid special next goes ih =>
    have inner : (ch == CR || ch == LF) = false := by simp_all
    have stays := stays_headerValueChar at_value ch
    rw [goes] at stays
    exact (ih stays).after (passes_value at_value.state inner (by simpa using valid) goes rest)
      (headerValueChar_nread goes)
  | case8 r ch rest notCr notLf valid special last eaten stops =>
    have inner : (ch == CR || ch == LF) = false := by simp_all
    exact refuses_value at_value inner (by simpa using valid) stops rest

/-- **A scan of a value follows the machine**, the first byte of it having been counted. -/
theorem scanValue_follows (at_value : AtValue r) {n : Nat} (room : n + 1 ≤ maxHeaderSize)
    (some_data : 0 < data.length) :
    ((r.counted (n + 1)).scanValue data).Follows (stepByte strict) Failed Sane (r.counted n) data := by
  have counted : AtValue (r.counted (n + 1)) :=
    ⟨⟨at_value.clean, at_value.sized⟩, at_value.state, at_value.notConnection,
      at_value.notTransferEncoding⟩
  have scanned : ValueScanned strict (r.counted (n + 1)) data _ := valueLoop_scanned counted data
  have one : ∀ (b : UInt8) (rest : Bytes), min 1 (b :: rest).length = 1 := by simp
  -- the byte that ends the line
  have step : ∀ {next : Parse} {b : UInt8} {m : Nat}, AtValue next → m + 1 ≤ maxHeaderSize →
      (next.counted m).stepByte strict b = (next.counted (m + 1)).onHeaderValue b := by
    intro next b m inside fits
    rw [stepByte_counted (by rw [inside.state]; rfl), if_neg (Nat.not_lt.mpr fits),
      onByte_value inside.state]
  unfold scanValue
  generalize valueLoop (r.counted (n + 1)) data = valueEnd at scanned ⊢
  cases valueEnd with
  | ranOut next =>
    obtain ⟨inside, nread, passes⟩ := scanned
    refine passes.from_counted.counts next (by rw [inside.state]; rfl) room nread ?_ fun _ goes => ?_
    · show data.length - 1 + 1 = data.length - 0 + min 1 0
      omega
    · have stays : AtValue (next.counted (n + (data.length - ([] : Bytes).length))) :=
        ⟨⟨inside.clean, inside.sized⟩, inside.state, inside.notConnection, inside.notTransferEncoding⟩
      exact ⟨stays.sane, some_data, .inl goes.symm⟩
  | atCr last rest =>
    obtain ⟨next, inside, nread, passes, rfl⟩ := scanned
    have shorter : rest.length + 1 ≤ data.length := passes.shorter
    refine passes.from_counted.counts { next with parser.state := .headerAlmostDone }
      (by rw [inside.state]; rfl) room nread (by rw [one]; rfl) fun fits goes => ?_
    rw [one] at fits ⊢
    refine ⟨⟨⟨inside.clean, inside.sized⟩, placed_plain rfl⟩, shorter, .inl ?_⟩
    rw [goes]
    simp only [feed, step inside fits]
    rfl
  | atLf last rest =>
    obtain ⟨next, inside, nread, passes, rfl⟩ := scanned
    have shorter : rest.length + 1 ≤ data.length := passes.shorter
    refine passes.from_counted.counts { next with parser.state := .headerAlmostDone }
      (by rw [inside.state]; rfl) room nread (by rw [one]; rfl) fun fits goes => ?_
    rw [one] at fits ⊢
    refine ⟨⟨⟨inside.clean, inside.sized⟩, placed_plain rfl⟩, shorter, .inl ?_⟩
    rw [goes]
    simp only [feed, step inside fits]
    rfl
  | error last stop => exact .inr ⟨scanned.1, scanned.2 n (by omega)⟩

end Values

/-! ### Bodies -/

section Bodies

variable {strict : Bool} {r : Parse} {data rest : Bytes}

/-- The parser with so much less of a body to come. -/
def less (r : Parse) (count : Nat) : Parse :=
  { r with parser.contentLength := r.parser.contentLength - count }

/-- **Bytes of a body are subtracted one by one**, before the last of them. -/
theorem feed_data (inside : r.parser.state = .bodyIdentity ∨ r.parser.state = .chunkData)
    (more : data.length < r.parser.contentLength) :
    feed (stepByte strict) r (data ++ rest) = feed (stepByte strict) (r.less data.length) rest := by
  induction data generalizing r with
  | nil => rfl
  | cons ch data ih =>
    rw [List.length_cons] at more
    have left : (r.parser.contentLength - 1 == 0) = false := beq_false_of_ne (by omega)
    have step : r.stepByte strict ch = .more (r.less 1) := by
      have header : r.parser.state.parsingHeader = false := by
        rcases inside with state | state <;> rw [state] <;> rfl
      rw [stepByte, header, if_neg Bool.false_ne_true, onByte]
      rcases inside with state | state <;> rw [state]
      · simp only [onBodyIdentity, left, Bool.false_eq_true, if_false]
        rfl
      · simp only [onChunkData, left, Bool.false_eq_true, if_false]
        rfl
    have fewer : data.length < (r.less 1).parser.contentLength := by
      show data.length < r.parser.contentLength - 1
      omega
    have sum : (r.less 1).less data.length = r.less (data.length + 1) := by
      simp only [less, Nat.sub_sub, Nat.add_comm]
    rw [List.cons_append, List.length_cons, ← sum, ← ih (r := r.less 1) inside fewer]
    simp only [feed, step]

/-- What a jump comes to: all of the data, with more to come, or the rest of the body. -/
theorem jump_cases (some_length : r.parser.contentLength ≠ 0) (data : Bytes) :
    (data.length < r.parser.contentLength ∧ min r.parser.contentLength data.length = data.length) ∨
      ∃ first b rest, data = first ++ b :: rest ∧ r.parser.contentLength = first.length + 1 ∧
        min r.parser.contentLength data.length = first.length + 1 := by
  by_cases more : data.length < r.parser.contentLength
  · exact .inl ⟨more, Nat.min_eq_right more.le⟩
  · have inside : r.parser.contentLength - 1 < data.length := by omega
    refine .inr ⟨data.take (r.parser.contentLength - 1), data[r.parser.contentLength - 1],
      data.drop r.parser.contentLength, ?_, ?_, ?_⟩
    · have next : r.parser.contentLength - 1 + 1 = r.parser.contentLength := by omega
      have split := List.drop_eq_getElem_cons inside
      rw [next] at split
      rw [← split, List.take_append_drop]
    · rw [List.length_take]
      omega
    · rw [List.length_take]
      omega

/-- **A jump over a body follows the machine.** -/
theorem scanBody_follows (sane : Sane r) (inside : r.parser.state = .bodyIdentity) (some_data : 0 < data.length) :
    (r.scanBody strict data).Follows (stepByte strict) Failed Sane r data := by
  have placed := sane.placed
  unfold Placed at placed
  rw [inside] at placed
  have sized := sane.sized
  rcases jump_cases placed.1 data with ⟨more, all⟩ | ⟨first, b, rest, rfl, length, upTo⟩
  · have left : (r.parser.contentLength - data.length == 0) = false := beq_false_of_ne (by omega)
    have fed : feed (stepByte strict) r (data ++ []) = _ := feed_data (.inl inside) more
    rw [List.append_nil] at fed
    dsimp only [scanBody]
    rw [all, left, if_neg Bool.false_ne_true, List.drop_length]
    refine ⟨⟨⟨sane.clean, (Nat.sub_le _ _).trans sized⟩, ?_⟩, some_data, .inl fed.symm⟩
    unfold Placed
    dsimp only
    rw [inside]
    exact ⟨by omega, by omega⟩
  · have fed : feed (stepByte strict) r (first ++ b :: rest) = _ := feed_data (.inl inside)
      (show first.length < r.parser.contentLength by omega)
    have none_left : (r.parser.contentLength - (first.length + 1) == 0) = true := by
      rw [length]
      simp
    have last : (r.less first.length).stepByte strict b = onMessageDone strict { r with
        parser.contentLength := r.parser.contentLength - (first.length + 1)
        parser.state := .messageDone } := by
      have header : (r.less first.length).parser.state.parsingHeader = false := by
        show r.parser.state.parsingHeader = false
        rw [inside]
        rfl
      have state : (r.less first.length).parser.state = .bodyIdentity := inside
      rw [stepByte, header, if_neg Bool.false_ne_true, onByte, state]
      simp only [onBodyIdentity, less, Nat.sub_sub, none_left, if_true]
    have byte : (first ++ b :: rest).getD (first.length + 1 - 1) 0 = b := by simp
    have behind : (first ++ b :: rest).drop (first.length + 1) = rest := by
      rw [← List.drop_drop, List.drop_left, List.drop_one, List.tail_cons]
    dsimp only [scanBody]
    rw [upTo, none_left, if_pos rfl, byte, behind, ← last]
    refine (Verdict.turn_follows fun next goes => ?_).later fed (by simp)
    have keeps : Keeps ((r.less first.length).stepByte strict b) := by
      rw [last]
      exact keeps_messageDone ⟨sane.clean, (Nat.sub_le _ _).trans sized⟩
    rw [goes] at keeps
    exact keeps

/-- **A jump over a chunk follows the machine.** -/
theorem scanChunk_follows (sane : Sane r) (inside : r.parser.state = .chunkData) (some_data : 0 < data.length) :
    (r.scanChunk data).Follows (stepByte strict) Failed Sane r data := by
  have placed := sane.placed
  unfold Placed at placed
  rw [inside] at placed
  obtain ⟨chunked, some_length, -⟩ := placed
  have sized := sane.sized
  rcases jump_cases some_length data with ⟨more, all⟩ | ⟨first, b, rest, rfl, length, upTo⟩
  · have left : (r.parser.contentLength - data.length == 0) = false := beq_false_of_ne (by omega)
    have fed : feed (stepByte strict) r (data ++ []) = _ := feed_data (.inr inside) more
    rw [List.append_nil] at fed
    dsimp only [scanChunk]
    rw [all, left, if_neg Bool.false_ne_true, List.drop_length]
    refine ⟨⟨⟨sane.clean, (Nat.sub_le _ _).trans sized⟩, ?_⟩, some_data, .inl fed.symm⟩
    unfold Placed
    dsimp only
    rw [inside]
    exact ⟨chunked, by omega, by omega⟩
  · have fed : feed (stepByte strict) r (first ++ b :: rest) = _ := feed_data (.inr inside)
      (show first.length < r.parser.contentLength by omega)
    have none_left : (r.parser.contentLength - (first.length + 1) == 0) = true := by
      rw [length]
      simp
    have last : (r.less first.length).stepByte strict b = .more { r with
        parser.contentLength := r.parser.contentLength - (first.length + 1)
        parser.state := .chunkDataAlmostDone } := by
      have header : (r.less first.length).parser.state.parsingHeader = false := by
        show r.parser.state.parsingHeader = false
        rw [inside]
        rfl
      have state : (r.less first.length).parser.state = .chunkData := inside
      rw [stepByte, header, if_neg Bool.false_ne_true, onByte, state]
      simp only [onChunkData, less, goto, Nat.sub_sub, none_left, if_true]
    have behind : (first ++ b :: rest).drop (first.length + 1) = rest := by
      rw [← List.drop_drop, List.drop_left, List.drop_one, List.tail_cons]
    dsimp only [scanChunk]
    rw [upTo, none_left, if_pos rfl, behind]
    refine ⟨⟨⟨sane.clean, (Nat.sub_le _ _).trans sized⟩, chunked, beq_iff_eq.mp none_left⟩, ?_, .inl ?_⟩
    · simp only [List.length_append, List.length_cons]
      omega
    · rw [fed]
      simp only [feed, last]

end Bodies

/-! ### The whole function -/

section Scan

variable {strict : Bool} {r : Parse} {ch : UInt8} {rest : Bytes}

/-- A body that ends with the stream takes everything. -/
theorem feed_untilEof (inside : r.parser.state = .bodyIdentityEof) (data : Bytes) :
    feed (stepByte strict) r data = ⟨r, [], false⟩ := by
  induction data with
  | nil => rfl
  | cons ch rest ih =>
    have step : r.stepByte strict ch = .more r := by
      rw [stepByte, inside, if_neg (by decide), onByte, inside]
    simp only [feed, step, ih]

/-- **Every turn follows the machine.** -/
theorem turn_follows (sane : Sane r) (ch : UInt8) (rest : Bytes) :
    (r.turn strict ch rest).Follows (stepByte strict) Failed Sane r (ch :: rest) := by
  have some_data : 0 < (ch :: rest).length := Nat.succ_pos _
  have keeps := fun next (goes : r.stepByte strict ch = .more next) => by
    have keeps : Keeps (r.stepByte strict ch) := sane.stepByte ch
    rw [goes] at keeps
    exact keeps
  unfold turn
  split
  · next header =>
    dsimp only [countHeaderSize]
    split
    · next tooMany =>
      have tooMany : maxHeaderSize < r.parser.nread + 1 := tooMany
      exact .inr ⟨nofun, feed_overflow (r := r) (n := r.parser.nread) header tooMany⟩
    · next fits =>
      have room : r.parser.nread + 1 ≤ maxHeaderSize := Nat.le_of_not_lt fits
      have placed := sane.placed
      unfold Placed at placed
      have state : (r.counted (r.parser.nread + 1)).parser.state = r.parser.state := rfl
      have step : r.stepByte strict ch = (r.counted (r.parser.nread + 1)).onByte strict ch := by
        have taken : (r.counted r.parser.nread).stepByte strict ch = _ :=
          stepByte_counted header r.parser.nread ch
        rw [if_neg (Nat.not_lt.mpr room)] at taken
        exact taken
      unfold onBuffer
      rw [state]
      split
      · next inside =>
        rw [inside] at placed
        exact scanName_follows sane.toTame inside placed room some_data
      · next inside =>
        rw [inside] at placed
        exact scanValue_follows ⟨sane.toTame, inside, placed.1, placed.2⟩ room some_data
      · next inside => simp [inside, State.parsingHeader] at header
      · next inside => simp [inside, State.parsingHeader] at header
      · next inside => simp [inside, State.parsingHeader] at header
      · rw [← step]
        exact Verdict.turn_follows keeps
  · next header =>
    have step : r.stepByte strict ch = r.onByte strict ch := by
      rw [stepByte, if_neg header]
    unfold onBuffer
    split
    · next inside => simp [inside, State.parsingHeader] at header
    · next inside => simp [inside, State.parsingHeader] at header
    · next inside => exact scanBody_follows sane inside some_data
    · next inside => exact ⟨sane, some_data, .inl (feed_untilEof inside _).symm⟩
    · next inside => exact scanChunk_follows sane inside some_data
    · rw [← step]
      exact Verdict.turn_follows keeps

theorem scan_alike (sane : Sane r) (data : Bytes) :
    Alike Failed (r.scan strict data) (r.execute strict data) := by
  unfold scan execute
  split
  · exact .refl _
  · split
    · exact .refl _
    · exact turns_alike (fun state input rest kept => turn_follows kept input rest) sane (Nat.le_refl _)

/-- The parser after some calls of the function with its loops. -/
def scans (strict : Bool) (r : Parse) (buffers : List Bytes) : Parse :=
  buffers.foldl (fun r data => (r.scan strict data).state) r

/-- An error stays. -/
theorem failed_stays (failed : Failed r) (data : Bytes) :
    Failed (r.scan strict data).state ∧ Failed (r.execute strict data).state := by
  have unclean : r.parser.errno ≠ .ok := failed
  rw [scan, if_pos unclean, execute, if_pos unclean]
  exact ⟨failed, failed⟩

/-- The two parsers after some calls are the same, and sane, or both in an error. -/
theorem scans_cases (strict : Bool) {r : Parse} (sane : Sane r) (buffers : List Bytes) :
    scans strict r buffers = executes strict r buffers ∧ Sane (executes strict r buffers) ∨
      Failed (scans strict r buffers) ∧ Failed (executes strict r buffers) := by
  induction buffers using List.reverseRecOn with
  | nil => exact .inl ⟨rfl, sane⟩
  | append_singleton buffers data ih =>
    have one : scans strict r (buffers ++ [data]) = ((scans strict r buffers).scan strict data).state := by
      simp [scans]
    have other : executes strict r (buffers ++ [data]) =
        ((executes strict r buffers).execute strict data).state := by
      simp [executes]
    rw [one, other]
    rcases ih with ⟨same, fine⟩ | ⟨left, right⟩
    · rw [same]
      by_cases failed : Failed ((executes strict r buffers).execute strict data).state
      · exact .inr ⟨(scan_alike fine data).bad_iff.mpr failed, failed⟩
      · have clean := not_not.mp failed
        exact .inl ⟨congrArg Fed.state ((scan_alike fine data).eq failed), fine.execute clean⟩
    · exact .inr ⟨(failed_stays left data).1, (failed_stays right data).2⟩

/-- **The function with its loops and the machine without them end alike**, whatever buffers a parser has been
given and whatever it is given next: with the same parser, the same bytes unread and the same answer to
whether it stopped there, or both with an error. -/
theorem scan_agrees (strict : Bool) (buffers : List Bytes) (data : Bytes) :
    Alike Failed ((scans strict ⟨HttpParser.init, false⟩ buffers).scan strict data)
      ((executes strict ⟨HttpParser.init, false⟩ buffers).execute strict data) := by
  have sane : Sane ⟨HttpParser.init, false⟩ := ⟨⟨rfl, Nat.zero_le _⟩, placed_plain rfl⟩
  rcases scans_cases strict sane buffers with ⟨same, fine⟩ | ⟨left, right⟩
  · rw [same]
    exact scan_alike fine data
  · exact .inr ⟨(failed_stays left data).1, (failed_stays right data).2⟩

end Scan

end Parse

end Apib
