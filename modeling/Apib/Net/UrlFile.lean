/-
**The list of URLs from a file.**

`URLInfo::InitFile` and `GetNext`. The file is read through a `LineState` of 8192 bytes, filled again
until a read gives nothing; every line taken is made a URL.

* `initReads_eq`: the reads make URLs of the lines that they take, up to the first that is none;
* `takeReads_spec`: the lines taken are those of the windows that the buffer holds;
* `initFile_eq`: **so the URLs are those of the lines before the first that does not fit**, an empty
  line for every window that begins with a newline, and none for what follows the last newline.
-/

import Apib.Library.Windows
import Apib.Lines.Splitting
import Apib.Net.Init

namespace Apib.Net

open Segments Windows Lines

/-! ### The stream -/

/-- A `std::ifstream` that was opened: the bytes to come, and whether no read has failed. -/
structure Ifstream where
  rest : Bytes
  good : Bool := true

/-- The method `read`, and the bytes that `gcount` counts. -/
def Ifstream.read (stream : Ifstream) (len : Int) : Bytes × Ifstream :=
  if stream.good then
    (stream.rest.take len.toNat,
      ⟨stream.rest.drop len.toNat, decide (len.toNat ≤ stream.rest.length)⟩)
  else ([], stream)

/-- A stream whose reads fail only at the end. -/
def Ifstream.Sound (stream : Ifstream) : Prop := stream.good = false → stream.rest = []

/-- A read gives what there is. -/
theorem Ifstream.Sound.read {stream : Ifstream} (sound : stream.Sound) (len : Int) :
    (stream.read len).1 = stream.rest.take len.toNat ∧
      (stream.read len).2.rest = stream.rest.drop len.toNat ∧ (stream.read len).2.Sound := by
  unfold Ifstream.read
  split
  · refine ⟨rfl, rfl, fun failed => List.drop_eq_nil_of_le ?_⟩
    have short : ¬len.toNat ≤ stream.rest.length := of_decide_eq_false failed
    omega
  · next bad =>
    have none_left := sound (by simpa using bad)
    exact ⟨by simp [none_left], by simp [none_left], fun _ => none_left⟩

/-! ### The list -/

/-- The constant `URL_BUF_LEN`. -/
def urlBufLen : Nat := 8192

/-- The static members `urls_` and `initialized_`. -/
structure Urls where
  urls : List URLInfo := []
  initialized : Bool := false
  deriving DecidableEq, Repr

/-- The method `GetNext`; `none` is the null pointer. -/
def Urls.getNext (g : Urls) (draw : Nat) : Option URLInfo :=
  if some_url : g.urls ≠ [] then some (Apib.getNext g.urls some_url draw).info else none

theorem Urls.getNext_eq_none {g : Urls} {draw : Nat} : g.getNext draw = none ↔ g.urls = [] := by
  simp [Urls.getNext]

section InitFile

variable (strict : Bool) (lookup : Bytes → List Address)

/-- The loop over `next` in `InitFile`, for a number of turns. -/
def initLines : Nat → LineState → List URLInfo → Except Status LineState × List URLInfo
  | 0, line, urls => (.ok line, urls)
  | turns + 1, line, urls =>
    match line.next with
    | (false, line) => (.ok line, urls)
    | (true, line) =>
      match init strict lookup line.line with
      | .error s => (.error s, urls)
      | .ok u => initLines turns line (urls ++ [u])

/-- The loop over the reads, for a number of turns. -/
def initReads : Nat → Ifstream → LineState → List URLInfo → Except Status Unit × List URLInfo
  | 0, _, _, urls => (.ok (), urls)
  | turns + 1, stream, line, urls =>
    match initLines strict lookup (line.left + 1) line urls with
    | (.error s, urls) => (.error s, urls)
    | (.ok line, urls) =>
      -- the answer of `consume` is not looked at
      let line := line.consume.2
      let (data, stream) := stream.read line.remaining
      let (rc, line) := line.readStream data
      if rc > 0 then initReads turns stream line urls else (.ok (), urls)

/-- The method `InitFile`, for what `malloc` gives and the file, if it can be opened. A turn of the loop
over the reads takes a byte at least, so that one more turn than bytes is enough. -/
def initFile (memory : Vector UInt8 urlBufLen) (fileName : Bytes) (file : Option Bytes) (g : Urls) :
    Except Status Unit × Urls :=
  match file with
  | none => (.error (.ioError fileName), g)
  | some content =>
    let line := LineState.new memory.toList
    let (data, stream) := Ifstream.read ⟨content, true⟩ line.remaining
    let (rc, line) := line.readStream data
    if rc < 0 then (.error (.ioError []), g)
    else
      match initReads strict lookup (content.length + 1) stream line g.urls with
      | (.error s, urls) => (.error s, { g with urls })
      | (.ok _, urls) => (.ok (), { urls, initialized := true })

/-! ### What becomes of the lines -/

/-- The lines that the loop over the reads takes if it makes URLs of all, for a number of turns. -/
def takeReads : Nat → Ifstream → LineState → List Bytes
  | 0, _, _ => []
  | turns + 1, stream, line =>
    let (lines, line) := takeLines (line.left + 1) line
    let line := line.consume.2
    let (data, stream) := stream.read line.remaining
    let (rc, line) := line.readStream data
    lines ++ if rc > 0 then takeReads turns stream line else []

/-- The URLs of some lines, up to the first that is none. -/
def readUrls : List Bytes → List URLInfo → Except Status Unit × List URLInfo
  | [], urls => (.ok (), urls)
  | line :: later, urls =>
    match init strict lookup line with
    | .error s => (.error s, urls)
    | .ok u => readUrls later (urls ++ [u])

variable {strict : Bool} {lookup : Bytes → List Address}

theorem readUrls_append (first second : List Bytes) (urls : List URLInfo) :
    readUrls strict lookup (first ++ second) urls =
      match readUrls strict lookup first urls with
      | (.error s, urls) => (.error s, urls)
      | (.ok _, urls) => readUrls strict lookup second urls := by
  induction first generalizing urls with
  | nil => rfl
  | cons line later ih =>
    rw [List.cons_append, readUrls, readUrls]
    cases init strict lookup line with
    | error s => rfl
    | ok u => exact ih _

/-- **The loop over the lines** makes URLs of those that the callers' loop takes. -/
theorem initLines_eq (turns : Nat) (line : LineState) (urls : List URLInfo) :
    initLines strict lookup turns line urls =
      match readUrls strict lookup (takeLines turns line).1 urls with
      | (.error s, urls) => (.error s, urls)
      | (.ok _, urls) => (.ok (takeLines turns line).2, urls) := by
  induction turns generalizing line urls with
  | zero => rfl
  | succ turns ih =>
    rw [initLines, takeLines]
    cases line.next with
    | mk given line =>
      cases given with
      | false => rfl
      | true =>
        simp only [readUrls]
        cases init strict lookup line.line with
        | error s => rfl
        | ok u => exact ih _ _

/-- **The loop over the reads** makes URLs of the lines that it takes. -/
theorem initReads_eq (turns : Nat) (stream : Ifstream) (line : LineState) (urls : List URLInfo) :
    initReads strict lookup turns stream line urls =
      readUrls strict lookup (takeReads turns stream line) urls := by
  induction turns generalizing stream line urls with
  | zero => rfl
  | succ turns ih =>
    rw [initReads, initLines_eq, takeReads, readUrls_append]
    cases readUrls strict lookup (takeLines (line.left + 1) line).1 urls with
    | mk status urls =>
      cases status with
      | error s => rfl
      | ok _ =>
        dsimp only
        split
        · exact ih _ _ _
        · rfl

/-- What a read gives is no longer to come. -/
theorem Ifstream.read_length (stream : Ifstream) (len : Int) :
    (stream.read len).1.length + (stream.read len).2.rest.length ≤ stream.rest.length := by
  unfold Ifstream.read
  split
  · simp only [List.length_take, List.length_drop]
    omega
  · simp

/-- More turns than there are bytes take nothing more. -/
theorem takeReads_enough {turns more : Nat} {stream : Ifstream} {line : LineState}
    (enough : stream.rest.length < turns) (le : turns ≤ more) :
    takeReads more stream line = takeReads turns stream line := by
  induction turns generalizing more stream line with
  | zero => exact absurd enough (Nat.not_lt_zero _)
  | succ turns ih =>
    obtain ⟨more, rfl⟩ := Nat.exists_eq_add_of_lt (Nat.lt_of_lt_of_le turns.lt_succ_self le)
    rw [takeReads, takeReads]
    dsimp only
    generalize (takeLines (line.left + 1) line).2.consume.2 = kept
    have shorter := stream.read_length kept.remaining
    generalize stream.read kept.remaining = result at shorter
    obtain ⟨data, rest⟩ := result
    dsimp only at shorter ⊢
    rw [LineState.readStream]
    congr 1
    split
    · next some_byte => exact ih (by omega) (by omega)
    · rfl

/-- **The lines taken are those of the windows.** -/
theorem takeReads_spec (turns : Nat) {content : Bytes} {stream : Ifstream} {line : LineState}
    (sound : stream.Sound) (rest : stream.rest = content.drop urlBufLen)
    (ready : Ready urlBufLen (content.take urlBufLen) line) (text : 0 ∉ content)
    (enough : content.length < turns) :
    takeReads turns stream line = (windows isNewline urlBufLen content).flatMap (runs isNewline) := by
  induction turns generalizing content stream line with
  | zero => exact absurd enough (Nat.not_lt_zero _)
  | succ turns ih =>
    obtain ⟨lines, drained⟩ := takeLines_spec (line.left + 1) ready
      (fun member => text (List.mem_of_mem_take member)) (Nat.lt_succ_self _)
    obtain ⟨holding, -⟩ := drained.consume
    rw [takeReads]
    dsimp only
    rw [lines, windows_eq, List.flatMap_cons]
    congr 1
    generalize (takeLines (line.left + 1) line).2.consume.2 = kept at holding
    have within := holding.within
    have room : kept.remaining.toNat =
        urlBufLen - (unfinished isNewline (content.take urlBufLen)).length := by
      rw [LineState.remaining, holding.size_eq, holding.fill]
      omega
    obtain ⟨data, left, sound'⟩ := sound.read kept.remaining
    rw [room, rest] at data left
    generalize stream.read kept.remaining = result at data left sound'
    obtain ⟨chunk, stream'⟩ := result
    dsimp only at data left sound' ⊢
    rw [LineState.readStream]
    by_cases more : urlBufLen < content.length ∧
      (unfinished isNewline (content.take urlBufLen)).length < urlBufLen
    · have next := @drop_kept _ isNewline _ _ (Nat.le_of_lt more.1)
      have some_byte : 0 < chunk.length := by
        rw [data, List.length_take, List.length_drop]
        omega
      have window : (content.drop (urlBufLen -
          (unfinished isNewline (content.take urlBufLen)).length)).take urlBufLen =
            unfinished isNewline (content.take urlBufLen) ++ chunk := by
        rw [next, data, List.take_append, List.take_of_length_le within]
      have fits : (unfinished isNewline (content.take urlBufLen)).length + chunk.length ≤ urlBufLen := by
        rw [data, List.length_take]
        omega
      rw [if_pos (Int.natCast_pos.mpr some_byte), if_pos more]
      refine ih sound' ?_ ?_ (fun member => text (List.mem_of_mem_drop member)) ?_
      · rw [left, next, List.drop_append, List.drop_eq_nil_of_le within, List.nil_append]
      · rw [window]
        exact (holding.filled fits).ready
      · rw [List.length_drop]
        omega
    · have no_byte : chunk = [] := by
        rw [data, List.take_eq_nil_iff, List.drop_eq_nil_iff]
        omega
      rw [if_neg (by simp [no_byte]), if_neg more]
      rfl

/-- The lines of a file that `InitFile` takes, for what `malloc` gives. -/
def fileLines (memory : Vector UInt8 urlBufLen) (content : Bytes) : List Bytes :=
  let line := LineState.new memory.toList
  let (data, stream) := Ifstream.read ⟨content, true⟩ line.remaining
  takeReads (content.length + 1) stream (line.readStream data).2

/-- **`InitFile` makes URLs of the lines of the file.** -/
theorem initFile_lines (memory : Vector UInt8 urlBufLen) (fileName content : Bytes) (g : Urls) :
    initFile strict lookup memory fileName (some content) g =
      match readUrls strict lookup (fileLines memory content) g.urls with
      | (.error s, urls) => (.error s, { g with urls })
      | (.ok _, urls) => (.ok (), { urls, initialized := true }) := by
  rw [initFile, fileLines]
  dsimp only
  rw [LineState.readStream, if_neg (by omega), initReads_eq]

/-- The lines of a file without a NUL are those of its windows. -/
theorem fileLines_eq (memory : Vector UInt8 urlBufLen) {content : Bytes} (text : 0 ∉ content) :
    fileLines memory content = (windows isNewline urlBufLen content).flatMap (runs isNewline) := by
  have holding := holding_new memory.toList
  rw [Vector.length_toList] at holding
  have room : (LineState.new memory.toList).remaining.toNat = urlBufLen := by
    simp [LineState.remaining, LineState.new]
  have opened : Ifstream.Sound ⟨content, true⟩ := fun bad => by cases bad
  obtain ⟨data, left, sound⟩ := opened.read (LineState.new memory.toList).remaining
  rw [room] at data left
  rw [fileLines]
  generalize Ifstream.read ⟨content, true⟩ (LineState.new memory.toList).remaining = result at data left sound
  obtain ⟨chunk, stream⟩ := result
  dsimp only at data left sound ⊢
  subst data
  have filled : Holding urlBufLen ([] ++ content.take urlBufLen) _ := holding.filled (by simp)
  exact takeReads_spec _ sound left filled.ready text (Nat.lt_succ_self _)

/-- **The URLs are those of the lines of the windows.** -/
theorem initFile_eq (memory : Vector UInt8 urlBufLen) (fileName : Bytes) {content : Bytes}
    (text : 0 ∉ content) (g : Urls) :
    initFile strict lookup memory fileName (some content) g =
      match readUrls strict lookup ((windows isNewline urlBufLen content).flatMap (runs isNewline))
        g.urls with
      | (.error s, urls) => (.error s, { g with urls })
      | (.ok _, urls) => (.ok (), { urls, initialized := true }) := by
  rw [initFile_lines, fileLines_eq memory text]

end InitFile

end Apib.Net
