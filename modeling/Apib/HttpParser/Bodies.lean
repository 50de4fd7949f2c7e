/-
**How the parser reads a body.**

A body of a known length is counted down. One in chunks is read line by line and chunk by chunk, and each
line has to fit into what the parser lets a header have (`LineFits`).

* `whole_takes`: a body of a known length, up to its last byte;
* `chunks_take`, `finish_takes`: **a body in chunks**, up to its last line feed;
* `chunks_rejected`, `finish_rejected`: lines that do not fit.
-/

import Apib.HttpParser.Heads

namespace Apib.Parse

open ByteMachine HttpParser Http Numerals

/-- What the parser knows with another length to go. -/
def Framing.sized (f : Framing) (n : Nat) : Framing := { f with contentLength := n }

section Steps

variable {strict : Bool} {f : Framing} {b : UInt8} {n : Nat} {data : Bytes} {r : Parse}

/-- Outside a header a byte is not counted. -/
theorem stepByte_body (state : r.parser.state.parsingHeader = false) :
    r.stepByte strict b = r.onByte strict b := by
  rw [stepByte, if_neg (by simp [state])]

/-- **A body that ends with the stream** takes everything. -/
theorem untilEof_takes (state : r.parser.state = .bodyIdentityEof) (data : Bytes) :
    feed (stepByte strict) r data = ⟨r, [], false⟩ := by
  induction data with
  | nil => rfl
  | cons b data ih =>
    have step : r.stepByte strict b = .more r := by
      rw [stepByte_body (by rw [state]; rfl), onByte, state]
    rw [feed, step]
    exact ih

/-! ### A known length -/

variable (strict) in
theorem whole_step (reads : Reads .bodyIdentity (f.sized (n + 2)) r) :
    ∃ next, r.stepByte strict b = .more next ∧ Reads .bodyIdentity (f.sized (n + 1)) next := by
  have length : r.parser.contentLength = n + 2 := congrArg Framing.contentLength reads.framing_eq
  refine ⟨{ r with parser.contentLength := n + 1 }, ?_, ⟨⟨?_, reads.clean, reads.unfinished, reads.ordinary⟩,
    reads.state_eq⟩⟩
  · rw [stepByte_body (by rw [reads.state_eq]; rfl), onByte, reads.state_eq]
    dsimp only
    rw [onBodyIdentity]
    simp [length]
  · show r.framing.sized (n + 1) = _
    rw [reads.framing_eq]
    rfl

variable (strict) in
/-- **A body of a known length**, up to what is left of it. -/
theorem whole_takes (some_left : 0 < n) (reads : Reads .bodyIdentity (f.sized (n + data.length)) r) :
    ∃ next, feed (stepByte strict) r data = ⟨next, [], false⟩ ∧ Reads .bodyIdentity (f.sized n) next := by
  induction data generalizing r with
  | nil => exact ⟨r, rfl, reads⟩
  | cons b data ih =>
    have here : Reads .bodyIdentity (f.sized (n + data.length - 1 + 2)) r := by
      rw [List.length_cons] at reads
      rwa [show n + data.length - 1 + 2 = n + (data.length + 1) by omega]
    obtain ⟨next, taken, reads'⟩ := whole_step strict (b := b) here
    rw [show n + data.length - 1 + 1 = n + data.length by omega] at reads'
    rw [feed, taken]
    exact ih reads'

/-- What a message that is done is taken for. -/
theorem done_response {last : Parse} (inside : Inside f r) (state : last.parser.errno = r.parser.errno)
    (code : last.parser.statusCode = r.parser.statusCode) (complete : last.complete = true) :
    last.response = some (.answered f.statusCode) := by
  rw [response_of_complete (state.trans inside.clean) complete, code, ← inside.framing_eq]
  rfl

/-- The last byte of a body of a known length. -/
theorem whole_last (reads : Reads .bodyIdentity (f.sized 1) r) :
    (feed (stepByte strict) r [b]).state.response = some (.answered f.statusCode) := by
  have length : r.parser.contentLength = 1 := congrArg Framing.contentLength reads.framing_eq
  have no_upgrade := reads.ordinary.2
  have step : r.stepByte strict b = .more (completed strict
      { r with parser.contentLength := 0, parser.state := .messageDone }) := by
    rw [stepByte_body (by rw [reads.state_eq]; rfl), onByte, reads.state_eq]
    dsimp only
    rw [onBodyIdentity]
    simp [length, onMessageDone, no_upgrade]
  rw [feed, step]
  show Parse.response _ = some (.answered (f.sized 1).statusCode)
  exact done_response reads.toInside rfl rfl rfl

end Steps

/-! ### The line of a chunk -/

/-- The bound up to which the parser takes another digit of a size. -/
def chunkLimit : Nat := (ullongMax - 16) / 16

/-- The line of a chunk is one that the parser takes. -/
structure LineFits (size ext : Bytes) : Prop where
  small : number 16 size / 16 ≤ chunkLimit
  short : (size ++ (ext ++ crlf)).length ≤ maxHeaderSize

/-- The parser expects a chunk, and starts to count. -/
structure AtChunk (f : Framing) (r : Parse) : Prop where
  reads : ∃ n, Reads .chunkSizeStart (f.sized n) r
  none_yet : r.parser.nread = 0

section Line

variable {strict : Bool} {f : Framing} {b : UInt8} {n digit : Nat} {size ext : Bytes} {r : Parse}

/-- A digit of a size is the same to the parser. -/
theorem hex_eq (found : digitOf 16 b = some digit) : unhex b = some digit ∧ b ≠ 13 := by
  have each : ∀ b : UInt8, ∀ digit ∈ digitOf 16 b, unhex b = some digit ∧ b ≠ 13 :=
    forall_byte (by decide +kernel)
  exact each b digit found

theorem size_first (found : digitOf 16 b = some digit) :
    Steps strict (Reads .chunkSizeStart f) b (Reads .chunkSize (f.sized digit)) := by
  refine .reads rfl fun r reads => ⟨
    { r with parser.contentLength := digit, parser.state := .chunkSize }, ?_,
    ⟨⟨?_, reads.clean, reads.unfinished, reads.ordinary⟩, rfl⟩, rfl⟩
  · rw [onByte, reads.state_eq]
    dsimp only
    rw [onChunkSizeStart, (hex_eq found).1]
    rfl
  · show r.framing.sized digit = _
    rw [reads.framing_eq]

theorem size_digit (found : digitOf 16 b = some digit) (small : n ≤ chunkLimit) :
    Steps strict (Reads .chunkSize (f.sized n)) b (Reads .chunkSize (f.sized (n * 16 + digit))) := by
  refine .reads rfl fun r reads => ⟨{ r with parser.contentLength := n * 16 + digit }, ?_,
    ⟨⟨?_, reads.clean, reads.unfinished, reads.ordinary⟩, reads.state_eq⟩, rfl⟩
  · have length : r.parser.contentLength = n := congrArg Framing.contentLength reads.framing_eq
    obtain ⟨same, no_cr⟩ := hex_eq found
    rw [onByte, reads.state_eq]
    dsimp only
    rw [onChunkSize, if_neg (by simpa [CR] using no_cr), same]
    dsimp only
    have taken : ¬(ullongMax - 16) / 16 < n := Nat.not_lt.mpr small
    rw [length, if_neg taken]
  · show r.framing.sized (n * 16 + digit) = _
    rw [reads.framing_eq]
    rfl

theorem size_overflow (found : digitOf 16 b = some digit) (large : chunkLimit < n) :
    Fails strict (Reads .chunkSize (f.sized n)) [b] := by
  refine .byte fun r reads => ⟨by rw [reads.state_eq]; rfl, fun count => ?_⟩
  have length : r.parser.contentLength = n := congrArg Framing.contentLength reads.framing_eq
  obtain ⟨same, no_cr⟩ := hex_eq found
  rw [onByte, show (r.counted count).parser.state = .chunkSize from reads.state_eq]
  dsimp only
  rw [onChunkSize, if_neg (by simpa [CR] using no_cr), same]
  dsimp only
  have rejected : (ullongMax - 16) / 16 < n := large
  rw [show (r.counted count).parser.contentLength = n from length, if_pos rejected]
  exact ⟨_, _, rfl, by decide⟩

/-- The extensions of a chunk, and the end of its line. -/
theorem ext_goes (valid : ValidExt ext) :
    Goes strict (Reads .chunkSize f) (ext ++ [13]) (Reads .chunkSizeAlmostDone f) := by
  rcases valid.begun with rfl | ⟨rest, rfl⟩
  · exact .byte (goto_step rfl fun r here => by rw [onByte, here]; rfl)
  · have first : Steps strict (Reads .chunkSize f) 59 (Reads .chunkParameters f) :=
      goto_step rfl fun r here => by rw [onByte, here]; rfl
    have others : ∀ c ∈ rest, Steps strict (Reads .chunkParameters f) c (Reads .chunkParameters f) := by
      intro c member
      obtain ⟨no_cr, -, -⟩ := text_eq (valid.text c (List.mem_cons_of_mem _ member))
      refine .reads rfl fun r reads => ⟨r, ?_, reads, rfl⟩
      rw [onByte, reads.state_eq]
      dsimp only
      rw [if_neg (by simpa [CR] using no_cr)]
    have ends : Steps strict (Reads .chunkParameters f) 13 (Reads .chunkSizeAlmostDone f) :=
      goto_step rfl fun r here => by rw [onByte, here]; rfl
    exact .cons inside_clean first ((Goes.each inside_clean others).append inside_clean (.byte ends))

/-- **The line of a chunk**, without its line feed. -/
theorem line_goes (isNumber : IsNumber 16 size n) (valid : ValidExt ext) (small : n / 16 ≤ chunkLimit) :
    Goes strict (Reads .chunkSizeStart f) (size ++ (ext ++ [13])) (Reads .chunkSizeAlmostDone (f.sized n)) := by
  obtain ⟨c, more, rfl⟩ := List.exists_cons_of_ne_nil isNumber.some_digit
  obtain ⟨digit, found⟩ := Option.isSome_iff_exists.mp (isNumber.digit c List.mem_cons_self)
  have total : continued 16 digit more = n := by
    rw [← isNumber.value, number, continued_cons found, Nat.zero_mul, Nat.zero_add]
  have digits : Goes strict (Reads .chunkSize (f.sized digit)) more (Reads .chunkSize (f.sized n)) := by
    rw [← total]
    exact digits_goes (Q := fun n => Reads .chunkSize (f.sized n)) (by decide) (fun _ => inside_clean)
      (fun _ _ _ => size_digit) (fun c member => isNumber.digit c (List.mem_cons_of_mem _ member))
      (total.symm ▸ small)
  exact .cons inside_clean (size_first found) (digits.append inside_clean (ext_goes valid))

theorem line_fails (isNumber : IsNumber 16 size n) (large : chunkLimit < n / 16) (rest : Bytes) :
    Fails strict (Reads .chunkSizeStart f) (size ++ rest) := by
  obtain ⟨c, more, rfl⟩ := List.exists_cons_of_ne_nil isNumber.some_digit
  obtain ⟨digit, found⟩ := Option.isSome_iff_exists.mp (isNumber.digit c List.mem_cons_self)
  have total : continued 16 digit more = n := by
    rw [← isNumber.value, number, continued_cons found, Nat.zero_mul, Nat.zero_add]
  have some_more : more ≠ [] := by
    rintro rfl
    have small := digitOf_lt found
    rw [continued_nil] at total
    omega
  have digits : Fails strict (Reads .chunkSize (f.sized digit)) more :=
    digits_overflow (Q := fun n => Reads .chunkSize (f.sized n)) (fun _ => inside_clean)
      (fun _ _ _ => size_digit) (fun _ _ _ => size_overflow)
      (fun c member => isNumber.digit c (List.mem_cons_of_mem _ member)) some_more
      (total.symm ▸ large)
  have first : Goes strict (Reads .chunkSizeStart f) [c] (Reads .chunkSize (f.sized digit)) :=
    .byte (size_first found)
  exact (digits.append inside_clean rest).after inside_clean first

/-- What the line feed behind the line of a chunk leads to. -/
structure BehindLine (f : Framing) (n : Nat) (r : Parse) : Prop where
  last : n = 0 → Reads .headerFieldStart { f.sized 0 with trailing := true } r
  more : n ≠ 0 → Reads .chunkData (f.sized n) r
  none_yet : r.parser.nread = 0

variable (strict) in
theorem line_feed (reads : Reads .chunkSizeAlmostDone (f.sized n) r) (count : Nat) :
    ∃ next, (r.counted count).onByte strict 10 = .more next ∧ BehindLine f n next := by
  have length : r.parser.contentLength = n := congrArg Framing.contentLength reads.framing_eq
  have is_lf : (10 != LF) = false := rfl
  have here : (r.counted count).onByte strict 10 = (r.counted count).onChunkSizeAlmostDone strict 10 := by
    rw [onByte, show (r.counted count).parser.state = .chunkSizeAlmostDone from reads.state_eq]
  rw [here, onChunkSizeAlmostDone, is_lf, Bool.and_false, if_neg (by simp)]
  dsimp only
  by_cases zero : n = 0
  · refine ⟨{ r with parser.nread := 0, parser.flags.trailing := true, parser.state := .headerFieldStart },
      ?_, fun _ => ⟨⟨?_, reads.clean, reads.unfinished, reads.ordinary⟩, rfl⟩, fun other => absurd zero other,
      rfl⟩
    · rw [if_pos (by simp [counted, length, zero])]
      rfl
    · show ({ r.framing with trailing := true } : Framing) = _
      rw [reads.framing_eq, zero]
  · refine ⟨{ r with parser.nread := 0, parser.state := .chunkData }, ?_, fun same => absurd same zero,
      fun _ => ⟨⟨reads.framing_eq, reads.clean, reads.unfinished, reads.ordinary⟩, rfl⟩, rfl⟩
    rw [if_neg (by simp [counted, length, zero])]
    rfl

variable (strict) in
/-- **The line of a chunk.** -/
theorem line_takes (isNumber : IsNumber 16 size n) (valid : ValidExt ext) (fits : LineFits size ext)
    (start : AtChunk f r) : ∃ next, feed (stepByte strict) r (size ++ (ext ++ crlf)) = ⟨next, [], false⟩ ∧
      BehindLine f n next := by
  obtain ⟨⟨m, reads⟩, none_yet⟩ := start
  have front : Goes strict (Reads .chunkSizeStart (f.sized m)) (size ++ (ext ++ [13]))
      (Reads .chunkSizeAlmostDone (f.sized n)) := line_goes isNumber valid (isNumber.value ▸ fits.small)
  have bytes : size ++ (ext ++ crlf) = size ++ (ext ++ [13]) ++ [10] := by simp [crlf]
  have here := front.last reads none_yet reads.clean (fun r reads => by rw [reads.state_eq]; rfl) 10
  rw [← bytes, if_pos fits.short] at here
  obtain ⟨middle, taken, reads', step⟩ := here
  obtain ⟨next, fed, behind⟩ := line_feed strict reads' (size ++ (ext ++ crlf)).length
  refine ⟨next, ?_, behind⟩
  rw [bytes, feed_taken taken, feed, step, fed]
  rfl

variable (strict) in
/-- A line that does not fit. -/
theorem line_rejected (isNumber : IsNumber 16 size n) (valid : ValidExt ext) (large : ¬LineFits size ext)
    (start : AtChunk f r) :
    (feed (stepByte strict) r (size ++ (ext ++ crlf))).state.parser.errno ≠ .ok := by
  obtain ⟨⟨m, reads⟩, none_yet⟩ := start
  by_cases small : n / 16 ≤ chunkLimit
  · have front : Goes strict (Reads .chunkSizeStart (f.sized m)) (size ++ (ext ++ [13]))
        (Reads .chunkSizeAlmostDone (f.sized n)) := line_goes isNumber valid small
    have bytes : size ++ (ext ++ crlf) = size ++ (ext ++ [13]) ++ [10] := by simp [crlf]
    have here := front.last reads none_yet reads.clean (fun r reads => by rw [reads.state_eq]; rfl) 10
    rw [← bytes, if_neg fun short => large ⟨isNumber.value.symm ▸ small, short⟩] at here
    exact here
  · exact line_fails isNumber (Nat.lt_of_not_le small) (ext ++ crlf) r reads (by omega)

end Line

/-! ### Chunks -/

section Chunks

variable (strict : Bool) {f : Framing} {b : UInt8} {n : Nat} {data : Bytes} {r : Parse} {c : Chunk}

/-- The data of a chunk. -/
theorem data_takes (some_data : data ≠ []) (reads : Reads .chunkData (f.sized data.length) r) :
    ∃ next, feed (stepByte strict) r data = ⟨next, [], false⟩ ∧
      Reads .chunkDataAlmostDone (f.sized 0) next := by
  induction data generalizing r with
  | nil => exact absurd rfl some_data
  | cons b data ih =>
    have length : r.parser.contentLength = data.length + 1 := congrArg Framing.contentLength reads.framing_eq
    have step : r.stepByte strict b = .more
        { r with
          parser.contentLength := data.length
          parser.state := if data = [] then .chunkDataAlmostDone else .chunkData } := by
      rw [stepByte_body (by rw [reads.state_eq]; rfl), onByte, reads.state_eq]
      dsimp only
      rw [onChunkData, length]
      cases data with
      | nil => rfl
      | cons c data => simp [reads.state_eq]
    have framing : r.framing.sized data.length = f.sized data.length := by
      rw [reads.framing_eq]
      rfl
    rw [feed, step]
    cases data with
    | nil => exact ⟨_, rfl, ⟨framing, reads.clean, reads.unfinished, reads.ordinary⟩, rfl⟩
    | cons c data => exact ih (by simp) ⟨⟨framing, reads.clean, reads.unfinished, reads.ordinary⟩, rfl⟩

/-- The end of the data of a chunk. -/
theorem data_end (reads : Reads .chunkDataAlmostDone (f.sized n) r) :
    ∃ next, feed (stepByte strict) r crlf = ⟨next, [], false⟩ ∧ AtChunk f next := by
  refine ⟨{ r with parser.nread := 0, parser.state := .chunkSizeStart }, ?_, ⟨n, ⟨reads.framing_eq,
    reads.clean, reads.unfinished, reads.ordinary⟩, rfl⟩, rfl⟩
  have cr : r.stepByte strict 13 = .more { r with parser.state := .chunkDataDone } := by
    rw [stepByte_body (by rw [reads.state_eq]; rfl), onByte, reads.state_eq]
    cases strict <;> rfl
  have lf : ({ r with parser.state := .chunkDataDone } : Parse).stepByte strict 10 =
      .more { r with parser.nread := 0, parser.state := .chunkSizeStart } := by
    cases strict <;> rfl
  rw [crlf, feed, cr]
  dsimp only
  rw [feed, lf]
  rfl

/-- **A chunk.** -/
theorem chunk_takes (valid : c.Valid) (fits : LineFits c.size c.ext) (start : AtChunk f r) :
    ∃ next, feed (stepByte strict) r c.bytes = ⟨next, [], false⟩ ∧ AtChunk f next := by
  obtain ⟨middle, line, behind⟩ :=
    line_takes strict valid.size_number valid.ext_valid fits start
  have length : c.data.length ≠ 0 := List.length_eq_zero_iff.not.mpr valid.some_data
  obtain ⟨last, data, reads⟩ := data_takes strict valid.some_data (behind.more length)
  obtain ⟨next, ends, start'⟩ := data_end strict reads
  have bytes : c.bytes = (c.size ++ (c.ext ++ crlf)) ++ (c.data ++ crlf) := by
    simp [Chunk.bytes]
  refine ⟨next, ?_, start'⟩
  rw [bytes, feed_taken line, feed_taken data, ends]

theorem chunk_rejected (valid : c.Valid) (large : ¬LineFits c.size c.ext) (start : AtChunk f r) :
    (feed (stepByte strict) r c.bytes).state.parser.errno ≠ .ok := by
  have line := line_rejected strict valid.size_number valid.ext_valid large start
  have bytes : c.bytes = (c.size ++ (c.ext ++ crlf)) ++ (c.data ++ crlf) := by
    simp [Chunk.bytes]
  rw [bytes]
  exact failed_append start.reads.choose_spec.clean line _

/-- **Chunks.** -/
theorem chunks_take {chunks : List Chunk} (valid : ∀ c ∈ chunks, c.Valid)
    (fits : ∀ c ∈ chunks, LineFits c.size c.ext) (start : AtChunk f r) :
    ∃ next, feed (stepByte strict) r (chunks.flatMap Chunk.bytes) = ⟨next, [], false⟩ ∧ AtChunk f next := by
  induction chunks generalizing r with
  | nil => exact ⟨r, rfl, start⟩
  | cons c chunks ih =>
    obtain ⟨middle, first, start'⟩ := chunk_takes strict (valid c List.mem_cons_self)
      (fits c List.mem_cons_self) start
    obtain ⟨next, rest, start''⟩ := ih (fun other member => valid other (List.mem_cons_of_mem _ member))
      (fun other member => fits other (List.mem_cons_of_mem _ member)) start'
    exact ⟨next, by rw [List.flatMap_cons, feed_taken first, rest], start''⟩

theorem chunks_rejected {chunks : List Chunk} (valid : ∀ c ∈ chunks, c.Valid)
    (large : ∃ c ∈ chunks, ¬LineFits c.size c.ext) (start : AtChunk f r) :
    (feed (stepByte strict) r (chunks.flatMap Chunk.bytes)).state.parser.errno ≠ .ok := by
  induction chunks generalizing r with
  | nil => simp at large
  | cons c chunks ih =>
    rw [List.flatMap_cons]
    by_cases fits : LineFits c.size c.ext
    · obtain ⟨middle, first, start'⟩ := chunk_takes strict (valid c List.mem_cons_self) fits start
      rw [feed_taken first]
      refine ih (fun other member => valid other (List.mem_cons_of_mem _ member)) ?_ start'
      obtain ⟨other, member, bad⟩ := large
      rcases List.mem_cons.mp member with rfl | behind
      · exact absurd fits bad
      · exact ⟨other, behind, bad⟩
    · exact failed_append start.reads.choose_spec.clean
        (chunk_rejected strict (valid c List.mem_cons_self) fits start) _

end Chunks

/-! ### The end of the chunks -/

section Finish

variable (strict : Bool) {f : Framing} {r : Parse} {c : Chunked}

/-- The trailer, without its last line feed. -/
theorem trailer_goes (valid : c.Valid) : ∃ g, g.statusCode = f.statusCode ∧ g.trailing = f.trailing ∧
    Goes strict (Reads .headerFieldStart f) (c.trailer.flatMap Field.bytes ++ [13])
      (Reads .headersAlmostDone g) := by
  obtain ⟨g, read⟩ := fields_isSome (f := f) valid.trailer_bare.no_length
  obtain ⟨code, trailing, -, -⟩ := fields_keep read
  have fields := fields_yields strict (f := f) valid.trailer_valid
    fun field member named => absurd named (valid.trailer_bare.no_length field member)
  rw [read] at fields
  have lines : Goes strict (LineStart strict f) (c.trailer.flatMap Field.bytes) (LineStart strict g) := fields
  exact ⟨g, code, trailing, (lines.strengthen fun _ => lineStart_of_reads).append inside_clean lineStart_end⟩

/-- The last line feed of a message in chunks. -/
theorem trailer_end (reads : Reads .headersAlmostDone f r) (trailing : f.trailing = true) (count : Nat) :
    ∃ next, (r.counted count).onByte strict 10 = .more next ∧
      next.response = some (.answered f.statusCode) := by
  have no_upgrade := reads.ordinary.2
  have flag : r.parser.flags.trailing = true := by
    rw [← trailing, ← reads.framing_eq]
    rfl
  have is_lf : (10 != LF) = false := rfl
  refine ⟨completed strict { r.counted count with parser.state := .messageDone }, ?_,
    done_response reads.toInside rfl rfl rfl⟩
  rw [onByte, show (r.counted count).parser.state = .headersAlmostDone from reads.state_eq]
  dsimp only
  rw [onHeadersAlmostDone, is_lf, Bool.and_false]
  simp [counted, flag, onMessageDone, no_upgrade]

/-- The parser takes a body in chunks. -/
structure Readable (c : Chunked) : Prop where
  chunks_fit : ∀ chunk ∈ c.chunks, LineFits chunk.size chunk.ext
  last_fits : LineFits c.size c.ext
  trailer_fits : (c.trailer.flatMap Field.bytes ++ crlf).length ≤ maxHeaderSize

/-- **A body in chunks**: nothing is answered before its last line feed. -/
theorem chunked_takes (valid : c.Valid) (readable : Readable c) (start : AtChunk f r) :
    ∃ last, feed (stepByte strict) r (c.chunks.flatMap Chunk.bytes ++ c.finish) = ⟨last, [], false⟩ ∧
      last.response = none ∧
      (feed (stepByte strict) last [10]).state.response = some (.answered f.statusCode) := by
  obtain ⟨middle, chunks, start'⟩ := chunks_take strict valid.chunks_valid readable.chunks_fit start
  obtain ⟨behind, line, feed⟩ := line_takes strict valid.size_zero valid.ext_valid
    readable.last_fits start'
  obtain ⟨g, code, trailing, goes⟩ := trailer_goes strict
    (f := { f.sized 0 with trailing := true }) valid
  have bytes : c.chunks.flatMap Chunk.bytes ++ c.finish = c.chunks.flatMap Chunk.bytes ++
      ((c.size ++ (c.ext ++ crlf)) ++ (c.trailer.flatMap Field.bytes ++ [13])) := by
    simp [Chunked.finish]
  have here := goes.last (feed.last rfl) feed.none_yet (feed.last rfl).clean almostDone_header 10
  rw [if_pos (by simpa [crlf] using readable.trailer_fits)] at here
  obtain ⟨last, taken, reads, step⟩ := here
  obtain ⟨next, fed, response⟩ := trailer_end strict reads trailing
    (c.trailer.flatMap Field.bytes ++ [13] ++ [10]).length
  refine ⟨last, by rw [bytes, feed_taken chunks, feed_taken line, taken], reads.toInside.silent, ?_⟩
  rw [ByteMachine.feed, step, fed, ← show g.statusCode = f.statusCode from code]
  exact response

/-- **A body in chunks that the parser rejects.** -/
theorem chunked_rejected (valid : c.Valid) (bad : ¬Readable c) (start : AtChunk f r) :
    (feed (stepByte strict) r c.bytes).state.parser.errno ≠ .ok := by
  have bytes : c.bytes = c.chunks.flatMap Chunk.bytes ++
      ((c.size ++ (c.ext ++ crlf)) ++ (c.trailer.flatMap Field.bytes ++ [13] ++ [10])) := by
    simp [Chunked.bytes, Chunked.finish]
  rw [bytes]
  by_cases chunks_fit : ∀ chunk ∈ c.chunks, LineFits chunk.size chunk.ext
  · obtain ⟨middle, chunks, start'⟩ := chunks_take strict valid.chunks_valid chunks_fit start
    rw [feed_taken chunks]
    by_cases last_fits : LineFits c.size c.ext
    · obtain ⟨behind, line, feed⟩ := line_takes strict valid.size_zero valid.ext_valid
        last_fits start'
      obtain ⟨g, -, -, goes⟩ := trailer_goes strict
        (f := { f.sized 0 with trailing := true }) valid
      have here := goes.last (feed.last rfl) feed.none_yet (feed.last rfl).clean almostDone_header 10
      rw [if_neg fun short => bad ⟨chunks_fit, last_fits, by simpa [crlf] using short⟩] at here
      rwa [feed_taken line]
    · exact failed_append start'.reads.choose_spec.clean
        (line_rejected strict valid.size_zero valid.ext_valid last_fits start') _
  · have large : ∃ chunk ∈ c.chunks, ¬LineFits chunk.size chunk.ext := by
      simpa using chunks_fit
    exact failed_append start.reads.choose_spec.clean
      (chunks_rejected strict valid.chunks_valid large start) _

end Finish

end Apib.Parse
