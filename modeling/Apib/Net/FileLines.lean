/-
**URL files read completely.**

A URL file has a URL on each line that is not blank. `InitFile` drops what follows the last newline and
what follows a line of 8192 bytes or more, since it does not look at what `consume` answers; it takes a
window that begins with a newline for one with an empty line, which is no URL; and it accepts a file
with no line at all.

* `mem_taken`: the lines taken are those that fit, and an empty one for each such window;
* `url_file_iff`: **exactly the other files are read completely**, or are rejected as they must be.
-/

import Apib.Net.UrlFile

namespace Apib.Net

open Segments Windows Lines

/-- The lines of a file that are not blank, with LF or CRLF line ends. -/
def urlLines (content : Bytes) : List Bytes :=
  (content.splitOnP isNewline).filter fun line => !line.isEmpty

/-- The lines that `InitFile` takes. -/
def taken (content : Bytes) : List Bytes :=
  (windows isNewline urlBufLen content).flatMap (runs isNewline)

/-- Does the buffer begin with a newline after one of its fillings? -/
def CutAtNewline (content : Bytes) : Prop :=
  ∃ window ∈ windows isNewline urlBufLen content, leads isNewline window = true

/-- Every line ends, is shorter than the buffer and comes without a blank one. -/
structure Readable (content : Bytes) : Prop where
  terminated : unfinished isNewline content = []
  short : ∀ line ∈ urlLines content, line.length < urlBufLen
  clean : ¬CutAtNewline content

section Lines

variable {content : Bytes}

theorem urlLines_eq (content : Bytes) : urlLines content = segments isNewline content ++
    if unfinished isNewline content = [] then [] else [unfinished isNewline content] := by
  have parts := List.dropLast_append_getLast (List.splitOnP_ne_nil isNewline content)
  rw [urlLines, ← parts, List.filter_append]
  congr 1
  by_cases none_left : unfinished isNewline content = []
  · rw [if_pos none_left]
    exact List.filter_eq_nil_iff.mpr (by simpa [unfinished] using none_left)
  · rw [if_neg none_left]
    exact List.filter_eq_self.mpr (by simpa [unfinished] using none_left)

/-- The lines that fit are the first lines of the file. -/
theorem fitting_first (content : Bytes) : fitting isNewline urlBufLen content <+: urlLines content := by
  rw [urlLines_eq]
  exact (List.takeWhile_prefix _).trans (List.prefix_append _ _)

/-- **All lines fit** exactly if each is terminated and short. -/
theorem fitting_eq_iff : fitting isNewline urlBufLen content = urlLines content ↔
    unfinished isNewline content = [] ∧ ∀ line ∈ urlLines content, line.length < urlBufLen := by
  constructor
  · intro same
    have all_short : ∀ line ∈ urlLines content, line.length < urlBufLen := by
      intro line member
      rw [← same, fitting] at member
      simpa using List.mem_takeWhile_imp member
    refine ⟨?_, all_short⟩
    have within : (fitting isNewline urlBufLen content).length ≤ (segments isNewline content).length :=
      (List.takeWhile_prefix _).length_le
    rw [same, urlLines_eq, List.length_append] at within
    by_contra left
    rw [if_neg left, List.length_singleton] at within
    omega
  · rintro ⟨terminated, short⟩
    rw [urlLines_eq, if_pos terminated, List.append_nil] at short ⊢
    exact List.takeWhile_eq_self_iff.mpr fun line member => decide_eq_true (short line member)

/-- **The lines taken** are those that fit, and an empty one where a window begins with a newline. -/
theorem mem_taken {line : Bytes} : line ∈ taken content ↔
    line ∈ fitting isNewline urlBufLen content ∨ line = [] ∧ CutAtNewline content := by
  rw [← windows_segments, taken, List.mem_flatMap, List.mem_flatMap]
  constructor
  · rintro ⟨window, member, run⟩
    rcases List.mem_append.mp run with empty | segment
    · by_cases lead : leads isNewline window = true
      · rw [if_pos lead, List.mem_singleton] at empty
        exact .inr ⟨empty, window, member, lead⟩
      · rw [if_neg lead] at empty
        cases empty
    · exact .inl ⟨window, member, segment⟩
  · rintro (⟨window, member, segment⟩ | ⟨rfl, window, member, lead⟩)
    · exact ⟨window, member, List.mem_append_right _ segment⟩
    · exact ⟨window, member, (nil_mem_runs window).mpr lead⟩

theorem not_cut_nil : ¬CutAtNewline [] := by
  simp [CutAtNewline, windows_nil, leads]

theorem taken_of_clean (clean : ¬CutAtNewline content) :
    taken content = fitting isNewline urlBufLen content := by
  rw [← windows_segments]
  refine List.flatMap_congr fun window member => ?_
  have no_lead : ¬leads isNewline window = true := fun lead => clean ⟨window, member, lead⟩
  rw [runs, if_neg no_lead, List.nil_append]

/-- A file without lines has a window that begins with a newline. -/
theorem cut_of_blank (some_byte : content ≠ []) (blank : urlLines content = []) : CutAtNewline content := by
  rw [urlLines_eq, List.append_eq_nil_iff] at blank
  obtain ⟨no_segment, none_left⟩ := blank
  refine ⟨content.take urlBufLen, by rw [windows_eq]; exact List.mem_cons_self, ?_⟩
  rcases @cases_run _ isNewline content with free | ⟨run, seps, later, rfl, free, cuts, some_sep, _⟩
  · rw [unfinished_of_free free, if_neg some_byte] at none_left
    cases none_left
  · obtain ⟨sep, seps, rfl⟩ := List.exists_cons_of_ne_nil some_sep
    have newline : isNewline sep = true := cuts sep List.mem_cons_self
    rw [List.cons_append, segments_run free newline] at no_segment
    have no_run : run = [] := by
      by_contra some_run
      rw [if_neg some_run] at no_segment
      cases no_segment
    subst no_run
    simpa [leads, urlBufLen] using newline

end Lines

/-! ### The URLs of the lines -/

section Urls

variable {strict : Bool} {lookup : Bytes → List Address}

/-- An empty line is no URL. -/
theorem init_nil : (init strict lookup []).isOk = false := by
  cases strict <;> rfl

/-- **The URLs of some lines** are read exactly if each line is accepted, and are then one for each. -/
theorem readUrls_ok {lines : List Bytes} {urls all : List URLInfo} :
    readUrls strict lookup lines urls = (.ok (), all) ↔
      ∃ new, all = urls ++ new ∧ lines.map (init strict lookup) = new.map .ok := by
  induction lines generalizing urls with
  | nil =>
    simp only [readUrls, Prod.mk.injEq, true_and, List.map_nil]
    constructor
    · rintro rfl
      exact ⟨[], by simp, rfl⟩
    · rintro ⟨new, rfl, none_new⟩
      rw [List.map_eq_nil_iff.mp none_new.symm, List.append_nil]
  | cons line later ih =>
    rw [readUrls, List.map_cons]
    cases init strict lookup line with
    | error s =>
      constructor
      · intro ended
        cases congrArg Prod.fst ended
      · rintro ⟨new, -, same⟩
        cases new <;> cases same
    | ok u =>
      dsimp only
      rw [ih]
      constructor
      · rintro ⟨new, rfl, same⟩
        exact ⟨u :: new, by simp, by rw [same, List.map_cons]⟩
      · rintro ⟨new, rfl, same⟩
        cases new with
        | nil => cases same
        | cons first new =>
          rw [List.map_cons, List.cons.injEq, Except.ok.injEq] at same
          obtain ⟨rfl, same⟩ := same
          exact ⟨new, by simp, same⟩

/-- The lines that `InitFile` takes are URLs exactly if `new` has one for each. -/
theorem map_init_ok {lines : List Bytes} :
    (∃ new : List URLInfo, lines.map (init strict lookup) = new.map .ok) ↔
      ∀ line ∈ lines, (init strict lookup line).isOk = true := by
  induction lines with
  | nil => simp
  | cons line later ih =>
    rw [List.forall_mem_cons, ← ih, List.map_cons]
    constructor
    · rintro ⟨new, same⟩
      cases new with
      | nil => cases same
      | cons first new =>
        rw [List.map_cons, List.cons.injEq] at same
        exact ⟨by rw [same.1]; rfl, new, same.2⟩
    · rintro ⟨accepted, new, same⟩
      revert accepted
      cases init strict lookup line with
      | error s => exact fun accepted => by cases accepted
      | ok u => exact fun _ => ⟨u :: new, by rw [same, List.map_cons]⟩

end Urls

/-! ### The whole file -/

section File

variable {strict : Bool} {lookup : Bytes → List Address} {memory : Vector UInt8 urlBufLen}
  {fileName content : Bytes}

/-- The result of `InitFile` is OK exactly if every line taken is a URL. -/
theorem initFile_ok (text : 0 ∉ content) :
    (initFile strict lookup memory fileName (some content) {}).1 = .ok () ↔
      ∀ line ∈ taken content, (init strict lookup line).isOk = true := by
  rw [initFile_eq memory fileName text, ← map_init_ok, taken]
  constructor
  · intro accepted
    cases read : readUrls strict lookup _ ([] : List URLInfo) with
    | mk status all =>
      rw [read] at accepted
      cases status with
      | error s => cases accepted
      | ok _ =>
        obtain ⟨new, -, same⟩ := readUrls_ok.mp read
        exact ⟨new, same⟩
  · rintro ⟨new, same⟩
    rw [readUrls_ok.mpr ⟨new, rfl, same⟩]

/-- The list then has the URL of every line taken. -/
theorem initFile_urls (text : 0 ∉ content)
    (accepted : (initFile strict lookup memory fileName (some content) {}).1 = .ok ()) :
    (taken content).map (init strict lookup) =
      (initFile strict lookup memory fileName (some content) {}).2.urls.map .ok := by
  rw [initFile_ok text, ← map_init_ok] at accepted
  obtain ⟨new, same⟩ := accepted
  rw [initFile_eq memory fileName text, ← taken, readUrls_ok.mpr ⟨new, rfl, same⟩]
  exact same

end File

section Completely

variable (strict : Bool) (lookup : Bytes → List Address) (memory : Vector UInt8 urlBufLen)
  (fileName content : Bytes)

/-- `InitFile` accepts a file exactly if it has lines and each is a URL, and has then the URL of each,
so that `GetNext` has one to give. -/
def ReadCompletely : Prop :=
  let result := initFile strict lookup memory fileName (some content) {}
  (result.1 = .ok () ↔
    urlLines content ≠ [] ∧ ∀ line ∈ urlLines content, (init strict lookup line).isOk = true) ∧
  (result.1 = .ok () →
    (urlLines content).map (init strict lookup) = result.2.urls.map .ok ∧
      ∀ draw, result.2.getNext draw ≠ none)

variable {strict lookup memory fileName content}

/-- The same of the lines taken. -/
theorem readCompletely_iff (text : 0 ∉ content) :
    ReadCompletely strict lookup memory fileName content ↔
      ((∀ line ∈ taken content, (init strict lookup line).isOk = true) ↔
        urlLines content ≠ [] ∧ ∀ line ∈ urlLines content, (init strict lookup line).isOk = true) ∧
      ((∀ line ∈ taken content, (init strict lookup line).isOk = true) →
        (urlLines content).map (init strict lookup) = (taken content).map (init strict lookup) ∧
          taken content ≠ []) := by
  unfold ReadCompletely
  dsimp only
  rw [initFile_ok text]
  refine and_congr_right fun _ => imp_congr_right fun accepted => ?_
  have ok : (initFile strict lookup memory fileName (some content) {}).1 = .ok () :=
    (initFile_ok text).mpr accepted
  have urls := initFile_urls text ok
  rw [urls]
  refine and_congr_right fun _ => ?_
  have some_url : taken content ≠ [] ↔
      (initFile strict lookup memory fileName (some content) {}).2.urls ≠ [] := by
    rw [not_iff_not, ← List.map_eq_nil_iff (f := init strict lookup), urls, List.map_eq_nil_iff]
  simp [some_url, Urls.getNext_eq_none]

/-- A file whose lines are not all taken has lost one. -/
theorem fitting_of_map (same : (urlLines content).map (init strict lookup) =
    (fitting isNewline urlBufLen content).map (init strict lookup)) :
    fitting isNewline urlBufLen content = urlLines content := by
  have lengths := congrArg List.length same
  rw [List.length_map, List.length_map] at lengths
  exact (fitting_first content).eq_of_length lengths.symm

/-- Where a window begins with a newline, the file is rejected. -/
theorem readCompletely_of_cut (text : 0 ∉ content) (cut : CutAtNewline content) :
    ReadCompletely strict lookup memory fileName content ↔
      ¬(urlLines content ≠ [] ∧ ∀ line ∈ urlLines content, (init strict lookup line).isOk = true) := by
  have rejected : ¬∀ line ∈ taken content, (init strict lookup line).isOk = true := by
    intro accepted
    have empty := accepted [] (mem_taken.mpr (.inr ⟨rfl, cut⟩))
    rw [init_nil] at empty
    cases empty
  rw [readCompletely_iff text]
  exact ⟨fun complete all => rejected (complete.1.mpr all),
    fun not_all => ⟨⟨fun accepted => absurd accepted rejected, fun all => absurd all not_all⟩,
      fun accepted => absurd accepted rejected⟩⟩

/-- Where none does, the lines that fit are taken. -/
theorem readCompletely_of_clean (text : 0 ∉ content) (clean : ¬CutAtNewline content) :
    ReadCompletely strict lookup memory fileName content ↔
      ((∀ line ∈ fitting isNewline urlBufLen content, (init strict lookup line).isOk = true) ↔
        urlLines content ≠ [] ∧ ∀ line ∈ urlLines content, (init strict lookup line).isOk = true) ∧
      ((∀ line ∈ fitting isNewline urlBufLen content, (init strict lookup line).isOk = true) →
        fitting isNewline urlBufLen content = urlLines content ∧ urlLines content ≠ []) := by
  rw [readCompletely_iff text, taken_of_clean clean]
  refine and_congr_right fun _ => imp_congr_right fun _ => ?_
  constructor
  · rintro ⟨same, some_taken⟩
    have all := fitting_of_map same
    exact ⟨all, all ▸ some_taken⟩
  · rintro ⟨all, some_line⟩
    rw [all]
    exact ⟨rfl, some_line⟩

variable (strict lookup memory fileName content)

/-- **A file is read completely** exactly if it has some byte and, where every line is a URL, has no
line at all or is readable; where some line is none, one is that fits or some window begins with a
newline. -/
theorem url_file_iff (text : 0 ∉ content) :
    ReadCompletely strict lookup memory fileName content ↔
      content ≠ [] ∧
      ((∀ line ∈ urlLines content, (init strict lookup line).isOk = true) →
        urlLines content = [] ∨ Readable content) ∧
      ((∃ line ∈ urlLines content, (init strict lookup line).isOk = false) →
        CutAtNewline content ∨
          ∃ line ∈ fitting isNewline urlBufLen content, (init strict lookup line).isOk = false) := by
  have refused_iff : ∀ lines : List Bytes, (∃ line ∈ lines, (init strict lookup line).isOk = false) ↔
      ¬∀ line ∈ lines, (init strict lookup line).isOk = true := by simp
  rw [refused_iff, refused_iff]
  by_cases cut : CutAtNewline content
  · have some_byte : content ≠ [] := by
      rintro rfl
      exact not_cut_nil cut
    rw [readCompletely_of_cut text cut]
    constructor
    · intro rejected
      refine ⟨some_byte, fun accepted => .inl ?_, fun _ => .inl cut⟩
      by_contra some_line
      exact rejected ⟨some_line, accepted⟩
    · rintro ⟨-, complete, -⟩ ⟨some_line, accepted⟩
      rcases complete accepted with none_left | readable
      · exact some_line none_left
      · exact readable.clean cut
  · have fits : (∀ line ∈ urlLines content, (init strict lookup line).isOk = true) →
        ∀ line ∈ fitting isNewline urlBufLen content, (init strict lookup line).isOk = true :=
      fun accepted line member => accepted line ((fitting_first content).subset member)
    rw [readCompletely_of_clean text cut, fitting_eq_iff]
    constructor
    · rintro ⟨ok_iff, complete⟩
      refine ⟨?_, fun accepted => .inr ?_, fun refused => .inr fun accepted => ?_⟩
      · rintro rfl
        exact (ok_iff.mp fun line member => by cases member).1 rfl
      · obtain ⟨⟨terminated, short⟩, -⟩ := complete (fits accepted)
        exact ⟨terminated, short, cut⟩
      · exact refused (ok_iff.mp accepted).2
    · rintro ⟨some_byte, complete, noticed⟩
      have some_line : urlLines content ≠ [] := fun none_left => cut (cut_of_blank some_byte none_left)
      by_cases accepted : ∀ line ∈ urlLines content, (init strict lookup line).isOk = true
      · have readable := (complete accepted).resolve_left some_line
        exact ⟨⟨fun _ => ⟨some_line, accepted⟩, fun _ => fits accepted⟩,
          fun _ => ⟨⟨readable.terminated, readable.short⟩, some_line⟩⟩
      · have refused := (noticed accepted).resolve_left cut
        exact ⟨⟨fun all => absurd all refused, fun both => absurd both.2 accepted⟩,
          fun all => absurd all refused⟩

end Completely

/-- A file that fits into the buffer has one window. -/
theorem taken_short {content : Bytes} (short : content.length ≤ urlBufLen) :
    taken content = runs isNewline content := by
  rw [taken, windows_eq, if_neg (by omega), List.take_of_length_le short, List.flatMap_cons,
    List.flatMap_nil, List.append_nil]

theorem url_file_example : ReadCompletely false (fun _ => []) (.replicate _ 0) (ascii "urls.txt")
    (ascii "http://a/\r\nhttp://b/\n") := by
  have clean : ¬CutAtNewline (ascii "http://a/\r\nhttp://b/\n") := by
    intro cut
    have empty := mem_taken.mpr (.inr ⟨rfl, cut⟩)
    rw [taken_short (by decide)] at empty
    exact absurd empty (by decide)
  have accepted : ∀ line ∈ urlLines (ascii "http://a/\r\nhttp://b/\n"),
      (init false (fun _ => []) line).isOk = true :=
    List.all_eq_true.mp (by decide)
  refine (url_file_iff _ _ _ _ _ (by decide)).mpr
    ⟨by decide, fun _ => .inr ⟨by decide, ?_, clean⟩, ?_⟩
  · have short : (urlLines (ascii "http://a/\r\nhttp://b/\n")).all
        (fun line => decide (line.length < urlBufLen)) = true := by decide
    exact fun line member => of_decide_eq_true (List.all_eq_true.mp short line member)
  · rintro ⟨line, member, refused⟩
    rw [accepted line member] at refused
    cases refused

/-- **The last line is left out** if no newline follows it. -/
theorem last_line_lost : ¬∀ content : Bytes, 0 ∉ content →
    ReadCompletely false (fun _ => []) (.replicate _ 0) (ascii "urls.txt") content := by
  intro completely
  have lost := (readCompletely_iff (by decide)).mp (completely (ascii "http://a/\nhttp://b/") (by decide))
  rw [taken_short (by decide)] at lost
  have same := (lost.2 (List.all_eq_true.mp (by decide))).1
  exact absurd same (by decide)

end Apib.Net
