/-
**Lists cut at separators.**

The `segments` of a list are the non-empty runs of other elements that a separator follows; the
`unfinished` part is what comes after the last separator. A list that arrives in pieces is cut as it
comes: of each piece, put after what was unfinished, the segments are taken and the unfinished part
is kept.

* `segments_append`: what was unfinished, put in front of the rest, is all that the segments of the
  rest depend on.
* `cutting_eq`: **the segments taken piece by piece are those of the whole list**, whatever the
  pieces.
* `taking_iff`: a reader that ends each run at a separator, and skips the separators there, takes an
  empty run where a separator comes first; it takes the segments exactly when no piece begins with
  a separator while nothing is unfinished.
* `words_cut`: the words of a list are its first run and the words of what follows the separators.
-/

import Mathlib.Data.List.Basic
import Mathlib.Data.List.Induction

namespace Segments

variable {α : Type*} (isSep : α → Bool)

/-- The non-empty runs of other elements that a separator follows. -/
def segments (items : List α) : List (List α) :=
  (items.splitOnP isSep).dropLast.filter fun run => !run.isEmpty

/-- What follows the last separator. -/
def unfinished (items : List α) : List α :=
  (items.splitOnP isSep).getLast (List.splitOnP_ne_nil isSep items)

/-- The segments taken from a list that arrives in pieces. -/
def cutting (pending : List α) : List (List α) → List (List α)
  | [] => []
  | piece :: later =>
    segments isSep (pending ++ piece) ++ cutting (unfinished isSep (pending ++ piece)) later

/-- Does a separator come first? -/
def leads (items : List α) : Bool := items.head?.any isSep

/-- The runs that a reader takes which ends each at a separator and skips the separators there. -/
def runs (items : List α) : List (List α) :=
  (if leads isSep items then [[]] else []) ++ segments isSep items

/-- The runs taken from a list that arrives in pieces. -/
def taking (pending : List α) : List (List α) → List (List α)
  | [] => []
  | piece :: later =>
    runs isSep (pending ++ piece) ++ taking (unfinished isSep (pending ++ piece)) later

/-- The non-empty runs of other elements, the last one too. -/
def words (items : List α) : List (List α) :=
  (items.splitOnP isSep).filter fun run => !run.isEmpty

variable {isSep}

/-- **Splitting in two parts.** -/
theorem splitOnP_append (first second : List α) :
    (first ++ second).splitOnP isSep =
      (first.splitOnP isSep).dropLast ++ (unfinished isSep first ++ second).splitOnP isSep := by
  induction first with
  | nil => simp [unfinished]
  | cons item first ih =>
    have some_run : first.splitOnP isSep ≠ [] := List.splitOnP_ne_nil isSep first
    by_cases sep : isSep item = true
    · have opened : (item :: first).splitOnP isSep = [] :: first.splitOnP isSep := by
        simp [List.splitOnP_cons_eq_if_modifyHead, sep]
      have same : unfinished isSep (item :: first) = unfinished isSep first := by
        simp [unfinished, opened, List.getLast_cons some_run]
      rw [same, opened, List.dropLast_cons_of_ne_nil some_run, List.cons_append, List.cons_append,
        List.splitOnP_cons_eq_if_modifyHead, if_pos sep, ih]
    · obtain ⟨head, others, runs⟩ := List.exists_cons_of_ne_nil some_run
      have opened : (item :: first).splitOnP isSep = (item :: head) :: others := by
        simp [List.splitOnP_cons_eq_if_modifyHead, sep, runs]
      rw [List.cons_append, List.splitOnP_cons_eq_if_modifyHead, if_neg sep, ih]
      cases others with
      | nil =>
        have before : unfinished isSep first = head := by simp [unfinished, runs]
        have after : unfinished isSep (item :: first) = item :: head := by
          simp [unfinished, opened]
        rw [before, after, opened, runs, List.cons_append, List.splitOnP_cons_eq_if_modifyHead,
          if_neg sep]
        rfl
      | cons next others =>
        have same : unfinished isSep (item :: first) = unfinished isSep first := by
          simp [unfinished, opened, runs]
        rw [same, opened, runs]
        rfl

/-! ### Segments of two parts -/

theorem segments_append (first second : List α) :
    segments isSep (first ++ second) =
      segments isSep first ++ segments isSep (unfinished isSep first ++ second) := by
  unfold segments
  rw [splitOnP_append, List.dropLast_append_of_ne_nil (List.splitOnP_ne_nil isSep _),
    List.filter_append]

theorem unfinished_append (first second : List α) :
    unfinished isSep (first ++ second) = unfinished isSep (unfinished isSep first ++ second) := by
  simp only [unfinished, splitOnP_append first second]
  exact List.getLast_append_of_ne_nil _ (List.splitOnP_ne_nil isSep _)

/-- **The segments taken piece by piece are those of the whole.** -/
theorem cutting_eq (pending : List α) (pieces : List (List α)) (free : segments isSep pending = []) :
    cutting isSep pending pieces = segments isSep (pending ++ pieces.flatten) := by
  induction pieces generalizing pending with
  | nil => simp [cutting, free]
  | cons piece later ih =>
    have rest : segments isSep (unfinished isSep (pending ++ piece)) = [] := by
      have whole : segments isSep ((pending ++ piece) ++ []) = _ := segments_append (pending ++ piece) []
      simpa using whole
    rw [cutting, ih _ rest, List.flatten_cons, ← List.append_assoc,
      segments_append (pending ++ piece)]

/-! ### Runs and separators -/

section Runs

variable {run : List α} (free : ∀ item ∈ run, isSep item = false)
include free

@[simp] theorem segments_of_free : segments isSep run = [] := by
  simp [segments, List.splitOnP_eq_singleton free]

@[simp] theorem unfinished_of_free : unfinished isSep run = run := by
  simp [unfinished, List.splitOnP_eq_singleton free]

theorem segments_run {sep : α} (cut : isSep sep = true) (rest : List α) :
    segments isSep (run ++ sep :: rest) =
      (if run = [] then [] else [run]) ++ segments isSep rest := by
  have some_run : rest.splitOnP isSep ≠ [] := List.splitOnP_ne_nil isSep rest
  unfold segments
  rw [List.splitOnP_append_cons_of_forall_mem free sep cut, List.dropLast_cons_of_ne_nil some_run]
  by_cases empty : run = []
  · simp [empty]
  · simp [empty]

theorem unfinished_run {sep : α} (cut : isSep sep = true) (rest : List α) :
    unfinished isSep (run ++ sep :: rest) = unfinished isSep rest := by
  have some_run : rest.splitOnP isSep ≠ [] := List.splitOnP_ne_nil isSep rest
  simp [unfinished, List.splitOnP_append_cons_of_forall_mem free sep cut,
    List.getLast_cons some_run]

end Runs

/-- **The unfinished part has no separator.** -/
theorem unfinished_free (items : List α) : ∀ item ∈ unfinished isSep items, isSep item = false := by
  induction items using List.reverseRecOn with
  | nil => simp [unfinished]
  | append_singleton items last ih =>
    rw [unfinished_append]
    by_cases sep : isSep last = true
    · rw [unfinished_run ih sep []]
      simp [unfinished]
    · have free : ∀ item ∈ unfinished isSep items ++ [last], isSep item = false := by
        intro item member
        rcases List.mem_append.mp member with early | late
        · exact ih item early
        · rw [List.mem_singleton.mp late]
          simpa using sep
      rwa [unfinished_of_free free]

/-- **The unfinished part is at the end of the list.** -/
theorem unfinished_suffix (items : List α) : unfinished isSep items <:+ items := by
  induction items using List.reverseRecOn with
  | nil => simp [unfinished]
  | append_singleton items last ih =>
    rw [unfinished_append]
    by_cases sep : isSep last = true
    · rw [unfinished_run (unfinished_free items) sep []]
      exact List.nil_suffix
    · obtain ⟨before, whole⟩ := ih
      have free : ∀ item ∈ unfinished isSep items ++ [last], isSep item = false := by
        intro item member
        rcases List.mem_append.mp member with early | late
        · exact unfinished_free items item early
        · rw [List.mem_singleton.mp late]
          simpa using sep
      rw [unfinished_of_free free]
      exact ⟨before, by rw [← List.append_assoc, whole]⟩

section Seps

variable {seps : List α} (cuts : ∀ item ∈ seps, isSep item = true)
include cuts

theorem segments_seps (rest : List α) :
    segments isSep (seps ++ rest) = segments isSep rest := by
  induction seps with
  | nil => rfl
  | cons sep seps ih =>
    have free : ∀ item ∈ ([] : List α), isSep item = false := by simp
    have first := segments_run free (cuts sep (by simp)) (seps ++ rest)
    simpa [ih fun item member => cuts item (by simp [member])] using first

theorem unfinished_seps (rest : List α) :
    unfinished isSep (seps ++ rest) = unfinished isSep rest := by
  induction seps with
  | nil => rfl
  | cons sep seps ih =>
    have free : ∀ item ∈ ([] : List α), isSep item = false := by simp
    have first := unfinished_run free (cuts sep (by simp)) (seps ++ rest)
    simpa [ih fun item member => cuts item (by simp [member])] using first

end Seps

/-! ### The runs a reader takes -/

theorem leads_append {pending : List α} (free : ∀ item ∈ pending, isSep item = false)
    (piece : List α) :
    leads isSep (pending ++ piece) = true ↔ pending = [] ∧ leads isSep piece = true := by
  cases pending with
  | nil => simp
  | cons first others => simp [leads, free first (by simp)]

/-- Where no separator comes first, there is a run before the first ones. -/
theorem run_ne_nil {run seps rest : List α} (stops : leads isSep (run ++ (seps ++ rest)) = false)
    (cuts : ∀ item ∈ seps, isSep item = true) (some_sep : seps ≠ []) : run ≠ [] := by
  rintro rfl
  obtain ⟨sep, others, rfl⟩ := List.exists_cons_of_ne_nil some_sep
  simp [leads, cuts sep] at stops

/-- **The first run of a list**: there is no separator, or the run before the first one is followed
by separators up to an element that is none. -/
theorem cases_run (items : List α) :
    (∀ item ∈ items, isSep item = false) ∨
      ∃ run seps rest, items = run ++ (seps ++ rest) ∧ (∀ item ∈ run, isSep item = false) ∧
        (∀ item ∈ seps, isSep item = true) ∧ seps ≠ [] ∧ leads isSep rest = false := by
  induction items with
  | nil => exact .inl (by simp)
  | cons item items ih =>
    by_cases sep : isSep item = true
    · refine .inr ⟨[], item :: items.takeWhile isSep, items.dropWhile isSep, by simp, by simp, ?_,
        by simp, ?_⟩
      · intro other member
        rcases List.mem_cons.mp member with rfl | later
        · exact sep
        · exact List.all_eq_true.mp List.all_takeWhile other later
      · have stops := List.head?_dropWhile_not isSep items
        unfold leads
        cases last : (items.dropWhile isSep).head? with
        | none => rfl
        | some other => simpa [last] using stops
    · rcases ih with free | ⟨run, seps, rest, rfl, free, cuts, some_sep, stops⟩
      · refine .inl fun other member => ?_
        rcases List.mem_cons.mp member with rfl | later
        · simpa using sep
        · exact free other later
      · refine .inr ⟨item :: run, seps, rest, rfl, fun other member => ?_, cuts, some_sep, stops⟩
        rcases List.mem_cons.mp member with rfl | later
        · simpa using sep
        · exact free other later

theorem runs_of_free {run : List α} (free : ∀ item ∈ run, isSep item = false) :
    runs isSep run = [] := by
  have no_lead : leads isSep run = false := by
    cases run with
    | nil => rfl
    | cons first others => simp [leads, free first (by simp)]
  simp [runs, no_lead, segments_of_free free]

/-- **The first run taken** is the one before the first separators. -/
theorem runs_run {run seps rest : List α} (free : ∀ item ∈ run, isSep item = false)
    (cuts : ∀ item ∈ seps, isSep item = true) (some_sep : seps ≠ [])
    (stops : leads isSep rest = false) :
    runs isSep (run ++ (seps ++ rest)) = run :: runs isSep rest := by
  obtain ⟨sep, later, rfl⟩ := List.exists_cons_of_ne_nil some_sep
  have after : segments isSep (later ++ rest) = segments isSep rest :=
    segments_seps (fun item member => cuts item (by simp [member])) rest
  have whole := segments_run free (cuts sep (by simp)) (later ++ rest)
  rw [after] at whole
  unfold runs
  rw [List.cons_append, whole, stops]
  cases run with
  | nil => simp [leads, cuts sep]
  | cons first others => simp [leads, free first (by simp)]

theorem unfinished_cut {run seps : List α} (rest : List α) (free : ∀ item ∈ run, isSep item = false)
    (cuts : ∀ item ∈ seps, isSep item = true) (some_sep : seps ≠ []) :
    unfinished isSep (run ++ (seps ++ rest)) = unfinished isSep rest := by
  obtain ⟨sep, later, rfl⟩ := List.exists_cons_of_ne_nil some_sep
  rw [List.cons_append, unfinished_run free (cuts sep (by simp))]
  exact unfinished_seps (fun item member => cuts item (by simp [member])) rest

theorem nil_notMem_segments (items : List α) : [] ∉ segments isSep items := by
  simp [segments]

theorem nil_mem_runs (items : List α) : [] ∈ runs isSep items ↔ leads isSep items = true := by
  by_cases lead : leads isSep items = true
  · simp [runs, lead]
  · simp [runs, lead, nil_notMem_segments]

theorem filter_runs (items : List α) :
    (runs isSep items).filter (fun run => !run.isEmpty) = segments isSep items := by
  by_cases lead : leads isSep items = true
  · simp [runs, lead, segments]
  · simp [runs, lead, segments]

/-- **Of the runs taken, those that are not empty are the segments.** -/
theorem filter_taking (pending : List α) (pieces : List (List α)) :
    (taking isSep pending pieces).filter (fun run => !run.isEmpty) =
      cutting isSep pending pieces := by
  induction pieces generalizing pending with
  | nil => rfl
  | cons piece later ih => rw [taking, cutting, List.filter_append, filter_runs, ih]

/-- **An empty run is taken** where a piece begins with a separator and nothing is unfinished. -/
theorem nil_notMem_taking {pending : List α} (free : ∀ item ∈ pending, isSep item = false)
    (pieces : List (List α)) :
    [] ∉ taking isSep pending pieces ↔
      ∀ before piece later, pieces = before ++ piece :: later → leads isSep piece = true →
        unfinished isSep (pending ++ before.flatten) ≠ [] := by
  induction pieces generalizing pending with
  | nil => simp [taking]
  | cons piece later ih =>
    have rest := ih (unfinished_free (pending ++ piece))
    rw [taking, List.mem_append, not_or, nil_mem_runs, leads_append free, rest]
    constructor
    · rintro ⟨here, there⟩ before other others cut lead
      cases before with
      | nil =>
        obtain ⟨rfl, -⟩ := List.cons.inj cut
        intro none_pending
        rw [List.flatten_nil, List.append_nil, unfinished_of_free free] at none_pending
        exact here ⟨none_pending, lead⟩
      | cons first before =>
        obtain ⟨rfl, cut_later⟩ := List.cons.inj cut
        have later_pending := there before other others cut_later lead
        rw [List.flatten_cons, ← List.append_assoc, unfinished_append]
        exact later_pending
    · intro clean
      refine ⟨?_, ?_⟩
      · rintro ⟨rfl, lead⟩
        exact clean [] piece later rfl lead (by simp [unfinished])
      · intro before other others cut lead
        have later_pending := clean (piece :: before) other others (by rw [cut]; rfl) lead
        rwa [List.flatten_cons, ← List.append_assoc, unfinished_append] at later_pending

/-- **The segments are taken, and nothing else**, exactly when no piece begins with a separator while
nothing is unfinished. -/
theorem taking_iff (pieces : List (List α)) :
    taking isSep [] pieces = segments isSep pieces.flatten ↔
      ∀ before piece later, pieces = before ++ piece :: later → leads isSep piece = true →
        unfinished isSep before.flatten ≠ [] := by
  have whole : cutting isSep [] pieces = segments isSep pieces.flatten :=
    cutting_eq [] pieces (by simp [segments])
  have free : ∀ item ∈ ([] : List α), isSep item = false := by simp
  have clean := nil_notMem_taking free pieces
  simp only [List.nil_append] at clean
  rw [← clean]
  constructor
  · intro same
    rw [same]
    exact nil_notMem_segments _
  · intro no_empty
    rw [← whole, ← filter_taking, eq_comm, List.filter_eq_self]
    intro run member
    cases run with
    | nil => exact absurd member no_empty
    | cons first others => rfl

/-! ### Words -/

theorem words_eq (items : List α) : words isSep items = segments isSep items ++
    if unfinished isSep items = [] then [] else [unfinished isSep items] := by
  have whole := List.dropLast_append_getLast (List.splitOnP_ne_nil isSep items)
  rw [words, ← whole, List.filter_append, segments]
  congr 1
  by_cases none_left : unfinished isSep items = []
  · rw [if_pos none_left]
    unfold unfinished at none_left
    simp [none_left]
  · rw [if_neg none_left]
    unfold unfinished at none_left ⊢
    simpa using none_left

theorem words_of_free {run : List α} (free : ∀ item ∈ run, isSep item = false) :
    words isSep run = if run = [] then [] else [run] := by
  rw [words_eq, segments_of_free free, unfinished_of_free free, List.nil_append]

/-- **The first word** is the run before the first separators. -/
theorem words_cut {run seps : List α} (rest : List α) (free : ∀ item ∈ run, isSep item = false)
    (cuts : ∀ item ∈ seps, isSep item = true) (some_sep : seps ≠ []) :
    words isSep (run ++ (seps ++ rest)) = (if run = [] then [] else [run]) ++ words isSep rest := by
  have later := unfinished_cut rest free cuts some_sep
  obtain ⟨sep, others, rfl⟩ := List.exists_cons_of_ne_nil some_sep
  have after : segments isSep (others ++ rest) = segments isSep rest :=
    segments_seps (fun item member => cuts item (by simp [member])) rest
  rw [words_eq, words_eq, later, List.cons_append, segments_run free (cuts sep (by simp)), after,
    List.append_assoc]

theorem nil_notMem_words (items : List α) : [] ∉ words isSep items := by
  simp [words]

/-- Every element that is no separator is in a word. -/
theorem exists_mem_words {items : List α} {item : α} (member : item ∈ items)
    (other : isSep item = false) : ∃ word ∈ words isSep items, item ∈ word := by
  induction items with
  | nil => simp at member
  | cons first items ih =>
    obtain ⟨head, others, runs⟩ := List.exists_cons_of_ne_nil (List.splitOnP_ne_nil isSep items)
    have opened := List.splitOnP_cons_eq_if_modifyHead (p := isSep) first items
    rw [runs] at opened
    unfold words at ih ⊢
    rw [opened]
    rw [runs] at ih
    rcases List.mem_cons.mp member with rfl | later
    · exact ⟨item :: head, by simp [other], by simp⟩
    · obtain ⟨word, among, inside⟩ := ih later
      by_cases sep : isSep first = true
      · exact ⟨word, by simpa [sep] using among, inside⟩
      · simp only [sep, Bool.false_eq_true, if_false, List.modifyHead_cons]
        rcases List.mem_cons.mp (List.mem_of_mem_filter among) with rfl | further
        · exact ⟨first :: word, by simp, by simp [inside]⟩
        · refine ⟨word, List.mem_filter.mpr ⟨List.mem_cons_of_mem _ further, ?_⟩, inside⟩
          exact (List.mem_filter.mp among).2

/-- There are no words where there are only separators. -/
theorem words_eq_nil_iff (items : List α) :
    words isSep items = [] ↔ ∀ item ∈ items, isSep item = true := by
  constructor
  · intro none_there item member
    by_contra other
    obtain ⟨word, among, -⟩ := exists_mem_words member (by simpa using other)
    rw [none_there] at among
    exact List.not_mem_nil among
  · intro cuts
    cases items with
    | nil => rfl
    | cons item items =>
      have cut := words_cut [] (List.forall_mem_nil _) cuts (List.cons_ne_nil _ _)
      rw [List.append_nil] at cut
      exact cut

end Segments
