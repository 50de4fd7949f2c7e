/-
**What a failed initialisation leaves behind.**

`InitOne` adds its URL when it has parsed it. `InitFile` adds the URLs to the list while it reads, and
where a line is none it returns at once.

* `readUrls_failed`: the list is as before exactly if the first line was none;
* `traceless_iff`: **a failed initialisation leaves no trace** exactly if the first line taken from the
  file is no URL, or every one is.
-/

import Apib.Net.FileLines

namespace Apib.Net

section FailedInit

variable (strict : Bool) (lookup : Bytes → List Address)

/-- The method `InitOne`. -/
def initOne (urlStr : Bytes) (g : Urls) : Except Status Unit × Urls :=
  match init strict lookup urlStr with
  | .error s => (.error s, g)
  | .ok url => (.ok (), { urls := g.urls ++ [url], initialized := true })

/-- A failed call leaves the list and `initialized_` alone. -/
def Traceless (g : Urls) (result : Except Status Unit × Urls) : Prop := result.1.isOk = false → result.2 = g

/-- If the first line is a URL, so are the later ones. -/
def FirstDecides (lines : List Bytes) : Prop :=
  ∀ first later, lines = first :: later → (init strict lookup first).isOk = true →
    ∀ line ∈ later, (init strict lookup line).isOk = true

variable {strict lookup}

/-- Lines only add URLs to the list. -/
theorem readUrls_grows (lines : List Bytes) (urls : List URLInfo) :
    ∃ more, (readUrls strict lookup lines urls).2 = urls ++ more := by
  induction lines generalizing urls with
  | nil => exact ⟨[], (List.append_nil _).symm⟩
  | cons line later ih =>
    rw [readUrls]
    cases init strict lookup line with
    | error s => exact ⟨[], (List.append_nil _).symm⟩
    | ok url =>
      obtain ⟨more, grown⟩ := ih (urls ++ [url])
      exact ⟨url :: more, by simpa using grown⟩

theorem readUrls_isOk {lines : List Bytes} (urls : List URLInfo) :
    (readUrls strict lookup lines urls).1.isOk = true ↔
      ∀ line ∈ lines, (init strict lookup line).isOk = true := by
  induction lines generalizing urls with
  | nil => simp [readUrls, Except.isOk, Except.toBool]
  | cons line later ih =>
    rw [readUrls, List.forall_mem_cons]
    cases init strict lookup line with
    | error s => simp [Except.isOk, Except.toBool]
    | ok url =>
      rw [ih]
      simp [Except.isOk, Except.toBool]

/-- **The list is as before** after lines exactly if none of them comes after a URL. -/
theorem readUrls_failed {lines : List Bytes} {urls : List URLInfo} :
    ((readUrls strict lookup lines urls).1.isOk = false → (readUrls strict lookup lines urls).2 = urls) ↔
      FirstDecides strict lookup lines := by
  cases lines with
  | nil =>
    refine iff_of_true (fun _ => rfl) fun first later same => ?_
    cases same
  | cons line later =>
    rw [readUrls]
    cases made : init strict lookup line with
    | error s =>
      refine iff_of_true (fun _ => rfl) fun first later same accepted => ?_
      obtain ⟨rfl, -⟩ := List.cons.inj same
      rw [made] at accepted
      cases accepted
    | ok url =>
      dsimp only
      obtain ⟨more, grown⟩ := @readUrls_grows strict lookup later (urls ++ [url])
      have changed : (readUrls strict lookup later (urls ++ [url])).2 ≠ urls := by
        intro same
        have lengths := congrArg List.length (grown.symm.trans same)
        simp at lengths
      constructor
      · intro kept first rest same _
        obtain ⟨rfl, rfl⟩ := List.cons.inj same
        refine (readUrls_isOk (urls ++ [url])).mp ?_
        rw [← Bool.not_eq_false]
        exact fun failed => changed (kept failed)
      · intro decides failed
        have all := decides line later rfl (by rw [made]; rfl)
        rw [(readUrls_isOk (urls ++ [url])).mpr all] at failed
        cases failed

/-- **A failed initialisation leaves no trace**: with one URL, always; with a file, exactly if the first
line taken from it is no URL, or they all are. -/
theorem traceless_iff (g : Urls) :
    (∀ urlStr, Traceless g (initOne strict lookup urlStr g)) ∧
      ∀ memory fileName file, Traceless g (initFile strict lookup memory fileName file g) ↔
        ∀ content ∈ file, FirstDecides strict lookup (fileLines memory content) := by
  constructor
  · intro urlStr
    unfold initOne
    cases init strict lookup urlStr with
    | error s => exact fun _ => rfl
    | ok url => exact fun failed => by cases failed
  · intro memory fileName file
    cases file with
    | none => exact iff_of_true (fun _ => rfl) fun content member => by cases member
    | some content =>
      simp only [Option.mem_def, Option.some.injEq, forall_eq']
      rw [← @readUrls_failed strict lookup _ g.urls, initFile_lines]
      cases readUrls strict lookup (fileLines memory content) g.urls with
      | mk status urls =>
        cases status with
        | error s =>
          constructor
          · intro traceless failed
            exact congrArg Urls.urls (traceless failed)
          · intro kept failed
            obtain rfl := kept failed
            rfl
        | ok _ => exact iff_of_true (fun failed => by cases failed) fun failed => by cases failed

end FailedInit

/-- The initialisation with a file of two lines, of which the second is no URL. -/
def failedInit : Except Status Unit × Urls :=
  initFile false (fun _ => []) (.replicate _ 0) (ascii "urls.txt") (some (ascii "http://a/\nhttp:b/\n")) {}

/-- **The URL of the first line stays in the list**, and the next initialisation adds its own to it. -/
theorem url_left_behind :
    ¬ Traceless {} failedInit ∧
      (initOne false (fun _ => []) (ascii "http://c/") failedInit.2).2.urls.map URLInfo.hostName =
        [ascii "a", ascii "c"] := by
  have lines : fileLines (.replicate _ 0) (ascii "http://a/\nhttp:b/\n") =
      [ascii "http://a/", ascii "http:b/"] := by
    rw [fileLines_eq _ (by decide), ← taken, taken_short (by decide)]
    decide
  rw [failedInit, initFile_lines, lines]
  refine ⟨fun traceless => ?_, by decide +kernel⟩
  have kept := congrArg (fun g : Urls => g.urls.length) (traceless (by decide +kernel))
  revert kept
  decide +kernel

end Apib.Net
