/-
# An extraction shows every file or none

All files of an extraction are read before anything is shown.  So the first file without an
extractor ends it with nothing shown, whatever is found in the others; faults of nodes are not even
counted.  If every file has an extractor, every path has its section, in the order of the paths and
as often as it is given (`extract_all_or_nothing`).
-/
import PhpCatalog.Proofs.Command.Requests
import PhpCatalog.Proofs.Command.Sections

namespace PhpCatalog

/-- The first path that ends the operation decides, and what was logged before it stays. -/
lemma extractInTurn_of_first_error {one : String → Except Abort (FileExtraction × List Record)}
    {before after : List String} {path : String} {e : Abort}
    (hbefore : ∀ p ∈ before, ∃ f log, one p = .ok (f, log)) (hpath : one path = .error e) :
    extractInTurn one (before ++ path :: after) = ⟨(extractInTurn one before).log, .error e⟩ := by
  induction before with
  | nil => simp [extractInTurn, hpath]
  | cons p rest ih =>
    obtain ⟨⟨f, log, hp⟩, hrest⟩ := List.forall_mem_cons.mp hbefore
    simp [extractInTurn, hp, ih hrest, Except.map]

/-- Of some paths, one of which has no extractor, one is the first. -/
lemma exists_first_not_supported {paths : List String} (h : ∃ path ∈ paths, ¬ Supported path) :
    ∃ before path after, paths = before ++ path :: after ∧ (∀ p ∈ before, Supported p) ∧
      ¬ Supported path := by
  induction paths with
  | nil => simp at h
  | cons path rest ih =>
    by_cases hpath : Supported path
    · obtain ⟨other, hother, hnot⟩ := h
      rcases List.mem_cons.mp hother with rfl | hrest
      · exact absurd hpath hnot
      · obtain ⟨before, first, after, rfl, hbefore, hfirst⟩ := ih ⟨other, hrest, hnot⟩
        exact ⟨path :: before, first, after, rfl, List.forall_mem_cons.mpr ⟨hpath, hbefore⟩, hfirst⟩
    · exact ⟨[], path, rest, rfl, by simp, hpath⟩

namespace Command

variable {s : Surroundings} {kinds paths : List String}

/-- An extraction that meets a file without an extractor. -/
lemma extract_of_first_not_supported {before after : List String} {path : String}
    (given : ∀ p ∈ before ++ path :: after, Given s.read s.volume p)
    (hbefore : ∀ p ∈ before, Supported p) (hpath : ¬ Supported path) (json : Bool) :
    extract s json kinds (before ++ path :: after) =
      { log := (extractAll s before).log,
        ended := some (.failure (.unsupportedFile (recordName path))) } := by
  have hread : ∀ p ∈ before, ∃ f log,
      extractFile s.read s.volume (Path.ofString p) none = .ok (f, log) := fun p hp =>
    ⟨_, extractFile_of_supported (given p (List.mem_append_left _ hp)) (hbefore p hp)⟩
  have hrefused := extractFile_of_not_supported (given path (by simp)) hpath
  have hall : extractAll s (before ++ path :: after) =
      ⟨(extractAll s before).log, .error (.failure (.unsupportedFile (recordName path)))⟩ :=
    extractInTurn_of_first_error hread hrefused
  rw [extract, hall]

/-- **All or nothing.**  Let some paths lead to files.

* If one of them has no extractor, then in either form of output nothing is shown, the exit code is
  2, and the error behind the log names the first such path.  What the files contain has no part in
  this.
* Otherwise each path has one section with what is extracted from its file, in the order of the
  paths: the text is made of these sections, with an empty line between them, and the report has one
  entry for each. -/
theorem extract_all_or_nothing (known : ∀ kind ∈ kinds, kind ∈ conceptTypes) (hne : paths ≠ [])
    (given : ∀ path ∈ paths, Given s.read s.volume path) (verbose : Bool) :
    ((∃ path ∈ paths, ¬ Supported path) →
      ∃ before path after, paths = before ++ path :: after ∧ (∀ p ∈ before, Supported p) ∧
        ¬ Supported path ∧ ∀ json,
          run s (extractWords json verbose kinds paths) =
            { exitCode := 2, stdout := "", crash := none,
              stderr := logText verbose (extractAll s before).log ++
                show_ ("Error: Unsupported file type: " ++ recordName path) }) ∧
    ((∀ path ∈ paths, Supported path) →
      let files := (givenFiles s paths).map (keepKinds kinds)
      files.map FileExtraction.filePath = paths.map recordName ∧
      (∃ shown, List.Forall₂ IsSection files shown ∧
        (run s (extractWords false verbose kinds paths)).stdout =
          showAll ([""].intercalate shown)) ∧
      ∃ report, Json.parse (run s (extractWords true verbose kinds paths)).stdout.toList =
          .ok report ∧
        shownFiles? report = some (files.map .of)) := by
  have hrun : ∀ json, run s (extractWords json verbose kinds paths) =
      (extract s json kinds paths).outcome verbose := fun json =>
    (run_extractWords known (fun path hpath => (given path hpath).file) json verbose).trans
      (if_neg hne)
  constructor
  · intro hunsupported
    obtain ⟨before, path, after, rfl, hbefore, hpath⟩ := exists_first_not_supported hunsupported
    refine ⟨before, path, after, rfl, hbefore, hpath, fun json => ?_⟩
    rw [hrun, extract_of_first_not_supported given hbefore hpath]
    rfl
  · intro supported files
    have hkept : ∀ f : FileExtraction, (keepKinds kinds f).filePath = f.filePath := by
      intro f
      rw [keepKinds]
      split <;> rfl
    obtain ⟨htext, report, hreport, hshown⟩ := extract_given given supported kinds verbose
    refine ⟨?_, ⟨files.map fileLines, forall₂_isSection_iff.mpr rfl, ?_⟩, report,
      by rw [hrun, hreport], hshown.trans ?_⟩
    · simp [files, givenFiles, Function.comp_def, hkept, FileExtraction.filePath_given]
    · rw [hrun, htext, sections]
    · rw [List.map_map]
      rfl

/-- A project with a source, and with a text that is none. -/
def mixedProject : Surroundings where
  volume :=
    { root := .directory [("work", .directory
        [("a.php", .file functionSource), ("notes.txt", .file functionSource)])],
      here := ["work"] }
  listing := .unavailable
  now := "2024-05-01T12:00:00Z"
  read := Php.outline

lemma given_mixedProject {path : String} (h : path ∈ ["a.php", "./a.php", "notes.txt"]) :
    Given mixedProject.read mixedProject.volume path := by
  have hfile : mixedProject.volume.locateText path = .ok (.file functionSource) := by
    simp only [List.mem_cons, List.not_mem_nil, or_false] at h
    rcases h with rfl | rfl | rfl <;> rfl
  have hrows : ∀ n ∈ (Php.outline functionSource).nodes, n.startPoint.row ≤ n.stopPoint.row := by
    decide +kernel
  exact .of_file hfile hrows

/-- The text ends an extraction of three files, and without it the source is shown twice. -/
theorem extract_mixedProject :
    (∀ json, ∃ log, run mixedProject (extractWords json false []
        ["a.php", "notes.txt", "./a.php"]) =
      { exitCode := 2, stdout := "", crash := none,
        stderr := log ++ "Error: Unsupported file type: notes.txt\n" }) ∧
    (run mixedProject (extractWords false false [] ["a.php", "./a.php"])).stdout =
      "=== a.php (1 concepts) ===\n  fn  f  a.php:1\n\n" ++
      "=== a.php (1 concepts) ===\n  fn  f  a.php:1\n" ∧
    ∃ report shown, Json.parse (run mixedProject (extractWords true false []
        ["a.php", "./a.php"])).stdout.toList = .ok report ∧
      shownFiles? report = some shown ∧ shown.map ShownFile.path = ["a.php", "a.php"] := by
  have hgiven : ∀ paths : List String, (∀ p ∈ paths, p ∈ ["a.php", "./a.php", "notes.txt"]) →
      ∀ p ∈ paths, Given mixedProject.read mixedProject.volume p :=
    fun _ hpaths p hp => given_mixedProject (hpaths p hp)
  have hsupported : ∀ p ∈ ["a.php", "./a.php"], Supported p := by decide +kernel
  have hnot : ¬ Supported "notes.txt" := by decide +kernel
  have hmessage : show_ ("Error: Unsupported file type: " ++ recordName "notes.txt") =
      "Error: Unsupported file type: notes.txt\n" := by decide +kernel
  constructor
  · intro json
    obtain ⟨hrefused, -⟩ := @extract_all_or_nothing mixedProject []
      ["a.php", "notes.txt", "./a.php"] (by simp) (by simp) (hgiven _ (by decide)) false
    obtain ⟨before, path, after, hsplit, hbefore, hpath, hrun⟩ :=
      hrefused ⟨"notes.txt", by simp, hnot⟩
    -- the text is the first file that has no extractor
    obtain rfl : path = "notes.txt" := by
      rcases before with _ | ⟨p, _ | ⟨q, rest⟩⟩
      · obtain rfl : "a.php" = path := (List.cons.inj hsplit).1
        exact absurd (hsupported _ (by simp)) hpath
      · simp only [List.cons_append, List.nil_append, List.cons.injEq] at hsplit
        exact hsplit.2.1.symm
      · simp only [List.cons_append, List.cons.injEq] at hsplit
        exact absurd (hbefore q (by simp)) (hsplit.2.1 ▸ hnot)
    exact ⟨_, (hrun json).trans (by rw [hmessage])⟩
  · obtain ⟨-, hshown⟩ := @extract_all_or_nothing mixedProject [] ["a.php", "./a.php"]
      (by simp) (by simp) (hgiven _ (by decide)) false
    obtain ⟨hpaths, ⟨shown, hsections, htext⟩, report, hreport, hentries⟩ := hshown hsupported
    refine ⟨?_, report, _, hreport, hentries, ?_⟩
    · rw [htext, forall₂_isSection_iff.mp hsections]
      decide +kernel
    · rw [List.map_map]
      exact hpaths.trans (by decide +kernel)

end Command

end PhpCatalog
