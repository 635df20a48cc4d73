/-
# A filter by kind only filters

Asking for kinds leaves concepts out of what an extraction shows and changes nothing else: each file
keeps its section and its errors, and the exit code and the log are the same.  What is left of a
file are its concepts of these kinds, in their order; so only the set of the kinds matters, and
since the type of every concept is a kind, asking for all kinds is asking for none
(`kinds_only_filter`).
-/
import PhpCatalog.Proofs.Command.Requests
import PhpCatalog.Proofs.Command.Sections

namespace PhpCatalog.Command

/-- An entry with the concepts of some kinds only. -/
def ShownFile.ofKinds (kinds : List String) (f : ShownFile) : ShownFile :=
  { f with concepts := f.concepts.filter fun c => (c.textAt? "concept_type").any (· ∈ kinds) }

/-! ### One file -/

section OneFile

variable {kinds : List String} {f : FileExtraction}

lemma keepKinds_eq (h : kinds ≠ []) :
    keepKinds kinds f =
      { f with concepts := f.concepts.filter fun c => kinds.contains c.conceptType } := by
  have hne : kinds.isEmpty = false := by simpa using h
  simp [keepKinds, hne]

lemma errors_keepKinds : (keepKinds kinds f).errors = f.errors := by
  rw [keepKinds]
  split <;> rfl

/-- Only the set of the kinds matters. -/
lemma keepKinds_congr {others : List String} (h : ∀ kind, kind ∈ others ↔ kind ∈ kinds) :
    keepKinds others = keepKinds kinds := by
  have hempty : others.isEmpty = kinds.isEmpty := by
    rw [Bool.eq_iff_iff, List.isEmpty_iff, List.isEmpty_iff, List.eq_nil_iff_forall_not_mem,
      List.eq_nil_iff_forall_not_mem]
    simp [h]
  have hcontains : ∀ kind, others.contains kind = kinds.contains kind := by
    intro kind
    rw [Bool.eq_iff_iff, List.contains_iff_mem, List.contains_iff_mem, h]
  funext f
  simp only [keepKinds, hempty, hcontains]

/-- The type of every concept is a kind. -/
lemma keepKinds_of_all (hf : f.Sound) (hall : ∀ kind ∈ conceptTypes, kind ∈ kinds) :
    keepKinds kinds f = f := by
  have hkept : f.concepts.filter (fun c => kinds.contains c.conceptType) = f.concepts := by
    rw [List.filter_eq_self]
    intro c hc
    obtain ⟨site, hsite⟩ := hf c hc
    simpa using hall _ hsite.type_mem
  rw [keepKinds, hkept]
  split <;> rfl

/-- The entry of a file has its concepts of some kinds, where these are asked for. -/
lemma shownFile_keepKinds (hf : f.Sound) (h : kinds ≠ []) :
    ShownFile.of (keepKinds kinds f) = (ShownFile.of f).ofKinds kinds := by
  have htype : ∀ c ∈ f.concepts,
      ((c.toJson.sortKeys).textAt? "concept_type").any (· ∈ kinds) =
        kinds.contains c.conceptType := by
    intro c hc
    obtain ⟨site, hsite⟩ := hf c hc
    have hmember : c.toJson.textAt? "concept_type" = some c.conceptType := rfl
    rw [Json.textAt?_sortKeys (wellFormed_concept hsite), hmember]
    simp
  have hfilter : (f.concepts.map fun c => c.toJson.sortKeys).filter
      (fun c => (c.textAt? "concept_type").any (· ∈ kinds)) =
        (f.concepts.filter fun c => kinds.contains c.conceptType).map fun c =>
          c.toJson.sortKeys := by
    rw [List.filter_map]
    exact congrArg _ (List.filter_congr htype)
  rw [keepKinds_eq h, ShownFile.ofKinds, ShownFile.of, ShownFile.of, hfilter]

end OneFile

/-! ### All files -/

section Files

variable {s : Surroundings} {kinds paths : List String}

lemma incomplete?_keepKinds (kinds : List String) (files : List FileExtraction) :
    incomplete? (files.map (keepKinds kinds)) = incomplete? files := by
  have hcount : countErrors (files.map (keepKinds kinds)) = countErrors files := by
    simp only [countErrors, List.map_map, Function.comp_def, errors_keepKinds]
  rw [incomplete?, hcount, incomplete?]

/-- What is said of an end does not depend on what is shown. -/
lemma outcome_congr {w w' : Work} (hlog : w.log = w'.log) (hended : w.ended = w'.ended)
    (verbose : Bool) :
    (w.outcome verbose).exitCode = (w'.outcome verbose).exitCode ∧
      (w.outcome verbose).stderr = (w'.outcome verbose).stderr ∧
      (w.outcome verbose).crash = (w'.outcome verbose).crash := by
  simp only [Work.outcome, hlog, hended]
  rcases w'.ended with _ | f | c <;> exact ⟨rfl, rfl, rfl⟩

/-- With kinds or without, an extraction ends in the same way. -/
lemma extract_ends_alike (kinds : List String) (json : Bool) :
    (extract s json kinds paths).log = (extract s json [] paths).log ∧
      (extract s json kinds paths).ended = (extract s json [] paths).ended := by
  rcases hvalue : (extractAll s paths).value with e | files
  · simp [extract, hvalue]
  · rw [extract_of_extractAll hvalue, extract_of_extractAll hvalue]
    simp only [incomplete?_keepKinds, and_self]

lemma extract_congr {others : List String} (h : ∀ kind, kind ∈ others ↔ kind ∈ kinds)
    (json : Bool) : extract s json others paths = extract s json kinds paths := by
  rw [extract, extract, keepKinds_congr h]

/-- Asking for all kinds is asking for none. -/
lemma extract_of_all (hall : ∀ kind ∈ conceptTypes, kind ∈ kinds) (json : Bool) :
    extract s json kinds paths = extract s json [] paths := by
  rcases hvalue : (extractAll s paths).value with e | files
  · simp [extract, hvalue]
  · have hsound := sound_of_extractAll hvalue []
    have hkept : files.map (keepKinds kinds) = files.map (keepKinds []) :=
      List.map_congr_left fun f hf =>
        keepKinds_of_all (hsound f (List.mem_map.mpr ⟨f, hf, rfl⟩)) hall
    rw [extract_of_extractAll hvalue, extract_of_extractAll hvalue, hkept]

/-- With kinds, each file shows those of its concepts that it shows without. -/
lemma extract_filtered (given : ∀ path ∈ paths, Given s.read s.volume path)
    (supported : ∀ path ∈ paths, Supported path) (hne : kinds ≠ []) (verbose : Bool) :
    (∃ report report',
      Json.parse ((extract s true [] paths).outcome verbose).stdout.toList = .ok report ∧
      Json.parse ((extract s true kinds paths).outcome verbose).stdout.toList = .ok report' ∧
      shownFiles? report = some ((givenFiles s paths).map .of) ∧
      shownFiles? report' = (shownFiles? report).map fun shown =>
        shown.map (·.ofKinds kinds)) ∧
    ((extract s false [] paths).outcome verbose).stdout = sections (givenFiles s paths) ∧
    ((extract s false kinds paths).outcome verbose).stdout =
      sections ((givenFiles s paths).map fun f =>
        { f with concepts := f.concepts.filter fun c => kinds.contains c.conceptType }) := by
  have hsound : ∀ f ∈ givenFiles s paths, f.Sound := fun f hf =>
    sound_of_extractAll (extractAll_given given supported) [] f (List.mem_map.mpr ⟨f, hf, rfl⟩)
  obtain ⟨htext, report, hreport, hshown⟩ := extract_given given supported [] verbose
  obtain ⟨htext', report', hreport', hshown'⟩ := extract_given given supported kinds verbose
  refine ⟨⟨report, report', hreport, hreport', hshown, hshown'.trans ?_⟩, htext.trans ?_,
    htext'.trans ?_⟩
  · rw [hshown, Option.map_some, List.map_map]
    exact congrArg some (List.map_congr_left fun f hf => shownFile_keepKinds (hsound f hf) hne)
  · exact congrArg sections (List.map_id _)
  · exact congrArg sections (List.map_congr_left fun f _ => keepKinds_eq hne)

end Files

/-! ### The filter -/

variable {s : Surroundings} {kinds paths : List String}

/-- **A filter by kind only filters.**  Let some paths lead to files with an extractor.

* Each file of the report has the path and the errors that it has without kinds, and of its concepts
  those of the kinds, in their order; and so has its section of the text.
* The exit code and the log are those without kinds.
* What is asked for is a set: other kinds that are the same ones, in any order and number, have the
  same outcome.
* Asking for all kinds has the outcome of asking for none. -/
theorem kinds_only_filter (known : ∀ kind ∈ kinds, kind ∈ conceptTypes) (hne : kinds ≠ [])
    (given : ∀ path ∈ paths, Given s.read s.volume path)
    (supported : ∀ path ∈ paths, Supported path) (verbose : Bool) :
    let full json := run s (extractWords json verbose [] paths)
    let filtered json := run s (extractWords json verbose kinds paths)
    (paths ≠ [] →
      (∃ report report', Json.parse (full true).stdout.toList = .ok report ∧
        Json.parse (filtered true).stdout.toList = .ok report' ∧
        shownFiles? report = some ((givenFiles s paths).map .of) ∧
        shownFiles? report' = (shownFiles? report).map fun shown =>
          shown.map (·.ofKinds kinds)) ∧
      (full false).stdout = sections (givenFiles s paths) ∧
      (filtered false).stdout = sections ((givenFiles s paths).map fun f =>
        { f with concepts := f.concepts.filter fun c => kinds.contains c.conceptType })) ∧
    (∀ json, (filtered json).exitCode = (full json).exitCode ∧
      (filtered json).stderr = (full json).stderr ∧ (filtered json).crash = (full json).crash) ∧
    (∀ others, (∀ kind, kind ∈ others ↔ kind ∈ kinds) →
      ∀ json, run s (extractWords json verbose others paths) = filtered json) ∧
    ((∀ kind ∈ conceptTypes, kind ∈ kinds) → ∀ json, filtered json = full json) := by
  intro full filtered
  have hnone : ∀ kind ∈ ([] : List String), kind ∈ conceptTypes := by simp
  have hrun : ∀ others : List String, (∀ kind ∈ others, kind ∈ conceptTypes) → ∀ json,
      run s (extractWords json verbose others paths) =
        if paths = [] then (Refusal.usage .noPaths).outcome
        else (extract s json others paths).outcome verbose := fun others hothers json =>
    run_extractWords hothers (fun path hpath => (given path hpath).file) json verbose
  refine ⟨fun hpaths => ?_, fun json => ?_, fun others hsame json => ?_, fun hall json => ?_⟩
  · simp only [full, filtered, hrun _ hnone, hrun _ known, if_neg hpaths]
    exact extract_filtered given supported hne verbose
  · simp only [full, filtered, hrun _ hnone, hrun _ known]
    split
    · exact ⟨rfl, rfl, rfl⟩
    · obtain ⟨hlog, hended⟩ := @extract_ends_alike s paths kinds json
      exact outcome_congr hlog hended verbose
  · simp only [filtered, hrun _ fun kind hkind => known kind ((hsame kind).mp hkind), hrun _ known,
      extract_congr hsame]
  · simp only [full, filtered, hrun _ hnone, hrun _ known, extract_of_all hall]

/-- The bytes of `<?php class A {} function f() {}`. -/
def pairSource : ByteArray :=
  ⟨#[60, 63, 112, 104, 112, 32, 99, 108, 97, 115, 115, 32, 65, 32, 123, 125, 32, 102,
    117, 110, 99, 116, 105, 111, 110, 32, 102, 40, 41, 32, 123, 125]⟩

/-- A project with this source. -/
def pairProject : Surroundings where
  volume :=
    { root := .directory [("work", .directory [("a.php", .file pairSource)])], here := ["work"] }
  listing := .unavailable
  now := "2024-05-01T12:00:00Z"
  read := Php.outline

/-- Asking for functions shows the function and not the class.  Asking twice makes no difference,
and neither does asking for all kinds. -/
theorem extract_pairProject :
    (run pairProject (extractWords false false ["function"] ["a.php"])).stdout =
      "=== a.php (1 concepts) ===\n  fn  f  a.php:1\n" ∧
    (∀ json, run pairProject (extractWords json false ["function", "function"] ["a.php"]) =
      run pairProject (extractWords json false ["function"] ["a.php"])) ∧
    ∀ json, run pairProject (extractWords json false conceptTypes ["a.php"]) =
      run pairProject (extractWords json false [] ["a.php"]) := by
  have hrows : ∀ n ∈ (Php.outline pairSource).nodes, n.startPoint.row ≤ n.stopPoint.row := by
    decide +kernel
  have hfile : pairProject.volume.locateText "a.php" = .ok (.file pairSource) := rfl
  have hgiven : ∀ path ∈ ["a.php"], Given pairProject.read pairProject.volume path :=
    List.forall_mem_singleton.mpr (.of_file hfile hrows)
  have hsupported : ∀ path ∈ ["a.php"], Supported path := by decide +kernel
  obtain ⟨hshown, -, hset, -⟩ := @kinds_only_filter pairProject ["function"] ["a.php"]
    (by decide) (by decide) hgiven hsupported false
  obtain ⟨-, -, -, hall⟩ := @kinds_only_filter pairProject conceptTypes ["a.php"]
    (by decide) (by decide) hgiven hsupported false
  refine ⟨?_, hset ["function", "function"] (by simp), hall (by simp)⟩
  obtain ⟨-, -, htext⟩ := hshown (by simp)
  exact htext.trans (by decide +kernel)

end PhpCatalog.Command
