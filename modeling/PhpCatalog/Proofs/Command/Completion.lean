/-
# Commands that complete

A command completes if it comes to show its results, with or without errors among them.  Whether it
does depends on what it finds, not on the form of its output (`completes_scan_iff`,
`completes_extract_iff`).  What it then shows is in good form, and its exit code is 6 if there are
errors and 0 if there are none (`exitCode_incomplete`).
-/
import PhpCatalog.Command.Run
import PhpCatalog.Proofs.Extraction.Concepts
import PhpCatalog.Proofs.Extraction.Recorded
import PhpCatalog.Proofs.Manifest.Namespaces

namespace PhpCatalog

/-! ### Ends with nothing shown -/

/-- An end that only says that the results before it are incomplete. -/
def Abort.IsPartial : Abort → Prop
  | .failure (.incomplete _) => True
  | _ => False

lemma SourceFault.not_isPartial (f : SourceFault) : ¬ f.abort.IsPartial := by
  cases f <;> exact id

section Files

variable {read : ByteArray → Node} {v : Volume} {e : Abort}

lemma not_isPartial_of_extractFile {path : Path} {root : Option Path}
    (h : extractFile read v path root = .error e) : ¬ e.IsPartial := by
  rcases hrecord : recordedPath v path root with e' | filePath
  · obtain rfl : e' = e := by simpa [extractFile, hrecord] using h
    cases root with
    | none => simp [recordedPath] at hrecord
    | some root =>
      obtain rfl := recordedPath_error hrecord
      exact id
  rcases hread : v.read path with f | source
  · obtain rfl : .crash (.access f) = e := by simpa [extractFile, hrecord, hread] using h
    exact id
  rcases hsource : extractSource read source filePath none with f | result
  · obtain rfl : f.abort = e := by
      simpa [extractFile, hrecord, hread, hsource, Except.mapError] using h
    exact f.not_isPartial
  · simp [extractFile, hrecord, hread, hsource, Except.mapError] at h

lemma not_isPartial_of_extractListed {root : Path} {path : String}
    (h : extractListed read v root path = .error e) : ¬ e.IsPartial := by
  rw [extractListed] at h
  split at h
  · cases h
  · exact not_isPartial_of_extractFile h

end Files

namespace Command

lemma not_isPartial_of_ofText {m : Json.Machine} {path : Path} {text : String} {e : Abort}
    (h : Settings.ofText m path text = .error e) : ¬ e.IsPartial := by
  rcases hread : m.read text.toList with (fault | l) | j
  · obtain rfl : .failure (.settings _) = e := by simpa [Settings.ofText, hread] using h
    exact id
  · obtain rfl : .crash (.limit l) = e := by simpa [Settings.ofText, hread] using h
    exact id
  · rcases hj : Settings.ofJson j with f | settings
    · obtain rfl : .failure (.settings f) = e := by
        simpa [Settings.ofText, hread, hj, Except.mapError] using h
      exact id
    · simp [Settings.ofText, hread, hj, Except.mapError] at h

lemma not_isPartial_of_settingsFor {m : Json.Machine} {v : Volume} {path : Path} {e : Abort}
    (h : settingsFor m v path = .error e) : ¬ e.IsPartial := by
  rw [settingsFor, Settings.load] at h
  generalize Settings.file _ = file at h
  rcases hprobe : v.probe file with f | (_ | entry)
  · obtain rfl : .crash (.access f) = e := by simpa [hprobe] using h
    exact id
  · simp [hprobe] at h
  · rcases hread : v.readText file with f | text
    · obtain rfl : .crash f.crash = e := by simpa [hprobe, hread] using h
      exact id
    · exact not_isPartial_of_ofText (by simpa [hprobe, hread] using h)

/-! ### What a command shows -/

lemma insightsFor_cases (m : Json.Machine) (v : Volume) (path : Path) :
    (∃ c, (insightsFor m v path).value = .error (.crash c)) ∨
      ∃ i, (insightsFor m v path).value = .ok i ∧ (i.namespaces.map Prod.fst).Nodup := by
  rcases hload : Manifest.load m v path with c | ⟨config, log⟩
  · exact Or.inl ⟨c, by simp [insightsFor, hload]⟩
  rcases hinsights : Manifest.insights (Manifest.projectRoot v (path.resolve v.here))
      (config.getD .null) with f | i
  · exact Or.inl ⟨.manifest f, by simp [insightsFor, hload, hinsights, Except.mapError]⟩
  · exact Or.inr ⟨i, by simp [insightsFor, hload, hinsights, Except.mapError],
      Manifest.nodup_namespaces_of_insights hinsights⟩

/-- A survey needs the settings, then the paths of the files, then every file, then the manifest. -/
lemma value_survey (s : Surroundings) (path : Path) :
    (survey s path).value =
      (settingsFor s.machine s.volume path).bind fun settings =>
        ((tryDiscover s.volume s.listing path settings).mapError Abort.crash).bind fun found =>
          (extractEach s.read s.volume path found).value.bind fun files =>
            (insightsFor s.machine s.volume path).value.map fun i => ⟨files, i⟩ := by
  rcases hsettings : settingsFor s.machine s.volume path with e | settings
  · simp [survey, hsettings, Except.bind]
  rcases hfound : tryDiscover s.volume s.listing path settings with c | found
  · simp [survey, hsettings, hfound, Except.bind, Except.mapError]
  have hfiles := value_extractFiles s.read s.volume path found
  rcases heach : (extractEach s.read s.volume path found).value with e | files <;>
    simp [survey, hsettings, hfound, Except.bind, Except.mapError, hfiles, heach]

/-- A survey ends with nothing to show, or what it found is in good form. -/
theorem survey_cases (s : Surroundings) (path : Path) :
    (∃ e, (survey s path).value = .error e ∧ ¬ e.IsPartial) ∨
      ∃ found, (survey s path).value = .ok found ∧ (∀ f ∈ found.files, f.Sound) ∧
        (found.insights.namespaces.map Prod.fst).Nodup := by
  rw [value_survey]
  -- each of the four stages may end the survey, and none of them with results to show
  rcases hsettings : settingsFor s.machine s.volume path with e | settings
  · exact Or.inl ⟨e, rfl, not_isPartial_of_settingsFor hsettings⟩
  rcases hfound : tryDiscover s.volume s.listing path settings with c | found
  · exact Or.inl ⟨.crash c, by simp [Except.bind, Except.mapError, hfound], id⟩
  rcases heach : (extractEach s.read s.volume path found).value with e | files
  · obtain ⟨file, -, herror⟩ := extractInTurn_eq_error heach
    exact Or.inl ⟨e, by simp [Except.bind, Except.mapError, hfound, heach],
      not_isPartial_of_extractListed herror⟩
  have hsound := sound_of_extractInTurn (fun _ _ _ => sound_of_extractListed) heach
  rcases insightsFor_cases s.machine s.volume path with ⟨c, hcrash⟩ | ⟨i, hinsights, hnames⟩
  · exact Or.inl
      ⟨.crash c, by simp [Except.bind, Except.map, Except.mapError, hfound, heach, hcrash], id⟩
  · exact Or.inr
      ⟨⟨files, i⟩, by simp [Except.bind, Except.map, Except.mapError, hfound, heach, hinsights],
        hsound, hnames⟩

/-- What a survey found is in good form. -/
lemma sound_of_survey {s : Surroundings} {path : Path} {found : Survey}
    (h : (survey s path).value = .ok found) :
    (∀ f ∈ found.files, f.Sound) ∧ (found.insights.namespaces.map Prod.fst).Nodup := by
  rcases survey_cases s path with ⟨e, hvalue, -⟩ | ⟨other, hvalue, hother⟩
  · rw [hvalue] at h
    cases h
  · obtain rfl : other = found := Except.ok.inj (hvalue.symm.trans h)
    exact hother

lemma not_isPartial_of_extractAll {s : Surroundings} {paths : List String} {e : Abort}
    (h : (extractAll s paths).value = .error e) : ¬ e.IsPartial := by
  obtain ⟨file, -, herror⟩ := extractInTurn_eq_error h
  exact not_isPartial_of_extractFile herror

/-- What an extraction shows is in good form, whichever kinds are asked for. -/
lemma sound_of_extractAll {s : Surroundings} {paths : List String} {files : List FileExtraction}
    (h : (extractAll s paths).value = .ok files) (kinds : List String) :
    ∀ f ∈ files.map (keepKinds kinds), f.Sound := by
  have hsound := sound_of_extractInTurn (fun _ _ _ => sound_of_extractFile) h
  intro f hf
  obtain ⟨g, hg, rfl⟩ := List.mem_map.mp hf
  rw [keepKinds]
  split
  · exact hsound g hg
  · exact fun c hc => hsound g hg c (List.mem_filter.mp hc).1

/-! ### Completion -/

/-- A command completes if nothing ends it before it shows its results. -/
def Work.Completes (w : Work) : Prop :=
  ∀ e, w.ended = some e → e.IsPartial

lemma isPartial_of_incomplete? {files : List FileExtraction} {e : Abort}
    (h : incomplete? files = some e) : e.IsPartial := by
  by_cases hnone : countErrors files = 0
  · simp [incomplete?, hnone] at h
  · obtain rfl : .failure (.incomplete (countErrors files)) = e := by
      simpa [incomplete?, hnone] using h
    exact trivial

/-- What is shown is printed however a command ends. -/
lemma stdout_outcome (verbose : Bool) (w : Work) :
    (w.outcome verbose).stdout = showAll w.shown := by
  rcases hended : w.ended with _ | f | c <;> simp [Work.outcome, hended]

/-- The exit code tells whether there are errors. -/
lemma exitCode_incomplete (verbose : Bool) (log : List Record) (shown : List String)
    (files : List FileExtraction) :
    (Work.outcome verbose { log, shown, ended := incomplete? files }).exitCode =
      if (0 : Int) < countErrors files then 6 else 0 := by
  rcases Nat.eq_zero_or_pos (countErrors files) with hnone | hsome
  · simp [incomplete?, hnone, Work.outcome]
  · have hne : countErrors files ≠ 0 := Nat.ne_of_gt hsome
    simp [incomplete?, hne, Work.outcome, Failure.exitCode, hsome]

/-- A survey is shown in either form. -/
lemma scan_of_survey {s : Surroundings} {path : String} {found : Survey}
    (h : (survey s (Path.ofString path)).value = .ok found) (json list : Bool) :
    scan s json list path =
      { log := (survey s (Path.ofString path)).log,
        shown := if json then [(found.toJson s.now list).canonical] else found.lines list,
        ended := incomplete? found.files } := by
  delta scan
  simp only [h]

/-- A scan completes if there is a survey to show. -/
theorem completes_scan_iff {s : Surroundings} {json list : Bool} {path : String} :
    (scan s json list path).Completes ↔
      ∃ found, (survey s (Path.ofString path)).value = .ok found := by
  constructor
  · intro h
    rcases survey_cases s (Path.ofString path) with ⟨e, hvalue, hpartial⟩ | ⟨found, hvalue, -⟩
    · have hended : (scan s json list path).ended = some e := by
        delta scan
        simp only [hvalue]
      exact absurd (h e hended) hpartial
    · exact ⟨found, hvalue⟩
  · rintro ⟨found, hvalue⟩ e hended
    rw [scan_of_survey hvalue] at hended
    exact isPartial_of_incomplete? hended

/-- The concepts of the kinds asked for are shown in either form. -/
lemma extract_of_extractAll {s : Surroundings} {paths : List String} {files : List FileExtraction}
    (h : (extractAll s paths).value = .ok files) (json : Bool) (kinds : List String) :
    extract s json kinds paths =
      { log := (extractAll s paths).log,
        shown := if json then [(extractJson s.now (files.map (keepKinds kinds))).canonical]
          else extractLines (files.map (keepKinds kinds)),
        ended := incomplete? (files.map (keepKinds kinds)) } := by
  rw [extract, h]

/-- An extraction completes if every file was read. -/
theorem completes_extract_iff {s : Surroundings} {json : Bool} {kinds paths : List String} :
    (extract s json kinds paths).Completes ↔ ∃ files, (extractAll s paths).value = .ok files := by
  constructor
  · intro h
    rcases hvalue : (extractAll s paths).value with e | files
    · have hended : (extract s json kinds paths).ended = some e := by
        rw [extract, hvalue]
      exact absurd (h e hended) (not_isPartial_of_extractAll hvalue)
    · exact ⟨files, rfl⟩
  · rintro ⟨files, hvalue⟩ e hended
    rw [extract_of_extractAll hvalue] at hended
    exact isPartial_of_incomplete? hended

end Command

end PhpCatalog
