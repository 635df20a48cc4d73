/-
# Files that are given by their paths

A file that is given by a path is recorded under the path as it was given, less its empty names and
single dots and with slashes for backslashes.  The suffix of this record decides whether there is an
extractor (`Supported`); it is that of the path, unless the name of the file has a backslash
(`supported_iff_ofPath?`).

A file that has an extractor is cataloged to its end, whatever faults its nodes have
(`extractFile_of_supported`), and a file that has none ends the extraction under the name of its
record (`extractFile_of_not_supported`).
-/
import PhpCatalog.Proofs.Extraction.Isolation

namespace PhpCatalog

/-- The name that a file is recorded under when it is given by a path. -/
def recordName (path : String) : String :=
  forwardSlashes (Path.ofString path).text

/-- A path whose record has the suffix of a language. -/
def Supported (path : String) : Prop :=
  Language.ofPath? (recordName path) = some .php

instance (path : String) : Decidable (Supported path) :=
  inferInstanceAs (Decidable (_ = _))

/-! ### Where a path leads as it was written -/

/-- Leaving out names that stay in place makes no difference to a successful access. -/
lemma Entry.descend_filter {p : String → Bool}
    (hp : ∀ name, p name = false → name = "" ∨ name = ".")
    {above : List Entry} {here e : Entry} (front : List String) {names : List String}
    (h : descend above here (front ++ names) = .ok e) :
    descend above here (front ++ names.filter p) = .ok e := by
  induction front generalizing above here with
  | cons first rest ih =>
    rw [List.cons_append] at h ⊢
    rcases descend_cons_cases above here first with ⟨above', here', hstep⟩ | ⟨cause, hstep⟩
    · rw [hstep] at h ⊢
      exact ih h
    · simp [hstep] at h
  | nil =>
    rw [List.nil_append] at h ⊢
    induction names generalizing above here with
    | nil => exact h
    | cons name rest ih =>
      rcases hkept : p name with _ | _
      · -- only a directory can be followed further
        rw [List.filter_cons_of_neg (by simp [hkept])]
        cases here with
        | file bytes => simp [descend] at h
        | directory entries =>
          rw [descend_stay (hp name hkept)] at h
          exact ih h
      · rw [List.filter_cons_of_pos hkept]
        rcases descend_cons_cases above here name with ⟨above', here', hstep⟩ | ⟨cause, hstep⟩
        · rw [hstep] at h ⊢
          exact ih h
        · simp [hstep] at h

/-- Only the name of an entry leads to a file. -/
lemma Entry.isEntryName_of_descend {root : Entry} {names : List String} {name : String}
    {bytes : ByteArray} (h : descend [] root (names ++ [name]) = .ok (.file bytes)) :
    IsEntryName name := by
  obtain ⟨entries, hdirectory⟩ := isDirectory_of_descend_append h
  obtain ⟨above, hbefore⟩ := Trail.start.descend hdirectory
  obtain ⟨above', hfile⟩ := Trail.start.descend h
  rw [List.foldl_append, List.foldl_cons, List.foldl_nil] at hfile
  generalize names.foldl (Path.collapseStep true) [] = stack at hbefore hfile
  rcases name_cases name with hstay | rfl | hdown
  · rw [collapseStep_stay hstay] at hfile
    cases hbefore.at?_eq.symm.trans hfile.at?_eq
  · -- the name leads up to a directory, or stays at the root, which is one
    cases hbefore with
    | start => cases hfile.at?_eq
    | down before hname hfind =>
      rw [collapseStep_up hname] at hfile
      cases before.at?_eq.symm.trans hfile.at?_eq
  · exact hdown

namespace Volume

variable {v : Volume} {path : String}

lemma follow_of_locateText {e : Entry} (h : v.locateText path = .ok e) :
    v.follow (Anchor.ofText path.toList != .relative)
      ((splitSlashes path.toList).map String.ofList) = .ok e := by
  rw [locateText] at h
  split at h
  · cases h
  · exact h

/-- What a path leads to as it was written, it leads to as it is read. -/
lemma locate_of_locateText {e : Entry} (h : v.locateText path = .ok e) :
    v.locate (Path.ofString path) = .ok e := by
  have hstay : ∀ name : String, (name != "" && name != ".") = false → name = "" ∨ name = "." := by
    intro name hname
    simpa [or_iff_not_imp_left] using hname
  have hfollow := follow_of_locateText h
  rw [locate, Path.ofString, Path.partsOf]
  rw [follow] at hfollow ⊢
  split at hfollow
  · next hroot =>
    rw [if_pos hroot]
    exact Entry.descend_filter hstay [] hfollow
  · next hroot =>
    rw [if_neg hroot]
    exact Entry.descend_filter hstay v.here hfollow

/-- A path that leads to a file ends in the name of an entry. -/
lemma isEntryName_of_locateText {source : ByteArray} (h : v.locateText path = .ok (.file source)) :
    IsEntryName (lastName path) := by
  obtain ⟨dirs, hpieces⟩ := splitSlashes_eq_concat path.toList
  have hnames : (splitSlashes path.toList).map String.ofList =
      dirs.map String.ofList ++ [lastName path] := by
    rw [hpieces, List.map_append]
    rfl
  have hfollow := follow_of_locateText h
  rw [follow, hnames] at hfollow
  split at hfollow
  · exact Entry.isEntryName_of_descend hfollow
  · rw [← List.append_assoc] at hfollow
    exact Entry.isEntryName_of_descend hfollow

lemma read_of_locateText {source : ByteArray} (h : v.locateText path = .ok (.file source)) :
    v.read (Path.ofString path) = .ok source :=
  read_eq_ok_iff.mpr (locate_of_locateText h)

end Volume

/-- A path that is written with slashes for backslashes ends in its last name still, if that has
none of them. -/
lemma baseName_forwardSlashes {p : Path} {dirs : List String} {name : String}
    (hparts : p.parts = dirs ++ [name]) (hslash : '/' ∉ name.toList)
    (hbackslash : '\\' ∉ name.toList) :
    baseName (forwardSlashes p.text).toList = name.toList := by
  have hname : name.toList.map (fun c => if c = '\\' then '/' else c) = name.toList := by
    simpa [forwardSlashes] using congrArg String.toList (forwardSlashes_of_notMem hbackslash)
  have htext : p.text.toList = name.toList ∨ ∃ dir, p.text.toList = dir ++ '/' :: name.toList := by
    by_cases hdirs : dirs = []
    · obtain ⟨anchor, parts⟩ := p
      obtain rfl : parts = [name] := by simpa [hdirs] using hparts
      cases anchor with
      | relative => exact Or.inl (by simp [Path.text, Anchor.text])
      | root => exact Or.inr ⟨[], by simp [Path.text, Anchor.text]⟩
      | doubleRoot => exact Or.inr ⟨['/'], by simp [Path.text, Anchor.text]⟩
    · refine Or.inr ⟨(p.anchor.text ++ "/".intercalate dirs).toList, ?_⟩
      rw [Path.text, hparts, String.intercalate_append_of_ne_nil hdirs (by simp)]
      simp
  rw [forwardSlashes, String.toList_ofList]
  rcases htext with htext | ⟨dir, htext⟩
  · rw [htext, hname, baseName_of_notMem hslash]
  · rw [htext, List.map_append, List.map_cons, hname]
    exact baseName_append_slash _ hslash

/-- A file whose name has no backslash is recorded under a name with the suffix of its path. -/
theorem supported_iff_ofPath? {v : Volume} {path : String} {source : ByteArray}
    (h : v.locateText path = .ok (.file source)) (hbackslash : '\\' ∉ (lastName path).toList) :
    Supported path ↔ Language.ofPath? path = some .php := by
  obtain ⟨dirs, hparts⟩ := parts_ofString (Volume.isEntryName_of_locateText h)
  have hbase : baseName (recordName path).toList = baseName path.toList := by
    rw [recordName, baseName_forwardSlashes hparts (slash_notMem_lastName path) hbackslash,
      lastName, String.toList_ofList]
  rw [Supported, ofPath?_congr hbase]

/-! ### One file -/

/-- A path that leads to a file, in whose tree no node ends on an earlier row than it starts on. -/
structure Given (read : ByteArray → Node) (v : Volume) (path : String) : Prop where
  file : ∃ source, v.locateText path = .ok (.file source)
  rows : ∀ source, v.locateText path = .ok (.file source) →
    ∀ n ∈ (read source).nodes, n.startPoint.row ≤ n.stopPoint.row

lemma Given.of_file {read : ByteArray → Node} {v : Volume} {path : String} {source : ByteArray}
    (hfile : v.locateText path = .ok (.file source))
    (hrows : ∀ n ∈ (read source).nodes, n.startPoint.row ≤ n.stopPoint.row) :
    Given read v path where
  file := ⟨source, hfile⟩
  rows := by
    intro other hother
    obtain rfl : source = other := by simpa [hfile] using hother
    exact hrows

/-- What a file contributes under its record: all that the sites of its tree do. -/
def FileExtraction.ofSource (read : ByteArray → Node) (name : String) (source : ByteArray) :
    FileExtraction where
  filePath := name
  concepts := (Catalog.ofSites source name ((read source).preorder [])).concepts
  errors := (Catalog.ofSites source name ((read source).preorder [])).errors.map NodeFault.message

/-- What is extracted from the file that a path leads to. -/
def FileExtraction.given (read : ByteArray → Node) (v : Volume) (path : String) : FileExtraction :=
  match v.read (Path.ofString path) with
  | .ok source => .ofSource read (recordName path) source
  | .error _ => { filePath := recordName path }

lemma FileExtraction.filePath_given (read : ByteArray → Node) (v : Volume) (path : String) :
    (given read v path).filePath = recordName path := by
  rw [given]
  split <;> rfl

section OneFile

variable {read : ByteArray → Node} {v : Volume} {path : String}

lemma extractFile_of_supported (h : Given read v path) (supported : Supported path) :
    ∃ log, extractFile read v (Path.ofString path) none =
      .ok (.given read v path, log) := by
  obtain ⟨source, hfile⟩ := h.file
  obtain ⟨log, hsource⟩ := extractSource_eq supported (h.rows source hfile)
  refine ⟨log, ?_⟩
  simp only [extractFile, recordedPath, FileExtraction.given, Volume.read_of_locateText hfile]
  rw [← recordName, hsource]
  rfl

lemma extractFile_of_not_supported (h : Given read v path) (unsupported : ¬ Supported path) :
    extractFile read v (Path.ofString path) none =
      .error (.failure (.unsupportedFile (recordName path))) := by
  obtain ⟨source, hfile⟩ := h.file
  have hnone : Language.ofPath? (recordName path) = none := by
    rw [Option.eq_none_iff_forall_ne_some]
    rintro ⟨⟩ hlanguage
    exact unsupported hlanguage
  simp only [extractFile, recordedPath, Volume.read_of_locateText hfile]
  rw [← recordName]
  simp [extractSource, sourceLanguage, hnone, Except.mapError, SourceFault.abort]

end OneFile

end PhpCatalog
