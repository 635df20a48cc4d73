/-
# The figures of a report add up

A report states how many files, concepts and errors there are, and shows them one by one.  Both are
read here from the printed text: the figures of its summary are the numbers of what it shows
(`AddsUp`), the concepts by type add up to all of them (`CountsByType`), and the exit code says
whether there are errors.
-/
import Mathlib.Algebra.BigOperators.Group.List.Lemmas
import Mathlib.Algebra.BigOperators.Ring.Finset
import PhpCatalog.Php.Outline
import PhpCatalog.Proofs.Command.Completion
import PhpCatalog.Proofs.Command.Report
import PhpCatalog.Proofs.Discovery.Discover

namespace PhpCatalog

/-! ### Reading a report -/

namespace Json

/-- The whole number that a member is. -/
def intAt? (j : Json) (name : String) : Option Int :=
  (j.get? name).bind fun
    | .int n => some n
    | _ => none

/-- The items of a member that is an array. -/
def itemsAt? (j : Json) (name : String) : Option (List Json) :=
  (j.get? name).bind fun
    | .arr items => some items
    | _ => none

lemma intAt?_sortKeys {j : Json} (h : WellFormed j) (name : String) :
    j.sortKeys.intAt? name = j.intAt? name := by
  rw [intAt?, intAt?, get?_sortKeys h]
  cases j.get? name with
  | none => rfl
  | some member => cases member <;> simp [sortKeys]

lemma itemsAt?_sortKeys {j : Json} (h : WellFormed j) (name : String) :
    j.sortKeys.itemsAt? name = (j.itemsAt? name).map (List.map sortKeys) := by
  rw [itemsAt?, itemsAt?, get?_sortKeys h]
  cases j.get? name with
  | none => rfl
  | some member => cases member <;> simp [sortKeys, sortKeysItems_eq_map]

lemma WellFormed.of_get? {j member : Json} (h : WellFormed j) {name : String}
    (hget : j.get? name = some member) : WellFormed member := by
  cases h with
  | obj names each => exact each (name, member) ((lookup_eq_some_iff names).mp hget)
  | _ => simp [get?] at hget

lemma WellFormed.of_itemsAt? {j : Json} (h : WellFormed j) {name : String} {items : List Json}
    (hitems : j.itemsAt? name = some items) {item : Json} (hitem : item ∈ items) :
    WellFormed item := by
  obtain ⟨member, hget, harr⟩ := Option.bind_eq_some_iff.mp hitems
  have hmember := h.of_get? hget
  cases hmember with
  | arr each =>
    obtain rfl := Option.some.inj harr
    exact each item hitem
  | _ => cases harr

end Json

namespace Command

open Json (WellFormed)

/-- The figures in the summary of a report. -/
structure Figures where
  files : Int
  concepts : Int
  errors : Int
  deriving Repr, DecidableEq

/-- The figures of some files. -/
def Figures.of (files : List FileExtraction) : Figures :=
  ⟨files.length, countConcepts files, countErrors files⟩

/-- The figures that a report states, if it states them all. -/
def figures? (report : Json) : Option Figures :=
  (report.get? "summary").bind fun summary =>
    (summary.intAt? "files").bind fun files =>
      (summary.intAt? "concepts").bind fun concepts =>
        (summary.intAt? "errors").map fun errors => ⟨files, concepts, errors⟩

/-- How many items a file has under a name. -/
def shownAt? (name : String) (entry : Json) : Option Int :=
  (entry.itemsAt? name).map fun items => items.length

/-- A report states the figures of the files it shows; `count?` tells how many concepts a file
has. -/
def AddsUp (report : Json) (count? : Json → Option Int) (f : Figures) : Prop :=
  figures? report = some f ∧
  ∃ entries, report.itemsAt? "files" = some entries ∧
    f.files = entries.length ∧
    (entries.mapM count?).map List.sum = some f.concepts ∧
    (entries.mapM (shownAt? "errors")).map List.sum = some f.errors

/-! ### Figures and what they are figures of -/

lemma figures?_sortKeys {report : Json} (h : WellFormed report) :
    figures? report.sortKeys = figures? report := by
  rw [figures?, figures?, Json.get?_sortKeys h]
  rcases hsummary : report.get? "summary" with _ | summary
  · rfl
  · simp [Json.intAt?_sortKeys (h.of_get? hsummary)]

lemma shownAt?_sortKeys (name : String) {entry : Json} (h : WellFormed entry) :
    shownAt? name entry.sortKeys = shownAt? name entry := by
  simp [shownAt?, Json.itemsAt?_sortKeys h, Function.comp_def]

lemma mapM_map_of_forall {α β : Type} {items : List α} {entry : α → Json} {read? : Json → Option β}
    {n : α → β} (h : ∀ a ∈ items, read? (entry a) = some (n a)) :
    (items.map entry).mapM read? = some (items.map n) := by
  induction items with
  | nil => rfl
  | cons a rest ih =>
    rw [List.forall_mem_cons] at h
    rw [List.map_cons, List.mapM_cons, h.1, ih h.2]
    rfl

/-- Numbers that are read from some entries, whatever the order of their members, are added up. -/
lemma sum_mapM_sortKeys {files : List FileExtraction} {entry : FileExtraction → Json}
    (hentry : ∀ f ∈ files, WellFormed (entry f)) {read? : Json → Option Int}
    (hkept : ∀ {j : Json}, WellFormed j → read? j.sortKeys = read? j) {n : FileExtraction → Nat}
    (hread : ∀ f, read? (entry f) = some (n f : Int)) :
    ((files.map fun f => (entry f).sortKeys).mapM read?).map List.sum =
      some (((files.map n).foldl (· + ·) 0 : Nat) : Int) := by
  have hsorted : ∀ f ∈ files, read? (entry f).sortKeys = some (n f : Int) :=
    fun f hf => (hkept (hentry f hf)).trans (hread f)
  rw [mapM_map_of_forall hsorted, Option.map_some, ← List.sum_eq_foldl, Nat.cast_list_sum,
    List.map_map]
  rfl

/-- A report adds up, with its members in order, if its summary has the figures of the files and the
entry of each file has its number of concepts and its errors. -/
lemma addsUp_sortKeys {report : Json} (hreport : WellFormed report) {files : List FileExtraction}
    {entry : FileExtraction → Json} {count? : Json → Option Int}
    (hfigures : figures? report = some (.of files))
    (hfiles : report.itemsAt? "files" = some (files.map entry))
    (hkept : ∀ {j : Json}, WellFormed j → count? j.sortKeys = count? j)
    (hcount : ∀ f, count? (entry f) = some (f.concepts.length : Int))
    (herrors : ∀ f, shownAt? "errors" (entry f) = some (f.errors.length : Int)) :
    AddsUp report.sortKeys count? (.of files) := by
  have hentry : ∀ f ∈ files, WellFormed (entry f) := fun f hf =>
    hreport.of_itemsAt? hfiles (List.mem_map_of_mem hf)
  refine ⟨(figures?_sortKeys hreport).trans hfigures, files.map fun f => (entry f).sortKeys, ?_, ?_,
    sum_mapM_sortKeys hentry hkept hcount,
    sum_mapM_sortKeys hentry (shownAt?_sortKeys "errors") herrors⟩
  · rw [Json.itemsAt?_sortKeys hreport, hfiles, Option.map_some, List.map_map]
    rfl
  · simp [Figures.of]

/-! ### Concepts by type -/

/-- Counts of concepts by type: each type has one count, that of its concepts, and all together are
the number of concepts. -/
structure CountsByType (counts : List (String × Nat)) (concepts : List Concept) : Prop where
  distinct : (counts.map Prod.fst).Nodup
  known : ∀ c ∈ counts, c.1 ∈ conceptTypes
  number : ∀ c ∈ counts, c.2 = concepts.countP fun concept => concept.conceptType == c.1
  total : (counts.map Prod.snd).sum = concepts.length

lemma Survey.length_concepts (s : Survey) : s.concepts.length = countConcepts s.files := by
  rw [concepts, List.length_flatMap, countConcepts, List.sum_eq_foldl]

lemma Survey.sum_counts (s : Survey) : (s.counts.map Prod.snd).sum = s.concepts.length := by
  -- the types that are counted are all that occur, each of them once
  have hperm : (Text.sortDistinct (s.concepts.map Concept.conceptType)).Perm
      (s.concepts.map Concept.conceptType).dedup := by
    refine (List.perm_ext_iff_of_nodup (Text.nodup_sortDistinct _) (List.nodup_dedup _)).mpr ?_
    intro t
    rw [Text.mem_sortDistinct, List.mem_dedup]
  have hsum := (hperm.map fun t => (s.concepts.map Concept.conceptType).count t).sum_eq
  rw [List.sum_map_count_dedup_eq_length, List.length_map] at hsum
  rw [← hsum, counts, List.map_map]
  rfl

lemma Survey.total_eq (s : Survey) : s.total = countConcepts s.files := by
  rw [total, ← List.sum_eq_foldl, sum_counts, length_concepts]

lemma Survey.countsByType_counts {s : Survey} (h : ∀ f ∈ s.files, f.Sound) :
    CountsByType s.counts s.concepts where
  distinct := s.keys_counts ▸ Text.nodup_sortDistinct _
  known := by
    intro c hc
    have hkey : c.1 ∈ s.counts.map Prod.fst := List.mem_map_of_mem hc
    rw [keys_counts, Text.mem_sortDistinct] at hkey
    obtain ⟨concept, hconcept, heq⟩ := List.mem_map.mp hkey
    obtain ⟨f, hf, hmem⟩ := List.mem_flatMap.mp hconcept
    obtain ⟨site, hsite⟩ := h f hf concept hmem
    exact heq ▸ hsite.type_mem
  number := by
    intro c hc
    obtain ⟨t, -, rfl⟩ := List.mem_map.mp hc
    simp [List.count, List.countP_map, Function.comp_def]
  total := s.sum_counts

/-- Counts in the order of their types stay as they are. -/
lemma sortKeys_counts {counts : List (String × Nat)}
    (h : (counts.map Prod.fst).Pairwise (· ≤ ·)) :
    Json.sortKeys (.obj (counts.map fun c => (c.1, .int c.2))) =
      .obj (counts.map fun c => (c.1, .int c.2)) := by
  have hvalues : (counts.map fun c => (c.1, Json.int c.2)).map (fun m => (m.1, m.2.sortKeys)) =
      counts.map fun c => (c.1, Json.int c.2) := by
    simp [Json.sortKeys]
  rw [Json.sortKeys, Json.sortKeysMembers_eq_map, hvalues, List.mergeSort_of_pairwise]
  rw [List.pairwise_map] at h ⊢
  refine h.imp fun hle => ?_
  rw [Bool.not_eq_true', decide_eq_false_iff_not]
  exact String.not_lt.mpr hle

/-! ### The report of a scan -/

section Scan

variable {now : String} {list : Bool} {s : Survey}

lemma Survey.addsUp_toJson (h : WellFormed (s.toJson now list)) :
    AddsUp (s.toJson now list).sortKeys (·.intAt? "concept_count") (.of s.files) := by
  have hfigures : figures? (s.toJson now list) = some (.of s.files) := by
    simp [toJson_eq, figures?, Json.get?, Json.lookup, summary, Json.intAt?, Figures.of, total_eq]
  have hfiles : (s.toJson now list).itemsAt? "files" = some (s.files.map surveyEntry) := by
    simp [toJson_eq, Json.itemsAt?, Json.get?, Json.lookup]
  refine addsUp_sortKeys h hfigures hfiles (fun hentry => Json.intAt?_sortKeys hentry _) ?_ ?_
  · intro f
    rfl
  · intro f
    simp [shownAt?, surveyEntry, Json.itemsAt?, Json.get?, Json.lookup]

lemma Survey.get?_kinds (h : WellFormed (s.toJson now list)) :
    (s.toJson now list).sortKeys.get? "kinds" =
      some (.obj (s.counts.map fun c => (c.1, .int c.2))) := by
  have hkinds : (s.toJson now list).get? "kinds" =
      some (.obj (s.counts.map fun c => (c.1, .int c.2))) := by
    simp [toJson_eq, Json.get?, Json.lookup]
  rw [Json.get?_sortKeys h, hkinds, Option.map_some, sortKeys_counts]
  exact s.keys_counts ▸ Text.pairwise_sortTexts _

lemma Survey.length_itemsAt?_concepts (h : WellFormed (s.toJson now true)) :
    ((s.toJson now true).sortKeys.itemsAt? "concepts").map List.length =
      some (countConcepts s.files) := by
  have hconcepts : (s.toJson now true).itemsAt? "concepts" =
      some (s.concepts.map Concept.toJson) := by
    simp [toJson_eq, Json.itemsAt?, Json.get?, Json.lookup]
  simp [Json.itemsAt?_sortKeys h, hconcepts, s.length_concepts]

end Scan

/-! ### The report of an extraction -/

lemma addsUp_extractJson {now : String} {files : List FileExtraction}
    (h : WellFormed (extractJson now files)) :
    AddsUp (extractJson now files).sortKeys (shownAt? "concepts") (.of files) := by
  have hfigures : figures? (extractJson now files) = some (.of files) := by
    simp [extractJson_eq, figures?, Json.get?, Json.lookup, extractSummary, Json.intAt?, Figures.of]
  have hfiles : (extractJson now files).itemsAt? "files" = some (files.map extractEntry) := by
    simp [extractJson_eq, Json.itemsAt?, Json.get?, Json.lookup]
  refine addsUp_sortKeys h hfigures hfiles (shownAt?_sortKeys "concepts") ?_ ?_
  · intro f
    simp [shownAt?, extractEntry, Json.itemsAt?, Json.get?, Json.lookup]
  · intro f
    simp [shownAt?, extractEntry, Json.itemsAt?, Json.get?, Json.lookup]

/-! ### Both commands -/

/-- **The reports of both commands add up.**  Whatever a command finds around it: if it completes,
in either form of output, then the JSON it prints states the figures of what it shows, and its exit
code is 6 or 0, for errors or none, in both forms. -/
theorem reports_add_up (s : Surroundings) (verbose : Bool) :
    (∀ json list path, (scan s json list path).Completes →
      ∃ found report counts f, (survey s (Path.ofString path)).value = .ok found ∧
        f = Figures.of found.files ∧
        Json.parse ((scan s true list path).outcome verbose).stdout.toList = .ok report ∧
        AddsUp report (·.intAt? "concept_count") f ∧
        report.get? "kinds" = some (.obj (counts.map fun c => (c.1, .int c.2))) ∧
        CountsByType counts found.concepts ∧ (counts.map Prod.snd).sum = f.concepts ∧
        (list = true → ∃ shown, report.itemsAt? "concepts" = some shown ∧
          shown.length = f.concepts) ∧
        ∀ json, ((scan s json list path).outcome verbose).exitCode =
          if 0 < f.errors then 6 else 0) ∧
    ∀ json kinds paths, (extract s json kinds paths).Completes →
      ∃ files report f, (extractAll s paths).value = .ok files ∧
        f = Figures.of (files.map (keepKinds kinds)) ∧
        Json.parse ((extract s true kinds paths).outcome verbose).stdout.toList = .ok report ∧
        AddsUp report (shownAt? "concepts") f ∧
        ∀ json, ((extract s json kinds paths).outcome verbose).exitCode =
          if 0 < f.errors then 6 else 0 := by
  constructor
  · intro json list path h
    obtain ⟨found, hvalue⟩ := completes_scan_iff.mp h
    obtain ⟨hsound, hnames⟩ := sound_of_survey hvalue
    have hreport := found.wellFormed_toJson s.now list hsound hnames
    refine ⟨found, (found.toJson s.now list).sortKeys, found.counts, _, hvalue, rfl, ?_,
      Survey.addsUp_toJson hreport, Survey.get?_kinds hreport,
      Survey.countsByType_counts hsound, ?_, ?_, ?_⟩
    · -- the text is read back as the report with its members in order
      rw [stdout_outcome, scan_of_survey hvalue, if_pos rfl]
      exact parse_showAll hreport
    · rw [found.sum_counts, found.length_concepts]
      rfl
    · rintro rfl
      obtain ⟨shown, hshown, hlength⟩ :=
        Option.map_eq_some_iff.mp (Survey.length_itemsAt?_concepts hreport)
      exact ⟨shown, hshown, congrArg Nat.cast hlength⟩
    · intro json
      rw [scan_of_survey hvalue]
      exact exitCode_incomplete verbose _ _ _
  · intro json kinds paths h
    obtain ⟨files, hvalue⟩ := completes_extract_iff.mp h
    have hreport := wellFormed_extractJson s.now (sound_of_extractAll hvalue kinds)
    refine ⟨files, _, _, hvalue, rfl, ?_, addsUp_extractJson hreport, ?_⟩
    · rw [stdout_outcome, extract_of_extractAll hvalue, if_pos rfl]
      exact parse_showAll hreport
    · intro json
      rw [extract_of_extractAll hvalue]
      exact exitCode_incomplete verbose _ _ _

/-- The bytes of `<?php class A {}`. -/
def classSource : ByteArray :=
  ⟨#[60, 63, 112, 104, 112, 32, 99, 108, 97, 115, 115, 32, 65, 32, 123, 125]⟩

/-- A project with a source, and with a directory that is listed like one. -/
def nestedProject : Surroundings where
  volume :=
    { root := .directory
        [("work", .directory [("a.php", .file classSource), ("b.php", .directory [])])],
      here := ["work"] }
  listing := .output 0 "a.php\nb.php\n"
  now := "2024-05-01T12:00:00Z"
  read := Php.outline

lemma extractFile_nestedProject {path : Path} {root : Option Path}
    (hrecord : recordedPath nestedProject.volume path root = .ok "a.php")
    (hread : nestedProject.volume.read path = .ok classSource) :
    ∃ f log, extractFile nestedProject.read nestedProject.volume path root = .ok (f, log) ∧
      f.concepts.map Concept.conceptType = ["class"] ∧ f.errors = [] := by
  have hright : ∀ s ∈ (Php.outline classSource).preorder [],
      s.wrongLines? classSource "a.php" = none := by
    decide +kernel
  have hwalk := Catalog.walkOnto_of_forall_none classSource "a.php" [] hright
  have hlanguage : sourceLanguage "a.php" none = .ok .php := by decide +kernel
  rw [extractFile, hrecord, hread]
  simp only [extractSource, hlanguage, nestedProject, Catalog.walk, hwalk, Except.mapError]
  exact ⟨_, _, rfl, by decide +kernel, by decide +kernel⟩

lemma survey_nestedProject :
    ∃ f, (survey nestedProject (Path.ofString ".")).value =
        .ok ⟨[f, ⟨"b.php", [], ["b.php: [Errno 21] Is a directory: 'b.php'"]⟩], {}⟩ ∧
      f.concepts.map Concept.conceptType = ["class"] ∧ f.errors = [] := by
  have hsettings : settingsFor nestedProject.machine nestedProject.volume (Path.ofString ".") =
      .ok {} := rfl
  have hfound : discover nestedProject.volume nestedProject.listing (Path.ofString ".") {} =
      ["a.php", "b.php"] :=
    discover_eq_of_perm (by decide +kernel) (by decide)
  have htried : tryDiscover nestedProject.volume nestedProject.listing (Path.ofString ".") {} =
      .ok ["a.php", "b.php"] :=
    tryDiscover_eq_ok_iff.mpr ⟨by decide +kernel, hfound⟩
  have hinsights : (insightsFor nestedProject.machine nestedProject.volume
      (Path.ofString ".")).value = .ok {} := rfl
  obtain ⟨f, log, hfile, hconcepts, herrors⟩ := @extractFile_nestedProject
    ((Path.ofString ".").join (Path.ofString "a.php")) (some (Path.ofString "."))
    (by decide +kernel) rfl
  have hdirectory : extractFile nestedProject.read nestedProject.volume
      ((Path.ofString ".").join (Path.ofString "b.php")) (some (Path.ofString ".")) =
        .error (.crash (.access ⟨.isDirectory, "b.php"⟩)) := by
    decide +kernel
  have hmessage : AccessFault.message ⟨.isDirectory, "b.php"⟩ =
      "[Errno 21] Is a directory: 'b.php'" := by
    decide +kernel
  refine ⟨f, ?_, hconcepts, herrors⟩
  rw [value_survey, hsettings, hinsights]
  simp [Except.bind, Except.map, Except.mapError, htried, extractEach, extractInTurn, extractListed,
    hfile, hdirectory, hmessage]

/-- The scan counts the class, and the directory for an error; the extraction of functions finds
neither. -/
theorem nestedProject_adds_up :
    (∃ report, Json.parse ((scan nestedProject true true ".").outcome false).stdout.toList =
        .ok report ∧ figures? report = some ⟨2, 1, 1⟩) ∧
    ((scan nestedProject false true ".").outcome false).exitCode = 6 ∧
    (∃ report, Json.parse
        ((extract nestedProject true ["function"] ["a.php"]).outcome false).stdout.toList =
        .ok report ∧ figures? report = some ⟨1, 0, 0⟩) ∧
    ((extract nestedProject false ["function"] ["a.php"]).outcome false).exitCode = 0 := by
  obtain ⟨hscan, hextract⟩ := reports_add_up nestedProject false
  refine and_assoc.mp ⟨?_, ?_⟩
  · obtain ⟨f, hsurvey, hconcepts, herrors⟩ := survey_nestedProject
    obtain ⟨found, report, -, _, hvalue, rfl, hparse, hadds, -, -, -, -, hexit⟩ :=
      hscan true true "." (completes_scan_iff.mpr ⟨_, hsurvey⟩)
    obtain rfl := Except.ok.inj (hvalue.symm.trans hsurvey)
    have hone : f.concepts.length = 1 := by
      simpa using congrArg List.length hconcepts
    have hfigures : Figures.of
        [f, ⟨"b.php", [], ["b.php: [Errno 21] Is a directory: 'b.php'"]⟩] = ⟨2, 1, 1⟩ := by
      simp [Figures.of, countConcepts, countErrors, hone, herrors]
    rw [hfigures] at hadds hexit
    exact ⟨⟨report, hparse, hadds.1⟩, hexit false⟩
  · obtain ⟨f, log, hfile, hconcepts, herrors⟩ :=
      @extractFile_nestedProject (Path.ofString "a.php") none (by decide +kernel) rfl
    have hall : (extractAll nestedProject ["a.php"]).value = .ok [f] := by
      simp [extractAll, extractInTurn, hfile, Except.map]
    obtain ⟨files, report, _, hvalue, rfl, hparse, hadds, hexit⟩ :=
      hextract true ["function"] ["a.php"] (completes_extract_iff.mpr ⟨_, hall⟩)
    obtain rfl : files = [f] := Except.ok.inj (hvalue.symm.trans hall)
    have hkinds : ∀ c ∈ f.concepts, c.conceptType ≠ "function" := by
      intro c hc
      have hmem : c.conceptType ∈ f.concepts.map Concept.conceptType := List.mem_map_of_mem hc
      rw [hconcepts, List.mem_singleton] at hmem
      simp [hmem]
    have hfigures : Figures.of [keepKinds ["function"] f] = ⟨1, 0, 0⟩ := by
      simpa [Figures.of, countConcepts, countErrors, keepKinds, herrors] using hkinds
    rw [List.map_singleton, hfigures] at hadds hexit
    exact ⟨⟨report, hparse, hadds.1⟩, hexit false⟩

end Command

end PhpCatalog
