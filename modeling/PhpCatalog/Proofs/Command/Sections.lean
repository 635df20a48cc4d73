/-
# What an extraction shows, file by file

An extraction shows one section for each file, in either form of output: as text, a header with the
path and the number of concepts, a line for each concept and each error (`isSection_iff`), and an
empty line between files (`extractLines_eq_intercalate`); as JSON, an entry with the path, the
concepts and the errors of the file, which is read back here from the report that is printed
(`shownFiles?_extractJson`).  Where all files are given and have an extractor, the sections are
those of the paths, in their order (`extract_given`).
-/
import PhpCatalog.Proofs.Command.Accounting
import PhpCatalog.Proofs.Extraction.Given

namespace PhpCatalog

namespace Json

/-- The text that a member is. -/
def textAt? (j : Json) (name : String) : Option String :=
  (j.get? name).bind fun
    | .str text => some text
    | _ => none

lemma textAt?_sortKeys {j : Json} (h : WellFormed j) (name : String) :
    j.sortKeys.textAt? name = j.textAt? name := by
  rw [textAt?, textAt?, get?_sortKeys h]
  cases j.get? name with
  | none => rfl
  | some member => cases member <;> simp [sortKeys]

end Json

namespace Command

open Json (WellFormed)

/-! ### Sections of a report -/

/-- The entry of a file in the report of an extraction. -/
structure ShownFile where
  path : String
  concepts : List Json
  errors : List Json

/-- The entry of a file, if it has all its parts. -/
def shownFile? (entry : Json) : Option ShownFile :=
  (entry.textAt? "path").bind fun path =>
    (entry.itemsAt? "concepts").bind fun concepts =>
      (entry.itemsAt? "errors").map fun errors => ⟨path, concepts, errors⟩

/-- The entries of a report, in their order. -/
def shownFiles? (report : Json) : Option (List ShownFile) :=
  (report.itemsAt? "files").bind (·.mapM shownFile?)

/-- The entry that a file has. -/
def ShownFile.of (f : FileExtraction) : ShownFile where
  path := f.filePath
  concepts := f.concepts.map fun c => c.toJson.sortKeys
  errors := f.errors.map .str

lemma shownFile?_extractEntry {f : FileExtraction} (h : f.Sound) :
    shownFile? (extractEntry f).sortKeys = some (.of f) := by
  have hentry := wellFormed_extractEntry h
  have hpath : (extractEntry f).textAt? "path" = some f.filePath := rfl
  have hconcepts :
      (extractEntry f).itemsAt? "concepts" = some (f.concepts.map Concept.toJson) := rfl
  have herrors : (extractEntry f).itemsAt? "errors" = some (f.errors.map .str) := rfl
  simp [shownFile?, Json.textAt?_sortKeys hentry, Json.itemsAt?_sortKeys hentry, hpath, hconcepts,
    herrors, ShownFile.of, Json.sortKeys, Function.comp_def]

lemma shownFiles?_extractJson (now : String) {files : List FileExtraction}
    (h : ∀ f ∈ files, f.Sound) :
    shownFiles? (extractJson now files).sortKeys = some (files.map .of) := by
  have hfiles : (extractJson now files).itemsAt? "files" = some (files.map extractEntry) := by
    rw [extractJson_eq]
    rfl
  have hsorted : ∀ f ∈ files, shownFile? (extractEntry f).sortKeys = some (.of f) :=
    fun f hf => shownFile?_extractEntry (h f hf)
  rw [shownFiles?, Json.itemsAt?_sortKeys (wellFormed_extractJson now h), hfiles, Option.map_some,
    Option.bind_some, List.map_map]
  exact mapM_map_of_forall hsorted

/-! ### Sections of a text -/

/-- The sections of some files, with an empty line between them. -/
def sections (files : List FileExtraction) : String :=
  showAll ([""].intercalate (files.map fileLines))

lemma extractLines_eq_intercalate (files : List FileExtraction) :
    extractLines files = [""].intercalate (files.map fileLines) := by
  fun_induction extractLines files with
  | case1 => rfl
  | case2 f => simp
  | case3 f rest hne ih =>
    obtain ⟨g, more, rfl⟩ := List.exists_cons_of_ne_nil hne
    simp only [ih, List.map_cons, List.intercalate_cons_cons]
    simp

lemma mem_extractLines {files : List FileExtraction} {f : FileExtraction} (hf : f ∈ files)
    {line : String} (hline : line ∈ fileLines f) : line ∈ extractLines files := by
  fun_induction extractLines files with
  | case1 => simp at hf
  | case2 g => rwa [List.mem_singleton.mp hf] at hline
  | case3 g rest _ ih =>
    rcases List.mem_cons.mp hf with rfl | hf
    · exact List.mem_append_left _ hline
    · exact List.mem_append_right _ (List.mem_cons_of_mem _ (ih hf))

/-- The lines that show some concepts: each concept has a line, and one more below it with its
description, if it has any. -/
inductive ShowsConcepts : List Concept → List String → Prop where
  | nil : ShowsConcepts [] []
  | plain {c : Concept} {cs : List Concept} {lines : List String}
      (empty : (c.metadata.get? "docblock.description").getD "" = "")
      (rest : ShowsConcepts cs lines) :
      ShowsConcepts (c :: cs) (("  " ++ Report.conceptLine c) :: lines)
  | described {c : Concept} {cs : List Concept} {description : String} {lines : List String}
      (filled : description ≠ "")
      (is : c.metadata.get? "docblock.description" = some description)
      (rest : ShowsConcepts cs lines) :
      ShowsConcepts (c :: cs)
        (("  " ++ Report.conceptLine c) :: ("      " ++ description) :: lines)

/-- The lines that show a file: a header with its path and the number of its concepts, its concepts,
and a line for each of its errors. -/
def IsSection (f : FileExtraction) (lines : List String) : Prop :=
  ∃ concepts, ShowsConcepts f.concepts concepts ∧
    lines = ["=== " ++ f.filePath ++ " (" ++ toString f.concepts.length ++ " concepts) ==="] ++
      concepts ++ f.errors.map ("  ! " ++ ·)

lemma filled_eq_some_iff {c : Concept} {key value : String} :
    Report.filled c key = some value ↔ c.metadata.get? key = some value ∧ value ≠ "" := by
  simp [Report.filled, Option.filter_eq_some_iff]

lemma filled_eq_none_iff {c : Concept} {key : String} :
    Report.filled c key = none ↔ (c.metadata.get? key).getD "" = "" := by
  cases hget : c.metadata.get? key <;> simp [Report.filled, hget]

lemma showsConcepts_iff {cs : List Concept} {lines : List String} :
    ShowsConcepts cs lines ↔ lines = cs.flatMap conceptLines := by
  constructor
  · intro h
    induction h with
    | nil => rfl
    | plain empty _ ih => simp [conceptLines, filled_eq_none_iff.mpr empty, ih]
    | described filled is _ ih =>
      simp [conceptLines, filled_eq_some_iff.mpr ⟨is, filled⟩, ih]
  · rintro rfl
    induction cs with
    | nil => exact .nil
    | cons c rest ih =>
      cases hfilled : Report.filled c "docblock.description" with
      | none =>
        simpa [conceptLines, hfilled] using ShowsConcepts.plain (filled_eq_none_iff.mp hfilled) ih
      | some description =>
        obtain ⟨hget, hne⟩ := filled_eq_some_iff.mp hfilled
        simpa [conceptLines, hfilled] using ShowsConcepts.described hne hget ih

/-- The lines of a file are its section, and it has no other. -/
theorem isSection_iff {f : FileExtraction} {lines : List String} :
    IsSection f lines ↔ lines = fileLines f := by
  simp [IsSection, showsConcepts_iff, fileLines]

lemma forall₂_isSection_iff {files : List FileExtraction} {shown : List (List String)} :
    List.Forall₂ IsSection files shown ↔ shown = files.map fileLines := by
  induction files generalizing shown with
  | nil => simp
  | cons f rest ih => cases shown <;> simp [isSection_iff, ih]

/-! ### Sections of given files -/

section Given

variable {s : Surroundings} {paths : List String}

/-- What is extracted from the files that some paths lead to. -/
def givenFiles (s : Surroundings) (paths : List String) : List FileExtraction :=
  paths.map (.given s.read s.volume)

lemma extractAll_given (given : ∀ path ∈ paths, Given s.read s.volume path)
    (supported : ∀ path ∈ paths, Supported path) :
    (extractAll s paths).value = .ok (givenFiles s paths) :=
  extractInTurn_eq_map fun path hpath =>
    extractFile_of_supported (given path hpath) (supported path hpath)

/-- Every given file has its section, in either form. -/
theorem extract_given (given : ∀ path ∈ paths, Given s.read s.volume path)
    (supported : ∀ path ∈ paths, Supported path) (kinds : List String) (verbose : Bool) :
    ((extract s false kinds paths).outcome verbose).stdout =
      sections ((givenFiles s paths).map (keepKinds kinds)) ∧
    ∃ report, Json.parse ((extract s true kinds paths).outcome verbose).stdout.toList =
        .ok report ∧
      shownFiles? report = some ((givenFiles s paths).map fun f => .of (keepKinds kinds f)) := by
  have hvalue := extractAll_given given supported
  have hsound := sound_of_extractAll hvalue kinds
  constructor
  · rw [stdout_outcome, extract_of_extractAll hvalue, if_neg Bool.false_ne_true,
      extractLines_eq_intercalate, sections]
  · refine ⟨_, ?_, (shownFiles?_extractJson s.now hsound).trans ?_⟩
    · rw [stdout_outcome, extract_of_extractAll hvalue, if_pos rfl]
      exact parse_showAll (wellFormed_extractJson s.now hsound)
    · rw [List.map_map]
      rfl

end Given

end Command

end PhpCatalog
