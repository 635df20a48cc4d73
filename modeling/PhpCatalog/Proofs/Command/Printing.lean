/-
# Reports within bounds

The commands print their reports without asking for the bounds of the machine.  They need not: a
report is nested seven levels deep at most, whatever it shows, and its integers are counts and line
numbers.  So any machine with that room and the digits of these numbers has the same text for it
(`canonical_extractJson`, `Survey.canonical_toJson`).
-/
import PhpCatalog.Proofs.Command.Report

namespace PhpCatalog.Command

open Json (Fits within writeNat)

variable {digits nesting : Option Nat} {depth : Nat}

/-- A number has few enough digits. -/
def Short (digits : Option Nat) (n : Int) : Prop :=
  within digits (writeNat n.natAbs).length = true

/-! ### Parts of a report -/

lemma fits_obj_map {α : Type} {entries : List α} {name : α → String} {value : α → Json}
    (hroom : within nesting (depth + 1) = true)
    (h : ∀ a ∈ entries, Fits digits nesting (depth + 1) (value a)) :
    Fits digits nesting depth (.obj (entries.map fun a => (name a, value a))) := by
  rw [Json.fits_obj_iff, List.forall_mem_map]
  exact ⟨hroom, h⟩

lemma fits_arr_map {α : Type} {items : List α} {value : α → Json}
    (hroom : within nesting (depth + 1) = true)
    (h : ∀ a ∈ items, Fits digits nesting (depth + 1) (value a)) :
    Fits digits nesting depth (.arr (items.map value)) := by
  rw [Json.fits_arr_iff, List.forall_mem_map]
  exact ⟨hroom, h⟩

lemma fits_texts (texts : List String) (hroom : within nesting (depth + 1) = true) :
    Fits digits nesting depth (.arr (texts.map .str)) :=
  fits_arr_map hroom fun text _ => Json.fits_str text

/-- The lines of a concept have few enough digits. -/
def ShortLines (digits : Option Nat) (c : Concept) : Prop :=
  Short digits c.lines.start ∧ Short digits c.lines.stop

lemma fits_concept {c : Concept} (hroom : within nesting (depth + 3) = true)
    (hlines : ShortLines digits c) : Fits digits nesting depth c.toJson := by
  have hone : within nesting (depth + 1) = true := Json.within_of_le hroom (by omega)
  have htwo : within nesting (depth + 2) = true := Json.within_of_le hroom (by omega)
  have hlinks : Fits digits nesting (depth + 1) (.obj ((c.relationships.mergeSort
      fun a b => decide (a.1 ≤ b.1)).map fun r => (r.1, .arr (r.2.map Json.str)))) :=
    fits_obj_map htwo fun r _ => fits_texts r.2 hroom
  have hmetadata : Fits digits nesting (depth + 1) (.obj ((c.metadata.mergeSort
      fun a b => decide (a.1 ≤ b.1)).map fun m => (m.1, .str m.2))) :=
    fits_obj_map htwo fun m _ => Json.fits_str m.2
  have hrange : Fits digits nesting (depth + 1)
      (.obj [("start", .int c.lines.start), ("end", .int c.lines.stop)]) := by
    rw [Json.fits_obj_iff]
    exact ⟨htwo, by simpa [ShortLines, Short] using hlines⟩
  rw [Concept.toJson, Json.fits_obj_iff]
  simp [hone, hlinks, hmetadata, hrange, syntacticConfidence]

/-! ### The report of an extraction -/

/-- The counts of some files, and the lines of their concepts, have few enough digits. -/
structure ShortCounts (digits : Option Nat) (files : List FileExtraction) : Prop where
  paths : Short digits files.length
  concepts : Short digits (countConcepts files)
  errors : Short digits (countErrors files)
  lines : ∀ f ∈ files, ∀ c ∈ f.concepts, ShortLines digits c

lemma fits_extractJson (now : String) {files : List FileExtraction}
    (hroom : within nesting 7 = true) (hshort : ShortCounts digits files) :
    Fits digits nesting 0 (extractJson now files) := by
  have hlevel : ∀ n ≤ 7, within nesting n = true := fun n => Json.within_of_le hroom
  have hentry : ∀ f ∈ files, Fits digits nesting 2 (extractEntry f) := by
    intro f hf
    have hconcepts : Fits digits nesting 3 (.arr (f.concepts.map Concept.toJson)) :=
      fits_arr_map (hlevel 4 (by decide)) fun c hc => fits_concept hroom (hshort.lines f hf c hc)
    have herrors : Fits digits nesting 3 (.arr (f.errors.map .str)) :=
      fits_texts f.errors (hlevel 4 (by decide))
    rw [extractEntry, Json.fits_obj_iff]
    simp [hlevel 3, hconcepts, herrors]
  have hfiles : Fits digits nesting 1 (.arr (files.map extractEntry)) :=
    fits_arr_map (hlevel 2 (by decide)) hentry
  have hsummary : Fits digits nesting 1 (extractSummary files) := by
    rw [extractSummary, Json.fits_obj_iff]
    simpa [hlevel 2] using ⟨hshort.paths, hshort.concepts, hshort.errors⟩
  have hmeta : Fits digits nesting 1 (.obj [("timestamp", .str now)]) := by
    rw [Json.fits_obj_iff]
    simp [hlevel 2]
  rw [extractJson_eq, Json.fits_obj_iff]
  simp [hlevel 1, hfiles, hsummary, hmeta]

/-- **The report of an extraction is printed.**  A machine with room for seven levels prints it,
unless a count or a line has too many digits. -/
theorem canonical_extractJson {m : Json.Machine} (now : String) {files : List FileExtraction}
    (hsound : ∀ f ∈ files, f.Sound) (hroom : within m.writing 7 = true)
    (hshort : ShortCounts m.digits files) :
    m.canonical (extractJson now files) = .ok (extractJson now files).canonical :=
  (Json.canonical_eq_ok_iff (wellFormed_extractJson now hsound)).mpr
    ⟨fits_extractJson now hroom hshort, rfl⟩

/-! ### The report of a scan -/

/-- The counts of a survey, and the lines of its concepts, have few enough digits. -/
structure Survey.ShortCounts (digits : Option Nat) (s : Survey) : Prop where
  files : Command.ShortCounts digits s.files
  total : Short digits s.total
  namespaces : Short digits s.insights.namespaces.length
  kinds : ∀ c ∈ s.counts, Short digits c.2
  each : ∀ f ∈ s.files, Short digits f.concepts.length

lemma fits_insights (i : Insights) (hroom : within nesting (depth + 3) = true) :
    Fits digits nesting depth i.toJson := by
  have hone : within nesting (depth + 1) = true := Json.within_of_le hroom (by omega)
  have htwo : within nesting (depth + 2) = true := Json.within_of_le hroom (by omega)
  have hnamespaces : Fits digits nesting (depth + 1)
      (.obj (i.namespaces.map fun n => (n.1, .arr (n.2.map Json.str)))) :=
    fits_obj_map htwo fun n _ => fits_texts n.2 hroom
  have hpaths : Fits digits nesting (depth + 1) (.arr (i.priorityPaths.map fun p =>
      .obj [("namespace", .str p.owner), ("relative_path", .str p.relative),
        ("absolute_path", .str p.absolute)])) := by
    refine fits_arr_map htwo fun p _ => ?_
    rw [Json.fits_obj_iff]
    simp [hroom]
  rw [Insights.toJson, Json.fits_obj_iff]
  simp [hone, hnamespaces, hpaths, fits_texts _ htwo]

lemma Survey.fits_toJson (now : String) (list : Bool) {s : Survey}
    (hroom : within nesting 7 = true) (hshort : s.ShortCounts digits) :
    Fits digits nesting 0 (s.toJson now list) := by
  have hlevel : ∀ n ≤ 7, within nesting n = true := fun n => Json.within_of_le hroom
  have hsummary : Fits digits nesting 1 s.summary := by
    rw [summary, Json.fits_obj_iff]
    simpa [hlevel 2, fits_texts _ (hlevel 3 (by decide))] using
      ⟨hshort.files.paths, hshort.total, hshort.files.errors, hshort.namespaces⟩
  have hkinds : Fits digits nesting 1 (.obj (s.counts.map fun c => (c.1, .int c.2))) :=
    fits_obj_map (hlevel 2 (by decide)) fun c hc => Json.fits_int_iff.mpr (hshort.kinds c hc)
  have hentry : ∀ f ∈ s.files, Fits digits nesting 2 (surveyEntry f) := by
    intro f hf
    rw [surveyEntry, Json.fits_obj_iff]
    simpa [Short, hlevel 3, fits_texts _ (hlevel 4 (by decide))] using hshort.each f hf
  have hfiles : Fits digits nesting 1 (.arr (s.files.map surveyEntry)) :=
    fits_arr_map (hlevel 2 (by decide)) hentry
  have hconcepts : Fits digits nesting 1 (.arr (s.concepts.map Concept.toJson)) := by
    refine fits_arr_map (hlevel 2 (by decide)) fun c hc => ?_
    obtain ⟨f, hf, hcf⟩ := List.mem_flatMap.mp hc
    exact fits_concept (hlevel 5 (by decide)) (hshort.files.lines f hf c hcf)
  have hinsights : Fits digits nesting 1 s.insights.toJson :=
    fits_insights s.insights (hlevel 4 (by decide))
  have hmeta : Fits digits nesting 1 (.obj [("timestamp", .str now)]) := by
    rw [Json.fits_obj_iff]
    simp [hlevel 2]
  rw [toJson_eq, Json.fits_obj_iff]
  cases list <;> simp [hlevel 1, hsummary, hkinds, hfiles, hconcepts, hinsights, hmeta]

/-- **The report of a scan is printed.**  A machine with room for seven levels prints it, unless a
count or a line has too many digits. -/
theorem Survey.canonical_toJson {m : Json.Machine} (now : String) (list : Bool) {s : Survey}
    (hfiles : ∀ f ∈ s.files, f.Sound) (hnames : (s.insights.namespaces.map Prod.fst).Nodup)
    (hroom : within m.writing 7 = true) (hshort : s.ShortCounts m.digits) :
    m.canonical (s.toJson now list) = .ok (s.toJson now list).canonical :=
  (Json.canonical_eq_ok_iff (s.wellFormed_toJson now list hfiles hnames)).mpr
    ⟨s.fits_toJson now list hroom hshort, rfl⟩

end PhpCatalog.Command
