/-
# What a report prints

A report is printed as the canonical text of a JSON value.  The text has no terminal commands that
could be taken out, and the value names no member twice, so what is printed is read back as the
value with its members in order (`parse_showAll`).
-/
import PhpCatalog.Command.Run
import PhpCatalog.Proofs.Extraction.Concepts
import PhpCatalog.Proofs.Json.Canonical
import PhpCatalog.Proofs.Manifest.Namespaces
import PhpCatalog.Proofs.Text.Order
import PhpCatalog.Proofs.Text.Terminal

namespace PhpCatalog

namespace Command

open Json (WellFormed)

/-- A value printed alone is read back with its members in order. -/
theorem parse_showAll {j : Json} (h : WellFormed j) :
    Json.parse (showAll [j.canonical]).toList = .ok j.sortKeys := by
  have hescape : '\x1b' ∉ j.canonical.toList := by
    intro hmem
    exact absurd (Json.isPlain_of_mem_canonical h hmem) (by decide)
  have hshown : showAll [j.canonical] = j.canonical ++ "\n" := by
    simp [showAll, show_, Text.plain_eq_self hescape]
  rw [hshown, String.toList_append]
  exact Json.parse_canonical h (by simp [Json.Cursor.isSpace])

/-! ### Values that name no member twice -/

lemma wellFormed_arr_map {α : Type} {items : List α} {value : α → Json}
    (h : ∀ a ∈ items, WellFormed (value a)) : WellFormed (.arr (items.map value)) := by
  refine .arr fun j hj => ?_
  obtain ⟨a, ha, rfl⟩ := List.mem_map.mp hj
  exact h a ha

lemma wellFormed_texts (texts : List String) : WellFormed (.arr (texts.map .str)) :=
  wellFormed_arr_map fun text _ => .str text

/-- Members by key have the names that the entries have. -/
lemma wellFormed_byKey {α : Type} {entries : List (String × α)} {value : α → Json}
    (hnames : (entries.map Prod.fst).Nodup) (heach : ∀ a, WellFormed (value a))
    (le : String × α → String × α → Bool) :
    WellFormed (.obj ((entries.mergeSort le).map fun e => (e.1, value e.2))) := by
  refine .obj ?_ fun m hm => ?_
  · rw [List.map_map]
    exact (((List.mergeSort_perm entries le).map Prod.fst).nodup_iff).mpr hnames
  · obtain ⟨e, -, rfl⟩ := List.mem_map.mp hm
    exact heach e.2

/-- An object by its members: a member more has a new name and a value in good form. -/
lemma wellFormed_obj_cons {name : String} {value : Json} {members : List (String × Json)} :
    WellFormed (.obj ((name, value) :: members)) ↔
      name ∉ members.map Prod.fst ∧ WellFormed value ∧ WellFormed (.obj members) := by
  constructor
  · rintro (_ | _ | _ | _ | _ | _ | _ | _ | ⟨names, each⟩)
    rw [List.map_cons, List.nodup_cons] at names
    rw [List.forall_mem_cons] at each
    exact ⟨names.1, each.1, .obj names.2 each.2⟩
  · rintro ⟨hname, hvalue, _ | _ | _ | _ | _ | _ | _ | _ | ⟨names, each⟩⟩
    exact .obj (List.nodup_cons.mpr ⟨hname, names⟩) (List.forall_mem_cons.mpr ⟨hvalue, each⟩)

lemma wellFormed_obj_nil : WellFormed (.obj []) :=
  .obj List.nodup_nil (by simp)

lemma wellFormed_concept {c : Concept} {s : Site} {filePath : String}
    (h : c.WellFormed s filePath) : WellFormed c.toJson := by
  have hrelationships : (c.relationships.map Prod.fst).Nodup := by
    simp [h.no_relationships]
  have hlines : WellFormed (.obj [("start", .int c.lines.start), ("end", .int c.lines.stop)]) := by
    simp [wellFormed_obj_cons, wellFormed_obj_nil, WellFormed.int]
  have hconfidence : WellFormed syntacticConfidence := .decimal (Or.inl (by simp))
  have hlinks := wellFormed_byKey hrelationships wellFormed_texts fun a b => decide (a.1 ≤ b.1)
  have hmetadata := wellFormed_byKey h.keys_nodup WellFormed.str fun a b => decide (a.1 ≤ b.1)
  simp [Concept.toJson, wellFormed_obj_cons, wellFormed_obj_nil, WellFormed.str, hlines,
    hconfidence, hlinks, hmetadata]

lemma wellFormed_insights {i : Insights} (h : (i.namespaces.map Prod.fst).Nodup) :
    WellFormed i.toJson := by
  have hnamespaces : WellFormed
      (.obj (i.namespaces.map fun n => (n.1, .arr (n.2.map Json.str)))) := by
    refine .obj (by rwa [List.map_map]) fun m hm => ?_
    obtain ⟨n, -, rfl⟩ := List.mem_map.mp hm
    exact wellFormed_texts n.2
  have hpaths : WellFormed (.arr (i.priorityPaths.map fun p =>
      .obj [("namespace", .str p.owner), ("relative_path", .str p.relative),
        ("absolute_path", .str p.absolute)])) :=
    wellFormed_arr_map fun p _ => by simp [wellFormed_obj_cons, wellFormed_obj_nil, WellFormed.str]
  simp [Insights.toJson, wellFormed_obj_cons, wellFormed_obj_nil, hnamespaces, hpaths,
    wellFormed_texts]

/-! ### The report of a scan -/

/-- A file in the report of a scan. -/
def surveyEntry (f : FileExtraction) : Json :=
  .obj [("path", .str f.filePath), ("concept_count", .int f.concepts.length),
    ("errors", .arr (f.errors.map Json.str))]

lemma wellFormed_surveyEntry (f : FileExtraction) : WellFormed (surveyEntry f) := by
  simp [surveyEntry, wellFormed_obj_cons, wellFormed_obj_nil, WellFormed.str, WellFormed.int,
    wellFormed_texts]

/-- The members of a scan's report. -/
lemma Survey.toJson_eq (now : String) (list : Bool) (s : Survey) :
    s.toJson now list = .obj (
      [("command", .str "scan"), ("version", .str Report.version), ("schema", .str Report.schema),
        ("summary", s.summary), ("_meta", .obj [("timestamp", .str now)]),
        ("kinds", .obj (s.counts.map fun c => (c.1, .int c.2))), ("composer", s.insights.toJson),
        ("files", .arr (s.files.map surveyEntry))] ++
      if list then [("concepts", .arr (s.concepts.map Concept.toJson))] else []) := by
  cases list <;> rfl

lemma Survey.keys_counts (s : Survey) :
    s.counts.map Prod.fst = Text.sortDistinct (s.concepts.map Concept.conceptType) := by
  simp [counts, Function.comp_def]

/-- The report of a scan names no member twice, if what it found is in good form. -/
theorem Survey.wellFormed_toJson (now : String) (list : Bool) {s : Survey}
    (hfiles : ∀ f ∈ s.files, f.Sound) (hnames : (s.insights.namespaces.map Prod.fst).Nodup) :
    WellFormed (s.toJson now list) := by
  have hkinds : WellFormed (.obj (s.counts.map fun c => (c.1, .int c.2))) := by
    refine .obj ?_ fun m hm => ?_
    · rw [List.map_map]
      exact s.keys_counts ▸ Text.nodup_sortDistinct _
    · obtain ⟨c, -, rfl⟩ := List.mem_map.mp hm
      exact .int _
  have hsummary : WellFormed s.summary := by
    simp [summary, wellFormed_obj_cons, wellFormed_obj_nil, WellFormed.str, WellFormed.int,
      wellFormed_texts]
  have hentries : WellFormed (.arr (s.files.map surveyEntry)) :=
    wellFormed_arr_map fun f _ => wellFormed_surveyEntry f
  have hconcepts : WellFormed (.arr (s.concepts.map Concept.toJson)) := by
    refine wellFormed_arr_map fun c hc => ?_
    obtain ⟨f, hf, hcf⟩ := List.mem_flatMap.mp hc
    obtain ⟨site, hsite⟩ := hfiles f hf c hcf
    exact wellFormed_concept hsite
  have hinsights := wellFormed_insights hnames
  rw [toJson_eq]
  cases list <;>
    simp [wellFormed_obj_cons, wellFormed_obj_nil, WellFormed.str, hsummary, hkinds, hentries,
      hconcepts, hinsights]

/-! ### The report of an extraction -/

/-- A file in the report of an extraction. -/
def extractEntry (f : FileExtraction) : Json :=
  .obj [("path", .str f.filePath), ("concepts", .arr (f.concepts.map Concept.toJson)),
    ("errors", .arr (f.errors.map Json.str))]

/-- The summary of an extraction. -/
def extractSummary (files : List FileExtraction) : Json :=
  .obj [
    ("verdict", .str (toString (countConcepts files) ++ " concepts in " ++
      toString files.length ++ " file(s)")),
    ("files", .int files.length),
    ("concepts", .int (countConcepts files)),
    ("errors", .int (countErrors files))]

/-- The members of an extraction's report. -/
lemma extractJson_eq (now : String) (files : List FileExtraction) :
    extractJson now files = .obj
      [("command", .str "extract"), ("version", .str Report.version),
        ("schema", .str Report.schema), ("summary", extractSummary files),
        ("_meta", .obj [("timestamp", .str now)]), ("files", .arr (files.map extractEntry))] := by
  rfl

lemma wellFormed_extractEntry {f : FileExtraction} (h : f.Sound) : WellFormed (extractEntry f) := by
  have hconcepts : WellFormed (.arr (f.concepts.map Concept.toJson)) := by
    refine wellFormed_arr_map fun c hc => ?_
    obtain ⟨site, hsite⟩ := h c hc
    exact wellFormed_concept hsite
  simp [extractEntry, wellFormed_obj_cons, wellFormed_obj_nil, WellFormed.str, hconcepts,
    wellFormed_texts]

/-- The report of an extraction names no member twice, if what it found is in good form. -/
theorem wellFormed_extractJson (now : String) {files : List FileExtraction}
    (h : ∀ f ∈ files, f.Sound) : WellFormed (extractJson now files) := by
  have hsummary : WellFormed (extractSummary files) := by
    simp [extractSummary, wellFormed_obj_cons, wellFormed_obj_nil, WellFormed.str, WellFormed.int]
  have hentries : WellFormed (.arr (files.map extractEntry)) :=
    wellFormed_arr_map fun f hf => wellFormed_extractEntry (h f hf)
  simp [extractJson_eq, wellFormed_obj_cons, wellFormed_obj_nil, WellFormed.str, hsummary, hentries]

end Command

end PhpCatalog
