/-
# The command that scans

`scan` discovers the files of a project and catalogs them.  It shows how many concepts of which
type there are, what the manifest tells, and each file with its count, or with its concepts on
request.  The settings are those of the nearest directory that has any.
-/
import PhpCatalog.Command.Extract
import PhpCatalog.Manifest.Insights

namespace PhpCatalog.Command

/-- What a scan found. -/
structure Survey where
  files : List FileExtraction
  insights : Insights

/-- All concepts of a survey. -/
def Survey.concepts (s : Survey) : List Concept :=
  s.files.flatMap FileExtraction.concepts

/-- How many concepts there are of each type that occurs, in the order of the types. -/
def Survey.counts (s : Survey) : List (String × Nat) :=
  let types := s.concepts.map Concept.conceptType
  (Text.sortDistinct types).map fun t => (t, types.count t)

/-- The number of concepts of a survey. -/
def Survey.total (s : Survey) : Nat :=
  (s.counts.map Prod.snd).foldl (· + ·) 0

/-- The summary of a survey as JSON. -/
def Survey.summary (s : Survey) : Json :=
  .obj [
    ("verdict",
      .str (toString s.total ++ " concepts in " ++ toString s.files.length ++ " PHP file(s)")),
    ("files", .int s.files.length),
    ("concepts", .int s.total),
    ("errors", .int (countErrors s.files)),
    ("namespaces", .int s.insights.namespaces.length),
    ("frameworks", .arr (s.insights.frameworks.map Json.str))]

/-- A survey as JSON, with every concept on request. -/
def Survey.toJson (now : String) (list : Bool) (s : Survey) : Json :=
  Report.envelope now "scan" s.summary
    ([("kinds", .obj (s.counts.map fun c => (c.1, .int c.2))),
      ("composer", s.insights.toJson),
      ("files", .arr (s.files.map fun f =>
        .obj [("path", .str f.filePath), ("concept_count", .int f.concepts.length),
          ("errors", .arr (f.errors.map Json.str))]))] ++
      if list then [("concepts", .arr (s.concepts.map Concept.toJson))] else [])

/-- A file of a survey as text. -/
def surveyedFile (list : Bool) (f : FileExtraction) : String :=
  Report.section_ (f.filePath ++ " (" ++ toString f.concepts.length ++ ")")
    ((if list then f.concepts.map fun c => "  " ++ Report.conceptLine c else []) ++
      f.errors.map ("  ! " ++ ·))

/-- A survey as text, with every concept on request. -/
def Survey.lines (list : Bool) (s : Survey) : List String :=
  (toString s.total ++ " concepts in " ++ toString s.files.length ++ " PHP file(s)") ::
    (if s.counts.isEmpty then []
      else ["  " ++ String.intercalate ", "
        (s.counts.map fun c => Report.shortType c.1 ++ ":" ++ toString c.2)]) ++
    (if s.insights.frameworks.isEmpty then []
      else ["  frameworks: " ++ String.intercalate ", " s.insights.frameworks]) ++
    s.insights.namespaces.map (fun n =>
      "  autoload " ++ n.1 ++ " -> " ++ String.intercalate ", " n.2) ++
    s.files.map (surveyedFile list)

/-- The settings that hold for a directory: those of the nearest directory that has any. -/
def settingsFor (m : Json.Machine) (v : Volume) (path : Path) : Except Abort Settings :=
  Settings.load m v ((Settings.findRoot v path).getD path)

/-- What the manifest of a directory tells, with the log. -/
def insightsFor (m : Json.Machine) (v : Volume) (path : Path) :
    Logged (Except Abort Insights) :=
  match Manifest.load m v path with
  | .error c => ⟨[], .error (.crash c)⟩
  | .ok (config, log) =>
    let root := Manifest.projectRoot v (path.resolve v.here)
    ⟨log, (Manifest.insights root (config.getD .null)).mapError fun e => .crash (.manifest e)⟩

/-- Surveys a project, with the log. -/
def survey (s : Surroundings) (path : Path) : Logged (Except Abort Survey) :=
  match settingsFor s.machine s.volume path with
  | .error e => ⟨[], .error e⟩
  | .ok settings =>
    match tryDiscover s.volume s.listing path settings with
    | .error c => ⟨[], .error (.crash c)⟩
    | .ok found =>
      let extracted := extractFiles s.read s.volume path found
      match extracted.value with
      | .error e => ⟨extracted.log, .error e⟩
      | .ok files =>
        let insights := insightsFor s.machine s.volume path
        ⟨extracted.log ++ insights.log, insights.value.map fun i => ⟨files, i⟩⟩

/-- Runs the command. -/
def scan (s : Surroundings) (json list : Bool) (path : String) : Work :=
  let surveyed := survey s (Path.ofString path)
  match surveyed.value with
  | .error e => { log := surveyed.log, ended := some e }
  | .ok result =>
    { log := surveyed.log,
      shown := if json then [(result.toJson s.now list).canonical] else result.lines list,
      ended := incomplete? result.files }

end PhpCatalog.Command
