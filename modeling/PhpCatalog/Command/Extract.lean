/-
# The command that extracts

`extract` catalogs the files it is given.  All of them are read before anything is shown, so a
file that no extractor handles leaves no output behind.  A filter by kind leaves out concepts and
nothing else.  Errors of single nodes are shown with their file and make the result incomplete.

A report is printed without asking for the bounds of the machine: it is nested a few levels deep,
and its integers are counts and line numbers.
-/
import PhpCatalog.Discovery.Discover
import PhpCatalog.Extraction
import PhpCatalog.Report

namespace PhpCatalog.Command

/-- What a command finds around it. -/
structure Surroundings where
  volume : Volume
  /-- What asking for the tracked files brings. -/
  listing : Listing
  /-- The time that goes into envelopes. -/
  now : String
  /-- The reader of sources. -/
  read : ByteArray → Node
  /-- What can be read and written of JSON. -/
  machine : Json.Machine := {}

/-- What a command did: what it logged, what it shows, and what ended it, if anything did. -/
structure Work where
  log : List Record := []
  shown : List String := []
  ended : Option Abort := none

/-- Catalogs files one after the other, until one of them ends the command. -/
def extractAll (s : Surroundings) (paths : List String) :
    Logged (Except Abort (List FileExtraction)) :=
  extractInTurn (fun path => extractFile s.read s.volume (Path.ofString path) none) paths

/-- The file with the concepts of some kinds only; without kinds, all of them. -/
def keepKinds (kinds : List String) (f : FileExtraction) : FileExtraction :=
  if kinds.isEmpty then f
  else { f with concepts := f.concepts.filter fun c => kinds.contains c.conceptType }

/-- Errors make a result incomplete. -/
def incomplete? (files : List FileExtraction) : Option Abort :=
  let failures := countErrors files
  if failures = 0 then none else some (.failure (.incomplete failures))

/-- The concepts of some files as JSON. -/
def extractJson (now : String) (files : List FileExtraction) : Json :=
  let total := countConcepts files
  Report.envelope now "extract"
    (.obj [
      ("verdict", .str (toString total ++ " concepts in " ++ toString files.length ++ " file(s)")),
      ("files", .int files.length),
      ("concepts", .int total),
      ("errors", .int (countErrors files))])
    [("files", .arr (files.map fun f =>
      .obj [("path", .str f.filePath), ("concepts", .arr (f.concepts.map Concept.toJson)),
        ("errors", .arr (f.errors.map Json.str))]))]

/-- A concept as text, with its description below it. -/
def conceptLines (c : Concept) : List String :=
  ("  " ++ Report.conceptLine c) ::
    ((Report.filled c "docblock.description").map ("      " ++ ·)).toList

/-- The concepts of a file as text. -/
def fileLines (f : FileExtraction) : List String :=
  ("=== " ++ f.filePath ++ " (" ++ toString f.concepts.length ++ " concepts) ===") ::
    f.concepts.flatMap conceptLines ++ f.errors.map ("  ! " ++ ·)

/-- The concepts of some files as text, with an empty line between files. -/
def extractLines : List FileExtraction → List String
  | [] => []
  | [f] => fileLines f
  | f :: rest => fileLines f ++ "" :: extractLines rest

/-- Runs the command. -/
def extract (s : Surroundings) (json : Bool) (kinds paths : List String) : Work :=
  let all := extractAll s paths
  match all.value with
  | .error e => { log := all.log, ended := some e }
  | .ok files =>
    let files := files.map (keepKinds kinds)
    { log := all.log,
      shown := if json then [(extractJson s.now files).canonical] else extractLines files,
      ended := incomplete? files }

end PhpCatalog.Command
