/-
# Extraction

Extraction reads the source of a file into a syntax tree and catalogs it.  The reader of sources is
a parameter: any function from bytes to trees will do, and the program uses `Php.outline`.

A file is named by its path below a root, if there is one.  When many files are extracted, one
that cannot be read is reported in its place and does not touch the others.
-/
import PhpCatalog.Abort
import PhpCatalog.Catalog.Walk

namespace PhpCatalog

/-- What was extracted from one file. -/
structure FileExtraction where
  filePath : String
  concepts : List Concept := []
  errors : List String := []
  deriving Repr, DecidableEq

/-- Why a source cannot be cataloged. -/
inductive SourceFault where
  | language (e : UnsupportedLanguage)
  | file (path : String)
  | lines (e : InvalidLineRange)
  deriving Repr, DecidableEq

/-- The record of a finished file. -/
def extractedRecord (count : Nat) (filePath : String) : Record :=
  ⟨.debug, .extraction, "Extracted " ++ toString count ++ " concepts from " ++ filePath⟩

/-- The language of a source: the one that is named, or else the one of the file's suffix. -/
def sourceLanguage (filePath : String) (language : Option String) : Except SourceFault Language :=
  match language.filter (· ≠ "") with
  | some name => (Language.ofName name).mapError .language
  | none =>
    match Language.ofPath? filePath with
    | some l => .ok l
    | none => .error (.file filePath)

/-- Catalogs a source, with the log. -/
def extractSource (read : ByteArray → Node) (source : ByteArray) (filePath : String)
    (language : Option String) : Except SourceFault (FileExtraction × List Record) :=
  match sourceLanguage filePath language with
  | .error e => .error e
  | .ok _ =>
    match Catalog.walk (read source) source filePath with
    | .error e => .error (.lines e)
    | .ok found =>
      .ok ({ filePath, concepts := found.concepts, errors := found.errors.map NodeFault.message },
        found.log ++ [extractedRecord found.concepts.length filePath])

/-- A source that cannot be cataloged ends the operation that needs it. -/
def SourceFault.abort : SourceFault → Abort
  | .language e => .crash (.language e)
  | .file path => .failure (.unsupportedFile path)
  | .lines e => .crash (.lines e)

/-- The name a file is recorded under: its path below the root, or else its path as given, with
slashes.  A file outside the root has none. -/
def recordedPath (v : Volume) (path : Path) (root : Option Path) : Except Abort String :=
  match root with
  | none => .ok (forwardSlashes path.text)
  | some root =>
    match (path.resolve v.here).relativeTo? (root.resolve v.here) with
    | some below => .ok below.text
    | none => .error (.crash .outside)

/-- Catalogs a file, with the log. -/
def extractFile (read : ByteArray → Node) (v : Volume) (path : Path) (root : Option Path) :
    Except Abort (FileExtraction × List Record) :=
  match recordedPath v path root with
  | .error e => .error e
  | .ok filePath =>
    match v.read path with
    | .error f => .error (.crash (.access f))
    | .ok source => (extractSource read source filePath none).mapError SourceFault.abort

/-- Catalogs a file below a root, with the log.  A file that cannot be read has an error for its
only result. -/
def extractListed (read : ByteArray → Node) (v : Volume) (root : Path) (path : String) :
    Except Abort (FileExtraction × List Record) :=
  match extractFile read v (root.join (Path.ofString path)) (some root) with
  | .error (.crash (.access f)) =>
    .ok ({ filePath := path, errors := [path ++ ": " ++ f.message] },
      [⟨.warning, .extraction, "Cannot read " ++ path ++ ": " ++ f.message⟩])
  | result => result

/-- Catalogs files one after the other, with the log, until one of them ends the operation. -/
def extractInTurn (one : String → Except Abort (FileExtraction × List Record)) :
    List String → Logged (Except Abort (List FileExtraction))
  | [] => ⟨[], .ok []⟩
  | path :: rest =>
    match one path with
    | .error e => ⟨[], .error e⟩
    | .ok (first, log) =>
      let others := extractInTurn one rest
      ⟨log ++ others.log, others.value.map (first :: ·)⟩

/-- Catalogs files below a root, one after the other. -/
def extractEach (read : ByteArray → Node) (v : Volume) (root : Path) (paths : List String) :
    Logged (Except Abort (List FileExtraction)) :=
  extractInTurn (extractListed read v root) paths

/-- The number of concepts in some files. -/
def countConcepts (files : List FileExtraction) : Nat :=
  (files.map fun f => f.concepts.length).foldl (· + ·) 0

/-- The number of errors in some files. -/
def countErrors (files : List FileExtraction) : Nat :=
  (files.map fun f => f.errors.length).foldl (· + ·) 0

/-- The record of finished files. -/
def finishedRecord (files : List FileExtraction) : Record :=
  ⟨.info, .extraction,
    "Extracted " ++ toString (countConcepts files) ++ " concepts from " ++
      toString files.length ++ " files"⟩

/-- Catalogs files below a root, with the log. -/
def extractFiles (read : ByteArray → Node) (v : Volume) (root : Path) (paths : List String) :
    Logged (Except Abort (List FileExtraction)) :=
  let each := extractEach read v root paths
  match each.value with
  | .error e => ⟨each.log, .error e⟩
  | .ok files => ⟨each.log ++ [finishedRecord files], .ok files⟩

end PhpCatalog
