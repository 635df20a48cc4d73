/-
# Failures

What the program reports to its user.  Each failure has a wording and an exit code: 1 for a
general failure, 2 for wrong usage or settings, 6 for results that are incomplete.  A
`NodeFault` concerns a single syntax node and does not end a run.
-/

namespace PhpCatalog

/-- Why a syntax node cannot be interpreted. -/
inductive NodeFault.Cause where
  /-- There is no node to look at. -/
  | missing
  /-- The bytes of the node are not a part of the source. -/
  | span (start stop size : Nat)
  /-- Any other reason, in words. -/
  | other (text : String)
  deriving Repr, DecidableEq

/-- The wording of a cause. -/
def NodeFault.Cause.message : NodeFault.Cause → String
  | .missing => "missing syntax node"
  | .span start stop size => s!"byte span {start}..{stop} outside source of {size} bytes"
  | .other text => text

/-- A syntax node that cannot be interpreted, with its file and its kind as far as known. -/
structure NodeFault where
  cause : NodeFault.Cause
  filePath : Option String := none
  nodeKind : Option String := none
  deriving Repr, DecidableEq

/-- A fault in words: where, then why.  A place without a name is called the source. -/
def NodeFault.message (f : NodeFault) : String :=
  let place := match f.filePath with
    | none | some "" => "<source>"
    | some path => path
  let place := match f.nodeKind with
    | none | some "" => place
    | some kind => place ++ " (" ++ kind ++ ")"
  place ++ ": " ++ f.cause.message

/-- Why settings are refused. -/
inductive SettingsFault where
  | notAnObject
  | exclude
  | flag (name : String)
  | fileSize
  /-- The file is no JSON. -/
  | invalidJson (path detail : String)
  /-- Any other reason, in words. -/
  | other (text : String)
  deriving Repr, DecidableEq

/-- The name of the settings file. -/
def settingsName : String := ".phpconcepts.json"

/-- The wording of a settings fault. -/
def SettingsFault.message : SettingsFault → String
  | .notAnObject => settingsName ++ " must be a JSON object"
  | .exclude => "'exclude' must be a list of glob strings"
  | .flag name => "'" ++ name ++ "' must be true or false"
  | .fileSize => "'max_file_size' must be a positive integer"
  | .invalidJson path detail => "Invalid JSON in " ++ path ++ ": " ++ detail
  | .other text => text

/-- A failure that ends a command. -/
inductive Failure where
  /-- No extractor handles the file. -/
  | unsupportedFile (path : String)
  | node (fault : NodeFault)
  | settings (fault : SettingsFault)
  /-- Some nodes or files failed; the rest was reported. -/
  | incomplete (failures : Int)
  /-- Any other failure, in words. -/
  | other (text : String) (exitCode : Int)
  deriving Repr, DecidableEq

/-- The wording of a failure. -/
def Failure.message : Failure → String
  | .unsupportedFile path => "Unsupported file type: " ++ path
  | .node fault => fault.message
  | .settings fault => fault.message
  | .incomplete failures => s!"{failures} extraction error(s); results are partial"
  | .other text _ => text

/-- The exit code of a command that ends in a failure. -/
def Failure.exitCode : Failure → Int
  | .unsupportedFile _ => 2
  | .node _ => 1
  | .settings _ => 2
  | .incomplete _ => 6
  | .other _ code => code

end PhpCatalog
