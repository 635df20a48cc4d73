/-
# Reports

How concepts are shown.  The text form gives each concept a line: its type in short, its name,
what is worth seeing of its metadata, and where it stands.  The JSON form wraps the results of a
command in an envelope that says which command they come from, in which version, and when.
-/
import PhpCatalog.Concept
import PhpCatalog.Json.Printer

namespace PhpCatalog.Report

/-- The version of the program. -/
def version : String := "0.3.0"

/-- The name of the envelope's layout. -/
def schema : String := "phpconcepts-envelope-v1"

/-- The short names of the concept types. -/
def shortNames : List (String × String) :=
  [("function", "fn"), ("class", "cls"), ("method", "meth"), ("constant", "const"),
    ("interface", "iface"), ("enum", "enum"), ("namespace", "ns"), ("trait", "trait"),
    ("property", "prop")]

/-- A concept type in short; one without a short name stays as it is. -/
def shortType (conceptType : String) : String :=
  (shortNames.lookup conceptType).getD conceptType

/-- A place in a file, or the whole file. -/
def location (path : String) (line : Option Int) : String :=
  match line with
  | some n => path ++ ":" ++ toString n
  | none => path

/-- The metadata shown as flags, in the order they are shown. -/
def flagKeys : List String := ["visibility", "static", "abstract", "final"]

/-- The value of a key, unless it is missing or empty. -/
def filled (c : Concept) (key : String) : Option String :=
  (c.metadata.get? key).filter (· != "")

/-- The flags of a concept: a flag that is just set is shown by its key, any other by its value. -/
def flags (c : Concept) : List String :=
  flagKeys.filterMap fun key =>
    (filled c key).map fun value => if value = "true" then key else value

/-- A concept on one line. -/
def conceptLine (c : Concept) : String :=
  let shown := flags c
  String.intercalate "  " ([shortType c.conceptType, c.name] ++
    (if shown.isEmpty then [] else [String.intercalate " " shown]) ++
    (filled c "type").toList ++
    ((filled c "return_type").map ("-> " ++ ·)).toList ++
    ((filled c "traits").map ("uses " ++ ·)).toList ++
    [location c.filePath (some c.lines.start)])

/-- A title with lines below it. -/
def section_ (title : String) (lines : List String) : String :=
  String.intercalate "\n" (title :: lines)

/-- The results of a command with what describes them.  A summary that is empty in any form is an
empty object, and members of the payload take the place of the envelope's own. -/
def envelope (now command : String) (summary : Json) (payload : List (String × Json)) : Json :=
  .obj (Json.insertAll
    [("command", .str command), ("version", .str version), ("schema", .str schema),
      ("summary", if summary.isTruthy then summary else .obj []),
      ("_meta", .obj [("timestamp", .str now)])]
    payload)

/-- Whether a payload fits into an envelope: the command and the summary are not its to give. -/
def fits (payload : List (String × Json)) : Bool :=
  (Json.lookup "command" payload).isNone && (Json.lookup "summary" payload).isNone

end PhpCatalog.Report
