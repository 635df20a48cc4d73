/-
# Concepts

A concept is one named declaration of a source file: what it is, where it stands, and what is
known about it.  Its identifier joins the language, the label of the syntax it came from, the file
and the name.  Concepts come from syntax alone, so all of them have the same confidence.
-/
import PhpCatalog.Json.Basic

namespace PhpCatalog

/-- A pair of lines in the wrong order. -/
structure InvalidLineRange where
  start : Int
  stop : Int
  deriving Repr, DecidableEq

/-- The wording of a refused pair of lines. -/
def InvalidLineRange.message (e : InvalidLineRange) : String :=
  s!"Invalid line range {e.start}-{e.stop}"

/-- The lines a declaration stands on, first and last. -/
structure LineRange where
  start : Int
  stop : Int
  ordered : start ≤ stop
  deriving Repr, DecidableEq

/-- The range from one line to another, refused if they are in the wrong order. -/
def LineRange.of (start stop : Int) : Except InvalidLineRange LineRange :=
  if h : start ≤ stop then .ok ⟨start, stop, h⟩ else .error ⟨start, stop⟩

/-- What is known about a concept, by key. -/
abbrev Metadata := List (String × String)

/-- The value of a key. -/
def Metadata.get? (m : Metadata) (key : String) : Option String :=
  List.lookup key m

/-- One named declaration. -/
structure Concept where
  id : String
  name : String
  conceptType : String
  filePath : String
  lines : LineRange
  relationships : List (String × List String) := []
  metadata : Metadata := []
  deriving Repr, DecidableEq

/-- The types of declarations that are cataloged, in the order of their names. -/
def conceptTypes : List String :=
  ["class", "constant", "enum", "function", "interface", "method", "namespace", "property",
    "trait"]

/-- How sure a declaration read off the syntax is. -/
def syntacticConfidence : Json :=
  .decimal ⟨false, 0, [⟨8, by decide⟩, ⟨5, by decide⟩], none⟩

/-- A concept as JSON, its relationships and metadata in the order of their keys. -/
def Concept.toJson (c : Concept) : Json :=
  let byKey {α : Type} (entries : List (String × α)) : List (String × α) :=
    entries.mergeSort fun a b => decide (a.1 ≤ b.1)
  .obj [("id", .str c.id), ("name", .str c.name), ("concept_type", .str c.conceptType),
    ("confidence", syntacticConfidence), ("file_path", .str c.filePath),
    ("line_range", .obj [("start", .int c.lines.start), ("end", .int c.lines.stop)]),
    ("relationships",
      .obj ((byKey c.relationships).map fun r => (r.1, .arr (r.2.map Json.str)))),
    ("metadata", .obj ((byKey c.metadata).map fun m => (m.1, .str m.2)))]

end PhpCatalog
