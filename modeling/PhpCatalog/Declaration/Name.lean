/-
# Names of declarations

The name of a declaration is found in one of three places, and the first that is not empty counts:
the field `name`, without the dollar signs in front if it is a variable; the first child that is an
identifier; the first child that is a variable.  Looking for an identifier is the step that can
fail: it needs the spans of the node and of the identifier to lie inside the source.
-/
import PhpCatalog.Failure
import PhpCatalog.Syntax.Node

namespace PhpCatalog

/-- The kinds of nodes that are identifiers. -/
def identifierKinds : List String :=
  ["name", "identifier", "type_identifier", "property_identifier", "field_identifier",
    "constant_identifier"]

namespace Node

/-- A text without the dollar signs it starts with. -/
def dropSigils (s : List Char) : List Char :=
  s.dropWhile (· == '$')

/-- Refuses a node whose span is not a part of the source. -/
def checkInside (n : Node) (source : ByteArray) (filePath : Option String) :
    Except NodeFault Unit :=
  if n.inside source then .ok ()
  else .error ⟨.span n.start n.stop source.size, filePath, some n.kind⟩

/-- The text of the first child that is an identifier, or the empty text. -/
def identifier (n : Node) (source : ByteArray) (filePath : Option String) :
    Except NodeFault String := do
  n.checkInside source filePath
  match n.children.find? fun c => identifierKinds.contains c.kind with
  | none => return ""
  | some c =>
    c.checkInside source filePath
    return c.trimmedText source

/-- The text of the field `name`, or the empty text. -/
def fieldName (n : Node) (source : ByteArray) : String :=
  match n.child? "name" with
  | none => ""
  | some c =>
    if c.kind == "variable_name" then String.ofList (dropSigils (c.chars source))
    else c.text source

/-- The text of the first child that is a variable, or the empty text. -/
def variableName (n : Node) (source : ByteArray) : String :=
  match n.childOfKind? "variable_name" with
  | none => ""
  | some c => String.ofList (dropSigils (c.chars source))

/-- The name of a declaration, or the empty text. -/
def declaredName (n : Node) (source : ByteArray) (filePath : Option String) :
    Except NodeFault String :=
  let name := n.fieldName source
  if name ≠ "" then .ok name
  else
    match n.identifier source filePath with
    | .error fault => .error fault
    | .ok name => .ok (if name ≠ "" then name else n.variableName source)

/-- The texts of the children that are names, in order, without empty ones. -/
def names (n : Node) (source : ByteArray) : List String :=
  (n.children.filter fun c => identifierKinds.contains c.kind || c.kind == "qualified_name").map
    (·.trimmedText source) |>.filter (· ≠ "")

end Node

end PhpCatalog
