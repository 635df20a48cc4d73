/-
# From declarations to concepts

Ten kinds of nodes declare something.  Eight declare one thing, the node itself; a property or a
constant declaration bundles several declarators, and each of them is a concept of its own that
shares the modifiers, the type and the docblock of the bundle.

A declaration without a name is skipped, and the log says so.  A declaration whose name cannot be
read is a `NodeFault`, and then the whole bundle declares nothing.
-/
import PhpCatalog.Declaration.Traits
import PhpCatalog.Docblock
import PhpCatalog.Log

namespace PhpCatalog

/-- How a kind of node declares concepts. -/
structure DeclarationRule where
  /-- The label of the syntax, which goes into the identifier of a concept. -/
  label : String
  /-- The kinds of the declarators it bundles, or `none` if the node is one declaration. -/
  declarators : Option (List String) := none

/-- The rule for a kind of node, if it declares anything. -/
def declarationRule? : String → Option DeclarationRule
  | "class_declaration" => some ⟨"class_declaration", none⟩
  | "interface_declaration" => some ⟨"interface_declaration", none⟩
  | "trait_declaration" => some ⟨"trait_declaration", none⟩
  | "enum_declaration" => some ⟨"enum_declaration", none⟩
  | "function_definition" => some ⟨"function", none⟩
  | "method_declaration" => some ⟨"method", none⟩
  | "property_promotion_parameter" => some ⟨"property", none⟩
  | "namespace_definition" => some ⟨"namespace", none⟩
  | "property_declaration" => some ⟨"property", some ["property_element"]⟩
  | "const_declaration" => some ⟨"constant", some ["const_element", "constant_declarator"]⟩
  | _ => none

/-- The type of concept that a label stands for. -/
def normalizeType : String → String
  | "class_declaration" => "class"
  | "interface_declaration" => "interface"
  | "trait_declaration" => "trait"
  | "enum_declaration" => "enum"
  | label => label

namespace Node

/-! ### What a declaration says about itself -/

/-- The line and column where a node starts and those where it ends, counted from one. -/
def position (n : Node) : Nat × Nat × Nat × Nat :=
  (n.startPoint.row + 1, n.startPoint.column + 1, n.stopPoint.row + 1, n.stopPoint.column + 1)

/-- The keywords that are a visibility by themselves. -/
def visibilityKeywords : List String := ["public", "protected", "private"]

/-- The visibility that one child states. -/
def statedVisibility (source : ByteArray) (c : Node) : Option String :=
  if c.kind == "visibility_modifier" then
    let text := c.trimmedText source
    if text = "" then none else some text
  else if visibilityKeywords.contains c.kind then some c.kind
  else none

/-- The first visibility among the children. -/
def visibility (n : Node) (source : ByteArray) : Option String :=
  n.children.findSome? (statedVisibility source)

/-- Whether a child is the modifier. -/
def hasModifier (n : Node) (modifier : String) : Bool :=
  n.children.any fun c => c.kind == modifier ++ "_modifier" || c.kind == modifier

/-- The text of the return type. -/
def returnType (n : Node) (source : ByteArray) : Option String :=
  (n.child? "return_type").map (·.trimmedText source)

/-- The text of the declared type. -/
def typeAnnotation (n : Node) (source : ByteArray) : Option String :=
  ((n.child? "type").or (n.child? "type_declaration")).map (·.trimmedText source)

end Node

/-- An entry of metadata, unless there is nothing to enter. -/
def Metadata.entry (key : String) : Option String → Metadata
  | none => []
  | some value => if value = "" then [] else [(key, value)]

/-- The modifiers that are recorded when they are present. -/
def flagModifiers : List String := ["static", "abstract", "final"]

/-- The language of every concept. -/
def languageName : String := "php"

/-- What the owner of a declaration says about it: visibility, modifiers, types, docblock. -/
def Site.shared (owner : Site) (source : ByteArray) : Metadata :=
  Metadata.entry "visibility" (owner.node.visibility source) ++
  (flagModifiers.filter owner.node.hasModifier).map (·, "true") ++
  Metadata.entry "return_type" (owner.node.returnType source) ++
  Metadata.entry "type" (owner.node.typeAnnotation source) ++
  (match Docblock.find? source owner.before with
    | some d => d.toMetadata
    | none => [])

/-- The metadata of a declaration.  `owner` is the node that has its modifiers and docblock. -/
def Node.metadata (n : Node) (owner : Site) (source : ByteArray) (conceptType : String) :
    Metadata :=
  let (_, startColumn, _, stopColumn) := n.position
  [("language", languageName), ("kind", conceptType), ("start_column", toString startColumn),
    ("end_column", toString stopColumn)] ++
  owner.shared source ++
  (if conceptType = "class" then
    Metadata.entry "traits" (some (",".intercalate (n.traits source)))
  else [])

/-- What stops the reading of a node. -/
inductive Stop where
  | fault (f : NodeFault)
  | lines (e : InvalidLineRange)
  deriving Repr, DecidableEq

/-- The identifier of a concept. -/
def conceptId (label filePath name : String) : String :=
  languageName ++ "::" ++ label ++ "::" ++ filePath ++ "::" ++ name

/-- The record of a declaration without a name. -/
def skippedRecord (n : Node) (filePath : String) : Record :=
  ⟨.debug, .declarations,
    "Skipping unnamed " ++ n.kind ++ " at " ++ filePath ++ ":" ++ toString (n.startPoint.row + 1)⟩

/-- The concept of one declaration; none if it has no name. -/
def Node.concept (n : Node) (owner : Site) (source : ByteArray) (filePath label : String) :
    Except Stop (Option Concept) :=
  match n.declaredName source (some filePath) with
  | .error f => .error (.fault f)
  | .ok name =>
    if name = "" then .ok none
    else
      let (startLine, _, stopLine, _) := n.position
      match LineRange.of startLine stopLine with
      | .error e => .error (.lines e)
      | .ok lines =>
        .ok (some {
          id := conceptId label filePath name
          name, filePath, lines
          conceptType := normalizeType label
          metadata := n.metadata owner source (normalizeType label) })

/-- What comes of a node: its concepts, or why there are none, and the log. -/
structure Reading where
  result : Except Stop (List Concept)
  log : List Record

/-- The concepts of some declarators, in order.  The first one that cannot be read ends the
reading and takes the others with it. -/
def readDeclarators (owner : Site) (source : ByteArray) (filePath label : String) :
    List Node → Reading
  | [] => ⟨.ok [], []⟩
  | n :: rest =>
    match n.concept owner source filePath label with
    | .error stop => ⟨.error stop, []⟩
    | .ok found =>
      let others := readDeclarators owner source filePath label rest
      match found with
      | none => { others with log := skippedRecord n filePath :: others.log }
      | some c => { others with result := others.result.map (c :: ·) }

/-- The concepts that a node declares. -/
def Site.read (site : Site) (source : ByteArray) (filePath : String) : Reading :=
  match declarationRule? site.node.kind with
  | none => ⟨.ok [], []⟩
  | some ⟨label, none⟩ => readDeclarators site source filePath label [site.node]
  | some ⟨label, some kinds⟩ =>
    readDeclarators site source filePath label
      (site.node.children.filter fun c => kinds.contains c.kind)

end PhpCatalog
