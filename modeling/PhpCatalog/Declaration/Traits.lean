/-
# Traits of a class

The traits of a class are the names in the trait-use clauses that are children of the class or of
its body.  If these give no name, the text of the class is searched instead for `use Name;` at the
start of a line: blanks, which may run over several lines, the word `use`, blanks, a name of ASCII
letters, digits, underscores and backslashes that does not start with a digit, blanks if any, and a
semicolon.  The search goes from left to right and each find ends before the next begins.
-/
import PhpCatalog.Declaration.Name
import PhpCatalog.Text.Order

namespace PhpCatalog

namespace TraitUse

open Text (isBlank trimStart)

/-- The characters a trait name may start with. -/
def isNameStart (c : Char) : Bool :=
  c.isAlpha || c == '_' || c == '\\'

/-- The characters of a trait name. -/
def isNameChar (c : Char) : Bool :=
  isNameStart c || c.isDigit

/-- The name in `use Name;` at the start of a text, blanks in front allowed, and what follows the
semicolon. -/
def head? (s : List Char) : Option (List Char × List Char) :=
  match trimStart s with
  | 'u' :: 's' :: 'e' :: c :: rest =>
    if isBlank c then
      let rest := trimStart rest
      let name := rest.takeWhile isNameChar
      match name, trimStart (rest.dropWhile isNameChar) with
      | first :: _, ';' :: after => if isNameStart first then some (name, after) else none
      | _, _ => none
    else none
  | _ => none

/-- The names in a text, given whether it begins at the start of a line.  The first argument
bounds the number of steps; each step takes at least one character. -/
def scan : Nat → Bool → List Char → List (List Char)
  | 0, _, _ => []
  | _, _, [] => []
  | n + 1, atStart, c :: rest =>
    match if atStart then head? (c :: rest) else none with
    | some (name, after) => name :: scan n false after
    | none => scan n (c == '\n') rest

/-- The names of `use Name;` at the starts of the lines of a text. -/
def inText (s : List Char) : List String :=
  (scan s.length true s).map String.ofList

/-- The kinds of nodes that are trait-use clauses. -/
def clauseKinds : List String := ["use_declaration", "trait_use_clause"]

/-- The names in the trait-use clauses among some nodes. -/
def inClauses (source : ByteArray) (nodes : List Node) : List String :=
  (nodes.filter fun c => clauseKinds.contains c.kind).flatMap (·.names source)

end TraitUse

namespace Node

/-- The children of a node's body, if it has one. -/
def bodyChildren (n : Node) : List Node :=
  match n.child? "body" with
  | some b => b.children
  | none => []

/-- The names in the trait-use clauses of a class. -/
def clauseTraits (n : Node) (source : ByteArray) : List String :=
  TraitUse.inClauses source n.children ++ TraitUse.inClauses source n.bodyChildren

/-- The traits of a class, in ascending order. -/
def traits (n : Node) (source : ByteArray) : List String :=
  let found := n.clauseTraits source
  Text.sortDistinct (if found.isEmpty then TraitUse.inText (n.chars source) else found)

end Node

end PhpCatalog
