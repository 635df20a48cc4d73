/-
# Docblocks

A docblock is a comment that opens with `/**` and stands right before a declaration.  Each of its
lines, once the comment marks are cleaned off, is a tag or a line of the description:

* `@param T $n` documents a parameter and is kept as `T $n`; the dollar sign may be missing;
* `@return T` documents the result, and a later one replaces an earlier one;
* `@throws T` documents an exception;
* a line that starts with `@` otherwise says nothing;
* any other line that is not empty belongs to the description.

The search for the docblock of a declaration goes back over extra siblings.  The first comment it
meets decides, and a sibling that is neither ends it.
-/
import PhpCatalog.Concept
import PhpCatalog.Syntax.Node
import PhpCatalog.Text.Lines
import PhpCatalog.Text.Word

namespace PhpCatalog

/-- What a docblock says. -/
structure Docblock where
  description : String := ""
  params : List String := []
  returns : Option String := none
  throws : List String := []
  deriving Repr, DecidableEq

namespace Docblock

open Text (isBlank isWord trim trimStart)

/-- The mark that opens a docblock. -/
def opener : List Char := ['/', '*', '*']

/-- The mark that closes a comment. -/
def closer : List Char := ['*', '/']

/-- A line without the mark that opens a docblock. -/
def dropOpener (line : List Char) : List Char :=
  if opener.isPrefixOf line then line.drop opener.length else line

/-- A line without the mark that closes a comment. -/
def dropCloser (line : List Char) : List Char :=
  if closer.isSuffixOf line then line.take (line.length - closer.length) else line

/-- A line without comment marks and the blanks around them. -/
def clean (line : List Char) : List Char :=
  trim ((trim (dropCloser (dropOpener (trim line)))).dropWhile (· == '*'))

/-- What one line says. -/
inductive Entry where
  | param (type name : List Char)
  | returns (type : List Char)
  | throws (type : List Char)
  | text (words : List Char)
  | nothing
  deriving Repr, DecidableEq

/-- What follows a tag and the blanks behind it, if a line starts with them. -/
def afterTag? (tag line : List Char) : Option (List Char) :=
  if tag.isPrefixOf line then
    match line.drop tag.length with
    | c :: rest => if isBlank c then some (trimStart rest) else none
    | [] => none
  else none

/-- The first word of a text and what follows it. -/
def word (s : List Char) : List Char × List Char :=
  (s.takeWhile (!isBlank ·), s.dropWhile (!isBlank ·))

/-- A text without the dollar sign it may start with. -/
def dropSigil : List Char → List Char
  | '$' :: more => more
  | s => s

/-- The type and the name that a parameter tag documents. -/
def param? (line : List Char) : Option (List Char × List Char) := do
  let (type, rest) := word (← afterTag? "@param".toList line)
  let name := (dropSigil (trimStart rest)).takeWhile isWord
  if type.isEmpty || name.isEmpty then none else some (type, name)

/-- The type that a tag of one word documents. -/
def typeAfter? (tag line : List Char) : Option (List Char) := do
  let (type, _) := word (← afterTag? tag line)
  if type.isEmpty then none else some type

/-- What a clean line says. -/
def classify (line : List Char) : Entry :=
  match line with
  | [] => .nothing
  | '@' :: _ =>
    match param? line with
    | some (type, name) => .param type name
    | none =>
      match typeAfter? "@return".toList line with
      | some type => .returns type
      | none =>
        match typeAfter? "@throws".toList line with
        | some type => .throws type
        | none => .nothing
  | _ => .text line

/-- What the lines of a comment say, in order. -/
def entries (raw : List Char) : List Entry :=
  (Text.lines raw).map fun line => classify (clean line)

/-- The docblock that some entries make. -/
def ofEntries (es : List Entry) : Docblock where
  description := " ".intercalate (es.filterMap fun
    | .text words => some (String.ofList words)
    | _ => none)
  params := es.filterMap fun
    | .param type name => some (String.ofList (type ++ [' ', '$'] ++ name))
    | _ => none
  returns := (es.filterMap fun
    | .returns type => some (String.ofList type)
    | _ => none).getLast?
  throws := es.filterMap fun
    | .throws type => some (String.ofList type)
    | _ => none

/-- Reads a comment as a docblock. -/
def parse (raw : List Char) : Docblock :=
  ofEntries (entries raw)

/-- A docblock as metadata, without its empty parts. -/
def toMetadata (d : Docblock) : Metadata :=
  (if d.description = "" then [] else [("docblock.description", d.description)]) ++
  (if d.params.isEmpty then [] else [("docblock.params", "|".intercalate d.params)]) ++
  (match d.returns with
    | some type => [("docblock.return", type)]
    | none => []) ++
  (if d.throws.isEmpty then [] else [("docblock.throws", "|".intercalate d.throws)])

/-- The kinds of comments that may be docblocks. -/
def commentKinds : List String := ["comment", "phpdoc_comment"]

/-- The docblock of a declaration, from the siblings before it, nearest first. -/
def find? (source : ByteArray) : List Node → Option Docblock
  | [] => none
  | n :: before =>
    if commentKinds.contains n.kind then
      let raw := n.chars source
      if opener.isPrefixOf (trimStart raw) then some (parse raw) else none
    else if n.kind == "inline_comment" || !n.extra then none
    else find? source before

end Docblock

end PhpCatalog
