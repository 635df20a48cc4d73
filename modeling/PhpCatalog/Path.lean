/-
# Paths

A path is a list of names behind an anchor: nothing, the root, or the root spelled with exactly
two slashes, which some systems keep apart.  Reading a path drops empty names and single dots;
`..` stays, because it need not cancel the name before it until someone looks.  `Path.normal` does
cancel, on the names alone, and `Path.resolve` does so after going to the current directory.
-/

namespace PhpCatalog

/-- What a path starts from. -/
inductive Anchor where
  | relative
  | root
  | doubleRoot
  deriving Repr, DecidableEq

/-- An anchor as it is written. -/
def Anchor.text : Anchor → String
  | .relative => ""
  | .root => "/"
  | .doubleRoot => "//"

/-- The anchor a text starts with: two slashes are an anchor of their own, three are not. -/
def Anchor.ofText : List Char → Anchor
  | '/' :: '/' :: '/' :: _ => .root
  | '/' :: '/' :: _ => .doubleRoot
  | '/' :: _ => .root
  | _ => .relative

/-- The pieces of a text between its slashes. -/
def splitSlashes : List Char → List (List Char)
  | [] => [[]]
  | c :: rest =>
    if c = '/' then [] :: splitSlashes rest
    else match splitSlashes rest with
      | [] => [[c]]
      | piece :: others => (c :: piece) :: others

/-- An anchor and the names that follow it. -/
structure Path where
  anchor : Anchor
  parts : List String
  deriving Repr, DecidableEq

namespace Path

/-- The names of a text, without empty ones and single dots. -/
def partsOf (text : String) : List String :=
  ((splitSlashes text.toList).map String.ofList).filter fun part => part != "" && part != "."

/-- Reads a path. -/
def ofString (text : String) : Path :=
  ⟨Anchor.ofText text.toList, partsOf text⟩

/-- Writes a path; the path without names and anchor is a dot. -/
def text (p : Path) : String :=
  if p.anchor = .relative && p.parts.isEmpty then "."
  else p.anchor.text ++ String.intercalate "/" p.parts

/-- A path below another one.  A path with an anchor of its own stays what it is. -/
def join (base p : Path) : Path :=
  if p.anchor = .relative then ⟨base.anchor, base.parts ++ p.parts⟩ else p

/-- A name below a path. -/
def child (base : Path) (name : String) : Path :=
  ⟨base.anchor, base.parts ++ [name]⟩

/-- The path that holds a path; a path without names is its own. -/
def parent (p : Path) : Path :=
  ⟨p.anchor, p.parts.dropLast⟩

/-- One more name on a stack of names, the last on top.  An empty name and a dot stay in place, and
`..` takes the name before it away.  At the bottom it is dropped below a root, and kept
otherwise. -/
def collapseStep (rooted : Bool) (stack : List String) (part : String) : List String :=
  if part = "" || part = "." then stack
  else if part = ".." then
    match stack with
    | [] => if rooted then [] else [".."]
    | top :: below => if top = ".." then ".." :: stack else below
  else part :: stack

/-- Names with every `..` taken out that has a name before it. -/
def collapse (rooted : Bool) (parts : List String) : List String :=
  (parts.foldl (collapseStep rooted) []).reverse

/-- The path without names that cancel. -/
def normal (p : Path) : Path :=
  ⟨p.anchor, collapse (p.anchor != .relative) p.parts⟩

/-- The path from the root that a path stands for in the current directory. -/
def resolve (here : List String) (p : Path) : Path :=
  let parts := if p.anchor = .relative then here ++ p.parts else p.parts
  ⟨.root, collapse true parts⟩

/-- The rest of a path below another one, if it is below it. -/
def relativeTo? (p base : Path) : Option Path :=
  if p.anchor = base.anchor && base.parts.isPrefixOf p.parts then
    some ⟨.relative, p.parts.drop base.parts.length⟩
  else none

end Path

/-- A text with slashes for backslashes. -/
def forwardSlashes (s : String) : String :=
  String.ofList (s.toList.map fun c => if c = '\\' then '/' else c)

end PhpCatalog
