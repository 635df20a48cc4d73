/-
# Listings

The files of a project come from the version control that tracks them, if it answers, and else
from a walk through its directories.  An answer is a text with one path a line; the walk passes by
the directories that hold no sources of the project.
-/
import PhpCatalog.Text.Blank
import PhpCatalog.Text.Lines
import PhpCatalog.Volume

namespace PhpCatalog

/-- What asking for the tracked files brought. -/
inductive Listing where
  /-- There is nothing to ask. -/
  | unavailable
  /-- The answer did not come in time. -/
  | timedOut
  /-- An answer, with the exit code it came with. -/
  | output (code : Int) (text : String)
  deriving Repr, DecidableEq

/-- The paths of an answer: its lines without the blanks around them, empty ones left out. -/
def Listing.paths (text : String) : List String :=
  ((Text.lines text.toList).map fun line => String.ofList (Text.trim line)).filter (· != "")

/-- The tracked files, unless there is no answer or it came with an error. -/
def Listing.tracked? : Listing → Option (List String)
  | .output code text => if code = 0 then some (paths text) else none
  | .unavailable | .timedOut => none

/-- The directories that a walk passes by. -/
def bypassed : List String :=
  [".git", ".hg", ".svn", "node_modules", "__pycache__", ".tox", ".mypy_cache", ".pytest_cache",
    ".ruff_cache", "venv", ".venv", "env", ".env", ".idea", ".vscode"]

/-- Whether a walk passes an entry by: a directory of one of the names above. -/
def isBypassed (name : String) : Entry → Bool
  | .file _ => false
  | .directory _ => bypassed.contains name

mutual

/-- The files at an entry and below it, as the names that lead to them from it. -/
def Entry.files : Entry → List (List String)
  | .file _ => [[]]
  | .directory entries => Entry.filesAmong entries

/-- The files among some entries and below them. -/
def Entry.filesAmong : List (String × Entry) → List (List String)
  | [] => []
  | named :: rest => Entry.filesUnder named ++ Entry.filesAmong rest

/-- The files of one named entry. -/
def Entry.filesUnder : String × Entry → List (List String)
  | (name, e) => if isBypassed name e then [] else e.files.map fun names => name :: names

end

/-- The files below a directory, by their paths from it.  Where there is no directory there are no
files. -/
def Volume.walk (v : Volume) (root : Path) : List String :=
  match v.locate root with
  | .ok (.directory entries) =>
    (Entry.filesAmong entries).map fun names => String.intercalate "/" names
  | _ => []

end PhpCatalog
