/-
# Ends of an operation

An operation that cannot finish ends in one of two ways.  A failure is foreseen: it is worded for
the user and has an exit code.  A crash is not: nothing in the program answers it, and it ends the
run wherever it arises.
-/
import PhpCatalog.Concept
import PhpCatalog.Failure
import PhpCatalog.Json.Machine
import PhpCatalog.Language
import PhpCatalog.Log
import PhpCatalog.Volume

namespace PhpCatalog

/-- Why a project's manifest cannot be summarized. -/
inductive ManifestFault where
  /-- It is no object. -/
  | notAnObject
  /-- A part of it that should hold entries is a single value. -/
  | noEntries
  deriving Repr, DecidableEq

/-- A condition that no part of the program answers. -/
inductive Crash where
  | access (f : AccessFault)
  /-- The bytes of a file are no text. -/
  | encoding
  /-- A path has a null character. -/
  | nul
  /-- A JSON text or value goes beyond what can be read or written. -/
  | limit (l : Json.Limit)
  /-- A path does not lie below the directory it should lie in. -/
  | outside
  | manifest (f : ManifestFault)
  | language (e : UnsupportedLanguage)
  | lines (e : InvalidLineRange)
  deriving Repr, DecidableEq

/-- A crash in words. -/
def Crash.message : Crash → String
  | .access f => f.message
  | .encoding => "a file is not text in UTF-8"
  | .nul => "a path has a null character"
  | .limit .digits => "an integer has too many digits"
  | .limit .nesting => "a value is nested too deep"
  | .outside => "a path is not inside the project"
  | .manifest .notAnObject => "the manifest is not an object"
  | .manifest .noEntries => "a part of the manifest has no entries"
  | .language e => e.message
  | .lines e => e.message

/-- The end of an operation that did not finish. -/
inductive Abort where
  | failure (f : Failure)
  | crash (c : Crash)
  deriving Repr, DecidableEq

/-- A text that cannot be read ends the operation that needs it. -/
def TextFault.crash : TextFault → Crash
  | .access f => .access f
  | .nul => .nul
  | .encoding => .encoding

/-- A value, and what was said on the way to it. -/
structure Logged (α : Type) where
  log : List Record
  value : α

end PhpCatalog
