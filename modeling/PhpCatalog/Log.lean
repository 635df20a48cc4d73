/-
# Log records

What the catalog has to say beside its results: which nodes it skipped, which files it could not
read, how much it found.  A record has a level, the part of the program that speaks, and a text.
-/

namespace PhpCatalog

/-- How urgent a record is. -/
inductive Level where
  | debug
  | info
  | warning
  deriving Repr, DecidableEq

/-- The name of a level. -/
def Level.name : Level → String
  | .debug => "DEBUG"
  | .info => "INFO"
  | .warning => "WARNING"

/-- The part of the program that speaks. -/
inductive Channel where
  | declarations
  | extraction
  | manifest
  deriving Repr, DecidableEq

/-- The name a channel goes by in the log. -/
def Channel.name : Channel → String
  | .declarations => "phpconcepts.languages.php_lang"
  | .extraction => "phpconcepts.index.extraction"
  | .manifest => "phpconcepts.index.composer"

/-- One record. -/
structure Record where
  level : Level
  channel : Channel
  text : String
  deriving Repr, DecidableEq

/-- A record as a line. -/
def Record.line (r : Record) : String :=
  r.level.name ++ " " ++ r.channel.name ++ ": " ++ r.text

end PhpCatalog
