/-
# Languages and file names

The language of a file is told by its suffix, in either case: the part of its name from the last
dot on.  Dots at the start of a name do not begin a suffix.  Only letters of ASCII have their case
folded; no other character could turn into a letter of a known suffix.
-/

namespace PhpCatalog

/-- The name of a file: what follows the last slash of its path. -/
def baseName (path : List Char) : List Char :=
  (path.reverse.takeWhile (· != '/')).reverse

/-- The suffix of a file name: its last dot and what follows, unless only dots come before. -/
def suffix (path : List Char) : List Char :=
  let name := (baseName path).dropWhile (· == '.')
  if name.contains '.' then '.' :: (name.reverse.takeWhile (· != '.')).reverse else []

/-- A text in lower case, as far as ASCII goes. -/
def lower (s : List Char) : List Char :=
  s.map Char.toLower

/-- The suffixes of PHP files. -/
def phpSuffixes : List (List Char) :=
  [".php".toList, ".phtml".toList, ".php5".toList, ".php7".toList, ".phps".toList, ".inc".toList]

/-- A language that has an extractor. -/
inductive Language where
  | php
  deriving Repr, DecidableEq

/-- The name of a language. -/
def Language.name : Language → String
  | .php => "php"

/-- The language of a file, by its suffix; `fold` writes it in lower case. -/
def Language.ofPathBy? (fold : List Char → List Char) (path : String) : Option Language :=
  if phpSuffixes.contains (fold (suffix path.toList)) then some .php else none

/-- The language of a file, by its suffix. -/
def Language.ofPath? (path : String) : Option Language :=
  Language.ofPathBy? lower path

/-- A language without an extractor. -/
structure UnsupportedLanguage where
  name : String
  deriving Repr, DecidableEq

/-- The wording of a refused language. -/
def UnsupportedLanguage.message (e : UnsupportedLanguage) : String :=
  "Unsupported language: " ++ e.name

/-- The language of a name. -/
def Language.ofName (name : String) : Except UnsupportedLanguage Language :=
  if name = Language.php.name then .ok .php else .error ⟨name⟩

end PhpCatalog
