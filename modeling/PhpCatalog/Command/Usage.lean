/-
# Usage

What the program says about its own use: its options, a page of help for the program and for each
command, and the ways in which arguments can be wrong.  Most faults are shown under the usage line
of the page they concern; a value that is missing or not wanted is shown alone.
-/
import PhpCatalog.Concept
import PhpCatalog.Text.Quote
import PhpCatalog.Text.Word

namespace PhpCatalog.Command

/-- The pages of help: the program's, and one for each command. -/
inductive Page where
  | top
  | extract
  | scan
  deriving Repr, DecidableEq

/-- What an option asks for. -/
inductive Flag where
  | version
  | json
  | verbose
  | kind
  | list
  | help
  deriving Repr, DecidableEq

/-- An option as it is written. -/
structure OptionForm where
  flag : Flag
  long : String
  short : Option Char := none
  takesValue : Bool := false
  deriving Repr, DecidableEq

/-- The options of a page. -/
def Page.options : Page → List OptionForm
  | .top => [⟨.version, "--version", none, false⟩, ⟨.json, "--json", none, false⟩,
      ⟨.verbose, "--verbose", some 'v', false⟩, ⟨.help, "--help", none, false⟩]
  | .extract => [⟨.kind, "--kind", none, true⟩, ⟨.help, "--help", none, false⟩]
  | .scan => [⟨.list, "--list", none, false⟩, ⟨.help, "--help", none, false⟩]

/-- Whether options of a page may stand behind other arguments. -/
def Page.interspersed : Page → Bool
  | .top => false
  | .extract | .scan => true

/-- The words that call for a page. -/
def Page.words : Page → String
  | .top => "phpconcepts"
  | .extract => "phpconcepts extract"
  | .scan => "phpconcepts scan"

/-- The arguments of a page in short. -/
def Page.arguments : Page → String
  | .top => "COMMAND [ARGS]..."
  | .extract => "PATHS..."
  | .scan => "[PATH]"

/-- The line that shows how a page is used. -/
def Page.usageLine (p : Page) : String :=
  "Usage: " ++ p.words ++ " [OPTIONS] " ++ p.arguments

/-- What a page of help says below its usage line. -/
def Page.body : Page → List String
  | .top =>
    ["  phpconcepts: catalog PHP declarations with docblock metadata.",
      "",
      "Options:",
      "  --version      Show the version and exit.",
      "  --json         Output in JSON format",
      "  -v, --verbose  Log extraction details to stderr",
      "  --help         Show this message and exit.",
      "",
      "Commands:",
      "  extract  List the concepts declared in each PHP file.",
      "  scan     Discover PHP files under PATH and catalog their concepts."]
  | .extract =>
    ["  List the concepts declared in each PHP file.",
      "",
      "Options:",
      "  --kind [" ++ String.intercalate "|" conceptTypes ++ "]",
      "                                  Only show concepts of this type (repeatable)",
      "  --help                          Show this message and exit."]
  | .scan =>
    ["  Discover PHP files under PATH and catalog their concepts.",
      "",
      "Options:",
      "  --list  List every concept, not just counts",
      "  --help  Show this message and exit."]

/-- A page of help. -/
def Page.help (p : Page) : String :=
  String.intercalate "\n" (p.usageLine :: "" :: p.body)

/-- A path that is not what a command asks for. -/
inductive PathFault where
  | missing
  | otherKind
  deriving Repr, DecidableEq

/-- A fault of the arguments. -/
inductive UsageFault where
  | noSuchOption (page : Page) (name : String)
  | noSuchCommand (name : String)
  | missingCommand
  | valueMissing (name : String)
  | valueNotWanted (name : String)
  | notAKind (value : String)
  | noPaths
  | notAFile (cause : PathFault) (value : String)
  | notADirectory (cause : PathFault) (value : String)
  | extraArguments (page : Page) (values : List String)
  deriving Repr, DecidableEq

/-- The page that a fault is shown under, if it is not shown alone. -/
def UsageFault.page? : UsageFault → Option Page
  | .noSuchOption page _ => some page
  | .noSuchCommand _ | .missingCommand => some .top
  | .valueMissing _ | .valueNotWanted _ => none
  | .notAKind _ | .noPaths | .notAFile _ _ => some .extract
  | .notADirectory _ _ => some .scan
  | .extraArguments page _ => some page

/-- The wording of a fault. -/
def UsageFault.message : UsageFault → String
  | .noSuchOption _ name => "No such option " ++ Text.quoted name ++ "."
  | .noSuchCommand name => "No such command " ++ Text.quoted name ++ "."
  | .missingCommand => "Missing command."
  | .valueMissing name => "Option " ++ Text.quoted name ++ " requires an argument."
  | .valueNotWanted name => "Option " ++ Text.quoted name ++ " does not take a value."
  | .notAKind value =>
    "Invalid value for '--kind': " ++ Text.quoted value ++ " is not one of " ++
      String.intercalate ", " (conceptTypes.map fun t => "'" ++ t ++ "'") ++ "."
  | .noPaths => "Missing argument 'PATHS...'."
  | .notAFile cause value =>
    "Invalid value for 'PATHS...': File " ++ Text.quoted value ++
      (match cause with
        | .missing => " does not exist."
        | .otherKind => " is a directory.")
  | .notADirectory cause value =>
    "Invalid value for '[PATH]': Directory " ++ Text.quoted value ++
      (match cause with
        | .missing => " does not exist."
        | .otherKind => " is a file.")
  | .extraArguments _ values =>
    "Got unexpected extra argument" ++ (if values.length = 1 then "" else "s") ++ " (" ++
      String.intercalate " " values ++ ")"

/-- What is shown for a fault. -/
def UsageFault.report (f : UsageFault) : List String :=
  (match f.page? with
    | some page => [page.usageLine, "Try '" ++ page.words ++ " --help' for help.", ""]
    | none => []) ++ ["Error: " ++ f.message]

end PhpCatalog.Command
