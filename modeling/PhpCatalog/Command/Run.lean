/-
# Running the program

A run takes arguments to an outcome: an exit code, what goes to the two output streams, and the
crash that ended it, if one did.  Log records go to the error stream, warnings always and the rest
on request, and a failure is worded after them.  What is shown, though not what is logged, goes
without terminal commands.
-/
import PhpCatalog.Command.Arguments
import PhpCatalog.Command.Scan
import PhpCatalog.Text.Terminal

namespace PhpCatalog.Command

/-- How a run ends. -/
structure Outcome where
  exitCode : Int := 0
  stdout : String := ""
  stderr : String := ""
  crash : Option Crash := none

/-- A text shown as lines of its own. -/
def show_ (text : String) : String :=
  Text.plain text ++ "\n"

/-- Several texts, one below the other. -/
def showAll (texts : List String) : String :=
  String.join (texts.map show_)

/-- Whether a record is shown. -/
def isShown (verbose : Bool) (r : Record) : Bool :=
  verbose || r.level = .warning

/-- The log as it is shown. -/
def logText (verbose : Bool) (log : List Record) : String :=
  String.join ((log.filter (isShown verbose)).map fun r => r.line ++ "\n")

/-- The outcome of what a command did. -/
def Work.outcome (verbose : Bool) (w : Work) : Outcome :=
  let log := logText verbose w.log
  let stdout := showAll w.shown
  match w.ended with
  | none => { stdout, stderr := log }
  | some (.failure f) =>
    { exitCode := f.exitCode, stdout, stderr := log ++ show_ ("Error: " ++ f.message) }
  | some (.crash c) => { exitCode := 1, stdout, stderr := log, crash := some c }

/-- The outcome of arguments that make no request. -/
def Refusal.outcome : Refusal → Outcome
  | .noArguments => { exitCode := 2, stderr := show_ Page.top.help }
  | .usage f => { exitCode := 2, stderr := showAll f.report }

/-- The outcome of an invocation. -/
def Invocation.outcome (s : Surroundings) (i : Invocation) : Outcome :=
  match i.request with
  | .help page => { stdout := show_ page.help }
  | .version => { stdout := show_ ("phpconcepts, version " ++ Report.version) }
  | .extract kinds paths => (extract s i.json kinds paths).outcome i.verbose
  | .scan list path => (scan s i.json list path).outcome i.verbose

/-- Runs the program. -/
def run (s : Surroundings) (args : List String) : Outcome :=
  match parse s.volume args with
  | .error r => r.outcome
  | .ok i => i.outcome s

end PhpCatalog.Command
