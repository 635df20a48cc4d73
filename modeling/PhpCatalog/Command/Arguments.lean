/-
# Arguments

Arguments are read in two passes.  The first tells options from the rest: a word that starts with
a dash is an option unless it is a lone dash, `--` ends the options, a long option may have its
value behind `=`, and short options may share a dash.  Options of the program stop at the command;
those of a command may stand anywhere behind it.  The second pass makes a request of what was
read.  Asking for help or the version wins over everything but a fault of the first pass; then
the kinds are checked, and then the paths, in the order they were given.
-/
import PhpCatalog.Command.Usage
import PhpCatalog.Volume

namespace PhpCatalog.Command

/-- What the first pass found: options with their values, and all other words. -/
structure Words where
  options : List (Flag × String) := []
  rest : List String := []
  deriving Repr, DecidableEq

/-- An option before other words. -/
def Words.addOption (w : Words) (flag : Flag) (value : String) : Words :=
  { w with options := (flag, value) :: w.options }

/-- A word that is no option before other words. -/
def Words.addWord (w : Words) (word : String) : Words :=
  { w with rest := word :: w.rest }

/-- The name of an option and the value written behind it. -/
def splitValue (arg : String) : String × Option String :=
  let cs := arg.toList
  match cs.dropWhile (· != '=') with
  | [] => (arg, none)
  | _ :: value => (String.ofList (cs.takeWhile (· != '=')), some (String.ofList value))

/-- The options that share a dash. -/
def shortFlags (page : Page) : List Char → Except UsageFault (List Flag)
  | [] => .ok []
  | c :: rest =>
    match page.options.find? fun o => o.short == some c with
    | none => .error (.noSuchOption page (String.ofList ['-', c]))
    | some o => (shortFlags page rest).map (o.flag :: ·)

/-- The first pass. -/
def readWords (page : Page) : List String → Except UsageFault Words
  | [] => .ok {}
  | arg :: rest =>
    if arg = "--" then .ok { rest }
    else if arg.toList.head? = some '-' && arg != "-" then
      let (name, value) := splitValue arg
      match page.options.find? (·.long == name) with
      | some o =>
        if o.takesValue then
          match value with
          | some v => (readWords page rest).map (·.addOption o.flag v)
          | none =>
            match rest with
            | [] => .error (.valueMissing o.long)
            | v :: others => (readWords page others).map (·.addOption o.flag v)
        else
          match value with
          | some _ => .error (.valueNotWanted o.long)
          | none => (readWords page rest).map (·.addOption o.flag "")
      | none =>
        if "--".toList.isPrefixOf arg.toList then .error (.noSuchOption page name)
        else
          match shortFlags page (arg.toList.drop 1) with
          | .error e => .error e
          | .ok flags =>
            (readWords page rest).map fun w => flags.foldr (fun flag w => w.addOption flag "") w
    else if page.interspersed then (readWords page rest).map (·.addWord arg)
    else .ok { rest := arg :: rest }

/-- What the program is asked to do. -/
inductive Request where
  | help (page : Page)
  | version
  | extract (kinds : List String) (paths : List String)
  | scan (list : Bool) (path : String)
  deriving Repr, DecidableEq

/-- A request, and how it is to be answered. -/
structure Invocation where
  json : Bool := false
  verbose : Bool := false
  request : Request
  deriving Repr, DecidableEq

/-- Why there is no request. -/
inductive Refusal where
  /-- There are no arguments at all. -/
  | noArguments
  | usage (f : UsageFault)
  deriving Repr, DecidableEq

/-- The request that wins over all others on a page, if one was made: the first one. -/
def eager? (page : Page) (w : Words) : Option Request :=
  w.options.findSome? fun o =>
    match o.1 with
    | .help => some (.help page)
    | .version => some .version
    | _ => none

/-- The kinds of some words have to be known. -/
def checkKinds (w : Words) : Except UsageFault (List String) :=
  let kinds := w.options.filterMap fun o => if o.1 = .kind then some o.2 else none
  match kinds.find? fun k => !conceptTypes.contains k with
  | some k => .error (.notAKind k)
  | none => .ok kinds

/-- A path that is not a file, if there is one: the first. -/
def checkFiles (v : Volume) : List String → Except UsageFault Unit
  | [] => .ok ()
  | path :: rest =>
    match v.locateText path with
    | .error _ => .error (.notAFile .missing path)
    | .ok (.directory _) => .error (.notAFile .otherKind path)
    | .ok (.file _) => checkFiles v rest

/-- The path has to be a directory. -/
def checkDirectory (v : Volume) (path : String) : Except UsageFault Unit :=
  match v.locateText path with
  | .error _ => .error (.notADirectory .missing path)
  | .ok (.file _) => .error (.notADirectory .otherKind path)
  | .ok (.directory _) => .ok ()

/-- The request to extract. -/
def extractRequest (v : Volume) (args : List String) : Except UsageFault Request := do
  let w ← readWords .extract args
  match eager? .extract w with
  | some r => return r
  | none =>
    let kinds ← checkKinds w
    if w.rest.isEmpty then throw .noPaths
    checkFiles v w.rest
    return .extract kinds w.rest

/-- The request to scan: one directory, the current one if none is named. -/
def scanRequest (v : Volume) (args : List String) : Except UsageFault Request := do
  let w ← readWords .scan args
  match eager? .scan w with
  | some r => return r
  | none =>
    let path := w.rest.headD "."
    checkDirectory v path
    if w.rest.length > 1 then throw (.extraArguments .scan (w.rest.drop 1))
    return .scan (w.options.any fun o => o.1 = .list) path

/-- Whether a word could have been meant as an option: it starts with neither a letter nor a
digit. -/
def resemblesOption (word : String) : Bool :=
  match word.toList with
  | [] => false
  | c :: _ => !(Text.isWord c && c != '_')

/-- The request of a command and its arguments.  A word that is no command but resembles an option
is first read as one. -/
def commandRequest (v : Volume) (command : String) (args : List String) :
    Except UsageFault Request :=
  match command with
  | "extract" => extractRequest v args
  | "scan" => scanRequest v args
  | _ => do
    if resemblesOption command then
      let w ← readWords .top (command :: args)
      match eager? .top w with
      | some r => return r
      | none => throw (.noSuchCommand command)
    throw (.noSuchCommand command)

/-- The invocation that some arguments make. -/
def parse (v : Volume) (args : List String) : Except Refusal Invocation :=
  if args.isEmpty then .error .noArguments
  else
    match readWords .top args with
    | .error f => .error (.usage f)
    | .ok w =>
      let json := w.options.any fun o => o.1 = .json
      let verbose := w.options.any fun o => o.1 = .verbose
      match eager? .top w with
      | some request => .ok { json, verbose, request }
      | none =>
        match w.rest with
        | [] => .error (.usage .missingCommand)
        | command :: rest =>
          match commandRequest v command rest with
          | .error f => .error (.usage f)
          | .ok request => .ok { json, verbose, request }

end PhpCatalog.Command
